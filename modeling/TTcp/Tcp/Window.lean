import TTcp.Tcp.Queue

/-!
# TTcp.Tcp.Window

What `t_tcp_output` sends under a given window.

Whatever the window is, the segments that go out are the longest run of fitting
ones at the front of the unsent queue, and they go to the end of the unacked
queue (`tTcpOutput_window`).  The code's test is modular; on a control block
that was connected once nothing in it wraps (`Connected.fits_iff`), so the
window is respected in plain integers (`ConnectedOnce.window_used`).
-/

namespace TTcp

/-! ## the loop -/

/-- `seg'` is what the unacked queue holds of the unsent segment `seg`: the same
block with the same data, the header completed. -/
def TcpSeg.Passed (state : TcpState) (seg seg' : TcpSeg) : Prop := (seg.outgoing state).Filled seg'

/-- `q` is the packet in which the segment was handed to IP. -/
def TcpSeg.InPacket (state : TcpState) (seg : TcpSeg) (q : Pbuf) : Prop :=
  PacketOf q (seg.outgoing state)

/-- A segment that output can send: its headers are at their place, and it is
not empty. -/
structure TcpSeg.Sendable (seg : TcpSeg) : Prop where
  tcphdr : seg.tcphdr = 34
  payload : seg.p.payload = 34
  tcplen_pos : 0 < seg.tcplen

section
variable (env : OutEnv) (pools : Pools)

/-- Behind a segment comes the next one. -/
theorem tTcpSeqLt_add_tcplen {seg seg' : TcpSeg} (h : seg'.seqno = seg.seqno) :
    tTcpSeqLt (seg.seqno + UInt32.ofNat seg.tcplen) seg'.seqno = false := by
  have hle : seg.tcplen < 65537 := by
    have := seg.len.toNat_lt
    unfold TcpSeg.tcplen
    split <;> omega
  rw [h, tTcpSeqLt, UInt32.add_comm, UInt32.add_sub_cancel, UInt32.toNat_ofNat', decide_eq_false_iff_not]
  omega

/-- The loop of `t_tcp_output` takes the fitting segments off the front of the
unsent queue and puts them, in order, at the end of the unacked one. -/
theorem tTcpOutputLoop_spec (wnd : UInt32) {pcb : TcpPcb} {unsent : List TcpSeg} {a b : UInt32}
    (hun : pcb.unsent = unsent) (hok : ∀ seg ∈ unsent, seg.Sendable)
    (hq : Contiguous a unsent b)
    (hlt : ∀ useg ∈ pcb.unacked.getLast?, tTcpSeqLt a useg.seqno = false) :
    let r := tTcpOutputLoop env wnd pools pcb unsent
    let gone := unsent.takeWhile fun seg => seg.fits pcb.lastack wnd
    r.1 = pools ∧ pcb.SameConn r.2.1 ∧
      r.2.1.unsent = unsent.dropWhile (fun seg => seg.fits pcb.lastack wnd) ∧
      (∃ new, r.2.1.unacked = pcb.unacked ++ new ∧ List.Forall₂ (TcpSeg.Passed pcb.state) gone new) ∧
      (pcb.Unroutable env.net → ipPackets r.2.2 = []) ∧
      (¬ pcb.Unroutable env.net →
        List.Forall₂ (TcpSeg.InPacket pcb.state) gone (ipPackets r.2.2)) := by
  induction unsent generalizing pcb a with
  | nil => exact ⟨rfl, .refl _, hun, ⟨[], by simp [tTcpOutputLoop], .nil⟩, fun _ => rfl, fun _ => .nil⟩
  | cons seg rest ih =>
      by_cases hfit : seg.fits pcb.lastack wnd
      · obtain ⟨hseq, hrest⟩ := contiguous_cons.mp hq
        have hseg := hok seg List.mem_cons_self
        obtain ⟨r, hr⟩ : ∃ r, r = tTcpOutputRound env (env.indet rest.length) pools
            { pcb with unsent := rest } seg := ⟨_, rfl⟩
        obtain ⟨seg', hpassed, hpools, hconn, hun', hunacked, -, hroute, hno, hyes⟩ :=
          tTcpOutputRound_spec env pools (env.indet rest.length) { pcb with unsent := rest }
            hseg.tcphdr hseg.payload hseg.tcplen_pos (by rw [hseq]; exact hlt)
        simp only [← hr] at hpools hconn hun' hunacked hroute hno hyes
        have hconn' : pcb.SameConn r.2.1 :=
          ⟨hconn.remoteIp, hconn.localPort, hconn.remotePort, hconn.state, hconn.rcvNxt, hconn.mss,
            hconn.lastack, hconn.cwnd, hconn.sndWnd, hconn.sndLbb, hconn.sndBuf, hconn.sndQueuelen⟩
        have hroute' : r.2.1.Unroutable env.net ↔ pcb.Unroutable env.net := hroute
        have hlast : ∀ useg ∈ r.2.1.unacked.getLast?,
            tTcpSeqLt (a + UInt32.ofNat seg.tcplen) useg.seqno = false := fun useg hu => by
          rw [hunacked, List.getLast?_concat] at hu
          obtain rfl := Option.mem_some.mp hu
          rw [← hseq]
          exact tTcpSeqLt_add_tcplen (hpassed.seqno.trans (seg.outgoing_seqno _))
        obtain ⟨hpools2, hconn2, hun2, ⟨new, hnew, hall⟩, hno2, hyes2⟩ :=
          ih hun' (fun s hs => hok s (List.mem_cons_of_mem _ hs)) hrest hlast
        rw [hconn'.lastack] at hun2 hall hyes2
        rw [hconn'.state] at hall hyes2
        have hloop : tTcpOutputLoop env wnd pools pcb (seg :: rest) =
            ((tTcpOutputLoop env wnd pools r.2.1 rest).1,
              (tTcpOutputLoop env wnd pools r.2.1 rest).2.1,
              r.2.2 ++ (tTcpOutputLoop env wnd pools r.2.1 rest).2.2) := by
          rw [tTcpOutputLoop, if_pos hfit]
          simp only [← hr, hpools]
        intro r' gone
        rw [show r' = _ from hloop, show gone = _ from List.takeWhile_cons_of_pos hfit,
          List.dropWhile_cons_of_pos (p := fun seg : TcpSeg => seg.fits pcb.lastack wnd) hfit]
        refine ⟨hpools2, hconn'.trans hconn2, hun2, ⟨seg' :: new, ?_, .cons hpassed hall⟩,
          fun h => ?_, fun h => ?_⟩
        · rw [hnew, hunacked, List.append_assoc]
          rfl
        · rw [ipPackets_append, hno h, hno2 (hroute'.mpr h)]
          rfl
        · obtain ⟨q, hq, hp⟩ := hyes h
          rw [ipPackets_append, hq]
          exact .cons hp (hyes2 fun h' => h (hroute'.mp h'))
      · have hloop : tTcpOutputLoop env wnd pools pcb (seg :: rest) = (pools, pcb, []) := by
          rw [tTcpOutputLoop, if_neg hfit]
        intro r' gone
        rw [show r' = _ from hloop, show gone = _ from List.takeWhile_cons_of_neg hfit,
          List.dropWhile_cons_of_neg (p := fun seg : TcpSeg => seg.fits pcb.lastack wnd) hfit]
        exact ⟨rfl, .refl _, hun, ⟨[], by simp, .nil⟩, fun _ => rfl, fun _ => .nil⟩

/-- `t_tcp_output` sends the fitting segments at the front of the unsent queue;
when it only acknowledges, there are none. -/
theorem tTcpOutput_window (pcb : TcpPcb) {a b : UInt32} (hok : ∀ seg ∈ pcb.unsent, seg.Sendable)
    (hq : Contiguous a pcb.unsent b)
    (hlt : ∀ useg ∈ pcb.unacked.getLast?, tTcpSeqLt a useg.seqno = false) :
    let r := tTcpOutput env pools pcb
    let gone := pcb.unsent.takeWhile fun seg => seg.fits pcb.lastack pcb.wnd
    r.2.2.1.unsent = pcb.unsent.dropWhile (fun seg => seg.fits pcb.lastack pcb.wnd) ∧
      (∃ new, r.2.2.1.unacked = pcb.unacked ++ new ∧
        List.Forall₂ (TcpSeg.Passed pcb.state) gone new) ∧
      (¬ pcb.AcksOnly → r.2.1 = pools ∧
        (pcb.Unroutable env.net → ipPackets r.2.2.2 = []) ∧
        (¬ pcb.Unroutable env.net →
          List.Forall₂ (TcpSeg.InPacket pcb.state) gone (ipPackets r.2.2.2))) := by
  by_cases hack : pcb.AcksOnly
  · obtain ⟨⟨flags, hpcb⟩, -⟩ := tTcpOutputAck_spec env pools pcb
    have hnone : ∀ q : List TcpSeg, (∀ seg ∈ q.head?, ¬ seg.fits pcb.lastack pcb.wnd) →
        q.takeWhile (fun seg => seg.fits pcb.lastack pcb.wnd) = [] ∧
        q.dropWhile (fun seg => seg.fits pcb.lastack pcb.wnd) = q := fun q hhead => by
      cases q with
      | nil => exact ⟨rfl, rfl⟩
      | cons seg rest =>
          have hseg := hhead seg rfl
          exact ⟨List.takeWhile_cons_of_neg hseg,
            List.dropWhile_cons_of_neg (p := fun seg : TcpSeg => seg.fits pcb.lastack pcb.wnd) hseg⟩
    obtain ⟨htake, hdrop⟩ := hnone pcb.unsent hack.2
    simp only [tTcpOutput_of_acksOnly env pools hack, htake, hdrop, hpcb]
    exact ⟨trivial, ⟨[], by simp, .nil⟩, fun h => absurd hack h⟩
  · rw [tTcpOutput_of_not_acksOnly env pools hack]
    obtain ⟨hpools, -, hun, hnew, hno, hyes⟩ := tTcpOutputLoop_spec env pools pcb.wnd rfl hok hq hlt
    exact ⟨hun, hnew, fun _ => ⟨hpools, hno, hyes⟩⟩

end

/-! ## in plain integers -/

/-- How far the segment reaches behind `lastack`. -/
def TcpSeg.reach (seg : TcpSeg) (lastack : UInt32) : Nat :=
  (seg.seqno - lastack).toNat + seg.len.toNat

theorem TcpPcb.toNat_wnd (pcb : TcpPcb) : pcb.wnd.toNat = min pcb.sndWnd.toNat pcb.cwnd.toNat := by
  have hcwnd : pcb.cwnd.toUInt32.toNat = pcb.cwnd.toNat := pcb.cwnd.toNat_toUInt32
  unfold wnd
  split
  · next hlt =>
    rw [UInt32.lt_iff_toNat_lt] at hlt
    omega
  · next hlt =>
    rw [UInt32.lt_iff_toNat_lt] at hlt
    omega

/-- Where a segment of a data queue begins. -/
theorem DataQueue.seqno_eq {ok : TcpSeg → Prop} {a b : UInt32} {q : List TcpSeg}
    {bytes : List UInt8} (h : DataQueue ok a q b bytes) {seg : TcpSeg} (hs : seg ∈ q) :
    ∃ o, seg.seqno = a + UInt32.ofNat o ∧ o + seg.len.toNat ≤ bytes.length := by
  obtain ⟨q1, q2, rfl⟩ := List.append_of_mem hs
  obtain ⟨c, bs, bs', h1, h2, rfl⟩ := dataQueue_append.mp h
  obtain ⟨-, -, hseq, bs2, -, rfl⟩ := dataQueue_cons.mp h2
  refine ⟨bs.length, by rw [hseq, h1.end_eq], ?_⟩
  rw [List.length_append, List.length_append, TcpSeg.length_payload]
  omega

section
variable {first : UInt32} {pcb : TcpPcb} {sent rest : List UInt8}

/-- On a control block that was connected once no unsent segment reaches
further behind `lastack` than the send buffer and the SYN. -/
theorem Connected.reach_le (h : Connected first pcb sent rest) {seg : TcpSeg}
    (hs : seg ∈ pcb.unsent) : seg.reach pcb.lastack ≤ 16801 := by
  have hsub : ∀ (c : UInt32) (n : Nat), n < 4294967296 → (c + UInt32.ofNat n - c).toNat = n :=
    fun c n hn => by rw [UInt32.add_comm, UInt32.add_sub_cancel, UInt32.toNat_ofNat_of_lt' hn]
  cases h with
  | synSent h =>
      obtain ⟨o, hseq, ho⟩ := h.sender.rest_queue.seqno_eq hs
      have hbuf := h.sender.buf
      have hone : seg.seqno = pcb.lastack + UInt32.ofNat (1 + o) := by
        rw [hseq, h.sender.sndNxt_eq, h.lastack, UInt32.ofNat_add, ← UInt32.add_assoc]
        simp
      rw [TcpSeg.reach, hone, hsub _ _ (by omega)]
      omega
  | established h =>
      obtain ⟨o, hseq, ho⟩ := h.sender.rest_queue.seqno_eq hs
      have hbuf := h.sender.buf
      have hsum : seg.seqno = pcb.lastack + UInt32.ofNat (sent.length + o) := by
        rw [hseq, h.sender.sndNxt_eq, h.lastack, UInt32.ofNat_add, UInt32.add_assoc]
      rw [TcpSeg.reach, hsum, hsub _ _ (by omega)]
      omega

/-- There the modular test of the code is the plain one. -/
theorem Connected.fits_iff (h : Connected first pcb sent rest) {seg : TcpSeg}
    (hs : seg ∈ pcb.unsent) (wnd : UInt32) :
    seg.fits pcb.lastack wnd ↔ seg.reach pcb.lastack ≤ wnd.toNat := by
  have hle := h.reach_le hs
  unfold TcpSeg.reach at hle ⊢
  rw [TcpSeg.fits, decide_eq_true_iff, UInt32.le_iff_toNat_le, UInt32.toNat_add,
    UInt16.toNat_toUInt32, Nat.mod_eq_of_lt (by omega)]

/-- What waits on its unsent queue can be sent. -/
theorem Connected.sendable (h : Connected first pcb sent rest) :
    (∀ seg ∈ pcb.unsent, seg.Sendable) ∧ Contiguous pcb.sndNxt pcb.unsent pcb.sndLbb := by
  have hdata : ∀ {a b : UInt32} {bytes : List UInt8},
      DataQueue TcpSeg.Unsent a pcb.unsent b bytes → ∀ seg ∈ pcb.unsent, seg.Sendable :=
    fun hq seg hs => ⟨(hq.ok seg hs).tcphdr, (hq.ok seg hs).payload, by
      rw [hq.tcplen seg hs]
      exact (hq.ok seg hs).len_pos⟩
  cases h with
  | synSent h => exact ⟨hdata h.sender.rest_queue, h.sender.rest_queue.contiguous⟩
  | established h => exact ⟨hdata h.sender.rest_queue, h.sender.rest_queue.contiguous⟩

/-- What is unacked comes before it. -/
theorem Connected.not_seqLt (h : Connected first pcb sent rest) :
    ∀ useg ∈ pcb.unacked.getLast?, tTcpSeqLt pcb.sndNxt useg.seqno = false := by
  cases h with
  | @synSent syn rest h =>
      intro useg hu
      rw [h.sender.unacked] at hu
      obtain rfl : syn = useg := by simpa using hu
      have hone : syn.seqno + 1 = pcb.sndNxt := by
        rw [h.seqno, h.sender.sndNxt_eq, UInt32.sub_add_cancel]
        simp
      rw [← hone, tTcpSeqLt, UInt32.add_comm, UInt32.add_sub_cancel]
      rfl
  | established h =>
      rw [h.sender.unacked]
      exact h.sender.sent_queue.seqLt_getLast

end

/-! ## after any run -/

/-- A control block whose two windows are given. -/
def TcpPcb.withWindow (pcb : TcpPcb) (sndWnd : UInt32) (cwnd : UInt16) : TcpPcb :=
  { pcb with sndWnd, cwnd }

/-- The outcome `r` of `t_tcp_output` on `pcb`: `gone` went out from the unsent
queue and `left` stayed, within the window and up to it. -/
structure TcpPcb.UsesWindow (net : Net) (pools : Pools) (pcb : TcpPcb)
    (r : ErrT × Pools × TcpPcb × List Event) (gone left : List TcpSeg) : Prop where
  before : pcb.unsent = gone ++ left
  unsent : r.2.2.1.unsent = left
  unacked : ∃ new, r.2.2.1.unacked = pcb.unacked ++ new ∧
    List.Forall₂ (TcpSeg.Passed pcb.state) gone new
  tcplen_pos : ∀ seg ∈ gone, 0 < seg.tcplen
  fits : ∀ seg ∈ gone, seg.reach pcb.lastack ≤ min pcb.sndWnd.toNat pcb.cwnd.toNat
  full : ∀ seg ∈ left.head?, min pcb.sndWnd.toNat pcb.cwnd.toNat < seg.reach pcb.lastack
  sent : ¬ pcb.AcksOnly → r.2.1 = pools ∧ (pcb.Unroutable net → ipPackets r.2.2.2 = []) ∧
    (¬ pcb.Unroutable net → List.Forall₂ (TcpSeg.InPacket pcb.state) gone (ipPackets r.2.2.2))

/-- It sends a prefix of the queue, and no segment is lost. -/
theorem TcpPcb.UsesWindow.ids {net : Net} {pools : Pools} {pcb : TcpPcb}
    {r : ErrT × Pools × TcpPcb × List Event} {gone left : List TcpSeg}
    (h : pcb.UsesWindow net pools r gone left) :
    (r.2.2.1.unacked ++ r.2.2.1.unsent).map TcpSeg.id =
      (pcb.unacked ++ pcb.unsent).map TcpSeg.id := by
  obtain ⟨new, hnew, hall⟩ := h.unacked
  have hun := h.unsent
  have hbefore := h.before
  have hids : new.map TcpSeg.id = gone.map TcpSeg.id := by
    clear h hnew hbefore
    induction hall with
    | nil => rfl
    | cons hp _ ih => rw [List.map_cons, List.map_cons, ih, hp.id, TcpSeg.outgoing_id]
  rw [hnew, hun, hbefore]
  simp only [List.map_append, hids, List.append_assoc]

namespace ConnectedOnce

variable {h : TcpHost} {i : TcpPcbId} {pre post : List TcpOp} {c : TcpOp}

/-- **Send window**: whatever the windows of a control block connected once
are, `t_tcp_output` sends what fits from the front of its unsent queue, and
nothing else. -/
theorem window_used (r : ConnectedOnce h i pre c post) (env : OutEnv) (pools : Pools)
    (sndWnd : UInt32) (cwnd : UInt16) :
    let pcb := ((Run.final TcpHost.step h (pre ++ c :: post)).pcb i).withWindow sndWnd cwnd
    let o := tTcpOutput env pools pcb
    (∃ gone left, pcb.UsesWindow env.net pools o gone left) ∧
      (o.2.2.1.unacked ++ o.2.2.1.unsent).map TcpSeg.id =
        (pcb.unacked ++ pcb.unsent).map TcpSeg.id := by
  intro pcb o
  obtain ⟨-, sent, rest, hconn⟩ := r.connected
  have hfits : ∀ seg ∈ pcb.unsent, (seg.fits pcb.lastack pcb.wnd ↔
      seg.reach pcb.lastack ≤ min pcb.sndWnd.toNat pcb.cwnd.toNat) := fun seg hs => by
    rw [← TcpPcb.toNat_wnd]
    exact hconn.fits_iff hs pcb.wnd
  obtain ⟨hok, hq⟩ := hconn.sendable
  obtain ⟨hunsent, hunacked, hsent⟩ :=
    tTcpOutput_window env pools pcb hok hq hconn.not_seqLt
  have hused : pcb.UsesWindow env.net pools o
      (pcb.unsent.takeWhile fun seg => seg.fits pcb.lastack pcb.wnd)
      (pcb.unsent.dropWhile fun seg => seg.fits pcb.lastack pcb.wnd) :=
    { before := List.takeWhile_append_dropWhile.symm
      unsent := hunsent
      unacked := hunacked
      tcplen_pos := fun seg hs => (hok seg ((List.takeWhile_sublist _).subset hs)).tcplen_pos
      fits := fun seg hs =>
        (hfits seg ((List.takeWhile_sublist _).subset hs)).mp
          (List.mem_takeWhile_imp (p := fun seg : TcpSeg => seg.fits pcb.lastack pcb.wnd) hs)
      full := fun seg hs => by
        have hhead := List.head?_dropWhile_not (fun seg : TcpSeg => seg.fits pcb.lastack pcb.wnd) pcb.unsent
        have hmem : seg ∈ pcb.unsent :=
          (List.dropWhile_sublist _).subset (List.mem_of_mem_head? hs)
        rw [hs] at hhead
        exact Nat.lt_of_not_le fun hle => by simp [(hfits seg hmem).mpr hle] at hhead
      sent := hsent }
  exact ⟨⟨_, _, hused⟩, hused.ids⟩

/-- Two segments wait. -/
def windowPost : List TcpOp :=
  [.input (sampleSynAck 100) 0 fun _ => none, .write 0 (fun _ => 0) 150 true]

/-- The window has room for the first of them. -/
theorem sampleRun_window_used :
    let s := Run.final TcpHost.step sampleHost ([.new] ++ sampleConnect :: windowPost)
    let pcb := (s.pcb 0).withWindow 120 200
    let o := tTcpOutput ⟨sampleNet, 0, fun _ => none⟩ sampleHost.pools pcb
    (∃ gone left, pcb.UsesWindow sampleNet sampleHost.pools o gone left) ∧
      (o.2.2.1.unacked ++ o.2.2.1.unsent).map TcpSeg.id =
        (pcb.unacked ++ pcb.unsent).map TcpSeg.id :=
  ConnectedOnce.window_used (sampleRun (by simp [windowPost, TcpOp.OnlyUses]))
    ⟨sampleNet, 0, fun _ => none⟩ sampleHost.pools 120 200

example :
    let s := Run.final TcpHost.step sampleHost ([.new] ++ sampleConnect :: windowPost)
    let pcb := (s.pcb 0).withWindow 120 200
    let o := tTcpOutput ⟨sampleNet, 0, fun _ => none⟩ sampleHost.pools pcb
    (pcb.unsent.length, o.2.2.1.unacked.length, o.2.2.1.unsent.length) = (2, 1, 1) := by
  decide +kernel

end ConnectedOnce

end TTcp
