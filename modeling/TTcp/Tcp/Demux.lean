import TTcp.Tcp.Accept
import TTcp.Tcp.Active
import TTcp.Tcp.Sender

/-!
# TTcp.Tcp.Demux

Which control block an incoming segment is for.

The loop of `t_tcp_input` looks for a control block with the ports and the
addresses of the segment, and moves the one it finds to the front of the list
while it still holds the one before it.  When no two control blocks of the list
have the same ports and addresses, there is only one to be found, wherever it
stands, and the others keep their order (`Demuxes`).  Processing a segment
changes neither ports nor addresses, so whatever came before, the next segment
goes to the same control block (`demux_exact`).
-/

namespace TTcp

open PtrList

/-- The key of the segments for a control block. -/
def TcpPcb.key (pcb : TcpPcb) : TcpKey :=
  ⟨pcb.remotePort, pcb.localPort, pcb.remoteIp, pcb.localIp⟩

theorem TcpPcb.matches_iff_key {pcb : TcpPcb} {k : TcpKey} :
    pcb.matches k = true ↔ pcb.key = k := by
  obtain ⟨src, dest, ipSrc, ipDst⟩ := k
  rw [TcpPcb.matches_iff, TcpPcb.key, TcpKey.mk.injEq]

/-- `l` is the list of active control blocks.  They have a local address, and
no two of them the same ports and addresses. -/
structure TcpHost.ActivePcbs (h : TcpHost) (l : List TcpPcbId) : Prop where
  isList : IsList h.next h.tcpActivePcbs l
  localIp : ∀ i ∈ l, (h.pcb i).localIp ≠ 0
  nodup : (l.map fun i => (h.pcb i).key).Nodup

/-- A segment coming in: the packet, and what processing it depends on. -/
structure Arrival where
  p : Pbuf
  cbRet : ErrT
  indet : Nat → Option Netif

namespace Arrival

def op (a : Arrival) : TcpOp := .input a.p a.cbRet a.indet

/-- The ports and addresses of the segment, unless the packet is dropped. -/
def key (a : Arrival) : Option TcpKey := (tTcpInputHeader a.p).2.map Prod.snd

/-- The control block that processes the segment. -/
def choice (a : Arrival) (h : TcpHost) : Option TcpPcbId := (h.exec a.op).1.pcb

end Arrival

/-! ## the search -/

section
variable {h : TcpHost} {l : List TcpPcbId}

/-- On a list, the loop finds the first control block that matches. -/
theorem run_demuxRound {k : TcpKey} {p : Option TcpPcbId} (hl : IsList h.next p l)
    (prev : Option TcpPcbId) {n : Nat} (hn : l.length < n) :
    ∃ r, Loop.run (demuxRound h k) n (p, prev) = some r ∧
      r.map Prod.fst = l.find? fun i => decide ((h.pcb i).key = k) := by
  induction l generalizing p prev n with
  | nil =>
      obtain rfl := hl
      obtain ⟨n, rfl⟩ : ∃ m, n = m + 1 := ⟨n - 1, by simp at hn; omega⟩
      exact ⟨none, rfl, rfl⟩
  | cons i l ih =>
      obtain ⟨rfl, hl⟩ := hl
      obtain ⟨n, rfl⟩ : ∃ m, n = m + 1 := ⟨n - 1, by omega⟩
      by_cases hm : (h.pcb i).matches k = true
      · refine ⟨some (i, prev), ?_, ?_⟩
        · rw [Loop.run, demuxRound, if_pos hm]
        · rw [List.find?_cons, decide_eq_true (TcpPcb.matches_iff_key.mp hm)]
          rfl
      · obtain ⟨r, hrun, hr⟩ := ih hl (some i) (by simpa using hn)
        refine ⟨r, ?_, ?_⟩
        · rw [Loop.run, demuxRound, if_neg hm]
          exact hrun
        · rw [hr, List.find?_cons_of_neg]
          simpa [← TcpPcb.matches_iff_key] using hm

theorem demux_eq (hl : IsList h.next h.tcpActivePcbs l) (k : TcpKey) :
    ∃ r, demux h k = some r ∧ r.map Prod.fst = l.find? fun i => decide ((h.pcb i).key = k) := by
  refine run_demuxRound hl none ?_
  have hlen : l.length ≤ tMempNumTcpPcb := by
    simpa using hl.nodup.length_le_card
  have hsq := Nat.le_mul_self (tMempNumTcpPcb + 1)
  omega

/-- Moving the control block found to the front keeps the others in order. -/
theorem isList_moveToFront {k : TcpKey} (hl : IsList h.next h.tcpActivePcbs l) {i : TcpPcbId}
    {prev : Option TcpPcbId} (hd : demux h k = some (some (i, prev))) :
    IsList (moveToFront h i prev).next (moveToFront h i prev).tcpActivePcbs (touch l (some i)) := by
  obtain ⟨xs, ys, rfl, rfl⟩ := demux_of_isList hl hd
  rcases List.eq_nil_or_concat' xs with rfl | ⟨xs, b, rfl⟩
  · simpa [touch, moveToFront] using hl
  · have hnd := hl.nodup
    have hi : i ∉ xs ++ [b] := fun hm => (List.nodup_append.mp hnd).2.2 i hm i
      List.mem_cons_self rfl
    rw [touch, List.erase_append_right _ hi, List.erase_cons_head, List.getLast?_concat]
    rw [List.append_assoc] at hl ⊢
    exact hl.moveToFront

end

/-! ## one segment -/

/-- Processing keeps the ports and the addresses. -/
theorem tTcpReceive_key (env : OutEnv) (cbRet : ErrT) (pools : Pools) {pcb : TcpPcb}
    (hip : pcb.localIp ≠ 0) (s : Incoming) :
    (tTcpReceive env cbRet pools pcb s).2.2.1.key = pcb.key := by
  have hproc : (tTcpProcess env cbRet pools pcb s).2.2.1.key = pcb.key := by
    obtain ⟨-, ⟨hpcb, -⟩ | ⟨-, -, -, rseg, unacked, wnd, mss, flags, -, -, -, hpcb, -⟩⟩ :=
      tTcpProcess_cases env cbRet pools pcb s
    · rw [hpcb]; rfl
    · rw [hpcb]; rfl
  obtain ⟨hpcb, -⟩ | ⟨hpcb, -⟩ := tTcpReceive_eq pcb env cbRet pools s
  · rw [hpcb, hproc]
  · have hne : (tTcpProcess env cbRet pools pcb s).2.2.1.localIp ≠ 0 := by
      have hsame := congrArg TcpKey.ipDst hproc
      simp only [TcpPcb.key] at hsame
      rw [hsame]
      exact hip
    have hout := (tTcpOutput_outputs env (tTcpProcess env cbRet pools pcb s).2.1
      (tTcpProcess env cbRet pools pcb s).2.2.1).1
    rw [hpcb, ← hproc, TcpPcb.key, TcpPcb.key, hout.conn.remotePort, hout.conn.localPort,
      hout.conn.remoteIp, hout.localIp hne]

/-- What becomes of a segment when the active list is `l`. -/
structure Demuxes (h : TcpHost) (l : List TcpPcbId) (a : Arrival) : Prop where
  /-- The key is that of the packet. -/
  wire : ∀ hl, a.p.payload = 14 → (tIphHl a.p.mem 14).toNat * 4 = hl → 20 ≤ hl →
    hl + 20 ≤ a.p.totLen.toNat → a.key = some (keyAt a.p (14 + hl))
  /-- The segment goes to the control block with its key. -/
  choice_iff : ∀ i, a.choice h = some i ↔ i ∈ l ∧ a.key = some (h.pcb i).key
  /-- That one processes it. -/
  processed : ∀ i, a.choice h = some i → ∃ s,
    (tTcpInputHeader a.p).2 = some (s, (h.pcb i).key) ∧
    let r := tTcpReceive (h.outEnv a.indet) a.cbRet h.pools (h.pcb i) s
    (h.exec a.op).1 = ⟨r.1, some i, r.2.2.2.2⟩ ∧ (h.step a.op).pcb i = r.2.2.1
  /-- Without one, the call returns and nothing happens. -/
  unprocessed : a.choice h = none →
    (∃ ret, (h.exec a.op).1 = ⟨.returns ret, none, []⟩) ∧ h.step a.op = h
  others : ∀ j, a.choice h ≠ some j → (h.step a.op).pcb j = h.pcb j
  /-- It comes to the head of the list, the others staying in order. -/
  activePcbs : (h.step a.op).ActivePcbs (touch l (a.choice h))
  perm : (touch l (a.choice h)).Perm l

section
variable {h : TcpHost} {l : List TcpPcbId}

/-- Either no control block has the key of the segment, and nothing happens, or
the one that has it receives the segment. -/
theorem tTcpInput_activePcbs (hl : h.ActivePcbs l) (a : Arrival) :
    ((∀ i ∈ l, a.key ≠ some (h.pcb i).key) ∧
        (∃ ret, (h.exec a.op).1 = ⟨.returns ret, none, []⟩) ∧ h.step a.op = h) ∨
      ∃ i prev s, i ∈ l ∧ (tTcpInputHeader a.p).2 = some (s, (h.pcb i).key) ∧
        demux h (h.pcb i).key = some (some (i, prev)) ∧
        let r := tTcpReceive (h.outEnv a.indet) a.cbRet h.pools (h.pcb i) s
        (h.exec a.op).1 = ⟨r.1, some i, r.2.2.2.2⟩ ∧
          h.step a.op = { (moveToFront h i prev).setPcb i r.2.2.1 with pools := r.2.1 } := by
  have hexec : h.exec a.op = ((tTcpInput h a.indet a.cbRet a.p).1,
      (tTcpInput h a.indet a.cbRet a.p).2.2) := by
    rw [Arrival.op]
    simp only [TcpHost.exec]
  rw [TcpHost.step, hexec, Arrival.key]
  unfold tTcpInput
  obtain ⟨p, o⟩ := tTcpInputHeader a.p
  cases o with
  | none => exact .inl ⟨by simp, ⟨_, rfl⟩, rfl⟩
  | some sk =>
      obtain ⟨s, k⟩ := sk
      obtain ⟨r, hdemux, hfind⟩ := demux_eq hl.isList k
      cases r with
      | none =>
          refine .inl ⟨fun i hi hk => ?_, ?_⟩
          · have hnot := List.find?_eq_none.mp hfind.symm i hi
            simp only [decide_eq_true_eq] at hnot
            exact hnot (Option.some.inj hk).symm
          · simp only [hdemux]
            exact ⟨⟨_, rfl⟩, trivial⟩
      | some r =>
          obtain ⟨i, prev⟩ := r
          obtain ⟨hi, hk⟩ := (find?_key_iff _ hl.nodup).mp hfind.symm
          subst hk
          refine .inr ⟨i, prev, s, hi, rfl, hdemux, ?_⟩
          simp only [hdemux, TcpHost.outEnv, TcpHost.moveToFront_net, TcpHost.moveToFront_pools,
            TcpHost.moveToFront_tcpTicks, TcpHost.moveToFront_pcb]
          exact ⟨trivial, trivial⟩

/-- Ports and addresses stay as they are. -/
theorem TcpHost.ActivePcbs.key_step (hl : h.ActivePcbs l) (a : Arrival) {j : TcpPcbId}
    (hj : j ∈ l) : ((h.step a.op).pcb j).key = (h.pcb j).key := by
  obtain ⟨-, -, hstep⟩ | ⟨i, prev, s, -, -, -, -, hstep⟩ := tTcpInput_activePcbs hl a
  · rw [hstep]
  · by_cases hji : j = i
    · subst hji
      rw [hstep, ← tTcpReceive_key (h.outEnv a.indet) a.cbRet h.pools (hl.localIp j hj) s]
      exact congrArg TcpPcb.key (TcpHost.setPcb_pcb_self _ j _)
    · rw [hstep]
      exact congrArg TcpPcb.key
        ((TcpHost.setPcb_pcb_of_ne _ hji _).trans (by rw [TcpHost.moveToFront_pcb]))

/-- Any list of the same control blocks will do afterwards. -/
theorem TcpHost.ActivePcbs.of_perm (hl : h.ActivePcbs l) (a : Arrival) {l' : List TcpPcbId}
    (hp : l'.Perm l) (hlist : IsList (h.step a.op).next (h.step a.op).tcpActivePcbs l') :
    (h.step a.op).ActivePcbs l' := by
  have hkey : ∀ j ∈ l', ((h.step a.op).pcb j).key = (h.pcb j).key :=
    fun j hj => hl.key_step a (hp.mem_iff.mp hj)
  refine ⟨hlist, fun j hj => ?_, ?_⟩
  · have hip := congrArg TcpKey.ipDst (hkey j hj)
    simp only [TcpPcb.key] at hip
    rw [hip]
    exact hl.localIp j (hp.mem_iff.mp hj)
  · rw [List.map_congr_left hkey]
    exact (hp.map _).nodup_iff.mpr hl.nodup

/-- **One segment** is processed by the control block with its key. -/
theorem TcpHost.ActivePcbs.demuxes (hl : h.ActivePcbs l) (a : Arrival) : Demuxes h l a := by
  have hwire : ∀ hl, a.p.payload = 14 → (tIphHl a.p.mem 14).toNat * 4 = hl → 20 ≤ hl →
      hl + 20 ≤ a.p.totLen.toNat → a.key = some (keyAt a.p (14 + hl)) := by
    intro hl hpay hhl h20 htot
    obtain ⟨s, hhdr, -⟩ := tTcpInputHeader_reads hpay hhl h20 htot rfl
    rw [Arrival.key, hhdr]
    rfl
  obtain ⟨hnone, ⟨ret, hout⟩, hstep⟩ | ⟨i, prev, s, hi, hhdr, hdemux, hout, hstep⟩ :=
    tTcpInput_activePcbs hl a
  · have hchoice : a.choice h = none := by rw [Arrival.choice, hout]
    refine ⟨hwire, fun j => ?_, fun j hj => ?_, fun _ => ⟨⟨ret, hout⟩, hstep⟩, fun j _ => ?_, ?_,
      ?_⟩
    · rw [hchoice]
      exact iff_of_false (by simp) fun hj => hnone j hj.1 hj.2
    · exact absurd (hchoice.symm.trans hj) (by simp)
    · rw [hstep]
    · rw [hstep, hchoice]
      exact hl
    · rw [hchoice]
      exact .refl l
  · have hchoice : a.choice h = some i := by rw [Arrival.choice, hout]
    have hkey : a.key = some (h.pcb i).key := by rw [Arrival.key, hhdr]; rfl
    have hperm : (touch l (some i)).Perm l := perm_touch fun j hj => Option.some.inj hj ▸ hi
    refine ⟨hwire, fun j => ?_, fun j hj => ?_, fun hnone => ?_, fun j hj => ?_, ?_, ?_⟩
    · rw [hchoice, hkey]
      constructor
      · rintro hij
        obtain rfl := Option.some.inj hij
        exact ⟨hi, rfl⟩
      · rintro ⟨hj, hk⟩
        exact congrArg some (List.inj_on_of_nodup_map hl.nodup hi hj (Option.some.inj hk))
    · rw [hchoice] at hj
      obtain rfl := Option.some.inj hj
      refine ⟨s, hhdr, hout, ?_⟩
      rw [hstep]
      exact TcpHost.setPcb_pcb_self _ i _
    · exact absurd (hchoice.symm.trans hnone) (by simp)
    · rw [hstep]
      have hji : j ≠ i := fun hji => hj (by rw [hchoice, hji])
      exact (TcpHost.setPcb_pcb_of_ne _ hji _).trans (by rw [TcpHost.moveToFront_pcb])
    · rw [hchoice]
      refine hl.of_perm a hperm ?_
      rw [hstep]
      exact isList_moveToFront hl.isList hdemux
    · rw [hchoice]
      exact hperm

/-! ## a run -/

/-- **A run** of segments leaves the list in another order, and the next
segment with the control block it would have gone to. -/
theorem TcpHost.ActivePcbs.run (hl : h.ActivePcbs l) (earlier : List Arrival) :
    ∃ l', l'.Perm l ∧ (Run.final TcpHost.step h (earlier.map Arrival.op)).ActivePcbs l' ∧
      ∀ j ∈ l, ((Run.final TcpHost.step h (earlier.map Arrival.op)).pcb j).key = (h.pcb j).key := by
  induction earlier generalizing h l with
  | nil => exact ⟨l, .refl l, hl, fun _ _ => rfl⟩
  | cons a earlier ih =>
      have hperm := (hl.demuxes a).perm
      obtain ⟨l', hp, hl', hkey⟩ := ih (hl.demuxes a).activePcbs
      rw [List.map_cons, Run.final_cons]
      refine ⟨l', hp.trans hperm, hl', fun j hj => ?_⟩
      rw [hkey j (hperm.mem_iff.mpr hj), hl.key_step a hj]

/-- **Demultiplexing is exact**, and what came before does not matter. -/
theorem demux_exact (hl : h.ActivePcbs l) : (∀ a, Demuxes h l a) ∧
    ∀ earlier : List Arrival, ∃ l', l'.Perm l ∧
      (Run.final TcpHost.step h (earlier.map Arrival.op)).ActivePcbs l' ∧
      ∀ a, Demuxes (Run.final TcpHost.step h (earlier.map Arrival.op)) l' a ∧
        a.choice (Run.final TcpHost.step h (earlier.map Arrival.op)) = a.choice h := by
  refine ⟨hl.demuxes, fun earlier => ?_⟩
  obtain ⟨l', hp, hl', hkey⟩ := hl.run earlier
  refine ⟨l', hp, hl', fun a => ⟨hl'.demuxes a, Option.ext fun i => ?_⟩⟩
  rw [(hl'.demuxes a).choice_iff, (hl.demuxes a).choice_iff, hp.mem_iff]
  exact and_congr_right fun hi => by rw [hkey i hi]

end

/-- Two connections between the same hosts. -/
def demuxHost : TcpHost :=
  { TcpHost.initial ⟨[], []⟩ ⟨[], none⟩ with
    pcb i := { TcpPcb.zero with localIp := 1, localPort := UInt16.ofNat (4096 + i) }
    next := Function.update (fun _ => none) 0 (some 1)
    tcpActivePcbs := some 0 }

theorem demuxHost_activePcbs : demuxHost.ActivePcbs [0, 1] :=
  ⟨⟨rfl, rfl, rfl⟩, fun _ _ => show (1 : UInt32) ≠ 0 by decide, by decide +kernel⟩

theorem demux_exact_pair : (∀ a, Demuxes demuxHost [0, 1] a) ∧
    ∀ earlier : List Arrival, ∃ l', l'.Perm [0, 1] ∧
      (Run.final TcpHost.step demuxHost (earlier.map Arrival.op)).ActivePcbs l' ∧
      ∀ a, Demuxes (Run.final TcpHost.step demuxHost (earlier.map Arrival.op)) l' a ∧
        a.choice (Run.final TcpHost.step demuxHost (earlier.map Arrival.op)) =
          a.choice demuxHost :=
  demux_exact demuxHost_activePcbs

end TTcp
