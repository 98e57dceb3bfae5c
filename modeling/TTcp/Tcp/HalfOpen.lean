import TTcp.Tcp.Handshake

/-!
# TTcp.Tcp.HalfOpen

What a failing `t_tcp_connect` leaves behind.

`t_tcp_connect` registers the control block and moves it to SYN_SENT before it
enqueues the SYN, and undoes neither when that fails; `t_udp_connect` returns
before it changes anything.  `t_tcp_process` then finds no SYN on the unacked
queue, and dereferences a null pointer.  As long as every connect has room for
its SYN, every active control block in SYN_SENT has a SYN at the head of its
unacked queue (`noHalfOpen`).
-/

namespace TTcp

open PtrList

/-- Every active control block in SYN_SENT has a SYN at the head of its
unacked queue, and no segment makes `t_tcp_process` go through a null
pointer. -/
structure NoHalfOpen (h : TcpHost) : Prop where
  syn : ∀ i, Reaches h.next h.tcpActivePcbs i → (h.pcb i).state = .synSent →
    ∃ syn q, (h.pcb i).unacked = syn :: q ∧ syn.flags &&& tcpSyn ≠ 0
  no_crash : ∀ p cbRet indet, (tTcpInput h indet cbRet p).1.fate ≠ .crashes

/-- A connect finds room for the SYN, and a control block with nothing unsent
whose unacked queue is empty or starts with a SYN, as every new one is. -/
def TcpHost.ConnectOk (h : TcpHost) : TcpOp → Prop
  | .connect i _ _ _ _ => SynRoom h.pools (h.pcb i) ∧ (h.pcb i).unsent = [] ∧
      ∀ seg ∈ (h.pcb i).unacked.head?, seg.flags &&& tcpSyn ≠ 0
  | _ => True

/-! ## one control block -/

/-- In SYN_SENT: a SYN is at the head of the unacked queue, and the window
keeps everything behind it. -/
structure Handshaking (pcb : TcpPcb) : Prop where
  syn : ∃ syn q, pcb.unacked = syn :: q ∧ syn.flags &&& tcpSyn ≠ 0
  cwnd : pcb.cwnd = 1
  sndWnd : pcb.sndWnd = tTcpWnd.toUInt32
  mss : pcb.mss.toNat ≤ 1400
  unsent : ∃ bytes, DataQueue TcpSeg.Unsent (pcb.lastack + 1) pcb.unsent pcb.sndLbb bytes

section
variable {pcb pcb' : TcpPcb}

theorem tTcpWrite_state (pools : Pools) (pcb : TcpPcb) (arg : ByteMem) (len : UInt16)
    (copy : Bool) : (tTcpWrite pools pcb arg len copy).2.2.state = pcb.state := by
  unfold tTcpWrite
  split
  · split
    · unfold tTcpEnqueue
      split
      · rfl
      · split
        · rfl
        · simp only
          split <;> rfl
    · rfl
  · rfl

/-- No call but a connect enters SYN_SENT, and in SYN_SENT the SYN stays where
it is. -/
theorem handshaking_step (h : pcb.state = .synSent → Handshaking pcb) {net : Net} {i : TcpPcbId}
    {op : TcpOp} {evs : List Event} {bytes : List UInt8}
    (hstep : PcbStep net i pcb op pcb' evs bytes) : pcb'.state = .synSent → Handshaking pcb' := by
  have houtput : ∀ (pcb : TcpPcb) (env : OutEnv) (pools : Pools),
      (pcb.state = .synSent → Handshaking pcb) →
      (tTcpOutput env pools pcb).2.2.1.state = .synSent →
        Handshaking (tTcpOutput env pools pcb).2.2.1 := by
    intro pcb env pools h hst
    rw [tTcpOutput_state] at hst
    have hh := h hst
    obtain ⟨bytes, hq⟩ := hh.unsent
    obtain ⟨flags, hpcb⟩ := tTcpOutput_of_not_fits env pools
      (head_not_fits hq (TcpPcb.wnd_of_closed hh.cwnd hh.sndWnd))
    rw [hpcb]
    exact ⟨hh.syn, hh.cwnd, hh.sndWnd, hh.mss, bytes, hq⟩
  intro hst
  cases hstep with
  | idle => exact h hst
  | write pools arg len copy =>
      rw [tTcpWrite_state] at hst
      have hh := h hst
      obtain ⟨bytes, hq⟩ := hh.unsent
      obtain ⟨hsame, -⟩ | ⟨unsent, queuelen, -, hpcb, hq', -⟩ :=
        tTcpWrite_data hq hh.mss pools arg len copy
      · rw [hsame]
        exact hh
      · rw [hpcb]
        exact ⟨hh.syn, hh.cwnd, hh.sndWnd, hh.mss, _, hq'⟩
  | output env pools indet hnet => exact houtput pcb env pools h hst
  | receive env pools p cbRet indet s k hnet hhdr hmatch =>
      have hproc : (tTcpProcess env cbRet pools pcb s).2.2.1.state = .synSent →
          Handshaking (tTcpProcess env cbRet pools pcb s).2.2.1 := by
        obtain ⟨-, ⟨htouch, -⟩ | ⟨-, -, -, rseg, unacked, wnd, mss, flags, -, -, -, hpcb, -⟩⟩ :=
          tTcpProcess_cases env cbRet pools pcb s
        · rw [htouch]
          intro hst
          have hh := h hst
          exact ⟨hh.syn, hh.cwnd, hh.sndWnd, hh.mss, hh.unsent⟩
        · rw [hpcb]
          exact fun hst => absurd (show TcpState.established = .synSent from hst) (by decide)
      obtain ⟨hpcb, -⟩ | ⟨hpcb, -⟩ := tTcpReceive_eq pcb env cbRet pools s
      · rw [hpcb] at hst ⊢
        exact hproc hst
      · rw [hpcb] at hst ⊢
        exact houtput _ env _ hproc hst

theorem unackedInsert_head {unacked : List TcpSeg} {syn : TcpSeg} (hsyn : syn.flags &&& tcpSyn ≠ 0)
    (h : ∀ seg ∈ unacked.head?, seg.flags &&& tcpSyn ≠ 0) :
    ∃ seg q, unackedInsert unacked syn = seg :: q ∧ seg.flags &&& tcpSyn ≠ 0 := by
  unfold unackedInsert
  cases hun : unacked with
  | nil => exact ⟨syn, [], rfl, hsyn⟩
  | cons seg q =>
      have hseg := h seg (by rw [hun]; rfl)
      split
      · exact ⟨syn, [], rfl, hsyn⟩
      · split
        · exact ⟨syn, seg :: q, rfl, hsyn⟩
        · exact ⟨seg, q ++ [syn], rfl, hseg⟩

end

/-! ## runs -/

namespace TcpHost

variable {h : TcpHost}

/-- Every control block in use that is in SYN_SENT is `Handshaking`. -/
def AllHandshaking (h : TcpHost) : Prop :=
  ∀ i, i ∉ h.tcpPcbPool → (h.pcb i).state = .synSent → Handshaking (h.pcb i)

theorem AllHandshaking.exec (hh : h.AllHandshaking) {op : TcpOp} (hop : h.Legal op)
    (hok : h.ConnectOk op) : (h.exec op).2.AllHandshaking := by
  intro i hi
  by_cases hc : op.Connects i
  · cases op with
    | connect j ipaddr port connected indet =>
        obtain rfl : j = i := hc
        obtain ⟨hroom, hunsent, hhead⟩ := hok
        obtain ⟨localPort, iss, pcb, hpcb, -, -, -, hconn⟩ :=
          tTcpConnect_spec h indet j ipaddr port connected hunsent
        obtain ⟨-, -, syn, localIp, rtime, rttest, rtseq, sndMax, hbare, -, hseq, hpcb'⟩ :=
          hconn hroom
        intro _
        have hun : pcb.unsent = [] := by rw [hpcb]; exact hunsent
        have hlast : pcb.lastack + 1 = iss := by rw [hpcb]; exact UInt32.sub_add_cancel ..
        show Handshaking ((tTcpConnect h indet j ipaddr port connected).2.pcb j)
        rw [hpcb']
        refine ⟨unackedInsert_head hbare.syn hhead, ?_, ?_, ?_, [], ?_⟩
        · rw [hpcb]; rfl
        · rw [hpcb]; rfl
        · have hmss : pcb.mss = tTcpMss := by rw [hpcb]; rfl
          simp only [hmss]
          decide
        · simp only [hun, hlast]
          exact dataQueue_nil _
    | _ => exact hc.elim
  · by_cases hpool : i ∈ h.tcpPcbPool
    · have hfresh := (h.fresh_exec (Or.inl hpool) hc).resolve_left hi
      intro hst
      rw [hfresh.state] at hst
      exact absurd hst (by decide)
    · exact handshaking_step (hh i hpool) (h.exec_pcbStep op hpool hc)

/-- A segment makes the program crash only on a control block in SYN_SENT with
nothing unacked. -/
theorem tTcpInput_crashes (hl : h.Linked) {indet : Nat → Option Netif} {cbRet : ErrT} {p : Pbuf}
    (hf : (tTcpInput h indet cbRet p).1.fate = .crashes) :
    ∃ i, i ∉ h.tcpPcbPool ∧ (h.pcb i).state = .synSent ∧ (h.pcb i).unacked = [] := by
  obtain ⟨-, -, hno, -⟩ | ⟨i, prev, s, k, -, hd, -, hout, -⟩ := tTcpInput_cases h indet cbRet p
  · exact absurd hf hno
  · rw [hout] at hf
    have hproc : (tTcpProcess (h.outEnv indet) cbRet h.pools (h.pcb i) s).1 = .crashes := by
      revert hf
      unfold tTcpReceive
      split
      · split <;> exact nofun
      · exact id
    refine ⟨i, (hl.demux hd).1, ?_⟩
    obtain ⟨-, ⟨-, hcrash, -⟩ | ⟨-, -, -, _, _, _, _, _, -, -, -, -, -, hno⟩⟩ :=
      tTcpProcess_cases (h.outEnv indet) cbRet h.pools (h.pcb i) s
    · exact hcrash hproc
    · exact absurd hproc hno

theorem AllHandshaking.syn_at_head (hh : h.AllHandshaking) (hl : h.Linked) : NoHalfOpen h where
  syn i hr hst := (hh i (hl.reaches hr) hst).syn
  no_crash p cbRet indet hf := by
    obtain ⟨i, hi, hst, hnil⟩ := tTcpInput_crashes hl hf
    obtain ⟨syn, q, hcons, -⟩ := (hh i hi hst).syn
    rw [hnil] at hcons
    exact List.cons_ne_nil _ _ hcons.symm

end TcpHost

theorem throughout_noHalfOpen {h : TcpHost} (hb : h.Boot) {ops : List TcpOp}
    (hops : Run.Along TcpHost.step (fun h op => h.Legal op ∧ h.ConnectOk op) h ops) :
    Run.Throughout TcpHost.step NoHalfOpen h ops := by
  refine Run.Throughout.imp (fun h hI => hI.1.syn_at_head hI.2) (Run.throughout_of_along
    (P := fun h : TcpHost => h.AllHandshaking ∧ h.Linked)
    (fun h op hI hop => ⟨hI.1.exec hop.1 hop.2, hI.2.exec hop.1⟩) ⟨fun i hi => ?_, hb.linked⟩ hops)
  rw [hb.pool] at hi
  exact absurd (List.mem_finRange i) hi

/-- The connect of a new control block leaves no half-open connection behind
exactly when there is a free segment block and a free pbuf. -/
theorem TcpPcb.Fresh.connect_error_iff {h : TcpHost} {i : TcpPcbId} (hf : (h.pcb i).Fresh)
    (indet : Nat → Option Netif) (ipaddr : UInt32) (port : UInt16) (connected : Option Nat) :
    let r := tTcpConnect h indet i ipaddr port connected
    (r.1.fate ≠ .returns errOk →
        ¬ Reaches r.2.next r.2.tcpActivePcbs i ∧ (r.2.pcb i).state = .closed) ↔
      h.pools.segPool ≠ [] ∧ h.pools.pbufPool ≠ [] := by
  obtain ⟨localPort, iss, pcb, hpcb, -, hact, hfail, hok⟩ :=
    tTcpConnect_spec h indet i ipaddr port connected hf.unsent
  have hroom : SynRoom h.pools (h.pcb i) ↔ h.pools.segPool ≠ [] ∧ h.pools.pbufPool ≠ [] := by
    rw [SynRoom, hf.sndQueuelen]
    exact ⟨fun hr => ⟨hr.1, hr.2.1⟩, fun hr => ⟨hr.1, hr.2, by decide⟩⟩
  intro r
  rw [← hroom]
  constructor
  · intro hclosed
    by_contra hno
    obtain ⟨hfate, -⟩ := hfail hno
    have hne : r.1.fate ≠ .returns errOk := by
      rw [show r.1.fate = _ from hfate]
      decide
    refine (hclosed hne).1 ?_
    rw [show r.2.tcpActivePcbs = _ from hact]
    exact .head i
  · exact fun hr hne => absurd (hok hr).1 hne

/-- **Half-open connections**: a failing connect of a new control block leaves
it closed and unregistered exactly when there was room for the SYN, so when it
did not fail; and over any run in which every connect finds room, control
blocks in SYN_SENT have their SYN at the head of the unacked queue, and
nothing crashes. -/
theorem noHalfOpen (h : TcpHost) (i : TcpPcbId) (ops : List TcpOp) :
    ((h.pcb i).Fresh → ∀ (indet : Nat → Option Netif) (ipaddr : UInt32) (port : UInt16)
      (connected : Option Nat),
      let r := tTcpConnect h indet i ipaddr port connected
      (r.1.fate ≠ .returns errOk →
          ¬ Reaches r.2.next r.2.tcpActivePcbs i ∧ (r.2.pcb i).state = .closed) ↔
        h.pools.segPool ≠ [] ∧ h.pools.pbufPool ≠ []) ∧
      (h.Boot → Run.Along TcpHost.step (fun h op => h.Legal op ∧ h.ConnectOk op) h ops →
        Run.Throughout TcpHost.step NoHalfOpen h ops) :=
  ⟨fun hf => hf.connect_error_iff, fun hb hops => throughout_noHalfOpen hb hops⟩

/-- A host with one control block taken and nothing in the pools. -/
def poorHost : TcpHost := (TcpHost.initial ⟨[], []⟩ ⟨[], none⟩).step .new

theorem poorHost_fresh : (poorHost.pcb 0).Fresh := by
  rw [poorHost, TcpHost.step]
  simp only [TcpHost.exec, tTcpNew, TcpHost.initial]
  exact tcpPcbInit_fresh _ _

theorem noHalfOpen_sample :
    (let r := tTcpConnect poorHost (fun _ => none) 0 0x0a000001 80 none
     (r.1.fate ≠ .returns errOk →
          ¬ Reaches r.2.next r.2.tcpActivePcbs 0 ∧ (r.2.pcb 0).state = .closed) ↔
        poorHost.pools.segPool ≠ [] ∧ poorHost.pools.pbufPool ≠ []) ∧
      Run.Throughout TcpHost.step NoHalfOpen sampleHost [.new, .write 0 (fun _ => 0) 1 true] := by
  refine ⟨(noHalfOpen poorHost 0 []).1 poorHost_fresh _ _ _ _, (noHalfOpen sampleHost 0 _).2
    (TcpHost.initial_boot _ _) ⟨⟨trivial, trivial⟩, ⟨?_, trivial⟩, trivial⟩⟩
  show (0 : TcpPcbId) ∉ _
  rw [TcpHost.step, TcpHost.exec_tcpPcbPool]
  decide

/-- With empty pools, `t_tcp_connect` fails and leaves the control block
active, in SYN_SENT, without a SYN. -/
theorem not_noHalfOpen :
    let r := tTcpConnect poorHost (fun _ => none) 0 0x0a000001 80 none
    (poorHost.pcb 0).Fresh ∧ r.1.fate = .returns (-1) ∧ Reaches r.2.next r.2.tcpActivePcbs 0 ∧
      (r.2.pcb 0).state = .synSent ∧ (r.2.pcb 0).unacked = [] ∧
      ¬ NoHalfOpen r.2 := by
  obtain ⟨localPort, iss, pcb, hpcb, -, hact, hfail, -⟩ :=
    tTcpConnect_spec poorHost (fun _ => none) 0 0x0a000001 80 none poorHost_fresh.unsent
  obtain ⟨hfate, hpcb'⟩ := hfail (by rw [SynRoom]; exact fun hr => hr.1 rfl)
  intro r
  have hreach : Reaches r.2.next r.2.tcpActivePcbs 0 := by
    rw [show r.2.tcpActivePcbs = _ from hact]
    exact .head 0
  have hst : (r.2.pcb 0).state = .synSent := by
    rw [show r.2.pcb 0 = _ from hpcb', hpcb]
    rfl
  have hun : (r.2.pcb 0).unacked = [] := by
    rw [show r.2.pcb 0 = _ from hpcb', hpcb]
    exact poorHost_fresh.unacked
  refine ⟨poorHost_fresh, hfate, hreach, hst, hun, fun hno => ?_⟩
  obtain ⟨syn, q, hcons, -⟩ := hno.syn 0 hreach hst
  rw [hun] at hcons
  exact List.cons_ne_nil _ _ hcons.symm

end TTcp
