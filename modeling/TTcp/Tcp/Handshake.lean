import TTcp.Tcp.Sender

/-!
# TTcp.Tcp.Handshake

The active open.

A control block connected once becomes established only by a SYN|ACK from its
peer for its own SYN, and from then on no segment changes its session
(`ConnectedOnce.handshake`).

`t_tcp_process` takes for granted that a control block in SYN_SENT has its SYN
on the unacked queue.  A connect that fails breaks this, since it leaves the
control block registered and in SYN_SENT; if no connect fails, it holds in
every state (`noHalfOpen`).
-/

namespace TTcp

/-! ## the segment that establishes a connection -/

/-- The segment `s`, with ports and addresses `k`, is the SYN|ACK that `pcb`
waits for, and `pcb'` is what it makes of `pcb`. -/
structure Establishes (syn : TcpSeg) (pcb pcb' : TcpPcb) (s : Incoming) (k : TcpKey) : Prop where
  remotePort : pcb.remotePort = k.src
  localPort : pcb.localPort = k.dest
  remoteIp : pcb.remoteIp = k.ipSrc
  localIp : pcb.localIp = k.ipDst
  ack_flag : s.flags &&& tcpAck ≠ 0
  syn_flag : s.flags &&& tcpSyn ≠ 0
  ackno : s.ackno = syn.seqno + 1
  rcvNxt : pcb'.rcvNxt = s.seqno + 1
  lastack : pcb'.lastack = s.ackno
  unacked : ∀ seg ∈ pcb'.unacked, seg.flags &&& tcpSyn = 0

/-- What no segment changes once the connection is established. -/
structure TcpPcb.SameSession (pcb pcb' : TcpPcb) : Prop where
  state : pcb'.state = pcb.state
  rcvNxt : pcb'.rcvNxt = pcb.rcvNxt
  lastack : pcb'.lastack = pcb.lastack
  sndWnd : pcb'.sndWnd = pcb.sndWnd
  mss : pcb'.mss = pcb.mss
  sndBuf : pcb'.sndBuf = pcb.sndBuf

theorem TcpPcb.matches_iff {pcb : TcpPcb} {k : TcpKey} : pcb.matches k = true ↔
    pcb.remotePort = k.src ∧ pcb.localPort = k.dest ∧ pcb.remoteIp = k.ipSrc ∧
      pcb.localIp = k.ipDst := by
  simp [TcpPcb.matches, tIpAddrCmp, and_assoc]

theorem TcpSeg.Sent.not_syn {seg : TcpSeg} (h : seg.Sent) : seg.flags &&& tcpSyn = 0 := by
  rw [flags_eq]
  rcases h.word with hw | hw <;> rw [hw] <;> rfl

section
variable {first : UInt32} {pcb pcb' : TcpPcb} {sent rest : List UInt8} {net : Net} {i : TcpPcbId}
  {op : TcpOp} {evs : List Event} {bytes : List UInt8}

theorem Connected.output_sameConn (h : Connected first pcb sent rest) (env : OutEnv)
    (pools : Pools) : pcb.SameConn (tTcpOutput env pools pcb).2.2.1 := by
  cases h with
  | synSent h =>
      rw [h.output env pools]
      exact .refl pcb
  | established h => exact (h.output env pools).1

/-- Receiving a segment does to the session what processing it does. -/
theorem Connected.receive_session (h : Connected first pcb sent rest) (env : OutEnv)
    (cbRet : ErrT) (pools : Pools) (s : Incoming) :
    (tTcpProcess env cbRet pools pcb s).2.2.1.SameSession
      (tTcpReceive env cbRet pools pcb s).2.2.1 := by
  obtain ⟨hproc, -⟩ := h.process env cbRet pools s
  obtain ⟨hpcb, -⟩ | ⟨hpcb, -⟩ := tTcpReceive_eq pcb env cbRet pools s
  · rw [hpcb]
    exact ⟨rfl, rfl, rfl, rfl, rfl, rfl⟩
  · have hconn := hproc.output_sameConn env (tTcpProcess env cbRet pools pcb s).2.1
    rw [hpcb]
    exact ⟨hconn.state, hconn.rcvNxt, hconn.lastack, hconn.sndWnd, hconn.mss, hconn.sndBuf⟩

/-- Only the SYN|ACK for the SYN establishes the connection. -/
theorem SynSent.establishes {syn : TcpSeg} (h : SynSent first pcb syn rest)
    (hstep : PcbStep net i pcb op pcb' evs bytes) (hest : pcb'.state = .established) :
    ∃ p cbRet indet s k, op = .input p cbRet indet ∧ (tTcpInputHeader p).2 = some (s, k) ∧
      Establishes syn pcb pcb' s k := by
  have hno : ¬ pcb.state = .established := by rw [h.state]; decide
  have hconn' := (Connected.synSent h).step hstep
  cases hstep with
  | idle => exact absurd hest hno
  | write pools arg len copy =>
      obtain ⟨-, ⟨_, _, _, _, hpcb⟩, -⟩ := h.sender.write pools arg len copy
      rw [hpcb] at hest
      exact absurd hest hno
  | output env pools indet hnet =>
      rw [h.output env pools] at hest
      exact absurd hest hno
  | receive env pools p cbRet indet s k hnet hhdr hmatch =>
      have hsess := (Connected.synSent h).receive_session env cbRet pools s
      obtain ⟨-, ⟨htouch, -⟩ | ⟨-, hack, hsyn, rseg, unacked, wnd, mss, flags, hcons, hackno, -,
        hpcb, -⟩⟩ := tTcpProcess_cases env cbRet pools pcb s
      · rw [hsess.state, htouch] at hest
        exact absurd hest hno
      · have hunacked := h.sender.unacked
        rw [hcons, List.cons_append, List.cons.injEq] at hunacked
        obtain ⟨hk1, hk2, hk3, hk4⟩ := TcpPcb.matches_iff.mp hmatch
        refine ⟨p, cbRet, indet, s, k, rfl, hhdr, hk1, hk2, hk3, hk4, hack, hsyn, ?_, ?_, ?_, ?_⟩
        · rw [hackno, hunacked.1]
        · rw [hsess.rcvNxt, hpcb]
          rfl
        · rw [hsess.lastack, hpcb]
          rfl
        · obtain ⟨new, rest', hconn, -⟩ := hconn'
          cases hconn with
          | synSent h' =>
              rw [h'.state] at hest
              exact absurd hest (by decide)
          | established h' =>
              rw [h'.sender.unacked]
              exact fun seg hseg => (h'.sender.sent_queue.ok seg hseg).not_syn

/-- No segment changes the session once it is established. -/
theorem Established.sameSession {data : List TcpSeg} (h : Established first pcb data sent rest)
    {p : Pbuf} {cbRet : ErrT} {indet : Nat → Option Netif}
    (hstep : PcbStep net i pcb (.input p cbRet indet) pcb' evs bytes) : pcb.SameSession pcb' := by
  cases hstep with
  | idle => exact ⟨rfl, rfl, rfl, rfl, rfl, rfl⟩
  | receive env pools p cbRet indet s k hnet hhdr hmatch =>
      have hsess := (Connected.established h).receive_session env cbRet pools s
      obtain ⟨-, ⟨htouch, -⟩ | ⟨hst, -⟩⟩ := tTcpProcess_cases env cbRet pools pcb s
      · rw [htouch] at hsess
        exact ⟨hsess.state, hsess.rcvNxt, hsess.lastack, hsess.sndWnd, hsess.mss, hsess.sndBuf⟩
      · rw [h.state] at hst
        exact absurd hst (by decide)

theorem Established.state_step {data : List TcpSeg} (h : Established first pcb data sent rest)
    (hstep : PcbStep net i pcb op pcb' evs bytes) : pcb'.state = .established := by
  cases hstep with
  | idle => exact h.state
  | write pools arg len copy =>
      obtain ⟨-, ⟨_, _, _, _, hpcb⟩, -⟩ := h.sender.write pools arg len copy
      rw [hpcb]
      exact h.state
  | output env pools indet hnet => rw [tTcpOutput_state]; exact h.state
  | receive env pools p cbRet indet s k hnet hhdr hmatch =>
      have hsame := h.sameSession (i := i) (.receive env pools p cbRet indet s k hnet hhdr hmatch)
      rw [hsame.state]
      exact h.state

end

namespace ConnectedOnce

variable {h : TcpHost} {i : TcpPcbId} {pre post : List TcpOp} {c : TcpOp}

/-- At every moment after its connect, a control block is in one of the two
phases. -/
theorem connected (r : ConnectedOnce h i pre c post) :
    i ∉ (Run.final TcpHost.step h (pre ++ c :: post)).tcpPcbPool ∧
      ∃ sent rest, Connected ((connectedHost h pre c).pcb i).sndLbb
        ((Run.final TcpHost.step h (pre ++ c :: post)).pcb i) sent rest := by
  obtain ⟨hpool, syn, hsyn⟩ := r.synSent
  rw [Run.final_append, Run.final_cons]
  refine Run.final_of_along (P := fun h' => i ∉ h'.tcpPcbPool ∧
      ∃ sent rest, Connected ((connectedHost h pre c).pcb i).sndLbb (h'.pcb i) sent rest)
    (fun h' op hs hop => ?_) ⟨hpool, _, _, .synSent hsyn⟩ r.legal_post
  obtain ⟨hpool, sent, rest, hconn⟩ := hs
  obtain ⟨new, rest', hconn', -⟩ := hconn.step (h'.exec_pcbStep op hpool hop.2)
  exact ⟨h'.not_mem_tcpPcbPool_exec hpool, _, _, hconn'⟩

/-- **Active open**: a control block connected once becomes established only
by the SYN|ACK that its peer sends for its SYN; then it stays so, and no
segment changes its session. -/
theorem handshake {op : TcpOp} (r : ConnectedOnce h i pre c (post ++ [op])) :
    let s := Run.final TcpHost.step h (pre ++ c :: post)
    let pcb := s.pcb i
    let pcb' := (s.step op).pcb i
    ∃ syn, ((connectedHost h pre c).pcb i).unacked = [syn] ∧ syn.flags &&& tcpSyn ≠ 0 ∧
      (pcb.state ≠ .established → pcb'.state = .established →
        ∃ p cbRet indet seg k, op = .input p cbRet indet ∧
          (tTcpInputHeader p).2 = some (seg, k) ∧ Establishes syn pcb pcb' seg k) ∧
      (pcb.state = .established → pcb'.state = .established) ∧
      (pcb.state = .established → ∀ p cbRet indet, op = .input p cbRet indet →
        pcb.SameSession pcb') := by
  obtain ⟨r', ⟨-, hop⟩, -⟩ := r.split
  obtain ⟨hpool', syn, hsyn⟩ := r'.synSent
  obtain ⟨hpool, sent, rest, hconn⟩ := r'.connected
  have hstep := TcpHost.exec_pcbStep _ op hpool hop
  rw [← TcpHost.step] at hstep
  refine ⟨syn, hsyn.sender.unacked, hsyn.bare.syn, fun hno hest => ?_, fun hest => ?_,
    fun hest p cbRet indet hinput => ?_⟩
  · cases hconn with
    | established h' => exact absurd h'.state hno
    | @synSent syn' rest h' =>
        obtain ⟨p, cbRet, indet, seg, k, hinput, hhdr, he⟩ := h'.establishes hstep hest
        refine ⟨p, cbRet, indet, seg, k, hinput, hhdr, he.remotePort, he.localPort, he.remoteIp,
          he.localIp, he.ack_flag, he.syn_flag, ?_, he.rcvNxt, he.lastack, he.unacked⟩
        rw [he.ackno, h'.seqno, hsyn.seqno]
  · cases hconn with
    | established h' => exact h'.state_step hstep
    | synSent h' =>
        rw [h'.state] at hest
        exact absurd hest (by decide)
  · subst hinput
    cases hconn with
    | established h' =>
        exact h'.sameSession hstep
    | synSent h' =>
        rw [h'.state] at hest
        exact absurd hest (by decide)

theorem sampleRun_handshake :
    let s := Run.final TcpHost.step sampleHost ([.new] ++ sampleConnect :: [])
    let op : TcpOp := .input (sampleSynAck 100) 0 fun _ => none
    let pcb := s.pcb 0
    let pcb' := (s.step op).pcb 0
    ∃ syn, ((connectedHost sampleHost [.new] sampleConnect).pcb 0).unacked = [syn] ∧
      syn.flags &&& tcpSyn ≠ 0 ∧
      (pcb.state ≠ .established → pcb'.state = .established →
        ∃ p cbRet indet seg k, op = .input p cbRet indet ∧
          (tTcpInputHeader p).2 = some (seg, k) ∧ Establishes syn pcb pcb' seg k) ∧
      (pcb.state = .established → pcb'.state = .established) ∧
      (pcb.state = .established → ∀ p cbRet indet, op = .input p cbRet indet →
        pcb.SameSession pcb') :=
  ConnectedOnce.handshake (sampleRun (by simp [TcpOp.OnlyUses]))

end ConnectedOnce

end TTcp
