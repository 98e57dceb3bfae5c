import TTcp.Tcp.Handshake
import TTcp.Tcp.Stream

/-!
# TTcp.Tcp.Mss

The maximum segment size that the peer asks for.

`t_tcp_process` takes the `mss` from the first MSS option of the SYN|ACK, and
`t_tcp_write` cuts what it is given from then on to that size.  What was
written before is already cut, to `T_TCP_MSS`, and `t_tcp_output` sends it as
it is.
-/

namespace TTcp

/-! ## the MSS option -/

/-- From `o` on there are well-formed options up to `e`, and the first MSS
option among them has the value `mss`. -/
inductive MssOption (m : ByteMem) (e : Nat) (mss : UInt16) : Nat → Prop
  | mss {o : Nat} (hend : o + 4 ≤ e) (kind : m o = 2) (len : m (o + 1) = 4)
      (value : (m (o + 2)).toUInt16 <<< 8 ||| (m (o + 3)).toUInt16 = mss) : MssOption m e mss o
  | nop {o : Nat} (kind : m o = 1) (rest : MssOption m e mss (o + 1)) : MssOption m e mss o
  | other {o : Nat} (end_ne : m o ≠ 0) (nop_ne : m o ≠ 1) (mss_ne : m o ≠ 2)
      (len : 2 ≤ (m (o + 1)).toNat) (rest : MssOption m e mss (o + (m (o + 1)).toNat)) :
      MssOption m e mss o

theorem MssOption.le {m : ByteMem} {e o : Nat} {mss : UInt16} (h : MssOption m e mss o) :
    o + 4 ≤ e := by
  induction h with
  | mss hend => exact hend
  | nop _ _ ih => omega
  | other _ _ _ _ _ ih => omega

/-- The options of a segment are well formed, and its MSS option has the value
`mss`. -/
def Incoming.CarriesMss (s : Incoming) (mss : UInt16) : Prop :=
  MssOption s.p.mem (s.tcphdr + 4 * (tTcphHdrlen s.p.mem s.tcphdr).toNat) mss (s.tcphdr + 20)

/-- A round of the walk with the cursor at the option at `o`, before the end
of the options. -/
theorem parseoptRound_of_lt {tcphdr o : Nat} {p : Pbuf} {c : UInt8} (hc : tcphdr + 20 + c.toNat = o)
    (ho : o < tcphdr + 4 * (tTcphHdrlen p.mem tcphdr).toNat) :
    (∀ mss, p.mem o = 2 → p.mem (o + 1) = 4 →
        (p.mem (o + 2)).toUInt16 <<< 8 ||| (p.mem (o + 3)).toUInt16 = mss →
      ∃ p', parseoptRound tcphdr (c, p) = .done (some mss, p')) ∧
    (p.mem o = 1 → ∃ p', p'.mem = p.mem ∧ parseoptRound tcphdr (c, p) = .next (c + 1, p')) ∧
    (p.mem o ≠ 0 → p.mem o ≠ 1 → p.mem o ≠ 2 → p.mem (o + 1) ≠ 0 →
      ∃ p', p'.mem = p.mem ∧
        parseoptRound tcphdr (c, p) = .next (c + p.mem (o + 1), p')) := by
  have hend : ¬ ((ntohs (p.mem.get16 (tcphdr + 12)) >>> 12).toNat - 5) * 4 ≤ c.toNat := by
    rw [tTcphHdrlen, tTcphWord] at ho
    omega
  have h0 : tcphdr + tTcpHlen + c.toNat = o := hc
  have h1 : tcphdr + tTcpHlen + (c.toNat + 1) = o + 1 := by omega
  have h2 : tcphdr + tTcpHlen + (c.toNat + 2) = o + 2 := by omega
  have h3 : tcphdr + tTcpHlen + (c.toNat + 3) = o + 3 := by omega
  refine ⟨fun mss hk hl hv => ?_, fun hk => ?_, fun hk0 hk1 hk2 hl => ?_⟩
  · constructor
    simp only [parseoptRound, Pbuf.rd16_fst, Pbuf.rd16_snd, Pbuf.rd8_fst, Pbuf.rd8_snd,
      Pbuf.see_mem, if_neg hend, h0, h1, h2, h3, hk, hl, hv]
    rfl
  · refine ⟨?q, ?mem, ?round⟩
    case round =>
      simp only [parseoptRound, Pbuf.rd16_fst, Pbuf.rd16_snd, Pbuf.rd8_fst, Pbuf.rd8_snd,
        Pbuf.see_mem, if_neg hend, h0, hk]
      rfl
    case mem => rfl
  · refine ⟨?r, ?mem', ?round'⟩
    case round' =>
      simp only [parseoptRound, Pbuf.rd16_fst, Pbuf.rd16_snd, Pbuf.rd8_fst, Pbuf.rd8_snd,
        Pbuf.see_mem, if_neg hend, h0, h1, if_neg hk0, if_neg hk1, hk2, false_and, if_false,
        if_neg hl]
      rfl
    case mem' => rfl

/-- The walk over well-formed options finds the MSS option. -/
theorem MssOption.run {m : ByteMem} {tcphdr e o : Nat} {mss : UInt16} (h : MssOption m e mss o)
    (he : e = tcphdr + 4 * (tTcphHdrlen m tcphdr).toNat) (hle : e ≤ tcphdr + 60) {n : Nat}
    (hn : e ≤ o + n) {p : Pbuf} (hp : p.mem = m) {c : UInt8} (hc : tcphdr + 20 + c.toNat = o) :
    ∃ p', Loop.run (parseoptRound tcphdr) n (c, p) = some (some mss, p') := by
  induction h generalizing n p c with
  | @mss o hend kind len value =>
      obtain ⟨n, rfl⟩ : ∃ k, n = k + 1 := ⟨n - 1, by omega⟩
      subst hp
      obtain ⟨p', hround⟩ := (parseoptRound_of_lt hc (by omega)).1 mss kind len value
      exact ⟨p', by rw [Loop.run, hround]⟩
  | @nop o kind rest ih =>
      have hrest := rest.le
      obtain ⟨n, rfl⟩ : ∃ k, n = k + 1 := ⟨n - 1, by omega⟩
      subst hp
      obtain ⟨p', hmem, hround⟩ := (parseoptRound_of_lt hc (by omega)).2.1 kind
      have hc' : tcphdr + 20 + (c + 1).toNat = o + 1 := by
        rw [UInt8.toNat_add, show (1 : UInt8).toNat = 1 from rfl]
        omega
      obtain ⟨p'', hrun⟩ := ih (n := n) (by omega) hmem hc'
      exact ⟨p'', by rw [Loop.run, hround]; exact hrun⟩
  | @other o end_ne nop_ne mss_ne len rest ih =>
      have hrest := rest.le
      obtain ⟨n, rfl⟩ : ∃ k, n = k + 1 := ⟨n - 1, by omega⟩
      subst hp
      have hne : p.mem (o + 1) ≠ 0 := fun h0 => by
        rw [h0] at len
        exact absurd len (by decide)
      obtain ⟨p', hmem, hround⟩ := (parseoptRound_of_lt hc (by omega)).2.2 end_ne nop_ne mss_ne hne
      have hc' : tcphdr + 20 + (c + p.mem (o + 1)).toNat = o + (p.mem (o + 1)).toNat := by
        rw [UInt8.toNat_add]
        omega
      obtain ⟨p'', hrun⟩ := ih (n := n) (by omega) hmem hc'
      exact ⟨p'', by rw [Loop.run, hround]; exact hrun⟩

/-- `t_tcp_parseopt` finds the MSS option of a segment with well-formed
options. -/
theorem Incoming.CarriesMss.parseopt {s : Incoming} {mss : UInt16} (h : s.CarriesMss mss) (o : Nat) :
    ∃ p', tTcpParseopt (s.p.see o) s.tcphdr = some (some mss, p') := by
  have hle := MssOption.le h
  have h15 : (tTcphHdrlen s.p.mem s.tcphdr).toNat ≤ 15 := by
    rw [tTcphHdrlen, UInt16.toNat_shiftRight, show (12 : UInt16).toNat % 16 = 12 from rfl,
      Nat.shiftRight_eq_div_pow]
    have := (tTcphWord s.p.mem s.tcphdr).toNat_lt
    omega
  have h5 : tTcphHdrlen s.p.mem s.tcphdr > 5 := by
    rw [gt_iff_lt, UInt16.lt_iff_toNat_lt, show (5 : UInt16).toNat = 5 from rfl]
    omega
  obtain ⟨p', hrun⟩ := MssOption.run h rfl (by omega) (n := 256) (by omega)
    (p := (s.p.see o).see (s.tcphdr + 12 + 2)) rfl (c := 0) (Nat.add_zero _)
  refine ⟨p', ?_⟩
  rw [tTcpParseopt_eq, Pbuf.see_mem, if_pos h5]
  exact hrun

/-! ## the segments sent after the handshake -/

/-- The window that accepting the SYN|ACK `s` opens. -/
def openedWnd (pcb : TcpPcb) (s : Incoming) : UInt32 :=
  (tcpAcceptPcb pcb s (s.p.mem.get16 (s.tcphdr + 14)) []).wnd

/-- From here on no segment longer than `limit` is sent: neither new segments
nor the queued ones that fit into the window are longer. -/
structure MssLimited (limit : Nat) (first wnd : UInt32) (pcb : TcpPcb) : Prop where
  established : ∃ data sent rest, Established first pcb data sent rest
  wnd_eq : pcb.wnd = wnd
  mss : pcb.mss.toNat ≤ limit
  unsent : ∀ seg ∈ pcb.unsent, seg.fits first wnd = true → seg.len.toNat ≤ limit

section
variable {limit : Nat} {first wnd : UInt32} {pcb pcb' : TcpPcb}

theorem MssLimited.output (h : MssLimited limit first wnd pcb) (env : OutEnv) (pools : Pools) :
    let r := tTcpOutput env pools pcb
    MssLimited limit first wnd r.2.2.1 ∧
      ∀ q ∈ dataPackets r.2.2.2, (tcpPacketData q).length ≤ limit := by
  obtain ⟨data, sent, rest, he⟩ := h.established
  obtain ⟨hconn, gone, left, data', new, rest', hsplit, hfits, hleft, he', -, -, hpkts⟩ :=
    he.output env pools
  have hwnd : (tTcpOutput env pools pcb).2.2.1.wnd = wnd := by
    rw [← h.wnd_eq, TcpPcb.wnd, TcpPcb.wnd, hconn.cwnd, hconn.sndWnd]
  refine ⟨⟨⟨_, _, _, he'⟩, hwnd, by rw [hconn.mss]; exact h.mss, fun seg hseg => ?_⟩, fun q hq => ?_⟩
  · rw [hleft] at hseg
    exact h.unsent seg (by rw [hsplit]; exact List.mem_append_right _ hseg)
  · obtain ⟨seg, hseg, hdata⟩ := hpkts q hq
    have hfit := hfits seg hseg
    rw [he.lastack, h.wnd_eq] at hfit
    rw [hdata, TcpSeg.length_payload]
    exact h.unsent seg (by rw [hsplit]; exact List.mem_append_left _ hseg) hfit

theorem MssLimited.touch (h : MssLimited limit first wnd pcb) (tcpTicks : UInt32) :
    MssLimited limit first wnd (pcb.touch tcpTicks) := by
  obtain ⟨data, sent, rest, he⟩ := h.established
  exact ⟨⟨data, sent, rest, he.sender.touch _, he.state, he.lastack⟩, h.wnd_eq, h.mss, h.unsent⟩

/-- Receiving a segment hands to IP what output hands to it afterwards. -/
theorem MssLimited.receive {env : OutEnv} {cbRet : ErrT} {pools : Pools} {s : Incoming}
    (h : MssLimited limit first wnd (tTcpProcess env cbRet pools pcb s).2.2.1) :
    let r := tTcpReceive env cbRet pools pcb s
    MssLimited limit first wnd r.2.2.1 ∧
      ∀ q ∈ dataPackets r.2.2.2.2, (tcpPacketData q).length ≤ limit := by
  obtain ⟨hno, -⟩ := tTcpProcess_cases env cbRet pools pcb s
  intro r
  obtain ⟨hpcb, hevs⟩ | ⟨hpcb, hevs⟩ := tTcpReceive_eq pcb env cbRet pools s
  · rw [show r.2.2.1 = _ from hpcb, show r.2.2.2.2 = _ from hevs, dataPackets, hno]
    exact ⟨h, by simp⟩
  · rw [show r.2.2.1 = _ from hpcb, show r.2.2.2.2 = _ from hevs,
      dataPackets_append_of_no_packets hno]
    exact h.output _ _

theorem MssLimited.step (h : MssLimited limit first wnd pcb) {net : Net} {i : TcpPcbId}
    {op : TcpOp} {evs : List Event} {bytes : List UInt8}
    (hstep : PcbStep net i pcb op pcb' evs bytes) :
    MssLimited limit first wnd pcb' ∧
      ∀ q ∈ dataPackets evs, (tcpPacketData q).length ≤ limit := by
  obtain ⟨data, sent, rest, he⟩ := h.established
  cases hstep with
  | idle => exact ⟨h, by simp⟩
  | write pools arg len copy =>
      obtain ⟨hs, ⟨unsent, sndLbb, sndBuf, sndQueuelen, hpcb⟩, hsegs⟩ :=
        he.sender.write pools arg len copy
      refine ⟨⟨⟨data, sent, _, hs, ?_, ?_⟩, ?_, ?_, fun seg hseg hfit => ?_⟩, by simp⟩
      · rw [hpcb]; exact he.state
      · rw [hpcb]; exact he.lastack
      · rw [hpcb]; exact h.wnd_eq
      · rw [hpcb]; exact h.mss
      · rcases hsegs seg hseg with hold | hnew
        · exact h.unsent seg hold hfit
        · exact hnew.trans h.mss
  | output env pools indet hnet => exact h.output env pools
  | receive env pools p cbRet indet s k hnet hhdr hmatch =>
      refine MssLimited.receive ?_
      obtain ⟨-, ⟨htouch, -⟩ | ⟨hst, -⟩⟩ := tTcpProcess_cases env cbRet pools pcb s
      · rw [htouch]
        exact h.touch _
      · rw [he.state] at hst
        exact absurd hst (by decide)

/-- Accepting a SYN|ACK with an MSS option limits the segments, if what is
already queued and fits keeps to the limit. -/
theorem SynSent.mssLimited {syn : TcpSeg} {rest : List UInt8} (h : SynSent first pcb syn rest)
    {net : Net} {i : TcpPcbId} {p : Pbuf} {cbRet : ErrT} {indet : Nat → Option Netif}
    {s : Incoming} {k : TcpKey} {m : UInt16} {evs : List Event} {bytes : List UInt8}
    (hstep : PcbStep net i pcb (.input p cbRet indet) pcb' evs bytes)
    (hest : pcb'.state = .established) (hhdr : (tTcpInputHeader p).2 = some (s, k))
    (hm : s.CarriesMss m)
    (hfit : ∀ seg ∈ pcb.unsent, seg.fits s.ackno (openedWnd pcb s) = true →
      seg.len.toNat ≤ min m.toNat 1400) :
    MssLimited (min m.toNat 1400) first (openedWnd pcb s) pcb' ∧
      ∀ q ∈ dataPackets evs, (tcpPacketData q).length ≤ min m.toNat 1400 := by
  have hno : ¬ pcb.state = .established := by rw [h.state]; decide
  cases hstep with
  | idle => exact absurd hest hno
  | receive env pools p cbRet indet s' k' hnet hhdr' hmatch =>
      rw [hhdr, Option.some.injEq, Prod.mk.injEq] at hhdr'
      obtain ⟨rfl, rfl⟩ := hhdr'
      refine MssLimited.receive ?_
      have hsess := (Connected.synSent h).receive_session env cbRet pools s
      obtain ⟨-, ⟨htouch, -⟩ | ⟨-, -, -, rseg, unacked, wnd, mss, flags, hcons, hack, rfl, hpcb,
        hmss, -⟩⟩ := tTcpProcess_cases env cbRet pools pcb s
      · rw [hsess.state, htouch] at hest
        exact absurd hest hno
      · obtain ⟨p', hparse⟩ := hm.parseopt (s.tcphdr + 16)
        obtain rfl : mss = some m := hmss _ hparse
        have hunacked := h.sender.unacked
        rw [hcons, List.cons_append, List.nil_append, List.cons.injEq] at hunacked
        obtain ⟨rfl, rfl⟩ := hunacked
        have ht : SynSent first (pcb.touch env.tcpTicks) rseg rest :=
          ⟨h.sender.touch _, h.state, h.bare, h.seqno, h.lastack, h.cwnd, h.sndWnd, h.flags⟩
        have hfirst : s.ackno = first := by rw [hack, h.seqno, UInt32.sub_add_cancel]
        rw [hfirst] at hfit
        rw [hpcb]
        refine ⟨⟨_, _, _, ht.accept hack _ (some m) flags⟩, rfl, ?_, hfit⟩
        simp only [negotiatedMss]
        split
        · next hlt =>
          rw [UInt16.lt_iff_toNat_lt, show tTcpMss.toNat = 1400 from rfl] at hlt
          rw [show tTcpMss.toNat = 1400 from rfl]
          omega
        · next hlt =>
          rw [UInt16.lt_iff_toNat_lt, show tTcpMss.toNat = 1400 from rfl] at hlt
          omega

end

/-! ## runs -/

/-- **Maximum segment size**: once a SYN|ACK with an MSS option of value `m`
is accepted, no data segment longer than `m` or `T_TCP_MSS` is sent, provided
that none of those queued before that fit into the window is longer. -/
theorem ConnectedOnce.mss_respected {h : TcpHost} {i : TcpPcbId} {pre mid later : List TcpOp}
    {c : TcpOp} {p : Pbuf} {cbRet : ErrT} {indet : Nat → Option Netif}
    (r : ConnectedOnce h i pre c (mid ++ .input p cbRet indet :: later)) {s : Incoming} {k : TcpKey}
    {m : UInt16} (hhdr : (tTcpInputHeader p).2 = some (s, k)) (hm : s.CarriesMss m)
    (hno : ((Run.final TcpHost.step h (pre ++ c :: mid)).pcb i).state ≠ .established)
    (hest : (((Run.final TcpHost.step h (pre ++ c :: mid)).step (.input p cbRet indet)).pcb i).state =
      .established)
    (hfit : let pcb := (Run.final TcpHost.step h (pre ++ c :: mid)).pcb i
      ∀ seg ∈ pcb.unsent, seg.fits s.ackno (openedWnd pcb s) = true →
        seg.len.toNat ≤ min m.toNat 1400) :
    ∀ q ∈ handed i (Run.history TcpHost.exec (Run.final TcpHost.step h (pre ++ c :: mid))
      (.input p cbRet indet :: later)), (tcpPacketData q).length ≤ min m.toNat 1400 := by
  obtain ⟨r', ⟨-, hop⟩, hlater⟩ := r.split
  obtain ⟨hpool, sent, rest, hconn⟩ := r'.connected
  obtain ⟨s0, hs0⟩ : ∃ s0, s0 = Run.final TcpHost.step h (pre ++ c :: mid) := ⟨_, rfl⟩
  rw [← hs0] at hpool hconn hno hest hlater
  simp only [← hs0] at hfit ⊢
  rw [TcpHost.step] at hest hlater
  have hstep := s0.exec_pcbStep (.input p cbRet indet) hpool hop
  have hstart : MssLimited (min m.toNat 1400) ((connectedHost h pre c).pcb i).sndLbb
      (openedWnd (s0.pcb i) s) ((s0.exec (.input p cbRet indet)).2.pcb i) ∧
      ∀ q ∈ handed i [(.input p cbRet indet, (s0.exec (.input p cbRet indet)).1)],
        (tcpPacketData q).length ≤ min m.toNat 1400 := by
    rw [handed_singleton]
    cases hconn with
    | established h' => exact absurd h'.state hno
    | synSent h' => exact h'.mssLimited hstep hest hhdr hm hfit
  have hrun := Run.history_of_along TcpHost.exec
    (P := fun hist h' => i ∉ h'.tcpPcbPool ∧
      MssLimited (min m.toNat 1400) ((connectedHost h pre c).pcb i).sndLbb
        (openedWnd (s0.pcb i) s) (h'.pcb i) ∧
      ∀ q ∈ handed i hist, (tcpPacketData q).length ≤ min m.toNat 1400)
    (fun hist h' op hs hop => by
      obtain ⟨hpool, hlim, hpkts⟩ := hs
      obtain ⟨hlim', hpkts'⟩ := hlim.step (h'.exec_pcbStep op hpool hop.2)
      refine ⟨h'.not_mem_tcpPcbPool_exec hpool, hlim', fun q hq => ?_⟩
      rw [handed_append, handed_singleton, List.mem_append] at hq
      exact hq.elim (hpkts q) (hpkts' q))
    _ ⟨s0.not_mem_tcpPcbPool_exec hpool, hstart⟩ hlater
  exact hrun.2.2

/-- The segment in the packet `sampleSynAck mss`. -/
def sampleSegment (mss : UInt8) : Incoming × TcpKey :=
  (tTcpInputHeader (sampleSynAck mss)).2.getD (⟨sampleSynAck mss, 0, 0, 0, 0⟩, ⟨0, 0, 0, 0⟩)

theorem sampleSegment_eq {mss : UInt8} (h : (tTcpInputHeader (sampleSynAck mss)).2.isSome) :
    (tTcpInputHeader (sampleSynAck mss)).2 = some (sampleSegment mss) := by
  obtain ⟨x, hx⟩ := Option.isSome_iff_exists.mp h
  rw [sampleSegment, hx]
  rfl

theorem sampleRun_mss_respected :
    (handed 0 (Run.history TcpHost.exec
        (Run.final TcpHost.step sampleHost ([.new] ++ sampleConnect :: []))
        [.input (sampleSynAck 100) 0 fun _ => none, .write 0 (fun _ => 0) 250 true,
          .output 0 fun _ => none])).all fun q => (tcpPacketData q).length ≤ min 100 1400 := by
  have hunsent : ((Run.final TcpHost.step sampleHost ([.new] ++ sampleConnect :: [])).pcb 0).unsent =
      [] := List.isEmpty_iff.mp (by decide +kernel)
  rw [List.all_eq_true]
  simp only [decide_eq_true_eq]
  refine ConnectedOnce.mss_respected (sampleRun (by simp [TcpOp.OnlyUses]))
    (s := (sampleSegment 100).1) (m := 100) (sampleSegment_eq (by decide +kernel))
    (.mss ?_ ?_ ?_ ?_) ?_ ?_ ?_
  · decide +kernel
  · decide +kernel
  · decide +kernel
  · decide +kernel
  · decide +kernel
  · decide +kernel
  · intro pcb seg hseg
    rw [show pcb.unsent = [] from hunsent] at hseg
    exact absurd hseg List.not_mem_nil

/-- Two bytes are written before the SYN|ACK with an MSS of 1 comes, and then
sent in one segment. -/
theorem not_mss_respected :
    let s0 := Run.final TcpHost.step sampleHost
      ([.new] ++ sampleConnect :: [.write 0 (fun i => UInt8.ofNat i) 2 true])
    let op : TcpOp := .input (sampleSynAck 1) 0 fun _ => none
    ConnectedOnce sampleHost 0 [.new] sampleConnect
        ([.write 0 (fun i => UInt8.ofNat i) 2 true] ++ [op]) ∧
      (∃ s k, (tTcpInputHeader (sampleSynAck 1)).2 = some (s, k) ∧ s.CarriesMss 1) ∧
      (s0.pcb 0).state = .synSent ∧ ((s0.step op).pcb 0).state = .established ∧
      ¬ ∀ q ∈ handed 0 (Run.history TcpHost.exec s0 [op]),
        (tcpPacketData q).length ≤ min 1 1400 := by
  refine ⟨sampleRun (by simp [TcpOp.OnlyUses]), ⟨(sampleSegment 1).1, (sampleSegment 1).2,
    sampleSegment_eq (by decide +kernel), .mss ?_ ?_ ?_ ?_⟩, ?_, ?_, ?_⟩
  · decide +kernel
  · decide +kernel
  · decide +kernel
  · decide +kernel
  · decide +kernel
  · decide +kernel
  · decide +kernel

end TTcp
