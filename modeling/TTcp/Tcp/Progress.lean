import TTcp.Tcp.Batch
import TTcp.Tcp.Accept
import TTcp.Tcp.Keepalive
import TTcp.Tcp.Options

/-!
# TTcp.Tcp.Progress

The `mss` that `t_tcp_enqueue` cuts its data by.

It starts at `T_TCP_MSS`, and only the options of an accepted SYN|ACK change
it.  `t_tcp_parseopt` caps an MSS option from above but not from below: an
option of zero is taken as it is, and from then on no write makes headway.
Over whole runs this is the only way to lose a usable `mss`
(`mss_usable_iff`).
-/

namespace TTcp

open Loop

/-! ## what the options make of the `mss` -/

/-- The walk over the options of the segment takes an MSS option of zero. -/
def Incoming.ZeroMss (s : Incoming) : Prop :=
  tTcphHdrlen s.p.mem s.tcphdr > 5 ∧ ∃ c, Reaches (parseoptCursor s.p.mem s.tcphdr) 0 c ∧
    c.toNat < optArea s.p.mem s.tcphdr ∧ mssAt s.p.mem (s.tcphdr + 20 + c.toNat) = some 0

/-- The walk ends at an MSS option. -/
theorem optSize_of_mssAt {m : ByteMem} {o : Nat} (h : mssAt m o ≠ none) : optSize m o = none := by
  unfold mssAt at h
  split at h
  · next h2 =>
    have h0 : m o ≠ 0 := by rw [h2.1]; decide
    have h1 : m o ≠ 1 := by rw [h2.1]; decide
    rw [optSize, if_neg h0, if_neg h1, if_pos h2]
  · exact absurd rfl h

/-- What `t_tcp_process` takes from the options: nothing from a walk that does
not end. -/
def Incoming.mss (s : Incoming) : Option UInt16 :=
  (tTcpParseopt (s.p.see (s.tcphdr + 16)) s.tcphdr).bind Prod.fst

theorem Incoming.mss_eq_zero_iff (s : Incoming) : s.mss = some 0 ↔ s.ZeroMss := by
  obtain ⟨q, hq⟩ : ∃ q, q = s.p.see (s.tcphdr + 16) := ⟨_, rfl⟩
  have hmem : q.mem = s.p.mem := by rw [hq]; rfl
  rw [mss, ← hq, ZeroMss, ← hmem]
  constructor
  · intro h
    obtain ⟨⟨r, p'⟩, hparse, hr⟩ := Option.bind_eq_some_iff.mp h
    obtain rfl : r = some 0 := hr
    by_cases h5 : tTcphHdrlen q.mem s.tcphdr > 5
    · obtain ⟨c, hreach, -, ⟨-, hnone⟩ | ⟨hc, -, hmss⟩⟩ := tTcpParseopt_result h5 hparse
      · cases hnone
      · exact ⟨h5, c, hreach, hc, hmss.symm⟩
    · rw [tTcpParseopt_eq, if_neg h5] at hparse
      cases hparse
  · rintro ⟨h5, c, hreach, hc, hmss⟩
    have hsize := optSize_of_mssAt (by rw [hmss]; simp : mssAt q.mem (s.tcphdr + 20 + c.toNat) ≠ none)
    have hdone : parseoptCursor q.mem s.tcphdr c = .done () := by
      rw [parseoptCursor_eq, if_neg (not_le.mpr hc), hsize]
    cases hparse : tTcpParseopt q s.tcphdr with
    | none =>
        have hends := ((tTcpParseopt_eq_none_iff q s.tcphdr).mp hparse).2
        exact absurd (hreach.ends.mpr (ends_of_done _ hdone)) hends
    | some r =>
        obtain ⟨r, p'⟩ := r
        obtain ⟨c', hreach', hdone', hresult⟩ := tTcpParseopt_result h5 hparse
        obtain rfl := Reaches.unique _ hreach hreach' hdone hdone'
        rcases hresult with ⟨hend, -⟩ | ⟨-, -, hr⟩
        · omega
        · rw [Option.bind_some, hr, hmss]

section
variable (env : OutEnv) (cbRet : ErrT) (pools : Pools) {pcb : TcpPcb} {s : Incoming}

/-- Processing a segment changes the `mss` only by accepting it. -/
theorem tTcpProcess_mss (pcb : TcpPcb) (s : Incoming) :
    (pcb.Accepts s → (tTcpProcess env cbRet pools pcb s).2.2.1.mss = negotiatedMss pcb.mss s.mss) ∧
      (¬ pcb.Accepts s → (tTcpProcess env cbRet pools pcb s).2.2.1.mss = pcb.mss) := by
  unfold tTcpProcess
  simp only
  by_cases hsyn : pcb.state = .synSent ∧ s.flags &&& tcpAck ≠ 0 ∧ s.flags &&& tcpSyn ≠ 0
  · rw [if_pos hsyn]
    cases hun : pcb.unacked with
    | nil =>
        refine ⟨fun h => ?_, fun _ => rfl⟩
        obtain ⟨-, -, -, rseg, hrseg, -⟩ := h
        rw [hun] at hrseg
        cases hrseg
    | cons rseg unacked =>
        by_cases hack : s.ackno = rseg.seqno + 1
        · have hacc : pcb.Accepts s := ⟨hsyn.1, hsyn.2.1, hsyn.2.2, rseg, by rw [hun]; rfl, hack⟩
          refine ⟨fun _ => ?_, fun h => absurd hacc h⟩
          simp only [if_pos hack, Pbuf.rd16_snd, Incoming.mss]
          cases tTcpParseopt (s.p.see (s.tcphdr + 14 + 2)) s.tcphdr with
          | none => rfl
          | some r => rfl
        · refine ⟨fun h => ?_, fun _ => by simp only [if_neg hack]⟩
          obtain ⟨-, -, -, rseg', hrseg, hack'⟩ := h
          rw [hun] at hrseg
          obtain rfl : rseg = rseg' := Option.some.inj hrseg
          exact absurd hack' hack
  · rw [if_neg hsyn]
    exact ⟨fun h => absurd ⟨h.1, h.2.1, h.2.2.1⟩ hsyn, fun _ => rfl⟩

theorem tTcpReceive_mss (pcb : TcpPcb) (s : Incoming) :
    (tTcpReceive env cbRet pools pcb s).2.2.1.mss =
      (tTcpProcess env cbRet pools pcb s).2.2.1.mss := by
  obtain ⟨hpcb, -⟩ | ⟨hpcb, -⟩ := tTcpReceive_eq pcb env cbRet pools s
  · rw [hpcb]
  · rw [hpcb, (tTcpOutput_outputs _ _ _).1.conn.mss]

end

/-! ## one call -/

theorem tTcpWrite_mss (pools : Pools) (pcb : TcpPcb) (arg : ByteMem) (len : UInt16) (copy : Bool) :
    (tTcpWrite pools pcb arg len copy).2.2.mss = pcb.mss := by
  unfold tTcpWrite
  split
  · split
    · exact tTcpEnqueue_mss (a := writeArgs arg copy) rfl
    · rfl
  · rfl

/-- Only a segment changes the `mss` of a connected control block. -/
theorem PcbStep.mss {net : Net} {i : TcpPcbId} {pcb pcb' : TcpPcb} {op : TcpOp} {evs : List Event}
    {bytes : List UInt8} (hstep : PcbStep net i pcb op pcb' evs bytes)
    (hop : ∀ p cbRet indet, op ≠ .input p cbRet indet) : pcb'.mss = pcb.mss := by
  cases hstep with
  | idle => rfl
  | write pools arg len copy => exact tTcpWrite_mss ..
  | output env pools indet hnet => exact (tTcpOutput_outputs _ _ _).1.conn.mss
  | receive env pools p cbRet indet s k hnet hhdr hmatch => exact absurd rfl (hop p cbRet indet)

namespace TcpHost

variable {h : TcpHost}

/-- Where the `mss` of a control block in use comes from: `t_tcp_new` or
`t_tcp_connect`, the state before, or the segment that it accepts. -/
theorem exec_mss (op : TcpOp) {i : TcpPcbId} (hi : i ∉ (h.exec op).2.tcpPcbPool) :
    ((h.exec op).2.pcb i).mss = tTcpMss ∨
      i ∉ h.tcpPcbPool ∧ ((h.exec op).2.pcb i).mss = (h.pcb i).mss ∨
      ∃ p cbRet indet s k prev, op = .input p cbRet indet ∧
        (tTcpInputHeader p).2 = some (s, k) ∧ demux h k = some (some (i, prev)) ∧
        (h.pcb i).Accepts s ∧
        ((h.exec op).2.pcb i).mss = negotiatedMss (h.pcb i).mss s.mss := by
  by_cases hpool : i ∈ h.tcpPcbPool
  · obtain ⟨iss, ticks, hpcb⟩ := exec_pcb_of_mem_pool hpool hi
    exact Or.inl (by rw [hpcb]; rfl)
  by_cases hc : op.Connects i
  · cases op with
    | connect j ipaddr port connected indet =>
        obtain rfl : j = i := hc
        left
        have henq : ∀ pools (pcb : TcpPcb), (tTcpEnqueue pools pcb none 0 tcpSyn.toUInt8 false
            (some (mssOption tTcpMss)) 4).2.2.mss = pcb.mss := fun pools pcb =>
          tTcpEnqueue_mss (a := ⟨none, tcpSyn.toUInt8, false, some (mssOption tTcpMss), 4⟩) rfl
        simp only [TcpHost.exec, tTcpConnect]
        split <;> split
        all_goals
          simp only [setPcb_pcb_self]
          first
            | exact ((tTcpOutput_outputs _ _ _).1.conn.mss.trans (henq _ _))
            | exact henq _ _
    | _ => exact hc.elim
  · cases hop : op with
    | input p cbRet indet =>
        have hexec : h.exec (.input p cbRet indet) =
            ((tTcpInput h indet cbRet p).1, (tTcpInput h indet cbRet p).2.2) := by simp only [exec]
        rw [hexec]
        obtain ⟨-, -, -, hh⟩ | ⟨j, prev, s, k, hhdr, hd, -, -, hh⟩ :=
          tTcpInput_cases h indet cbRet p
        · exact Or.inr (Or.inl ⟨hpool, by rw [hh]⟩)
        · simp only [hh]
          by_cases hij : i = j
          · subst hij
            obtain ⟨hacc, hrej⟩ :=
              tTcpProcess_mss (h.outEnv indet) cbRet h.pools (h.pcb i) s
            rw [setPcb_pcb_self, tTcpReceive_mss]
            by_cases ha : (h.pcb i).Accepts s
            · exact Or.inr (Or.inr ⟨p, cbRet, indet, s, k, prev, rfl, hhdr, hd, ha, hacc ha⟩)
            · exact Or.inr (Or.inl ⟨hpool, hrej ha⟩)
          · rw [setPcb_pcb_of_ne _ hij, moveToFront_pcb]
            exact Or.inr (Or.inl ⟨hpool, rfl⟩)
    | _ =>
        rw [← hop]
        have hinput : ∀ p cbRet indet, op ≠ .input p cbRet indet := fun p cbRet indet heq => by
          rw [hop] at heq
          cases heq
        exact Or.inr (Or.inl ⟨hpool, (h.exec_pcbStep op hpool hc).mss hinput⟩)

/-- The call is a segment with an MSS option of zero that a control block
accepts. -/
def AcceptsZeroMss (h : TcpHost) : TcpOp → Prop
  | .input p _ _ => ∃ s k i prev, (tTcpInputHeader p).2 = some (s, k) ∧
      demux h k = some (some (i, prev)) ∧ (h.pcb i).Accepts s ∧ s.ZeroMss
  | _ => False

/-- The `mss` of every control block in use is in its range, and so whatever is
to be queued, and fits, is queued in as few rounds as it takes. -/
def MssUsable (h : TcpHost) : Prop :=
  ∀ i, i ∉ h.tcpPcbPool →
    (1 ≤ (h.pcb i).mss.toNat ∧ (h.pcb i).mss.toNat ≤ tTcpMss.toNat) ∧
      ∀ pools a len, 0 < len.toNat → EnqueueRoom pools (h.pcb i) a len →
        (tTcpEnqueue pools (h.pcb i) a.arg len a.flags a.copy a.optdata a.optlen).1 = 0 ∧
          (enqueueBatch pools (h.pcb i) a len).length = len.toNat ⌈/⌉ (h.pcb i).mss.toNat

/-- It is the range that matters. -/
theorem mssUsable_of_range
    (hmss : ∀ i, i ∉ h.tcpPcbPool → 1 ≤ (h.pcb i).mss.toNat ∧ (h.pcb i).mss.toNat ≤ 1400) :
    h.MssUsable := by
  intro i hi
  obtain ⟨hpos, hle⟩ := hmss i hi
  exact ⟨⟨hpos, hle⟩, fun pools a len hlen hroom => hroom.succeeds hpos (by omega) hlen⟩

/-- The control block that a segment is for receives it. -/
theorem tTcpInput_pcb {indet : Nat → Option Netif} {cbRet : ErrT} {p : Pbuf} {s : Incoming}
    {k : TcpKey} {i : TcpPcbId} {prev : Option TcpPcbId}
    (hhdr : (tTcpInputHeader p).2 = some (s, k)) (hd : demux h k = some (some (i, prev))) :
    (tTcpInput h indet cbRet p).2.2.pcb i =
      (tTcpReceive (h.outEnv indet) cbRet h.pools (h.pcb i) s).2.2.1 := by
  unfold tTcpInput
  generalize tTcpInputHeader p = e at hhdr
  obtain ⟨q, r⟩ := e
  obtain rfl : r = some (s, k) := hhdr
  simp only [hd, setPcb_pcb_self, moveToFront_pcb, moveToFront_pools, outEnv, moveToFront_net,
    moveToFront_tcpTicks]

/-- A call keeps every `mss` usable unless it lets one become zero. -/
theorem mssUsable_exec_iff (hlink : h.Linked) (hu : h.MssUsable) (op : TcpOp) :
    (h.exec op).2.MssUsable ↔ ¬ h.AcceptsZeroMss op := by
  constructor
  · intro hu' hzero
    cases op with
    | input p cbRet indet =>
        obtain ⟨s, k, i, prev, hhdr, hd, hacc, hz⟩ := hzero
        have hi := (hlink.demux hd).1
        have hrange := (hu' i (h.not_mem_tcpPcbPool_exec hi)).1.1
        have hmss : ((h.exec (.input p cbRet indet)).2.pcb i).mss = 0 := by
          have hexec : h.exec (.input p cbRet indet) =
              ((tTcpInput h indet cbRet p).1, (tTcpInput h indet cbRet p).2.2) := by
            simp only [exec]
          rw [hexec, tTcpInput_pcb hhdr hd, tTcpReceive_mss, (tTcpProcess_mss _ _ _ _ _).1 hacc,
            s.mss_eq_zero_iff.mpr hz]
          rfl
        rw [hmss] at hrange
        exact absurd hrange (by decide)
    | _ => exact hzero
  · intro hzero
    refine mssUsable_of_range fun i hi => ?_
    rcases exec_mss op hi with hmss | ⟨hpool, hmss⟩ | ⟨p, cbRet, indet, s, k, prev, rfl, hhdr, hd,
      hacc, hmss⟩
    · rw [hmss]
      decide
    · rw [hmss]
      exact (hu i hpool).1
    · have hne : s.mss ≠ some 0 := fun hz =>
        hzero ⟨s, k, i, prev, hhdr, hd, hacc, s.mss_eq_zero_iff.mp hz⟩
      rw [hmss]
      cases hs : s.mss with
      | none => exact (hu i (hlink.demux hd).1).1
      | some m =>
          have hm : m.toNat ≠ 0 := fun h0 => hne (by rw [hs, show m = 0 from UInt16.toNat_inj.1 h0])
          unfold negotiatedMss
          simp only
          split
          · decide
          · next hlt =>
            rw [UInt16.lt_iff_toNat_lt, show tTcpMss.toNat = 1400 from rfl] at hlt
            omega

end TcpHost

/-! ## runs -/

/-- **Usable `mss`**: in every run, the `mss` of all control blocks in use stays
between 1 and `T_TCP_MSS`, and queueing data that fits succeeds in as few
rounds as it takes, exactly when no SYN|ACK is accepted from whose options the
walk takes an MSS of zero. -/
theorem mss_usable_iff {h : TcpHost} (hb : h.Boot) {ops : List TcpOp}
    (hl : Run.Along TcpHost.step TcpHost.Legal h ops) :
    Run.Throughout TcpHost.step TcpHost.MssUsable h ops ↔
      Run.Along TcpHost.step (fun h op => ¬ h.AcceptsZeroMss op) h ops := by
  refine Run.throughout_iff_along_of_invariant (I := TcpHost.Linked)
    (fun _ _ hlink hop => hlink.exec hop) (fun _ op hlink _ hu => TcpHost.mssUsable_exec_iff hlink hu op)
    hb.linked (fun i hi => ?_) hl
  rw [hb.pool] at hi
  exact absurd (List.mem_finRange i) hi

/-- A connection whose peer offers an MSS of zero. -/
def zeroMssRun : List TcpOp := [.new, sampleConnect, .input (sampleSynAck 0) 0 fun _ => none]

theorem zeroMssRun_legal : Run.Along TcpHost.step TcpHost.Legal sampleHost zeroMssRun := by
  refine ⟨trivial, ?_, trivial, trivial⟩
  show (0 : TcpPcbId) ∉ _
  decide +kernel

theorem mss_usable_zeroMssRun :
    Run.Throughout TcpHost.step TcpHost.MssUsable sampleHost zeroMssRun ↔
      Run.Along TcpHost.step (fun h op => ¬ h.AcceptsZeroMss op) sampleHost zeroMssRun :=
  mss_usable_iff (TcpHost.initial_boot _ _) zeroMssRun_legal

/-- If the call is a segment, its options are parsed to their end. -/
def TcpOp.ParsingEnds : TcpOp → Prop
  | .input p _ _ => ∀ s ∈ (tTcpInputHeader p).2, (tTcpParseopt s.1.p s.1.tcphdr).isSome
  | _ => True

theorem not_mss_usable : ¬ ∀ (h : TcpHost) (ops : List TcpOp), h.Boot →
    Run.Along TcpHost.step TcpHost.Legal h ops → (∀ op ∈ ops, op.ParsingEnds) →
      Run.Throughout TcpHost.step TcpHost.MssUsable h ops := by
  intro h
  have hends : ∀ op ∈ zeroMssRun, op.ParsingEnds := by
    have hparse : (tTcpParseopt (sampleSegment 0).1.p (sampleSegment 0).1.tcphdr).isSome := by
      decide +kernel
    simp only [zeroMssRun, List.forall_mem_cons]
    refine ⟨trivial, trivial, fun s hs => ?_, by simp⟩
    rw [sampleSegment_eq (by decide +kernel)] at hs
    obtain rfl : sampleSegment 0 = s := Option.some.inj hs
    exact hparse
  have hfinal := (h sampleHost zeroMssRun (TcpHost.initial_boot _ _) zeroMssRun_legal hends).final
  have hrange := (hfinal 0 (by decide +kernel)).1.1
  exact absurd hrange (by decide +kernel)

end TTcp
