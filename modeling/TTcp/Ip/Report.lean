import TTcp.Udp.Datagram

/-!
# TTcp.Ip.Report

Do `t_ip_output` and `t_udp_send` report what became of the packet?

`t_ip_output` pushes two headers and looks only at the result of the second
push, takes whatever route there is, and returns 0 in any case; `t_udp_send`
does not look at it.  So the report is right only where nothing can go wrong
(`output_reports_iff`).  A packet with 14 to 19 bytes of headroom even gets
sent, with its IP header over its own first bytes.
-/

namespace TTcp

/-! ## when a frame is sent -/

/-- Where the payload pointer is after both pushes, if the second one
succeeds. -/
theorem tPbufHeader_ip (p : Pbuf) :
    (tPbufHeader p (-20)).2.payload =
      if 20 ≤ p.payload ∧ p.payload < 1501 then p.payload - 20 else p.payload := by
  rw [tPbufHeader_eq]
  by_cases h : 20 ≤ p.payload ∧ p.payload < 1501
  · rw [if_pos (by omega), if_pos h]
    simp only
    omega
  · rw [if_neg (by omega), if_neg h]

theorem tPbufHeader_fst_iff (p : Pbuf) (n : Nat) :
    (tPbufHeader p (-n)).1 = 0 ↔ n ≤ p.payload ∧ p.payload < n + 1481 := by
  rw [tPbufHeader_eq]
  by_cases h : 0 ≤ (p.payload : Int) + -n ∧ (p.payload : Int) + -n < 1481
  · rw [if_pos h]
    exact iff_of_true rfl (by omega)
  · rw [if_neg h]
    exact iff_of_false (by simp) (by omega)

theorem not_sent {evs : List Event} (h : frames evs = []) : ¬ ∃ f, frames evs = [f] := by
  simp [h]

/-- The headroom with which the second push succeeds: enough for both headers,
or too little for the first and enough for the second. -/
def IpHeadroom (n : Nat) : Prop := (34 ≤ n ∧ n < 1501) ∨ (14 ≤ n ∧ n < 20)

instance (n : Nat) : Decidable (IpHeadroom n) := inferInstanceAs (Decidable (_ ∨ _))

section
variable (net : Net) (indet : Option Netif) (arg : NetifArg) (p : Pbuf) (src : Option UInt32)
  (dst : AddrPtr) (ttl tos proto : UInt8)

/-- Without an interface no frame goes out. -/
theorem tIpOutput_frames_of_none (h : ipNetif net indet arg (dst.read p) = none) :
    frames (tIpOutput net indet arg p src dst ttl tos proto).2.2 = [] := by
  unfold ipNetif at h
  cases hres : arg.resolve indet with
  | some netif => simp [hres] at h
  | none =>
      simp only [hres] at h
      cases src <;> simp only [tIpOutput, hres, h, Option.map_none] <;> first | rfl | (split <;> rfl)

/-- One frame at most goes out. -/
theorem tIpOutput_frames_cases : frames (tIpOutput net indet arg p src dst ttl tos proto).2.2 = [] ∨
    ∃ f, frames (tIpOutput net indet arg p src dst ttl tos proto).2.2 = [f] := by
  simp only [tIpOutput]
  repeat' split
  · exact Or.inl rfl
  · exact Or.inl rfl
  · exact Or.inl rfl
  · exact Or.inr ⟨_, rfl⟩

/-- With one, it is up to the second push. -/
theorem tIpOutput_sent_of_some {netif : Netif}
    (h : ipNetif net indet arg (dst.read p) = some netif) :
    ∃ addr, (∃ f, frames (tIpOutput net indet arg p src dst ttl tos proto).2.2 = [f]) ↔
      (tPbufHeader (ipHdrWrite (tPbufHeader p (-20)).2 (tPbufHeader p (-20)).2.payload addr dst ttl
        tos proto) (-14)).1 = 0 := by
  have key : ∀ (c : Prop) [Decidable c] (q q' : Pbuf) (evs : List Event) (f : Netif × List UInt8),
      frames evs = [f] → ((∃ f, frames (if ¬ c then ((0 : Int), q,
        [Event.ipOutput arg p src dst ttl tos proto]) else (0, q', evs)).2.2 = [f]) ↔ c) :=
    fun c _ q q' evs f hf => by
      by_cases hc : c
      · rw [if_neg (not_not.mpr hc)]
        exact iff_of_true ⟨f, hf⟩ hc
      · rw [if_pos hc]
        exact iff_of_false (not_sent rfl) hc
  refine ⟨src.getD netif.ipAddr, ?_⟩
  unfold ipNetif at h
  cases hres : arg.resolve indet with
  | some netif' =>
      simp only [hres, Option.some.injEq] at h
      subst h
      cases src <;> simp only [tIpOutput, hres, Option.map_some] <;> exact key _ _ _ _ _ rfl
  | none =>
      simp only [hres] at h
      cases src <;> simp only [tIpOutput, hres, h, Option.map_some] <;> exact key _ _ _ _ _ rfl

/-- One frame goes out exactly when the second push succeeds and there is an
interface. -/
theorem tIpOutput_sent_iff :
    (∃ f, frames (tIpOutput net indet arg p src dst ttl tos proto).2.2 = [f]) ↔
      IpHeadroom p.payload ∧ ipNetif net indet arg (dst.read p) ≠ none := by
  cases hinp : ipNetif net indet arg (dst.read p) with
  | none =>
      exact iff_of_false (not_sent (tIpOutput_frames_of_none _ _ _ _ _ _ _ _ _ hinp)) (by simp)
  | some netif =>
      obtain ⟨addr, hsent⟩ := tIpOutput_sent_of_some net indet arg p src dst ttl tos proto hinp
      have hpay := (ipHdrWrite_writesOnly (tPbufHeader p (-20)).2 (tPbufHeader p (-20)).2.payload
        addr dst ttl tos proto).payload
      generalize ipHdrWrite (tPbufHeader p (-20)).2 (tPbufHeader p (-20)).2.payload addr dst ttl tos
        proto = q at hsent hpay
      rw [tPbufHeader_ip] at hpay
      rw [hsent, show (-14 : Int) = -((14 : Nat) : Int) from rfl, tPbufHeader_fst_iff, hpay,
        IpHeadroom]
      simp only [ne_eq, reduceCtorEq, not_false_eq_true, and_true]
      split <;> omega

end

/-! ## the reports -/

section
variable (net : Net) (indet : Option Netif) (arg : NetifArg) (p : Pbuf) (src : Option UInt32)
  (dst : AddrPtr) (ttl tos proto : UInt8)

/-- `t_ip_output` reports what it did: 0 exactly for one frame, and otherwise,
without headroom for both headers, or without an interface, an error that does
no harm. -/
structure IpReports : Prop where
  sent : (tIpOutput net indet arg p src dst ttl tos proto).1 = 0 ↔
    ∃ f, frames (tIpOutput net indet arg p src dst ttl tos proto).2.2 = [f]
  error : (¬ ∃ f, frames (tIpOutput net indet arg p src dst ttl tos proto).2.2 = [f]) ∨
      p.payload < 34 ∨ ipNetif net indet arg (dst.read p) = none →
    (tIpOutput net indet arg p src dst ttl tos proto).1 ≠ 0 ∧
      Event.nullNetif ∉ (tIpOutput net indet arg p src dst ttl tos proto).2.2 ∧
      (tIpOutput net indet arg p src dst ttl tos proto).2.1.mem.slice p.payload p.totLen.toNat =
        p.bytes

/-- `t_udp_send` returns 0 only if a frame was sent. -/
def UdpReports (pool : List Pbuf) (pcb : UdpPcb) : Prop :=
  (tUdpSend net pool pcb p).1 = 0 → ∃ f, frames (tUdpSend net pool pcb p).2.2 = [f]

theorem ipReports_iff : IpReports net indet arg p src dst ttl tos proto ↔
    (34 ≤ p.payload ∧ p.payload < 1501) ∧ ipNetif net indet arg (dst.read p) ≠ none := by
  have hsent := tIpOutput_sent_iff net indet arg p src dst ttl tos proto
  have hzero := tIpOutput_fst net indet arg p src dst ttl tos proto
  constructor
  · intro h
    obtain ⟨hroom, hinp⟩ := hsent.mp (h.sent.mp hzero)
    have h34 : ¬ p.payload < 34 := fun hlt => (h.error (.inr (.inl hlt))).1 hzero
    unfold IpHeadroom at hroom
    exact ⟨by omega, hinp⟩
  · rintro ⟨hroom, hinp⟩
    have hone := hsent.mpr ⟨.inl hroom, hinp⟩
    refine ⟨iff_of_true hzero hone, ?_⟩
    rintro (hno | hlt | hnone)
    · exact absurd hone hno
    · omega
    · exact absurd hnone hinp

theorem udpReports_iff (pool : List Pbuf) (pcb : UdpPcb) : UdpReports net p pool pcb ↔
    (8 ≤ p.payload ∧ p.payload < 1489 →
      IpHeadroom (p.payload - 8) ∧ tIpRoute net pcb.remoteIp ≠ none) := by
  have hpush := tPbufHeader_fst_iff p 8
  unfold UdpReports tUdpSend
  simp only [tUdpHlen]
  by_cases hroom : 8 ≤ p.payload ∧ p.payload < 1489
  · obtain ⟨q, hq, hqpay⟩ : ∃ q, tPbufHeader p (-(8 : Nat)) = (0, q) ∧ q.payload = p.payload - 8 := by
      rw [tPbufHeader_push p (by omega) (by omega)]
      exact ⟨_, rfl, rfl⟩
    have hw := udpHdrWrite_writesOnly q q.payload pcb.localPort pcb.remotePort
    simp only [hq, ne_eq, not_true_eq_false, ↓reduceIte]
    cases hroute : tIpRoute net pcb.remoteIp with
    | none =>
        exact iff_of_false (fun h => not_sent rfl (h rfl)) fun h => (h hroom).2 rfl
    | some netif =>
        simp only [forall_const, tIpOutput_sent_iff]
        rw [hw.payload, hqpay]
        exact ⟨fun h _ => ⟨h.1, by simp⟩, fun h => ⟨(h hroom).1, by simp [ipNetif, NetifArg.resolve]⟩⟩
  · have hne : (tPbufHeader p (-(8 : Nat))).1 ≠ 0 := fun h0 => hroom (by have := hpush.mp h0; omega)
    simp only [ne_eq, hne, not_false_eq_true, ↓reduceIte]
    exact iff_of_true (fun h => absurd h (by decide)) fun h => absurd h hroom

end

/-- **When the reports are right**: `t_ip_output`'s exactly when the packet has
headroom for both headers, and `t_pbuf_header` reaches it, and there is an
interface; `t_udp_send`'s exactly when it refuses the packet or a frame goes
out. -/
theorem output_reports_iff (net : Net) (p : Pbuf) :
    (∀ (indet : Option Netif) (arg : NetifArg) (src : Option UInt32) (dst : AddrPtr)
        (ttl tos proto : UInt8), IpReports net indet arg p src dst ttl tos proto ↔
      (34 ≤ p.payload ∧ p.payload < 1501) ∧ ipNetif net indet arg (dst.read p) ≠ none) ∧
    ∀ (pool : List Pbuf) (pcb : UdpPcb), UdpReports net p pool pcb ↔
      (8 ≤ p.payload ∧ p.payload < 1489 →
        IpHeadroom (p.payload - 8) ∧ tIpRoute net pcb.remoteIp ≠ none) :=
  ⟨fun indet arg src dst ttl tos proto => ipReports_iff net indet arg p src dst ttl tos proto,
    fun pool pcb => udpReports_iff net p pool pcb⟩

/-- With an interface, but one byte too little headroom for both headers, a packet of
20 bytes is not sent, and 0 returned. -/
theorem not_output_reports : ¬ ∀ (net : Net) (indet : Option Netif) (arg : NetifArg) (p : Pbuf)
    (src : Option UInt32) (dst : AddrPtr) (ttl tos proto : UInt8),
    IpReports net indet arg p src dst ttl tos proto := by
  intro h
  let netif : Netif := ⟨0x7001a8c0, 0x00ffffff, 0x0101a8c0, .replicate 6 0⟩
  obtain ⟨⟨hroom, -⟩, -⟩ := (ipReports_iff ..).mp (h ⟨[netif], some netif⟩ none (.value none)
    ⟨0, 33, 20, 20, 1, fun _ => 0, 0, 0⟩ none (.val 0x0101a8c0) 64 0 tIpProtoUdp)
  exact absurd hroom (by decide)

end TTcp
