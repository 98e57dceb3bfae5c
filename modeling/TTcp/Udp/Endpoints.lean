import TTcp.Udp.Pcb

/-!
# TTcp.Udp.Endpoints

The local endpoints of the UDP control blocks.

`t_udp_bind` looks through the list for its own control block only, and takes
automatic ports from a counter that nothing brings back.  So two control blocks
can get the same address and port, and an automatic port can leave its range;
a run keeps the endpoints valid exactly when no bind of it does either of the
two (`endpoints_iff`).
-/

namespace TTcp

@[simp] def udpLocalPortRangeEnd : Nat := 0x7fff

/-- The port is one of those meant for automatic binding. -/
def InPortRange (port : UInt16) : Prop :=
  udpLocalPortRangeStart ≤ port.toNat ∧ port.toNat ≤ udpLocalPortRangeEnd

instance (port : UInt16) : Decidable (InPortRange port) := inferInstanceAs (Decidable (_ ∧ _))

/-- The local address and port. -/
def UdpPcb.endpoint (pcb : UdpPcb) : UInt32 × UInt16 := (pcb.localIp, pcb.localPort)

/-! ## control blocks with an automatic port -/

/-- The UDP layer, and which control blocks got their port from the counter. -/
structure UdpTrace where
  udp : Udp
  auto : UdpPcbId → Bool

namespace UdpTrace

/-- A call decides where a port comes from when it binds. -/
def stepAuto (s : UdpTrace) : UdpOp → UdpPcbId → Bool
  | .bind i _ port => Function.update s.auto i (port == 0)
  | .connect i _ _ =>
      if (s.udp.pcb i).localPort = 0 then Function.update s.auto i true else s.auto
  | _ => s.auto

def step (s : UdpTrace) (op : UdpOp) : UdpTrace := ⟨s.udp.step op, s.stepAuto op⟩

/-- Automatic ports are in their range, and no two control blocks on the list
have the same endpoint. -/
structure Valid (s : UdpTrace) : Prop where
  range : ∀ i ∈ s.udp.pcbs, s.auto i → InPortRange (s.udp.pcb i).localPort
  unique : ∀ i ∈ s.udp.pcbs, ∀ j ∈ s.udp.pcbs,
    (s.udp.pcb i).endpoint = (s.udp.pcb j).endpoint → i = j

end UdpTrace

/-! ## the condition on a call -/

namespace Udp

/-- The port that the counter stands at. -/
def counterPort (u : Udp) : UInt16 := UInt16.ofNat (udpLocalPortRangeStart + u.startCount)

/-- No control block on the list but `i` itself has the endpoint. -/
def FreeFor (u : Udp) (i : UdpPcbId) (localIp : UInt32) (port : UInt16) : Prop :=
  ∀ j ∈ u.pcbs, (u.pcb j).endpoint = (localIp, port) → j = i

/-- The counter stands inside the range, and its port is free at the address. -/
def CounterOk (u : Udp) (i : UdpPcbId) (localIp : UInt32) : Prop :=
  InPortRange u.counterPort ∧ u.FreeFor i localIp u.counterPort

/-- A call binds to a free endpoint, and takes from the counter only ports of
the range. -/
def EndpointOk (u : Udp) : UdpOp → Prop
  | .bind i ipaddr port =>
      if port = 0 then u.CounterOk i (ipaddr.getD 0) else u.FreeFor i (ipaddr.getD 0) port
  | .connect i _ _ => (u.pcb i).localPort = 0 → u.CounterOk i (u.pcb i).localIp
  | _ => True

theorem udpPort_eq (u : Udp) (port : UInt16) :
    (udpPort u port).1 = if port = 0 then u.counterPort else port := by
  unfold udpPort counterPort
  split <;> rfl

theorem boundPcb_endpoint (u : Udp) (i : UdpPcbId) (ipaddr : Option UInt32) (port : UInt16) :
    (boundPcb u i ipaddr port).endpoint =
      (ipaddr.getD 0, if port = 0 then u.counterPort else port) := by
  rw [← udpPort_eq]
  rfl

end Udp

/-! ## one call -/

namespace UdpTrace

variable {s : UdpTrace} {l : List UdpPcbId} {i : UdpPcbId}

/-- What `Valid` says of `l`, when `l` are the control blocks on the list. -/
theorem valid_iff (h : s.udp.Listed l) : s.Valid ↔
    (∀ i ∈ l, s.auto i → InPortRange (s.udp.pcb i).localPort) ∧
      ∀ i ∈ l, ∀ j ∈ l, (s.udp.pcb i).endpoint = (s.udp.pcb j).endpoint → i = j := by
  rw [← h.pcbs_eq]
  exact ⟨fun hv => ⟨hv.range, hv.unique⟩, fun hv => ⟨hv.1, hv.2⟩⟩

/-- A shorter list with the same endpoints and sources of ports. -/
theorem Valid.of_subset {t : UdpTrace} {l' : List UdpPcbId} (hv : s.Valid) (h : s.udp.Listed l)
    (h' : t.udp.Listed l') (hl : ∀ i ∈ l', i ∈ l)
    (hend : ∀ i ∈ l', (t.udp.pcb i).endpoint = (s.udp.pcb i).endpoint)
    (hauto : t.auto = s.auto) : t.Valid := by
  obtain ⟨hrange, hunique⟩ := (valid_iff h).mp hv
  refine (valid_iff h').mpr ⟨fun i hi ha => ?_, fun i hi j hj hij => ?_⟩
  · rw [hauto] at ha
    have hport : (t.udp.pcb i).localPort = (s.udp.pcb i).localPort := congrArg Prod.snd (hend i hi)
    rw [hport]
    exact hrange i (hl i hi) ha
  · rw [hend i hi, hend j hj] at hij
    exact hunique i (hl i hi) j (hl j hj) hij

/-- **Binding** `i` to an endpoint keeps the endpoints valid exactly when the
endpoint is free, and in the range if it comes from the counter. -/
theorem Valid.bind_iff {t : UdpTrace} {localIp : UInt32} {port : UInt16} (hv : s.Valid)
    (h : s.udp.Listed l) (h' : t.udp.Listed (l.insert i))
    (hself : (t.udp.pcb i).endpoint = (localIp, port))
    (hother : ∀ j, j ≠ i → t.udp.pcb j = s.udp.pcb j)
    (hauto : ∀ j, j ≠ i → t.auto j = s.auto j) :
    t.Valid ↔ (t.auto i → InPortRange port) ∧ s.udp.FreeFor i localIp port := by
  obtain ⟨hrange, hunique⟩ := (valid_iff h).mp hv
  have hmem : ∀ j, j ∈ l.insert i ↔ j = i ∨ j ∈ l := fun j => List.mem_insert_iff
  have hport : (t.udp.pcb i).localPort = port := congrArg Prod.snd hself
  rw [valid_iff h', Udp.FreeFor, h.pcbs_eq]
  constructor
  · rintro ⟨hr, hu⟩
    refine ⟨fun ha => hport ▸ hr i List.mem_insert_self ha, fun j hj hend => ?_⟩
    by_contra hji
    refine hji (hu j ((hmem j).mpr (Or.inr hj)) i List.mem_insert_self ?_)
    rw [hother j hji, hend, hself]
  · rintro ⟨hr, hfree⟩
    refine ⟨fun j hj ha => ?_, fun j hj k hk hjk => ?_⟩
    · by_cases hji : j = i
      · subst hji
        rw [hport]
        exact hr ha
      · rw [hauto j hji] at ha
        rw [hother j hji]
        exact hrange j (((hmem j).mp hj).resolve_left hji) ha
    · by_cases hji : j = i <;> by_cases hki : k = i
      · rw [hji, hki]
      · subst hji
        rw [hself, hother k hki] at hjk
        exact (hfree k (((hmem k).mp hk).resolve_left hki) hjk.symm).symm
      · subst hki
        rw [hself, hother j hji] at hjk
        exact hfree j (((hmem j).mp hj).resolve_left hji) hjk
      · rw [hother j hji, hother k hki] at hjk
        exact hunique j (((hmem j).mp hj).resolve_left hji) k
          (((hmem k).mp hk).resolve_left hki) hjk

/-- A legal call keeps the endpoints valid exactly when it is `EndpointOk`. -/
theorem Valid.step_iff (hv : s.Valid) (h : s.udp.Listed l) {op : UdpOp} (hop : s.udp.Legal op) :
    (s.step op).Valid ↔ s.udp.EndpointOk op := by
  have h' : (s.step op).udp.Listed (Udp.stepList l op) := h.step hop
  cases op with
  | new =>
      refine iff_of_true (hv.of_subset h h' (fun _ => id) (fun j hj => ?_) rfl) trivial
      -- the new control block was free, so it is not on the list
      have hlive := h.live j hj
      show ((tUdpNew s.udp).2.pcb j).endpoint = _
      unfold tUdpNew
      split
      · rfl
      · next i rest hp =>
        have hji : j ≠ i := fun hji => hlive (by rw [hp, hji]; exact List.mem_cons_self)
        exact congrArg UdpPcb.endpoint (Udp.setPcb_pcb_of_ne hji _)
  | remove i =>
      refine iff_of_true (hv.of_subset h h' (fun j => List.mem_of_mem_erase) (fun j _ => ?_) rfl)
        trivial
      have hpcb : (s.udp.step (.remove i)).pcb = s.udp.pcb := by
        simp only [Udp.step, Udp.exec, tUdpRemove]
        split
        · rfl
        · cases Loop.run (PtrList.unlinkRound i) Udp.rounds (s.udp.next, s.udp.tUdpPcbs) <;> rfl
      exact congrArg (fun pcb => UdpPcb.endpoint (pcb j)) hpcb
  | setRecv i recv recvArg =>
      refine iff_of_true (hv.of_subset h h' (fun _ => id) (fun j _ => ?_) rfl) trivial
      show ((s.udp.setPcb i _).pcb j).endpoint = _
      by_cases hji : j = i
      · rw [hji, Udp.setPcb_pcb_self]
        rfl
      · rw [Udp.setPcb_pcb_of_ne hji]
  | bind i ipaddr port =>
      obtain ⟨u', hu', -, hpcb⟩ := h.bind hop ipaddr port
      have hstep : s.udp.step (.bind i ipaddr port) = u' := by
        rw [Udp.step, Udp.exec, hu']
        rfl
      have hpcb' : (s.step (.bind i ipaddr port)).udp.pcb = Function.update s.udp.pcb i
          (Udp.boundPcb s.udp i ipaddr port) := by
        show (s.udp.step _).pcb = _
        rw [hstep, hpcb]
      have hauto : (s.step (.bind i ipaddr port)).auto = Function.update s.auto i (port == 0) := rfl
      rw [hv.bind_iff h h' (by rw [hpcb', Function.update_self, Udp.boundPcb_endpoint])
        (fun j hji => by rw [hpcb', Function.update_of_ne hji])
        (fun j hji => by rw [hauto, Function.update_of_ne hji]), hauto, Function.update_self,
        Udp.EndpointOk]
      by_cases hport : port = 0
      · simp [hport, Udp.CounterOk]
      · simp [hport]
  | connect i ipaddr port =>
      obtain ⟨u', hu', -, hpcb⟩ := h.connect hop ipaddr port
      have hstep : s.udp.step (.connect i ipaddr port) = u' := by
        rw [Udp.step, Udp.exec, hu']
        rfl
      have hpcb' : (s.step (.connect i ipaddr port)).udp.pcb = u'.pcb := by
        show (s.udp.step _).pcb = _
        rw [hstep]
      by_cases hport : (s.udp.pcb i).localPort = 0
      · rw [if_pos hport] at hpcb
        have hauto : (s.step (.connect i ipaddr port)).auto = Function.update s.auto i true := by
          simp [UdpTrace.step, stepAuto, hport]
        have hself : ((s.step (.connect i ipaddr port)).udp.pcb i).endpoint =
            ((s.udp.pcb i).localIp, s.udp.counterPort) := by
          rw [hpcb', hpcb, Function.update_self]
          exact Udp.boundPcb_endpoint s.udp i (some (s.udp.pcb i).localIp) 0
        rw [hv.bind_iff h h' hself (fun j hji => by rw [hpcb', hpcb, Function.update_of_ne hji])
          (fun j hji => by rw [hauto, Function.update_of_ne hji]), hauto, Function.update_self,
          Udp.EndpointOk]
        simp [hport, Udp.CounterOk]
      · -- the control block has a port: it stays bound as it is
        rw [if_neg hport] at hpcb
        have hil : i ∈ l := h.port i hop hport
        refine iff_of_true (hv.of_subset h h' (fun j hj => ?_) (fun j _ => ?_) ?_)
          fun h0 => absurd h0 hport
        · rwa [Udp.stepList, List.insert_of_mem hil] at hj
        · rw [hpcb', hpcb]
          by_cases hji : j = i
          · rw [hji, Function.update_self]
            rfl
          · rw [Function.update_of_ne hji]
        · simp [UdpTrace.step, stepAuto, hport]

end UdpTrace

/-! ## runs -/

/-- **UDP endpoints**: over a run of legal calls, automatic ports stay in their
range and endpoints unique exactly when every bind of the run gets an endpoint
that is free, and from the counter only ports of the range. -/
theorem endpoints_iff {u₀ : Udp} (hb : u₀.Boot) (auto : UdpPcbId → Bool) {ops : List UdpOp}
    (hl : Run.Along Udp.step Udp.Legal u₀ ops) :
    Run.Throughout UdpTrace.step UdpTrace.Valid ⟨u₀, auto⟩ ops ↔
      Run.Along Udp.step Udp.EndpointOk u₀ ops := by
  have hproj : ∀ (ok : Udp → UdpOp → Prop),
      Run.Along UdpTrace.step (fun s op => ok s.udp op) ⟨u₀, auto⟩ ops ↔
        Run.Along Udp.step ok u₀ ops :=
    fun ok => Run.along_map UdpTrace.udp fun s op => rfl
  have hempty : UdpTrace.Valid ⟨u₀, auto⟩ :=
    (UdpTrace.valid_iff (s := ⟨u₀, auto⟩) hb.listed).mpr ⟨by simp, by simp⟩
  rw [← hproj Udp.EndpointOk]
  exact Run.throughout_iff_along_of_invariant (I := fun s => ∃ l, s.udp.Listed l)
    (fun s op ⟨l, h⟩ hop => ⟨_, h.step hop⟩) (fun s op ⟨l, h⟩ hop hv => hv.step_iff h hop)
    ⟨[], hb.listed⟩ hempty ((hproj Udp.Legal).mpr hl)

/-- Bind two control blocks to one explicit endpoint. -/
def doubleBind : List UdpOp := [.new, .bind 0 (some 5) 7, .new, .bind 1 (some 5) 7]

theorem doubleBind_legal : Run.Along Udp.step Udp.Legal Udp.initial doubleBind :=
  ⟨by decide, by decide, by decide, by decide, trivial⟩

theorem endpoints_not_valid : ¬ ∀ (u₀ : Udp) (ops : List UdpOp), u₀.Boot →
    Run.Along Udp.step Udp.Legal u₀ ops →
      Run.Throughout UdpTrace.step UdpTrace.Valid ⟨u₀, fun _ => false⟩ ops := fun hall =>
  absurd ((hall Udp.initial doubleBind Udp.initial_boot doubleBind_legal).final.unique 0
    (by decide +kernel) 1 (by decide +kernel) (by decide +kernel)) (by decide)

theorem endpoints_iff_sample :
    Run.Throughout UdpTrace.step UdpTrace.Valid ⟨Udp.initial, fun _ => false⟩
        [.new, .bind 0 none 0, .new, .bind 1 (some 5) 7] ↔
      Run.Along Udp.step Udp.EndpointOk Udp.initial
        [.new, .bind 0 none 0, .new, .bind 1 (some 5) 7] :=
  endpoints_iff Udp.initial_boot _ ⟨by decide, by decide, by decide, by decide, trivial⟩

end TTcp
