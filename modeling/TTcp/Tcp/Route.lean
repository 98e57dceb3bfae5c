import TTcp.Tcp.Keepalive

/-!
# TTcp.Tcp.Route

The interface that TCP hands its packets to IP for.

`t_tcp_output_segment` assigns its `netif` only while it has no local address,
so every segment but the first of a connection goes out with an unassigned
one; the empty acknowledgement takes the route of the local address; and
`tcp_keepalive` leaves the choice to `t_ip_output`.  A run sends everything by
the route of the remote address exactly when none of its calls gets to a
segment with the local address already known, and no acknowledgement goes out
where the two routes differ (`routed_iff`).
-/

namespace TTcp

/-! ## packets by the right route -/

/-- The interface that an argument of `t_ip_output` stands for: a null pointer
stands for the route of the destination, an unassigned variable for nothing. -/
def NetifArg.standsFor (net : Net) (dst : UInt32) : NetifArg → Option (Option Netif)
  | .value (some netif) => some (some netif)
  | .value none => some (tIpRoute net dst)
  | .unassigned => none

/-- If the event is a call of `t_ip_output`, its interface is the route of
`remoteIp`. -/
def Event.Routed (net : Net) (remoteIp : UInt32) : Event → Prop
  | .ipOutput inp p _ dst _ _ _ =>
      inp.standsFor net (dst.read p) = some (tIpRoute net remoteIp)
  | _ => True

/-- All packets of these events take the route of `remoteIp`. -/
def AllRouted (net : Net) (remoteIp : UInt32) (evs : List Event) : Prop :=
  ∀ e ∈ evs, e.Routed net remoteIp

@[simp] theorem allRouted_nil (net : Net) (remoteIp : UInt32) : AllRouted net remoteIp [] :=
  fun _ h => absurd h List.not_mem_nil

@[simp] theorem allRouted_append {net : Net} {remoteIp : UInt32} {evs evs' : List Event} :
    AllRouted net remoteIp (evs ++ evs') ↔
      AllRouted net remoteIp evs ∧ AllRouted net remoteIp evs' :=
  List.forall_mem_append

theorem Event.Inner.routed {e : Event} (h : e.Inner) (net : Net) (remoteIp : UInt32) :
    e.Routed net remoteIp := by
  cases e with
  | ipOutput inp p src dst ttl tos proto => exact absurd h.1 (by simp [Event.ipPacket?])
  | _ => trivial

/-- Of what `t_ip_output` does, the call itself decides. -/
theorem tIpOutput_allRouted {net : Net} {remoteIp : UInt32} (indet : Option Netif) (arg : NetifArg)
    (p : Pbuf) (src : Option UInt32) (ttl tos proto : UInt8) :
    AllRouted net remoteIp
        (tIpOutput net indet arg p src (.val remoteIp) ttl tos proto).2.2 ↔
      arg.standsFor net remoteIp = some (tIpRoute net remoteIp) := by
  have hcall : ∃ evs, (tIpOutput net indet arg p src (.val remoteIp) ttl tos proto).2.2 =
      .ipOutput arg p src (.val remoteIp) ttl tos proto :: evs ∧ AllRouted net remoteIp evs := by
    have hone : ∀ e : Event, e.ipPacket? = none → AllRouted net remoteIp [e] := fun e he e' he' => by
      rw [List.mem_singleton.mp he']
      cases e with
      | ipOutput inp p src dst ttl tos proto => exact absurd he (by simp [Event.ipPacket?])
      | _ => trivial
    simp only [tIpOutput]
    repeat' split
    all_goals first
      | exact ⟨_, rfl, allRouted_nil _ _⟩
      | exact ⟨_, rfl, hone _ rfl⟩
  obtain ⟨evs, hevs, hrest⟩ := hcall
  rw [hevs]
  constructor
  · exact fun h => h _ List.mem_cons_self
  · exact fun h => List.forall_mem_cons.mpr ⟨h, hrest⟩

/-! ## segments -/

/-- With `n` segments to send, each finds the local address still unknown, or
there is no route to find one by. -/
def SegmentsRouted (net : Net) (pcb : TcpPcb) (n : Nat) : Prop :=
  n = 0 ∨ pcb.localIp = 0 ∧
    ∀ netif, tIpRoute net pcb.remoteIp = some netif → n = 1 ∨ netif.ipAddr = 0

section
variable (env : OutEnv) (pools : Pools)

/-- One segment goes by the route exactly when the local address is unknown;
the route found then gives the address. -/
theorem tTcpOutputSegment_routed (indet : Option Netif) (seg : TcpSeg) (pcb : TcpPcb) :
    (AllRouted env.net pcb.remoteIp (tTcpOutputSegment env indet seg pcb).2.2 ↔
        pcb.localIp = 0) ∧
      (pcb.localIp = 0 → (tTcpOutputSegment env indet seg pcb).2.1.localIp =
        ((tIpRoute env.net pcb.remoteIp).map Netif.ipAddr).getD 0) := by
  have hsend : ∀ arg seg (pcb : TcpPcb),
      (AllRouted env.net pcb.remoteIp (tTcpOutputSegmentSend env indet arg seg pcb).2.2 ↔
        arg.standsFor env.net pcb.remoteIp = some (tIpRoute env.net pcb.remoteIp)) ∧
      (tTcpOutputSegmentSend env indet arg seg pcb).2.1.localIp = pcb.localIp := by
    intro arg seg pcb
    obtain ⟨rttest, rtseq, h⟩ := tTcpOutputSegmentSend_eq env indet arg seg pcb
    rw [h]
    exact ⟨tIpOutput_allRouted indet arg _ _ _ _ _, rfl⟩
  obtain ⟨⟨hip, hnone⟩, h⟩ | ⟨n, ⟨hip, hroute⟩, h⟩ | ⟨hip, h⟩ :=
    tTcpOutputSegment_cases env indet seg pcb
  · rw [h, hnone]
    exact ⟨iff_of_true (allRouted_nil _ _) hip, fun _ => hip⟩
  · obtain ⟨hrouted, hlocal⟩ := hsend (.value (some n)) (seg.completed pcb)
      { pcb with localIp := n.ipAddr }
    rw [h, hlocal, hroute]
    exact ⟨iff_of_true (hrouted.mpr (congrArg some hroute).symm) hip, fun _ => rfl⟩
  · rw [h]
    refine ⟨iff_of_false (fun h => ?_) hip, fun h => absurd h hip⟩
    cases (hsend .unassigned _ pcb).1.mp h

theorem tTcpOutputRound_routed (indet : Option Netif) (pcb : TcpPcb) (seg : TcpSeg) :
    (AllRouted env.net pcb.remoteIp (tTcpOutputRound env indet pools pcb seg).2.2 ↔
        pcb.localIp = 0) ∧
      (pcb.localIp = 0 → (tTcpOutputRound env indet pools pcb seg).2.1.localIp =
        ((tIpRoute env.net pcb.remoteIp).map Netif.ipAddr).getD 0) := by
  obtain ⟨flags, hflags⟩ := pcb.outgoing_eq
  obtain ⟨r, hr⟩ : ∃ r, r = tTcpOutputSegment env indet (seg.outgoing pcb.state) pcb.outgoing :=
    ⟨_, rfl⟩
  obtain ⟨sndMax, hround⟩ := tTcpOutputRound_eq env pools hr
  obtain ⟨hrouted, hip⟩ := tTcpOutputSegment_routed env indet (seg.outgoing pcb.state) pcb.outgoing
  rw [← hr, hflags] at hrouted hip
  rw [hround]
  split
  · exact ⟨hrouted, hip⟩
  · exact ⟨hrouted, hip⟩

/-- After the first segment of several, the local address is known unless
there is no route or no address to it. -/
theorem segmentsRouted_succ {net : Net} {pcb pcb' : TcpPcb} (hremote : pcb'.remoteIp = pcb.remoteIp)
    (hlocal : pcb.localIp = 0 →
      pcb'.localIp = ((tIpRoute net pcb.remoteIp).map Netif.ipAddr).getD 0) (n : Nat) :
    SegmentsRouted net pcb (n + 1) ↔ pcb.localIp = 0 ∧ SegmentsRouted net pcb' n := by
  unfold SegmentsRouted
  rw [hremote]
  cases hroute : tIpRoute net pcb.remoteIp with
  | none =>
      rw [hroute] at hlocal
      constructor
      · rintro (h | h)
        · omega
        · exact ⟨h.1, Or.inr ⟨hlocal h.1, by simp⟩⟩
      · exact fun h => Or.inr ⟨h.1, by simp⟩
  | some netif =>
      rw [hroute] at hlocal
      constructor
      · rintro (h | ⟨h, hn⟩)
        · omega
        · refine ⟨h, ?_⟩
          rcases hn netif rfl with hn | hn
          · exact Or.inl (by omega)
          · refine Or.inr ⟨(hlocal h).trans hn, fun netif' hnetif => Or.inr ?_⟩
            rw [← Option.some.inj hnetif]
            exact hn
      · rintro ⟨h, hn | ⟨h', hn⟩⟩
        · exact Or.inr ⟨h, fun _ _ => Or.inl (by omega)⟩
        · refine Or.inr ⟨h, fun netif' hnetif => Or.inr ?_⟩
          rw [← Option.some.inj hnetif]
          exact (hlocal h).symm.trans h'

theorem tTcpOutputLoop_routed (wnd : UInt32) (pcb : TcpPcb) (unsent : List TcpSeg) :
    AllRouted env.net pcb.remoteIp (tTcpOutputLoop env wnd pools pcb unsent).2.2 ↔
      SegmentsRouted env.net pcb (unsent.takeWhile fun seg => seg.fits pcb.lastack wnd).length := by
  induction unsent generalizing pools pcb with
  | nil => exact iff_of_true (allRouted_nil _ _) (Or.inl rfl)
  | cons seg rest ih =>
      rw [tTcpOutputLoop]
      by_cases hfit : seg.fits pcb.lastack wnd
      · obtain ⟨r, hr⟩ : ∃ r, r = tTcpOutputRound env (env.indet rest.length) pools
            { pcb with unsent := rest } seg := ⟨_, rfl⟩
        obtain ⟨hrouted, hlocal⟩ := tTcpOutputRound_routed env pools (env.indet rest.length)
          { pcb with unsent := rest } seg
        obtain ⟨hout, -⟩ := tTcpOutputRound_outputs env pools (env.indet rest.length)
          { pcb with unsent := rest } seg
        rw [← hr] at hrouted hlocal hout
        have hremote : r.2.1.remoteIp = pcb.remoteIp := hout.conn.remoteIp
        have hlastack : r.2.1.lastack = pcb.lastack := hout.conn.lastack
        have hrest := ih r.1 r.2.1
        rw [hremote, hlastack] at hrest
        rw [if_pos hfit,
          List.takeWhile_cons_of_pos (p := fun seg : TcpSeg => seg.fits pcb.lastack wnd) hfit,
          List.length_cons, segmentsRouted_succ hremote hlocal]
        simp only [← hr]
        rw [allRouted_append, hrest]
        exact and_congr_left' hrouted
      · rw [if_neg hfit,
          List.takeWhile_cons_of_neg (p := fun seg : TcpSeg => seg.fits pcb.lastack wnd) hfit]
        exact iff_of_true (allRouted_nil _ _) (Or.inl rfl)

/-! ## one call of `t_tcp_output` -/

/-- No call of `t_ip_output` in `t_tcp_output` gets the wrong interface: an
acknowledgement needs a buffer, and then the routes of the two addresses to be
the same (or none for the local one); segments are as in `SegmentsRouted`. -/
def OutputRouted (net : Net) (pools : Pools) (pcb : TcpPcb) : Prop :=
  (pcb.AcksOnly → pools.pbufPool = [] ∨ tIpRoute net pcb.localIp = none ∨
    tIpRoute net pcb.localIp = tIpRoute net pcb.remoteIp) ∧
  (¬ pcb.AcksOnly → SegmentsRouted net pcb
    (pcb.unsent.takeWhile fun seg => seg.fits pcb.lastack pcb.wnd).length)

theorem tTcpOutputAck_routed (pcb : TcpPcb) :
    AllRouted env.net pcb.remoteIp (tTcpOutputAck env pools pcb).2.2.2 ↔
      pools.pbufPool = [] ∨ tIpRoute env.net pcb.localIp = none ∨
        tIpRoute env.net pcb.localIp = tIpRoute env.net pcb.remoteIp := by
  unfold tTcpOutputAck
  rw [tPbufAlloc_pool _ _ _ (by decide)]
  cases pools.pbufPool with
  | nil => exact iff_of_true (allRouted_nil _ _) (Or.inl rfl)
  | cons p rest =>
      simp only [List.cons_ne_nil, false_or]
      rw [tIpOutput_allRouted]
      cases hroute : tIpRoute env.net pcb.localIp with
      | none => exact iff_of_true rfl (Or.inl rfl)
      | some netif => simp [NetifArg.standsFor]

theorem tTcpOutput_routed (pcb : TcpPcb) :
    AllRouted env.net pcb.remoteIp (tTcpOutput env pools pcb).2.2.2 ↔
      OutputRouted env.net pools pcb := by
  by_cases h : pcb.AcksOnly
  · rw [tTcpOutput_of_acksOnly env pools h, tTcpOutputAck_routed]
    exact ⟨fun hack => ⟨fun _ => hack, fun hn => absurd h hn⟩, fun hack => hack.1 h⟩
  · rw [tTcpOutput_of_not_acksOnly env pools h, tTcpOutputLoop_routed]
    exact ⟨fun hloop => ⟨fun hn => absurd hn h, fun _ => hloop⟩, fun hloop => hloop.2 h⟩

end

/-! ## runs -/

/-- The remote address that the packets of a call are for. -/
def SegOp.remoteIp (h : TcpHost) : SegOp → UInt32
  | .tcp op => ((h.outputCall op).map fun r => r.2.2.remoteIp).getD 0
  | .keepalive i => (h.pcb i).remoteIp

/-- The call hands all its packets to IP for the route of their remote
address. -/
def SegOp.Routed (h : TcpHost) (op : SegOp) : Prop :=
  AllRouted h.net (op.remoteIp h) (h.execSeg op).1

/-- The condition on the call of `t_tcp_output` that the call makes, if any. -/
def SegOp.RouteOk (h : TcpHost) : SegOp → Prop
  | .tcp op => ∀ env pools pcb, h.outputCall op = some (env, pools, pcb) →
      OutputRouted env.net pools pcb
  | .keepalive _ => True

namespace TcpHost

/-- All packets are for the interfaces of the host. -/
theorem outputCall_net {h : TcpHost} {op : TcpOp} {env : OutEnv} {pools : Pools} {pcb : TcpPcb}
    (hc : h.outputCall op = some (env, pools, pcb)) : env.net = h.net := by
  cases op with
  | connect i ipaddr port connected indet =>
      replace hc : h.connectOutput indet i ipaddr port connected = some (env, pools, pcb) := hc
      have hnet : (tTcpConnectEnqueue h i ipaddr port connected).2.net = h.net := by
        unfold tTcpConnectEnqueue
        split
        next localPort h' hport =>
          split at hport
          · rw [← (Prod.mk.inj hport).2]
            rfl
          · rw [← (Prod.mk.inj hport).2]
            rfl
      unfold connectOutput at hc
      generalize tTcpConnectEnqueue h i ipaddr port connected = e at hc hnet
      obtain ⟨⟨ret, pools1, pcb1⟩, h1⟩ := e
      simp only at hc
      split at hc
      · rw [← (Prod.mk.inj (Option.some.inj hc)).1]
        exact hnet
      · cases hc
  | output i indet => rw [← (Prod.mk.inj (Option.some.inj hc)).1]; rfl
  | input p cbRet indet =>
      replace hc : h.inputOutput indet cbRet (tTcpInputHeader p).2 = some (env, pools, pcb) := hc
      unfold inputOutput at hc
      split at hc
      · cases hc
      · split at hc
        · unfold processOutput at hc
          split at hc
          · split at hc
            · rw [← (Prod.mk.inj (Option.some.inj hc)).1]
              exact moveToFront_net h _ _
            · cases hc
          · cases hc
        · cases hc
  | new => cases hc
  | write i arg len copy => cases hc
  | other pools tcpTicks => cases hc

theorem routed_iff_routeOk (h : TcpHost) (op : SegOp) : op.Routed h ↔ op.RouteOk h := by
  cases op with
  | keepalive i =>
      refine iff_of_true ?_ trivial
      show AllRouted h.net (h.pcb i).remoteIp (tcpKeepalive h.net h.pools (h.pcb i)).2
      unfold tcpKeepalive
      split
      · exact allRouted_nil _ _
      · exact (tIpOutput_allRouted _ _ _ _ _ _ _).mpr rfl
  | tcp op =>
      obtain ⟨evs, hevs, hinner⟩ := h.exec_events op
      have hrouted : AllRouted h.net (SegOp.remoteIp h (.tcp op)) evs :=
        fun e he => (hinner e he).routed _ _
      show AllRouted h.net _ (h.exec op).1.evs ↔ _
      rw [hevs, allRouted_append, SegOp.RouteOk, SegOp.remoteIp]
      cases hcall : h.outputCall op with
      | none => exact iff_of_true ⟨by simpa [SegOp.remoteIp, hcall] using hrouted,
          allRouted_nil _ _⟩ fun _ _ _ hc => by cases hc
      | some r =>
          obtain ⟨env, pools, pcb⟩ := r
          rw [SegOp.remoteIp, hcall] at hrouted
          have hout := tTcpOutput_routed env pools pcb
          rw [outputCall_net hcall] at hout
          constructor
          · rintro ⟨-, h'⟩ env' pools' pcb' hc
            obtain ⟨rfl, rfl, rfl⟩ : env = env' ∧ pools = pools' ∧ pcb = pcb' := by simpa using hc
            rw [outputCall_net hcall]
            exact hout.mp h'
          · intro hok
            refine ⟨hrouted, hout.mpr ?_⟩
            have := hok env pools pcb rfl
            rwa [outputCall_net hcall] at this

end TcpHost

/-- **TCP and routes**: over a run, every packet is handed to IP for the
interface that is the route of its remote address exactly when each call of
`t_tcp_output` is as in `OutputRouted`. -/
theorem routed_iff (h : TcpHost) (ops : List SegOp) :
    Run.Along TcpHost.stepSeg (fun h op => op.Routed h) h ops ↔
      Run.Along TcpHost.stepSeg (fun h op => op.RouteOk h) h ops :=
  Run.along_iff_of_invariant (I := fun _ => True) (fun _ _ _ _ => trivial)
    (fun h op _ _ => h.routed_iff_routeOk op) trivial
    (Run.along_of_forall TcpHost.stepSeg fun _ _ => trivial)

/-- Send the byte. -/
def outputByte : SegOp := .tcp (.output 0 fun _ => none)

/-- The first data segment finds the local address that the SYN left. -/
theorem not_routed : ¬ ∀ (h : TcpHost) (ops : List SegOp), h.Boot →
    Run.Along TcpHost.stepSeg TcpHost.LegalSeg h ops →
      Run.Along TcpHost.stepSeg (fun h op => op.Routed h) h ops := by
  intro hall
  have hlegal : Run.Along TcpHost.stepSeg TcpHost.LegalSeg sampleHost
      (openAndWrite ++ [outputByte]) := by
    rw [Run.along_append]
    refine ⟨((Run.along_append _ _ _ _ _).mp openAndWrite_legal).1, ?_, trivial⟩
    show (0 : TcpPcbId) ∉ _
    decide +kernel
  have hrouted := hall sampleHost _ (TcpHost.initial_boot _ _) hlegal
  rw [Run.along_append] at hrouted
  obtain ⟨h, hh⟩ : ∃ h, h = Run.final TcpHost.stepSeg sampleHost openAndWrite := ⟨_, rfl⟩
  have hflags : (h.pcb 0).flags &&& tfAckNow = 0 := by rw [hh]; decide +kernel
  have hlocal : (h.pcb 0).localIp ≠ 0 := by rw [hh]; decide +kernel
  have hone : ((h.pcb 0).unsent.takeWhile fun seg =>
      seg.fits (h.pcb 0).lastack (h.pcb 0).wnd).length = 1 := by rw [hh]; decide +kernel
  have hok := (TcpHost.routed_iff_routeOk _ _).mp hrouted.2.1
  rw [← hh] at hok
  have hout := (hok _ _ _ rfl).2 fun hacks => hacks.1 hflags
  rw [hone] at hout
  exact hout.elim (fun h1 => absurd h1 (by decide)) fun h1 => hlocal h1.1

end TTcp
