import TTcp.Ip
import TTcp.Lib.PtrList
import TTcp.Lib.Run

/-!
# TTcp.Ip.Netif

The list of interfaces (`core/t_netif.c`), and which of them `t_ip_route`
picks for a destination.

The comparison macros of `t_ip_addr.h` are true when their arguments differ, and
`t_ip_route` takes `t_ip_addr_netcmp` for a test of being on the same network.
It stops at the first interface that the destination is *not* attached to.
Since `t_netif_add` makes every interface the default as it becomes the head of
the list, the answer is still right when the destination is attached to all the
interfaces or to none of them, and in no other case
(`route_attached_iff`).
-/

namespace TTcp

open PtrList

/-- The interfaces by their addresses, the `next` pointer of each, and the globals
`netif_list` and `netif_default`. -/
structure Netifs where
  netif : Nat → Netif
  next : Nat → Option Nat
  netifList : Option Nat
  netifDefault : Option Nat

/-! ## the calls -/

/-- `t_netif_init`. -/
def tNetifInit (s : Netifs) : Netifs := { s with netifList := none, netifDefault := none }

/-- `t_netif_set_addr`. -/
def tNetifSetAddr (s : Netifs) (i : Nat) (ip mask gw : UInt32) : Netifs :=
  let netif := { s.netif i with ipAddr := ip, netmask := mask, gw := gw }
  { s with netif := Function.update s.netif i netif }

/-- `t_netif_set_mac`. -/
def tNetifSetMac (s : Netifs) (i : Nat) (mac : Vector UInt8 6) : Netifs :=
  let netif := { s.netif i with hwaddr := mac }
  { s with netif := Function.update s.netif i netif }

/-- `t_netif_add`.  The driver's `init` may set up the interface further. -/
def tNetifAdd (s : Netifs) (i : Nat) (init : Netif → Netif) : Netifs where
  netif := Function.update s.netif i (init (s.netif i))
  next := Function.update s.next i s.netifList
  netifList := some i
  netifDefault := some i

/-- `t_ip_route` with at most `rounds` rounds of its loop. -/
def tIpRouteWithin (rounds : Nat) (s : Netifs) (dest : UInt32) : Option (Option Nat) :=
  (Loop.run (findRound s.next fun i =>
      tIpAddrNetcmp dest (s.netif i).ipAddr (s.netif i).netmask) rounds s.netifList).map
    fun r => r.or s.netifDefault

namespace Netifs

/-- `t_ip_route` returns `r`. -/
def Routes (s : Netifs) (dest : UInt32) (r : Option Nat) : Prop :=
  ∃ rounds, tIpRouteWithin rounds s dest = some r

/-- It returns one thing only. -/
theorem Routes.unique {s : Netifs} {dest : UInt32} {r r' : Option Nat} (h : s.Routes dest r)
    (h' : s.Routes dest r') : r = r' := by
  obtain ⟨n, hn⟩ := h
  obtain ⟨m, hm⟩ := h'
  obtain ⟨a, ha, rfl⟩ := Option.map_eq_some_iff.mp hn
  obtain ⟨b, hb, rfl⟩ := Option.map_eq_some_iff.mp hm
  rw [Loop.run_unique _ ha hb]

/-! ## runs -/

/-- The destination is on the network of the interface. -/
def attached (s : Netifs) (dest : UInt32) (i : Nat) : Bool :=
  dest &&& (s.netif i).netmask == (s.netif i).ipAddr &&& (s.netif i).netmask

end Netifs

/-- A call that sets up the interfaces. -/
inductive NetifOp where
  | setAddr (i : Nat) (ip mask gw : UInt32)
  | setMac (i : Nat) (mac : Vector UInt8 6)
  | add (i : Nat) (init : Netif → Netif)

namespace Netifs

def step (s : Netifs) : NetifOp → Netifs
  | .setAddr i ip mask gw => tNetifSetAddr s i ip mask gw
  | .setMac i mac => tNetifSetMac s i mac
  | .add i init => tNetifAdd s i init

/-- No interface is added twice. -/
def Legal (s : Netifs) : NetifOp → Prop
  | .add i _ => ¬ Reaches s.next s.netifList i
  | _ => True

/-- `l` are the interfaces on the list, and the default is the first. -/
structure Listed (s : Netifs) (l : List Nat) : Prop where
  list : IsList s.next s.netifList l
  default : s.netifDefault = l.head?

variable {s : Netifs} {l : List Nat} {dest : UInt32}

theorem listed_init (s : Netifs) : (tNetifInit s).Listed [] := ⟨rfl, rfl⟩

theorem Listed.setAddr (h : s.Listed l) (i : Nat) (ip mask gw : UInt32) :
    (tNetifSetAddr s i ip mask gw).Listed l := ⟨h.list, h.default⟩

theorem Listed.add (h : s.Listed l) {i : Nat} (hi : ¬ Reaches s.next s.netifList i)
    (init : Netif → Netif) : (tNetifAdd s i init).Listed (i :: l) :=
  ⟨h.list.push fun hmem => hi (h.list.reaches_iff.mpr hmem), rfl⟩

theorem listed_step {op : NetifOp} (h : ∃ l, s.Listed l) (hop : s.Legal op) :
    ∃ l, (s.step op).Listed l := by
  obtain ⟨l, hl⟩ := h
  cases op with
  | setAddr i ip mask gw => exact ⟨l, hl.setAddr i ip mask gw⟩
  | setMac i mac => exact ⟨l, hl.list, hl.default⟩
  | add i init => exact ⟨i :: l, hl.add hop init⟩

/-- Whatever interfaces are set up, they form a list. -/
theorem exists_listed {ops : List NetifOp}
    (hops : Run.Along Netifs.step Netifs.Legal (tNetifInit s) ops) :
    ∃ l, (Run.final Netifs.step (tNetifInit s) ops).Listed l :=
  Run.final_of_along (P := fun s : Netifs => ∃ l, s.Listed l) (fun _ _ h hop => listed_step h hop)
    ⟨[], listed_init s⟩ hops

/-! ## the route -/

/-- The loop ends, and the first interface that it takes for a match is
returned. -/
theorem Listed.routes_iff (h : s.Listed l) {r : Option Nat} :
    s.Routes dest r ↔ r = (l.find? fun i => !s.attached dest i).or l.head? := by
  have hroute : s.Routes dest ((l.find? fun i => !s.attached dest i).or l.head?) :=
    ⟨l.length + 1, by rw [tIpRouteWithin, h.list.run_findRound _ (Nat.lt_succ_self _), h.default]; rfl⟩
  constructor
  · intro hr
    exact hr.unique hroute
  · rintro rfl
    exact hroute

/-- This is `t_ip_route` as the rest of the stack sees it. -/
theorem Listed.tIpRoute (h : s.Listed l) {r : Option Nat} (hr : s.Routes dest r) :
    TTcp.tIpRoute ⟨l.map s.netif, s.netifDefault.map s.netif⟩ dest = r.map s.netif := by
  rw [h.routes_iff.mp hr, TTcp.tIpRoute, h.default, List.find?_map]
  have hsame : ((fun n : Netif => tIpAddrNetcmp dest n.ipAddr n.netmask) ∘ s.netif) =
      fun i => !s.attached dest i := rfl
  rw [hsame]
  cases l.find? fun i => !s.attached dest i with
  | none => rfl
  | some i => rfl

end Netifs

/-- `t_ip_route` picks the network that the destination is attached to. -/
structure RoutesAttached (s : Netifs) (l : List Nat) (dest : UInt32) : Prop where
  picks : s.Routes dest ((l.find? fun i => s.attached dest i).or s.netifDefault)
  never_another : ∀ i ∈ l, s.attached dest i = true →
    (∀ j ∈ l, s.attached dest j = true → j = i) → s.Routes dest (some i)

/-- The destination is attached to all the interfaces, or to none of them. -/
def AttachedAlike (s : Netifs) (l : List Nat) (dest : UInt32) : Prop :=
  (∀ i ∈ l, s.attached dest i = true) ∨ ∀ i ∈ l, s.attached dest i = false

theorem find?_attached_of_unique {s : Netifs} {l : List Nat} {dest : UInt32} {i : Nat} (hi : i ∈ l)
    (hatt : s.attached dest i = true) (huniq : ∀ j ∈ l, s.attached dest j = true → j = i) :
    (l.find? fun j => s.attached dest j) = some i := by
  cases hfind : l.find? fun j => s.attached dest j with
  | none => exact absurd hatt (List.find?_eq_none.mp hfind i hi)
  | some j => rw [huniq j (List.mem_of_find?_eq_some hfind) (List.find?_some hfind)]

/-- The inverted search finds what the right one does exactly then. -/
theorem Netifs.Listed.routesAttached_iff {s : Netifs} {l : List Nat} (h : s.Listed l)
    (dest : UInt32) : RoutesAttached s l dest ↔ AttachedAlike s l dest := by
  have hpicks : s.Routes dest ((l.find? fun i => s.attached dest i).or s.netifDefault) ↔
      AttachedAlike s l dest := by
    rw [h.routes_iff, h.default]
    cases l with
    | nil => simp [AttachedAlike]
    | cons a l =>
        cases ha : s.attached dest a with
        | true =>
            -- the default is the right answer, and the search must not find another
            have hright : ((a :: l).find? fun i => s.attached dest i) = some a := by simp [ha]
            rw [hright, List.find?_cons, ha]
            constructor
            · intro heq
              refine Or.inl (List.forall_mem_cons.mpr ⟨ha, fun i hi => ?_⟩)
              cases hfind : l.find? fun i => !s.attached dest i with
              | none => simpa using List.find?_eq_none.mp hfind i hi
              | some j =>
                  have hj : s.attached dest j = false := by simpa using List.find?_some hfind
                  rw [hfind] at heq
                  have haj : a = j := by simpa using heq
                  rw [← haj, ha] at hj
                  contradiction
            · rintro (hall | hnone)
              · have hfind : (l.find? fun i => !s.attached dest i) = none :=
                  List.find?_eq_none.mpr fun i hi => by
                    simp [hall i (List.mem_cons_of_mem a hi)]
                simp [hfind]
              · rw [hnone a List.mem_cons_self] at ha
                contradiction
        | false =>
            -- the search stops at the head, which must be the default for want of another
            have hwrong : ((a :: l).find? fun i => !s.attached dest i) = some a := by simp [ha]
            rw [hwrong, List.find?_cons, ha]
            constructor
            · intro heq
              refine Or.inr (List.forall_mem_cons.mpr ⟨ha, fun i hi => ?_⟩)
              cases hfind : l.find? fun i => s.attached dest i with
              | none => simpa using List.find?_eq_none.mp hfind i hi
              | some j =>
                  have hj : s.attached dest j = true := List.find?_some hfind
                  rw [hfind] at heq
                  have haj : j = a := by simpa using heq
                  rw [haj, ha] at hj
                  contradiction
            · rintro (hall | hnone)
              · rw [hall a List.mem_cons_self] at ha
                contradiction
              · have hfind : (l.find? fun i => s.attached dest i) = none :=
                  List.find?_eq_none.mpr fun i hi => by
                    simp [hnone i (List.mem_cons_of_mem a hi)]
                simp [hfind]
  refine ⟨fun hr => hpicks.mp hr.picks, fun halike => ⟨hpicks.mpr halike, fun i hi hatt huniq => ?_⟩⟩
  have hr := hpicks.mpr halike
  rwa [find?_attached_of_unique hi hatt huniq] at hr

/-- **Routing**: whatever interfaces are set up, they form a list, and
`t_ip_route` picks the right one of it exactly for the destinations attached to
all of them or to none. -/
theorem route_attached_iff (s : Netifs) (ops : List NetifOp)
    (hops : Run.Along Netifs.step Netifs.Legal (tNetifInit s) ops) :
    ∃ l, IsList (Run.final Netifs.step (tNetifInit s) ops).next
        (Run.final Netifs.step (tNetifInit s) ops).netifList l ∧
      ∀ dest, RoutesAttached (Run.final Netifs.step (tNetifInit s) ops) l dest ↔
        AttachedAlike (Run.final Netifs.step (tNetifInit s) ops) l dest := by
  obtain ⟨l, hl⟩ := Netifs.exists_listed hops
  exact ⟨l, hl.list, hl.routesAttached_iff⟩

/-- The interfaces that the rest of the stack sees were set up by calls after
`t_netif_init`. -/
def Net.Built (net : Net) : Prop :=
  ∃ s ops l, Run.Along Netifs.step Netifs.Legal (tNetifInit s) ops ∧
    IsList (Run.final Netifs.step (tNetifInit s) ops).next
      (Run.final Netifs.step (tNetifInit s) ops).netifList l ∧
    net = ⟨l.map (Run.final Netifs.step (tNetifInit s) ops).netif,
      (Run.final Netifs.step (tNetifInit s) ops).netifDefault.map
        (Run.final Netifs.step (tNetifInit s) ops).netif⟩

/-- With an interface there is a default one, and so a route to everywhere. -/
theorem Net.Built.tIpRoute_ne_none {net : Net} (h : net.Built) {inp : Netif}
    (hinp : inp ∈ net.netifList) (dest : UInt32) : tIpRoute net dest ≠ none := by
  obtain ⟨s, ops, l, hops, hlist, rfl⟩ := h
  obtain ⟨l', hl'⟩ := Netifs.exists_listed hops
  obtain rfl := hl'.list.unique hlist
  cases l' with
  | nil => exact absurd hinp List.not_mem_nil
  | cons a l' =>
      rw [tIpRoute, hl'.default]
      split
      · exact Option.some_ne_none _
      · exact Option.some_ne_none _

/-- No interfaces. -/
def noNetifs : Netifs where
  netif _ := ⟨0, 0, 0, .replicate 6 0⟩
  next _ := none
  netifList := none
  netifDefault := none

/-- A host with one interface has added it. -/
theorem Net.built_singleton (netif : Netif) : Net.Built ⟨[netif], some netif⟩ := by
  have h0 := Netifs.listed_init { noNetifs with netif := fun _ => netif }
  have hnil : ¬ Reaches (fun _ => none) none 0 := fun hr =>
    List.not_mem_nil (h0.list.reaches_iff.mp hr)
  exact ⟨{ noNetifs with netif := fun _ => netif }, [.add 0 id], [0], ⟨hnil, trivial⟩,
    (h0.add hnil id).list, rfl⟩

/-- Two interfaces, 10.0.0.2/24 and 192.168.1.112/24. -/
def twoNetworks : List NetifOp :=
  [.setAddr 0 0x0200000a 0x00ffffff 0, .add 0 id,
    .setAddr 1 0x7001a8c0 0x00ffffff 0x0101a8c0, .add 1 id]

theorem twoNetworks_listed :
    Run.Along Netifs.step Netifs.Legal (tNetifInit noNetifs) twoNetworks ∧
      (Run.final Netifs.step (tNetifInit noNetifs) twoNetworks).Listed [1, 0] := by
  have h0 := (Netifs.listed_init noNetifs).setAddr 0 0x0200000a 0x00ffffff 0
  have hnil : ¬ Reaches noNetifs.next none 0 := fun hr => List.not_mem_nil (h0.list.reaches_iff.mp hr)
  have h1 := h0.add hnil id
  have hone : ¬ Reaches (Function.update noNetifs.next 0 none) (some 0) 1 := fun hr =>
    absurd (h1.list.reaches_iff.mp hr) (by decide)
  have h2 := h1.setAddr 1 0x7001a8c0 0x00ffffff 0x0101a8c0
  exact ⟨⟨trivial, hnil, trivial, hone, trivial⟩, h2.add hone id⟩

/-- 192.168.2.1 is on neither network, and takes the default. -/
theorem route_attached_twoNetworks :
    ∃ l, IsList (Run.final Netifs.step (tNetifInit noNetifs) twoNetworks).next
        (Run.final Netifs.step (tNetifInit noNetifs) twoNetworks).netifList l ∧
      RoutesAttached (Run.final Netifs.step (tNetifInit noNetifs) twoNetworks) l 0x0102a8c0 := by
  obtain ⟨l, hl, hiff⟩ := route_attached_iff noNetifs twoNetworks twoNetworks_listed.1
  obtain rfl := twoNetworks_listed.2.list.unique hl
  exact ⟨_, hl, (hiff 0x0102a8c0).mpr (.inr (by decide))⟩

/-- 10.0.0.1 goes to 192.168.1.112. -/
theorem not_route_attached : ¬ ∀ (s : Netifs) (ops : List NetifOp),
    Run.Along Netifs.step Netifs.Legal (tNetifInit s) ops →
      ∃ l, IsList (Run.final Netifs.step (tNetifInit s) ops).next
          (Run.final Netifs.step (tNetifInit s) ops).netifList l ∧
        ∀ dest, RoutesAttached (Run.final Netifs.step (tNetifInit s) ops) l dest := by
  intro h
  obtain ⟨hlegal, hlisted⟩ := twoNetworks_listed
  obtain ⟨l, hl, hright⟩ := h noNetifs twoNetworks hlegal
  obtain rfl := hlisted.list.unique hl
  have halike := (hlisted.routesAttached_iff 0x0100000a).mp (hright 0x0100000a)
  exact absurd halike (by simp only [AttachedAlike]; decide)

end TTcp
