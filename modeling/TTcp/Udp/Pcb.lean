import TTcp.Lib.PtrList
import TTcp.Lib.Run
import TTcp.Ip

/-!
# TTcp.Udp.Pcb

UDP control blocks and the list of those that are bound (`core/t_udp.c`).

The list is kept as the program keeps it, by a head pointer and a link per
control block, and every loop over it is a bounded loop that answers `none`
when it is still running after having met more nodes than there are.  On a
list none of them does, and over every run of legal calls the links are a list
of exactly the control blocks that were bound (`Udp.udpPcbs_wellFormed`).
-/

namespace TTcp

open PtrList

@[simp] def tUdpTtl : UInt8 := 255
@[simp] def tUdpFlagsConnected : UInt8 := 0x04
@[simp] def udpLocalPortRangeStart : Nat := 4096

/-- `struct t_udp_pcb`, less the fields that nothing reads or sets and the
link `next`.  `recvArg` is a pointer, 0 if null. -/
structure UdpPcb where
  localIp : UInt32
  remoteIp : UInt32
  tos : UInt8
  ttl : UInt8
  flags : UInt8
  localPort : UInt16
  remotePort : UInt16
  recv : Option UdpRecvFn
  recvArg : Nat
deriving DecidableEq, Repr

/-- `memset(udp, 0, sizeof(struct t_udp_pcb))`. -/
def UdpPcb.zero : UdpPcb where
  localIp := 0
  remoteIp := 0
  tos := 0
  ttl := 0
  flags := 0
  localPort := 0
  remotePort := 0
  recv := none
  recvArg := 0

/-- `pcb->flags & T_UDP_FLAGS_CONNECTED`. -/
def UdpPcb.connected (pcb : UdpPcb) : Bool := pcb.flags &&& tUdpFlagsConnected != 0

/-- The globals of the UDP layer. -/
structure Udp where
  /-- The free blocks of `T_MEMP_UDP_PCB`. -/
  udpPcbPool : List UdpPcbId
  pcb : UdpPcbId → UdpPcb
  /-- The link of a control block. -/
  next : UdpPcbId → Option UdpPcbId
  tUdpPcbs : Option UdpPcbId
  /-- The `start_count` of `t_udp_bind`. -/
  startCount : Nat

namespace Udp

/-- Replace a control block. -/
def setPcb (u : Udp) (i : UdpPcbId) (pcb : UdpPcb) : Udp :=
  { u with pcb := Function.update u.pcb i pcb }

/-- The bound of the loops over the list. -/
abbrev rounds : Nat := tMempNumUdpPcb + 1

/-- The control blocks met from `t_udp_pcbs` on, in order. -/
def pcbs (u : Udp) : List UdpPcbId := follow u.next tMempNumUdpPcb u.tUdpPcbs

end Udp

/-! ## the calls -/

/-- `t_udp_new`. -/
def tUdpNew (u : Udp) : Option UdpPcbId × Udp :=
  match u.udpPcbPool with
  | [] => (none, u)
  | i :: udpPcbPool =>
      (some i, { u.setPcb i { UdpPcb.zero with ttl := tUdpTtl } with
        udpPcbPool
        next := Function.update u.next i none })

/-- `t_udp_remove`: `none` when its loop does not end. -/
def tUdpRemove (u : Udp) (i : UdpPcbId) : Option Udp :=
  if u.tUdpPcbs = some i then
    some { u with tUdpPcbs := u.next i, udpPcbPool := i :: u.udpPcbPool }
  else do
    let next ← Loop.run (unlinkRound i) Udp.rounds (u.next, u.tUdpPcbs)
    return { u with next, udpPcbPool := i :: u.udpPcbPool }

/-- The loop of `t_udp_bind` and `t_udp_connect` that looks for the control
block on the list. -/
def udpFind (u : Udp) (i : UdpPcbId) : Option (Option UdpPcbId) :=
  Loop.run (findRound u.next fun j => i == j) Udp.rounds u.tUdpPcbs

/-- The port that `t_udp_bind` gives: the one asked for, or the next of its
counter, cut to 16 bits. -/
def udpPort (u : Udp) (port : UInt16) : UInt16 × Udp :=
  if port = 0 then
    (UInt16.ofNat (udpLocalPortRangeStart + u.startCount),
      { u with startCount := u.startCount + 1 })
  else (port, u)

/-- `t_udp_bind`.  A null `ipaddr` counts as address 0. -/
def tUdpBind (u : Udp) (i : UdpPcbId) (ipaddr : Option UInt32) (port : UInt16) :
    Option (ErrT × Udp) := do
  let rebind ← udpFind u i
  let u := u.setPcb i { u.pcb i with localIp := ipaddr.getD 0 }
  let (port, u) := udpPort u port
  let u := u.setPcb i { u.pcb i with localPort := port }
  if rebind.isNone then
    return (0, { u with next := Function.update u.next i u.tUdpPcbs, tUdpPcbs := some i })
  else return (0, u)

/-- The fields that `t_udp_connect` sets. -/
def connectedPcb (pcb : UdpPcb) (ipaddr : Option UInt32) (port : UInt16) : UdpPcb :=
  { pcb with
    remoteIp := ipaddr.getD 0
    remotePort := port
    flags := pcb.flags ||| tUdpFlagsConnected }

/-- `t_udp_connect`. -/
def tUdpConnect (u : Udp) (i : UdpPcbId) (ipaddr : Option UInt32) (port : UInt16) :
    Option (ErrT × Udp) := do
  let (err, u) ←
    if (u.pcb i).localPort = 0 then tUdpBind u i (some (u.pcb i).localIp) (u.pcb i).localPort
    else some (errOk, u)
  if err ≠ errOk then return (err, u)
  let u := u.setPcb i (connectedPcb (u.pcb i) ipaddr port)
  match ← udpFind u i with
  | some _ => return (errOk, u)
  | none => return (-1, u)

/-- `t_set_udp_recv`, and `t_udp_recv`, which does the same. -/
def tSetUdpRecv (u : Udp) (i : UdpPcbId) (recv : Option UdpRecvFn) (recvArg : Nat) : Udp :=
  u.setPcb i { u.pcb i with recv, recvArg }

/-! ## runs -/

/-- A call into the UDP layer. -/
inductive UdpOp where
  | new
  | remove (i : UdpPcbId)
  | bind (i : UdpPcbId) (ipaddr : Option UInt32) (port : UInt16)
  | connect (i : UdpPcbId) (ipaddr : Option UInt32) (port : UInt16)
  | setRecv (i : UdpPcbId) (recv : Option UdpRecvFn) (recvArg : Nat)

namespace Udp

/-- One call: the state after it, or `none` when it hangs. -/
def exec (u : Udp) : UdpOp → Option Udp
  | .new => some (tUdpNew u).2
  | .remove i => tUdpRemove u i
  | .bind i ipaddr port => (tUdpBind u i ipaddr port).map Prod.snd
  | .connect i ipaddr port => (tUdpConnect u i ipaddr port).map Prod.snd
  | .setRecv i recv recvArg => some (tSetUdpRecv u i recv recvArg)

/-- The state after a call; a call that hangs leaves the state it found. -/
def step (u : Udp) (op : UdpOp) : Udp := (u.exec op).getD u

/-- The control block is allocated and not removed. -/
def Live (u : Udp) (i : UdpPcbId) : Prop := i ∉ u.udpPcbPool

/-- Callers only use live control blocks. -/
def Legal (u : Udp) : UdpOp → Prop
  | .new => True
  | .remove i | .bind i _ _ | .connect i _ _ | .setRecv i _ _ => u.Live i

instance (u : Udp) (i : UdpPcbId) : Decidable (u.Live i) := inferInstanceAs (Decidable (i ∉ _))

instance (u : Udp) : (op : UdpOp) → Decidable (u.Legal op)
  | .new => isTrue trivial
  | .remove i | .bind i _ _ | .connect i _ _ | .setRecv i _ _ =>
      inferInstanceAs (Decidable (u.Live i))

/-- After `t_memp_init` and `t_udp_init`. -/
structure Boot (u : Udp) : Prop where
  pool : u.udpPcbPool = List.finRange tMempNumUdpPcb
  list : u.tUdpPcbs = none

/-- A host whose memory is all zero. -/
def initial : Udp where
  udpPcbPool := List.finRange tMempNumUdpPcb
  pcb _ := .zero
  next _ := none
  tUdpPcbs := none
  startCount := 0

theorem initial_boot : initial.Boot := ⟨rfl, rfl⟩

end Udp

/-- The call puts the control block on the list, if it is not there. -/
def UdpOp.Binds (i : UdpPcbId) : UdpOp → Prop
  | .bind j _ _ | .connect j _ _ => j = i
  | _ => False

/-- The control block was bound, explicitly or by a connect, and not removed
since. -/
def BoundBy (ops : List UdpOp) (i : UdpPcbId) : Prop :=
  ∃ pre op post, ops = pre ++ op :: post ∧ op.Binds i ∧ UdpOp.remove i ∉ post

theorem boundBy_concat {ops : List UdpOp} {op : UdpOp} {i : UdpPcbId} :
    BoundBy (ops ++ [op]) i ↔ op.Binds i ∨ BoundBy ops i ∧ op ≠ .remove i := by
  constructor
  · rintro ⟨pre, b, post, heq, hb, hpost⟩
    rcases List.eq_nil_or_concat' post with rfl | ⟨post, last, rfl⟩
    · have hop := (List.append_inj' heq rfl).2
      exact Or.inl (List.singleton_inj.mp hop ▸ hb)
    · rw [← List.cons_append, ← List.append_assoc] at heq
      obtain ⟨rfl, hlast⟩ := List.append_inj' heq rfl
      obtain rfl := List.singleton_inj.mp hlast
      refine Or.inr ⟨⟨pre, b, post, rfl, hb, fun h => hpost (by simp [h])⟩, ?_⟩
      rintro rfl
      exact hpost (by simp)
  · rintro (hop | ⟨⟨pre, b, post, rfl, hb, hpost⟩, hne⟩)
    · exact ⟨ops, op, [], rfl, hop, by simp⟩
    · exact ⟨pre, b, post ++ [op], by simp, hb, by simp [hpost, hne.symm]⟩

/-! ## the list under the calls -/

namespace Udp

/-- `l` are the control blocks on the list.  They are live, and a live control
block with a port is among them. -/
structure Listed (u : Udp) (l : List UdpPcbId) : Prop where
  list : IsList u.next u.tUdpPcbs l
  live : ∀ i ∈ l, u.Live i
  port : ∀ i, u.Live i → (u.pcb i).localPort ≠ 0 → i ∈ l
  pool : u.udpPcbPool.Nodup

variable {u : Udp} {l : List UdpPcbId} {i : UdpPcbId}

@[simp] theorem setPcb_pcb_self (u : Udp) (i : UdpPcbId) (pcb : UdpPcb) :
    (u.setPcb i pcb).pcb i = pcb := by
  simp [setPcb]

theorem setPcb_pcb_of_ne {j : UdpPcbId} (hji : j ≠ i) (pcb : UdpPcb) :
    (u.setPcb i pcb).pcb j = u.pcb j := by
  simp [setPcb, hji]

@[simp] theorem setPcb_setPcb (u : Udp) (i : UdpPcbId) (pcb pcb' : UdpPcb) :
    (u.setPcb i pcb).setPcb i pcb' = u.setPcb i pcb' := by
  simp [setPcb]

theorem Boot.listed (hb : u.Boot) : u.Listed [] where
  list := hb.list
  live := by simp
  port i hi := by
    rw [Live, hb.pool] at hi
    exact absurd (List.mem_finRange i) hi
  pool := by
    rw [hb.pool]
    exact List.nodup_finRange _

/-- A list is shorter than the bound of the loops. -/
theorem Listed.length_lt (h : u.Listed l) : l.length < rounds := by
  have hcard := h.list.nodup.length_le_card
  rw [Fintype.card_fin] at hcard
  exact Nat.lt_succ_of_le hcard

theorem Listed.pcbs_eq (h : u.Listed l) : u.pcbs = l :=
  h.list.follow (Nat.lt_succ_iff.mp h.length_lt)

theorem Listed.find (h : u.Listed l) (i : UdpPcbId) :
    udpFind u i = some (if i ∈ l then some i else none) := by
  rw [udpFind, h.list.run_findRound _ h.length_lt]
  congr 1
  cases hf : l.find? fun j => i == j with
  | some j =>
      obtain rfl : i = j := by simpa using List.find?_some hf
      rw [if_pos (List.mem_of_find?_eq_some hf)]
  | none =>
      rw [if_neg fun hi => by simpa using List.find?_eq_none.mp hf i hi]

/-- A change of what the loops do not look at keeps the list. -/
theorem Listed.congr {u' : Udp} (h : u.Listed l) (hnext : u'.next = u.next)
    (hhead : u'.tUdpPcbs = u.tUdpPcbs) (hpool : u'.udpPcbPool = u.udpPcbPool)
    (hport : ∀ i, (u'.pcb i).localPort ≠ 0 → i ∈ l ∨ (u.pcb i).localPort ≠ 0) : u'.Listed l where
  list := by rw [hnext, hhead]; exact h.list
  live i hi := by rw [Live, hpool]; exact h.live i hi
  port i hi hne := by
    rw [Live, hpool] at hi
    exact (hport i hne).elim id (h.port i hi)
  pool := by rw [hpool]; exact h.pool

theorem Listed.setPcb (h : u.Listed l) {pcb : UdpPcb}
    (hport : i ∈ l ∨ pcb.localPort = (u.pcb i).localPort) : (u.setPcb i pcb).Listed l := by
  refine h.congr rfl rfl rfl fun j hj => ?_
  by_cases hji : j = i
  · subst hji
    rcases hport with hmem | heq
    · exact Or.inl hmem
    · rw [setPcb_pcb_self, heq] at hj
      exact Or.inr hj
  · rw [setPcb_pcb_of_ne hji] at hj
    exact Or.inr hj

theorem Listed.new (h : u.Listed l) : (tUdpNew u).2.Listed l := by
  unfold tUdpNew
  cases hp : u.udpPcbPool with
  | nil => exact h
  | cons i rest =>
      have hnd := List.nodup_cons.mp (hp ▸ h.pool)
      have hil : i ∉ l := fun hi => h.live i hi (by simp [hp])
      refine ⟨h.list.update hil, fun j hj hmem => h.live j hj (by simp_all), fun j hj hport => ?_,
        hnd.2⟩
      have hji : j ≠ i := by
        rintro rfl
        exact hport (by simp [Udp.setPcb, UdpPcb.zero])
      refine h.port j ?_ (by simpa [Udp.setPcb, Function.update_of_ne hji] using hport)
      rw [Live, hp, List.mem_cons, not_or]
      exact ⟨hji, hj⟩

/-- **Removing** takes out the control block and keeps the order of the
others. -/
theorem Listed.remove (h : u.Listed l) (hi : u.Live i) :
    ∃ u', tUdpRemove u i = some u' ∧ u'.Listed (l.erase i) := by
  have hrest : ∀ u' : Udp, IsList u'.next u'.tUdpPcbs (l.erase i) → u'.pcb = u.pcb →
      u'.udpPcbPool = i :: u.udpPcbPool → u'.Listed (l.erase i) := by
    intro u' hlist hpcb hpool
    have hmem : ∀ j, j ∈ l.erase i ↔ j ≠ i ∧ j ∈ l := fun j => h.list.nodup.mem_erase_iff
    have hlive : ∀ j, u'.Live j ↔ j ≠ i ∧ u.Live j := fun j => by
      rw [Live, hpool, List.mem_cons, not_or]
      rfl
    refine ⟨hlist, fun j hj => ?_, fun j hj hport => ?_, ?_⟩
    · obtain ⟨hji, hjl⟩ := (hmem j).mp hj
      exact (hlive j).mpr ⟨hji, h.live j hjl⟩
    · obtain ⟨hji, hjl⟩ := (hlive j).mp hj
      exact (hmem j).mpr ⟨hji, h.port j hjl (hpcb ▸ hport)⟩
    · rw [hpool]
      exact List.nodup_cons.mpr ⟨hi, h.pool⟩
  unfold tUdpRemove
  split
  · next hhead =>
    refine ⟨_, rfl, hrest _ ?_ rfl rfl⟩
    cases l with
    | nil => rw [h.list] at hhead; contradiction
    | cons a l =>
        obtain ⟨hp, hl⟩ := h.list
        obtain rfl : a = i := Option.some.inj (hp.symm.trans hhead)
        rw [List.erase_cons_head]
        exact hl
  · next hhead =>
    obtain ⟨next', hrun, hlist, -⟩ := h.list.run_unlinkRound hhead h.length_lt
    rw [hrun]
    exact ⟨_, rfl, hrest _ hlist rfl rfl⟩

@[simp] theorem udpPort_pcb (u : Udp) (port : UInt16) : (udpPort u port).2.pcb = u.pcb := by
  unfold udpPort; split <;> rfl

@[simp] theorem udpPort_next (u : Udp) (port : UInt16) : (udpPort u port).2.next = u.next := by
  unfold udpPort; split <;> rfl

@[simp] theorem udpPort_tUdpPcbs (u : Udp) (port : UInt16) :
    (udpPort u port).2.tUdpPcbs = u.tUdpPcbs := by
  unfold udpPort; split <;> rfl

@[simp] theorem udpPort_udpPcbPool (u : Udp) (port : UInt16) :
    (udpPort u port).2.udpPcbPool = u.udpPcbPool := by
  unfold udpPort; split <;> rfl

theorem udpPort_setPcb (u : Udp) (i : UdpPcbId) (pcb : UdpPcb) (port : UInt16) :
    udpPort (u.setPcb i pcb) port = ((udpPort u port).1, (udpPort u port).2.setPcb i pcb) := by
  unfold udpPort; split <;> rfl

/-- What `t_udp_bind` makes of the control block: its address and port. -/
def boundPcb (u : Udp) (i : UdpPcbId) (ipaddr : Option UInt32) (port : UInt16) : UdpPcb :=
  { u.pcb i with localIp := ipaddr.getD 0, localPort := (udpPort u port).1 }

/-- **Binding** succeeds, and puts the control block on the front of the list
unless it is on it. -/
theorem Listed.bind (h : u.Listed l) (hi : u.Live i) (ipaddr : Option UInt32) (port : UInt16) :
    ∃ u', tUdpBind u i ipaddr port = some (0, u') ∧ u'.Listed (l.insert i) ∧
      u'.pcb = Function.update u.pcb i (boundPcb u i ipaddr port) := by
  -- the state before the list is touched
  obtain ⟨v, hv⟩ : ∃ v, v = (udpPort u port).2.setPcb i (boundPcb u i ipaddr port) := ⟨_, rfl⟩
  have hnext : v.next = u.next := by rw [hv, Udp.setPcb, udpPort_next]
  have hhead : v.tUdpPcbs = u.tUdpPcbs := by rw [hv, Udp.setPcb, udpPort_tUdpPcbs]
  have hpool : v.udpPcbPool = u.udpPcbPool := by rw [hv, Udp.setPcb, udpPort_udpPcbPool]
  have hpcb : v.pcb = Function.update u.pcb i (boundPcb u i ipaddr port) := by
    rw [hv, Udp.setPcb, udpPort_pcb]
  have hport : ∀ j, (v.pcb j).localPort ≠ 0 → j = i ∨ (u.pcb j).localPort ≠ 0 := fun j hj => by
    by_cases hji : j = i
    · exact Or.inl hji
    · rw [hpcb, Function.update_of_ne hji] at hj
      exact Or.inr hj
  have hbind : tUdpBind u i ipaddr port = if i ∈ l then some (0, v) else
      some (0, { v with next := Function.update v.next i v.tUdpPcbs, tUdpPcbs := some i }) := by
    rw [tUdpBind, h.find]
    split <;> simp [udpPort_setPcb, boundPcb, hv]
  rw [hbind]
  split
  · next hil =>
    rw [List.insert_of_mem hil]
    refine ⟨v, rfl, h.congr hnext hhead hpool fun j hj => (hport j hj).imp_left ?_, hpcb⟩
    rintro rfl
    exact hil
  · next hil =>
    rw [List.insert_of_not_mem hil]
    refine ⟨_, rfl, ⟨?_, ?_, ?_, ?_⟩, hpcb⟩
    · rw [hnext, hhead]
      exact h.list.push hil
    · intro j hj
      rw [Live, hpool]
      rcases List.mem_cons.mp hj with rfl | hj
      · exact hi
      · exact h.live j hj
    · intro j hj hne
      rw [Live, hpool] at hj
      exact List.mem_cons.mpr ((hport j hne).imp id (h.port j hj))
    · rw [hpool]
      exact h.pool

/-- **Connecting** succeeds, and binds the control block if it has no port. -/
theorem Listed.connect (h : u.Listed l) (hi : u.Live i) (ipaddr : Option UInt32) (port : UInt16) :
    ∃ u', tUdpConnect u i ipaddr port = some (errOk, u') ∧ u'.Listed (l.insert i) ∧
      u'.pcb = Function.update u.pcb i (connectedPcb
        (if (u.pcb i).localPort = 0 then boundPcb u i (some (u.pcb i).localIp) 0 else u.pcb i)
        ipaddr port) := by
  -- once it is on the list, the search finds it
  have hfind : ∀ v : Udp, v.Listed (l.insert i) → udpFind v i = some (some i) := fun v hv => by
    rw [hv.find, if_pos List.mem_insert_self]
  unfold tUdpConnect
  split
  · next hport =>
    obtain ⟨v, hbind, hv, hpcb⟩ := h.bind hi (some (u.pcb i).localIp) (u.pcb i).localPort
    have hv' : (v.setPcb i (connectedPcb (v.pcb i) ipaddr port)).Listed (l.insert i) :=
      hv.setPcb (Or.inl List.mem_insert_self)
    refine ⟨v.setPcb i (connectedPcb (v.pcb i) ipaddr port), ?_, hv', ?_⟩
    · rw [hbind]
      simp [hfind _ hv']
    · rw [Udp.setPcb, hpcb, hport]
      simp
  · next hport =>
    have hil : i ∈ l := h.port i hi hport
    rw [List.insert_of_mem hil] at hfind ⊢
    have hv' : (u.setPcb i (connectedPcb (u.pcb i) ipaddr port)).Listed l :=
      h.setPcb (Or.inl hil)
    refine ⟨u.setPcb i (connectedPcb (u.pcb i) ipaddr port), ?_, hv', rfl⟩
    simp [hfind _ hv']

/-! ## runs -/

/-- The control blocks on the list after a call. -/
def stepList (l : List UdpPcbId) : UdpOp → List UdpPcbId
  | .remove i => l.erase i
  | .bind i _ _ | .connect i _ _ => l.insert i
  | _ => l

/-- No legal call hangs, and each does to the list what it should. -/
theorem Listed.exec (h : u.Listed l) {op : UdpOp} (hop : u.Legal op) :
    ∃ u', u.exec op = some u' ∧ u'.Listed (stepList l op) := by
  cases op with
  | new => exact ⟨_, rfl, h.new⟩
  | remove i => exact h.remove hop
  | bind i ipaddr port =>
      obtain ⟨u', hu', hl', -⟩ := h.bind hop ipaddr port
      exact ⟨u', by rw [Udp.exec, hu']; rfl, hl'⟩
  | connect i ipaddr port =>
      obtain ⟨u', hu', hl', -⟩ := h.connect hop ipaddr port
      exact ⟨u', by rw [Udp.exec, hu']; rfl, hl'⟩
  | setRecv i recv recvArg =>
      exact ⟨_, rfl, h.setPcb (Or.inr rfl)⟩

theorem Listed.step (h : u.Listed l) {op : UdpOp} (hop : u.Legal op) :
    (u.step op).Listed (stepList l op) := by
  obtain ⟨u', hu', hl'⟩ := h.exec hop
  rwa [Udp.step, hu']

theorem mem_stepList (hl : l.Nodup) {op : UdpOp} :
    i ∈ stepList l op ↔ op.Binds i ∨ i ∈ l ∧ op ≠ .remove i := by
  cases op <;> simp [stepList, UdpOp.Binds, hl.mem_erase_iff, List.mem_insert_iff, eq_comm, and_comm]

/-- After any run there is a list, of the control blocks bound and not
removed. -/
theorem Boot.exists_listed (hb : u.Boot) {ops : List UdpOp}
    (hl : Run.Along Udp.step Udp.Legal u ops) :
    ∃ l, (Run.final Udp.step u ops).Listed l ∧ ∀ i, i ∈ l ↔ BoundBy ops i := by
  induction ops using List.reverseRecOn with
  | nil => exact ⟨[], hb.listed, fun i => by simp [BoundBy]⟩
  | append_singleton ops op ih =>
      rw [Run.along_append] at hl
      obtain ⟨l, h, hmem⟩ := ih hl.1
      refine ⟨stepList l op, ?_, fun i => ?_⟩
      · rw [Run.final_append]
        exact h.step hl.2.1
      · rw [mem_stepList h.list.nodup, hmem, boundBy_concat]

/-- **The list of bound control blocks**: after every run of legal calls the
links are a list without repetition of exactly the live control blocks that
were bound and not removed since, removing takes out its argument alone, and
connecting succeeds. -/
theorem udpPcbs_wellFormed {u₀ : Udp} (hb : u₀.Boot) {ops : List UdpOp}
    (hl : Run.Along Udp.step Udp.Legal u₀ ops) :
    let u := Run.final Udp.step u₀ ops
    ∃ l, IsList u.next u.tUdpPcbs l ∧ l.Nodup ∧ (∀ i, i ∈ l ↔ u.Live i ∧ BoundBy ops i) ∧
      (∀ i, u.Live i → ∃ u', tUdpRemove u i = some u' ∧
        IsList u'.next u'.tUdpPcbs (l.erase i)) ∧
      ∀ i ipaddr port, u.Live i → ∃ u', tUdpConnect u i ipaddr port = some (errOk, u') := by
  intro u
  obtain ⟨l, h, hmem⟩ := hb.exists_listed hl
  refine ⟨l, h.list, h.list.nodup, fun i => ?_, fun i hi => ?_, fun i ipaddr port hi => ?_⟩
  · rw [← hmem]
    exact ⟨fun hi => ⟨h.live i hi, hi⟩, And.right⟩
  · obtain ⟨u', hu', hl'⟩ := h.remove hi
    exact ⟨u', hu', hl'.list⟩
  · obtain ⟨u', hu', -⟩ := h.connect hi ipaddr port
    exact ⟨u', hu'⟩

/-- Bind one control block, connect another, give the first one back and take
it again. -/
def sampleUdpRun : List UdpOp :=
  [.new, .bind 0 (some 5) 7, .new, .connect 1 (some 9) 80, .remove 0, .new, .connect 0 none 81]

theorem udpPcbs_wellFormed_sample :
    let u := Run.final Udp.step Udp.initial sampleUdpRun
    ∃ l, IsList u.next u.tUdpPcbs l ∧ l.Nodup ∧ (∀ i, i ∈ l ↔ u.Live i ∧ BoundBy sampleUdpRun i) ∧
      (∀ i, u.Live i → ∃ u', tUdpRemove u i = some u' ∧
        IsList u'.next u'.tUdpPcbs (l.erase i)) ∧
      ∀ i ipaddr port, u.Live i → ∃ u', tUdpConnect u i ipaddr port = some (errOk, u') :=
  udpPcbs_wellFormed initial_boot
    ⟨by decide, by decide, by decide, by decide, by decide, by decide, by decide, trivial⟩

end Udp

end TTcp
