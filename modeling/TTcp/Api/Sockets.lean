import TTcp.Memp
import TTcp.Pbuf

/-!
# TTcp.Api.Sockets

Socket descriptors (`api/t_sockets.c`).

A descriptor is the index of a slot that holds a connection.  `t_alloc_socket` fills
the first empty slot and nothing empties one, so a slot below `NUM_SOCKETS` holds a
connection exactly when its index was returned (`Table.holds`).  `t_get_socket` tests
only the range of its argument, with `>` for `>=`, and its callers take what is in the
slot for a connection.

Each call comes with the accesses it makes, to slots and through pointers to
connections and pbufs.
-/

namespace TTcp.Sockets

/-! ## the data -/

/-- `NUM_SOCKETS`. -/
@[simp] def numSockets : Nat := mempNum .netconn

/-- `SOCK_DGRAM`. -/
def sockDgram : Int := 2

/-- `T_NETCONN_UDP`. -/
def tNetconnUdp : Nat := 0

/-- `T_PBUF_TRANSPORT`. -/
def tPbufTransport : UInt16 := 14 + 20 + 20

/-- `T_PBUF_REF`. -/
def tPbufRef : UInt16 := 0

/-- `struct t_netconn`, without what these calls do not use. -/
structure Netconn where
  type : Nat
  err : Int
  recvmbox : Int
  socket : Int

/-- `struct t_lwip_socket`.  A null pointer is address 0. -/
structure LwipSocket where
  conn : Nat
  lastdata : Nat
  lastoffset : UInt16
  rcvevent : UInt16
  sendevent : UInt16
  flags : UInt16
  err : Int

/-- What lies behind the API: the connections at their addresses, the pools and the
free pbufs. -/
structure Stack where
  netconns : Nat → Netconn
  memp : Memp
  pool : List Pbuf

/-- `sockets`, with whatever lies around it in memory, and the stack. -/
structure Table where
  sockets : Int → LwipSocket
  stack : Stack

/-- An access to `sockets[i]`, or through a pointer to a connection or a pbuf. -/
inductive Access where
  | slot (i : Int)
  | conn (c : Nat)
  | pbuf (p : Option PbufId)

/-- What a call returns, its accesses, and the state after it. -/
structure Result (σ : Type) where
  ret : Int
  accesses : List Access
  state : σ

/-- A posted message: the block of `t_tcpip_apimsg`, the connection, and where to. -/
structure Posted where
  msg : Nat
  conn : Nat
  addr : UInt32
  port : UInt16

/-- What the calls rely on: `t_sys_mbox_new`, which returns -1 when there is no mailbox,
all that happens while the caller waits for the stack in `t_sys_mbox_fetch`, and what
is in the variable `err` of `t_lwip_send` before it is set. -/
structure Env where
  mboxNew : Stack → Int
  wait : Stack → Option Posted → Stack
  err : Int

/-! ## the calls -/

/-- `t_get_socket`: the slot. -/
def tGetSocket (s : Int) : Option Int := if s < 0 ∨ s > numSockets then none else some s

/-- `t_alloc_socket`. -/
def tAllocSocket (t : Table) (newconn : Nat) : Int × Table :=
  match (List.range numSockets).find? fun i : Nat => (t.sockets i).conn = 0 with
  | some i =>
      let socket : LwipSocket := {
        conn := newconn
        lastdata := 0
        lastoffset := 0
        rcvevent := 0
        sendevent := 1
        flags := 0
        err := 0 }
      (i, { t with sockets := Function.update t.sockets i socket })
  | none => (-1, t)

/-- A call of `t_lwip_socket`, with what `t_netconn_new_with_callback` returns, 0 when
it fails, and leaves behind. -/
structure SocketCall where
  domain : Int
  type : Int
  protocol : Int
  netcon : Nat
  stack : Stack

/-- `t_lwip_socket`. -/
def tLwipSocket (t : Table) (call : SocketCall) : Int × Table :=
  let (netcon, t) := if call.type = sockDgram then (call.netcon, { t with stack := call.stack })
    else (0, t)
  if netcon = 0 then (-1, t)
  else
    let (i, t) := tAllocSocket t netcon
    -- `t_netconn_delete` does nothing
    if i = -1 then (i, t)
    else
      let conn := { t.stack.netconns netcon with socket := i }
      let netconns := Function.update t.stack.netconns netcon conn
      (i, { t with stack := { t.stack with netconns } })

/-- `t_tcpip_apimsg`: the block that the message is posted with, if there is one. -/
def tTcpipApimsg (memp : Memp) (apimsg : Nat) : Option Nat × Memp :=
  let (msg, memp) := tMempMalloc memp .tcpipMsg
  if msg = 0 then (none, tMempFree memp .apiMsg apimsg) else (some msg, memp)

/-- `t_netconn_connect`. -/
def tNetconnConnect (env : Env) (st : Stack) (conn : Nat) (addr : UInt32) (port : UInt16) :
    Result Stack :=
  if conn = 0 then ⟨-1, [], st⟩
  else
    let recvmbox := if (st.netconns conn).recvmbox = tSysMboxNull then env.mboxNew st
      else (st.netconns conn).recvmbox
    let netconn := { st.netconns conn with recvmbox }
    let st := { st with netconns := Function.update st.netconns conn netconn }
    if recvmbox = tSysMboxNull then ⟨-1, [.conn conn], st⟩
    else
      let (msg, memp) := tMempMalloc st.memp .apiMsg
      if msg = 0 then ⟨-1, [.conn conn], { st with memp }⟩
      else
        let (posted, memp) := tTcpipApimsg memp msg
        let st := env.wait { st with memp } (posted.map fun m => ⟨m, conn, addr, port⟩)
        ⟨(st.netconns conn).err, [.conn conn], { st with memp := tMempFree st.memp .apiMsg msg }⟩

/-- `t_netbuf_ref` of a fresh netbuf: the pbuf, with the accesses through it, and the
free ones. -/
def tNetbufRef (pool : List Pbuf) (size : UInt16) : Option Pbuf × List Access × List Pbuf :=
  match tPbufAlloc pool tPbufTransport 0 tPbufRef with
  | (some p, pool) => (some { p with len := size, totLen := size }, [.pbuf (some p.id)], pool)
  | (none, pool) => (none, [.pbuf none], pool)

/-- `t_lwip_send`. -/
def tLwipSend (env : Env) (t : Table) (s size : Int) : Result Table :=
  match tGetSocket s with
  | none => ⟨-1, [], t⟩
  | some i =>
      let conn := (t.sockets i).conn
      if (t.stack.netconns conn).type = tNetconnUdp then
        let (buf, memp) := tMempMalloc t.stack.memp .netbuf
        if buf = 0 then ⟨-1, [.slot i, .conn conn], { t with stack := { t.stack with memp } }⟩
        else
          let (p, accesses, pool) := tNetbufRef t.stack.pool (UInt16.ofInt size)
          -- `t_netbuf_delete`
          let pool := (tPbufFree pool p.toList).2
          let memp := tMempFree memp .netbuf buf
          ⟨if env.err ≠ 0 then -1 else size, [.slot i, .conn conn] ++ accesses,
            { t with stack := { t.stack with memp, pool } }⟩
      else ⟨-1, [.slot i, .conn conn], t⟩

/-- `t_lwip_sendto`, with the address and the port of `to`. -/
def tLwipSendto (env : Env) (t : Table) (s size : Int) (addr : UInt32) (port : UInt16) :
    Result Table :=
  match tGetSocket s with
  | none => ⟨-1, [], t⟩
  | some i =>
      let r := tNetconnConnect env t.stack (t.sockets i).conn addr (htons port)
      let r' := tLwipSend env { t with stack := r.state } s size
      { r' with accesses := [.slot i] ++ r.accesses ++ r'.accesses }

/-! ## the table -/

/-- The slots that hold a connection are those whose index was returned, and only
indices of slots were returned. -/
structure Table.Good (t : Table) (hist : List (SocketCall × Int)) : Prop where
  holds : ∀ i : Nat, i < numSockets → ((t.sockets i).conn ≠ 0 ↔ ∃ call, (call, (i : Int)) ∈ hist)
  range : ∀ call r, (call, r) ∈ hist → r = -1 ∨ 0 ≤ r ∧ r < numSockets

/-- `t_alloc_socket` returns an empty slot, and fills it. -/
theorem tAllocSocket_cases (t : Table) (newconn : Nat) :
    (tAllocSocket t newconn = (-1, t)) ∨
    ∃ i : Nat, ∃ socket : LwipSocket, i < numSockets ∧ socket.conn = newconn ∧
      tAllocSocket t newconn = (↑i, { t with sockets := Function.update t.sockets i socket }) := by
  unfold tAllocSocket
  cases hfind : (List.range numSockets).find? fun i : Nat => (t.sockets i).conn = 0 with
  | none => exact Or.inl rfl
  | some i =>
      have hi := List.mem_range.mp (List.mem_of_find?_eq_some hfind)
      exact Or.inr ⟨i, _, hi, rfl, rfl⟩

/-- A call of `t_lwip_socket` fails and leaves the slots alone, or returns the one that
it fills. -/
theorem tLwipSocket_cases (t : Table) (call : SocketCall) :
    ((tLwipSocket t call).1 = -1 ∧ (tLwipSocket t call).2.sockets = t.sockets) ∨
    ∃ i : Nat, ∃ socket : LwipSocket, i < numSockets ∧ socket.conn ≠ 0 ∧
      (tLwipSocket t call).1 = i ∧
      (tLwipSocket t call).2.sockets = Function.update t.sockets i socket := by
  unfold tLwipSocket
  by_cases htype : call.type = sockDgram
  · by_cases hnull : call.netcon = 0
    · simp [htype, hnull]
    · simp only [htype, hnull, ↓reduceIte]
      rcases tAllocSocket_cases { t with stack := call.stack } call.netcon with
        halloc | ⟨i, socket, hi, hconn, halloc⟩
      · rw [halloc]
        exact Or.inl ⟨rfl, rfl⟩
      · have hne : (i : Int) ≠ -1 := by omega
        simp only [halloc, if_neg hne]
        exact Or.inr ⟨i, socket, hi, hconn ▸ hnull, rfl, rfl⟩
  · simp [htype]

theorem Table.Good.socket {t : Table} {hist : List (SocketCall × Int)} (h : t.Good hist)
    (call : SocketCall) :
    (tLwipSocket t call).2.Good (hist ++ [(call, (tLwipSocket t call).1)]) := by
  rcases tLwipSocket_cases t call with ⟨hret, hsockets⟩ | ⟨i, socket, hi, hconn, hret, hsockets⟩
  · refine ⟨fun j hj => ?_, fun c r hr => ?_⟩
    · rw [hsockets, h.holds j hj]
      have hne : (j : Int) ≠ -1 := by omega
      simp [hret, hne]
    · rcases List.mem_append.mp hr with hr | hr
      · exact h.range c r hr
      · simp_all
  · refine ⟨fun j hj => ?_, fun c r hr => ?_⟩
    · rw [hsockets]
      by_cases hji : j = i
      · subst hji
        rw [Function.update_self]
        exact iff_of_true hconn ⟨call, by simp [hret]⟩
      · have hne : (j : Int) ≠ i := by omega
        rw [Function.update_of_ne hne, h.holds j hj]
        simp [hret, hne]
    · rcases List.mem_append.mp hr with hr | hr
      · exact h.range c r hr
      · simp only [List.mem_singleton, Prod.mk.injEq] at hr
        rw [hr.2, hret]
        omega

/-! ## descriptors -/

/-- `s` is a descriptor that `t_lwip_socket` returned. -/
def Returned (hist : List (SocketCall × Int)) (s : Int) : Prop :=
  0 ≤ s ∧ ∃ call, (call, s) ∈ hist

/-- A call validates its descriptor, which is open or not: it keeps to the slots of
the array, it reaches no connection unless the descriptor is open, and it returns -1
and does nothing if it is not. -/
structure Validated (t : Table) (isOpen : Prop) (r : Result Table) : Prop where
  inside : ∀ i, Access.slot i ∈ r.accesses → 0 ≤ i ∧ i < numSockets
  conn : ∀ c, Access.conn c ∈ r.accesses → isOpen
  refused : ¬ isOpen → r.ret = -1 ∧ r.state = t

section
variable (env : Env) {t : Table} {hist : List (SocketCall × Int)} (s size : Int)

theorem tGetSocket_none (h : s < 0 ∨ s > numSockets) : tGetSocket s = none := if_pos h

theorem tGetSocket_some (h : 0 ≤ s ∧ s ≤ numSockets) : tGetSocket s = some s :=
  if_neg (by omega)

theorem tNetbufRef_accesses (pool : List Pbuf) (size : UInt16) :
    (tNetbufRef pool size).2.1 = [.pbuf none] := by
  have hnone : tPbufAlloc pool tPbufTransport 0 tPbufRef = (none, pool) :=
    tPbufAlloc_refused pool (Or.inr (by decide))
  rw [tNetbufRef, hnone]

/-- In range, `t_lwip_send` looks into the slot, and through the pointer in it. -/
theorem tLwipSend_accesses (h : 0 ≤ s ∧ s ≤ numSockets) :
    (∀ i, Access.slot i ∈ (tLwipSend env t s size).accesses ↔ i = s) ∧
    ∀ c, Access.conn c ∈ (tLwipSend env t s size).accesses ↔ c = (t.sockets s).conn := by
  have hacc : (tLwipSend env t s size).accesses = [.slot s, .conn (t.sockets s).conn] ∨
      (tLwipSend env t s size).accesses =
        [.slot s, .conn (t.sockets s).conn, .pbuf none] := by
    rw [tLwipSend, tGetSocket_some s h]
    simp only
    split
    · split
      · exact Or.inl rfl
      · simp [tNetbufRef_accesses]
    · exact Or.inl rfl
  rcases hacc with hacc | hacc <;> simp [hacc]

/-- `t_netconn_connect` looks into no slot. -/
theorem tNetconnConnect_accesses (st : Stack) (conn : Nat) (addr : UInt32) (port : UInt16) :
    (tNetconnConnect env st conn addr port).accesses = [] ∨
    (tNetconnConnect env st conn addr port).accesses = [.conn conn] := by
  unfold tNetconnConnect
  by_cases hconn : conn = 0
  · exact Or.inl (by rw [if_pos hconn])
  · rw [if_neg hconn]
    right
    dsimp only
    split_ifs <;> rfl

/-- In range, `t_lwip_sendto` looks into that slot alone too, and through some pointer. -/
theorem tLwipSendto_accesses (addr : UInt32) (port : UInt16) (h : 0 ≤ s ∧ s ≤ numSockets) :
    (∀ i, Access.slot i ∈ (tLwipSendto env t s size addr port).accesses ↔ i = s) ∧
    ∃ c, Access.conn c ∈ (tLwipSendto env t s size addr port).accesses := by
  have hconnect := tNetconnConnect_accesses env t.stack (t.sockets s).conn addr (htons port)
  rw [tLwipSendto, tGetSocket_some s h]
  dsimp only
  generalize tNetconnConnect env t.stack (t.sockets s).conn addr (htons port) = r at hconnect ⊢
  obtain ⟨hslot, hconn⟩ := tLwipSend_accesses env (t := { t with stack := r.state }) s size h
  have hnone : ∀ i, Access.slot i ∉ r.accesses := fun i => by
    rcases hconnect with hacc | hacc <;> simp [hacc]
  refine ⟨fun i => ?_, _, List.mem_append_right _ ((hconn _).mpr rfl)⟩
  simp [hnone, hslot]

/-- A descriptor that `t_get_socket` refuses. -/
theorem Validated.refuse {isOpen : Prop} (t : Table) : Validated t isOpen ⟨-1, [], t⟩ where
  inside i hi := by simp at hi
  conn c hc := by simp at hc
  refused _ := ⟨rfl, rfl⟩

/-- A call that looks into slot `s` and through the pointer in it validates its
descriptor exactly when this was returned. -/
theorem validated_iff_returned {t : Table} {hist : List (SocketCall × Int)} (h : t.Good hist)
    {r : Result Table} {s : Int} (hs : 0 ≤ s ∧ s ≤ numSockets)
    (hslot : ∀ i, Access.slot i ∈ r.accesses ↔ i = s)
    (hconn : ∃ c, Access.conn c ∈ r.accesses) :
    Validated t (Returned hist s) r ↔ Returned hist s := by
  constructor
  · intro hv
    obtain ⟨c, hc⟩ := hconn
    exact hv.conn c hc
  · intro hret
    refine ⟨fun i hi => ?_, fun _ _ => hret, fun hnot => absurd hret hnot⟩
    obtain ⟨hpos, call, hcall⟩ := hret
    rw [(hslot i).mp hi]
    rcases h.range call s hcall with hbad | hrange
    · omega
    · exact hrange

end

/-! ## every table -/

/-- Where a descriptor is out of the range of `t_get_socket`, or was returned. -/
def Checked (hist : List (SocketCall × Int)) (s : Int) : Prop :=
  s < 0 ∨ s > numSockets ∨ Returned hist s

section
variable (env : Env) {t : Table} {hist : List (SocketCall × Int)} (h : t.Good hist) (s size : Int)
include h

theorem tLwipSend_validated_iff :
    Validated t (Returned hist s) (tLwipSend env t s size) ↔ Checked hist s := by
  by_cases hs : 0 ≤ s ∧ s ≤ numSockets
  · obtain ⟨hslot, hconn⟩ := tLwipSend_accesses env (t := t) s size hs
    rw [validated_iff_returned h hs hslot ⟨_, (hconn _).mpr rfl⟩, Checked, ← or_assoc]
    exact (or_iff_right (by omega)).symm
  · have hout : s < 0 ∨ s > numSockets := by omega
    refine iff_of_true ?_ (or_assoc.mp (Or.inl hout))
    rw [tLwipSend, tGetSocket_none s hout]
    exact Validated.refuse t

theorem tLwipSendto_validated_iff (addr : UInt32) (port : UInt16) :
    Validated t (Returned hist s) (tLwipSendto env t s size addr port) ↔ Checked hist s := by
  by_cases hs : 0 ≤ s ∧ s ≤ numSockets
  · obtain ⟨hslot, hconn⟩ := tLwipSendto_accesses env (t := t) s size addr port hs
    rw [validated_iff_returned h hs hslot hconn, Checked, ← or_assoc]
    exact (or_iff_right (by omega)).symm
  · have hout : s < 0 ∨ s > numSockets := by omega
    refine iff_of_true ?_ (or_assoc.mp (Or.inl hout))
    rw [tLwipSendto, tGetSocket_none s hout]
    exact Validated.refuse t

end

/-- The table is good after any calls. -/
theorem good_calls {t : Table} (ht : ∀ i : Nat, i < numSockets → (t.sockets i).conn = 0)
    (calls : List SocketCall) :
    (Run.final (fun t call => (tLwipSocket t call).2) t calls).Good
      (Run.history tLwipSocket t calls) := by
  have hstart : t.Good [] := ⟨fun i hi => by simp [ht i hi], fun _ _ hr => by simp at hr⟩
  have hstep : ∀ hist (t : Table) call, t.Good hist → True →
      (tLwipSocket t call).2.Good (hist ++ [(call, (tLwipSocket t call).1)]) :=
    fun _ _ call h _ => h.socket call
  exact Run.history_of_along tLwipSocket hstep [] hstart
    (Run.along_of_forall _ fun _ _ => trivial)

/-- **Descriptors are validated** after any calls of `t_lwip_socket`, from the empty
table on, exactly when they are out of the range of `t_get_socket`, or were returned. -/
theorem descriptors_validated_iff (env : Env) {t : Table}
    (ht : ∀ i : Nat, i < numSockets → (t.sockets i).conn = 0) (calls : List SocketCall)
    (s size : Int) (addr : UInt32) (port : UInt16) :
    (Validated (Run.final (fun t call => (tLwipSocket t call).2) t calls)
        (Returned (Run.history tLwipSocket t calls) s)
        (tLwipSend env (Run.final (fun t call => (tLwipSocket t call).2) t calls) s size) ↔
      Checked (Run.history tLwipSocket t calls) s) ∧
    (Validated (Run.final (fun t call => (tLwipSocket t call).2) t calls)
        (Returned (Run.history tLwipSocket t calls) s)
        (tLwipSendto env (Run.final (fun t call => (tLwipSocket t call).2) t calls) s size addr
          port) ↔
      Checked (Run.history tLwipSocket t calls) s) := by
  have h := good_calls ht calls
  exact ⟨tLwipSend_validated_iff env h s size, tLwipSendto_validated_iff env h s size addr port⟩

/-! ## a table -/

/-- No socket yet, the pools after `t_memp_init`. -/
def emptyTable : Table where
  sockets _ := ⟨0, 0, 0, 0, 0, 0, 0⟩
  stack := ⟨fun _ => ⟨0, 0, tSysMboxNull, 0⟩, tMempInit mempSizes 4096 onesMem, []⟩

/-- Mailboxes are there, and the stack frees what it has handled. -/
def sampleEnv : Env where
  mboxNew _ := 1
  wait st posted := { st with memp := posted.elim st.memp fun m => tMempFree st.memp .tcpipMsg m.msg }
  err := 0

/-- One socket, and one of a type that there is not. -/
def oneSocket : List SocketCall :=
  let stack := { emptyTable.stack with memp := (tMempMalloc emptyTable.stack.memp .netconn).2 }
  [⟨2, 2, 0, 5064, stack⟩, ⟨2, 3, 0, 0, stack⟩]

theorem descriptors_validated_one :
    (Validated (Run.final (fun t call => (tLwipSocket t call).2) emptyTable oneSocket)
        (Returned (Run.history tLwipSocket emptyTable oneSocket) 0)
        (tLwipSend sampleEnv (Run.final (fun t call => (tLwipSocket t call).2) emptyTable oneSocket)
          0 100) ↔
      Checked (Run.history tLwipSocket emptyTable oneSocket) 0) ∧
    (Validated (Run.final (fun t call => (tLwipSocket t call).2) emptyTable oneSocket)
        (Returned (Run.history tLwipSocket emptyTable oneSocket) 0)
        (tLwipSendto sampleEnv
          (Run.final (fun t call => (tLwipSocket t call).2) emptyTable oneSocket) 0 100 0x0100007f
          7) ↔
      Checked (Run.history tLwipSocket emptyTable oneSocket) 0) :=
  descriptors_validated_iff sampleEnv (fun _ _ => rfl) oneSocket 0 100 0x0100007f 7

/-- With one socket, descriptor 0, both 1, whose slot is empty, and `NUM_SOCKETS`, which
is no slot, get past the check. -/
theorem not_descriptors_validated :
    ¬ Validated (Run.final (fun t call => (tLwipSocket t call).2) emptyTable oneSocket)
      (Returned (Run.history tLwipSocket emptyTable oneSocket) 1)
      (tLwipSend sampleEnv (Run.final (fun t call => (tLwipSocket t call).2) emptyTable oneSocket)
        1 100) ∧
    ¬ Validated (Run.final (fun t call => (tLwipSocket t call).2) emptyTable oneSocket)
      (Returned (Run.history tLwipSocket emptyTable oneSocket) numSockets)
      (tLwipSend sampleEnv (Run.final (fun t call => (tLwipSocket t call).2) emptyTable oneSocket)
        numSockets 100) := by
  have h := good_calls (t := emptyTable) (fun _ _ => rfl) oneSocket
  have hhist : Run.history tLwipSocket emptyTable oneSocket =
      oneSocket.zip [(0 : Int), -1] := rfl
  rw [tLwipSend_validated_iff sampleEnv h, tLwipSend_validated_iff sampleEnv h, hhist]
  constructor <;> simp [Checked, Returned, oneSocket, mempNum]

end TTcp.Sockets
