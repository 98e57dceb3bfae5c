import TTcp.Api.Netbuf

/-!
# TTcp.Api.Cursor

The two pointers of a netbuf over sequences of calls (`api/t_api_lib.c`).

`t_netbuf_free` clears both; `t_netbuf_alloc` frees the old chain, and when there
is no new one clears `p` only.  There never is: `T_PBUF_RAM` is no kind that
`t_pbuf_alloc` knows.  So `ptr` stays with `p` exactly as long as `t_netbuf_alloc`
is called on empty netbufs (`cursor_iff`).
-/

namespace TTcp

open PtrList PbufPool

@[simp] def tPbufRam : UInt16 := 0

/-! ## the calls -/

/-- `t_pbuf_free`, if there is something to free. -/
def pbufFreeIf (pool : PbufPool) (p : Nat) : Option PbufPool :=
  if p ≠ 0 then (PbufPool.tPbufFree pool p).map Prod.snd else some pool

/-- `t_netbuf_new`, when `t_memp_malloc` finds a block or not. -/
def tNetbufNew (block : Bool) : Option Netbuf := if block then some ⟨0, 0⟩ else none

/-- `t_netbuf_delete`. -/
def tNetbufDelete (pool : PbufPool) : Option Netbuf → Option PbufPool
  | none => some pool
  | some buf => pbufFreeIf pool buf.p

/-- `t_netbuf_alloc`: the payload pointer, 0 if there is none. -/
def tNetbufAlloc (pool : PbufPool) (buf : Netbuf) (size : UInt16) :
    Option (Nat × PbufPool × Netbuf) := do
  let pool ← pbufFreeIf pool buf.p
  let (p, pool) ← PbufPool.tPbufAlloc pool tPbufTransport size tPbufRam
  let buf := { buf with p }
  if p = 0 then some (0, pool, buf)
  else some ((pbufHdr pool.mem p).payload, pool, { buf with ptr := p })

/-- `t_netbuf_free`. -/
def tNetbufFree (pool : PbufPool) (buf : Netbuf) : Option (PbufPool × Netbuf) :=
  (pbufFreeIf pool buf.p).map fun pool => (pool, ⟨0, 0⟩)

/-- `t_netbuf_first`. -/
def tNetbufFirst (buf : Netbuf) : Netbuf := { buf with ptr := buf.p }

/-- `t_netbuf_next`, with -1 as an `u8_t`.  `none` stands for a null pointer that
is followed. -/
def tNetbufNext (mem : ByteMem) (buf : Netbuf) : Option (UInt8 × Netbuf) :=
  if buf.ptr = 0 then none
  else if (pbufHdr mem buf.ptr).next = 0 then some (255, buf)
  else
    let buf := { buf with ptr := (pbufHdr mem buf.ptr).next }
    if (pbufHdr mem buf.ptr).next = 0 then some (1, buf) else some (0, buf)

/-- `t_netbuf_data`: where the data are, and how many.  `none` when it returns -1. -/
def tNetbufData (mem : ByteMem) (buf : Netbuf) : Option (Nat × UInt16) :=
  if buf.ptr = 0 then none
  else some ((pbufHdr mem buf.ptr).payload, (pbufHdr mem buf.ptr).len)

/-- `t_recv_udp` for the chain at `p`: the netbuf that it posts.  `conn` is null, or
says whether there is a `recvmbox`. -/
def tRecvUdp (pool : PbufPool) (conn : Option Bool) (block : Bool) (p : Nat) :
    Option (PbufPool × Option Netbuf) :=
  match conn with
  | none => (PbufPool.tPbufFree pool p).map fun r => (r.2, none)
  | some false => some (pool, none)
  | some true =>
      if block then some (pool, some ⟨p, p⟩)
      else (PbufPool.tPbufFree pool p).map fun r => (r.2, none)

/-! ## runs -/

/-- A call on the netbuf, or what the rest of the program does to the pool. -/
inductive NetbufOp where
  | new (block : Bool)
  | recv (conn : Option Bool) (block : Bool) (p : Nat)
  | alloc (size : UInt16)
  | free
  | first
  | next
  | data
  | delete
  | other (pool : PbufPool)

/-- The pool, and the netbuf of a user, if it has one. -/
structure NetbufUse where
  pool : PbufPool
  buf : Option Netbuf

namespace NetbufUse

/-- A call, `none` when it does not return. -/
def exec (u : NetbufUse) : NetbufOp → Option NetbufUse
  | .new block => some { u with buf := tNetbufNew block }
  | .recv conn block p => (tRecvUdp u.pool conn block p).map fun (pool, buf) => ⟨pool, buf⟩
  | .alloc size => u.buf.bind fun buf =>
      (tNetbufAlloc u.pool buf size).map fun (_, pool, buf) => ⟨pool, some buf⟩
  | .free => u.buf.bind fun buf => (tNetbufFree u.pool buf).map fun (pool, buf) => ⟨pool, some buf⟩
  | .first => u.buf.map fun buf => { u with buf := some (tNetbufFirst buf) }
  | .next => u.buf.bind fun buf =>
      (tNetbufNext u.pool.mem buf).map fun (_, buf) => { u with buf := some buf }
  | .data => u.buf.map fun _ => u
  | .delete => (tNetbufDelete u.pool u.buf).map fun pool => ⟨pool, none⟩
  | .other pool => some { u with pool }

/-- The first pbuf of the netbuf. -/
def head (u : NetbufUse) : Nat := u.buf.elim 0 Netbuf.p

/-- The pbufs of the netbuf are a chain, and the pool is in order. -/
def Owns (base : Nat) (u : NetbufUse) (free chain : List Nat) : Prop :=
  Owned base u.pool free chain ∧ IsList (PbufPool.links u.pool.mem) (ptr u.head) chain

/-- A user has one netbuf at a time, what it receives is a chain of pbufs that are
now its own, and the others leave the chain alone.  `t_raw_input` does not: it frees the
packet when `t_recv_udp`, which kept it, has returned. -/
def Legal (base : Nat) (u : NetbufUse) : NetbufOp → Prop
  | .new _ => u.buf = none
  | .recv _ _ p => u.buf = none ∧ p ≠ 0 ∧ ∃ free chain, Owned base u.pool free chain ∧
      IsList (PbufPool.links u.pool.mem) (ptr p) chain
  | .other pool => ∀ free chain, u.Owns base free chain →
      ∃ free', Owns base { u with pool } free' chain
  | _ => True

/-- The cursor is with the chain: null exactly when there is none, and else at one
of its pbufs, which is not free. -/
structure CursorOk (u : NetbufUse) (buf : Netbuf) : Prop where
  null : buf.ptr = 0 ↔ buf.p = 0
  chain : buf.ptr ≠ 0 →
    ∃ chain, IsList (PbufPool.links u.pool.mem) (ptr buf.p) chain ∧ buf.ptr ∈ chain
  used : ∀ free, IsList (PbufPool.links u.pool.mem) (ptr u.pool.pbufPool) free → buf.ptr ∉ free
  /-- What `t_netbuf_data` gives are the data of a pbuf of the chain, which is not free. -/
  data : ∀ r, tNetbufData u.pool.mem buf = some r →
    ∃ chain, IsList (PbufPool.links u.pool.mem) (ptr buf.p) chain ∧ ∃ q ∈ chain,
      r = ((pbufHdr u.pool.mem q).payload, (pbufHdr u.pool.mem q).len) ∧
      ∀ free, IsList (PbufPool.links u.pool.mem) (ptr u.pool.pbufPool) free → q ∉ free

end NetbufUse

/-! ## one call -/

/-- No kind of pbuf but the pool's is known. -/
theorem tPbufAlloc_ram (pool : PbufPool) (offset length : UInt16) :
    PbufPool.tPbufAlloc pool offset length tPbufRam = some (0, pool) := by
  unfold PbufPool.tPbufAlloc
  simp only
  split
  · rfl
  · rw [if_neg (by decide)]

section
variable {base : Nat} (hpl : Placed base) {pool : PbufPool} {free chain : List Nat}
  (howned : Owned base pool free chain)
include hpl howned

/-- A chain is freed, and the call returns. -/
theorem pbufFreeIf_eq {p : Nat} (hchain : IsList (PbufPool.links pool.mem) (ptr p) chain) :
    ∃ pool' free', pbufFreeIf pool p = some pool' ∧ Owned base pool' free' [] := by
  by_cases hp : p = 0
  · obtain rfl : chain = [] := by
      rw [hp] at hchain
      cases chain with
      | nil => rfl
      | cons a l => exact absurd hchain.1 (by simp)
    exact ⟨pool, free, if_neg (by simpa using hp), howned⟩
  · rw [← List.append_nil chain] at howned
    obtain ⟨pool', hfree, howned', -⟩ := howned.tPbufFree_chain hpl hchain
    exact ⟨pool', _, by rw [pbufFreeIf, if_pos hp, hfree]; rfl, howned'⟩

/-- `t_netbuf_alloc` frees the chain, and fails. -/
theorem tNetbufAlloc_eq {buf : Netbuf}
    (hchain : IsList (PbufPool.links pool.mem) (ptr buf.p) chain) (size : UInt16) :
    ∃ pool' free', tNetbufAlloc pool buf size = some (0, pool', { buf with p := 0 }) ∧
      Owned base pool' free' [] := by
  obtain ⟨pool', free', hfree, howned'⟩ := pbufFreeIf_eq hpl howned hchain
  refine ⟨pool', free', ?_, howned'⟩
  simp only [tNetbufAlloc, hfree, Option.bind_eq_bind, Option.bind_some, tPbufAlloc_ram, ↓reduceIte]

end

/-- The cursor is null and there is no chain, or it is at one of the pbufs. -/
def CursorAt (buf : Netbuf) (chain : List Nat) : Prop :=
  buf.ptr = 0 ∧ chain = [] ∨ buf.ptr ∈ chain

namespace NetbufUse

variable {base : Nat} {u u' : NetbufUse} {free chain : List Nat}

/-- A null pointer heads no chain. -/
theorem chain_eq_nil_iff {mem : ByteMem} {p : Nat}
    (h : IsList (PbufPool.links mem) (ptr p) chain) : chain = [] ↔ p = 0 := by
  constructor
  · rintro rfl
    exact ptr_eq_none_iff.mp h
  · rintro rfl
    cases chain with
    | nil => rfl
    | cons a l => exact absurd h.1 (by simp)

/-- In a pool in order, the cursor is with the chain when it is at one of its pbufs, or
both are missing. -/
theorem Owns.cursorOk_iff (hpl : Placed base) (h : u.Owns base free chain) {buf : Netbuf}
    (hbuf : u.buf = some buf) : u.CursorOk buf ↔ CursorAt buf chain := by
  obtain ⟨howned, hchain⟩ := h
  rw [head, hbuf, Option.elim_some] at hchain
  have hnil := chain_eq_nil_iff hchain
  constructor
  · intro hok
    by_cases hptr : buf.ptr = 0
    · exact Or.inl ⟨hptr, hnil.mpr (hok.null.mp hptr)⟩
    · obtain ⟨chain', hchain', hmem⟩ := hok.chain hptr
      exact Or.inr (hchain.unique hchain' ▸ hmem)
  · rintro (⟨hptr, hempty⟩ | hmem)
    · refine ⟨iff_of_true hptr (hnil.mp hempty), fun hne => absurd hptr hne, fun free' hfree' => ?_,
        by simp [tNetbufData, hptr]⟩
      rw [hptr, hfree'.unique howned.list]
      intro hzero
      have := (addrs_inside (howned.mem_of_free hzero)).1
      have := hpl.pos
      omega
    · have hpos : buf.ptr ≠ 0 := by
        have := (addrs_inside (howned.mem_of_held hmem)).1
        have := hpl.pos
        omega
      have hp : buf.p ≠ 0 := fun hp => List.ne_nil_of_mem hmem (hnil.mpr hp)
      have hused : ∀ free', IsList (PbufPool.links u.pool.mem) (ptr u.pool.pbufPool) free' →
          buf.ptr ∉ free' := fun free' hfree' => by
        rw [hfree'.unique howned.list]
        exact fun hfree => (List.nodup_append.mp howned.nodup).2.2 _ hfree _ hmem rfl
      refine ⟨iff_of_false hpos hp, fun _ => ⟨chain, hchain, hmem⟩, hused, fun r hr => ?_⟩
      rw [tNetbufData, if_neg hpos] at hr
      exact ⟨chain, hchain, buf.ptr, hmem, (Option.some.inj hr).symm, hused⟩

/-- `t_netbuf_alloc` is called on an empty netbuf. -/
def AllocsEmpty (u : NetbufUse) : NetbufOp → Prop
  | .alloc _ => ∀ buf ∈ u.buf, buf.p = 0
  | _ => True

/-- The first pbuf is one of the chain. -/
theorem cursorAt_first {mem : ByteMem} {buf : Netbuf}
    (h : IsList (PbufPool.links mem) (ptr buf.p) chain) : CursorAt (tNetbufFirst buf) chain := by
  cases chain with
  | nil => exact Or.inl ⟨ptr_eq_none_iff.mp h, rfl⟩
  | cons a l =>
      obtain ⟨hp, -⟩ := ptr_eq_some_iff.mp h.1
      exact Or.inr (hp ▸ List.mem_cons_self)

/-- The next pbuf is one of the chain, too. -/
theorem tNetbufNext_cursor {mem : ByteMem} {buf : Netbuf}
    (h : IsList (PbufPool.links mem) (ptr buf.p) chain) {r : UInt8 × Netbuf}
    (hnext : tNetbufNext mem buf = some r) :
    r.2.p = buf.p ∧ (CursorAt buf chain → CursorAt r.2 chain) := by
  unfold tNetbufNext at hnext
  by_cases hptr : buf.ptr = 0
  · simp [hptr] at hnext
  · by_cases hlast : (pbufHdr mem buf.ptr).next = 0
    · rw [if_neg hptr, if_pos hlast] at hnext
      obtain rfl := Option.some.inj hnext
      exact ⟨rfl, id⟩
    · have hr : r.2 = { buf with ptr := (pbufHdr mem buf.ptr).next } := by
        simp only [if_neg hptr, if_neg hlast] at hnext
        split at hnext
        · rw [← Option.some.inj hnext]
        · rw [← Option.some.inj hnext]
      rw [hr]
      refine ⟨rfl, fun hat => Or.inr ?_⟩
      have hmem := hat.resolve_left fun hbad => hptr hbad.1
      exact h.mem_next hmem (ptr_of_pos (Nat.pos_of_ne_zero hlast))

/-- `t_recv_udp` passes on the chain that it gets, or frees it, or drops it. -/
theorem tRecvUdp_owns (hpl : Placed base) {pool : PbufPool} (h : Owned base pool free chain)
    {p : Nat} (hchain : IsList (PbufPool.links pool.mem) (ptr p) chain) (hp : p ≠ 0)
    (conn : Option Bool) (block : Bool) : ∃ pool' buf free' chain',
      TTcp.tRecvUdp pool conn block p = some (pool', buf) ∧
      Owns base ⟨pool', buf⟩ free' chain' ∧ ∀ b ∈ buf, CursorAt b chain' := by
  obtain ⟨pool', hfree, howned', -⟩ := Owned.tPbufFree_chain
    (show Owned base pool free (chain ++ []) by rwa [List.append_nil]) hpl hchain
  have hfreed : (PbufPool.tPbufFree pool p).map (fun r => (r.2, (none : Option Netbuf))) =
      some (pool', none) := by rw [hfree]; rfl
  cases conn with
  | none => exact ⟨pool', none, _, [], hfreed, ⟨howned', rfl⟩, by simp⟩
  | some recvmbox =>
      cases recvmbox with
      | false => exact ⟨pool, none, free, [], rfl, ⟨h.forget, rfl⟩, by simp⟩
      | true =>
          cases block with
          | false => exact ⟨pool', none, _, [], hfreed, ⟨howned', rfl⟩, by simp⟩
          | true =>
              refine ⟨pool, some ⟨p, p⟩, free, chain, rfl, ⟨h, hchain⟩, fun b hb => Or.inr ?_⟩
              obtain rfl := Option.some.inj hb
              cases chain with
              | nil => exact absurd (ptr_eq_none_iff.mp hchain) hp
              | cons a l =>
                  obtain ⟨rfl, -⟩ := ptr_eq_some_iff.mp hchain.1
                  exact List.mem_cons_self

/-- `t_netbuf_alloc` on a netbuf returns. -/
theorem Owns.allocsEmpty_of_none (hpl : Placed base) (h : u.Owns base free chain) {op : NetbufOp}
    (he : u.exec op = none) : u.AllocsEmpty op := by
  cases op with
  | alloc size =>
      intro buf hbuf
      obtain ⟨howned, hchain⟩ := h
      rw [head, hbuf, Option.elim_some] at hchain
      obtain ⟨pool', free', halloc, -⟩ := tNetbufAlloc_eq hpl howned hchain size
      rw [NetbufUse.exec, hbuf, Option.bind_some, halloc] at he
      cases he
  | _ => trivial

/-- The chain that a call leaves, and when its cursor is with it. -/
theorem Owns.exec (hpl : Placed base) (h : u.Owns base free chain) {op : NetbufOp}
    (hop : u.Legal base op) (he : u.exec op = some u') :
    ∃ free' chain', u'.Owns base free' chain' ∧
      ((∀ buf ∈ u.buf, CursorAt buf chain) →
        ((∀ buf ∈ u'.buf, CursorAt buf chain') ↔ u.AllocsEmpty op)) := by
  obtain ⟨howned, hchain⟩ := h
  have hat : ∀ buf : Netbuf, (∀ b ∈ some buf, CursorAt b chain) → CursorAt buf chain :=
    fun buf hall => hall buf rfl
  cases op with
  | new block =>
      obtain rfl : { u with buf := tNetbufNew block } = u' := Option.some.inj he
      have hhead : head { u with buf := tNetbufNew block } = 0 := by cases block <;> rfl
      refine ⟨free, [], ⟨howned.forget, by rw [hhead]; rfl⟩, fun _ => iff_of_true ?_ trivial⟩
      cases block <;> simp [tNetbufNew, CursorAt]
  | recv conn block p =>
      obtain ⟨-, hp, free0, chain0, howned0, hchain0⟩ := hop
      obtain ⟨pool', buf, free', chain', hrecv, howns, hcursor⟩ :=
        tRecvUdp_owns hpl howned0 hchain0 hp conn block
      rw [NetbufUse.exec, hrecv] at he
      obtain rfl := Option.some.inj he
      exact ⟨free', chain', howns, fun _ => iff_of_true hcursor trivial⟩
  | alloc size =>
      cases hbuf : u.buf with
      | none => simp [NetbufUse.exec, hbuf] at he
      | some buf =>
          rw [head, hbuf, Option.elim_some] at hchain
          obtain ⟨pool', free', halloc, howned'⟩ := tNetbufAlloc_eq hpl howned hchain size
          rw [NetbufUse.exec, hbuf, Option.bind_some, halloc] at he
          obtain rfl := Option.some.inj he
          refine ⟨free', [], ⟨howned', rfl⟩, fun hall => ?_⟩
          have hnil := chain_eq_nil_iff hchain
          have hempty : u.AllocsEmpty (.alloc size) ↔ buf.p = 0 := by simp [AllocsEmpty, hbuf]
          have hafter : (∀ b ∈ some ({ buf with p := 0 } : Netbuf), CursorAt b []) ↔
              buf.ptr = 0 := by simp [CursorAt]
          rw [hempty, hafter, ← hnil]
          rcases hat buf (hbuf ▸ hall) with ⟨hptr, hc⟩ | hmem
          · exact iff_of_true hptr hc
          · have hpos := (addrs_inside (howned.mem_of_held hmem)).1
            have hbase := hpl.pos
            exact iff_of_false (by omega) (List.ne_nil_of_mem hmem)
  | free =>
      cases hbuf : u.buf with
      | none => simp [NetbufUse.exec, hbuf] at he
      | some buf =>
          rw [head, hbuf, Option.elim_some] at hchain
          obtain ⟨pool', free', hfree, howned'⟩ := pbufFreeIf_eq hpl howned hchain
          rw [NetbufUse.exec, hbuf, Option.bind_some, tNetbufFree, hfree] at he
          obtain rfl := Option.some.inj he
          exact ⟨free', [], ⟨howned', rfl⟩, fun _ => iff_of_true (by simp [CursorAt]) trivial⟩
  | first =>
      cases hbuf : u.buf with
      | none => simp [NetbufUse.exec, hbuf] at he
      | some buf =>
          rw [NetbufUse.exec, hbuf] at he
          obtain rfl := Option.some.inj he
          rw [head, hbuf, Option.elim_some] at hchain
          refine ⟨free, chain, ⟨howned, hchain⟩, fun _ => iff_of_true (fun b hb => ?_) trivial⟩
          obtain rfl := Option.some.inj hb
          exact cursorAt_first hchain
  | next =>
      cases hbuf : u.buf with
      | none => simp [NetbufUse.exec, hbuf] at he
      | some buf =>
          rw [NetbufUse.exec, hbuf, Option.bind_some] at he
          rw [head, hbuf, Option.elim_some] at hchain
          cases hnext : tNetbufNext u.pool.mem buf with
          | none => rw [hnext] at he; cases he
          | some r =>
              rw [hnext] at he
              obtain rfl := Option.some.inj he
              obtain ⟨hp, hcursor⟩ := tNetbufNext_cursor hchain hnext
              refine ⟨free, chain, ⟨howned, ?_⟩, fun hall => iff_of_true (fun b hb => ?_) trivial⟩
              · rw [← hp] at hchain
                exact hchain
              · obtain rfl := Option.some.inj hb
                exact hcursor (hat buf (hbuf ▸ hall))
  | data =>
      cases hbuf : u.buf with
      | none => simp [NetbufUse.exec, hbuf] at he
      | some buf =>
          rw [NetbufUse.exec, hbuf] at he
          obtain rfl := Option.some.inj he
          exact ⟨free, chain, ⟨howned, hchain⟩, fun hall => iff_of_true (hbuf ▸ hall) trivial⟩
  | delete =>
      obtain ⟨pool', free', hfree, howned'⟩ : ∃ pool' free', tNetbufDelete u.pool u.buf =
          some pool' ∧ Owned base pool' free' [] := by
        cases hbuf : u.buf with
        | none => exact ⟨u.pool, free, rfl, howned.forget⟩
        | some buf =>
            rw [head, hbuf, Option.elim_some] at hchain
            exact pbufFreeIf_eq hpl howned hchain
      rw [NetbufUse.exec, hfree] at he
      obtain rfl := Option.some.inj he
      exact ⟨free', [], ⟨howned', rfl⟩, fun _ => iff_of_true (by simp) trivial⟩
  | other pool =>
      obtain rfl := Option.some.inj he
      obtain ⟨free', howns⟩ := hop free chain ⟨howned, hchain⟩
      exact ⟨free', chain, howns, fun hall => iff_of_true hall trivial⟩

/-! ## runs -/

/-- Calls one after the other, as long as they return. -/
def step (o : Option NetbufUse) (op : NetbufOp) : Option NetbufUse := o.bind fun u => u.exec op

/-- A condition on calls, where there is one. -/
def Ok (ok : NetbufUse → NetbufOp → Prop) (o : Option NetbufUse) (op : NetbufOp) : Prop :=
  ∀ u ∈ o, ok u op

/-- The cursor of the netbuf is with its chain, if there is a netbuf. -/
def Cursors (o : Option NetbufUse) : Prop := ∀ u ∈ o, ∀ buf ∈ u.buf, u.CursorOk buf

/-- A user without a netbuf, and a pool in order. -/
structure Start (base : Nat) (u : NetbufUse) : Prop where
  buf : u.buf = none
  pool : ∃ free, Owned base u.pool free []

/-- The pool is in order, also after a call. -/
def Ordered (base : Nat) (o : Option NetbufUse) : Prop :=
  ∀ u ∈ o, ∃ free chain, u.Owns base free chain

theorem Start.ordered {base : Nat} {u : NetbufUse} (h : u.Start base) : Ordered base (some u) := by
  rintro _ ⟨⟩
  obtain ⟨free, howned⟩ := h.pool
  exact ⟨free, [], howned, by rw [head, h.buf]; rfl⟩

theorem Ordered.step (hpl : Placed base) {o : Option NetbufUse} {op : NetbufOp}
    (h : Ordered base o) (hop : Ok (Legal base) o op) : Ordered base (NetbufUse.step o op) := by
  intro u' hu'
  obtain ⟨u, rfl, he⟩ := Option.bind_eq_some_iff.mp hu'
  obtain ⟨free, chain, howns⟩ := h u rfl
  obtain ⟨free', chain', howns', -⟩ := howns.exec hpl (hop u rfl) he
  exact ⟨free', chain', howns'⟩

/-- A call keeps the cursor with the chain exactly when it is not `t_netbuf_alloc` on a
netbuf with a chain. -/
theorem Ordered.cursors_iff (hpl : Placed base) {o : Option NetbufUse} {op : NetbufOp}
    (h : Ordered base o) (hop : Ok (Legal base) o op) (hcur : Cursors o) :
    Cursors (NetbufUse.step o op) ↔ Ok AllocsEmpty o op := by
  cases o with
  | none => exact iff_of_true (fun _ hu => by cases hu) fun _ hu => by cases hu
  | some u =>
      obtain ⟨free, chain, howns⟩ := h u rfl
      have hat : ∀ buf ∈ u.buf, CursorAt buf chain := fun buf hbuf =>
        (howns.cursorOk_iff hpl hbuf).mp (hcur u rfl buf hbuf)
      have hok : Ok AllocsEmpty (some u) op ↔ u.AllocsEmpty op :=
        ⟨fun h => h u rfl, fun h _ hu => Option.some.inj hu ▸ h⟩
      rw [hok]
      cases he : u.exec op with
      | none =>
          refine iff_of_true (fun u' hu' => ?_) (howns.allocsEmpty_of_none hpl he)
          rw [NetbufUse.step, Option.bind_some, he] at hu'
          cases hu'
      | some u' =>
          obtain ⟨free', chain', howns', hiff⟩ := howns.exec hpl (hop u rfl) he
          rw [← hiff hat]
          have hstep : NetbufUse.step (some u) op = some u' := he
          rw [hstep]
          constructor
          · exact fun hc buf hbuf => (howns'.cursorOk_iff hpl hbuf).mp (hc u' rfl buf hbuf)
          · rintro hc _ ⟨⟩ buf hbuf
            exact (howns'.cursorOk_iff hpl hbuf).mpr (hc buf hbuf)

/-- **The cursor** stays with the chain all along a run exactly when `t_netbuf_alloc` is
called on empty netbufs only. -/
theorem cursor_iff (hpl : Placed base) (hu : u.Start base) {ops : List NetbufOp}
    (hl : Run.Along step (Ok (Legal base)) (some u) ops) :
    Run.Throughout step Cursors (some u) ops ↔ Run.Along step (Ok AllocsEmpty) (some u) ops :=
  Run.throughout_iff_along_of_invariant (fun _ _ h hop => h.step hpl hop)
    (fun _ _ h hop hc => h.cursors_iff hpl hop hc) hu.ordered
    (by rintro _ ⟨⟩ buf hbuf; rw [hu.buf] at hbuf; cases hbuf) hl

/-! ## a received pbuf -/

/-- Receive a pbuf, and call `t_netbuf_alloc`. -/
def recvAlloc (p : Nat) : List NetbufOp := [.recv (some true) true p, .alloc 10]

section
variable {base p : Nat} {pool : PbufPool} {free : List Nat} (h : Owned base pool free [p])
include h

theorem start_of_owned : Start base ⟨pool, none⟩ := ⟨rfl, free, h.forget⟩

theorem recvAlloc_legal (hp : p ≠ 0) (hchain : IsList (PbufPool.links pool.mem) (ptr p) [p]) :
    Run.Along step (Ok (Legal base)) (some ⟨pool, none⟩) (recvAlloc p) := by
  refine ⟨?_, ?_, trivial⟩
  · rintro _ ⟨⟩
    exact ⟨rfl, hp, free, [p], h, hchain⟩
  · rintro _ ⟨⟩
    trivial

/-- The cursor is still at the pbuf then, which is free. -/
theorem recvAlloc_not_cursors (hpl : Placed base) (hp : p ≠ 0)
    (hchain : IsList (PbufPool.links pool.mem) (ptr p) [p]) :
    ¬ Run.Throughout step Cursors (some ⟨pool, none⟩) (recvAlloc p) := by
  rintro ⟨-, hrecv, halloc⟩
  have hlegal := recvAlloc_legal h hp hchain
  have hord := (start_of_owned h).ordered.step hpl hlegal.1
  have hempty := (hord.cursors_iff hpl hlegal.2.1 hrecv).mp halloc
  exact hp (hempty _ rfl _ rfl)

end

/-- The pool after `t_pbuf_init` and one allocation. -/
def samplePool : PbufPool :=
  ((PbufPool.tPbufAlloc (PbufPool.tPbufInit 4096 ⟨fun _ => 0xff, 0⟩) 34 10 1).getD
    (0, ⟨fun _ => 0, 0⟩)).2

/-- Its first pbuf is in use, and alone. -/
theorem samplePool_owned : ∃ free, free.length = 29 ∧ Owned 4096 samplePool free [4096] ∧
    IsList (PbufPool.links samplePool.mem) (ptr 4096) [4096] := by
  obtain ⟨mem, halloc⟩ := sample_alloc ⟨fun _ => 0xff, 0⟩
  obtain ⟨u, free, hexec, hinv⟩ := (sample_placed.init ⟨fun _ => 0xff, 0⟩).alloc 34 10 1
  rw [Use.exec, halloc] at hexec
  obtain rfl := Option.some.inj hexec
  have hpool : samplePool =
      ⟨mem, (pbufHdr (PbufPool.tPbufInit 4096 ⟨fun _ => 0xff, 0⟩).mem 4096).next⟩ := by
    rw [samplePool, halloc]
    rfl
  have hlive : 4096 ∈ [4096] := List.mem_singleton_self _
  have hlen := hinv.pbufs.length_eq
  rw [List.length_append, length_addrs] at hlen
  rw [hpool]
  refine ⟨free, Nat.succ.inj hlen, hinv.owned hlive, rfl, ?_⟩
  rw [PbufPool.links, hinv.next 4096 hlive]
  rfl

theorem cursor_iff_sample :
    Run.Throughout step Cursors (some ⟨samplePool, none⟩) (recvAlloc 4096) ↔
      Run.Along step (Ok AllocsEmpty) (some ⟨samplePool, none⟩) (recvAlloc 4096) := by
  obtain ⟨free, -, howned, hchain⟩ := samplePool_owned
  exact cursor_iff sample_placed (start_of_owned howned)
    (recvAlloc_legal howned (by decide) hchain)

theorem not_cursors : ¬ ∀ (base : Nat) (u : NetbufUse) (ops : List NetbufOp), Placed base →
    u.Start base → Run.Along step (Ok (Legal base)) (some u) ops →
      Run.Throughout step Cursors (some u) ops := by
  intro hall
  obtain ⟨free, -, howned, hchain⟩ := samplePool_owned
  exact recvAlloc_not_cursors howned sample_placed (by decide) hchain
    (hall 4096 ⟨samplePool, none⟩ (recvAlloc 4096) sample_placed (start_of_owned howned)
      (recvAlloc_legal howned (by decide) hchain))

end NetbufUse

end TTcp
