import TTcp.Memp

/-!
# TTcp.Api.Message

The messages of the API (`api/t_api_lib.c`, `api/t_sockets.c`, `api/t_tcpip.c`).

A client takes a `T_MEMP_API_MSG` block, posts it to the stack, waits, and gives the
block back.  To post it, `t_tcpip_apimsg` needs a block of another pool, and when
there is none it gives the message back itself, behind the client's back.  The client
waits for something to come into the mailbox of its connection, but no function posts
there: `t_tcpip_task` drops the message, as the call of `t_api_msg_input` is commented
out.  So a client goes on only when its mailbox was not empty before, or none, and
else its message is never given back.

Clients and all other threads take their steps in any order; a call of the allocator
is one step.
-/

namespace TTcp

open PtrList

/-! ## clients -/

/-- Where a client stands in `t_netconn_new_with_proto_and_callback` or
`t_netconn_connect`, with the blocks it holds: `conn` is the connection that the
former has made, `msg` the message. -/
inductive ApiPc where
  /-- in no call -/
  | idle
  /-- before `t_sys_mbox_new` -/
  | mbox (conn : Nat)
  /-- before `t_memp_free(T_MEMP_NETCONN, conn)` -/
  | dropConn (conn : Nat)
  /-- before `t_memp_malloc(T_MEMP_API_MSG)` -/
  | msg (conn : Option Nat)
  /-- in `t_tcpip_apimsg`, before its `t_memp_malloc` -/
  | post (conn : Option Nat) (msg : Nat)
  /-- in `t_tcpip_apimsg`, before its `t_memp_free` -/
  | refused (conn : Option Nat) (msg : Nat)
  /-- in `t_tcpip_apimsg`, before `t_sys_mbox_post` -/
  | send (conn : Option Nat) (msg tcpipMsg : Nat)
  /-- in `t_sys_mbox_fetch` -/
  | fetch (conn : Option Nat) (msg : Nat)
  /-- before `t_memp_free(T_MEMP_API_MSG, msg)` -/
  | free (conn : Option Nat) (msg : Nat)
  /-- before the test of `conn->err` -/
  | err (conn : Nat)
deriving DecidableEq

namespace ApiPc

/-- The message that the client holds. -/
@[simp] def msg? : ApiPc → Option Nat
  | .post _ m | .refused _ m | .send _ m _ | .fetch _ m | .free _ m => some m
  | _ => none

/-- The connection that the client holds. -/
@[simp] def conn? : ApiPc → Option Nat
  | .mbox c | .dropConn c | .err c => some c
  | .msg c | .post c _ | .refused c _ | .send c _ _ | .fetch c _ | .free c _ => c
  | .idle => none

/-- The message to the stack that the client holds. -/
@[simp] def tcpipMsg? : ApiPc → Option Nat
  | .send _ _ t => some t
  | _ => none

/-- The block of a type that the client holds. -/
@[simp] def block? (pc : ApiPc) : MempT → Option Nat
  | .apiMsg => pc.msg?
  | .netconn => pc.conn?
  | .tcpipMsg => pc.tcpipMsg?
  | _ => none

end ApiPc

/-- The pools, and the clients.  `mail` says, for the last call of a client, whether
its `t_sys_mbox_fetch` returns: `conn->mbox` is `T_SYS_MBOX_NULL`, or the queue holds
something from before.  `taken` and `returned` count the messages that it took from
the pool in that call and that were given back. -/
structure ApiUse where
  memp : MempUse
  client : Nat → ApiPc
  mail : Nat → Bool
  taken : Nat → Nat
  returned : Nat → Nat

/-- A step of the system: a client begins a call, or goes on with it, or another
thread uses the pools.  `mail` is what the mailbox of the connection has in it, and
`ok` what the rest of the program decides: whether there is a mailbox, or `conn->err`
is 0. -/
inductive ApiOp where
  | new (i : Nat) (mail : Bool)
  | connect (i : Nat) (ok mail : Bool)
  | next (i : Nat) (ok : Bool)
  | other (op : MempOp)

namespace ApiUse

/-- Client `i` goes on at `pc`. -/
def setPc (s : ApiUse) (i : Nat) (pc : ApiPc) : ApiUse :=
  { s with client := Function.update s.client i pc }

/-- Client `i` takes a block, if there is one, and goes on with it. -/
def malloc (s : ApiUse) (i : Nat) (t : MempT) (pc : Nat → ApiPc) : ApiUse :=
  let m := (tMempMalloc s.memp.memp t).1
  { s with
    memp := s.memp.step (.malloc t)
    client := Function.update s.client i (pc m)
    taken := if t = .apiMsg ∧ m ≠ 0 then Function.update s.taken i (s.taken i + 1) else s.taken }

/-- Client `i` gives a block back, and goes on. -/
def free (s : ApiUse) (i : Nat) (t : MempT) (m : Nat) (pc : ApiPc) : ApiUse :=
  { s with
    memp := s.memp.step (.free t m)
    client := Function.update s.client i pc
    returned := if t = .apiMsg then Function.update s.returned i (s.returned i + 1)
      else s.returned }

/-- Client `i` begins a call. -/
def begin (s : ApiUse) (i : Nat) (mail : Bool) : ApiUse :=
  { s with
    mail := Function.update s.mail i mail
    taken := Function.update s.taken i 0
    returned := Function.update s.returned i 0 }

/-- The next step of client `i`. -/
def next (s : ApiUse) (i : Nat) (ok : Bool) : ApiUse :=
  match s.client i with
  | .idle => s
  | .mbox conn => s.setPc i (if ok then .msg (some conn) else .dropConn conn)
  | .dropConn conn => s.free i .netconn conn .idle
  | .msg conn => s.malloc i .apiMsg fun m =>
      if m ≠ 0 then .post conn m else conn.elim .idle .dropConn
  | .post conn msg => s.malloc i .tcpipMsg fun m =>
      if m ≠ 0 then .send conn msg m else .refused conn msg
  | .refused conn msg => s.free i .apiMsg msg (.fetch conn msg)
  | .send conn msg _ => s.setPc i (.fetch conn msg)
  -- nothing ever comes into a mailbox that is empty
  | .fetch conn msg => if s.mail i then s.setPc i (.free conn msg) else s
  | .free conn msg => s.free i .apiMsg msg (conn.elim .idle .err)
  | .err conn => s.setPc i (if ok then .idle else .dropConn conn)

/-- A step. -/
def step (s : ApiUse) : ApiOp → ApiUse
  | .new i mail => (s.begin i mail).malloc i .netconn fun m => if m ≠ 0 then .mbox m else .idle
  | .connect i ok mail => (s.begin i mail).setPc i (if ok then .msg none else .idle)
  | .next i ok => s.next i ok
  | .other op => { s with memp := s.memp.step op }

/-- A client begins a call when it is in none, and the other threads give back what
they hold and keep to the blocks that are in use. -/
def Legal (sizes : MempSizes) (s : ApiUse) : ApiOp → Prop
  | .new i _ => s.client i = .idle
  | .connect i _ _ => s.client i = .idle
  | .next _ _ => True
  | .other (.malloc _) => True
  | .other (.free t m) => m ∈ s.memp.live t ∧ ∀ i, (s.client i).block? t ≠ some m
  | .other (.write addr value) => s.memp.Legal sizes (.write addr value)

/-- Client `i` does not go on by itself: it is in no call, or waits for ever. -/
def Stands (s : ApiUse) (i : Nat) : Prop :=
  match s.client i with
  | .idle => True
  | .fetch _ _ => s.mail i = false
  | _ => False

/-- The messages of client `i` are given back once at most: the one that it holds is in
use, and in no other hands, and was not given back; those that it no longer holds
were. -/
structure ReturnsAtMostOnce (s : ApiUse) (i : Nat) : Prop where
  live : ∀ m, (s.client i).msg? = some m → m ∈ s.memp.live .apiMsg
  own : ∀ m, (s.client i).msg? = some m → ∀ j, (s.client j).msg? = some m → j = i
  held : (s.client i).msg?.isSome → s.taken i = 1 ∧ s.returned i = 0
  done : (s.client i).msg? = none → s.returned i = s.taken i ∧ s.taken i ≤ 1

/-- The messages of client `i` are given back once: at most once, and those that it took
were given back when it has gone on as far as it does. -/
structure ReturnsOnce (s : ApiUse) (i : Nat) : Prop extends s.ReturnsAtMostOnce i where
  stands : s.Stands i → s.returned i = s.taken i

end ApiUse

/-! ## one step -/

/-- What the counts of a client say at `pc`: nothing taken yet, one message in its
hands, or as many given back as taken. -/
def ApiPc.Counts : ApiPc → Nat → Nat → Prop
  | .mbox _, taken, returned | .msg _, taken, returned => taken = 0 ∧ returned = 0
  | .post _ _, taken, returned | .refused _ _, taken, returned | .send _ _ _, taken, returned
  | .fetch _ _, taken, returned | .free _ _, taken, returned => taken = 1 ∧ returned = 0
  | .idle, taken, returned | .dropConn _, taken, returned | .err _, taken, returned =>
      returned = taken ∧ taken ≤ 1

theorem ApiPc.Counts.held {pc : ApiPc} {taken returned : Nat} (h : pc.Counts taken returned)
    (hm : pc.msg?.isSome) : taken = 1 ∧ returned = 0 := by
  cases pc <;> first | exact h | simp at hm

theorem ApiPc.Counts.done {pc : ApiPc} {taken returned : Nat} (h : pc.Counts taken returned)
    (hm : pc.msg? = none) : returned = taken ∧ taken ≤ 1 := by
  cases pc with
  | mbox _ => exact ⟨h.2.trans h.1.symm, h.1.le.trans zero_le_one⟩
  | msg _ => exact ⟨h.2.trans h.1.symm, h.1.le.trans zero_le_one⟩
  | idle => exact h
  | dropConn _ => exact h
  | err _ => exact h
  | _ => simp at hm

namespace MempInv

variable {sizes : MempSizes} {base : Nat} {u : MempUse} {free : MempT → List Nat}

/-- A block that `t_memp_malloc` finds is new, and in use from then on. -/
theorem malloc_live (h : MempInv sizes base u free) {t : MempT} {m : Nat}
    (hm : (tMempMalloc u.memp t).1 = m) (hne : m ≠ 0) :
    (u.step (.malloc t)).live = Function.update u.live t (m :: u.live t) ∧ m ∉ u.live t := by
  have hlive : (u.step (.malloc t)).live = Function.update u.live t (m :: u.live t) := by
    rw [MempUse.step]
    simp only [hm, ne_eq, hne, not_false_eq_true, ↓reduceIte]
  have hnd := ((h.malloc t).blocks t).nodup_iff.mpr (nodup_mempBlocks sizes base t)
  rw [hlive, Function.update_self] at hnd
  exact ⟨hlive, (List.nodup_cons.mp (List.nodup_append.mp hnd).2.1).1⟩

/-- When there is none, nothing changes. -/
theorem malloc_none {t : MempT} (hm : (tMempMalloc u.memp t).1 = 0) :
    u.step (.malloc t) = u := by
  have htab : u.memp.mempTab t = 0 := by
    by_contra hne
    rw [tMempMalloc, if_pos hne] at hm
    simp [sizeofTMemp] at hm
  rw [MempUse.step, tMempMalloc, if_neg (by simpa using htab)]
  rfl

end MempInv

namespace ApiUse

variable {sizes : MempSizes} {base : Nat} {s s' : ApiUse} {i : Nat} {pc : ApiPc}

/-- The pools are in order, each client holds blocks that are in use and that no other
client holds, and the counts are right. -/
structure Good (sizes : MempSizes) (base : Nat) (s : ApiUse) : Prop where
  inv : ∃ free, MempInv sizes base s.memp free
  live : ∀ i t m, (s.client i).block? t = some m → m ∈ s.memp.live t
  own : ∀ i j t m, (s.client i).block? t = some m → (s.client j).block? t = some m → i = j
  counts : ∀ i, (s.client i).Counts (s.taken i) (s.returned i)

theorem Good.returnsAtMostOnce (h : Good sizes base s) (i : Nat) : s.ReturnsAtMostOnce i where
  live m hm := h.live i .apiMsg m hm
  own m hm j hj := h.own j i .apiMsg m hj hm
  held := (h.counts i).held
  done := (h.counts i).done

/-- A step of client `i` to `pc` that leaves the blocks of the others in use, and takes
none of them. -/
theorem Good.update (h : Good sizes base s) (hclient : s'.client = Function.update s.client i pc)
    (hothers : ∀ j, j ≠ i → s'.taken j = s.taken j ∧ s'.returned j = s.returned j)
    (hcounts : pc.Counts (s'.taken i) (s'.returned i))
    (hinv : ∃ free, MempInv sizes base s'.memp free)
    (hlive : ∀ j, j ≠ i → ∀ t m, (s.client j).block? t = some m → m ∈ s'.memp.live t)
    (hpc : ∀ t m, pc.block? t = some m →
      m ∈ s'.memp.live t ∧ ∀ j, j ≠ i → (s.client j).block? t ≠ some m) :
    Good sizes base s' := by
  have hself : s'.client i = pc := by rw [hclient, Function.update_self]
  have hother : ∀ j, j ≠ i → s'.client j = s.client j := fun j hj => by
    rw [hclient, Function.update_of_ne hj]
  refine ⟨hinv, fun j t m hm => ?_, fun j k t m hj hk => ?_, fun j => ?_⟩
  · by_cases hji : j = i
    · rw [hji, hself] at hm
      exact (hpc t m hm).1
    · rw [hother j hji] at hm
      exact hlive j hji t m hm
  · by_cases hji : j = i
    · by_cases hki : k = i
      · rw [hji, hki]
      · rw [hji, hself] at hj
        rw [hother k hki] at hk
        exact absurd hk ((hpc t m hj).2 k hki)
    · rw [hother j hji] at hj
      by_cases hki : k = i
      · rw [hki, hself] at hk
        exact absurd hj ((hpc t m hk).2 j hji)
      · rw [hother k hki] at hk
        exact h.own j k t m hj hk
  · by_cases hji : j = i
    · rw [hji, hself]
      exact hcounts
    · rw [hother j hji, (hothers j hji).1, (hothers j hji).2]
      exact h.counts j

/-- The client goes on with blocks that it has. -/
theorem Good.setPc (h : Good sizes base s)
    (hpc : ∀ t m, pc.block? t = some m → (s.client i).block? t = some m)
    (hcounts : pc.Counts (s.taken i) (s.returned i)) : Good sizes base (s.setPc i pc) :=
  h.update rfl (fun _ _ => ⟨rfl, rfl⟩) hcounts h.inv (fun j _ t m hm => h.live j t m hm)
    fun t m hm => ⟨h.live i t m (hpc t m hm), fun j hj hbad => hj (h.own j i t m hbad (hpc t m hm))⟩

/-- A client that is in no call begins one. -/
theorem Good.begin (h : Good sizes base s) (hidle : s.client i = .idle) (mail : Bool) :
    Good sizes base (s.begin i mail) := by
  have hnone : ∀ t m, ApiPc.idle.block? t ≠ some m := fun t m => by cases t <;> simp
  have hclient : (s.begin i mail).client = Function.update s.client i .idle := by
    rw [← hidle, Function.update_eq_self]
    rfl
  refine h.update hclient (fun j hj => ⟨?_, ?_⟩) ?_ h.inv
    (fun j _ t m hm => h.live j t m hm) fun t m hm => absurd hm (hnone t m)
  · exact Function.update_of_ne hj _ _
  · exact Function.update_of_ne hj _ _
  · simp [ApiUse.begin, ApiPc.Counts]

/-- The client takes a block, if there is one, and keeps what it has. -/
theorem Good.malloc (h : Good sizes base s) {t : MempT} {pc : Nat → ApiPc}
    (hnone : ∀ t' b, (pc 0).block? t' = some b → (s.client i).block? t' = some b)
    (hsome : ∀ m t' b, (pc m).block? t' = some b →
      t' = t ∧ b = m ∨ (s.client i).block? t' = some b)
    (hcounts : ∀ m, (pc m).Counts
      (if t = .apiMsg ∧ m ≠ 0 then s.taken i + 1 else s.taken i) (s.returned i)) :
    Good sizes base (s.malloc i t pc) := by
  obtain ⟨free, hinv⟩ := h.inv
  obtain ⟨m, hm⟩ : ∃ m, (tMempMalloc s.memp.memp t).1 = m := ⟨_, rfl⟩
  have htaken : (s.malloc i t pc).taken i =
      if t = .apiMsg ∧ m ≠ 0 then s.taken i + 1 else s.taken i := by
    simp only [ApiUse.malloc, hm]
    split <;> simp
  have hold : ∀ t' b, b ∈ s.memp.live t' → b ∈ (s.memp.step (.malloc t)).live t' := by
    intro t' b hb
    by_cases hzero : m = 0
    · rwa [MempInv.malloc_none (hm.trans hzero)]
    · rw [(hinv.malloc_live hm hzero).1]
      by_cases ht : t' = t
      · subst ht
        rw [Function.update_self]
        exact List.mem_cons_of_mem m hb
      · rwa [Function.update_of_ne ht]
  have hclient : (s.malloc i t pc).client = Function.update s.client i (pc m) := by
    simp only [ApiUse.malloc, hm]
  refine h.update hclient (fun j hj => ⟨?_, rfl⟩)
    (htaken ▸ hcounts m) ⟨_, hinv.malloc t⟩ (fun j _ t' b hb => hold t' b (h.live j t' b hb))
    fun t' b hb => ?_
  · simp only [ApiUse.malloc]
    split
    · rw [Function.update_of_ne hj]
    · rfl
  · have hkeep : (s.client i).block? t' = some b → b ∈ (s.memp.step (.malloc t)).live t' ∧
        ∀ j, j ≠ i → (s.client j).block? t' ≠ some b := fun hb =>
      ⟨hold t' b (h.live i t' b hb), fun j hj hbad => hj (h.own j i t' b hbad hb)⟩
    by_cases hzero : m = 0
    · rw [hzero] at hb
      exact hkeep (hnone t' b hb)
    · rcases hsome m t' b hb with ⟨rfl, rfl⟩ | hb
      · obtain ⟨hlive, hnew⟩ := hinv.malloc_live hm hzero
        refine ⟨?_, fun j _ hbad => hnew (h.live j t' b hbad)⟩
        simp only [ApiUse.malloc, hlive, Function.update_self, List.mem_cons_self]
      · exact hkeep hb

/-- The client gives a block back that it has, and keeps others. -/
theorem Good.free (hpl : MempPlaced sizes base) (h : Good sizes base s) {t : MempT} {m : Nat}
    (hm : (s.client i).block? t = some m)
    (hpc : ∀ t' b, pc.block? t' = some b → t' ≠ t ∧ (s.client i).block? t' = some b)
    (hcounts : pc.Counts (s.taken i) (if t = .apiMsg then s.returned i + 1 else s.returned i)) :
    Good sizes base (s.free i t m pc) := by
  obtain ⟨free, hinv⟩ := h.inv
  have hreturned : (s.free i t m pc).returned i =
      if t = .apiMsg then s.returned i + 1 else s.returned i := by
    simp only [ApiUse.free]
    split <;> simp
  have hkeep : ∀ t' b, b ∈ s.memp.live t' → (t' = t → b ≠ m) →
      b ∈ (s.memp.step (.free t m)).live t' := by
    intro t' b hb hne
    rw [MempUse.step]
    by_cases ht : t' = t
    · subst ht
      simp only [Function.update_self]
      exact (List.mem_erase_of_ne (hne rfl)).mpr hb
    · simpa only [Function.update_of_ne ht] using hb
  have hclient : (s.free i t m pc).client = Function.update s.client i pc := rfl
  refine h.update hclient (fun j hj => ⟨rfl, ?_⟩) (hreturned ▸ hcounts)
    ⟨_, hinv.freeBlock hpl (h.live i t m hm)⟩ (fun j hj t' b hb => ?_) fun t' b hb => ?_
  · simp only [ApiUse.free]
    split
    · rw [Function.update_of_ne hj]
    · rfl
  · refine hkeep t' b (h.live j t' b hb) ?_
    rintro rfl rfl
    exact hj (h.own j i t' b hb hm)
  · obtain ⟨hne, hb⟩ := hpc t' b hb
    exact ⟨hkeep t' b (h.live i t' b hb) fun ht => absurd ht hne,
      fun j hj hbad => hj (h.own j i t' b hbad hb)⟩

/-- What other threads do. -/
theorem Good.other (hpl : MempPlaced sizes base) (h : Good sizes base s) {op : MempOp}
    (hop : s.Legal sizes (.other op)) : Good sizes base (s.step (.other op)) := by
  obtain ⟨free, hinv⟩ := h.inv
  have hlegal : s.memp.Legal sizes op := by
    cases op with
    | malloc t => trivial
    | free t m => exact hop.1
    | write addr value => exact hop
  refine ⟨⟨_, hinv.step hpl hlegal⟩, fun j t m hm => ?_, h.own, h.counts⟩
  have hlive := h.live j t m hm
  cases op with
  | malloc t' =>
      by_cases hzero : (tMempMalloc s.memp.memp t').1 = 0
      · rw [step, MempInv.malloc_none hzero]
        exact hlive
      · simp only [step, (hinv.malloc_live rfl hzero).1]
        by_cases ht : t = t'
        · subst ht
          rw [Function.update_self]
          exact List.mem_cons_of_mem _ hlive
        · rwa [Function.update_of_ne ht]
  | free t' m' =>
      simp only [step, MempUse.step]
      by_cases ht : t = t'
      · subst ht
        rw [Function.update_self]
        refine (List.mem_erase_of_ne ?_).mpr hlive
        rintro rfl
        exact hop.2 j hm
      · rwa [Function.update_of_ne ht]
  | write addr value => exact hlive

/-- Client `i` is not about to give back its message in `t_tcpip_apimsg`. -/
def NotRefused (s : ApiUse) : ApiOp → Prop
  | .next i _ => ∀ conn msg, s.client i ≠ .refused conn msg
  | _ => True

/-- The next step of a client is good, but for that one. -/
theorem Good.next (hpl : MempPlaced sizes base) (h : Good sizes base s) (i : Nat) (ok : Bool)
    (hok : s.NotRefused (.next i ok)) : Good sizes base (s.next i ok) := by
  have hcount := h.counts i
  unfold ApiUse.next
  cases hc : s.client i with
  | idle => exact h
  | mbox conn =>
      rw [hc] at hcount
      cases ok with
      | true => exact h.setPc (fun t m hm => by cases t <;> simp_all) hcount
      | false =>
          refine h.setPc (fun t m hm => by cases t <;> simp_all) ?_
          exact ⟨hcount.2.trans hcount.1.symm, hcount.1.le.trans zero_le_one⟩
  | dropConn conn =>
      rw [hc] at hcount
      exact h.free hpl (by simp [hc]) (fun t m hm => by cases t <;> simp_all) hcount
  | msg conn =>
      rw [hc] at hcount
      obtain ⟨htaken, hreturned⟩ := hcount
      refine h.malloc (fun t m hm => ?_) (fun m t b hb => ?_) fun m => ?_
      · cases conn <;> cases t <;> simp_all
      · by_cases hm : m = 0 <;> cases conn <;> cases t <;> simp_all
      · rw [htaken, hreturned]
        by_cases hm : m = 0
        · cases conn <;> simp [hm, ApiPc.Counts]
        · simp [hm, ApiPc.Counts]
  | post conn msg =>
      rw [hc] at hcount
      refine h.malloc (fun t m hm => ?_) (fun m t b hb => ?_) fun m => ?_
      · cases t <;> simp_all
      · by_cases hm : m = 0 <;> cases t <;> simp_all
      · by_cases hm : m = 0
        · simpa [hm, ApiPc.Counts] using hcount
        · simpa [hm, ApiPc.Counts] using hcount
  | refused conn msg => exact absurd hc (hok conn msg)
  | send conn msg tcpipMsg =>
      rw [hc] at hcount
      exact h.setPc (fun t m hm => by cases t <;> simp_all) hcount
  | fetch conn msg =>
      rw [hc] at hcount
      dsimp only
      split
      · exact h.setPc (fun t m hm => by cases t <;> simp_all) hcount
      · exact h
  | free conn msg =>
      rw [hc] at hcount
      obtain ⟨htaken, hreturned⟩ := hcount
      refine h.free hpl (by simp [hc]) (fun t m hm => ?_) ?_
      · cases conn <;> cases t <;> simp_all
      · rw [htaken, hreturned]
        cases conn <;> simp [ApiPc.Counts]
  | err conn =>
      rw [hc] at hcount
      cases ok with
      | true => exact h.setPc (fun t m hm => by cases t <;> simp_all) hcount
      | false => exact h.setPc (fun t m hm => by cases t <;> simp_all) hcount

/-- A call of `t_netconn_new_with_proto_and_callback` begins. -/
theorem Good.new (h : Good sizes base s) (hidle : s.client i = .idle) (mail : Bool) :
    Good sizes base (s.step (.new i mail)) := by
  have hbegin : Good sizes base (s.begin i mail) := h.begin hidle mail
  have hstep : s.step (.new i mail) =
      (s.begin i mail).malloc i .netconn fun m => if m ≠ 0 then .mbox m else .idle := rfl
  rw [hstep]
  refine hbegin.malloc (fun t m hm => ?_) (fun m t b hb => ?_) fun m => ?_
  · cases t <;> simp at hm
  · by_cases hm : m = 0 <;> cases t <;> simp_all
  · by_cases hm : m = 0 <;> simp [hm, ApiPc.Counts, ApiUse.begin]

/-- A call of `t_netconn_connect` begins. -/
theorem Good.connect (h : Good sizes base s) (hidle : s.client i = .idle) (ok mail : Bool) :
    Good sizes base (s.step (.connect i ok mail)) := by
  refine (h.begin hidle mail).setPc (fun t m hm => ?_) ?_
  · cases ok <;> cases t <;> simp at hm
  · cases ok <;> simp [ApiPc.Counts, ApiUse.begin]

/-- Every step is good, but for that one. -/
theorem Good.step (hpl : MempPlaced sizes base) (h : Good sizes base s) {op : ApiOp}
    (hop : s.Legal sizes op) (hok : s.NotRefused op) : Good sizes base (s.step op) := by
  cases op with
  | new i mail => exact h.new hop mail
  | connect i ok mail => exact h.connect hop ok mail
  | next i ok => exact h.next hpl i ok hok
  | other op => exact h.other hpl hop

/-- That one takes the message out of the client's hands. -/
theorem Good.not_refused (h : Good sizes base s) {ok : Bool}
    (hstep : (s.step (.next i ok)).ReturnsAtMostOnce i) (conn : Option Nat) (msg : Nat) :
    s.client i ≠ .refused conn msg := by
  intro hc
  have hcount := h.counts i
  rw [hc] at hcount
  have hnext : s.step (.next i ok) = s.free i .apiMsg msg (.fetch conn msg) := by
    rw [ApiUse.step, ApiUse.next, hc]
  have hheld := (hstep.held (by rw [hnext]; simp [ApiUse.free])).2
  rw [hnext] at hheld
  simp [ApiUse.free] at hheld

/-! ## runs -/

/-- No client is in a call. -/
def start (u : MempUse) : ApiUse := ⟨u, fun _ => .idle, fun _ => false, fun _ => 0, fun _ => 0⟩

theorem good_start {u : MempUse} {free : MempT → List Nat} (h : MempInv sizes base u free) :
    Good sizes base (start u) := by
  have hnone : ∀ t m, ApiPc.idle.block? t ≠ some m := fun t m => by cases t <;> simp
  exact ⟨⟨free, h⟩, fun _ t m hm => absurd hm (hnone t m), fun _ _ t m hm => absurd hm (hnone t m),
    fun _ => ⟨rfl, zero_le_one⟩⟩

/-- When `t_tcpip_apimsg` asks for a block, there is one. -/
def Finds (s : ApiUse) : ApiOp → Prop
  | .next i _ => ∀ conn msg, s.client i = .post conn msg → s.memp.memp.mempTab .tcpipMsg ≠ 0
  | _ => True

/-- A client comes to give its message back in `t_tcpip_apimsg` only when there was no
block. -/
theorem step_ne_refused (h : ∀ i conn msg, s.client i ≠ .refused conn msg) {op : ApiOp}
    (hop : s.Finds op) (i : Nat) (conn : Option Nat) (msg : Nat) :
    (s.step op).client i ≠ .refused conn msg := by
  -- the client that makes the step goes on at some other `pc`
  have hset : ∀ j pc, pc ≠ .refused conn msg →
      Function.update s.client j pc i ≠ .refused conn msg := fun j pc hpc => by
    by_cases hij : i = j
    · subst hij
      rwa [Function.update_self]
    · rw [Function.update_of_ne hij]
      exact h i conn msg
  cases op with
  | new j mail => exact hset j _ (by dsimp only; split <;> simp)
  | connect j ok mail => exact hset j _ (by split <;> simp)
  | other op => exact h i conn msg
  | next j ok =>
      rw [step, next]
      cases hc : s.client j with
      | idle => exact h i conn msg
      | mbox c => exact hset j _ (by split <;> simp)
      | dropConn c => exact hset j _ (by simp)
      | msg c => exact hset j _ (by cases c <;> (dsimp only; split <;> simp))
      | post c m =>
          refine hset j _ ?_
          dsimp only
          rw [tMempMalloc, if_pos (hop c m hc), if_pos (by simp [sizeofTMemp])]
          simp
      | refused c m => exact absurd hc (h j c m)
      | send c m t => exact hset j _ (by simp)
      | fetch c m =>
          dsimp only
          split
          · exact hset j _ (by simp)
          · exact h i conn msg
      | free c m => exact hset j _ (by cases c <;> simp)
      | err c => exact hset j _ (by split <;> simp)

/-- The steps of one client leave the others where they are. -/
theorem next_client_of_ne {i j : Nat} (hne : j ≠ i) (ok : Bool) :
    (s.next i ok).client j = s.client j := by
  rw [next]
  cases s.client i with
  | idle => rfl
  | fetch conn msg =>
      dsimp only
      split
      · exact Function.update_of_ne hne _ _
      · rfl
  | _ => exact Function.update_of_ne hne _ _

theorem along_notRefused {u : MempUse} {ops : List ApiOp}
    (h : Run.Along step Finds (start u) ops) : Run.Along step NotRefused (start u) ops := by
  refine Run.along_of_invariant (I := fun s => ∀ i conn msg, s.client i ≠ .refused conn msg)
    (fun s op hs hop => step_ne_refused hs hop) (fun s op hs _ => ?_)
    (fun _ _ _ => by simp [start]) h
  cases op with
  | next i ok => exact hs i
  | _ => trivial

/-- When a client comes to wait, something is in its mailbox. -/
def Answered (s : ApiUse) : ApiOp → Prop
  | .next i _ => ∀ conn msg tcpipMsg, s.client i = .send conn msg tcpipMsg → s.mail i = true
  | _ => True

/-- No client waits for ever. -/
def NoneWaits (s : ApiUse) : Prop := ∀ i conn msg, s.client i = .fetch conn msg → s.mail i = true

theorem NoneWaits.step (h : s.NoneWaits) {op : ApiOp} (hlegal : s.Legal sizes op)
    (hok : s.NotRefused op) (hans : s.Answered op) : (s.step op).NoneWaits := by
  -- the client that makes the step does not come to wait, or has something in its mailbox
  have hset : ∀ j pc, (∀ conn msg, pc = .fetch conn msg → s.mail j = true) →
      ∀ i conn msg, Function.update s.client j pc i = .fetch conn msg → s.mail i = true := by
    intro j pc hpc i conn msg hi
    by_cases hij : i = j
    · subst hij
      rw [Function.update_self] at hi
      exact hpc conn msg hi
    · rw [Function.update_of_ne hij] at hi
      exact h i conn msg hi
  have hbegin : ∀ j pc mail, (∀ conn msg, pc ≠ .fetch conn msg) → ∀ i conn msg,
      Function.update s.client j pc i = .fetch conn msg →
        Function.update s.mail j mail i = true := by
    intro j pc mail hpc i conn msg hi
    by_cases hij : i = j
    · subst hij
      rw [Function.update_self] at hi
      exact absurd hi (hpc conn msg)
    · rw [Function.update_of_ne hij] at hi ⊢
      exact h i conn msg hi
  cases op with
  | new j mail => exact hbegin j _ mail (by intro conn msg; dsimp only; split <;> simp)
  | connect j ok mail => exact hbegin j _ mail (by intro conn msg; split <;> simp)
  | other op => exact h
  | next j ok =>
      rw [ApiUse.step, next]
      cases hc : s.client j with
      | idle => exact h
      | mbox c => exact hset j _ (by intro conn msg; split <;> simp)
      | dropConn c => exact hset j _ (by simp)
      | msg c => exact hset j _ (by intro conn msg; cases c <;> (dsimp only; split <;> simp))
      | post c m => exact hset j _ (by intro conn msg; dsimp only; split <;> simp)
      | refused c m => exact absurd hc (hok c m)
      | send c m t => exact hset j _ fun _ _ _ => hans c m t hc
      | fetch c m =>
          dsimp only
          rw [if_pos (h j c m hc)]
          exact hset j _ (by simp)
      | free c m => exact hset j _ (by intro conn msg; cases c <;> simp)
      | err c => exact hset j _ (by intro conn msg; split <;> simp)

theorem Good.returnsOnce (h : Good sizes base s) (hw : s.NoneWaits) (i : Nat) :
    s.ReturnsOnce i := by
  refine ⟨h.returnsAtMostOnce i, fun hstands => ?_⟩
  have hcount := h.counts i
  unfold Stands at hstands
  split at hstands
  · next hc =>
    rw [hc] at hcount
    exact hcount.1
  · next hc =>
    rw [hw i _ _ hc] at hstands
    contradiction
  · contradiction

/-- A client that comes to an empty mailbox holds its message for ever. -/
theorem answered_of_returnsOnce {ok : Bool}
    (hstep : (s.step (.next i ok)).ReturnsOnce i) : s.Answered (.next i ok) := by
  intro conn msg tcpipMsg hc
  by_contra hmail
  have hnext : s.step (.next i ok) = s.setPc i (.fetch conn msg) := by
    rw [ApiUse.step, ApiUse.next, hc]
  rw [hnext] at hstep
  have hfetch : (s.setPc i (.fetch conn msg)).client i = .fetch conn msg := Function.update_self ..
  obtain ⟨htaken, hreturned⟩ := hstep.held (by rw [hfetch]; rfl)
  have heq := hstep.stands (by rw [Stands, hfetch]; exact Bool.not_eq_true _ ▸ hmail)
  rw [htaken, hreturned] at heq
  contradiction

/-- A run is good as long as no client gives its message back in `t_tcpip_apimsg`, and
none comes to an empty mailbox. -/
theorem throughout_returnsOnce_iff (hpl : MempPlaced sizes base) (h : Good sizes base s)
    (hw : s.NoneWaits) {ops : List ApiOp} (hl : Run.Along step (Legal sizes) s ops) :
    Run.Throughout step (fun s => ∀ i, s.ReturnsOnce i) s ops ↔
      Run.Along step (fun s op => s.NotRefused op ∧ s.Answered op) s ops := by
  have hgood : ∀ s, Good sizes base s ∧ s.NoneWaits → ∀ i, s.ReturnsOnce i :=
    fun s hs => hs.1.returnsOnce hs.2
  refine Run.throughout_iff_along_of_strong hgood
    (fun s op hs hop hok => ⟨hs.1.step hpl hop hok.1, hs.2.step hop hok.1 hok.2⟩)
    (fun s op hs _ hP => ?_) ⟨h, hw⟩ hl
  cases op with
  | next i ok => exact ⟨hs.1.not_refused (hP i).toReturnsAtMostOnce, answered_of_returnsOnce (hP i)⟩
  | _ => exact ⟨trivial, trivial⟩

/-- **Messages are given back once**, in any interleaving, as long as `t_tcpip_apimsg`
finds the blocks it asks for and the clients that wait find something in their
mailboxes; and exactly in the runs in which none gets past the `t_memp_free` that it
does otherwise, and none comes to an empty mailbox. -/
theorem api_msg_once (hpl : MempPlaced sizes base) {u : MempUse} {free : MempT → List Nat}
    (h : MempInv sizes base u free) {ops : List ApiOp}
    (hl : Run.Along step (Legal sizes) (start u) ops) :
    (Run.Along step (fun s op => s.Finds op ∧ s.Answered op) (start u) ops →
      Run.Throughout step (fun s => ∀ i, s.ReturnsOnce i) (start u) ops) ∧
    (Run.Throughout step (fun s => ∀ i, s.ReturnsOnce i) (start u) ops ↔
      Run.Along step (fun s op => s.NotRefused op ∧ s.Answered op) (start u) ops) := by
  have hiff := throughout_returnsOnce_iff hpl (good_start h) (fun _ _ _ hc => by cases hc) hl
  refine ⟨fun hcond => hiff.mpr ?_, hiff⟩
  have hfinds : Run.Along step Finds (start u) ops := hcond.imp step fun _ _ h => h.1
  have hans : Run.Along step Answered (start u) ops := hcond.imp step fun _ _ h => h.2
  exact (along_notRefused hfinds).and step hans

/-- A client that makes a connection, and another that connects, while another thread
takes a block. -/
def twoClients : List ApiOp :=
  [.new 0 true, .next 0 true, .connect 1 true true, .next 1 true, .other (.malloc .netbuf),
    .next 1 true, .next 0 true, .next 1 true, .next 0 true]

theorem twoClients_legal (u : MempUse) : Run.Along step (Legal sizes) (start u) twoClients := by
  have hidle : (((start u).step (.new 0 true)).step (.next 0 true)).client 1 = .idle := by
    have hnext := next_client_of_ne (s := (start u).step (.new 0 true)) one_ne_zero true
    rw [← step] at hnext
    rw [hnext]
    simp [step, malloc, begin, start]
  exact ⟨rfl, trivial, hidle, trivial, trivial, trivial, trivial, trivial, trivial, trivial⟩

theorem api_msg_once_two :
    let s := start ⟨tMempInit mempSizes 4096 onesMem, fun _ => []⟩
    (Run.Along step (fun s op => s.Finds op ∧ s.Answered op) s twoClients →
      Run.Throughout step (fun s => ∀ i, s.ReturnsOnce i) s twoClients) ∧
    (Run.Throughout step (fun s => ∀ i, s.ReturnsOnce i) s twoClients ↔
      Run.Along step (fun s op => s.NotRefused op ∧ s.Answered op) s twoClients) :=
  have hpl : MempPlaced mempSizes 4096 := ⟨by decide, by decide⟩
  api_msg_once hpl (hpl.init onesMem) (twoClients_legal _)

/-! ## no block, and no message -/

/-- A client connects, up to its `t_sys_mbox_fetch`. -/
def connectOne : List ApiOp := [.connect 0 true true, .next 0 true, .next 0 true, .next 0 true]

theorem connectOne_legal (u : MempUse) : Run.Along step (Legal sizes) (start u) connectOne :=
  ⟨rfl, trivial, trivial, trivial, trivial⟩

/-- A client makes a connection, up to its `t_sys_mbox_fetch` on the new mailbox. -/
def newOne : List ApiOp :=
  [.new 0 false, .next 0 true, .next 0 true, .next 0 true, .next 0 true]

theorem newOne_legal (u : MempUse) : Run.Along step (Legal sizes) (start u) newOne :=
  ⟨rfl, trivial, trivial, trivial, trivial, trivial⟩

/-- With a block left, the client goes on with it, and the other pools stay. -/
theorem malloc_of_ne_zero {t : MempT} (htab : s.memp.memp.mempTab t ≠ 0) (pc : Nat → ApiPc) :
    ∃ m, m ≠ 0 ∧ (s.malloc i t pc).client i = pc m ∧
      ∀ t', t' ≠ t → (s.malloc i t pc).memp.memp.mempTab t' = s.memp.memp.mempTab t' := by
  have hm : (tMempMalloc s.memp.memp t).1 ≠ 0 := by
    rw [tMempMalloc, if_pos htab]
    simp [sizeofTMemp]
  refine ⟨(tMempMalloc s.memp.memp t).1, hm, Function.update_self .., fun t' ht => ?_⟩
  simp [malloc, MempUse.step, tMempMalloc, htab, sizeofTMemp, Function.update_of_ne ht]

theorem next_msg {conn : Option Nat} (hc : s.client i = .msg conn)
    (htab : s.memp.memp.mempTab .apiMsg ≠ 0) (ok : Bool) :
    (∃ m, (s.next i ok).client i = .post conn m) ∧
    (s.next i ok).memp.memp.mempTab .tcpipMsg = s.memp.memp.mempTab .tcpipMsg := by
  have hnext : s.next i ok = s.malloc i .apiMsg fun m =>
      if m ≠ 0 then .post conn m else conn.elim .idle .dropConn := by rw [next, hc]
  obtain ⟨m, hm, hclient, htabs⟩ := malloc_of_ne_zero (i := i) htab fun m =>
    if m ≠ 0 then .post conn m else conn.elim .idle .dropConn
  rw [hnext]
  exact ⟨⟨m, by rw [hclient, if_pos hm]⟩, htabs _ (by decide)⟩

theorem next_post {conn : Option Nat} {msg : Nat} (hc : s.client i = .post conn msg)
    (htab : s.memp.memp.mempTab .tcpipMsg = 0) (ok : Bool) :
    (s.next i ok).client i = .refused conn msg := by
  have hm : (tMempMalloc s.memp.memp .tcpipMsg).1 = 0 := by
    rw [tMempMalloc, if_neg (by simpa using htab)]
  have hnext : s.next i ok = s.malloc i .tcpipMsg fun m =>
      if m ≠ 0 then .send conn msg m else .refused conn msg := by rw [next, hc]
  rw [hnext]
  simp only [malloc, Function.update_self, hm]
  rfl

/-- With messages left, but no block to post one with, the client comes to give its
message back in `t_tcpip_apimsg`. -/
theorem connectOne_refused {u : MempUse} (hmsg : u.memp.mempTab .apiMsg ≠ 0)
    (hblock : u.memp.mempTab .tcpipMsg = 0) :
    ¬ Run.Along step NotRefused (start u) connectOne := by
  rintro ⟨-, -, -, hlast, -⟩
  have hbegin : ((start u).step (.connect 0 true true)).client 0 = .msg none := by
    simp [step, setPc]
  obtain ⟨⟨m, hpost⟩, htab⟩ := next_msg hbegin hmsg true
  exact hlast none m (next_post hpost (htab.trans hblock) true)

theorem step_new (htab : s.memp.memp.mempTab .netconn ≠ 0) (mail : Bool) :
    (∃ c, (s.step (.new i mail)).client i = .mbox c) ∧ (s.step (.new i mail)).mail i = mail ∧
      ∀ t, t ≠ .netconn →
        (s.step (.new i mail)).memp.memp.mempTab t = s.memp.memp.mempTab t := by
  obtain ⟨c, hc, hclient, htabs⟩ := malloc_of_ne_zero (s := s.begin i mail) (i := i) htab fun m =>
    if m ≠ 0 then .mbox m else .idle
  rw [if_pos hc] at hclient
  exact ⟨⟨c, hclient⟩, Function.update_self .., htabs⟩

theorem next_mbox {c : Nat} (hc : s.client i = .mbox c) :
    (s.next i true).client i = .msg (some c) ∧ (s.next i true).memp = s.memp := by
  have hnext : s.next i true = s.setPc i (.msg (some c)) := by
    rw [next, hc]
    rfl
  rw [hnext]
  exact ⟨Function.update_self .., rfl⟩

theorem next_post_of_ne_zero {conn : Option Nat} {msg : Nat} (hc : s.client i = .post conn msg)
    (htab : s.memp.memp.mempTab .tcpipMsg ≠ 0) (ok : Bool) :
    ∃ t, (s.next i ok).client i = .send conn msg t := by
  have hnext : s.next i ok = s.malloc i .tcpipMsg fun t =>
      if t ≠ 0 then .send conn msg t else .refused conn msg := by rw [next, hc]
  obtain ⟨t, ht, hclient, -⟩ := malloc_of_ne_zero (i := i) htab fun t =>
    if t ≠ 0 then .send conn msg t else .refused conn msg
  exact ⟨t, by rw [hnext, hclient, if_pos ht]⟩

/-- Nothing comes into the mailboxes. -/
theorem next_mail (s : ApiUse) (i : Nat) (ok : Bool) : (s.next i ok).mail = s.mail := by
  rw [next]
  cases s.client i with
  | fetch conn msg =>
      dsimp only
      split <;> rfl
  | _ => rfl

/-- With blocks left, the client comes to the empty mailbox. -/
theorem newOne_not_answered {u : MempUse} (hconn : u.memp.mempTab .netconn ≠ 0)
    (hmsg : u.memp.mempTab .apiMsg ≠ 0) (hblock : u.memp.mempTab .tcpipMsg ≠ 0) :
    ¬ Run.Along step Answered (start u) newOne := by
  rintro ⟨-, -, -, -, hlast, -⟩
  obtain ⟨⟨c, hnew⟩, hmail, htabs⟩ := step_new (s := start u) (i := 0) hconn false
  obtain ⟨hmbox, hmemp⟩ := next_mbox hnew
  obtain ⟨⟨m, hpost⟩, htab⟩ := next_msg hmbox (by
    rw [hmemp, htabs _ (by decide)]
    exact hmsg) true
  obtain ⟨t, hsend⟩ := next_post_of_ne_zero hpost (by
    rw [htab, hmemp, htabs _ (by decide)]
    exact hblock) true
  have hsome := hlast _ m t hsend
  simp only [step, next_mail] at hsome
  exact absurd (hsome.symm.trans hmail) (by decide)

end ApiUse

/-- Taking `n` blocks of a type takes the first `n` free ones. -/
theorem MempInv.mallocs {sizes : MempSizes} {base : Nat} {t : MempT} (n : Nat) {u : MempUse}
    {free : MempT → List Nat} (h : MempInv sizes base u free) :
    MempInv sizes base (Run.final MempUse.step u (List.replicate n (.malloc t)))
      (Function.update free t ((free t).drop n)) := by
  induction n generalizing u free with
  | zero =>
      rw [List.drop_zero, Function.update_eq_self]
      exact h
  | succ n ih =>
      have := ih (h.malloc t)
      rw [MempInv.freeAfter, Function.update_idem, Function.update_self, List.drop_tail] at this
      exact this

/-- The pools after `t_memp_init`, when every block of one type is taken. -/
def noTcpipMsg : MempUse :=
  Run.final MempUse.step ⟨tMempInit mempSizes 4096 onesMem, fun _ => []⟩
    (List.replicate (mempNum .tcpipMsg) (.malloc .tcpipMsg))

theorem noTcpipMsg_inv : ∃ free, MempInv mempSizes 4096 noTcpipMsg free ∧
    free .tcpipMsg = [] ∧ free .apiMsg ≠ [] := by
  have hpl : MempPlaced mempSizes 4096 := ⟨by decide, by decide⟩
  have hinit := hpl.init onesMem
  refine ⟨_, hinit.mallocs (t := .tcpipMsg) (mempNum .tcpipMsg), ?_, ?_⟩
  · rw [Function.update_self, mempHeaders, List.drop_eq_nil_of_le (by simp)]
  · rw [Function.update_of_ne (show MempT.apiMsg ≠ .tcpipMsg by decide), mempHeaders, mempNum]
    simp

/-- Messages are not given back once.  The first client that makes a connection waits
for ever, with its message; and when `t_tcpip_apimsg` finds no block, it gives the
message back, and its caller, which holds it still, does too. -/
theorem not_api_msgs_once :
    (∃ free, MempInv mempSizes 4096 ⟨tMempInit mempSizes 4096 onesMem, fun _ => []⟩ free ∧
      Run.Along ApiUse.step (ApiUse.Legal mempSizes)
        (ApiUse.start ⟨tMempInit mempSizes 4096 onesMem, fun _ => []⟩) ApiUse.newOne ∧
      ¬ Run.Throughout ApiUse.step (fun s => ∀ i, s.ReturnsOnce i)
        (ApiUse.start ⟨tMempInit mempSizes 4096 onesMem, fun _ => []⟩) ApiUse.newOne) ∧
    ∃ free, MempInv mempSizes 4096 noTcpipMsg free ∧
      Run.Along ApiUse.step (ApiUse.Legal mempSizes) (ApiUse.start noTcpipMsg) ApiUse.connectOne ∧
      ¬ Run.Throughout ApiUse.step (fun s => ∀ i, s.ReturnsOnce i) (ApiUse.start noTcpipMsg)
        ApiUse.connectOne := by
  have hpl : MempPlaced mempSizes 4096 := ⟨by decide, by decide⟩
  constructor
  · have h := hpl.init onesMem
    have hl : Run.Along ApiUse.step (ApiUse.Legal mempSizes)
        (ApiUse.start ⟨tMempInit mempSizes 4096 onesMem, fun _ => []⟩) ApiUse.newOne :=
      ApiUse.newOne_legal _
    have hfull : ∀ t, (tMempInit mempSizes 4096 onesMem).mempTab t ≠ 0 := fun t htab => by
      have hnil := (h.free_eq_nil_iff t).mpr htab
      cases t <;> simp [mempHeaders, mempNum] at hnil
    refine ⟨_, h, hl, fun hgood => ?_⟩
    have halong := (ApiUse.throughout_returnsOnce_iff hpl (ApiUse.good_start h)
      (fun _ _ _ hc => by cases hc) hl).mp hgood
    exact ApiUse.newOne_not_answered (hfull _) (hfull _) (hfull _)
      (halong.imp ApiUse.step fun _ _ h => h.2)
  · obtain ⟨free, h, hblock, hmsg⟩ := noTcpipMsg_inv
    have hl : Run.Along ApiUse.step (ApiUse.Legal mempSizes) (ApiUse.start noTcpipMsg)
        ApiUse.connectOne := ApiUse.connectOne_legal noTcpipMsg
    refine ⟨free, h, hl, fun hgood => ?_⟩
    have halong := (ApiUse.throughout_returnsOnce_iff hpl (ApiUse.good_start h)
      (fun _ _ _ hc => by cases hc) hl).mp hgood
    exact ApiUse.connectOne_refused (fun htab => hmsg ((h.free_eq_nil_iff _).mpr htab))
      ((h.free_eq_nil_iff _).mp hblock) (halong.imp ApiUse.step fun _ _ h => h.1)

end TTcp
