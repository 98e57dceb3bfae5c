import TTcp.Lib.PtrList
import TTcp.Tcp.Host

/-!
# TTcp.Tcp.Active

The list of active control blocks.

`T_TCP_REG` pushes a control block without looking whether it is on the list
already, so a second connect of one control block, say after an error, makes
the links run in a circle.  Everything else that touches the links keeps a
list a list: over a whole run, the list is one exactly when no control block
is connected twice (`throughout_activeList_iff`).
-/

namespace TTcp

open PtrList

/-! ## what a call does to the links -/

section
variable (h : TcpHost)

theorem tTcpConnect_links (indet : Nat → Option Netif) (i : TcpPcbId) (ipaddr : UInt32)
    (port : UInt16) (connected : Option Nat) :
    (tTcpConnect h indet i ipaddr port connected).2.next =
        Function.update h.next i h.tcpActivePcbs ∧
      (tTcpConnect h indet i ipaddr port connected).2.tcpActivePcbs = some i := by
  simp only [tTcpConnect]
  split <;> split <;> exact ⟨rfl, rfl⟩

/-- A connect pushes its control block, and a segment moves the control block
it is for to the front. -/
theorem TcpHost.exec_links (op : TcpOp) :
    let h' := (h.exec op).2
    match op with
    | .new => h'.tcpActivePcbs = h.tcpActivePcbs ∧ h'.next = match h.tcpPcbPool with
        | [] => h.next
        | j :: _ => Function.update h.next j none
    | .connect i _ _ _ _ =>
        h'.tcpActivePcbs = some i ∧ h'.next = Function.update h.next i h.tcpActivePcbs
    | .input _ _ _ => h'.tcpActivePcbs = h.tcpActivePcbs ∧ h'.next = h.next ∨
        ∃ k i prev, demux h k = some (some (i, prev)) ∧
          h'.tcpActivePcbs = (moveToFront h i prev).tcpActivePcbs ∧
          h'.next = (moveToFront h i prev).next
    | _ => h'.tcpActivePcbs = h.tcpActivePcbs ∧ h'.next = h.next := by
  cases op with
  | new =>
      simp only [exec, tTcpNew]
      cases hp : h.tcpPcbPool with
      | nil => exact ⟨rfl, rfl⟩
      | cons j rest => exact ⟨rfl, rfl⟩
  | connect i ipaddr port connected indet =>
      exact (tTcpConnect_links h indet i ipaddr port connected).symm
  | write i arg len copy => exact ⟨rfl, rfl⟩
  | output i indet => exact ⟨rfl, rfl⟩
  | input p cbRet indet =>
      simp only [exec]
      obtain ⟨-, -, -, hh⟩ | ⟨i, prev, s, k, -, hd, -, -, hh⟩ := tTcpInput_cases h indet cbRet p
      · exact Or.inl ⟨by rw [hh], by rw [hh]⟩
      · exact Or.inr ⟨k, i, prev, hd, by rw [hh]; rfl, by rw [hh]; rfl⟩
  | other pools tcpTicks => exact ⟨rfl, rfl⟩

/-! ## only control blocks in use are linked -/

/-- The links lead to control blocks in use. -/
structure TcpHost.Linked : Prop where
  head : ∀ i ∈ h.tcpActivePcbs, i ∉ h.tcpPcbPool
  next : ∀ i, i ∉ h.tcpPcbPool → ∀ j ∈ h.next i, j ∉ h.tcpPcbPool

end

namespace TcpHost

variable {h : TcpHost}

theorem Boot.linked (hb : h.Boot) : h.Linked where
  head := by simp [hb.active]
  next i hi := by rw [hb.pool] at hi; exact absurd (List.mem_finRange i) hi

/-- What the demultiplexing loop finds is in use. -/
theorem Linked.demux (hl : h.Linked) {k : TcpKey} {i : TcpPcbId} {prev : Option TcpPcbId}
    (hd : TTcp.demux h k = some (some (i, prev))) :
    i ∉ h.tcpPcbPool ∧ ∀ b ∈ prev, b ∉ h.tcpPcbPool := by
  refine Loop.run_of_invariant (demuxRound h k)
    (P := fun s => (∀ i ∈ s.1, i ∉ h.tcpPcbPool) ∧ ∀ b ∈ s.2, b ∉ h.tcpPcbPool)
    (Q := fun r => ∀ i prev, r = some (i, prev) →
      i ∉ h.tcpPcbPool ∧ ∀ b ∈ prev, b ∉ h.tcpPcbPool)
    (fun s s' hs hstep => ?_) (fun s r hs hstep i prev hr => ?_) ⟨hl.head, by simp⟩ hd i prev rfl
  · obtain ⟨cur, prev⟩ := s
    cases cur with
    | none => rw [demuxRound] at hstep; contradiction
    | some j =>
        have hj : j ∉ h.tcpPcbPool := hs.1 j rfl
        rw [demuxRound] at hstep
        split at hstep
        · contradiction
        · obtain rfl := Loop.Step.next.inj hstep
          refine ⟨hl.next j hj, fun b hb => ?_⟩
          obtain rfl : j = b := Option.some.inj hb
          exact hj
  · obtain ⟨cur, prev'⟩ := s
    cases cur with
    | none =>
        rw [demuxRound] at hstep
        rw [← Loop.Step.done.inj hstep] at hr
        contradiction
    | some j =>
        rw [demuxRound] at hstep
        split at hstep
        · have hji := (Loop.Step.done.inj hstep).trans hr
          simp only [Option.some.injEq, Prod.mk.injEq] at hji
          obtain ⟨rfl, rfl⟩ := hji
          exact ⟨hs.1 j rfl, hs.2⟩
        · contradiction

theorem Linked.exec (hl : h.Linked) {op : TcpOp} (hop : h.Legal op) : (h.exec op).2.Linked := by
  have hpool := h.exec_tcpPcbPool op
  have hlinks := h.exec_links op
  have hsame : (h.exec op).2.tcpPcbPool = h.tcpPcbPool →
      (h.exec op).2.tcpActivePcbs = h.tcpActivePcbs ∧ (h.exec op).2.next = h.next →
      (h.exec op).2.Linked := by
    rintro hp ⟨hh, hn⟩
    refine ⟨?_, ?_⟩
    · rw [hh, hp]; exact hl.head
    · rw [hp, hn]; exact hl.next
  -- pushing a control block in use
  have hpush : ∀ next' : TcpPcbId → Option TcpPcbId, ∀ i, i ∉ h.tcpPcbPool →
      (∀ a, a ∉ h.tcpPcbPool → ∀ j ∈ next' a, j ∉ h.tcpPcbPool) →
      (h.exec op).2.tcpPcbPool = h.tcpPcbPool → (h.exec op).2.tcpActivePcbs = some i →
      (h.exec op).2.next = Function.update next' i h.tcpActivePcbs → (h.exec op).2.Linked := by
    intro next' i hi hnext hp hh hn
    refine ⟨?_, fun a ha j hj => ?_⟩
    · rw [hh, hp]
      rintro j hj
      obtain rfl : i = j := Option.some.inj hj
      exact hi
    · rw [hp] at ha ⊢
      rw [hn] at hj
      by_cases hai : a = i
      · rw [hai, Function.update_self] at hj
        exact hl.head j hj
      · rw [Function.update_of_ne hai] at hj
        exact hnext a ha j hj
  cases op with
  | new =>
      obtain ⟨hh, hn⟩ := hlinks
      simp only at hpool hn
      cases hp : h.tcpPcbPool with
      | nil =>
          rw [hp] at hpool hn
          exact hsame (by rw [hpool, hp]; rfl) ⟨hh, hn⟩
      | cons j rest =>
          rw [hp] at hpool hn
          simp only [List.tail_cons] at hpool hn
          have hsub : ∀ a, a ∉ h.tcpPcbPool → a ∉ rest := fun a ha hm => by
            rw [hp] at ha
            exact ha (List.mem_cons_of_mem j hm)
          refine ⟨fun a ha => ?_, fun a ha b hb => ?_⟩
          · rw [hh] at ha
            rw [hpool]
            exact hsub a (hl.head a ha)
          · rw [hpool] at ha ⊢
            rw [hn] at hb
            by_cases haj : a = j
            · rw [haj, Function.update_self] at hb
              contradiction
            · rw [Function.update_of_ne haj] at hb
              refine hsub b (hl.next a ?_ b hb)
              rw [hp]
              exact fun hm => (List.mem_cons.mp hm).elim haj ha
  | connect i ipaddr port connected indet => exact hpush h.next i hop hl.next hpool hlinks.1 hlinks.2
  | write i arg len copy => exact hsame hpool hlinks
  | output i indet => exact hsame hpool hlinks
  | input p cbRet indet =>
      obtain hlinks | ⟨k, i, prev, hd, hh, hn⟩ := hlinks
      · exact hsame hpool hlinks
      · obtain ⟨hi, hprev⟩ := hl.demux hd
        cases prev with
        | none => exact hsame hpool ⟨hh, hn⟩
        | some b =>
            refine hpush (Function.update h.next b (h.next i)) i hi (fun a ha j hj => ?_) hpool hh hn
            by_cases hab : a = b
            · rw [hab, Function.update_self] at hj
              exact hl.next i hi j hj
            · rw [Function.update_of_ne hab] at hj
              exact hl.next a ha j hj
  | other pools tcpTicks => exact hsame hpool hlinks

theorem Linked.reaches (hl : h.Linked) {i : TcpPcbId} (hr : Reaches h.next h.tcpActivePcbs i) :
    i ∉ h.tcpPcbPool := by
  have hreach : ∀ p, Reaches h.next p i → (∀ j ∈ p, j ∉ h.tcpPcbPool) → i ∉ h.tcpPcbPool := by
    clear hr
    intro p hr hp
    induction hr with
    | head a => exact hp _ rfl
    | link _ ih => exact ih (hl.next _ (hp _ rfl))
  exact hreach _ hr hl.head

end TcpHost

/-! ## the list -/

section
variable {h : TcpHost}

/-- On a list, the demultiplexing loop ends. -/
theorem ends_demux_of_isList {k : TcpKey} {p : Option TcpPcbId} {l : List TcpPcbId}
    (hl : IsList h.next p l) (prev : Option TcpPcbId) : Loop.Ends (demuxRound h k) (p, prev) := by
  induction l generalizing p prev with
  | nil =>
      obtain rfl := hl
      exact Loop.ends_of_done _ rfl
  | cons i l ih =>
      obtain ⟨rfl, hl⟩ := hl
      by_cases hm : (h.pcb i).matches k = true
      · exact Loop.ends_of_done _ (if_pos hm)
      · exact Loop.ends_of_next _ (if_neg hm) (ih hl (some i))

/-- On a list, what the demultiplexing loop finds is a node and the one before
it. -/
theorem demux_of_isList {k : TcpKey} {l : List TcpPcbId} (hl : IsList h.next h.tcpActivePcbs l)
    {i : TcpPcbId} {prev : Option TcpPcbId} (hd : demux h k = some (some (i, prev))) :
    ∃ xs ys, l = xs ++ i :: ys ∧ prev = xs.getLast? := by
  refine Loop.run_of_invariant (demuxRound h k)
    (P := fun s => ∃ xs ys, l = xs ++ ys ∧ IsList h.next s.1 ys ∧ s.2 = xs.getLast?)
    (Q := fun r => ∀ i prev, r = some (i, prev) → ∃ xs ys, l = xs ++ i :: ys ∧ prev = xs.getLast?)
    (fun s s' hs hstep => ?_) (fun s r hs hstep i prev hr => ?_) ⟨[], l, rfl, hl, rfl⟩ hd i prev rfl
  · obtain ⟨cur, prev⟩ := s
    obtain ⟨xs, ys, hsplit, hys, hprev⟩ := hs
    cases cur with
    | none => rw [demuxRound] at hstep; contradiction
    | some j =>
        rw [demuxRound] at hstep
        split at hstep
        · contradiction
        · obtain rfl := Loop.Step.next.inj hstep
          cases ys with
          | nil => simp at hys
          | cons j' ys =>
              obtain ⟨hj, hys⟩ := hys
              obtain rfl := Option.some.inj hj
              exact ⟨xs ++ [j], ys, by rw [hsplit]; simp, hys, by simp⟩
  · obtain ⟨cur, prev'⟩ := s
    obtain ⟨xs, ys, hsplit, hys, hprev⟩ := hs
    cases cur with
    | none =>
        rw [demuxRound] at hstep
        rw [← Loop.Step.done.inj hstep] at hr
        contradiction
    | some j =>
        rw [demuxRound] at hstep
        split at hstep
        · have hji := (Loop.Step.done.inj hstep).trans hr
          simp only [Option.some.injEq, Prod.mk.injEq] at hji
          obtain ⟨rfl, rfl⟩ := hji
          cases ys with
          | nil => simp at hys
          | cons j' ys =>
              obtain rfl := Option.some.inj hys.1
              exact ⟨xs, ys, hsplit, hprev⟩
        · contradiction

end

/-- `tcp_active_pcbs` is an acyclic list of the control blocks registered,
each once, and the demultiplexing loop ends on every segment. -/
structure ActiveList (h : TcpHost) (registered : List TcpPcbId) : Prop where
  isList : ∃ l, IsList h.next h.tcpActivePcbs l ∧ l.Nodup ∧ ∀ i, i ∈ l ↔ i ∈ registered
  ends : ∀ k, Loop.Ends (demuxRound h k) (h.tcpActivePcbs, none)

theorem ActiveList.of_isList {h : TcpHost} {registered l : List TcpPcbId}
    (hl : IsList h.next h.tcpActivePcbs l) (hmem : ∀ i, i ∈ l ↔ i ∈ registered) :
    ActiveList h registered :=
  ⟨⟨l, hl, hl.nodup, hmem⟩, fun _ => ends_demux_of_isList hl none⟩

/-- The control block that a call connects. -/
def TcpOp.connects? : TcpOp → Option TcpPcbId
  | .connect i _ _ _ _ => some i
  | _ => none

/-- A call on a host, keeping track of the control blocks registered. -/
def regStep (s : TcpHost × List TcpPcbId) (op : TcpOp) : TcpHost × List TcpPcbId :=
  (s.1.step op, op.connects?.toList ++ s.2)

/-- **One call**: a list stays a list unless a call connects a control block
that is on it. -/
theorem activeList_regStep_iff {s : TcpHost × List TcpPcbId} {op : TcpOp} (hlinked : s.1.Linked)
    (hop : s.1.Legal op) (hs : ActiveList s.1 s.2) :
    ActiveList (regStep s op).1 (regStep s op).2 ↔ ∀ i ∈ op.connects?, i ∉ s.2 := by
  obtain ⟨h, registered⟩ := s
  obtain ⟨l, hl, -, hmem⟩ := hs.isList
  simp only at hlinked hop hl hmem
  have hlinks := h.exec_links op
  have hinuse : ∀ i ∈ l, i ∉ h.tcpPcbPool := fun i hi => hlinked.reaches (hl.reaches_iff.mpr hi)
  -- a call that connects nothing only has to keep the list a list, with the same nodes
  have hkeep : op.connects? = none →
      (∃ l', IsList (h.exec op).2.next (h.exec op).2.tcpActivePcbs l' ∧ ∀ i, i ∈ l' ↔ i ∈ l) →
      (ActiveList (regStep (h, registered) op).1 (regStep (h, registered) op).2 ↔
        ∀ i ∈ op.connects?, i ∉ registered) := by
    rintro hnone ⟨l', hl', hmem'⟩
    refine iff_of_true ?_ (by simp [hnone])
    rw [regStep, hnone]
    exact .of_isList hl' fun i => (hmem' i).trans (hmem i)
  cases op with
  | new =>
      obtain ⟨hh, hn⟩ := hlinks
      refine hkeep rfl ⟨l, ?_, fun _ => Iff.rfl⟩
      rw [hh, hn]
      cases hp : h.tcpPcbPool with
      | nil => exact hl
      | cons j rest => exact hl.update fun hj => hinuse j hj (by rw [hp]; exact List.mem_cons_self)
  | connect i ipaddr port connected indet =>
      obtain ⟨hh, hn⟩ := hlinks
      have hpush := hl.exists_isList_push_iff (a := i)
      rw [← hh, ← hn] at hpush
      have hiff : (∀ j ∈ (TcpOp.connect i ipaddr port connected indet).connects?,
          j ∉ registered) ↔ i ∉ l := by
        rw [hmem]
        exact ⟨fun hj => hj i rfl, fun hi j hj => Option.some.inj hj ▸ hi⟩
      rw [hiff]
      constructor
      · rintro ⟨⟨l', hl', -, -⟩, -⟩
        exact hpush.mp ⟨l', hl'⟩
      · intro hi
        refine .of_isList (l := i :: l) ?_ fun j => ?_
        · show IsList (h.exec _).2.next (h.exec _).2.tcpActivePcbs _
          rw [hh, hn]
          exact hl.push hi
        · simp [regStep, TcpOp.connects?, hmem]
  | write i arg len copy =>
      refine hkeep rfl ⟨l, ?_, fun _ => Iff.rfl⟩
      rw [hlinks.1, hlinks.2]
      exact hl
  | output i indet =>
      refine hkeep rfl ⟨l, ?_, fun _ => Iff.rfl⟩
      rw [hlinks.1, hlinks.2]
      exact hl
  | input p cbRet indet =>
      obtain ⟨hh, hn⟩ | ⟨k, i, prev, hd, hh, hn⟩ := hlinks
      · refine hkeep rfl ⟨l, ?_, fun _ => Iff.rfl⟩
        rw [hh, hn]
        exact hl
      · obtain ⟨xs, ys, rfl, rfl⟩ := demux_of_isList hl hd
        rcases List.eq_nil_or_concat' xs with rfl | ⟨xs, b, rfl⟩
        · refine hkeep rfl ⟨_, ?_, fun _ => Iff.rfl⟩
          rw [hh, hn]
          exact hl
        · refine hkeep rfl ⟨i :: (xs ++ b :: ys), ?_, fun j => ?_⟩
          · rw [hh, hn, List.getLast?_concat]
            rw [List.append_assoc] at hl
            exact hl.moveToFront
          · rw [← (perm_moveToFront xs ys i b).mem_iff, List.append_assoc]
            rfl
  | other pools tcpTicks =>
      refine hkeep rfl ⟨l, ?_, fun _ => Iff.rfl⟩
      rw [hlinks.1, hlinks.2]
      exact hl

/-! ## runs -/

theorem along_registered_iff {s : TcpHost × List TcpPcbId} {ops : List TcpOp} :
    Run.Along regStep (fun s op => ∀ i ∈ op.connects?, i ∉ s.2) s ops ↔
      (ops.filterMap TcpOp.connects?).Nodup ∧ ∀ i ∈ ops.filterMap TcpOp.connects?, i ∉ s.2 := by
  induction ops generalizing s with
  | nil => simp
  | cons op ops ih =>
      rw [Run.along_cons, ih]
      cases hc : op.connects? with
      | none => simp [regStep, hc]
      | some i =>
          simp only [regStep, hc, Option.mem_def, Option.some.injEq, forall_eq', Option.toList_some,
            List.singleton_append, List.mem_cons, not_or, List.filterMap_cons_some, List.nodup_cons]
          constructor
          · rintro ⟨hi, hnd, hmem⟩
            exact ⟨⟨fun hm => (hmem i hm).1 rfl, hnd⟩, by
              rintro j (rfl | hj)
              · exact hi
              · exact (hmem j hj).2⟩
          · rintro ⟨⟨hi, hnd⟩, hmem⟩
            refine ⟨hmem i (Or.inl rfl), hnd, fun j hj => ⟨?_, hmem j (Or.inr hj)⟩⟩
            rintro rfl
            exact hi hj

section
variable {h : TcpHost} {ops : List TcpOp}

theorem throughout_activeList_iff_along (hb : h.Boot)
    (hl : Run.Along TcpHost.step TcpHost.Legal h ops) :
    Run.Throughout regStep (fun s => ActiveList s.1 s.2) (h, []) ops ↔
      Run.Along regStep (fun s op => ∀ i ∈ op.connects?, i ∉ s.2) (h, []) ops := by
  have hlegal : Run.Along regStep (fun s op => s.1.Legal op) (h, []) ops :=
    (Run.along_map Prod.fst fun _ _ => rfl).mpr hl
  have hnil : ActiveList h [] := .of_isList (l := []) hb.active fun _ => Iff.rfl
  exact Run.throughout_iff_along_of_invariant
    (I := fun s : TcpHost × List TcpPcbId => s.1.Linked) (P := fun s => ActiveList s.1 s.2)
    (fun _ _ hs hop => hs.exec hop) (fun _ _ hI hop hs => activeList_regStep_iff hI hop hs)
    hb.linked hnil hlegal

/-- **The active list stays a list** exactly as long as no control block is
connected twice. -/
theorem throughout_activeList_iff (hb : h.Boot)
    (hl : Run.Along TcpHost.step TcpHost.Legal h ops) :
    Run.Throughout regStep (fun s => ActiveList s.1 s.2) (h, []) ops ↔
      (ops.filterMap TcpOp.connects?).Nodup := by
  rw [throughout_activeList_iff_along hb hl, along_registered_iff]
  simp

end

/-- A new control block whose connect fails, the pools being empty. -/
def connectTwice : List TcpOp :=
  [.new, .connect 0 0x0a000001 80 none fun _ => none,
    .connect 0 0x0a000001 80 none fun _ => none]

theorem connectTwice_legal :
    Run.Along TcpHost.step TcpHost.Legal (TcpHost.initial ⟨[], []⟩ ⟨[], none⟩) connectTwice := by
  refine ⟨trivial, ?_, ?_, trivial⟩
  · show (0 : TcpPcbId) ∉ _
    rw [TcpHost.step, TcpHost.exec_tcpPcbPool]
    decide
  · show (0 : TcpPcbId) ∉ _
    rw [TcpHost.step, TcpHost.exec_tcpPcbPool, TcpHost.step, TcpHost.exec_tcpPcbPool]
    decide

theorem throughout_activeList_connect :
    Run.Throughout regStep (fun s => ActiveList s.1 s.2) (TcpHost.initial ⟨[], []⟩ ⟨[], none⟩, [])
        (connectTwice.take 2) ↔ ((connectTwice.take 2).filterMap TcpOp.connects?).Nodup :=
  throughout_activeList_iff (TcpHost.initial_boot _ _)
    ⟨connectTwice_legal.1, connectTwice_legal.2.1, trivial⟩

/-- Connecting again after a connect that failed: the control block becomes
its own successor, and a segment that is not for it is never done with. -/
theorem not_throughout_activeList :
    ∃ h : TcpHost, h.Boot ∧ Run.Along TcpHost.step TcpHost.Legal h connectTwice ∧
      ¬ Run.Throughout regStep (fun s => ActiveList s.1 s.2) (h, []) connectTwice := by
  refine ⟨_, TcpHost.initial_boot ⟨[], []⟩ ⟨[], none⟩, connectTwice_legal, fun hlist => ?_⟩
  rw [throughout_activeList_iff_along (TcpHost.initial_boot _ _) connectTwice_legal,
    along_registered_iff] at hlist
  exact absurd hlist.1 (by decide)

end TTcp
