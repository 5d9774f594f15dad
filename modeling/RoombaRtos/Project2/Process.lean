import RoombaRtos.Process

/-!
# The periodic queue of the second project

`process.c` of `project2`, the version before that of `kernel/process.c`.  The descriptors and the
queues are those of `Process`, where the start time `ttns` is called `tons`; `queue_init`,
`enqueue` and `later` have not changed since.

* `deque`, `insert` — the two functions that were different;
* `insertAt_front`, `insertAt_end`, `insertAt_between` — what `insert` relinks;
* `Timetable` — the queue, and the tasks that have been put in and not been taken out;
* `Timetable.Sound` — the queue is a sorted list of these tasks;
* `Timetable.sound_iff` — the runs in which the queue stays so.
-/

namespace RoombaRtos

namespace Project2

open LinkedChain ListQueue Lockstep

variable {α : Type}

/-- The `while` loop of `insert`: yields `element_prev` and `element`. -/
def insertScan (pd : α → PD α) (task : α) :
    ℕ → Option α → Option α → Except Halt (Option α × Option α)
  | _, prev, none => .ok (prev, none)
  | 0, _, some _ => .error .diverges
  | fuel + 1, prev, some element =>
      if later (pd task).toTask (pd element).toTask then
        insertScan pd task fuel (some element) (pd element).next
      else .ok (prev, some element)

section

variable [DecidableEq α]

def deque (pd : α → PD α) (list : TaskQueue α) :
    Except Halt (Option α × (α → PD α) × TaskQueue α) :=
  if list.length = 0 then .error (.abort .queueingError)
  else
    let length := list.length - 1
    if length = 0 then do
      -- the link of the element stays as it is
      let list' ← queueInit list.type
      return (list.head, pd, list')
    else
      match list.head with
      | none => .error .undefinedAccess
      | some element =>
          .ok (some element, setNext pd element none,
            { list with head := (pd element).next, length := length })

/-- What `insert` relinks when its search has stopped. -/
def insertAt (pd : α → PD α) (list : TaskQueue α) (task : α) (elementPrev element : Option α) :
    (α → PD α) × TaskQueue α :=
  match elementPrev, element with
  | none, element =>
      (setNext pd task element, { list with head := some task, length := list.length + 1 })
  | some prev, none =>
      (setNext (setNext pd prev (some task)) task none,
        { list with tail := some task, length := list.length + 1 })
  | some _, some element =>
      -- the link of `element_prev` stays as it is
      (setNext (setNext pd element (some task)) task (some element),
        { list with length := list.length + 1 })

/-- `insert`, whose loop may take `fuel` steps. -/
def insert (pd : α → PD α) (list : TaskQueue α) (task : α) (fuel : ℕ) :
    Except Halt ((α → PD α) × TaskQueue α) :=
  if list.type ≠ (pd task).priority ∨ list.type ≠ .periodic then
    .error (.abort .queueingError)
  else if list.length = 0 then enqueue pd list task
  else do
    let (elementPrev, element) ← insertScan pd task fuel none list.head
    return insertAt pd list task elementPrev element

end

variable {pd pd' : α → PD α} {q q' : TaskQueue α} {l : List α} {x : α} {fuel : ℕ}

/-! ### The search -/

theorem insertScan_eq (pd : α → PD α) (x : α) (fuel : ℕ) (prev h : Option α) :
    insertScan pd x fuel prev h =
      (scan (fun p => (pd p).next) (fun e => later (pd x).toTask (pd e).toTask)
        fuel prev h).elim (.error .diverges) .ok := by
  induction fuel generalizing prev h with
  | zero => cases h <;> rfl
  | succ fuel ih =>
    cases h with
    | none => rfl
    | some e =>
      rw [insertScan, scan, ih]
      split <;> rfl

/-! ### What the operations do to the queue -/

variable [DecidableEq α]

/-- A queue with an element is searched. -/
theorem insert_seg (h : q.Holds pd l) (ht : q.type = .periodic) (hp : (pd x).priority = .periodic)
    (hl : l ≠ []) (fuel : ℕ) :
    insert pd q x fuel = .ok (insertAt pd q x
        (l.takeWhile fun e => later (pd x).toTask (pd e).toTask).getLast?
        (l.dropWhile fun e => later (pd x).toTask (pd e).toTask).head?) ∨
      insert pd q x fuel = .error .diverges ∧ fuel < l.length := by
  rw [insert, if_neg (by simp [ht, hp]), if_neg (fun e => hl (h.length_eq_zero.1 e))]
  rcases scan_seg h.linked.seg fuel none with hok | ⟨hnone, hlt⟩
  · rw [insertScan_eq, hok, Option.or_none]
    exact Or.inl rfl
  · rw [insertScan_eq, hnone]
    exact Or.inr ⟨rfl, hlt⟩

/-- **The first place.** -/
theorem insertAt_front (h : q.Holds pd l) (hl : l ≠ []) (hx : x ∉ l) (hlen : l.length < 255) :
    (insertAt pd q x none l.head?).2.Holds (insertAt pd q x none l.head?).1 (x :: l) := by
  have hq := h.length_eq
  refine ⟨?_, ?_⟩
  · show Linked (fun p => (setNext pd x l.head? p).next) (some x) q.tail (x :: l)
    rw [next_setNext, ← h.linked.head_eq]
    exact h.linked.insertFront hl hx
  · show (q.length + 1).toNat = (x :: l).length
    rw [toNat_add_one (by omega), hq, List.length_cons]

/-- **The last place.** -/
theorem insertAt_end (h : q.Holds pd l) {p : α} (hlast : l.getLast? = some p) (hx : x ∉ l)
    (hn : (pd x).next = none) (hlen : l.length < 255) :
    (insertAt pd q x (some p) none).2.Holds (insertAt pd q x (some p) none).1 (l ++ [x]) := by
  have hq := h.length_eq
  have hxp : x ≠ p := fun e => hx (e ▸ List.mem_of_getLast? hlast)
  refine ⟨?_, ?_⟩
  · show Linked (fun a => (setNext (setNext pd p (some x)) x none a).next) q.head (some x)
      (l ++ [x])
    have hpush := h.linked.push (h.linked.tail_eq.trans hlast) hx hn
    have hself : Function.update (Function.update (fun a => (pd a).next) p (some x)) x none =
        Function.update (fun a => (pd a).next) p (some x) := by
      rw [Function.update_eq_self_iff, Function.update_of_ne hxp, hn]
    rw [next_setNext, next_setNext, hself]
    exact hpush
  · show (q.length + 1).toNat = (l ++ [x]).length
    rw [toNat_add_one (by omega), hq, List.length_append, List.length_singleton]

/-- **Any other place.**  The task and its successor link to each other. -/
theorem insertAt_between {p e : α} (hx : x ≠ e) :
    ((insertAt pd q x (some p) (some e)).1 x).next = some e ∧
      ((insertAt pd q x (some p) (some e)).1 e).next = some x := by
  have hnext : (fun a => ((insertAt pd q x (some p) (some e)).1 a).next) =
      Function.update (Function.update (fun a => (pd a).next) e (some x)) x (some e) := by
    show (fun a => (setNext (setNext pd e (some x)) x (some e) a).next) = _
    rw [next_setNext, next_setNext]
  constructor
  · rw [congrFun hnext x, Function.update_self]
  · rw [congrFun hnext e, Function.update_of_ne hx.symm, Function.update_self]

/-- The last link of a queue is null already, so that it need not be cleared. -/
theorem deque_eq {a : α} (h : q.Holds pd (a :: l)) : deque pd q = do
    let (x, pd', q') ← RoombaRtos.deque pd q
    return (some x, pd', q') := by
  have hne : q.length ≠ 0 := fun e => by simpa using h.length_eq_zero.1 e
  have hhead : q.head = some a := h.linked.head_eq
  have hlen : q.length.toNat = l.length + 1 := h.length_eq
  unfold deque RoombaRtos.deque
  rw [if_neg hne, if_neg hne, hhead]
  by_cases h0 : q.length - 1 = 0
  · have hl : l = [] := by
      have hpred := toNat_sub_one (n := q.length) (by omega)
      rw [h0, hlen] at hpred
      exact List.length_eq_zero_iff.1 hpred.symm
    subst hl
    have hself : setNext pd a none = pd := by
      have hnext : (pd a).next = none := h.linked.seg.2
      rw [setNext, Function.update_eq_self_iff, ← hnext]
    simp only [h0, if_true, hself]
    cases (queueInit q.type : Except Halt (TaskQueue α)) <;> rfl
  · simp only [if_neg h0]
    rfl

/-- **Dequeue.**  The head is returned, and links to nothing. -/
theorem deque_cons {a : α} (h : q.Holds pd (a :: l)) (ht : q.type ≠ .unlisted) :
    ∃ pd' q', deque pd q = .ok (some a, pd', q') ∧ q'.Holds pd' l ∧ q'.type = q.type ∧
      Relinked [a] pd pd' ∧ (pd' a).next = none := by
  obtain ⟨q', hdeq, hq, htype⟩ := RoombaRtos.deque_cons h ht
  refine ⟨setNext pd a none, q', ?_, hq, htype, Relinked.setNext (by simp) none, by simp [setNext]⟩
  rw [deque_eq h, hdeq]
  rfl

/-- Where the queue holds a list the search of `insert` ends. -/
theorem insert_returns (h : q.Holds pd l) (ht : q.type = .periodic)
    (hp : (pd x).priority = .periodic) : ∃ fuel r, insert pd q x fuel = .ok r := by
  by_cases hl : l = []
  · refine ⟨0, (pd, { q with head := some x, tail := some x, length := 1 }), ?_⟩
    have h0 : q.length = 0 := h.length_eq_zero.2 hl
    rw [insert, if_neg (by simp [ht, hp]), if_pos h0, enqueue, if_neg (by simp [ht, hp]), if_pos h0]
  · rcases insert_seg h ht hp hl l.length with hok | ⟨-, hlt⟩
    · exact ⟨l.length, _, hok⟩
    · exact absurd hlt (lt_irrefl _)

/-! ### What they leave alone -/

theorem enqueue_frame (h : enqueue pd q x = .ok (pd', q')) :
    q'.type = q.type ∧ ∀ p, (pd' p).toTask = (pd p).toTask := by
  unfold enqueue at h
  split_ifs at h
  · cases h
    exact ⟨rfl, fun _ => rfl⟩
  · cases htail : q.tail with
    | none =>
      rw [htail] at h
      cases h
    | some t =>
      rw [htail] at h
      cases h
      exact ⟨rfl, fun p => toTask_setNext pd t p _⟩

theorem insertAt_relinked (prev element : Option α) :
    Relinked (x :: (prev.toList ++ element.toList)) pd (insertAt pd q x prev element).1 := by
  cases prev with
  | none => exact Relinked.setNext (by simp) _
  | some a =>
    cases element with
    | none => exact (Relinked.setNext (by simp) _).trans (Relinked.setNext (by simp) _)
    | some e => exact (Relinked.setNext (by simp) _).trans (Relinked.setNext (by simp) _)

theorem insertAt_type (prev element : Option α) :
    (insertAt pd q x prev element).2.type = q.type := by
  cases prev with
  | none => rfl
  | some a => cases element <;> rfl

theorem insert_frame (h : insert pd q x fuel = .ok (pd', q')) :
    q'.type = q.type ∧ ∀ p, (pd' p).toTask = (pd p).toTask := by
  unfold insert at h
  split_ifs at h
  · exact enqueue_frame h
  · obtain ⟨⟨prev, element⟩, -, hat⟩ := bind_ok h
    have hr : insertAt pd q x prev element = (pd', q') := Except.ok.inj hat
    have htype : (insertAt pd q x prev element).2.type = q.type := insertAt_type prev element
    have htask : ∀ p, ((insertAt pd q x prev element).1 p).toTask = (pd p).toTask :=
      (insertAt_relinked prev element).task
    rw [hr] at htype htask
    exact ⟨htype, htask⟩

theorem deque_frame {o : Option α} (h : deque pd q = .ok (o, pd', q')) :
    q'.type = q.type ∧ ∀ p, (pd' p).toTask = (pd p).toTask := by
  unfold deque at h
  simp only at h
  split_ifs at h
  · obtain ⟨list', hinit, hret⟩ := bind_ok h
    cases hret
    unfold queueInit at hinit
    split_ifs at hinit
    cases hinit
    exact ⟨rfl, fun _ => rfl⟩
  · cases hhead : q.head with
    | none =>
      rw [hhead] at h
      cases h
    | some a =>
      rw [hhead] at h
      cases h
      exact ⟨rfl, fun p => toTask_setNext pd a p _⟩

/-! ### Runs -/

/-- The descriptors and the queue, with the tasks that are in it according to the calls. -/
structure Timetable (α : Type) where
  pd : α → PD α
  queue : TaskQueue α
  members : List α

inductive Call (α : Type)
  | insert (task : α)
  | deque
deriving DecidableEq, Repr

namespace Timetable

variable {epoch : OverflowState} {s s' : Timetable α} {c : Call α}

/-- An empty queue, before any descriptor was linked. -/
def start (tasks : α → Task α) : Timetable α :=
  { pd := fun p => { tasks p with next := none }
    queue := { head := none, tail := none, length := 0, type := .periodic }
    members := [] }

/-- A call that returns.  The tasks that are inserted are not in the queue, and start in the same
epoch of the clock. -/
def Step (epoch : OverflowState) (s : Timetable α) : Call α → Timetable α → Prop
  | .insert x, s' => x ∉ s.members ∧ (s.pd x).priority = .periodic ∧ (s.pd x).clockState = epoch ∧
      (∃ fuel, insert s.pd s.queue x fuel = .ok (s'.pd, s'.queue)) ∧ s'.members = x :: s.members
  | .deque, s' => ∃ x, deque s.pd s.queue = .ok (some x, s'.pd, s'.queue) ∧
      s'.members = s.members.erase x

/-- The queue is the list `l`, which has exactly the members, by the time of their next start. -/
structure Lists (s : Timetable α) (l : List α) : Prop where
  holds : s.queue.Holds s.pd l
  perm : l.Perm s.members
  sorted : l.Pairwise fun a b => (s.pd a).tons ≤ (s.pd b).tons

structure Sound (s : Timetable α) : Prop where
  lists : ∃ l, s.Lists l
  /-- Tasks outside of the queue link to nothing. -/
  free : ∀ p, p ∉ s.members → (s.pd p).next = none
  returns : ∀ x, (s.pd x).priority = .periodic → ∃ fuel r, insert s.pd s.queue x fuel = .ok r

/-- Some task in the queue starts before `x`, and another one does not. -/
def Between (s : Timetable α) (x : α) : Prop :=
  (∃ a ∈ s.members, (s.pd a).tons < (s.pd x).tons) ∧
    ∃ b ∈ s.members, (s.pd x).tons ≤ (s.pd b).tons

/-- The call does not insert between two tasks, nor into a queue whose length is at its bound. -/
def AtAnEnd (s : Timetable α) : Call α → Prop
  | .insert x => s.members.length < 255 ∧ ¬ s.Between x
  | .deque => True

/-- What every call keeps, whatever it does to the links. -/
structure InEpoch (epoch : OverflowState) (s : Timetable α) : Prop where
  type_eq : s.queue.type = .periodic
  clockState : ∀ p ∈ s.members, (s.pd p).clockState = epoch

theorem Step.inEpoch (h : Step epoch s c s') (hs : s.InEpoch epoch) : s'.InEpoch epoch := by
  cases c with
  | insert x =>
    obtain ⟨-, -, hclock, ⟨fuel, hins⟩, hmem⟩ := h
    obtain ⟨htype, htask⟩ := insert_frame hins
    refine ⟨htype.trans hs.type_eq, fun p hp => ?_⟩
    rw [congrArg Task.clockState (htask p)]
    rw [hmem] at hp
    rcases List.mem_cons.1 hp with rfl | hp
    · exact hclock
    · exact hs.clockState p hp
  | deque =>
    obtain ⟨x, hdeq, hmem⟩ := h
    obtain ⟨htype, htask⟩ := deque_frame hdeq
    refine ⟨htype.trans hs.type_eq, fun p hp => ?_⟩
    rw [congrArg Task.clockState (htask p)]
    rw [hmem] at hp
    exact hs.clockState p (List.mem_of_mem_erase hp)

/-! ### Every call keeps the order, or does not -/

theorem Sound.length_lt (h : s.Sound) : s.members.length < 256 := by
  obtain ⟨l, hl⟩ := h.lists
  rw [← hl.perm.length_eq]
  exact hl.holds.length_lt

/-- What holds of the list of the queue is enough. -/
theorem Lists.sound {l : List α} (h : s.Lists l) (ht : s.queue.type = .periodic)
    (hfree : ∀ p, p ∉ s.members → (s.pd p).next = none) : s.Sound :=
  ⟨⟨l, h⟩, hfree, fun _ hp => insert_returns h.holds ht hp⟩

omit [DecidableEq α] in
/-- In one epoch the search moves past the tasks that start before. -/
theorem InEpoch.later_iff (h : s.InEpoch epoch) {x e : α} (hx : (s.pd x).clockState = epoch)
    (he : e ∈ s.members) :
    later (s.pd x).toTask (s.pd e).toTask = true ↔ (s.pd e).tons < (s.pd x).tons := by
  have hclock : (s.pd x).clockState = (s.pd e).clockState := hx.trans (h.clockState e he).symm
  simp [later, hclock]

theorem Step.deque_sound (hs : s.InEpoch epoch) (h : s.Sound) (hstep : Step epoch s .deque s') :
    s'.Sound := by
  have hepoch := hstep.inEpoch hs
  obtain ⟨x, hdeq, hmem⟩ := hstep
  obtain ⟨l, hl⟩ := h.lists
  cases l with
  | nil =>
    rw [deque, if_pos (hl.holds.length_eq_zero.2 rfl)] at hdeq
    cases hdeq
  | cons a l =>
    obtain ⟨pd', q', hdeq', hq, -, hrel, hnext⟩ := deque_cons hl.holds (by simp [hs.type_eq])
    obtain ⟨hax, hpd, hqueue⟩ : a = x ∧ pd' = s'.pd ∧ q' = s'.queue := by
      have heq := Except.ok.inj (hdeq'.symm.trans hdeq)
      exact ⟨Option.some.inj (congrArg (·.1) heq), congrArg (·.2.1) heq, congrArg (·.2.2) heq⟩
    subst hax hpd hqueue
    have hperm : l.Perm s'.members := by
      have herase := hl.perm.erase a
      rwa [List.erase_cons_head, ← hmem] at herase
    have hlists : s'.Lists l := by
      refine ⟨hq, hperm, ?_⟩
      apply (List.pairwise_cons.1 hl.sorted).2.imp
      intro b c hbc
      rw [congrArg Task.tons (hrel.task b), congrArg Task.tons (hrel.task c)]
      exact hbc
    refine hlists.sound hepoch.type_eq fun p hp => ?_
    by_cases hpa : p = a
    · rw [hpa, hnext]
    · rw [hrel.other p (by simpa using hpa)]
      apply h.free
      intro hm
      exact hp (hmem ▸ (List.mem_erase_of_ne hpa).2 hm)

/-- A task has been put in its place in the list. -/
theorem Sound.grow {x : α} {l l' : List α} (h : s.Sound) (hl : s.Lists l)
    (ht : s'.queue.type = .periodic) (hmem : s'.members = x :: s.members)
    (hq : s'.queue.Holds s'.pd l') (hperm : l'.Perm (x :: l))
    (hrel : Relinked (x :: l) s.pd s'.pd)
    (hsorted : l'.Pairwise fun a b => (s.pd a).tons ≤ (s.pd b).tons) : s'.Sound := by
  have hlists : s'.Lists l' := by
    refine ⟨hq, ?_, ?_⟩
    · rw [hmem]
      exact hperm.trans (hl.perm.cons x)
    · apply hsorted.imp
      intro a b hab
      rw [congrArg Task.tons (hrel.task a), congrArg Task.tons (hrel.task b)]
      exact hab
  refine hlists.sound ht fun p hp => ?_
  rw [hmem] at hp
  rw [hrel.other p (fun hm => hp ((hl.perm.cons x).mem_iff.1 hm))]
  exact h.free p (fun hm => hp (List.mem_cons_of_mem x hm))

/-- The task is alone. -/
theorem Sound.insert_empty {x : α} {fuel : ℕ} (h : s.Sound) (hl : s.Lists [])
    (htype : s.queue.type = .periodic) (hp : (s.pd x).priority = .periodic) (hx : x ∉ s.members)
    (ht : s'.queue.type = .periodic) (hmem : s'.members = x :: s.members)
    (hins : insert s.pd s.queue x fuel = .ok (s'.pd, s'.queue)) : s'.Sound := by
  rw [insert, if_neg (by simp [htype, hp]), if_pos (hl.holds.length_eq_zero.2 rfl)] at hins
  obtain ⟨pd', q', hadd, hq, -, hrel⟩ := enqueue_append hl.holds (hp.trans htype.symm)
    List.not_mem_nil (h.free x hx) (by simp)
  obtain ⟨rfl, rfl⟩ : pd' = s'.pd ∧ q' = s'.queue :=
    Prod.mk.inj (Except.ok.inj (hadd.symm.trans hins))
  exact h.grow hl ht hmem hq (List.Perm.refl _) (hrel.mono (by simp)) (List.pairwise_singleton _ x)

/-- The task starts before all others. -/
theorem Sound.insert_front {x : α} {l : List α} (h : s.Sound) (hl : s.Lists l) (hnil : l ≠ [])
    (hx : x ∉ l) (hlen : l.length < 255) (ht : s'.queue.type = .periodic)
    (hmem : s'.members = x :: s.members)
    (hat : (s'.pd, s'.queue) = insertAt s.pd s.queue x none l.head?)
    (hle : ∀ e ∈ l, (s.pd x).tons ≤ (s.pd e).tons) : s'.Sound := by
  have hq := insertAt_front hl.holds hnil hx hlen
  have hrel : Relinked _ s.pd (insertAt s.pd s.queue x none l.head?).1 :=
    insertAt_relinked none l.head?
  rw [← hat] at hq hrel
  refine h.grow hl ht hmem hq (List.Perm.refl _) (hrel.mono ?_)
    (List.pairwise_cons.2 ⟨hle, hl.sorted⟩)
  intro p hp
  rcases List.mem_cons.1 hp with rfl | hp
  · exact List.mem_cons_self
  · exact List.mem_cons_of_mem x (List.mem_of_head? (by simpa using hp))

/-- The task starts after all others. -/
theorem Sound.insert_end {x : α} {l : List α} (h : s.Sound) (hl : s.Lists l) (hnil : l ≠ [])
    (hx : x ∉ s.members) (hlen : l.length < 255) (ht : s'.queue.type = .periodic)
    (hmem : s'.members = x :: s.members)
    (hat : (s'.pd, s'.queue) = insertAt s.pd s.queue x l.getLast? none)
    (hlt : ∀ e ∈ l, (s.pd e).tons < (s.pd x).tons) : s'.Sound := by
  obtain ⟨p, hlast⟩ : ∃ p, l.getLast? = some p := ⟨_, List.getLast?_eq_some_getLast hnil⟩
  have hxl : x ∉ l := fun hm => hx (hl.perm.mem_iff.1 hm)
  rw [hlast] at hat
  have hq := insertAt_end hl.holds hlast hxl (h.free x hx) hlen
  have hrel : Relinked _ s.pd (insertAt s.pd s.queue x (some p) none).1 :=
    insertAt_relinked (some p) none
  rw [← hat] at hq hrel
  refine h.grow hl ht hmem hq (List.perm_append_singleton x l) (hrel.mono ?_) ?_
  · intro a ha
    rcases List.mem_cons.1 ha with rfl | ha
    · exact List.mem_cons_self
    · obtain rfl : a = p := by simpa using ha
      exact List.mem_cons_of_mem x (List.mem_of_getLast? hlast)
  · refine List.pairwise_append.2 ⟨hl.sorted, List.pairwise_singleton _ x, ?_⟩
    intro a ha b hb
    rw [List.mem_singleton.1 hb]
    exact BitVec.le_of_lt (hlt a ha)

omit [DecidableEq α] in
/-- The task is linked to its successor, and its successor to the task. -/
theorem not_sound_of_cycle {x e : α} (hx : x ∈ s.members) (hxe : (s.pd x).next = some e)
    (hex : (s.pd e).next = some x) : ¬ ∃ l, s.Lists l := by
  rintro ⟨l, hl⟩
  exact hl.holds.linked.notMem_of_cycle hxe hex (hl.perm.mem_iff.2 hx)

/-- **A task is inserted.**  The queue stays as it should exactly if the task comes first, or
last. -/
theorem Step.insert_sound_iff {x : α} (hs : s.InEpoch epoch) (h : s.Sound)
    (hstep : Step epoch s (.insert x) s') :
    s'.Sound ↔ s.members.length < 255 ∧ ¬ s.Between x := by
  have ht' := (hstep.inEpoch hs).type_eq
  obtain ⟨hx, hp, hclock, ⟨fuel, hins⟩, hmem⟩ := hstep
  obtain ⟨l, hl⟩ := h.lists
  have hin : ∀ {a}, a ∈ l ↔ a ∈ s.members := hl.perm.mem_iff
  have hxl : x ∉ l := fun hm => hx (hin.1 hm)
  have hlen : l.length = s.members.length := hl.perm.length_eq
  -- the length of the queue is a byte
  have hbound : s'.Sound → s.members.length < 255 := by
    intro hs'
    have hlt := hs'.length_lt
    rw [hmem, List.length_cons] at hlt
    omega
  by_cases hnil : l = []
  · subst hnil
    have hnone : ¬ s.Between x := fun hb => by
      obtain ⟨a, ha, -⟩ := hb.1
      cases hin.2 ha
    exact ⟨fun hs' => ⟨hbound hs', hnone⟩, fun _ =>
      h.insert_empty hl hs.type_eq hp hx ht' hmem hins⟩
  have hat : (s'.pd, s'.queue) = insertAt s.pd s.queue x
      (l.takeWhile fun e => later (s.pd x).toTask (s.pd e).toTask).getLast?
      (l.dropWhile fun e => later (s.pd x).toTask (s.pd e).toTask).head? := by
    rcases insert_seg hl.holds hs.type_eq hp hnil fuel with hok | ⟨herr, -⟩
    · exact Except.ok.inj (hins.symm.trans hok)
    · rw [hins] at herr
      cases herr
  have hsorted : l.Pairwise fun a b => (s.pd a).tons.toNat ≤ (s.pd b).tons.toNat := hl.sorted
  rcases search_sorted hsorted fun e he => hs.later_iff hclock (hin.1 he) with
    ⟨hfirst, hdrop, hle⟩ | ⟨htake, hlast, hlt⟩ | ⟨p, e, hprev, helem, hpl, hpx, hel, hxe⟩
  · have hnone : ¬ s.Between x := by
      rintro ⟨⟨a, ha, hlt⟩, -⟩
      exact BitVec.not_lt.2 (hle a (hin.2 ha)) hlt
    rw [hfirst, hdrop] at hat
    exact ⟨fun hs' => ⟨hbound hs', hnone⟩, fun hcond =>
      h.insert_front hl hnil hxl (hlen ▸ hcond.1) ht' hmem hat hle⟩
  · have hnone : ¬ s.Between x := by
      rintro ⟨-, b, hb, hle⟩
      exact BitVec.not_lt.2 hle (hlt b (hin.2 hb))
    rw [htake, hlast] at hat
    exact ⟨fun hs' => ⟨hbound hs', hnone⟩, fun hcond =>
      h.insert_end hl hnil hx (hlen ▸ hcond.1) ht' hmem hat hlt⟩
  · -- `p` starts before `x`, and `e` does not
    have hbetween : s.Between x := ⟨⟨p, hin.1 hpl, hpx⟩, e, hin.1 hel, hxe⟩
    rw [hprev, helem] at hat
    obtain ⟨hnext, hback⟩ : (s'.pd x).next = some e ∧ (s'.pd e).next = some x := by
      have hcycle : ((insertAt s.pd s.queue x (some p) (some e)).1 x).next = some e ∧
          ((insertAt s.pd s.queue x (some p) (some e)).1 e).next = some x :=
        insertAt_between (fun hxe : x = e => hxl (hxe ▸ hel))
      rwa [← hat] at hcycle
    have hlost := not_sound_of_cycle (hmem ▸ List.mem_cons_self) hnext hback
    exact ⟨fun hs' => absurd hs'.lists hlost, fun hno => absurd hbetween hno.2⟩

/-! ### Whole runs -/

theorem start_sound (tasks : α → Task α) : (start tasks).Sound := by
  have hlists : (start tasks).Lists [] :=
    ⟨TaskQueue.Holds.nil _ _, List.Perm.refl _, List.Pairwise.nil⟩
  exact hlists.sound rfl fun _ _ => rfl

/-- **The periodic queue of the second project, exactly.**  Whatever tasks of one epoch are
inserted and dequeued, the runs in which the queue is always a list of the inserted tasks, sorted by
their start times, are those in which no task is inserted between two others. -/
theorem sound_iff (epoch : OverflowState) (tasks : α → Task α) (cs : List (Call α))
    (s : Timetable α) :
    Run (fun s c s' => Step epoch s c s' ∧ s'.Sound) (start tasks) cs s ↔
      Run (fun s c s' => Step epoch s c s' ∧ s.AtAnEnd c) (start tasks) cs s := by
  apply Run.keeps_iff (I := InEpoch epoch)
  · exact fun s c s' hs hstep => hstep.inEpoch hs
  · intro s c s' hs h hstep
    cases c with
    | insert x => exact hstep.insert_sound_iff hs h
    | deque => exact ⟨fun _ => trivial, fun _ => hstep.deque_sound hs h⟩
  · exact ⟨rfl, by simp [start]⟩
  · exact start_sound tasks

/-- Tasks that start at the times that are their names. -/
def byName (p : ℕ) : Task ℕ := { priority := .periodic, tons := BitVec.ofNat 16 p }

/-- A third task that starts between two others is linked with the second one in a ring, which the
search for the place of a fourth one never leaves. -/
theorem ring_of_three : ∃ s : Timetable ℕ,
    Run (Step .even) (start byName) [.insert 10, .insert 30, .insert 20] s ∧ ¬ s.Sound ∧
      ∀ fuel, insert s.pd s.queue 40 fuel = .error .diverges := by
  let pd₁ := setNext (setNext (start byName).pd 10 (some 30)) 30 none
  let pd₂ := setNext (setNext pd₁ 30 (some 20)) 20 (some 30)
  have h10 : Step .even (start byName) (.insert 10)
      { pd := (start byName).pd, queue := ⟨some 10, some 10, 1, .periodic⟩, members := [10] } :=
    ⟨by decide, rfl, rfl, ⟨0, rfl⟩, rfl⟩
  have h30 : Step .even
      { pd := (start byName).pd, queue := ⟨some 10, some 10, 1, .periodic⟩, members := [10] }
      (.insert 30)
      { pd := pd₁, queue := ⟨some 10, some 30, 2, .periodic⟩, members := [30, 10] } :=
    ⟨by decide, rfl, rfl, ⟨1, rfl⟩, rfl⟩
  have h20 : Step .even
      { pd := pd₁, queue := ⟨some 10, some 30, 2, .periodic⟩, members := [30, 10] } (.insert 20)
      { pd := pd₂, queue := ⟨some 10, some 30, 3, .periodic⟩, members := [20, 30, 10] } :=
    ⟨by simp, rfl, rfl, ⟨2, rfl⟩, rfl⟩
  refine ⟨_, ((Run.single h10).snoc h30).snoc h20, ?_, ?_⟩
  · intro h
    exact not_sound_of_cycle (x := 20) (e := 30) (by simp) rfl rfl h.lists
  · intro fuel
    -- 10, 30, 20, 30, 20, …
    have hscan : insertScan pd₂ 40 fuel none (some 10) = .error .diverges := by
      cases fuel with
      | zero => rfl
      | succ fuel =>
        have hring : scan (fun p => (pd₂ p).next) (fun e => later (pd₂ 40).toTask (pd₂ e).toTask)
            fuel (some 10) (some 30) = none := by
          refine (scan_cycle (b := 20) ?_ ?_ ?_ ?_ fuel (some 10)).1 <;> rfl
        rw [insertScan_eq]
        show (scan _ _ fuel (some 10) (some 30)).elim _ _ = _
        rw [hring]
        rfl
    show (insertScan pd₂ 40 fuel none (some 10) >>= _) = _
    rw [hscan]
    rfl

end Timetable

end Project2

end RoombaRtos
