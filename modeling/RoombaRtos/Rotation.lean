import RoombaRtos.Process

/-!
# Rotating a queue to its first ready task

`Queue_Rotate_Ready` of `kernel/kernel.c`, and the two ways in which the kernel moves the head
of a queue, `enqueue(q, deque(q))` and `insert(q, deque(q), sys_clock)`.

* `requeueHead_append`, `reinsertHead_place` — the head goes to the end, or to its place;
* `queueRotateReady_find` — a queue of system or round-robin tasks is rotated to its first
  ready task, and is left alone when there is none;
* `queueRotateReady_exactly` — the same for any place of the first ready task;
* `queueRotateReady_front` — a queue whose head is ready is left alone.
-/

namespace RoombaRtos

open LinkedChain ListQueue

variable {α : Type} [DecidableEq α]

/-- `enqueue(queue, deque(queue))`. -/
def requeueHead (pd : α → PD α) (queue : TaskQueue α) :
    Except Halt ((α → PD α) × TaskQueue α) := do
  let (task, pd, queue) ← deque pd queue
  enqueue pd queue task

/-- `insert(queue, deque(queue), sys_clock)`. -/
def reinsertHead (pd : α → PD α) (queue : TaskQueue α) (sysClock : Tick) :
    Except Halt ((α → PD α) × TaskQueue α) := do
  let (task, pd, queue) ← deque pd queue
  insert pd queue task sysClock

/-- The `do`-`while` loop of `Queue_Rotate_Ready`, entered with `iter_task = iterTask`: it stops
on a ready task or when `first` is in front again. -/
def rotateLoop (sysClock : Tick) (first : α) :
    ℕ → (α → PD α) → TaskQueue α → α → Except Halt (α × (α → PD α) × TaskQueue α)
  | 0, _, _, _ => .error .diverges
  | fuel + 1, pd, queue, iterTask =>
      if (pd iterTask).state ≠ .ready then do
        let (pd, queue) ←
          if queue.type = .periodic then reinsertHead pd queue sysClock
          else requeueHead pd queue
        match peek queue with
        | none => .error .undefinedAccess
        | some iterTask =>
            if iterTask ≠ first then rotateLoop sysClock first fuel pd queue iterTask
            else .ok (iterTask, pd, queue)
      else .ok (iterTask, pd, queue)

/-- Finds the first ready task and rotates the queue so that it is at the front. -/
def queueRotateReady (pd : α → PD α) (queue : TaskQueue α) (sysClock : Tick) :
    Except Halt (Option α × (α → PD α) × TaskQueue α) :=
  match peek queue with
  | none => .error .undefinedAccess
  | some first => do
      let (iterTask, pd, queue) ←
        rotateLoop sysClock first queue.length.toNat pd queue first
      if (pd iterTask).state ≠ .ready then return (none, pd, queue)
      else return (some iterTask, pd, queue)

section Specifications

variable {pd : α → PD α} {q : TaskQueue α} {l s r : List α} {x first : α} {sysClock : Tick}

omit [DecidableEq α] in
theorem Relinked.priority {S : List α} {pd pd' : α → PD α} (h : Relinked S pd pd') (p : α) :
    (pd' p).priority = (pd p).priority :=
  congrArg Task.priority (h.task p)

omit [DecidableEq α] in
theorem Relinked.state {S : List α} {pd pd' : α → PD α} (h : Relinked S pd pd') (p : α) :
    (pd' p).state = (pd p).state :=
  congrArg Task.state (h.task p)

/-- The head of a queue goes to its end. -/
theorem requeueHead_append (h : q.Holds pd (x :: l)) (hp : (pd x).priority = q.type)
    (ht : q.type ≠ .unlisted) :
    ∃ pd' q', requeueHead pd q = .ok (pd', q') ∧ q'.Holds pd' (l ++ [x]) ∧ q'.type = q.type ∧
      Relinked (x :: l) pd pd' := by
  have hlen := h.length_lt
  have hx : x ∉ l := (List.nodup_cons.1 h.linked.nodup).1
  have hr : Relinked (x :: l) pd (setNext pd x none) := Relinked.setNext (by simp) none
  obtain ⟨q₁, hd, hq₁, ht₁⟩ := deque_cons h ht
  obtain ⟨pd', q', he, hq', ht', hr'⟩ :=
    enqueue_append hq₁ (by rw [hr.priority, hp, ht₁]) hx (by simp [setNext])
      (by simp at hlen; omega)
  refine ⟨pd', q', ?_, hq', ht'.trans ht₁, hr.trans (hr'.mono (by simp; tauto))⟩
  rw [requeueHead, hd]
  exact he

/-- The head of the periodic queue takes its place anew. -/
theorem reinsertHead_place (h : q.Holds pd (x :: l)) (hp : (pd x).priority = .periodic)
    (ht : q.type = .periodic) (sysClock : Tick) :
    ∃ pd' q', reinsertHead pd q sysClock = .ok (pd', q') ∧
      q'.Holds pd'
        (placeBehind (fun e => scansPast (pd x).toTask sysClock (pd e).toTask) x l) ∧
      q'.type = q.type ∧ Relinked (x :: l) pd pd' := by
  have hlen := h.length_lt
  have hx : x ∉ l := (List.nodup_cons.1 h.linked.nodup).1
  have hr : Relinked (x :: l) pd (setNext pd x none) := Relinked.setNext (by simp) none
  obtain ⟨q₁, hd, hq₁, ht₁⟩ := deque_cons h (by simp [ht])
  obtain ⟨pd', q', he, hq', ht', hr'⟩ :=
    insert_place hq₁ (ht₁.trans ht) (by rw [hr.priority, hp]) hx (by simp [setNext])
      (by simp at hlen; omega) sysClock
  simp only [toTask_setNext] at hq'
  refine ⟨pd', q', ?_, hq', ht'.trans ht₁, hr.trans hr'⟩
  rw [reinsertHead, hd]
  exact he

/-- The loop goes round the queue until a ready task is in front.  The tasks `s` have been
passed over, the tasks `r` have not. -/
theorem rotateLoop_find {rd : α → Bool} {iterTask : α} {fuel : ℕ}
    (h : q.Holds pd (r ++ s)) (hiter : r.head? = some iterTask)
    (hfirst : (s ++ r).head? = some first) (hs : ∀ p ∈ s, rd p = false)
    (hfuel : r.length ≤ fuel) (hrd : ∀ p, rd p = true ↔ (pd p).state = .ready)
    (hp : ∀ p ∈ r ++ s, (pd p).priority = q.type) (ht : q.type ≠ .unlisted)
    (ht' : q.type ≠ .periodic) :
    ∃ p pd' q', rotateLoop sysClock first fuel pd q iterTask = .ok (p, pd', q') ∧
      (rotateTo rd (s ++ r)).head? = some p ∧ q'.Holds pd' (rotateTo rd (s ++ r)) ∧
      q'.type = q.type ∧ Relinked (r ++ s) pd pd' := by
  induction fuel generalizing pd q r s iterTask with
  | zero =>
    have hr : r = [] := List.length_eq_zero_iff.1 (Nat.le_zero.1 hfuel)
    simp [hr] at hiter
  | succ fuel ih =>
    cases r with
    | nil => simp at hiter
    | cons x r =>
      have hx : x = iterTask := by simpa using hiter
      subst hx
      rw [rotateLoop]
      cases hready : rd x with
      | true =>
        rw [if_neg (not_not_intro ((hrd x).1 hready)), rotateTo_append_cons hs hready]
        exact ⟨x, pd, q, rfl, rfl, h, rfl, Relinked.refl _ _⟩
      | false =>
        have hst : (pd x).state ≠ .ready := by
          intro he
          rw [(hrd x).2 he] at hready
          cases hready
        obtain ⟨pd₁, q₁, he, hq₁, ht₁, hr₁⟩ :=
          requeueHead_append (l := r ++ s) h (hp x (by simp)) ht
        have hs' : ∀ p ∈ s ++ [x], rd p = false := by
          intro p hmem
          rcases List.mem_append.1 hmem with hmem | hmem
          · exact hs p hmem
          · rw [List.mem_singleton.1 hmem, hready]
        rw [if_pos hst, if_neg ht', he]
        simp only [Lockstep.ok_bind]
        cases r with
        | nil =>
          -- the queue has been gone round once
          have hhead : peek q₁ = some first := by
            rw [hq₁.peek_eq]
            simpa using hfirst
          rw [hhead, rotateTo_eq_self hs']
          refine ⟨first, pd₁, q₁, by simp, hfirst, by simpa using hq₁, ht₁, by simpa using hr₁⟩
        | cons b r =>
          have hne : b ≠ first := by
            have hnd := h.linked.nodup
            intro heq
            subst heq
            cases s with
            | nil =>
              have : x = b := by simpa using hfirst
              simp [this] at hnd
            | cons c s =>
              have : c = b := by simpa using hfirst
              simp [this] at hnd
          have hhead : peek q₁ = some b := by
            rw [hq₁.peek_eq]
            simp
          rw [hhead]
          simp only [if_pos hne]
          obtain ⟨p, pd', q', hloop, hh, hq', ht'', hr'⟩ :=
            ih (r := b :: r) (s := s ++ [x]) (by simpa using hq₁) rfl (by simpa using hfirst) hs'
              (by simpa using hfuel)
              (fun p => by rw [hrd, hr₁.state])
              (fun p hmem => by
                rw [hr₁.priority, ht₁]
                exact hp p (by simp at hmem ⊢; tauto))
              (by rw [ht₁]; exact ht) (by rw [ht₁]; exact ht')
          refine ⟨p, pd', q', hloop, by simpa using hh, by simpa using hq', ht''.trans ht₁, ?_⟩
          exact (hr₁.mono (by simp)).trans (hr'.mono (by simp; tauto))

/-- **Rotation.**  A queue of system or round-robin tasks is rotated to its first ready task. -/
theorem queueRotateReady_find {rd : α → Bool} (h : q.Holds pd l) (hl : l ≠ [])
    (hrd : ∀ p, rd p = true ↔ (pd p).state = .ready)
    (hp : ∀ p ∈ l, (pd p).priority = q.type) (ht : q.type ≠ .unlisted)
    (ht' : q.type ≠ .periodic) :
    ∃ pd' q', queueRotateReady pd q sysClock = .ok (l.find? rd, pd', q') ∧
      q'.Holds pd' (rotateTo rd l) ∧ q'.type = q.type ∧ Relinked l pd pd' := by
  obtain ⟨first, hfirst⟩ : ∃ first, l.head? = some first := ⟨_, List.head?_eq_some_head hl⟩
  obtain ⟨p, pd', q', hloop, hh, hq', htype, hr⟩ : ∃ p pd' q',
      rotateLoop sysClock first q.length.toNat pd q first = .ok (p, pd', q') ∧
        (rotateTo rd ([] ++ l)).head? = some p ∧ q'.Holds pd' (rotateTo rd ([] ++ l)) ∧
        q'.type = q.type ∧ Relinked (l ++ []) pd pd' :=
    rotateLoop_find (by simpa using h) hfirst hfirst (by simp) (by rw [h.length_eq]) hrd
      (by simpa using hp) ht ht'
  simp only [List.nil_append, List.append_nil] at hh hq' hr
  refine ⟨pd', q', ?_, hq', htype, hr⟩
  rw [queueRotateReady, h.peek_eq, hfirst]
  simp only [hloop, Lockstep.ok_bind]
  have hstate : (pd' p).state = .ready ↔ rd p = true := by rw [hr.state, hrd]
  by_cases hex : ∃ b ∈ l, rd b = true
  · rw [rotateTo_head? _ _ hex] at hh
    rw [hh, if_neg (not_not_intro (hstate.2 (List.find?_some hh)))]
    rfl
  · have hall : ∀ b ∈ l, rd b = false := by
      intro b hb
      by_contra hne
      exact hex ⟨b, hb, by simpa using hne⟩
    rw [rotateTo_eq_self hall] at hh
    have hnot : (pd' p).state ≠ .ready := by
      rw [ne_eq, hstate, hall p (List.mem_of_head? hh)]
      simp
    rw [if_pos hnot, List.find?_eq_none.2 (by simpa using hall)]
    rfl

/-- **The first ready task, and what becomes of the queue.**  For any states of its tasks a queue of
system or round-robin tasks is rotated to its first ready task, and without one it stays as it is,
as do all descriptors. -/
theorem queueRotateReady_exactly (h : q.Holds pd l) (hl : l ≠ [])
    (htype : q.type = .system ∨ q.type = .rr) (hp : ∀ p ∈ l, (pd p).priority = q.type)
    (sysClock : Tick) :
    ∃ found pd' q', queueRotateReady pd q sysClock = .ok (found, pd', q') ∧
      q'.type = q.type ∧ Relinked l pd pd' ∧
      (∀ l₁ x l₂, l = l₁ ++ x :: l₂ → (∀ p ∈ l₁, (pd p).state ≠ .ready) →
        (pd x).state = .ready → found = some x ∧ q'.Holds pd' (x :: l₂ ++ l₁)) ∧
      ((∀ p ∈ l, (pd p).state ≠ .ready) → found = none ∧ pd' = pd ∧ q' = q) := by
  have ht : q.type ≠ .unlisted := by
    rcases htype with htype | htype <;> simp [htype]
  have ht' : q.type ≠ .periodic := by
    rcases htype with htype | htype <;> simp [htype]
  set rd : α → Bool := fun p => decide ((pd p).state = .ready) with hready
  have hrd : ∀ p, rd p = true ↔ (pd p).state = .ready := fun p => decide_eq_true_iff
  obtain ⟨pd', q', hrot, hq', htype', hrel⟩ : ∃ pd' q',
      queueRotateReady pd q sysClock = .ok (l.find? rd, pd', q') ∧
        q'.Holds pd' (rotateTo rd l) ∧ q'.type = q.type ∧ Relinked l pd pd' :=
    queueRotateReady_find h hl hrd hp ht ht'
  refine ⟨_, pd', q', hrot, htype', hrel, ?_, ?_⟩
  · rintro l₁ x l₂ rfl hl₁ hx
    have hno : ∀ p ∈ l₁, rd p = false := fun p hmem => decide_eq_false (hl₁ p hmem)
    constructor
    · have hskip : l₁.find? rd = none := List.find?_eq_none.2 fun p hmem => by simp [hno p hmem]
      rw [List.find?_append, hskip, List.find?_cons_of_pos ((hrd x).2 hx)]
      rfl
    · rwa [rotateTo_append_cons hno ((hrd x).2 hx)] at hq'
  · intro hnone
    have hno : ∀ p ∈ l, rd p = false := fun p hmem => decide_eq_false (hnone p hmem)
    rw [rotateTo_eq_self hno] at hq'
    refine ⟨List.find?_eq_none.2 fun p hmem => by simp [hno p hmem], ?_⟩
    exact h.eq_of_relinked hq' hrel htype'

/-- Two tasks, of which the second one is ready. -/
theorem second_task_found :
    ∃ pd' q', queueRotateReady
        (fun p : Bool =>
          { state := if p then .ready else .dead
            priority := .rr
            next := if p then none else some true })
        ⟨some false, some true, 2, .rr⟩ 0 = .ok (some true, pd', q') ∧
      q'.Holds pd' [true, false] := by
  have h : (⟨some false, some true, 2, .rr⟩ : TaskQueue Bool).Holds
      (fun p =>
        { state := if p then .ready else .dead
          priority := .rr
          next := if p then none else some true }) [false, true] := by decide
  obtain ⟨found, pd', q', hrot, -, -, hfirst, -⟩ :=
    queueRotateReady_exactly h (by simp) (Or.inr rfl) (by decide) 0
  obtain ⟨rfl, hq'⟩ := hfirst [false] true [] rfl (by decide) rfl
  exact ⟨pd', q', hrot, hq'⟩

/-- A queue whose head is ready is left alone. -/
theorem queueRotateReady_front (h : q.Holds pd (x :: l)) (hx : (pd x).state = .ready) :
    queueRotateReady pd q sysClock = .ok (some x, pd, q) := by
  have hlen : q.length.toNat = l.length + 1 := h.length_eq
  rw [queueRotateReady, h.peek_eq, hlen]
  simp only [List.head?_cons]
  rw [rotateLoop, if_neg (not_not_intro hx)]
  simp only [Lockstep.ok_bind]
  rw [if_neg (not_not_intro hx)]
  rfl

end Specifications

end RoombaRtos
