import Mathlib.Data.List.Rotate
import RoombaRtos.Sched

/-!
# Invariants of the scheduling policy

What holds at every return to user mode, whatever the tasks request and whenever the clock
ticks (also across wraps of the 16-bit clock).

* `Sched.Levels` — the levels list exactly the live processes, each once, under its priority;
* `Sched.Posted` — every undelivered message is the only one of a sender in `SEND_BLOCK`;
* `Sched.Inv` — both, and the current task is at the front of its level, due if it is
  periodic, and the only one that may be running;
* `Sched.Handling` — what is left of it while a request is being handled;
* `Handling.dispatch_inv` — every dispatch re-establishes the invariant.
-/

namespace RoombaRtos

open ListQueue

namespace Sched

variable {a a' : Sched} {p : PDPtr} {q : PriorityLevel} {r : InfoPtr PDPtr}

attribute [ext] Sched

/-! ### Reading after an update -/

section Updates

variable (a) (p) (q) (r) (f : Task PDPtr → Task PDPtr)
  (g : KernelRequestParams → KernelRequestParams) (st : ProcessState) (l : List PDPtr)
  (m : List Mail)

theorem setTask_task : (a.setTask p f).task = Function.update a.task p (f (a.task p)) := rfl
@[simp] theorem setTask_level : (a.setTask p f).level = a.level := rfl
@[simp] theorem setTask_mail : (a.setTask p f).mail = a.mail := rfl
@[simp] theorem setTask_current : (a.setTask p f).current = a.current := rfl
@[simp] theorem setTask_sysClock : (a.setTask p f).sysClock = a.sysClock := rfl
@[simp] theorem setTask_clockState : (a.setTask p f).clockState = a.clockState := rfl
@[simp] theorem setTask_info : (a.setTask p f).info = a.info := rfl

theorem setState_task : (a.setState p st).task =
    Function.update a.task p { a.task p with state := st } := rfl
@[simp] theorem setState_level : (a.setState p st).level = a.level := rfl
@[simp] theorem setState_mail : (a.setState p st).mail = a.mail := rfl
@[simp] theorem setState_current : (a.setState p st).current = a.current := rfl
@[simp] theorem setState_sysClock : (a.setState p st).sysClock = a.sysClock := rfl
@[simp] theorem setState_clockState : (a.setState p st).clockState = a.clockState := rfl
@[simp] theorem setState_info : (a.setState p st).info = a.info := rfl

@[simp] theorem setInfo_task : (a.setInfo r g).task = a.task := rfl
@[simp] theorem setInfo_level : (a.setInfo r g).level = a.level := rfl
@[simp] theorem setInfo_mail : (a.setInfo r g).mail = a.mail := rfl
@[simp] theorem setInfo_current : (a.setInfo r g).current = a.current := rfl
@[simp] theorem setInfo_sysClock : (a.setInfo r g).sysClock = a.sysClock := rfl
@[simp] theorem setInfo_clockState : (a.setInfo r g).clockState = a.clockState := rfl

@[simp] theorem setLevel_task : (a.setLevel q l).task = a.task := rfl
theorem setLevel_level : (a.setLevel q l).level = Function.update a.level q l := rfl
@[simp] theorem setLevel_mail : (a.setLevel q l).mail = a.mail := rfl
@[simp] theorem setLevel_current : (a.setLevel q l).current = a.current := rfl
@[simp] theorem setLevel_sysClock : (a.setLevel q l).sysClock = a.sysClock := rfl
@[simp] theorem setLevel_clockState : (a.setLevel q l).clockState = a.clockState := rfl
@[simp] theorem setLevel_info : (a.setLevel q l).info = a.info := rfl

@[simp] theorem setMail_task : (a.setMail m).task = a.task := rfl
@[simp] theorem setMail_level : (a.setMail m).level = a.level := rfl
@[simp] theorem setMail_mail : (a.setMail m).mail = m := rfl
@[simp] theorem setMail_current : (a.setMail m).current = a.current := rfl
@[simp] theorem setMail_sysClock : (a.setMail m).sysClock = a.sysClock := rfl
@[simp] theorem setMail_clockState : (a.setMail m).clockState = a.clockState := rfl
@[simp] theorem setMail_info : (a.setMail m).info = a.info := rfl

/-- Writing through `req_params` touches only parameter blocks. -/
theorem setReqParams_eq : ∃ info, a.setReqParams p g = { a with info := info } := by
  unfold setReqParams
  split
  · exact ⟨a.info, rfl⟩
  · exact ⟨_, rfl⟩

@[simp] theorem setReqParams_task : (a.setReqParams p g).task = a.task := by
  obtain ⟨_, h⟩ := setReqParams_eq a p g; rw [h]
@[simp] theorem setReqParams_level : (a.setReqParams p g).level = a.level := by
  obtain ⟨_, h⟩ := setReqParams_eq a p g; rw [h]
@[simp] theorem setReqParams_mail : (a.setReqParams p g).mail = a.mail := by
  obtain ⟨_, h⟩ := setReqParams_eq a p g; rw [h]
@[simp] theorem setReqParams_current : (a.setReqParams p g).current = a.current := by
  obtain ⟨_, h⟩ := setReqParams_eq a p g; rw [h]
@[simp] theorem setReqParams_sysClock : (a.setReqParams p g).sysClock = a.sysClock := by
  obtain ⟨_, h⟩ := setReqParams_eq a p g; rw [h]
@[simp] theorem setReqParams_clockState : (a.setReqParams p g).clockState = a.clockState := by
  obtain ⟨_, h⟩ := setReqParams_eq a p g; rw [h]

end Updates

theorem setState_self (a : Sched) (p : PDPtr) (st : ProcessState) :
    ((a.setState p st).task p).state = st := by
  simp [setState_task]

theorem setState_other {p' : PDPtr} (h : p' ≠ p) (a : Sched) (st : ProcessState) :
    (a.setState p st).task p' = a.task p' := by
  simp [setState_task, h]

@[simp] theorem setState_priority (a : Sched) (p p' : PDPtr) (st : ProcessState) :
    ((a.setState p st).task p').priority = (a.task p').priority := by
  by_cases h : p' = p
  · subst h; simp [setState_task]
  · rw [setState_other h]

@[simp] theorem setState_processId (a : Sched) (p p' : PDPtr) (st : ProcessState) :
    ((a.setState p st).task p').processId = (a.task p').processId := by
  by_cases h : p' = p
  · subst h; simp [setState_task]
  · rw [setState_other h]

/-! ### Live processes and levels -/

/-- The levels list exactly the live processes, each once and under its priority. -/
structure Levels (a : Sched) : Prop where
  nodup : ∀ q, (a.level q).Nodup
  priority : ∀ q, ∀ p ∈ a.level q, (a.task p).priority = q
  user : ∀ q, ∀ p ∈ a.level q, ∃ i, p = .process i
  live : ∀ q, ∀ p ∈ a.level q, (a.task p).state ≠ .dead
  linked : ∀ i, (a.task (.process i)).state ≠ .dead →
    .process i ∈ a.level (a.task (.process i)).priority
  pid : ∀ i, (a.task (.process i)).state ≠ .dead → (a.task (.process i)).processId = pidOf i
  unlisted : a.level .unlisted = []
  idle : (a.task .idleProcess).priority = .unlisted
  idle_live : (a.task .idleProcess).state ≠ .dead
  periodic : ∀ p ∈ a.level .periodic, (a.task p).state = .ready ∨ (a.task p).state = .running

namespace Levels

/-- Changes that respect priorities, ids and liveness keep the levels consistent. -/
theorem of_same (h : a.Levels) (hl : a'.level = a.level)
    (hp : ∀ p, (a'.task p).priority = (a.task p).priority)
    (hid : ∀ p, (a'.task p).processId = (a.task p).processId)
    (hd : ∀ p, (a'.task p).state = .dead ↔ (a.task p).state = .dead)
    (hper : ∀ p ∈ a.level .periodic,
      (a'.task p).state = .ready ∨ (a'.task p).state = .running) : a'.Levels where
  nodup := by rw [hl]; exact h.nodup
  priority := by
    intro q p hm
    rw [hl] at hm
    rw [hp, h.priority q p hm]
  user := by rw [hl]; exact h.user
  live := by
    intro q p hm
    rw [hl] at hm
    rw [ne_eq, hd]
    exact h.live q p hm
  linked := by
    intro i hi
    rw [ne_eq, hd] at hi
    rw [hl, hp]
    exact h.linked i hi
  pid := by
    intro i hi
    rw [ne_eq, hd] at hi
    rw [hid]
    exact h.pid i hi
  unlisted := by rw [hl, h.unlisted]
  idle := by rw [hp, h.idle]
  idle_live := by
    rw [ne_eq, hd]
    exact h.idle_live
  periodic := by rw [hl]; exact hper

theorem congr (h : a.Levels) (ht : a'.task = a.task) (hl : a'.level = a.level) : a'.Levels :=
  h.of_same hl (by simp [ht]) (by simp [ht]) (by simp [ht]) (by rw [ht]; exact h.periodic)

/-- Reordering a level keeps the levels consistent. -/
theorem permute (h : a.Levels) {l : List PDPtr} (hl : l.Perm (a.level q)) :
    (a.setLevel q l).Levels := by
  have hmem : ∀ q' p, p ∈ (a.setLevel q l).level q' ↔ p ∈ a.level q' := by
    intro q' p
    rw [setLevel_level]
    by_cases hq : q' = q
    · subst hq; rw [Function.update_self, hl.mem_iff]
    · rw [Function.update_of_ne hq]
  refine ⟨?_, ?_, ?_, ?_, ?_, h.pid, ?_, h.idle, h.idle_live, ?_⟩
  · intro q'
    rw [setLevel_level]
    by_cases hq : q' = q
    · subst hq; rw [Function.update_self, hl.nodup_iff]; exact h.nodup q'
    · rw [Function.update_of_ne hq]; exact h.nodup q'
  · intro q' p hm
    exact h.priority q' p ((hmem q' p).1 hm)
  · intro q' p hm
    exact h.user q' p ((hmem q' p).1 hm)
  · intro q' p hm
    exact h.live q' p ((hmem q' p).1 hm)
  · intro i hi
    exact (hmem _ _).2 (h.linked i hi)
  · rw [List.eq_nil_iff_forall_not_mem]
    intro p hm
    rw [hmem, h.unlisted] at hm
    simp at hm
  · intro p hm
    exact h.periodic p ((hmem _ _).1 hm)

/-- A dead process is in no level. -/
theorem notMem_of_dead (h : a.Levels) (hd : (a.task p).state = .dead) (q : PriorityLevel) :
    p ∉ a.level q :=
  fun hm => h.live q p hm hd

/-- Nor is a task in a level other than that of its priority. -/
theorem notMem_of_priority (h : a.Levels) (hp : (a.task p).priority ≠ q) : p ∉ a.level q :=
  fun hm => hp (h.priority q p hm)

theorem idle_notMem (h : a.Levels) (q : PriorityLevel) : PDPtr.idleProcess ∉ a.level q := by
  intro hm
  obtain ⟨i, hi⟩ := h.user q _ hm
  cases hi

/-- A task is in at most one level. -/
theorem level_unique (h : a.Levels) {q q' : PriorityLevel} (hq : p ∈ a.level q)
    (hq' : p ∈ a.level q') : q = q' := by
  rw [← h.priority q p hq, h.priority q' p hq']

/-- A level never holds more tasks than the process table. -/
theorem length_le (h : a.Levels) (q : PriorityLevel) : (a.level q).length ≤ maxThread := by
  have hsub : a.level q ⊆ (List.finRange maxThread).map PDPtr.process := by
    intro p hm
    obtain ⟨i, rfl⟩ := h.user q p hm
    simp
  have := ((h.nodup q).subperm hsub).length_le
  simpa using this

end Levels

/-! ### Undelivered messages -/

/-- Every undelivered message is the only one of a sender in `SEND_BLOCK`. -/
structure Posted (a : Sched) : Prop where
  sender : ∀ m ∈ a.mail, ∃ i, m.sender = pidOf i ∧ (a.task (.process i)).state = .sendBlock
  nodup : (a.mail.map Mail.sender).Nodup

theorem Posted.of_states (h : a.Posted) (hm : a'.mail.Sublist a.mail)
    (hs : ∀ m ∈ a'.mail, ∀ i, m.sender = pidOf i → (a.task (.process i)).state = .sendBlock →
      (a'.task (.process i)).state = .sendBlock) : a'.Posted := by
  refine ⟨?_, h.nodup.sublist (hm.map _)⟩
  intro m hm'
  obtain ⟨i, hi, hst⟩ := h.sender m (hm.subset hm')
  exact ⟨i, hi, hs m hm' i hi hst⟩

/-! ### The invariants -/

/-- While a request is handled: nobody runs. -/
structure Handling (a : Sched) : Prop where
  levels : a.Levels
  posted : a.Posted
  stopped : ∀ p, (a.task p).state ≠ .running

/-- At every return to user mode. -/
structure Inv (a : Sched) : Prop where
  levels : a.Levels
  posted : a.Posted
  front : a.current = .idleProcess ∨
    (a.level (a.task a.current).priority).head? = some a.current
  due : (a.task a.current).priority = .periodic → a.due a.current = true
  active : (a.task a.current).state = .running ∨ (a.task a.current).state = .ready
  running : ∀ p, (a.task p).state = .running → p = a.current

theorem Handling.periodic_ready (h : a.Handling) (hp : p ∈ a.level .periodic) :
    a.ready p = true := by
  rcases h.levels.periodic p hp with hs | hs
  · simp [ready, hs]
  · exact absurd hs (h.stopped p)

/-! ### Dispatching -/

theorem replaceHead_perm (a : Sched) (l : List PDPtr) : (a.replaceHead l).Perm l := by
  cases l with
  | nil => exact List.Perm.refl _
  | cons p l => exact placeBehind_perm _ p l

theorem requeue_eq (a : Sched) : ∃ q l, l.Perm (a.level q) ∧ a.requeue = a.setLevel q l := by
  unfold requeue
  split
  · exact ⟨_, _, List.rotate_perm _ _, rfl⟩
  · exact ⟨_, _, a.replaceHead_perm _, rfl⟩
  · exact ⟨_, _, List.rotate_perm _ _, rfl⟩
  · refine ⟨.system, a.level .system, List.Perm.refl _, ?_⟩
    simp [setLevel]

@[simp] theorem requeue_task (a : Sched) : a.requeue.task = a.task := by
  obtain ⟨q, l, _, h⟩ := a.requeue_eq
  rw [h, setLevel_task]

@[simp] theorem requeue_mail (a : Sched) : a.requeue.mail = a.mail := by
  obtain ⟨q, l, _, h⟩ := a.requeue_eq
  rw [h, setLevel_mail]

@[simp] theorem requeue_sysClock (a : Sched) : a.requeue.sysClock = a.sysClock := by
  obtain ⟨q, l, _, h⟩ := a.requeue_eq
  rw [h, setLevel_sysClock]

@[simp] theorem requeue_clockState (a : Sched) : a.requeue.clockState = a.clockState := by
  obtain ⟨q, l, _, h⟩ := a.requeue_eq
  rw [h, setLevel_clockState]

@[simp] theorem requeue_info (a : Sched) : a.requeue.info = a.info := by
  obtain ⟨q, l, _, h⟩ := a.requeue_eq
  rw [h, setLevel_info]

theorem requeue_ready (a : Sched) : a.requeue.ready = a.ready := by
  funext p
  rw [ready, ready, requeue_task]

theorem requeue_due (a : Sched) : a.requeue.due = a.due := by
  funext p
  rw [due, due, requeue_task, requeue_sysClock, requeue_clockState]

/-- Requeueing takes nobody from a level, and brings nobody there. -/
theorem mem_requeue_level : p ∈ a.requeue.level q ↔ p ∈ a.level q := by
  obtain ⟨q', l, hl, he⟩ := a.requeue_eq
  rw [he, setLevel_level]
  by_cases hq : q = q'
  · subst hq
    rw [Function.update_self, hl.mem_iff]
  · rw [Function.update_of_ne hq]

theorem Levels.requeue (h : a.Levels) : a.requeue.Levels := by
  obtain ⟨q, l, hl, he⟩ := a.requeue_eq
  rw [he]
  exact h.permute hl

theorem Handling.requeue (h : a.Handling) : a.requeue.Handling := by
  refine ⟨h.levels.requeue, ⟨?_, ?_⟩, ?_⟩
  · simpa using h.posted.sender
  · simpa using h.posted.nodup
  · simpa using h.stopped

/-- What a selection can do: run a ready system task, the due periodic task, a ready
round-robin task, or the idle process, in this order of preference. -/
theorem select_cases (h : a.select = .ok a') :
    (∃ p, (a.level .system).find? a.ready = some p ∧ a' = (a.bring .system).run p) ∨
    ((a.level .system).find? a.ready = none ∧
      ((∃ p, a.duePeriodic = some p ∧ a.missedStart p = false ∧ a' = a.run p) ∨
      (a.duePeriodic = none ∧
        ((∃ p, (a.level .rr).find? a.ready = some p ∧ a' = (a.bring .rr).run p) ∨
        ((a.level .rr).find? a.ready = none ∧ a' = a.run .idleProcess))))) := by
  unfold select at h
  cases hs : (a.level .system).find? a.ready with
  | some p =>
    simp only [hs, Except.ok.injEq] at h
    exact Or.inl ⟨p, rfl, h.symm⟩
  | none =>
    refine Or.inr ⟨rfl, ?_⟩
    simp only [hs] at h
    cases hd : a.duePeriodic with
    | some p =>
      simp only [hd] at h
      cases hm : a.missedStart p with
      | true => simp [hm] at h
      | false =>
        simp only [hm, Bool.false_eq_true, if_false, Except.ok.injEq] at h
        exact Or.inl ⟨p, rfl, hm, h.symm⟩
    | none =>
      refine Or.inr ⟨rfl, ?_⟩
      simp only [hd] at h
      cases hr : (a.level .rr).find? a.ready with
      | some p =>
        simp only [hr, Except.ok.injEq] at h
        exact Or.inl ⟨p, rfl, h.symm⟩
      | none =>
        simp only [hr, Except.ok.injEq] at h
        exact Or.inr ⟨rfl, h.symm⟩

theorem duePeriodic_eq_some :
    a.duePeriodic = some p ↔ (a.level .periodic).head? = some p ∧ a.due p = true := by
  simp [duePeriodic, Option.filter_eq_some_iff]

@[simp] theorem run_level (a : Sched) (p : PDPtr) : (a.run p).level = a.level := rfl
@[simp] theorem run_mail (a : Sched) (p : PDPtr) : (a.run p).mail = a.mail := rfl
@[simp] theorem run_current (a : Sched) (p : PDPtr) : (a.run p).current = p := rfl
theorem run_task (a : Sched) (p : PDPtr) : (a.run p).task = (a.setState p .running).task := rfl

theorem Levels.run (h : a.Levels) (hp : (a.task p).state ≠ .dead) : (a.run p).Levels := by
  refine h.of_same rfl (fun p' => setState_priority a p p' .running)
    (fun p' => setState_processId a p p' .running) ?_ ?_
  · intro p'
    rw [run_task]
    by_cases hpp : p' = p
    · subst hpp
      rw [setState_self]
      exact ⟨fun hd => by simp at hd, fun hd => absurd hd hp⟩
    · rw [setState_other hpp]
  · intro p' hp'
    rw [run_task]
    by_cases hpp : p' = p
    · subst hpp
      exact Or.inr (setState_self a p' .running)
    · rw [setState_other hpp]
      exact h.periodic p' hp'

/-- Running a ready task, or the idle process, from the front of its level re-establishes the
invariant. -/
theorem Handling.run (h : a.Handling) (hp : p = .idleProcess ∨ a.ready p = true)
    (hd : (a.task p).state ≠ .dead)
    (hf : p = .idleProcess ∨ (a.level (a.task p).priority).head? = some p)
    (hdue : (a.task p).priority = .periodic → a.due p = true) : (a.run p).Inv := by
  have hother : ∀ p', p' ≠ p → (a.run p).task p' = a.task p' :=
    fun p' hpp => setState_other hpp a .running
  have hprio : ((a.run p).task p).priority = (a.task p).priority :=
    setState_priority a p p .running
  refine ⟨h.levels.run hd, ?_, ?_, ?_, Or.inl (setState_self a p .running), ?_⟩
  · refine h.posted.of_states (List.Sublist.refl _) ?_
    intro m _ i _ hst
    have hne : PDPtr.process i ≠ p := by
      intro heq
      subst heq
      rcases hp with hp | hp
      · cases hp
      · simp [ready, hst] at hp
    rw [hother _ hne, hst]
  · show p = .idleProcess ∨ (a.level ((a.run p).task p).priority).head? = some p
    rw [hprio]
    exact hf
  · intro hper
    rw [show (a.run p).current = p from rfl, hprio] at hper
    have hp' := hdue hper
    simpa [due, Sched.run, setState_task] using hp'
  · intro p' hrun
    by_contra hpp
    rw [hother p' hpp] at hrun
    exact h.stopped p' hrun

theorem Handling.bring (h : a.Handling) (q : PriorityLevel) : (a.bring q).Handling :=
  ⟨h.levels.permute (rotateTo_perm _ _), ⟨h.posted.sender, h.posted.nodup⟩, h.stopped⟩

/-- A task found ready in its level runs from the front. -/
theorem Handling.bring_run (h : a.Handling) (hq : q ≠ .periodic)
    (hf : (a.level q).find? a.ready = some p) : ((a.bring q).run p).Inv := by
  have hmem := List.mem_of_find?_eq_some hf
  have hready : a.ready p = true := List.find?_some hf
  have hprio := h.levels.priority q p hmem
  refine (h.bring q).run (Or.inr hready) (h.levels.live q p hmem) (Or.inr ?_) ?_
  · show ((a.bring q).level (a.task p).priority).head? = some p
    rw [hprio]
    obtain ⟨l, hl⟩ := rotateTo_of_find? hf
    simp [Sched.bring, setLevel_level, hl]
  · intro hper
    exact absurd (hprio.symm.trans hper) hq

theorem Handling.select_inv (h : a.Handling) (he : a.select = .ok a') : a'.Inv := by
  rcases select_cases he with ⟨p, hf, rfl⟩ | ⟨_, ⟨p, hf, _, rfl⟩ | ⟨_, ⟨p, hf, rfl⟩ | ⟨_, rfl⟩⟩⟩
  · exact h.bring_run (by simp) hf
  · obtain ⟨hhead, hdue⟩ := duePeriodic_eq_some.1 hf
    have hmem : p ∈ a.level .periodic := List.mem_of_head? hhead
    have hprio := h.levels.priority _ p hmem
    refine h.run (Or.inr (h.periodic_ready hmem)) (h.levels.live _ p hmem) (Or.inr ?_)
      (fun _ => hdue)
    rw [hprio, hhead]
  · exact h.bring_run (by simp) hf
  · have hidle := h.levels.idle
    refine h.run (Or.inl rfl) h.levels.idle_live (Or.inl rfl) ?_
    intro hper
    rw [hidle] at hper
    cases hper

/-- **Dispatching re-establishes the invariant.** -/
theorem Handling.dispatch_inv (h : a.Handling) (he : a.dispatch = .ok a') : a'.Inv :=
  h.requeue.select_inv he

/-- What a dispatch leaves alone: it only makes a ready task, or the idle process, run. -/
theorem Handling.dispatch_frame (h : a.Handling) (he : a.dispatch = .ok a') :
    ∃ p, (p = .idleProcess ∨ a.ready p = true) ∧ a'.current = p ∧
      a'.task = (a.setState p .running).task ∧ a'.mail = a.mail ∧ a'.info = a.info := by
  have hready : ∀ q, a.requeue.ready q = a.ready q := congrFun a.requeue_ready
  have hrun : ∀ (b : Sched) p, b.task = a.task → (b.run p).task = (a.setState p .running).task := by
    intro b p hb
    rw [run_task, setState_task, setState_task, hb]
  rcases select_cases he with ⟨p, hf, rfl⟩ | ⟨-, ⟨p, hf, -, rfl⟩ | ⟨-, ⟨p, hf, rfl⟩ | ⟨-, rfl⟩⟩⟩
  · exact ⟨p, Or.inr (hready p ▸ List.find?_some hf), rfl, hrun _ p (requeue_task a),
      requeue_mail a, requeue_info a⟩
  · have hmem := List.mem_of_head? (duePeriodic_eq_some.1 hf).1
    exact ⟨p, Or.inr (hready p ▸ h.requeue.periodic_ready hmem), rfl, hrun _ p (requeue_task a),
      requeue_mail a, requeue_info a⟩
  · exact ⟨p, Or.inr (hready p ▸ List.find?_some hf), rfl, hrun _ p (requeue_task a),
      requeue_mail a, requeue_info a⟩
  · exact ⟨.idleProcess, Or.inl rfl, rfl, hrun _ _ (requeue_task a), requeue_mail a,
      requeue_info a⟩

end Sched

end RoombaRtos
