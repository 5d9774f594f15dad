import RoombaRtos.Effects
import RoombaRtos.PriorityScheduling

/-!
# First come, first served

The order in which the system tasks, and the round-robin tasks, take turns.

* `Sched.requeue_level`, `Sched.select_level` — what a dispatch does to the order of such a level;
* `Sched.Settled` — a task runs only if no task of a higher level could run;
* `Kernel.termination_order_iff` — after a termination the next task in the order runs, except
  that the one at the head loses its turn when another one is ready;
* `Sched.Behind` — a ready task waits, and another one of its level comes after it;
* `Kernel.bounded_bypass` — nobody of the level is dispatched twice while a ready task waits.
-/

namespace RoombaRtos

open ListQueue Lockstep

namespace Sched

variable {a a' c : Sched} {p x y : PDPtr} {q : PriorityLevel} {l : List PDPtr} {e : Entry}

/-! ### What a dispatch does to a level -/

/-- Requeueing moves the level of the current task on by one. -/
theorem requeue_level (hq : q = .system ∨ q = .rr) (a : Sched) : a.requeue.level q =
    if (a.task a.current).priority = q then (a.level q).rotate 1 else a.level q := by
  unfold requeue
  cases hp : (a.task a.current).priority with
  | system => rcases hq with rfl | rfl <;> simp [setLevel_level]
  | periodic => rcases hq with rfl | rfl <;> simp [setLevel_level]
  | rr => rcases hq with rfl | rfl <;> simp [setLevel_level]
  | unlisted => rcases hq with rfl | rfl <;> simp

theorem bring_level (a : Sched) (q : PriorityLevel) :
    (a.bring q).level = Function.update a.level q (rotateTo a.ready (a.level q)) := rfl

theorem requeue_duePeriodic (hp : (a.task a.current).priority ≠ .periodic) :
    a.requeue.duePeriodic = a.duePeriodic := by
  have hlevel : a.requeue.level .periodic = a.level .periodic := by
    unfold requeue
    cases hprio : (a.task a.current).priority with
    | system => simp [setLevel_level]
    | periodic => exact absurd hprio hp
    | rr => simp [setLevel_level]
    | unlisted => rfl
  rw [duePeriodic, duePeriodic, hlevel, requeue_due]

/-- A selection brings the first ready task of a level to its front and runs it, or leaves the
level alone. -/
theorem Handling.select_level (h : a.Handling) (hq : q = .system ∨ q = .rr)
    (he : a.select = .ok a') :
    ((a.level q).find? a.ready = some a'.current ∧ a'.level q = rotateTo a.ready (a.level q)) ∨
      ((a.task a'.current).priority ≠ q ∧ a'.level q = a.level q) := by
  rcases select_cases he with ⟨p, hf, rfl⟩ | ⟨-, ⟨p, hf, -, rfl⟩ | ⟨-, ⟨p, hf, rfl⟩ | ⟨-, rfl⟩⟩⟩
  · have hprio := h.levels.priority _ p (List.mem_of_find?_eq_some hf)
    rcases hq with rfl | rfl
    · exact Or.inl ⟨hf, by simp [bring_level]⟩
    · exact Or.inr ⟨by simp [hprio], by simp [bring_level]⟩
  · have hprio := h.levels.priority _ p (List.mem_of_head? (duePeriodic_eq_some.1 hf).1)
    refine Or.inr ⟨?_, rfl⟩
    rw [run_current, hprio]
    rcases hq with rfl | rfl <;> simp
  · have hprio := h.levels.priority _ p (List.mem_of_find?_eq_some hf)
    rcases hq with rfl | rfl
    · exact Or.inr ⟨by simp [hprio], by simp [bring_level]⟩
    · exact Or.inl ⟨hf, by simp [bring_level]⟩
  · refine Or.inr ⟨?_, rfl⟩
    rw [run_current, h.levels.idle]
    rcases hq with rfl | rfl <;> simp

/-- A dispatch changes no priority. -/
theorem Handling.dispatch_priority (h : a.Handling) (he : a.dispatch = .ok a') (p : PDPtr) :
    (a'.task p).priority = (a.task p).priority := by
  obtain ⟨p', -, -, ht, -, -⟩ := h.dispatch_frame he
  rw [ht, setState_priority]

/-! ### Who runs is entitled to run -/

/-- A task of a lower level runs only if no system task is ready, and one below the periodic
level only if the head of that level is not due. -/
structure Settled (a : Sched) : Prop where
  system : (a.task a.current).priority ≠ .system → ∀ p ∈ a.level .system, a.ready p = false
  periodic : (a.task a.current).priority ≠ .system → (a.task a.current).priority ≠ .periodic →
    a.duePeriodic = none

theorem run_current_priority (a : Sched) (p : PDPtr) :
    ((a.run p).task (a.run p).current).priority = (a.task p).priority :=
  setState_priority a p p .running

theorem run_duePeriodic (a : Sched) (p : PDPtr) : (a.run p).duePeriodic = a.duePeriodic := by
  have hdue : (a.run p).due = a.due := by
    funext p'
    have h := a.run_tons p p'
    rw [due, due, h.1, h.2.2.2]
    rfl
  rw [duePeriodic, duePeriodic, hdue, run_level]

theorem bring_duePeriodic (hq : q ≠ .periodic) (a : Sched) :
    (a.bring q).duePeriodic = a.duePeriodic := by
  have hlevel : (a.bring q).level .periodic = a.level .periodic := by
    rw [bring_level, Function.update_of_ne (Ne.symm hq)]
  rw [duePeriodic, duePeriodic, hlevel]
  rfl

/-- A selection goes by falling priority. -/
theorem Handling.select_settled (h : a.Handling) (he : a.select = .ok a') : a'.Settled := by
  have hnone : ∀ {l : List PDPtr}, l.find? a.ready = none → ∀ p ∈ l, a.ready p = false :=
    fun hl p hp => by simpa using List.find?_eq_none.1 hl p hp
  rcases select_cases he with ⟨p, hf, rfl⟩ | ⟨hs, ⟨p, hf, -, rfl⟩ | ⟨hd, ⟨p, hf, rfl⟩ | ⟨-, rfl⟩⟩⟩
  · have hprio : (a.task p).priority = .system :=
      h.levels.priority _ p (List.mem_of_find?_eq_some hf)
    have hcur := (a.bring .system).run_current_priority p
    exact ⟨fun hne => absurd (hcur.trans hprio) hne, fun hne => absurd (hcur.trans hprio) hne⟩
  · have hprio := h.levels.priority _ p (List.mem_of_head? (duePeriodic_eq_some.1 hf).1)
    exact ⟨fun _ p' hp' => run_ready_false (hnone hs p' hp'),
      fun _ hne => absurd ((a.run_current_priority p).trans hprio) hne⟩
  · refine ⟨fun _ p' hp' => run_ready_false (hnone hs p' ?_), fun _ _ => ?_⟩
    · simpa [bring_level] using hp'
    · rw [run_duePeriodic, bring_duePeriodic (by simp), hd]
  · exact ⟨fun _ p' hp' => run_ready_false (hnone hs p' hp'), fun _ _ => by
      rw [run_duePeriodic, hd]⟩

theorem Handling.dispatch_settled (h : a.Handling) (he : a.dispatch = .ok a') : a'.Settled :=
  h.requeue.select_settled he

theorem Settled.setInfo (h : a.Settled) (r : InfoPtr PDPtr)
    (f : KernelRequestParams → KernelRequestParams) : (a.setInfo r f).Settled :=
  ⟨h.system, h.periodic⟩

theorem suspend_due (a : Sched) (e : Entry) (p : PDPtr) : (a.suspend e).1.due p = a.due p := by
  obtain ⟨htons, -, -, hclock⟩ := a.suspend_times e p
  rw [due, due, htons, hclock, suspend_sysClock, suspend_clockState]

theorem suspend_duePeriodic (a : Sched) (e : Entry) :
    (a.suspend e).1.duePeriodic = a.duePeriodic := by
  have hdue : (a.suspend e).1.due = a.due := by
    funext p
    exact a.suspend_due e p
  rw [duePeriodic, duePeriodic, hdue, suspend_level]

theorem Settled.suspend (h : a.Settled) (ha : a.Inv) (e : Entry) : (a.suspend e).1.Settled := by
  have hprio := a.suspend_priority e a.current
  refine ⟨fun hne p hm => ?_, fun hne hne' => ?_⟩
  · rw [suspend_current, hprio] at hne
    rw [suspend_level] at hm
    have hpc : p ≠ a.current := ne_of_mem_of_not_mem hm (ha.levels.notMem_of_priority hne)
    rw [suspend_ready_of_ne a e hpc]
    exact h.system hne p hm
  · rw [suspend_current, hprio] at hne hne'
    rw [suspend_duePeriodic]
    exact h.periodic hne hne'

/-- Every return to user mode is settled, across wraps of the clock as well. -/
theorem Step.settled (hs : a.Step e a') (ha : a.Inv) (h : a.Settled) : a'.Settled := by
  obtain ⟨c, d, b, hc, rfl, ⟨rfl, hd⟩ | ⟨rfl, rfl⟩⟩ := enter_parts hs.2
  · exact ((Dispatches.handling hc ha hs.1).dispatch_settled hd).setInfo _ _
  · obtain ⟨info, rfl⟩ := (handled_cases hc).quiet.2
    have hsus := h.suspend ha e
    exact ⟨hsus.system, hsus.periodic⟩

theorem Reachable.settled (h : a.Reachable) : a.Settled :=
  h.induction (fun _ _ => ⟨fun hp => absurd rfl hp, fun hp => absurd rfl hp⟩)
    fun _ _ _ ha hset hs => hs.settled ha hset

/-! ### Termination -/

/-- The state in which a termination dispatches: the levels without the current task. -/
theorem dispatches_terminate (h : a.Dispatches (.call .taskTerminate) c) :
    c = (a.suspend (.call .taskTerminate)).1.bury := by
  cases handled_cases h with
  | refused hk => simp [Entry.request, ApiCall.params] at hk
  | bury hp => rfl

/-- What a termination dispatches. -/
structure Bereaved (a c : Sched) (l : List PDPtr) : Prop where
  level : c.level (a.task a.current).priority = l
  other : ∀ q, q ≠ (a.task a.current).priority → c.level q = a.level q
  current : (c.task c.current).priority = (a.task a.current).priority
  ready : ∀ p, p ≠ a.current → c.ready p = a.ready p
  duePeriodic : (a.task a.current).priority ≠ .periodic → c.duePeriodic = a.duePeriodic

theorem Inv.bereaved (hl : a.level (a.task a.current).priority = a.current :: l) :
    Bereaved a (a.suspend (.call .taskTerminate)).1.bury l := by
  set b := (a.suspend (.call .taskTerminate)).1 with hb
  have hcur : b.current = a.current := suspend_current a _
  have hprio : (b.task b.current).priority = (a.task a.current).priority := by
    rw [hcur]
    exact a.suspend_priority _ a.current
  have hlevel : b.level = a.level := suspend_level a _
  refine ⟨?_, ?_, ?_, ?_, ?_⟩
  · rw [bury_level, hprio, hlevel, hl, hcur, Function.update_self, List.erase_cons_head]
  · intro q hq
    rw [bury_level, hprio, Function.update_of_ne hq, hlevel]
  · rw [bury_current, bury_task, setState_priority, hprio]
  · intro p hp
    rw [Sched.ready, bury_task, setState_other (by rw [hcur]; exact hp)]
    exact a.suspend_ready_of_ne _ hp
  · intro hper
    have hdue : b.bury.due = a.due := by
      funext p
      have ht : SameTimes (b.task p) (b.bury.task p) := setState_times b b.current p .dead
      rw [Sched.due, ht.1, ht.2.2.2, bury_sysClock, bury_clockState]
      exact a.suspend_due _ p
    rw [Sched.duePeriodic, Sched.duePeriodic, hdue, bury_level, hprio,
      Function.update_of_ne (Ne.symm hper), hlevel]

/-- The first ready task of a level, when no task of a higher level can run. -/
theorem select_of_find? (hq : q = .system ∨ q = .rr)
    (hrr : q = .rr → (∀ p ∈ a.level .system, a.ready p = false) ∧ a.duePeriodic = none)
    (hf : (a.level q).find? a.ready = some p) : a.select = .ok ((a.bring q).run p) := by
  rcases hq with rfl | rfl
  · rw [select, hf]
  · obtain ⟨hsys, hdue⟩ := hrr rfl
    have hnone : (a.level .system).find? a.ready = none := by
      rw [List.find?_eq_none]
      intro p hp
      rw [hsys p hp]
      simp
    rw [select, hnone, hdue, hf]

/-- `Dispatch` moves a level on from which its head is gone. -/
theorem Bereaved.requeue_rotate (h : Bereaved a c l)
    (hq : (a.task a.current).priority = .system ∨ (a.task a.current).priority = .rr) :
    c.requeue.level (a.task a.current).priority = l.rotate 1 := by
  rw [requeue_level hq, if_pos h.current, h.level]

theorem Bereaved.requeue_ready (h : Bereaved a c l) (hp : p ≠ a.current) :
    c.requeue.ready p = a.ready p := by
  rw [Sched.requeue_ready]
  exact h.ready p hp

/-- When a round-robin task has ended, nothing of a higher level can run. -/
theorem Bereaved.nothing_above (h : Bereaved a c l) (ha : a.Levels) (hset : a.Settled)
    (hrr : (a.task a.current).priority = .rr) :
    (∀ p ∈ c.requeue.level .system, c.requeue.ready p = false) ∧
      c.requeue.duePeriodic = none := by
  have hne : (a.task a.current).priority ≠ .system := by simp [hrr]
  have hne' : (a.task a.current).priority ≠ .periodic := by simp [hrr]
  refine ⟨fun p hp => ?_, ?_⟩
  · rw [requeue_level (Or.inl rfl), if_neg (by rw [h.current]; exact hne),
      h.other _ (Ne.symm hne)] at hp
    have hpc : p ≠ a.current := ne_of_mem_of_not_mem hp (ha.notMem_of_priority hne)
    rw [h.requeue_ready hpc]
    exact hset.system hne p hp
  · rw [requeue_duePeriodic (by rw [h.current]; exact hne'), h.duePeriodic hne']
    exact hset.periodic hne hne'

/-- **Who runs after a termination.**  The level moves on by one place more, and its first ready
task runs; none is ready when the level is passed over. -/
theorem Step.terminate_turn (hs : a.Step (.call .taskTerminate) a') (ha : a.Inv)
    (hset : a.Settled) (hq : q = .system ∨ q = .rr) (hcur : (a.task a.current).priority = q)
    (hl : a.level q = a.current :: l) :
    ((l.rotate 1).find? a.ready = some a'.current ∧ (a'.level q).IsRotated l ∧
      (a'.level q).head? = some a'.current ∧ (a'.task a'.current).priority = q) ∨
    ((a'.task a'.current).priority ≠ q ∧ ∀ p ∈ l, a.ready p = false) := by
  obtain ⟨c, d, b, hc, rfl, hd⟩ := enter_parts hs.2
  obtain rfl : d = true := by
    cases handled_cases hc with
    | info info hk => simp [Entry.request, ApiCall.params] at hk
    | refused hk => rfl
    | bury hp => rfl
  have hdis : c.dispatch = .ok b := by
    rcases hd with ⟨-, hd⟩ | ⟨hd, -⟩
    · exact hd
    · cases hd
  have hh : c.Handling := Dispatches.handling hc ha hs.1
  subst hcur
  have hber : Bereaved a c l := by
    rw [dispatches_terminate hc]
    exact Inv.bereaved hl
  have hnd : (a.current :: l).Nodup := hl ▸ ha.levels.nodup _
  have hmove := hber.requeue_rotate hq
  have hsame : ∀ p ∈ l.rotate 1, c.requeue.ready p = a.ready p := by
    intro p hp
    have hpc : p ≠ a.current :=
      ne_of_mem_of_not_mem (List.mem_rotate.1 hp) (List.nodup_cons.1 hnd).1
    exact hber.requeue_ready hpc
  have hfind := List.find?_congr hsame
  have hprio := hh.dispatch_priority hdis b.current
  have hcprio := hh.levels.requeue.priority (a.task a.current).priority
  cases hf : (l.rotate 1).find? a.ready with
  | some p =>
    left
    have hmem : p ∈ c.requeue.level (a.task a.current).priority := by
      rw [hmove]
      exact List.mem_of_find?_eq_some hf
    have hsel := select_of_find? (a := c.requeue) (p := p) hq ?_ (by rw [hmove, hfind, hf])
    · have hb : b = (c.requeue.bring (a.task a.current).priority).run p :=
        Except.ok.inj (hdis.symm.trans hsel)
      subst hb
      have hbring : ((c.requeue.bring (a.task a.current).priority).run p).level
          (a.task a.current).priority = rotateTo c.requeue.ready (l.rotate 1) := by
        rw [run_level, bring_level, Function.update_self, hmove]
      obtain ⟨r, hr⟩ := rotateTo_of_find? (hfind.trans hf)
      refine ⟨rfl, ?_, ?_, ?_⟩
      · rw [setInfo_level, hbring]
        exact (rotateTo_isRotated _ _).trans (List.IsRotated.forall l 1)
      · rw [setInfo_level, hbring, hr]
        rfl
      · rw [setInfo_task, setInfo_current, hprio, run_current]
        simpa using hcprio p hmem
    · exact hber.nothing_above ha.levels hset
  | none =>
    right
    have hnone : ∀ p ∈ l, a.ready p = false := by
      intro p hp
      simpa using List.find?_eq_none.1 hf p (List.mem_rotate.2 hp)
    refine ⟨?_, hnone⟩
    rcases hh.requeue.select_level hq hdis with ⟨hsome, -⟩ | ⟨hne, -⟩
    · rw [hmove, hfind, hf] at hsome
      cases hsome
    · rw [requeue_task] at hne
      rw [setInfo_task, setInfo_current, hprio]
      exact hne

/-! ### Taking turns -/

/-- The current task is of the level `q`, and terminates. -/
def Retires (a : Sched) (q : PriorityLevel) (e : Entry) : Prop :=
  e = .call .taskTerminate ∧ (a.task a.current).priority = q

/-- `x` is ready and waits, and the next dispatch comes to `y` after it. -/
structure Behind (a : Sched) (q : PriorityLevel) (x y : PDPtr) : Prop where
  ready : a.ready x = true
  waits : a.current ≠ x
  order : [x, y].Sublist (a.requeue.level q)

theorem order_congr (hq : q = .system ∨ q = .rr)
    (hp : (c.task c.current).priority = (a.task a.current).priority)
    (hl : c.level q = a.level q) : (a.requeue.level q).Sublist (c.requeue.level q) := by
  rw [requeue_level hq, requeue_level hq, hp, hl]

/-- A handler takes nobody's turn, unless a task of the level terminates. -/
theorem Change.order {r : InfoPtr PDPtr} {k : KernelRequestType} (h : Change a r k c)
    (ha : a.Entered) (hq : q = .system ∨ q = .rr)
    (hr : ¬ (k = .terminate ∧ (a.task a.current).priority = q)) :
    (a.requeue.level q).Sublist (c.requeue.level q) := by
  cases h with
  | states hk h =>
    obtain ⟨st, hst⟩ := h.task a.current
    exact order_congr hq (by rw [h.current, hst]) (by rw [h.level])
  | @install x f g hx hadm =>
    have hne : a.current ≠ .process x := by
      intro heq
      rw [← heq, ha.ready] at hx
      cases hx
    have hprio : (((a.install x f (a.info r)).setInfo r g).task
        ((a.install x f (a.info r)).setInfo r g).current).priority =
          (a.task a.current).priority := by
      show ((a.install x f (a.info r)).task a.current).priority = _
      rw [install_task, Function.update_of_ne hne]
    rw [requeue_level hq, requeue_level hq, hprio]
    by_cases hqp : (a.info r).priority = q
    · -- the new task goes to the end of the level
      have hlevel : ((a.install x f (a.info r)).setInfo r g).level q =
          a.level q ++ [.process x] := by
        subst hqp
        show (a.install x f (a.info r)).level (a.info r).priority = _
        rw [Sched.install, setLevel_level, Function.update_self]
        rcases hq with hq | hq <;> simp [join, hq]
      rw [hlevel]
      by_cases hcur : (a.task a.current).priority = q
      · rw [if_pos hcur, if_pos hcur]
        cases a.level q with
        | nil => exact List.nil_sublist _
        | cons z l =>
          rw [List.cons_append, List.rotate_cons_succ, List.rotate_cons_succ, List.rotate_zero,
            List.rotate_zero, List.append_assoc]
          exact (List.Sublist.refl l).append (List.sublist_append_right _ _)
      · rw [if_neg hcur, if_neg hcur]
        exact List.sublist_append_left _ _
    · obtain ⟨l, -, hlevel⟩ := a.install_level x f (a.info r)
      have hsame : ((a.install x f (a.info r)).setInfo r g).level q = a.level q := by
        rw [setInfo_level, hlevel, Function.update_of_ne (Ne.symm hqp)]
      rw [hsame]
  | @yield t ht =>
    obtain ⟨tons, ticks, clock, ht'⟩ := yieldTask_ok ht
    refine order_congr hq ?_ rfl
    show ((a.setTask a.current fun _ => t).task a.current).priority = _
    rw [setTask_task, Function.update_self, ht']
  | @tick t ht =>
    obtain ⟨ticks, ht'⟩ := chargeTick_ok ht
    refine order_congr hq ?_ rfl
    show ((a.setTask a.current fun _ => t).task a.current).priority = _
    rw [setTask_task, Function.update_self, ht']
  | bury hp =>
    have hne : (a.task a.current).priority ≠ q := fun heq => hr ⟨rfl, heq⟩
    refine order_congr hq ?_ ?_
    · rw [bury_current, bury_task, setState_priority]
    · rw [bury_level, Function.update_of_ne (Ne.symm hne)]

/-- A dispatch runs the task that waits, or leaves the other one behind it. -/
theorem Handling.dispatch_behind (h : c.Handling) (hq : q = .system ∨ q = .rr)
    (hx : c.ready x = true) (hord : [x, y].Sublist (c.requeue.level q))
    (he : c.dispatch = .ok a') : a'.current = x ∨ a'.Behind q x y ∧ a'.current ≠ y := by
  by_cases hcx : a'.current = x
  · exact Or.inl hcx
  right
  have hmem : ∀ p ∈ c.requeue.level q, (c.task p).priority = q := by
    intro p hp
    have hprio := h.requeue.levels.priority q p hp
    rwa [requeue_task] at hprio
  have hready : a'.ready x = true := by
    obtain ⟨p, -, hp, ht, -, -⟩ := h.dispatch_frame he
    have hxp : x ≠ p := fun heq => hcx (hp.trans heq.symm)
    rw [ready_iff, ht, setState_other hxp]
    exact ready_iff.1 hx
  have hx' : c.requeue.ready x = true := by rwa [Sched.requeue_ready]
  have hcur := h.dispatch_priority he a'.current
  rcases h.requeue.select_level hq he with ⟨hf, hl⟩ | ⟨hne, hl⟩
  · obtain ⟨r, hr, hsub⟩ := sublist_rotateTo hord hx' hf hcx
    have hnd : (a'.current :: r).Nodup := by
      rw [← hr]
      exact (rotateTo_perm _ _).nodup_iff.2 (h.requeue.levels.nodup q)
    rw [hmem _ (List.mem_of_find?_eq_some hf)] at hcur
    refine ⟨⟨hready, hcx, ?_⟩, ?_⟩
    · rw [requeue_level hq, if_pos hcur, hl, hr, List.rotate_cons_succ, List.rotate_zero]
      exact hsub.trans (List.sublist_append_left _ _)
    · intro heq
      exact (List.nodup_cons.1 hnd).1 (heq ▸ hsub.subset (by simp))
  · rw [requeue_task] at hne
    refine ⟨⟨hready, hcx, ?_⟩, ?_⟩
    · rw [requeue_level hq, if_neg (by rw [hcur]; exact hne), hl]
      exact hord
    · intro heq
      exact hne (heq ▸ hmem y (hord.subset (by simp)))

theorem request_terminate_iff : Entry.request e = .terminate ↔ e = .call .taskTerminate := by
  cases e with
  | timer => simp [Entry.request]
  | call api => cases api <;> simp [Entry.request, ApiCall.params]

/-- **One step while `x` waits.**  Either `x` is dispatched, or it still waits with `y` behind it
and `y` has not been switched to. -/
theorem Step.behind (hs : a.Step e a') (ha : a.Inv) (hq : q = .system ∨ q = .rr)
    (h : a.Behind q x y) (hr : ¬ a.Retires q e) :
    a'.current = x ∨ a'.Behind q x y ∧ (a'.current = y → a.current = y) := by
  have hprio := a.suspend_priority e a.current
  have hx : (a.suspend e).1.ready x = true := by
    rw [suspend_ready_of_ne a e (Ne.symm h.waits)]
    exact h.ready
  have hord : (a.requeue.level q).Sublist ((a.suspend e).1.requeue.level q) :=
    order_congr hq (by rw [suspend_current, hprio]) (by rw [suspend_level])
  obtain ⟨c, d, b, hc, rfl, ⟨rfl, hd⟩ | ⟨rfl, rfl⟩⟩ := enter_parts hs.2
  · have hhandled := handled_cases hc
    have hcx := hhandled.ready (ha.suspend e) hx (by rw [suspend_current]; exact Ne.symm h.waits)
    have hnot : ¬ (Entry.request e = .terminate ∧
        ((a.suspend e).1.task (a.suspend e).1.current).priority = q) := by
      rintro ⟨hterm, hpq⟩
      rw [suspend_current, hprio] at hpq
      exact hr ⟨request_terminate_iff.1 hterm, hpq⟩
    have hcord := h.order.trans (hord.trans (hhandled.change.order (ha.suspend e) hq hnot))
    rcases (Dispatches.handling hc ha hs.1).dispatch_behind hq hcx hcord hd with
      hcur | ⟨⟨hready, hwaits, horder⟩, hne⟩
    · exact Or.inl hcur
    · exact Or.inr ⟨⟨hready, hwaits, horder.trans (order_congr hq rfl rfl)⟩,
        fun heq => absurd heq hne⟩
  · obtain ⟨info, rfl⟩ := (handled_cases hc).quiet.2
    refine Or.inr ⟨⟨hx, ?_, h.order.trans (hord.trans (order_congr hq rfl rfl))⟩, ?_⟩
    · show (a.suspend e).1.current ≠ x
      rw [suspend_current]
      exact h.waits
    · show (a.suspend e).1.current = y → _
      rw [suspend_current]
      exact fun heq => heq

/-- Whoever else of its level is ready comes before the current task. -/
theorem Inv.behind_current (ha : a.Inv) (hq : q = .system ∨ q = .rr)
    (hy : (a.task a.current).priority = q) (hx : (a.task x).priority = q)
    (hxy : x ≠ a.current) (hready : a.ready x = true) : a.Behind q x a.current := by
  have hlisted : ∀ p, (a.task p).priority = q → p ≠ .idleProcess := by
    intro p hp heq
    subst heq
    rw [ha.levels.idle] at hp
    subst hp
    rcases hq with hq | hq <;> cases hq
  have hmem : x ∈ a.level q := by
    cases x with
    | process i =>
      have hlive : (a.task (.process i)).state ≠ .dead := by simp [ready_iff.1 hready]
      exact hx ▸ ha.levels.linked i hlive
    | idleProcess => exact absurd rfl (hlisted _ hx)
  have hhead := ha.front.resolve_left (hlisted _ hy)
  rw [hy] at hhead
  obtain ⟨l, hl⟩ := List.head?_eq_some_iff.1 hhead
  rw [hl, List.mem_cons] at hmem
  refine ⟨hready, Ne.symm hxy, ?_⟩
  rw [requeue_level hq, if_pos hy, hl, List.rotate_cons_succ, List.rotate_zero]
  exact (List.singleton_sublist.2 (hmem.resolve_left hxy)).append (List.Sublist.refl [a.current])

end Sched

namespace Kernel

variable {s s' : Kernel} {cp : PDPtr} {q : List PDPtr}

/-- If the dispatcher chose a task of the level, it is the first ready one in the order `q`, and
it is now at the head of that order, which has only been turned round. -/
def FirstComeFirstServed (s s' : Kernel) (level : PriorityLevel) (q : List PDPtr) : Prop :=
  ∀ p, s'.cp = some p → (s'.pd p).priority = level →
    (q.find? fun x => (s.pd x).state = .ready) = some p ∧
      ∃ q', (s'.queue level).Holds s'.pd q' ∧ q'.IsRotated q ∧ q'.head? = some p

/-- The first task of the order is ready, and so is another one. -/
def LosesTurn (s : Kernel) (q : List PDPtr) : Prop :=
  ∃ p r, q = p :: r ∧ (s.pd p).state = .ready ∧ ∃ x ∈ r, (s.pd x).state = .ready

/-- **Order after a termination.**  When a system or round-robin task terminates, the tasks
behind it in its queue are served first come, first served, unless the next one loses its turn:
`Dispatch` moves the head of the queue to the end although the dead task has left it. -/
theorem termination_order_iff (h : s.Reachable) (hcp : s.cp = some cp)
    (hlevel : (s.pd cp).priority = .system ∨ (s.pd cp).priority = .rr)
    (hq : (s.queue (s.pd cp).priority).Holds s.pd (cp :: q))
    (hs : s.Step (.call .taskTerminate) s') :
    s.FirstComeFirstServed s' (s.pd cp).priority q ↔ ¬ s.LosesTurn q := by
  obtain ⟨a, ha, hrep⟩ := h.represents
  obtain ⟨a', hstep, hrep'⟩ := hrep.step ha.inv hs
  have hcur : a.current = cp := Option.some.inj (hrep.current.symm.trans hcp)
  subst hcur
  have hprio := hrep.priority a.current
  rw [hprio] at hlevel hq ⊢
  have hl : a.level (a.task a.current).priority = a.current :: q :=
    (hrep.queue _).linked.unique hq.linked
  have hready : ∀ x, a.ready x = decide ((s.pd x).state = .ready) := by
    intro x
    rw [Sched.ready, hrep.state]
  have hnd : q.Nodup := (List.nodup_cons.1 (hl ▸ ha.inv.levels.nodup _)).2
  have hlose : s.LosesTurn q ↔
      ∃ p r, q = p :: r ∧ a.ready p = true ∧ ∃ x ∈ r, a.ready x = true := by
    simp only [LosesTurn, hready, decide_eq_true_eq]
  have hfun : (fun x => decide ((s.pd x).state = .ready)) = a.ready := by
    funext x
    exact (hready x).symm
  rw [hlose, ← find?_rotate_one_iff hnd]
  unfold FirstComeFirstServed
  rw [hfun]
  rcases hstep.terminate_turn ha.inv ha.settled hlevel rfl hl with
    ⟨hfind, hrot, hhead, hp⟩ | ⟨hp, hnone⟩
  · constructor
    · intro hfirst
      rw [hfind, (hfirst a'.current hrep'.current (by rw [hrep'.priority, hp])).1]
    · intro heq p hp' _
      have hpa : a'.current = p := Option.some.inj (hrep'.current.symm.trans hp')
      subst hpa
      exact ⟨heq ▸ hfind, _, hrep'.queue _, hrot, hhead⟩
  · constructor
    · intro _
      have hnone' : ∀ x ∈ q, ¬ a.ready x = true := fun x hx => by simp [hnone x hx]
      rw [List.find?_eq_none.2 hnone',
        List.find?_eq_none.2 fun x hx => hnone' x (List.mem_rotate.1 hx)]
    · intro _ p hp' hlev
      have hpa : a'.current = p := Option.some.inj (hrep'.current.symm.trans hp')
      subst hpa
      rw [hrep'.priority] at hlev
      exact absurd hlev hp

/-- Two tasks wait behind the one that terminates, the first of them for a message. -/
theorem termination_order_past_blocked :
    ∃ p ∈ ((after (fun _ _ => true) 1 2 [.call (.taskCreateRR (some 3) 0),
          .call (.taskCreateRR (some 4) 0), .call (.taskCreateRR (some 5) 0),
          .call .taskTerminate, .timer, .call (.msgRecv 1 none), .timer]).bind fun s =>
        (s.advance (fun _ _ => true) (.call .taskTerminate)).map fun s' => (s, s')).filter fun p =>
          p.1.cp = some (.process 1) ∧ (p.1.pd (.process 1)).priority = .rr ∧
          (p.1.queue .rr).Holds p.1.pd [.process 1, .process 2, .process 3] ∧
          (p.1.pd (.process 2)).state = .recvBlock,
      p.1.FirstComeFirstServed p.2 .rr [.process 2, .process 3] := by
  apply exists_mem_of_isSome (by decide +kernel)
  intro p hp
  obtain ⟨hp, hfacts⟩ := Option.filter_eq_some_iff.1 hp
  obtain ⟨hcp, hprio, hholds, hst⟩ := of_decide_eq_true hfacts
  obtain ⟨s, hs, hp⟩ := Option.bind_eq_some_iff.1 hp
  obtain ⟨s', hs', rfl⟩ := Option.map_eq_some_iff.1 hp
  have h := termination_order_iff (reachable_of_after hs) hcp (Or.inr hprio)
    (by rw [hprio]; exact hholds) (advance_step hs').1
  rw [hprio] at h
  refine h.2 ?_
  rintro ⟨x, r, heq, hx, -⟩
  obtain ⟨rfl, -⟩ := List.cons.inj heq
  rw [hst] at hx
  cases hx

/-- Task 1 terminates before tasks 2 and 3, which are both ready: task 3 runs. -/
theorem termination_skips_next :
    ∃ p ∈ ((after (fun _ _ => true) 1 2 [.call (.taskCreateRR (some 3) 0),
          .call (.taskCreateRR (some 4) 0), .call (.taskCreateRR (some 5) 0),
          .call .taskTerminate]).bind fun s =>
        (s.advance (fun _ _ => true) (.call .taskTerminate)).map fun s' => (s, s')),
      (p.1.Reachable ∧ p.1.Step (.call .taskTerminate) p.2) ∧
      (p.1.cp = some (.process 1) ∧ (p.1.pd (.process 1)).priority = .rr ∧
        (p.1.queue .rr).Holds p.1.pd [.process 1, .process 2, .process 3]) ∧
      ¬ p.1.FirstComeFirstServed p.2 .rr [.process 2, .process 3] := by
  have hex : ∃ p ∈ ((after (fun _ _ => true) 1 2 [.call (.taskCreateRR (some 3) 0),
          .call (.taskCreateRR (some 4) 0), .call (.taskCreateRR (some 5) 0),
          .call .taskTerminate]).bind fun s =>
        (s.advance (fun _ _ => true) (.call .taskTerminate)).map fun s' => (s, s')).filter fun p =>
      (p.1.cp = some (.process 1) ∧ (p.1.pd (.process 1)).priority = .rr ∧
        (p.1.queue .rr).Holds p.1.pd [.process 1, .process 2, .process 3]) ∧
      (p.1.pd (.process 2)).state = .ready ∧ p.2.cp = some (.process 3) ∧
      (p.2.pd (.process 3)).priority = .rr, True :=
    exists_mem_of_isSome (by decide +kernel) fun _ _ => trivial
  obtain ⟨p, hp, -⟩ := hex
  obtain ⟨hp, hfacts⟩ := Option.filter_eq_some_iff.1 hp
  obtain ⟨hstate, hst, hcp', hprio'⟩ := of_decide_eq_true hfacts
  refine ⟨p, hp, ?_, hstate, fun hfirst => ?_⟩
  · obtain ⟨s, hs, hp⟩ := Option.bind_eq_some_iff.1 hp
    obtain ⟨s', hs', rfl⟩ := Option.map_eq_some_iff.1 hp
    exact ⟨reachable_of_after hs, (advance_step hs').1⟩
  · obtain ⟨hfind, -⟩ := hfirst _ hcp' hprio'
    simp [hst] at hfind

/-! ### Bounded bypass -/

/-- A step in which no task of the level `q` terminates. -/
def StepWithoutExit (q : PriorityLevel) (s : Kernel) (e : Entry) (s' : Kernel) : Prop :=
  s.Step e s' ∧ ¬ (e = .call .taskTerminate ∧ ∃ p, s.cp = some p ∧ (s.pd p).priority = q)

/-- `Dispatch` switches to `p`. -/
def SwitchTo (p : PDPtr) (s : Kernel) (_ : Entry) (s' : Kernel) : Prop :=
  s.cp ≠ some p ∧ s'.cp = some p

theorem Represents.without_exit {a : Sched} {q : PriorityLevel} {e : Entry} (h : s.UserMode a)
    (hs : StepWithoutExit q s e s') : ¬ a.Retires q e := by
  rintro ⟨he, hp⟩
  exact hs.2 ⟨he, a.current, h.current, by rw [h.priority, hp]⟩

/-- **Bounded bypass.**  Let `y` be the current task, of the system or the round-robin level, and
let another task `x` of its level be ready, as it then stays until it is dispatched.  While no
task of the level terminates, `Dispatch` switches to `x` before it switches to `y` again. -/
theorem bounded_bypass {q : PriorityLevel} {x y : PDPtr} {s₁ s₂ s₃ : Kernel} {es : List Entry}
    {e : Entry} (hq : q = .system ∨ q = .rr) (h : s₁.Reachable)
    (hcp : s₁.cp = some y) (hy : (s₁.pd y).priority = q)
    (hxy : x ≠ y) (hx : (s₁.pd x).priority = q) (hready : (s₁.pd x).state = .ready)
    (hrun : Run (StepWithoutExit q) s₁ es s₂)
    (hs : StepWithoutExit q s₂ e s₃) (hsw : SwitchTo y s₂ e s₃) :
    Run.Passes Step (SwitchTo x) s₁ es s₂ := by
  obtain ⟨a₁, ha₁, hrep₁⟩ := h.represents
  have hcur₁ : a₁.current = y := Option.some.inj (hrep₁.current.symm.trans hcp)
  have hbehind₁ : a₁.Behind q x y := by
    subst hcur₁
    refine ha₁.inv.behind_current hq ?_ ?_ hxy ?_
    · rw [← hrep₁.priority, hy]
    · rw [← hrep₁.priority, hx]
    · rw [Sched.ready_iff, ← hrep₁.state, hready]
  -- every step keeps `y` behind `x`, unless it switches to `x`
  have hkeep : ∀ t e u, (∃ a, t.UserMode a ∧ a.Inv ∧ a.Behind q x y) → StepWithoutExit q t e u →
      SwitchTo x t e u ∨ ∃ a, u.UserMode a ∧ a.Inv ∧ a.Behind q x y := by
    intro t e u ⟨a, hrep, ha, hb⟩ hstep
    obtain ⟨a', hs', hrep'⟩ := hrep.step ha hstep.1
    rcases hs'.behind ha hq hb (hrep.without_exit hstep) with hcur | ⟨hb', -⟩
    · refine Or.inl ⟨?_, by rw [hrep'.current, hcur]⟩
      rw [hrep.current]
      exact fun heq => hb.waits (Option.some.inj heq)
    · exact Or.inr ⟨a', hrep', hs'.inv ha, hb'⟩
  rcases hrun.passes_or ⟨a₁, hrep₁, ha₁.inv, hbehind₁⟩ hkeep with hpass | ⟨a, hrep, ha, hb⟩
  · exact hpass.mono fun _ _ _ hstep => hstep.1
  · -- `x` has not been switched to: then `y` cannot be switched to either
    obtain ⟨a', hs', hrep'⟩ := hrep.step ha hs.1
    have hcur' : a'.current = y := Option.some.inj (hrep'.current.symm.trans hsw.2)
    rcases hs'.behind ha hq hb (hrep.without_exit hs) with hcur | ⟨-, hback⟩
    · exact absurd (hcur.symm.trans hcur') hxy
    · exact absurd (by rw [hrep.current, hback hcur']) hsw.1

/-- Two ticks with two round-robin tasks: the second runs before the first runs again. -/
theorem bounded_bypass_two_tasks :
    ∃ p ∈ ((after (fun _ _ => true) 1 2 [.call (.taskCreateRR (some 3) 0),
          .call (.taskCreateRR (some 4) 0), .call .taskTerminate]).bind fun s₁ =>
        (s₁.advance (fun _ _ => true) .timer).bind fun s₂ =>
          (s₂.advance (fun _ _ => true) .timer).map fun s₃ => (s₁, s₂, s₃)).filter fun p =>
            (p.1.cp = some (.process 1) ∧ (p.1.pd (.process 1)).priority = .rr ∧
              (p.1.pd (.process 2)).priority = .rr ∧ (p.1.pd (.process 2)).state = .ready) ∧
            p.2.1.cp ≠ some (.process 1) ∧ p.2.2.cp = some (.process 1),
      Run.Passes Step (SwitchTo (.process 2)) p.1 [.timer] p.2.1 := by
  apply exists_mem_of_isSome (by decide +kernel)
  intro p hp
  obtain ⟨hp, hfacts⟩ := Option.filter_eq_some_iff.1 hp
  obtain ⟨⟨hcp, hprio, hprio', hready⟩, hsw⟩ := of_decide_eq_true hfacts
  obtain ⟨s₁, hs₁, hp⟩ := Option.bind_eq_some_iff.1 hp
  obtain ⟨s₂, hs₂, hp⟩ := Option.bind_eq_some_iff.1 hp
  obtain ⟨s₃, hs₃, rfl⟩ := Option.map_eq_some_iff.1 hp
  have hquiet : ¬ (Entry.timer = .call .taskTerminate ∧
      ∃ p, s₁.cp = some p ∧ (s₁.pd p).priority = .rr) := fun hx => by cases hx.1
  have hquiet' : ¬ (Entry.timer = .call .taskTerminate ∧
      ∃ p, s₂.cp = some p ∧ (s₂.pd p).priority = .rr) := fun hx => by cases hx.1
  exact bounded_bypass (Or.inr rfl) (reachable_of_after hs₁) hcp hprio (by simp) hprio' hready
    (Run.single ⟨(advance_step hs₂).1, hquiet⟩) ⟨(advance_step hs₃).1, hquiet'⟩ hsw

end Kernel

end RoombaRtos
