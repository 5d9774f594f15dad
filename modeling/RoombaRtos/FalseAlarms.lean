import RoombaRtos.Budget

/-!
# Missed starts

`Dispatch` aborts with a timing violation when the periodic task it would run has not been charged
a tick and its start tick is over; it takes this to mean that the task has not started.

* `Sched.Alarms` — `Dispatch` raises the violation for a task;
* `Kernel.timing_violation_iff` — where the timing violations of the kernel come from;
* `Watched.Overlooked` — a started task loses the only trace of it, its charge;
* `Watched.no_false_alarm` — before the clock wraps, a run in which no start is overlooked raises
  no violation for a task that ran in its start tick.
-/

namespace RoombaRtos

open Lockstep

namespace Sched

variable {a c : Sched} {p : PDPtr} {e : Entry} {x : Halt}

/-- `Dispatch` finds the periodic task `p` to run, and holds that it has missed its start. -/
structure Alarms (c : Sched) (p : PDPtr) : Prop where
  system : (c.requeue.level .system).find? c.requeue.ready = none
  due : c.requeue.duePeriodic = some p
  missed : c.requeue.missedStart p = true

/-- `Dispatch` fails in no other way. -/
theorem dispatch_error_iff :
    c.dispatch = .error x ↔ x = .abort .timingViolation ∧ ∃ p, c.Alarms p := by
  constructor
  · intro h
    unfold dispatch select at h
    cases hs : (c.requeue.level .system).find? c.requeue.ready with
    | some p => simp [hs] at h
    | none =>
      simp only [hs] at h
      cases hd : c.requeue.duePeriodic with
      | none =>
        simp only [hd] at h
        split at h <;> cases h
      | some p =>
        simp only [hd] at h
        cases hm : c.requeue.missedStart p with
        | false => simp [hm] at h
        | true =>
          simp only [hm, if_true, Except.error.injEq] at h
          exact ⟨h.symm, p, hs, hd, hm⟩
  · rintro ⟨rfl, p, hs, hd, hm⟩
    rw [dispatch, select, hs, hd]
    simp [hm]

/-- An entry fails in its handler or in `Dispatch`. -/
theorem enter_error_iff : a.enter e = .error x ↔
    a.handled e = .error x ∨ ∃ c, a.Dispatches e c ∧ c.dispatch = .error x := by
  have hend : ∀ {b : Except Halt Sched} {f : Sched → Sched},
      (b >>= fun b => .ok (f b)) = .error x ↔ b = .error x := by
    intro b f
    rw [bind_error_iff]
    simp
  have hfinish : ∀ b : Sched × Bool,
      finish b = .error x ↔ b.2 = true ∧ b.1.dispatch = .error x := by
    rintro ⟨c, d⟩
    cases d <;> simp [finish]
  rw [enter_eq, hend, serve_eq, bind_error_iff]
  refine or_congr Iff.rfl ?_
  constructor
  · rintro ⟨⟨c, d⟩, hc, hf⟩
    obtain ⟨rfl, hd⟩ := (hfinish _).1 hf
    exact ⟨c, hc, hd⟩
  · rintro ⟨c, hc, hd⟩
    exact ⟨(c, true), hc, (hfinish _).2 ⟨rfl, hd⟩⟩

theorem chargeTick_timingViolation_iff {cp : PDPtr} {t : Task PDPtr} :
    Kernel.chargeTick cp t = .error (.abort .timingViolation) ↔
      t.priority = .periodic ∧ t.ticksRemaining = 1 := by
  have hzero : t.ticksRemaining - 1#16 = 0#16 ↔ t.ticksRemaining = 1#16 := by bv_omega
  unfold Kernel.chargeTick
  cases hp : t.priority with
  | system => simp
  | periodic => simp [hzero]
  | rr => simp
  | unlisted => by_cases h : cp = .idleProcess <;> simp [h]

/-- A handler raises a timing violation when the budget of a periodic task is used up, and on
demand. -/
theorem handle_timingViolation_iff {r : InfoPtr PDPtr} {k : KernelRequestType} :
    a.handle r k = .error (.abort .timingViolation) ↔
      k = .timer ∧ (a.task a.current).priority = .periodic ∧
          (a.task a.current).ticksRemaining = 1 ∨
        k = .abort ∧ (a.info r).abortCode = .timingViolation := by
  cases k with
  | none => simp [handle]
  | timer =>
    rw [handle, bind_error_iff, chargeTick_timingViolation_iff]
    simp [pure, Except.pure]
  | create =>
    rw [handle, bind_error_iff]
    unfold create
    cases hs : a.freeSlot with
    | none => simp [pure, Except.pure]
    | some i =>
      cases hf : (a.info r).code with
      | none => simp
      | some f => cases hq : admissible (a.info r) <;> simp [pure, Except.pure]
  | next =>
    rw [handle, bind_error_iff]
    unfold Kernel.yieldTask
    cases (a.task a.current).priority <;> simp [pure, Except.pure]
  | getArg => simp [handle]
  | getPid => simp [handle]
  | getNow => simp [handle]
  | msgSend =>
    by_cases hp : (a.task a.current).priority = .periodic
    · simp [handle, hp]
    · cases ht : a.target r <;> simp [handle, hp, ht]
  | msgRecv =>
    by_cases hp : (a.task a.current).priority = .periodic
    · simp [handle, hp]
    · cases hm : a.mail.find? (a.wanted r) with
      | none => simp [handle, hp, hm]
      | some m => cases hv : validId m.sender <;> simp [handle, hp, hm, hv]
  | msgRply =>
    by_cases hp : (a.task a.current).priority = .periodic
    · simp [handle, hp]
    · cases ht : a.target r <;> simp [handle, hp, ht]
  | msgASend =>
    by_cases hv : validId (a.info r).msgTo = none
    · simp [handle, hv]
    · cases ht : a.target r <;> simp [handle, hv, ht]
  | terminate =>
    by_cases hp : (a.task a.current).priority = .unlisted <;> simp [handle, hp]
  | abort => simp [handle]

/-- **The sources of a timing violation.**  The timer uses up the budget of the running periodic
task, a task calls `OS_Abort` with this code, or `Dispatch` raises an alarm. -/
theorem enter_timingViolation_iff : a.enter e = .error (.abort .timingViolation) ↔
    (e = .timer ∧ (a.task a.current).priority = .periodic ∧
      (a.task a.current).ticksRemaining = 1) ∨
    e = .call (.osAbort .timingViolation) ∨ ∃ c p, a.Dispatches e c ∧ c.Alarms p := by
  have hcur := congrArg Timing.priority (suspend_timing a e a.current)
  have hrem := congrArg Timing.ticksRemaining (suspend_timing a e a.current)
  have habort : (Entry.request e = .abort ∧
      ((a.suspend e).1.info (a.suspend e).2).abortCode = .timingViolation) ↔
      e = .call (.osAbort .timingViolation) := by
    cases e with
    | timer => simp [Entry.request]
    | call api => cases api <;> simp [Entry.request, ApiCall.params, suspend, setInfo]
  rw [enter_error_iff, handled, handle_timingViolation_iff, habort, request_timer_iff,
    suspend_current, or_assoc]
  refine or_congr (and_congr_right fun _ => ?_) (or_congr_right ?_)
  · rw [show ((a.suspend e).1.task a.current).priority = _ from hcur,
      show ((a.suspend e).1.task a.current).ticksRemaining = _ from hrem]
    rfl
  · simp only [dispatch_error_iff, true_and]
    exact exists_congr fun c => exists_and_left.symm

/-- What an alarm says of the task: it is uncharged, and the tick of its start is over. -/
theorem Alarms.late (h : c.Alarms p) : (c.task p).ticksRemaining = (c.task p).wcet ∧
    (c.task p).tons < c.sysClock ∧ (c.task p).clockState = c.clockState := by
  have hm := h.missed
  simp only [missedStart, requeue_task, requeue_sysClock, requeue_clockState, Bool.and_eq_true,
    beq_iff_eq, decide_eq_true_eq] at hm
  exact ⟨hm.1.1, hm.1.2, hm.2.symm⟩

/-- The alarm is for a live periodic task. -/
theorem Handling.alarm_periodic (h : c.Handling) (hal : c.Alarms p) :
    (c.task p).state ≠ .dead ∧ (c.task p).priority = .periodic := by
  have hmem := List.mem_of_head? (duePeriodic_eq_some.1 hal.due).1
  have hlive := h.requeue.levels.live _ p hmem
  have hprio := h.requeue.levels.priority _ p hmem
  rw [requeue_task] at hlive hprio
  exact ⟨hlive, hprio⟩

end Sched

/-- In every reachable state, these are the sources of the timing violations of the kernel. -/
theorem Kernel.timing_violation_iff {s : Kernel} {e : Entry} (h : s.Reachable)
    (he : s.Possible e) :
    s.enter e = .error (.abort .timingViolation) ↔
      (e = .timer ∧ ∃ p, s.cp = some p ∧ (s.pd p).priority = .periodic ∧
        (s.pd p).ticksRemaining = 1) ∨
      e = .call (.osAbort .timingViolation) ∨
      ∃ a c p, s.UserMode a ∧ a.Dispatches e c ∧ c.Alarms p := by
  obtain ⟨a, hreach, ha⟩ := h.represents
  have hrel := ha.enter hreach.inv (ha.possible_iff.1 he)
  have herror : s.enter e = .error (.abort .timingViolation) ↔
      a.enter e = .error (.abort .timingViolation) := by
    constructor
    · intro h
      rw [h] at hrel
      exact hrel.error_left
    · intro h
      rw [h] at hrel
      exact hrel.error_right
  have hcur : (∃ p, s.cp = some p ∧ (s.pd p).priority = .periodic ∧
      (s.pd p).ticksRemaining = 1) ↔ (a.task a.current).priority = .periodic ∧
        (a.task a.current).ticksRemaining = 1 := by
    simp [ha.current, ha.task]
  rw [herror, Sched.enter_timingViolation_iff, hcur]
  refine or_congr_right (or_congr_right ?_)
  constructor
  · rintro ⟨c, p, hd, hal⟩
    exact ⟨a, c, p, ha, hd, hal⟩
  · rintro ⟨a', c, p, ha', hd, hal⟩
    obtain rfl := ha.unique ha'
    exact ⟨c, p, hd, hal⟩

namespace Watched

variable {w w' w₀ : Watched} {es : List Entry} {e : Entry} {i : Slot} {n : ℕ} {t : Timing}
  {l : Life}

/-! ### Starts that are overlooked -/

/-- A live periodic task that has run in its start tick keeps no trace of it: a tick hits another
task before it has been charged, or its `Task_Next` names a past tick in which it has run. -/
def Overlooked (w : Watched) (e : Entry) (i : Slot) : Prop :=
  let t := w.kernel.pd (.process i)
  (t.state ≠ .dead ∧ t.priority = .periodic) ∧
    ((e = .timer ∧ w.kernel.cp ≠ some (.process i) ∧ t.ticksRemaining = t.wcet ∧
        t.tons = w.kernel.sysClock ∧ w.ticks ∈ (w.life i).ran) ∨
      (e = .call .taskNext ∧ w.kernel.cp = some (.process i) ∧ ¬ t.tons + t.period < t.tons ∧
        t.tons + t.period < w.kernel.sysClock ∧ (t.tons + t.period).toNat ∈ (w.life i).ran))

instance (w : Watched) (e : Entry) (i : Slot) : Decidable (w.Overlooked e i) :=
  inferInstanceAs (Decidable (_ ∧ _))

/-- The clock does not wrap, and no start is overlooked. -/
def Careful (w : Watched) (e : Entry) : Prop :=
  w.ticksAfter e < 65536 ∧ ∀ i, ¬ w.Overlooked e i

instance (w : Watched) (e : Entry) : Decidable (w.Careful e) :=
  inferInstanceAs (Decidable (_ ∧ _))

/-- An uncharged periodic task whose start tick is over has not run in that tick. -/
structure Noticed (n : ℕ) (t : Timing) (l : Life) : Prop extends Charged n t l where
  absent : t.ticksRemaining = t.wcet → t.clockState = .even → t.tons.toNat < n →
    t.tons.toNat ∉ l.ran

/-- A task is uncharged exactly when no tick has hit it. -/
theorem Charged.uncharged (h : Charged n t l) (ht : t.ticksRemaining = t.wcet) : l.hits = 0 := by
  by_cases hw : t.wcet = 0
  · rcases h.zero hw with ⟨hl, -⟩ | ⟨hpos, hsum, hlt⟩
    · exact hl
    · rw [ht, hw] at hsum
      simp at hsum
      omega
  · obtain ⟨hsum, -⟩ := h.positive hw
    rw [ht] at hsum
    omega

theorem Noticed.observe (h : Noticed n t l) (r : Bool) : Noticed n t (l.observe n r) := by
  refine ⟨h.toCharged.observe r, fun ht hs hlt => ?_⟩
  have hold := h.absent ht hs hlt
  unfold Life.observe
  cases r with
  | false => exact hold
  | true =>
    intro hmem
    rcases List.mem_cons.1 hmem with heq | hmem
    · omega
    · exact hold hmem

/-- Before the first wrap the clock is the number of ticks. -/
theorem Follows.clock_eq {a : Sched} (hf : w.Follows a) (hn : w.ticks < 65536) :
    a.sysClock.toNat = w.ticks ∧ a.clockState = .even := by
  obtain ⟨hclock, hstate⟩ := hf.reads
  rw [Nat.mod_eq_of_lt hn] at hclock
  rw [epochOf, Epoch.epoch_eq, Nat.div_eq_of_lt hn] at hstate
  exact ⟨hclock, hstate⟩

/-- The same of the state of the policy. -/
theorem Follows.overlooked_iff {a : Sched} (hf : w.Follows a) : w.Overlooked e i ↔
    ((a.task (.process i)).state ≠ .dead ∧ (a.task (.process i)).priority = .periodic) ∧
      ((e = .timer ∧ a.current ≠ .process i ∧
          (a.task (.process i)).ticksRemaining = (a.task (.process i)).wcet ∧
          (a.task (.process i)).tons = a.sysClock ∧ w.ticks ∈ (w.life i).ran) ∨
        (e = .call .taskNext ∧ a.current = .process i ∧
          ¬ (a.task (.process i)).tons + (a.task (.process i)).period <
            (a.task (.process i)).tons ∧
          (a.task (.process i)).tons + (a.task (.process i)).period < a.sysClock ∧
          ((a.task (.process i)).tons + (a.task (.process i)).period).toNat ∈ (w.life i).ran)) := by
  simp only [Overlooked, hf.represents.task, hf.represents.current, hf.represents.sysClock, ne_eq,
    Option.some.injEq]

/-- **The course of a periodic task whose starts are noticed**, up to the call of `Dispatch`. -/
theorem Noticed.course {a : Sched} {l' : Life} (hf : w.Follows a) (hg : w.Careful e)
    (hc : Sched.Course a e i (w.ticksAfter e) (w.life i) t l') (hp : t.priority = .periodic)
    (h : (a.task (.process i)).state ≠ .dead → (a.task (.process i)).priority = .periodic →
      Noticed w.ticks (a.task (.process i)).timing (w.life i)) :
    Noticed (w.ticksAfter e) t l' := by
  have hcharged : Charged (w.ticksAfter e) t l' :=
    Charged.course hc hp fun hl hp => (h hl hp).toCharged
  have hn : w.ticks < 65536 := Nat.lt_of_le_of_lt (Nat.le_add_right _ _) hg.1
  obtain ⟨hclock, hstate⟩ := hf.clock_eq hn
  refine ⟨hcharged, fun hfull heven hlt => ?_⟩
  cases hc with
  | born hd he ht hr =>
    rw [hr]
    exact List.not_mem_nil
  | kept hl hm ht hr =>
    subst ht hr
    have hlt : (a.task (.process i)).tons.toNat < w.ticksAfter e := hlt
    by_cases hpast : (a.task (.process i)).tons.toNat < w.ticks
    · exact (h hl hp).absent hfull heven hpast
    · -- the start tick ends in this entry
      obtain ⟨he, hnow⟩ : e = .timer ∧ (a.task (.process i)).tons.toNat = w.ticks := by
        by_cases he : e = .timer
        · subst he
          rw [ticksAfter, List.count_singleton_self] at hlt
          exact ⟨rfl, by omega⟩
        · rw [ticksAfter, List.count_eq_zero.2 (by simp [Ne.symm he])] at hlt
          exact absurd hlt hpast
      intro hran
      have hstart : (a.task (.process i)).tons = a.sysClock :=
        BitVec.eq_of_toNat_eq (hnow.trans hclock.symm)
      exact hg.2 i (hf.overlooked_iff.2
        ⟨⟨hl, hp⟩, Or.inl ⟨he, fun hcur => (hm hcur).1 he, hfull, hstart, hnow ▸ hran⟩⟩)
  | charged hl he hcur hne ht hr =>
    -- a hit is never taken back before `Task_Next`
    have hhits := hcharged.uncharged hfull
    rw [hr] at hhits
    cases hhits
  | yielded hl he hcur ht hr =>
    subst ht hr he
    -- the task is running, so its start time was in the epoch of the clock
    have hdue : a.due (.process i) = true := hcur ▸ hf.inv.due (by rw [hcur]; exact hp)
    have hepoch : (a.task (.process i)).clockState = .even := by
      rw [← hstate]
      simp only [Sched.due, Bool.and_eq_true, beq_iff_eq] at hdue
      exact hdue.2.symm
    have hwrap : ¬ (a.task (.process i)).tons + (a.task (.process i)).period <
        (a.task (.process i)).tons := by
      intro hw
      have hodd : (a.task (.process i)).timing.next.clockState = .odd := by
        show (if _ then (a.task (.process i)).clockState.flip else _) = OverflowState.odd
        exact (if_pos hw).trans (by rw [hepoch]; rfl)
      rw [hodd] at heven
      cases heven
    have hpast : (a.task (.process i)).tons + (a.task (.process i)).period < a.sysClock := by
      rw [BitVec.lt_def, hclock]
      exact hlt
    intro hran
    exact hg.2 i (hf.overlooked_iff.2 ⟨⟨hl, hp⟩, Or.inr ⟨rfl, hcur, hwrap, hpast, hran⟩⟩)

theorem Keeps.noticed (h : w.Keeps Noticed) (hs : w.Step e w') (hg : w.Careful e) :
    w'.Keeps Noticed :=
  h.step hs fun _ _ _ _ r hf hc hp hold => (Noticed.course hf hg hc hp hold).observe r

/-! ### Alarms -/

/-- There is no record of a process that is not alive. -/
def Buried (w : Watched) : Prop :=
  ∀ i, (w.kernel.pd (.process i)).state = .dead → w.life i = {}

theorem Initial.buried (h : w₀.Initial) : w₀.Buried := by
  obtain ⟨create, kernelIdle, hf, -, hlife⟩ := h.follows
  intro i hi
  rw [hlife]
  refine Function.update_of_ne ?_ _ _
  intro h0
  subst h0
  rw [hf.represents.state] at hi
  cases hi

theorem Step.buried (hs : w.Step e w') : w'.Buried := by
  obtain ⟨s, -, rfl⟩ := hs
  intro i hi
  have hdead : ¬ s.view.alive i = true := by
    have hi' : (s.pd (.process i)).state = .dead := hi
    simp [Kernel.view, hi']
  exact if_neg hdead

theorem run_buried (hinit : w₀.Initial) (hr : Run Step w₀ es w) : w.Buried := by
  cases hr with
  | nil => exact hinit.buried
  | snoc _ hs => exact hs.buried

/-- **No false alarm.**  Take a run since power-on, and the next entry, in which the clock does not
wrap and no start is overlooked.  If `Dispatch` raises a timing violation for the task `i`, this
task has not been the running one at any moment of its start tick. -/
theorem no_false_alarm {a c : Sched} (hinit : w₀.Initial)
    (hr : Run (fun w e w' => w.Step e w' ∧ w.Careful e) w₀ es w) (ha : w.kernel.UserMode a)
    (hp : w.kernel.Possible e) (hg : w.Careful e) (hd : a.Dispatches e c)
    (hal : c.Alarms (.process i)) : (c.task (.process i)).tons.toNat ∉ (w.life i).ran := by
  have hrun : Run Step w₀ es w := hr.mono fun _ _ _ h => h.1
  obtain ⟨a', hf, hQ⟩ := hr.invariant hinit.keeps fun _ _ _ hk hs => hk.noticed hs.1 hs.2
  obtain rfl := hf.represents.unique ha
  have hp' := ha.possible_iff.1 hp
  have hh := hd.handling hf.inv hp'
  obtain ⟨hlive, hprio⟩ := hh.alarm_periodic hal
  obtain ⟨hfull, hpast, hepoch⟩ := hal.late
  have hcourse := Sched.handled_course (n := w.ticksAfter e) (l := w.life i) hd hf.inv
    (fun _ => hh) hlive hprio
  have hnoticed := Noticed.course hf hg hcourse hprio (hQ i)
  -- the clock at the call of `Dispatch`
  have hclock := Sched.handled_reads hd hf.reads
  have hticks : c.sysClock.toNat = w.ticksAfter e := by
    rw [hclock.clock]
    exact Nat.mod_eq_of_lt hg.1
  have heven : c.clockState = .even := by
    rw [hclock.state, epochOf, Epoch.epoch_eq,
      show w.ticks + [e].count .timer = w.ticksAfter e from rfl, Nat.div_eq_of_lt hg.1]
    rfl
  have habsent := hnoticed.absent hfull (hepoch.trans heven) (by
    rw [← hticks]
    exact hpast)
  by_cases hdead : (a'.task (.process i)).state = .dead
  · rw [run_buried hinit hrun i (by rw [hf.represents.state, hdead])]
    exact List.not_mem_nil
  · rw [← Sched.record_ran (e := e) (n := w.ticksAfter e) hdead]
    exact habsent

/-- A task that has not run in its start tick, because the setup task went on running, raises an
alarm when that one ends. -/
theorem no_false_alarm_when_late : ∃ (w : Watched) (a c : Sched),
    (w.kernel.UserMode a ∧ a.Dispatches (.call .taskTerminate) c ∧ c.Alarms (.process 1)) ∧
    (c.task (.process 1)).tons.toNat ∉ (w.life 1).ran := by
  have hex : ∃ x ∈ ((after (fun w e => decide (w.Careful e)) 1 2
      [.call (.taskCreatePeriod (some 3) 0 10 2 0), .timer]).bind fun w =>
        (Run.exec Sched.advance (Kernel.bootedSched 1 2)
          [.call (.taskCreatePeriod (some 3) 0 10 2 0), .timer]).bind fun a =>
            (a.dispatching (.call .taskTerminate)).map fun c => (w, a, c)).filter fun x =>
        (x.1.kernel.Possible (.call .taskTerminate) ∧ x.1.Careful (.call .taskTerminate)) ∧
        (x.2.2.requeue.level .system).find? x.2.2.requeue.ready = none ∧
        x.2.2.requeue.duePeriodic = some (.process 1) ∧
        x.2.2.requeue.missedStart (.process 1) = true, True :=
    exists_mem_of_isSome (by decide +kernel) fun _ _ => trivial
  obtain ⟨x, hx, -⟩ := hex
  obtain ⟨hx, hfacts⟩ := Option.filter_eq_some_iff.1 hx
  obtain ⟨⟨hp, hg⟩, hs, hd, hm⟩ := of_decide_eq_true hfacts
  obtain ⟨w, hw, hx⟩ := Option.bind_eq_some_iff.1 hx
  obtain ⟨a, ha, hx⟩ := Option.bind_eq_some_iff.1 hx
  obtain ⟨c, hc, rfl⟩ := Option.map_eq_some_iff.1 hx
  have hrep := userMode_of_after hw ha
  have hdis := Sched.dispatching_eq_some.1 hc
  obtain ⟨w₀, hinit, hr⟩ := run_of_after hw
  refine ⟨w, a, c, ⟨hrep, hdis, ⟨hs, hd, hm⟩⟩, ?_⟩
  exact no_false_alarm hinit (hr.mono fun _ _ _ h => ⟨h.1, of_decide_eq_true h.2⟩) hrep hp hg hdis
    ⟨hs, hd, hm⟩

/-- A periodic task that ran in its start tick wakes the setup task, which is waiting for a message;
a tick later the setup task waits again, and the kernel aborts. -/
theorem resumed_task_aborts : ∃ (w₀ w : Watched) (es : List Entry) (a c : Sched),
    (w₀.Initial ∧ Run Step w₀ es w ∧ w.ticks = 1 ∧ w.kernel.UserMode a) ∧
    (a.Dispatches (.call (.msgRecv 1 none)) c ∧ c.Alarms (.process 1) ∧
      w.kernel.enter (.call (.msgRecv 1 none)) = .error (.abort .timingViolation)) ∧
    (c.task (.process 1)).tons.toNat ∈ (w.life 1).ran := by
  have hex : ∃ x ∈ ((after (fun _ _ => true) 1 2
      [.call (.taskCreatePeriod (some 3) 0 10 2 0), .call (.msgRecv 1 none),
        .call (.msgASend 0 1 7), .timer]).bind fun w =>
        (Run.exec Sched.advance (Kernel.bootedSched 1 2)
          [.call (.taskCreatePeriod (some 3) 0 10 2 0), .call (.msgRecv 1 none),
            .call (.msgASend 0 1 7), .timer]).bind fun a =>
            (a.dispatching (.call (.msgRecv 1 none))).map fun c => (w, a, c)).filter fun x =>
        ((x.2.2.requeue.level .system).find? x.2.2.requeue.ready = none ∧
          x.2.2.requeue.duePeriodic = some (.process 1) ∧
          x.2.2.requeue.missedStart (.process 1) = true) ∧
        x.1.ticks = 1 ∧ x.1.kernel.Possible (.call (.msgRecv 1 none)) ∧
        (x.2.2.task (.process 1)).tons.toNat ∈ (x.1.life 1).ran, True :=
    exists_mem_of_isSome (by decide +kernel) fun _ _ => trivial
  obtain ⟨x, hx, -⟩ := hex
  obtain ⟨hx, hfacts⟩ := Option.filter_eq_some_iff.1 hx
  obtain ⟨⟨hs, hd, hm⟩, hticks, hp, hran⟩ := of_decide_eq_true hfacts
  obtain ⟨w, hw, hx⟩ := Option.bind_eq_some_iff.1 hx
  obtain ⟨a, ha, hx⟩ := Option.bind_eq_some_iff.1 hx
  obtain ⟨c, hc, rfl⟩ := Option.map_eq_some_iff.1 hx
  have hrep := userMode_of_after hw ha
  have hdis := Sched.dispatching_eq_some.1 hc
  have hinv : a.Inv := (Sched.run_of_exec ha).invariant (Sched.bootedSched_inv 1 2)
    fun _ _ _ ha hs => hs.inv ha
  obtain ⟨w₀, hinit, hr⟩ := run_of_after hw
  refine ⟨w₀, w, _, a, c, ⟨hinit, hr.mono fun _ _ _ h => h.1, hticks, hrep⟩,
    ⟨hdis, ⟨hs, hd, hm⟩, ?_⟩, hran⟩
  have hrel := hrep.enter hinv (hrep.possible_iff.1 hp)
  rw [Sched.enter_timingViolation_iff.2 (Or.inr (Or.inr ⟨c, _, hdis, hs, hd, hm⟩))] at hrel
  exact hrel.error_right

end Watched

end RoombaRtos
