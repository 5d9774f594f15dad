import RoombaRtos.FalseAlarms
import RoombaRtos.Preemption
import RoombaRtos.AsyncReply

/-!
# Creating tasks

The functions that create a task return what `Kernel_Task_Create` has left in `out_pid`: 0 if the
call was not successful, and otherwise the id of the new task, which is not 0, by `os.h`.

* `ApiCall.creates` — the calls whose arguments are acceptable;
* `Sched.Inv.created_alarms_iff`, `Sched.Inv.full_alarms_iff` — when such a call ends in a timing
  violation;
* `Represents.order_iff` — when a call that creates nothing keeps the order of the queues;
* `Kernel.CreatesFaithfully` — what `os.h` says of the call;
* `Kernel.task_create_iff` — when it is so.
-/

namespace RoombaRtos

open Lockstep ListQueue

/-- The calls that create a task, if the process table has room for it. -/
def ApiCall.creates : ApiCall → Bool
  | .taskCreateSystem f _ => f.isSome
  | .taskCreateRR f _ => f.isSome
  | .taskCreatePeriod f _ period wcet _ => f.isSome && period > 0 && wcet < period
  | _ => false

theorem ApiCall.creates_params {api : ApiCall} (h : api.creates = true) :
    api.params.request = .create ∧ (∃ f, api.params.code = some f) ∧
      Sched.admissible api.params = true ∧ api.params.outPid = 0 := by
  cases api with
  | taskCreateSystem f arg => exact ⟨rfl, Option.isSome_iff_exists.1 h, rfl, rfl⟩
  | taskCreateRR f arg => exact ⟨rfl, Option.isSome_iff_exists.1 h, rfl, rfl⟩
  | taskCreatePeriod f arg period wcet offset =>
    simp only [creates, Bool.and_eq_true] at h
    refine ⟨rfl, Option.isSome_iff_exists.1 h.1.1, ?_, rfl⟩
    simp only [Sched.admissible, ApiCall.params, Bool.and_eq_true]
    exact ⟨h.1.2, h.2⟩
  | _ => cases h

namespace Sched

variable {a a' c : Sched} {p x : PDPtr} {i : Slot} {e : Entry} {api : ApiCall} {f : BitVec 16}
  {l m : List PDPtr} {q : PriorityLevel}

/-! ### The handler -/

/-- The periodic tasks besides the current one, in the order in which they wait. -/
def rivals (a : Sched) : List PDPtr := (a.level .periodic).erase a.current

/-- The state in which a creation in the table entry `i` calls `Dispatch`. -/
def created (a : Sched) (api : ApiCall) (i : Slot) (f : BitVec 16) : Sched :=
  ((a.suspend (.call api)).1.install i f api.params).setInfo (.stub a.current) fun q =>
    { q with outPid := pidOf i }

theorem Inv.suspend_freeSlot (ha : a.Inv) (e : Entry) : (a.suspend e).1.freeSlot = a.freeSlot := by
  unfold freeSlot
  congr 1
  funext i
  rw [decide_eq_decide]
  exact ha.suspend_dead_iff e _

/-- The first free entry of the table is entry 0 exactly if that one is free. -/
theorem freeSlot_eq_zero_iff (h : a.freeSlot = some i) :
    i = 0 ↔ (a.task (.process 0)).state = .dead := by
  constructor
  · rintro rfl
    exact freeSlot_dead h
  · intro hd
    have hfin : List.finRange maxThread = 0 :: (List.finRange 15).map Fin.succ :=
      List.finRange_succ
    rw [freeSlot, hfin, List.find?_cons_of_pos (by simpa using hd)] at h
    exact (Option.some.inj h).symm

theorem freeSlot_eq_none_iff : a.freeSlot = none ↔ ∀ i, (a.task (.process i)).state ≠ .dead := by
  simp [freeSlot, List.find?_eq_none]

/-- With a full table the handler does nothing. -/
theorem Inv.handled_full (ha : a.Inv) (hc : api.params.request = .create)
    (hfull : a.freeSlot = none) :
    a.handled (.call api) = .ok ((a.suspend (.call api)).1, true) := by
  rw [handled, Entry.request, hc, handle, create, ha.suspend_freeSlot, hfull]
  rfl

theorem Inv.handled_created (ha : a.Inv) (hc : api.creates = true)
    (hfree : a.freeSlot = some i) (hf : api.params.code = some f) :
    a.handled (.call api) = .ok (a.created api i f, true) := by
  obtain ⟨hreq, -, hadm, -⟩ := ApiCall.creates_params hc
  have hinfo : (a.suspend (.call api)).1.info (a.suspend (.call api)).2 = api.params :=
    Function.update_self _ _ _
  rw [handled, Entry.request, hreq, handle, create, ha.suspend_freeSlot, hfree]
  simp only [hinfo, hf, hadm, if_true]
  rfl

/-! ### Timing violations -/

theorem SameTimes.missedStart (h : SameTimes (a.task p) (c.task p))
    (hs : c.sysClock = a.sysClock) (hc : c.clockState = a.clockState) :
    c.missedStart p = a.missedStart p := by
  rw [Sched.missedStart, Sched.missedStart, h.1, h.2.1, h.2.2.1, h.2.2.2, hs, hc]

/-- The search of `insert` moves past a task that has missed its start. -/
theorem scansPast_of_missedStart (h : a.missedStart p = true) (t : Task PDPtr) :
    scansPast t a.sysClock (a.task p) = true := by
  simp only [missedStart, Bool.and_eq_true, decide_eq_true_eq] at h
  have htons : (a.task p).tons ≤ a.sysClock := BitVec.le_of_lt h.1.2
  simp [scansPast, htons]

/-- Whether the first task has missed its start, after another one has been placed. -/
theorem place_missed_iff (a : Sched) (p : PDPtr) (l : List PDPtr) :
    (∃ e ∈ (a.place p l).head?, a.missedStart e = true) ↔
      (∃ e ∈ l.head?, a.missedStart e = true) ∨ a.missedStart p = true ∧
        ∀ e ∈ l.head?, scansPast (a.task p) a.sysClock (a.task e) = false := by
  rw [place, placeBehind_head?]
  cases l with
  | nil => simp
  | cons e l =>
    cases hk : scansPast (a.task p) a.sysClock (a.task e) with
    | true => simp [Option.filter, hk]
    | false =>
      have hmissed : a.missedStart e = false := by
        by_contra hm
        rw [scansPast_of_missedStart (by simpa using hm)] at hk
        cases hk
      simp [Option.filter, hk, hmissed]

/-- A periodic task that runs has not missed its start. -/
def OnTime (a : Sched) : Prop :=
  (a.task a.current).priority = .periodic → a.missedStart a.current = false

theorem Handling.dispatch_onTime (h : c.Handling) (he : c.dispatch = .ok a') : a'.OnTime := by
  intro hprio
  rcases select_cases he with ⟨p, hf, rfl⟩ | ⟨-, ⟨p, -, hm, rfl⟩ | ⟨-, ⟨p, hf, rfl⟩ | ⟨-, rfl⟩⟩⟩
  · have hp := h.requeue.levels.priority _ p (List.mem_of_find?_eq_some hf)
    rw [run_current_priority] at hprio
    exact absurd (hprio.symm.trans hp) (by simp)
  · rw [← hm]
    exact SameTimes.missedStart (run_tons _ p p) rfl rfl
  · have hp := h.requeue.levels.priority _ p (List.mem_of_find?_eq_some hf)
    rw [run_current_priority] at hprio
    exact absurd (hprio.symm.trans hp) (by simp)
  · rw [run_current_priority, h.requeue.levels.idle] at hprio
    cases hprio

theorem OnTime.suspend (h : a.OnTime) (e : Entry) : (a.suspend e).1.OnTime := by
  intro hprio
  rw [suspend_current, suspend_priority] at hprio
  rw [suspend_current, SameTimes.missedStart (a.suspend_times e a.current)
    (a.suspend_sysClock e) (a.suspend_clockState e)]
  exact h hprio

theorem Step.onTime (hs : a.Step e a') (ha : a.Inv) (h : a.OnTime) : a'.OnTime := by
  obtain ⟨c, d, b, hc, rfl, ⟨rfl, hd⟩ | ⟨rfl, rfl⟩⟩ := enter_parts hs.2
  · have hon : b.OnTime := (Dispatches.handling hc ha hs.1).dispatch_onTime hd
    exact hon
  · obtain ⟨info, rfl⟩ := (handled_cases hc).quiet.2
    exact h.suspend e

theorem Reachable.onTime (h : a.Reachable) : a.OnTime :=
  h.induction (fun _ _ hp => by cases hp) fun _ _ _ ha hon hs => hs.onTime ha hon

theorem requeue_level_periodic (a : Sched) : a.requeue.level .periodic =
    if (a.task a.current).priority = .periodic then a.replaceHead (a.level .periodic)
    else a.level .periodic := by
  unfold requeue
  cases hp : (a.task a.current).priority <;> simp [setLevel_level]

/-- There is no alarm while a system task is ready. -/
theorem no_alarm (hp : p ∈ c.level .system) (hr : c.ready p = true) : ¬ ∃ e, c.Alarms e := by
  rintro ⟨e, hal⟩
  have hnone := List.find?_eq_none.1 hal.system p (mem_requeue_level.2 hp)
  rw [requeue_ready] at hnone
  exact hnone hr

/-- The periodic tasks that wait besides the current one. -/
structure Waiting (c : Sched) (m : List PDPtr) : Prop where
  behind : (c.task c.current).priority = .periodic → c.level .periodic = c.current :: m
  alone : (c.task c.current).priority ≠ .periodic → c.level .periodic = m

/-- With no ready system task, `Dispatch` raises an alarm exactly if the first of the other
periodic tasks has missed its start. -/
theorem Waiting.alarms_iff (hw : c.Waiting m) (hon : c.OnTime)
    (hsys : ∀ p ∈ c.level .system, c.ready p = false) :
    (∃ p, c.Alarms p) ↔ ∃ e ∈ m.head?, c.missedStart e = true := by
  have hnone : (c.requeue.level .system).find? c.requeue.ready = none := by
    rw [List.find?_eq_none, requeue_ready]
    intro p hp
    simpa using hsys p (mem_requeue_level.1 hp)
  have hmissed : c.requeue.missedStart = c.missedStart := by
    funext p
    exact SameTimes.missedStart (by rw [requeue_task]; exact ⟨rfl, rfl, rfl, rfl⟩)
      (requeue_sysClock c) (requeue_clockState c)
  have hhead : (∃ p, c.Alarms p) ↔
      ∃ p ∈ (c.requeue.level .periodic).head?, c.missedStart p = true := by
    refine exists_congr fun p => ?_
    constructor
    · intro hal
      exact ⟨(duePeriodic_eq_some.1 hal.due).1, hmissed ▸ hal.missed⟩
    · rintro ⟨hp, hm⟩
      refine ⟨hnone, duePeriodic_eq_some.2 ⟨hp, ?_⟩, hmissed ▸ hm⟩
      rw [← hmissed] at hm
      simp only [missedStart, Bool.and_eq_true, decide_eq_true_eq] at hm
      simp only [due, Bool.and_eq_true, decide_eq_true_eq]
      exact ⟨BitVec.le_of_lt hm.1.2, hm.2⟩
  rw [hhead, requeue_level_periodic]
  split_ifs with hp
  · rw [hw.behind hp, replaceHead, place_missed_iff, hon hp]
    simp
  · rw [hw.alone hp]

theorem Inv.current_mem (ha : a.Inv) (hidle : a.current ≠ .idleProcess) :
    a.current ∈ a.level (a.task a.current).priority :=
  List.mem_of_head? (ha.front.resolve_left hidle)

theorem Inv.suspend_ready_current (ha : a.Inv) (e : Entry) :
    (a.suspend e).1.ready a.current = true := by
  rw [ready_iff, ← a.suspend_current e]
  exact (ha.suspend e).ready

/-- The current task is the head of its level. -/
theorem Inv.level_eq (ha : a.Inv) (hidle : a.current ≠ .idleProcess) :
    a.level (a.task a.current).priority =
      a.current :: (a.level (a.task a.current).priority).erase a.current := by
  obtain ⟨l, hl⟩ := List.head?_eq_some_iff.1 (ha.front.resolve_left hidle)
  rw [hl, List.erase_cons_head]

/-- Only the idle process is in no level. -/
theorem Inv.current_user (ha : a.Inv) (hp : (a.task a.current).priority ≠ .unlisted) :
    a.current ≠ .idleProcess := by
  intro hi
  rw [hi] at hp
  exact hp ha.levels.idle

theorem Inv.level_periodic (ha : a.Inv) (hp : (a.task a.current).priority = .periodic) :
    a.level .periodic = a.current :: a.rivals := by
  have hlevel := ha.level_eq (ha.current_user (by rw [hp]; simp))
  rwa [hp] at hlevel

theorem Inv.rivals_eq (ha : a.Inv) (hp : (a.task a.current).priority ≠ .periodic) :
    a.rivals = a.level .periodic :=
  List.erase_of_not_mem (ha.levels.notMem_of_priority hp)

theorem Inv.waiting_suspend (ha : a.Inv) : (a.suspend e).1.Waiting a.rivals := by
  have hprio := a.suspend_priority e a.current
  refine ⟨fun hp => ?_, fun hp => ?_⟩
  · rw [suspend_current, hprio] at hp
    rw [suspend_level, suspend_current, ha.level_periodic hp]
  · rw [suspend_current, hprio] at hp
    rw [suspend_level, ha.rivals_eq hp]

/-- A call that creates nothing ends in a timing violation exactly if the first of the other
periodic tasks has missed its start. -/
theorem Inv.full_alarms_iff (ha : a.Inv) (hset : a.Settled) (hon : a.OnTime)
    (hidle : a.current ≠ .idleProcess) :
    (∃ p, (a.suspend e).1.Alarms p) ↔ (a.task a.current).priority ≠ .system ∧
      ∃ p ∈ a.rivals.head?, a.missedStart p = true := by
  have hready := ha.suspend_ready_current e
  by_cases hp : (a.task a.current).priority = .system
  · refine iff_of_false (no_alarm (p := a.current) ?_ hready) fun h => h.1 hp
    rw [suspend_level, ← hp]
    exact ha.current_mem hidle
  · have hsys := (hset.suspend ha e).system (by rwa [suspend_current, suspend_priority])
    rw [ha.waiting_suspend.alarms_iff (hon.suspend e) hsys, and_iff_right hp]
    exact exists_congr fun p => and_congr_right fun _ => by
      rw [SameTimes.missedStart (a.suspend_times e p) (a.suspend_sysClock e)
        (a.suspend_clockState e)]

/-- The descriptor of a new periodic task, as far as the search of `insert` looks at it. -/
def newcomer (sysClock : Tick) (clockState : OverflowState) (offset : Tick) : Task PDPtr :=
  { tons := sysClock + offset, clockState := clockState }

theorem created_task (a : Sched) (api : ApiCall) (i : Slot) (f : BitVec 16) :
    (a.created api i f).task = Function.update (a.suspend (.call api)).1.task (.process i)
      ((a.suspend (.call api)).1.newTask i f api.params) := rfl

@[simp] theorem created_current : (a.created api i f).current = a.current := rfl

theorem created_other (hp : p ≠ .process i) :
    (a.created api i f).task p = (a.suspend (.call api)).1.task p := by
  rw [created_task, Function.update_of_ne hp]

theorem created_times (hp : p ≠ .process i) :
    SameTimes (a.task p) ((a.created api i f).task p) := by
  rw [created_other hp]
  exact a.suspend_times _ p

theorem Inv.ne_of_listed (ha : a.Inv) (hi : (a.task (.process i)).state = .dead)
    (hp : p ∈ a.level q) : p ≠ .process i := by
  rintro rfl
  exact ha.levels.live _ _ hp hi

theorem Inv.current_ne (ha : a.Inv) (hi : (a.task (.process i)).state = .dead) :
    a.current ≠ .process i := by
  intro hc
  rw [← hc] at hi
  exact ha.current_live hi

theorem Inv.created_priority (ha : a.Inv) (hi : (a.task (.process i)).state = .dead) :
    ((a.created api i f).task a.current).priority = (a.task a.current).priority := by
  rw [created_other (ha.current_ne hi), suspend_priority]

theorem Inv.created_onTime (ha : a.Inv) (hi : (a.task (.process i)).state = .dead)
    (hon : a.OnTime) : (a.created api i f).OnTime := by
  intro hp
  rw [created_current, ha.created_priority hi] at hp
  rw [created_current,
    SameTimes.missedStart (created_times (ha.current_ne hi)) (a.suspend_sysClock _)
      (a.suspend_clockState _)]
  exact hon hp

/-- The other levels are as they were. -/
theorem created_level (hq : q ≠ api.params.priority) :
    (a.created api i f).level q = a.level q := by
  obtain ⟨l, -, hlevel⟩ := (a.suspend (.call api)).1.install_level i f api.params
  show ((a.suspend (.call api)).1.install i f api.params).level q = a.level q
  rw [hlevel, Function.update_of_ne hq, suspend_level]

/-- A new periodic task goes behind the current one. -/
theorem Inv.created_waiting (ha : a.Inv) (hi : (a.task (.process i)).state = .dead) :
    (a.created api i f).Waiting (if api.params.priority = .periodic then
        (a.created api i f).place (.process i) a.rivals else a.rivals) := by
  have hwait := ha.waiting_suspend (e := .call api)
  have hprio : ((a.created api i f).task a.current).priority =
      ((a.suspend (.call api)).1.task a.current).priority := by
    rw [ha.created_priority hi, suspend_priority]
  split_ifs with hper
  · have hlevel : (a.created api i f).level .periodic =
        (a.created api i f).place (.process i) (a.level .periodic) := by
      show ((a.suspend (.call api)).1.install i f api.params).level .periodic = _
      rw [install, hper]
      rfl
    refine ⟨fun hp => ?_, fun hp => ?_⟩
    · rw [created_current, ha.created_priority hi] at hp
      have hdue := ha.due hp
      have hpast : scansPast ((a.created api i f).task (.process i))
          (a.created api i f).sysClock ((a.created api i f).task a.current) = true := by
        have htons : ((a.created api i f).task a.current).tons = (a.task a.current).tons :=
          (created_times (ha.current_ne hi)).1
        have hclock : (a.created api i f).sysClock = a.sysClock := a.suspend_sysClock _
        simp only [Sched.due, Bool.and_eq_true, decide_eq_true_eq] at hdue
        rw [scansPast, htons, hclock]
        simp [hdue.1]
      rw [hlevel, ha.level_periodic hp]
      exact placeBehind_cons_keep hpast
    · rw [created_current, ha.created_priority hi] at hp
      rw [hlevel, ha.rivals_eq hp]
  · have hlevel : (a.created api i f).level .periodic =
        (a.suspend (.call api)).1.level .periodic := by
      rw [created_level (Ne.symm hper), suspend_level]
    refine ⟨fun hp => ?_, fun hp => ?_⟩
    · rw [hlevel]
      exact hwait.behind (hprio ▸ hp)
    · rw [hlevel]
      exact hwait.alone (hprio ▸ hp)

/-- There is no alarm when the caller or the new task is a system task. -/
theorem Inv.created_no_alarm (ha : a.Inv) (hidle : a.current ≠ .idleProcess)
    (hi : (a.task (.process i)).state = .dead)
    (hp : (a.task a.current).priority = .system ∨ api.params.priority = .system) :
    ¬ ∃ p, (a.created api i f).Alarms p := by
  have hmem := (a.suspend (.call api)).1.mem_install_level i f api.params .system
  rcases hp with hp | hp
  · refine no_alarm (p := a.current) ((hmem _).2 (Or.inl ?_)) ?_
    · rw [suspend_level, ← hp]
      exact ha.current_mem hidle
    · rw [Sched.ready, created_other (ha.current_ne hi)]
      exact ha.suspend_ready_current _
  · refine no_alarm (p := .process i) ((hmem _).2 (Or.inr ⟨rfl, hp.symm⟩)) ?_
    rw [ready_iff, created_task, Function.update_self]
    exact (newTask_spec _ _ _ _).1

theorem created_timing (hp : api.params.priority = .periodic) :
    ((a.created api i f).task (.process i)).timing =
      .fresh api.params a.sysClock a.clockState := by
  rw [created_task, Function.update_self, newTask, hp, suspend_sysClock, suspend_clockState]
  rfl

/-- A new periodic task has missed its start if the clock wraps before its offset is over. -/
theorem created_missed_iff (hp : api.params.priority = .periodic) :
    (a.created api i f).missedStart (.process i) = true ↔
      a.sysClock + api.params.offset < a.sysClock := by
  obtain ⟨-, -, hwcet, htons, hticks, hepoch⟩ := Timing.mk.inj (created_timing hp)
  have hclock : (a.created api i f).sysClock = a.sysClock := a.suspend_sysClock _
  have hstate : (a.created api i f).clockState = a.clockState := a.suspend_clockState _
  rw [missedStart, hwcet, htons, hticks, hepoch, hclock, hstate]
  simp

theorem created_scansPast (hp : api.params.priority = .periodic) (hne : p ≠ .process i) :
    scansPast ((a.created api i f).task (.process i)) (a.created api i f).sysClock
        ((a.created api i f).task p) =
      scansPast (newcomer a.sysClock a.clockState api.params.offset) a.sysClock (a.task p) := by
  obtain ⟨-, -, -, htons, -, hepoch⟩ := Timing.mk.inj (created_timing hp)
  have hclock : (a.created api i f).sysClock = a.sysClock := a.suspend_sysClock _
  have htimes : SameTimes (a.task p) ((a.created api i f).task p) := created_times hne
  obtain ⟨h₁, h₂, h₃, h₄⟩ := htimes
  rw [scansPast, scansPast, later, later, htons, hepoch, h₁, h₂, h₃, h₄, hclock]
  rfl

/-- **A creation ends in a timing violation** exactly if the periodic task that would wait first
besides the current one has missed its start: one that waited before, or the new one, if the clock
wraps before its offset is over. -/
theorem Inv.created_alarms_iff (ha : a.Inv) (hset : a.Settled) (hon : a.OnTime)
    (hidle : a.current ≠ .idleProcess) (hi : (a.task (.process i)).state = .dead) :
    (∃ p, (a.created api i f).Alarms p) ↔
      ((a.task a.current).priority ≠ .system ∧ api.params.priority ≠ .system) ∧
        ((∃ p ∈ a.rivals.head?, a.missedStart p = true) ∨
          api.params.priority = .periodic ∧ a.sysClock + api.params.offset < a.sysClock ∧
            ∀ p ∈ a.rivals.head?,
              scansPast (newcomer a.sysClock a.clockState api.params.offset) a.sysClock
                (a.task p) = false) := by
  by_cases hsystem : (a.task a.current).priority = .system ∨ api.params.priority = .system
  · refine iff_of_false (ha.created_no_alarm hidle hi hsystem) fun h => ?_
    exact hsystem.elim h.1.1 h.1.2
  obtain ⟨hp, hq⟩ := not_or.1 hsystem
  have hsys : ∀ p ∈ (a.created api i f).level .system, (a.created api i f).ready p = false := by
    intro p hm
    rw [created_level (Ne.symm hq)] at hm
    rw [Sched.ready, created_other (ha.ne_of_listed hi hm)]
    refine (hset.suspend ha (.call api)).system ?_ p (by rwa [suspend_level])
    rwa [suspend_current, suspend_priority]
  have hold : ∀ p ∈ a.rivals.head?, p ≠ .process i := fun p hm =>
    ha.ne_of_listed hi (List.mem_of_mem_erase (List.mem_of_head? hm))
  have hmissed : (∃ p ∈ a.rivals.head?, (a.created api i f).missedStart p = true) ↔
      ∃ p ∈ a.rivals.head?, a.missedStart p = true :=
    exists_congr fun p => and_congr_right fun hm => by
      rw [SameTimes.missedStart (created_times (hold p hm)) (a.suspend_sysClock _)
        (a.suspend_clockState _)]
  rw [(ha.created_waiting hi).alarms_iff (ha.created_onTime hi hon) hsys, and_iff_right ⟨hp, hq⟩]
  by_cases hper : api.params.priority = .periodic
  · -- the new task is among those that wait
    rw [if_pos hper, place_missed_iff, hmissed, created_missed_iff hper, and_iff_right hper]
    refine or_congr_right (and_congr_right fun _ => forall₂_congr fun p hm => ?_)
    rw [created_scansPast hper (hold p hm)]
  · rw [if_neg hper, hmissed]
    simp [hper]

/-! ### The order of the queues -/

/-- The current periodic task goes behind one that is not due, so that no periodic task runs. -/
def Overtaken (a : Sched) : Prop :=
  ∃ p ∈ a.rivals.head?,
    scansPast (a.task a.current) a.sysClock (a.task p) = true ∧ a.due p = false

/-- The level in whose order `Dispatch` looks for a ready task, in an entry that does nothing
else. -/
def Searched (a : Sched) (q : PriorityLevel) : Prop :=
  (a.task a.current).priority = q ∧ (q = .system ∨ q = .rr) ∨
    (a.task a.current).priority = .periodic ∧ q = .rr ∧ a.Overtaken

theorem requeue_of_priority (hp : (a.task a.current).priority = q)
    (hq : q = .system ∨ q = .rr) : a.requeue = a.setLevel q ((a.level q).rotate 1) := by
  subst hp
  unfold requeue
  rcases hq with hq | hq <;> rw [hq]

/-- A system or round-robin task that does nothing lets the others of its level move up to the
first ready one. -/
theorem Inv.dispatch_level (ha : a.Inv) (hset : a.Settled)
    (hp : (a.task a.current).priority = q) (hq : q = .system ∨ q = .rr)
    (hd : (a.suspend e).1.dispatch = .ok c) :
    c.level = Function.update a.level q
      (rotateTo (a.suspend e).1.ready ((a.level q).erase a.current ++ [a.current])) := by
  have hidle : a.current ≠ .idleProcess := ha.current_user <| by
    rw [hp]
    rcases hq with rfl | rfl <;> simp
  set b := (a.suspend e).1 with hb
  have hbp : (b.task b.current).priority = q := by rw [hb, suspend_current, suspend_priority, hp]
  have hlevel : b.requeue.level =
      Function.update a.level q ((a.level q).erase a.current ++ [a.current]) := by
    rw [requeue_of_priority hbp hq, setLevel_level, hb, suspend_level]
    congr 1
    conv_lhs => rw [← hp, ha.level_eq hidle, hp]
    rw [List.rotate_cons_succ, List.rotate_zero]
  have hself : b.requeue.level q = (a.level q).erase a.current ++ [a.current] := by
    rw [hlevel, Function.update_self]
  have hready := b.requeue_ready
  obtain ⟨y, hy⟩ : ∃ y, (b.requeue.level q).find? b.requeue.ready = some y := by
    refine Option.isSome_iff_exists.1 (List.find?_isSome.2 ⟨a.current, ?_, ?_⟩)
    · rw [hself]
      simp
    · rw [hready]
      exact ha.suspend_ready_current e
  have habove : q = .rr → (∀ p ∈ b.requeue.level .system, b.requeue.ready p = false) ∧
      b.requeue.duePeriodic = none := by
    intro hrr
    have hns : (b.task b.current).priority ≠ .system := by rw [hbp, hrr]; simp
    have hnp : (b.task b.current).priority ≠ .periodic := by rw [hbp, hrr]; simp
    have hsb := hset.suspend ha e
    refine ⟨fun p hm => ?_, ?_⟩
    · rw [hready]
      exact hsb.system hns p (mem_requeue_level.1 hm)
    · rw [requeue_duePeriodic hnp]
      exact hsb.periodic hns hnp
  rw [dispatch, select_of_find? hq habove hy, Except.ok.injEq] at hd
  rw [← hd, run_level, bring_level, hready, hself, hlevel, Function.update_idem]

theorem Inv.requeue_due_iff (ha : a.Inv) (hp : (a.task a.current).priority = .periodic) :
    (a.suspend e).1.requeue.duePeriodic = none ↔ a.Overtaken := by
  set b := (a.suspend e).1 with hb
  have hlevel : b.requeue.level .periodic = b.place a.current a.rivals := by
    rw [requeue_level_periodic, hb, suspend_current, suspend_priority, if_pos hp, suspend_level,
      ha.level_periodic hp]
    rfl
  have hdue : b.requeue.due = a.due := b.requeue_due.trans (funext (a.suspend_due e))
  have hscan : ∀ p, scansPast (b.task a.current) b.sysClock (b.task p) =
      scansPast (a.task a.current) a.sysClock (a.task p) := by
    intro p
    obtain ⟨h₁, h₂, h₃, h₄⟩ := a.suspend_times e p
    obtain ⟨k₁, -, -, k₄⟩ := a.suspend_times e a.current
    rw [hb, scansPast, scansPast, later, later, h₁, h₂, h₃, h₄, k₁, k₄, suspend_sysClock]
  rw [duePeriodic, hlevel, place, placeBehind_head?, hdue, Overtaken]
  have hself := ha.due hp
  cases hr : a.rivals.head? with
  | none => simp [Option.filter, hself]
  | some y =>
    cases hk : scansPast (a.task a.current) a.sysClock (a.task y) with
    | true => cases hy : a.due y <;> simp [Option.filter, hscan, hk, hy]
    | false => simp [Option.filter, hscan, hk, hself]

/-- A periodic task that does nothing takes its place anew; if it is overtaken, the round-robin
tasks move up to the first ready one. -/
theorem Inv.dispatch_level_periodic (ha : a.Inv) (hset : a.Settled)
    (hp : (a.task a.current).priority = .periodic) (hd : (a.suspend e).1.dispatch = .ok c) :
    ∃ l, l.erase a.current = a.rivals ∧
      (¬ a.Overtaken ∧ c.level = Function.update a.level .periodic l ∨
        a.Overtaken ∧ c.level = Function.update (Function.update a.level .periodic l) .rr
          (rotateTo (a.suspend e).1.ready (a.level .rr))) := by
  have hdue := ha.requeue_due_iff (e := e) hp
  have hnot : a.current ∉ a.rivals := (ha.levels.nodup _).not_mem_erase
  set b := (a.suspend e).1 with hb
  have hlevel : b.requeue.level =
      Function.update a.level .periodic (b.place a.current a.rivals) := by
    unfold requeue
    rw [hb, suspend_current, suspend_priority, hp, suspend_level, ha.level_periodic hp]
    exact congrArg (Function.update · _ _) (a.suspend_level e)
  have hrr : b.requeue.level .rr = a.level .rr := by rw [hlevel, Function.update_of_ne (by simp)]
  refine ⟨b.place a.current a.rivals, placeBehind_erase hnot, ?_⟩
  rcases select_cases hd with ⟨p, hf, -⟩ | ⟨-, ⟨p, hf, -, rfl⟩ | ⟨hnone, ⟨p, hf, rfl⟩ | ⟨hf, rfl⟩⟩⟩
  · have hns := (hset.suspend ha e).system (by rw [suspend_current, suspend_priority, hp]; simp)
    have hrun := List.find?_some hf
    rw [requeue_ready, hns p (mem_requeue_level.1 (List.mem_of_find?_eq_some hf))] at hrun
    cases hrun
  · refine Or.inl ⟨fun h => ?_, by rw [run_level, hlevel]⟩
    rw [hdue.2 h] at hf
    cases hf
  · refine Or.inr ⟨hdue.1 hnone, ?_⟩
    rw [run_level, bring_level, requeue_ready, hrr, hlevel]
  · have hnobody : ∀ p ∈ a.level .rr, b.ready p = false := by
      intro p hm
      rw [← requeue_ready]
      simpa using List.find?_eq_none.1 hf p (hrr ▸ hm)
    refine Or.inr ⟨hdue.1 hnone, ?_⟩
    rw [run_level, rotateTo_eq_self hnobody, ← hlevel, ← hrr, Function.update_eq_self]

/-- A dispatch by a system or a round-robin task rotates the queue of that task. -/
theorem Inv.dispatch_order_cyclic (ha : a.Inv) (hset : a.Settled)
    (hp : (a.task a.current).priority = .system ∨ (a.task a.current).priority = .rr)
    (hd : (a.suspend e).1.dispatch = .ok c) (q : PriorityLevel) :
    (a.Searched q → (c.level q).erase a.current =
      rotateTo (a.suspend e).1.ready ((a.level q).erase a.current)) ∧
    (¬ a.Searched q → (c.level q).erase a.current = (a.level q).erase a.current) := by
  have hself := ha.suspend_ready_current e
  rw [ha.dispatch_level hset rfl hp hd]
  by_cases hq : q = (a.task a.current).priority
  · subst hq
    have hnot : a.current ∉ (a.level (a.task a.current).priority).erase a.current :=
      (ha.levels.nodup _).not_mem_erase
    rw [Function.update_self, rotateTo_concat_erase hself hnot]
    exact ⟨fun _ => rfl, fun hn => absurd (Or.inl ⟨rfl, hp⟩) hn⟩
  · rw [Function.update_of_ne hq]
    refine ⟨fun hs => ?_, fun _ => rfl⟩
    rcases hs with ⟨hq', -⟩ | ⟨hper, -⟩
    · exact absurd hq'.symm hq
    · rw [hper] at hp
      rcases hp with hp | hp <;> cases hp

/-- A dispatch by a periodic task rotates the round-robin queue, if the task is overtaken. -/
theorem Inv.dispatch_order_periodic (ha : a.Inv) (hset : a.Settled)
    (hper : (a.task a.current).priority = .periodic)
    (hd : (a.suspend e).1.dispatch = .ok c) (q : PriorityLevel) :
    (a.Searched q → (c.level q).erase a.current =
      rotateTo (a.suspend e).1.ready ((a.level q).erase a.current)) ∧
    (¬ a.Searched q → (c.level q).erase a.current = (a.level q).erase a.current) := by
  have hsearched : a.Searched q ↔ q = .rr ∧ a.Overtaken := by
    constructor
    · rintro (⟨rfl, hq⟩ | ⟨-, h⟩)
      · rw [hper] at hq
        rcases hq with hq | hq <;> cases hq
      · exact h
    · exact fun h => Or.inr ⟨hper, h⟩
  have hrr : a.current ∉ a.level .rr := fun hm => by
    rw [ha.levels.priority _ _ hm] at hper
    cases hper
  rw [hsearched]
  obtain ⟨l, hl, ⟨hover, hlevel⟩ | ⟨hover, hlevel⟩⟩ := ha.dispatch_level_periodic hset hper hd
  · rw [hlevel]
    refine ⟨fun h => absurd h.2 hover, fun _ => ?_⟩
    by_cases hq : q = .periodic
    · subst hq
      rw [Function.update_self, hl, rivals]
    · rw [Function.update_of_ne hq]
  · rw [hlevel]
    by_cases hq : q = .periodic
    · subst hq
      rw [Function.update_of_ne (by simp), Function.update_self, hl]
      exact ⟨fun h => absurd h.1 (by simp), fun _ => rfl⟩
    by_cases hq' : q = .rr
    · subst hq'
      have hrot : a.current ∉ rotateTo (a.suspend e).1.ready (a.level .rr) := by
        rwa [mem_rotateTo]
      rw [Function.update_self, List.erase_of_not_mem hrr, List.erase_of_not_mem hrot]
      exact ⟨fun _ => rfl, fun h => absurd ⟨rfl, hover⟩ h⟩
    · rw [Function.update_of_ne hq', Function.update_of_ne hq]
      exact ⟨fun h => absurd h.1 hq', fun _ => rfl⟩

/-- **The order of the queues** after an entry that does nothing but dispatch: in the level that is
searched, the tasks besides the current one move up to the first ready one. -/
theorem Inv.dispatch_order (ha : a.Inv) (hset : a.Settled) (hidle : a.current ≠ .idleProcess)
    (hd : (a.suspend e).1.dispatch = .ok c) (q : PriorityLevel) :
    (a.Searched q → (c.level q).erase a.current =
      rotateTo (a.suspend e).1.ready ((a.level q).erase a.current)) ∧
    (¬ a.Searched q → (c.level q).erase a.current = (a.level q).erase a.current) := by
  cases hp : (a.task a.current).priority with
  | system => exact ha.dispatch_order_cyclic hset (.inl hp) hd q
  | rr => exact ha.dispatch_order_cyclic hset (.inr hp) hd q
  | periodic => exact ha.dispatch_order_periodic hset hp hd q
  | unlisted =>
    have hlisted := (ha.suspend e).listed (by rwa [suspend_current])
    rw [suspend_current, suspend_priority, hp] at hlisted
    exact absurd rfl hlisted

/-! ### What the caller is told -/

/-- Of two dispatching handlings of one entry there is one. -/
theorem Step.dispatch_of (hs : a.Step e a') (hc : a.Dispatches e c) :
    ∃ b, c.dispatch = .ok b ∧
      a' = b.setInfo (a.suspend e).2 fun q => { q with request := .none } := by
  obtain ⟨c', d, b, hc', rfl, hd⟩ := enter_parts hs.2
  obtain ⟨rfl, rfl⟩ := Prod.mk.inj (Except.ok.inj (hc.symm.trans hc'))
  exact ⟨b, (hd.resolve_right (by simp)).2, rfl⟩

/-- An entry returns exactly if its dispatch raises no alarm. -/
theorem Dispatches.step_iff (hc : a.Dispatches e c) (hp : a.Possible e) :
    (∃ a', a.Step e a') ↔ ¬ ∃ p, c.Alarms p := by
  constructor
  · rintro ⟨a', hs⟩ hal
    obtain ⟨b, hd, -⟩ := hs.dispatch_of hc
    rw [dispatch_error_iff.2 ⟨rfl, hal⟩] at hd
    cases hd
  · intro hno
    cases hd : c.dispatch with
    | error x => exact absurd (dispatch_error_iff.1 hd).2 hno
    | ok b =>
      cases he : a.enter e with
      | ok a' => exact ⟨a', hp, he⟩
      | error x =>
        rcases enter_error_iff.1 he with hx | ⟨c', hc', hx⟩
        · rw [hc] at hx
          cases hx
        · obtain ⟨rfl, -⟩ := Prod.mk.inj (Except.ok.inj (hc.symm.trans hc'))
          rw [hd] at hx
          cases hx

/-- A ready caller is told what the handler has left in its parameter block. -/
theorem Step.told {j : Slot} (hs : a.Step e a') (ha : a.Inv) (hj : a.current = .process j)
    (hc : a.Dispatches e c) (hready : c.ready a.current = true) :
    a'.Told j (c.info (.stub (.process j))).outPid := by
  obtain ⟨b, hd, rfl⟩ := hs.dispatch_of hc
  obtain ⟨p, -, -, ht, -, hi⟩ := (hc.handling ha hs.1).dispatch_frame hd
  have hkept : ∀ r r' : InfoPtr PDPtr,
      ((b.setInfo r fun q => { q with request := .none }).info r').outPid =
        (c.info r').outPid := by
    intro r r'
    rw [← hi]
    show (Function.update b.info r _ r').outPid = _
    by_cases hr : r' = r
    · rw [hr, Function.update_self]
    · rw [Function.update_of_ne hr]
  refine ⟨phase_eq_active.2 ?_, hkept _ _⟩
  rw [setInfo_task, ht, ← hj]
  by_cases hp : a.current = p
  · rw [hp, setState_self]
    exact Or.inr rfl
  · rw [setState_other hp]
    exact Or.inl (ready_iff.1 hready)

/-- A caller for whose task there is no room is told 0. -/
theorem Step.told_zero {j : Slot} (hs : a.Step (.call api) a') (ha : a.Inv)
    (hj : a.current = .process j) (hc : a.Dispatches (.call api) (a.suspend (.call api)).1)
    (hout : api.params.outPid = 0) : a'.Told j 0 := by
  have hinfo : (a.suspend (.call api)).1.info (.stub (.process j)) = api.params := by
    rw [← hj]
    exact Function.update_self _ _ _
  have ht := hs.told ha hj hc (ha.suspend_ready_current _)
  rwa [hinfo, hout] at ht

/-- What a call that does nothing leaves of its caller. -/
theorem Step.caller_task (hs : a.Step (.call api) a') (ha : a.Inv)
    (hc : a.Dispatches (.call api) (a.suspend (.call api)).1) :
    ∃ st, (st = .ready ∨ st = .running) ∧ a'.task a.current =
      { a.task a.current with state := st, reqParams := some (.stub a.current) } := by
  obtain ⟨b, hd, rfl⟩ := hs.dispatch_of hc
  obtain ⟨p, -, -, ht, -, -⟩ := (hc.handling ha hs.1).dispatch_frame hd
  have hself : (a.suspend (.call api)).1.task a.current =
      { a.task a.current with state := .ready, reqParams := some (.stub a.current) } := by
    simp [suspend, setState_task, setTask_task]
  rw [setInfo_task, ht, setState_task]
  by_cases hp : a.current = p
  · rw [← hp, Function.update_self, hself]
    exact ⟨.running, Or.inr rfl, rfl⟩
  · rw [Function.update_of_ne hp, hself]
    exact ⟨.ready, Or.inl rfl, rfl⟩

theorem newTask_params (a : Sched) (i : Slot) (f : BitVec 16) (q : KernelRequestParams) :
    (a.newTask i f q).code = some f ∧ (a.newTask i f q).arg = q.arg ∧
      (q.priority = .periodic → (a.newTask i f q).period = q.period ∧
        (a.newTask i f q).wcet = q.wcet ∧ (a.newTask i f q).tons = a.sysClock + q.offset) := by
  unfold newTask
  cases q.priority <;> simp

/-- The new task, at the next return to user mode. -/
theorem Step.created_spec (hs : a.Step (.call api) a') (ha : a.Inv)
    (hc : a.Dispatches (.call api) (a.created api i f)) : ∃ st,
      a'.task (.process i) = { a.newTask i f api.params with state := st } ∧
        (st = .ready ∨ st = .running) := by
  obtain ⟨b, hd, rfl⟩ := hs.dispatch_of hc
  obtain ⟨p, -, -, ht, -, -⟩ := (hc.handling ha hs.1).dispatch_frame hd
  have hnew : (a.created api i f).task (.process i) = a.newTask i f api.params := by
    rw [created_task, Function.update_self, newTask, newTask, suspend_sysClock, suspend_clockState]
  rw [setInfo_task, ht, setState_task]
  by_cases hp : PDPtr.process i = p
  · rw [← hp, Function.update_self, hnew]
    exact ⟨.running, rfl, Or.inr rfl⟩
  · rw [Function.update_of_ne hp, hnew]
    exact ⟨.ready, by rw [← (a.newTask_spec i f api.params).1], Or.inl rfl⟩

end Sched

namespace Kernel

variable {s s' : Kernel} {a a' : Sched} {p : PDPtr} {c : ApiCall} {id : Pid} {j x : Slot}

/-! ### What a dispatch does not touch -/

/-- The messages and the counters are the same. -/
structure SameData (s s' : Kernel) : Prop where
  messages : s'.messages = s.messages
  msgQueue : s'.msgQueue = s.msgQueue
  tasks : s'.tasks = s.tasks
  sysClock : s'.sysClock = s.sysClock
  clockState : s'.clockState = s.clockState

theorem SameData.trans {s'' : Kernel} (h : s.SameData s') (h' : s'.SameData s'') :
    s.SameData s'' :=
  ⟨h'.messages.trans h.messages, h'.msgQueue.trans h.msgQueue, h'.tasks.trans h.tasks,
    h'.sysClock.trans h.sysClock, h'.clockState.trans h.clockState⟩

theorem SameData.refl (s : Kernel) : s.SameData s := ⟨rfl, rfl, rfl, rfl, rfl⟩

theorem requeueCurrent_data (h : s.requeueCurrent p = .ok s') : s.SameData s' := by
  have hqueue : ∀ {q : PriorityLevel} {r : Except Halt ((PDPtr → PD PDPtr) × TaskQueue PDPtr)},
      (if (s.queue q).length > 1 then do
        let r ← r
        return s.setQueue q r
      else .ok s) = .ok s' → s.SameData s' := by
    intro q r h
    split_ifs at h
    · obtain ⟨_, -, h⟩ := bind_ok h
      cases h
      exact ⟨rfl, rfl, rfl, rfl, rfl⟩
    · cases h
      exact .refl s
  unfold requeueCurrent at h
  split at h
  · exact hqueue h
  · exact hqueue h
  · exact hqueue h
  · split_ifs at h
    cases h
    exact .refl s

theorem rotateReady_data {q : PriorityLevel} {x : Option PDPtr × Kernel}
    (h : s.rotateReady q = .ok x) : s.SameData x.2 := by
  obtain ⟨⟨_, _, _⟩, -, h⟩ := bind_ok h
  cases h
  exact ⟨rfl, rfl, rfl, rfl, rfl⟩

theorem firstReady_data {q : PriorityLevel} {x : Option PDPtr × Kernel}
    (h : s.firstReady q = .ok x) : s.SameData x.2 := by
  unfold firstReady at h
  split_ifs at h
  · exact rotateReady_data h
  · cases h
    exact .refl s

theorem selectNext_data {x : PDPtr × Kernel} (h : s.selectNext = .ok x) : s.SameData x.2 := by
  obtain ⟨⟨y, s₁⟩, h₁, h⟩ := bind_ok h
  have hdata := firstReady_data h₁
  refine hdata.trans ?_
  cases y with
  | some p =>
    cases h
    exact .refl _
  | none =>
    obtain ⟨d, -, h⟩ := bind_ok h
    cases d with
    | true =>
      obtain ⟨⟨z, s₂⟩, h₂, h⟩ := bind_ok h
      have hdata₂ := rotateReady_data h₂
      cases z with
      | none =>
        cases h
        exact hdata₂
      | some p =>
        dsimp only at h
        split_ifs at h
        cases h
        exact hdata₂
    | false =>
      obtain ⟨⟨z, s₂⟩, h₂, h⟩ := bind_ok h
      cases h
      exact firstReady_data h₂

theorem dispatch_data (h : s.dispatch = .ok s') : s.SameData s' := by
  have hrest : ∀ {s₁ : Kernel}, s.SameData s₁ →
      (if s₁.currentRunning = true then pure s₁ else s₁.selectNext >>= fun x =>
        .ok { x.2.setState x.1 .running with cp := some x.1 }) = .ok s' → s.SameData s' := by
    intro s₁ hdata h
    refine hdata.trans ?_
    split_ifs at h
    · cases h
      exact .refl _
    · obtain ⟨x, h₂, h⟩ := bind_ok h
      cases h
      have hdata₂ := selectNext_data h₂
      exact ⟨hdata₂.messages, hdata₂.msgQueue, hdata₂.tasks, hdata₂.sysClock, hdata₂.clockState⟩
  unfold dispatch at h
  cases hcp : s.cp with
  | none =>
    rw [hcp] at h
    exact hrest (.refl s) h
  | some cp =>
    rw [hcp] at h
    obtain ⟨s₁, h₁, h⟩ := bind_ok h
    exact hrest (requeueCurrent_data h₁) h

/-- A creation for which the table has no room touches no message and no counter. -/
theorem enter_full_data (hactive : s.kernelActive = true) (hcp : s.cp = some p)
    (hreq : c.params.request = .create) (hfull : s.tasks.toNat ≥ maxThread)
    (h : s.enter (.call c) = .ok s') : s.SameData s' := by
  have hcreate : (s.handling p c).kernelTaskCreate (.stub p) = .ok (s.handling p c) := by
    rw [kernelTaskCreate, if_pos (show (s.handling p c).tasks.toNat ≥ maxThread from hfull)]
  rw [enter_call c hactive hcp, hreq] at h
  obtain ⟨s₁, h₁, h⟩ := bind_ok h
  have h₁ : (s.handling p c).kernelRequestCreate (.stub p) = .ok s₁ := h₁
  rw [kernelRequestCreate, hcreate, ok_bind] at h₁
  have hentry : s.SameData (s.handling p c) := ⟨rfl, rfl, rfl, rfl, rfl⟩
  have hdata : s.SameData s₁ := hentry.trans (dispatch_data h₁)
  refine hdata.trans ?_
  unfold leaveKernel at h
  split at h
  · cases h
    exact ⟨rfl, rfl, rfl, rfl, rfl⟩
  · split_ifs at h
    cases h
    exact ⟨rfl, rfl, rfl, rfl, rfl⟩

/-! ### Faithful creation -/

/-- Fewer than `MAXTHREAD` processes are alive. -/
def HasRoom (s : Kernel) : Prop := ∃ x, (s.pd (.process x)).state = .dead

/-- The call of `p` returns `id` when `p` goes on, whatever happens before. -/
def Reports (s : Kernel) (p : PDPtr) (id : Pid) : Prop :=
  ∀ es s', Run (QuietStep p) s es s' → (s'.info (.stub p)).outPid = id

/-- The call `c` has created a process in the table entry `x`. -/
structure Spawns (s : Kernel) (c : ApiCall) (x : Slot) (s' : Kernel) : Prop where
  dead : (s.pd (.process x)).state = .dead
  alive : (s'.pd (.process x)).state ≠ .dead
  code : (s'.pd (.process x)).code = c.params.code
  arg : (s'.pd (.process x)).arg = c.params.arg
  priority : (s'.pd (.process x)).priority = c.params.priority
  times : c.params.priority = .periodic → (s'.pd (.process x)).period = c.params.period ∧
    (s'.pd (.process x)).wcet = c.params.wcet ∧
    (s'.pd (.process x)).tons = s.sysClock + c.params.offset
  queued : ∀ l, (s'.queue c.params.priority).Holds s'.pd l → .process x ∈ l

/-- The call `c` of `p` has created a process, and returns its id, which is not 0 and of no other
live process. -/
def Succeeds (s : Kernel) (p : PDPtr) (c : ApiCall) (s' : Kernel) : Prop :=
  ∃ x, s.Spawns c x s' ∧ ∃ id, s'.Reports p id ∧ (s'.pd (.process x)).processId = id ∧ id ≠ 0 ∧
    ∀ y, y ≠ x → (s'.pd (.process y)).state ≠ .dead → (s'.pd (.process y)).processId ≠ id

/-- The processes, the order of every queue and the counters are the same, but that another process
may have been given the processor, and that `p` may have another place in its queue. -/
structure Unchanged (s : Kernel) (p : PDPtr) (s' : Kernel) : Prop extends s.SameData s' where
  process : ∀ x : Slot, .process x ≠ p →
    (s'.pd (.process x)).toTask = (s.pd (.process x)).toTask ∨
      (s.pd (.process x)).state = .ready ∧ s'.cp = some (.process x) ∧
        (s'.pd (.process x)).toTask = { (s.pd (.process x)).toTask with state := .running }
  caller : ∃ st, (st = .ready ∨ st = .running) ∧
    (s'.pd p).toTask = { (s.pd p).toTask with state := st, reqParams := some (.stub p) }
  order : ∀ level l, (s.queue level).Holds s.pd l → ∀ l', (s'.queue level).Holds s'.pd l' →
    l'.erase p = l.erase p
  params : ∀ x : Slot, .process x ≠ p →
    s'.info (.stub (.process x)) = s.info (.stub (.process x))

/-- What `os.h` says of a call `c` of `p` that creates a task. -/
def CreatesFaithfully (s : Kernel) (p : PDPtr) (c : ApiCall) : Prop :=
  ∃ s', s.Step (.call c) s' ∧ (s.HasRoom → s.Succeeds p c s') ∧
    (¬ s.HasRoom → s'.Reports p 0 ∧ s.Unchanged p s')

/-- The call ends in a timing violation: neither the caller nor the new task is a SYSTEM task, and
the first of the PERIODIC tasks besides the caller has missed its start; it waited before, or it is
the new one, and the clock will wrap before its offset is over. -/
def Overdue (s : Kernel) (p : PDPtr) (c : ApiCall) : Prop :=
  ((s.pd p).priority ≠ .system ∧ (s.HasRoom → c.params.priority ≠ .system)) ∧
    ∃ l, (s.queue .periodic).Holds s.pd l ∧
      ((∃ e ∈ (l.erase p).head?, s.missedStart e = true) ∨
        s.HasRoom ∧ c.params.priority = .periodic ∧ s.sysClock + c.params.offset < s.sysClock ∧
          ∀ e ∈ (l.erase p).head?, scansPast
            (Sched.newcomer s.sysClock s.clockState c.params.offset) s.sysClock
              (s.pd e).toTask = false)

/-- The queue of the level is searched for the next task: it is that of the caller `p`, if it is no
PERIODIC task, or the round-robin queue, if `p` goes behind a PERIODIC task that is not due. -/
def Searches (s : Kernel) (p : PDPtr) (level : PriorityLevel) : Prop :=
  (s.pd p).priority = level ∧ (level = .system ∨ level = .rr) ∨
    (s.pd p).priority = .periodic ∧ level = .rr ∧
      ∃ l, (s.queue .periodic).Holds s.pd l ∧ ∃ e ∈ (l.erase p).head?,
        scansPast (s.pd p).toTask s.sysClock (s.pd e).toTask = true ∧ s.due e = false

/-- In the queue that is searched, the first task besides `p` is ready if any of them is. -/
def KeepsOrder (s : Kernel) (p : PDPtr) : Prop :=
  ∀ level, s.Searches p level → ∀ l, (s.queue level).Holds s.pd l →
    (∃ e ∈ l.erase p, (s.pd e).state = .ready) → ∃ e ∈ (l.erase p).head?, (s.pd e).state = .ready

theorem Represents.holds_iff (h : s.UserMode a) {q : PriorityLevel} {l : List PDPtr} :
    (s.queue q).Holds s.pd l ↔ l = a.level q := by
  constructor
  · intro hl
    exact hl.linked.unique (h.queue q).linked
  · rintro rfl
    exact h.queue q

theorem Represents.hasRoom_iff (h : s.UserMode a) : s.HasRoom ↔ a.freeSlot ≠ none := by
  rw [ne_eq, Sched.freeSlot_eq_none_iff, HasRoom]
  simp [h.state]

theorem Represents.searches_iff (h : s.UserMode a) {q : PriorityLevel} :
    s.Searches a.current q ↔ a.Searched q := by
  simp only [Searches, Sched.Searched, Sched.Overtaken, Sched.rivals, h.holds_iff, exists_eq_left,
    h.task, h.sysClock, h.due_eq]

theorem Represents.overdue_iff (h : s.UserMode a) : s.Overdue a.current c ↔
    ((a.task a.current).priority ≠ .system ∧
        (a.freeSlot ≠ none → c.params.priority ≠ .system)) ∧
      ((∃ e ∈ a.rivals.head?, a.missedStart e = true) ∨
        a.freeSlot ≠ none ∧ c.params.priority = .periodic ∧
          a.sysClock + c.params.offset < a.sysClock ∧
          ∀ e ∈ a.rivals.head?, scansPast
            (Sched.newcomer a.sysClock a.clockState c.params.offset) a.sysClock
              (a.task e) = false) := by
  simp only [Overdue, Sched.rivals, h.holds_iff, exists_eq_left, h.task, h.sysClock, h.clockState,
    h.missedStart_eq, h.hasRoom_iff]

/-- What the caller is told is what it reports. -/
theorem Represents.reports (h : s.UserMode a) (ha : a.Reachable) (ht : a.Told j id) :
    s.Reports (.process j) id := by
  intro es s' hrun
  obtain ⟨a', h', -, ht'⟩ := h.told_run ha ht hrun
  rw [h'.info, ← ht'.outPid]
  rfl

/-- A creation for which there is room creates the process. -/
theorem Represents.spawns {f : BitVec 16} (h : s.UserMode a) (ha : a.Inv)
    (hs : a.Step (.call c) a') (h' : s'.UserMode a')
    (hdis : a.Dispatches (.call c) (a.created c x f)) (hf : c.params.code = some f)
    (hdead : (a.task (.process x)).state = .dead) : s.Spawns c x s' := by
  obtain ⟨st, ht, hst⟩ := hs.created_spec ha hdis
  obtain ⟨hcode, harg, htimes⟩ := a.newTask_params x f c.params
  have hnew := h'.task (.process x)
  rw [ht] at hnew
  have halive : (s'.pd (.process x)).toTask.state ≠ .dead := by
    rw [hnew]
    rcases hst with rfl | rfl <;> simp
  have hlevel : (s'.pd (.process x)).toTask.priority = c.params.priority := by
    rw [hnew]
    exact (a.newTask_spec x f c.params).2.1
  refine ⟨(h.state _).trans hdead, halive, ?_, ?_, hlevel, fun hper => ?_, fun l hl => ?_⟩
  · show (s'.pd (.process x)).toTask.code = _
    rw [hnew, hf]
    exact hcode
  · show (s'.pd (.process x)).toTask.arg = _
    rw [hnew]
    exact harg
  · show (s'.pd (.process x)).toTask.period = _ ∧ (s'.pd (.process x)).toTask.wcet = _ ∧
      (s'.pd (.process x)).toTask.tons = _
    rw [hnew, h.sysClock]
    exact htimes hper
  · rw [h'.holds_iff.1 hl, ← hlevel, h'.task]
    refine (hs.inv ha).levels.linked x ?_
    rw [← h'.task]
    exact halive

/-- **A creation for which there is room succeeds** exactly if entry 0 of the table is taken. -/
theorem Represents.succeeds_iff (h : s.UserMode a) (ha : a.Reachable)
    (hs : a.Step (.call c) a') (h' : s'.UserMode a') (hc : c.creates = true)
    (hj : a.current = .process j) (hx : a.freeSlot = some x) :
    s.Succeeds (.process j) c s' ↔ (s.pd (.process 0)).state ≠ .dead := by
  obtain ⟨-, ⟨f, hf⟩, -, -⟩ := ApiCall.creates_params hc
  have hdis := ha.inv.handled_created hc hx hf
  have hdead := Sched.freeSlot_dead hx
  have htold : a'.Told j (pidOf x) := by
    have hready : (a.created c x f).ready a.current = true := by
      rw [Sched.ready, Sched.created_other (ha.inv.current_ne hdead)]
      exact ha.inv.suspend_ready_current _
    have hpid : ((a.created c x f).info (.stub (.process j))).outPid = pidOf x := by
      have hblock : (a.created c x f).info (.stub a.current) =
          { (a.suspend (.call c)).1.info (.stub a.current) with outPid := pidOf x } :=
        Function.update_self _ _ _
      rw [← hj, hblock]
    exact hpid ▸ hs.told ha.inv hj hdis hready
  have hreports := h'.reports (ha.step hs) htold
  have hzero : (s.pd (.process 0)).state ≠ .dead ↔ x ≠ 0 := by
    rw [h.state, ne_eq, ne_eq, Sched.freeSlot_eq_zero_iff hx]
  rw [hzero]
  constructor
  · rintro ⟨y, -, id, hid, -, hne, -⟩ rfl
    exact hne ((hid [] s' (Run.nil _)).symm.trans (hreports [] s' (Run.nil _)))
  · intro hne
    have hspawns := h.spawns ha.inv hs h' hdis hf hdead
    have hpids := (hs.inv ha.inv).levels.pid
    have hpid : (s'.pd (.process x)).processId = pidOf x := by
      have halive := hspawns.alive
      rw [h'.state] at halive
      rw [h'.processId, hpids x halive]
    refine ⟨x, hspawns, pidOf x, hreports, hpid, fun h0 => hne (pidOf_injective h0),
      fun y hy hlive => ?_⟩
    rw [h'.state] at hlive
    rw [h'.processId, hpids y hlive]
    exact fun he => hy (pidOf_injective he)

/-- The order of the queues, when there is no room. -/
theorem Represents.order_iff (h : s.UserMode a) (ha : a.Reachable) (hs : a.Step (.call c) a')
    (h' : s'.UserMode a') (hidle : a.current ≠ .idleProcess)
    (hdis : a.Dispatches (.call c) (a.suspend (.call c)).1) :
    (∀ level l, (s.queue level).Holds s.pd l → ∀ l', (s'.queue level).Holds s'.pd l' →
      l'.erase a.current = l.erase a.current) ↔ s.KeepsOrder a.current := by
  obtain ⟨b, hd, rfl⟩ := hs.dispatch_of hdis
  have horder := ha.inv.dispatch_order ha.settled hidle hd
  have hready : ∀ {q e}, e ∈ (a.level q).erase a.current →
      ((a.suspend (.call c)).1.ready e = true ↔ (s.pd e).state = .ready) := by
    intro q e he
    have hne : e ≠ a.current := fun heq => (ha.inv.levels.nodup q).not_mem_erase (heq ▸ he)
    rw [Sched.suspend_ready_of_ne a _ hne, Sched.ready_iff, h.state]
  have hlevel : ∀ q, (b.level q).erase a.current = (a.level q).erase a.current ↔
      (a.Searched q → (∃ e ∈ (a.level q).erase a.current, (s.pd e).state = .ready) →
        ∃ e ∈ ((a.level q).erase a.current).head?, (s.pd e).state = .ready) := by
    intro q
    by_cases hq : a.Searched q
    · rw [(horder q).1 hq, rotateTo_eq_self_iff ((ha.inv.levels.nodup q).erase _),
        forall_prop_of_true hq]
      refine imp_congr (exists_congr fun e => and_congr_right hready)
        (exists_congr fun e => and_congr_right fun he => hready (List.mem_of_head? he))
    · exact iff_of_true ((horder q).2 hq) fun h => absurd h hq
  simp only [KeepsOrder, h.holds_iff, h'.holds_iff, forall_eq, h.searches_iff]
  exact forall_congr' hlevel

/-- **A creation for which there is no room changes nothing** exactly if no task that is not ready
is passed over. -/
theorem Represents.unchanged_iff (h : s.UserMode a) (ha : a.Reachable)
    (hs : s.Step (.call c) s') (hs' : a.Step (.call c) a') (h' : s'.UserMode a')
    (hidle : a.current ≠ .idleProcess) (hreq : c.params.request = .create)
    (hfull : a.freeSlot = none) : s.Unchanged a.current s' ↔ s.KeepsOrder a.current := by
  have hdis : a.Dispatches (.call c) (a.suspend (.call c)).1 := ha.inv.handled_full hreq hfull
  have horder := h.order_iff ha hs' h' hidle hdis
  constructor
  · intro hun
    exact horder.1 hun.order
  · intro hkeeps
    have hdata := enter_full_data (congrArg Prod.snd h.control) h.current hreq
      (h.tasks_full.2 hfull) hs.2
    have hund : a.Undisturbed a.current a' := hs'.undisturbed ha.inv fun c' d' hc' =>
      (Prod.mk.inj (Except.ok.inj (hc'.symm.trans hdis))).1
    refine ⟨hdata, fun x hx => ?_, ?_, horder.2 hkeeps, fun x hx => ?_⟩
    · rw [h.state, h'.task, h.task, h'.current]
      rcases hund.task x hx with he | ⟨hready, hcur, he⟩
      · exact Or.inl he
      · exact Or.inr ⟨hready, congrArg some hcur, he⟩
    · rw [h.task, h'.task]
      exact hs'.caller_task ha.inv hdis
    · rw [h.info, h'.info, hund.info x hx]

/-- **Task creation, exactly.**  For every reachable state of the kernel and every call of a process
that creates a task: the call is as `os.h` says exactly if it does not end in a timing violation,
and entry 0 of the process table is taken if there is room, and no task that is not ready is passed
over if there is none. -/
theorem task_create_iff (h : s.Reachable) (hcp : s.cp = some p) (hidle : p ≠ .idleProcess)
    (hc : c.creates = true) : s.CreatesFaithfully p c ↔
      ¬ s.Overdue p c ∧ (s.HasRoom → (s.pd (.process 0)).state ≠ .dead) ∧
        (¬ s.HasRoom → s.KeepsOrder p) := by
  obtain ⟨a, ha, hrep⟩ := h.represents
  have hcur : a.current = p := Option.some.inj (hrep.current.symm.trans hcp)
  subst hcur
  obtain ⟨hreq, ⟨f, hf⟩, -, hout⟩ := ApiCall.creates_params hc
  have hp : a.Possible (.call c) := hidle
  obtain ⟨j, hj⟩ := Sched.Possible.caller hp
  by_cases hroom : s.HasRoom
  · obtain ⟨x, hx⟩ := Option.ne_none_iff_exists'.1 (hrep.hasRoom_iff.1 hroom)
    have hdis : a.Dispatches (.call c) (a.created c x f) := ha.inv.handled_created hc hx hf
    have hstep : (∃ a', a.Step (.call c) a') ↔ ¬ s.Overdue a.current c := by
      rw [hdis.step_iff hp, ha.inv.created_alarms_iff ha.settled ha.onTime hidle
        (Sched.freeSlot_dead hx), hrep.overdue_iff, hx]
      simp
    constructor
    · rintro ⟨s', hs, hok, -⟩
      obtain ⟨a', hs', hrep'⟩ := hrep.step ha.inv hs
      refine ⟨hstep.1 ⟨a', hs'⟩, fun _ => ?_, fun hno => absurd hroom hno⟩
      have hsucc := hok hroom
      rw [hj] at hsucc
      exact (hrep.succeeds_iff ha hs' hrep' hc hj hx).1 hsucc
    · rintro ⟨hno, hzero, -⟩
      obtain ⟨a', hs'⟩ := hstep.2 hno
      obtain ⟨s', hs, hrep'⟩ := hrep.step_back ha.inv hs'
      refine ⟨s', hs, fun _ => ?_, fun hno => absurd hroom hno⟩
      rw [hj]
      exact (hrep.succeeds_iff ha hs' hrep' hc hj hx).2 (hzero hroom)
  · have hfull : a.freeSlot = none := by
      by_contra hne
      exact hroom (hrep.hasRoom_iff.2 hne)
    have hdis : a.Dispatches (.call c) (a.suspend (.call c)).1 := ha.inv.handled_full hreq hfull
    have hstep : (∃ a', a.Step (.call c) a') ↔ ¬ s.Overdue a.current c := by
      rw [hdis.step_iff hp, ha.inv.full_alarms_iff ha.settled ha.onTime hidle, hrep.overdue_iff,
        hfull]
      simp
    constructor
    · rintro ⟨s', hs, -, hfail⟩
      obtain ⟨a', hs', hrep'⟩ := hrep.step ha.inv hs
      refine ⟨hstep.1 ⟨a', hs'⟩, fun h => absurd h hroom, fun _ => ?_⟩
      exact (hrep.unchanged_iff ha hs hs' hrep' hidle hreq hfull).1 (hfail hroom).2
    · rintro ⟨hno, -, horder⟩
      obtain ⟨a', hs'⟩ := hstep.2 hno
      obtain ⟨s', hs, hrep'⟩ := hrep.step_back ha.inv hs'
      refine ⟨s', hs, fun h => absurd h hroom, fun _ => ⟨?_, ?_⟩⟩
      · rw [hj]
        exact hrep'.reports (ha.step hs') (hs'.told_zero ha.inv hj hdis hout)
      · exact (hrep.unchanged_iff ha hs hs' hrep' hidle hreq hfull).2 (horder hroom)

/-- The setup task creates the first task. -/
theorem task_create_first :
    ∃ s ∈ (after (fun _ _ => true) 1 2 []).filter fun s =>
        s.cp = some (.process 0) ∧ (s.pd (.process 0)).priority = .system ∧
          (s.pd (.process 0)).state ≠ .dead ∧ (s.pd (.process 1)).state = .dead,
      s.CreatesFaithfully (.process 0) (.taskCreateRR (some 3) 0) := by
  refine exists_mem_of_isSome (by decide +kernel) fun s hs => ?_
  obtain ⟨hs, hfacts⟩ := Option.filter_eq_some_iff.1 hs
  obtain ⟨hcp, hsys, halive, hroom⟩ := of_decide_eq_true hfacts
  exact (task_create_iff (reachable_of_after hs) hcp (by decide) (by decide)).2
    ⟨fun h => h.1.1 hsys, fun _ => halive, fun h => absurd ⟨1, hroom⟩ h⟩

/-- The setup task has ended when a round-robin task creates another one: that one gets the entry of
the setup task, and the call returns 0. -/
theorem created_task_reported_zero :
    ∃ p ∈ (after (fun _ _ => true) 1 2
        [.call (.taskCreateRR (some 3) 0), .call .taskTerminate]).bind fun s =>
          (s.advance (fun _ _ => true) (.call (.taskCreateRR (some 4) 0))).map fun s' =>
            (s, s'),
      (p.1.Reachable ∧ p.1.cp = some (.process 1) ∧ p.1.HasRoom) ∧
      (p.1.Step (.call (.taskCreateRR (some 4) 0)) p.2 ∧
        (p.2.pd (.process 0)).state ≠ .dead ∧ (p.2.pd (.process 0)).code = some 4 ∧
        (p.2.info (.stub (.process 1))).outPid = 0) ∧
      ¬ p.1.CreatesFaithfully (.process 1) (.taskCreateRR (some 4) 0) := by
  have hex : ∃ p ∈ ((after (fun _ _ => true) 1 2
        [.call (.taskCreateRR (some 3) 0), .call .taskTerminate]).bind fun s =>
          (s.advance (fun _ _ => true) (.call (.taskCreateRR (some 4) 0))).map fun s' =>
            (s, s')).filter fun p =>
      (p.1.cp = some (.process 1) ∧ (p.1.pd (.process 0)).state = .dead) ∧
        (p.2.pd (.process 0)).state ≠ .dead ∧ (p.2.pd (.process 0)).code = some 4 ∧
        (p.2.info (.stub (.process 1))).outPid = 0, True :=
    exists_mem_of_isSome (by decide +kernel) fun _ _ => trivial
  obtain ⟨p, hp, -⟩ := hex
  obtain ⟨hp, hfacts⟩ := Option.filter_eq_some_iff.1 hp
  obtain ⟨⟨hcp, hdead⟩, halive, hcode, hzero⟩ := of_decide_eq_true hfacts
  refine ⟨p, hp, ?_⟩
  obtain ⟨s, hs, hp⟩ := Option.bind_eq_some_iff.1 hp
  obtain ⟨s', hs', rfl⟩ := Option.map_eq_some_iff.1 hp
  have hstep := (advance_step hs').1
  refine ⟨⟨reachable_of_after hs, hcp, 0, hdead⟩, ⟨hstep, halive, hcode, hzero⟩, ?_⟩
  rintro ⟨s'', hstep', hok, -⟩
  obtain rfl : s' = s'' := Except.ok.inj (hstep.2.symm.trans hstep'.2)
  obtain ⟨x, -, id, hid, -, hne, -⟩ := hok ⟨0, hdead⟩
  exact hne ((hid [] s' (Run.nil _)).symm.trans hzero)

end Kernel

end RoombaRtos
