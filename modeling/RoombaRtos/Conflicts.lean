import RoombaRtos.Faults

/-!
# Conflict-free schedules

By `os.h`, periodic tasks must be scheduled conflict-free, and it is the application's
responsibility to ensure that.  These are the rules for it, entry by entry.

* `Kernel.ConflictFree` — what an entry must not do;
* `Kernel.Late` — a periodic task has missed a start;
* `Watched.conflict_free_iff` — no task is late after the runs that keep the rules, and after no
  others;
* `Watched.late_for_ever` — a start that was missed is never made up;
* `Watched.starts_on_time` — in a run that keeps the rules every start was made in its tick, and
  only a budget that is used up can stop the kernel for its timing.

The clock is in its first epoch.
-/

namespace RoombaRtos

open Lockstep

/-- A periodic task with these times has missed its start when the clock reads `now`. -/
structure Timing.Late (now : Tick) (t : Timing) : Prop where
  periodic : t.priority = .periodic
  uncharged : t.ticksRemaining = t.wcet
  past : t.tons < now

/-- The start of a periodic task after `k` calls of `Task_Next`. -/
def Life.startOf (l : Life) (k : ℕ) : ℕ :=
  l.born + l.params.offset.toNat + k * l.params.period.toNat

namespace Sched

variable {a a' c : Sched} {e : Entry} {i : Slot} {d : Bool} {r : InfoPtr PDPtr}
  {k : KernelRequestType} {n : ℕ} {t : Timing} {l l' : Life}

/-- The process `i` is a periodic task that has missed a start. -/
structure Late (a : Sched) (i : Slot) : Prop where
  live : (a.task (.process i)).state ≠ .dead
  late : (a.task (.process i)).timing.Late a.sysClock

/-- The clock after the handler of an entry. -/
def clockAfter (a : Sched) (e : Entry) : Tick :=
  if e = .timer then a.sysClock + 1 else a.sysClock

/-- The entry makes the process `i` miss a start. -/
def Spoils (a : Sched) (i : Slot) : Entry → Prop
  | .timer => a.current ≠ .process i ∧ (a.task (.process i)).state ≠ .dead ∧
      (a.task (.process i)).priority = .periodic ∧
      (a.task (.process i)).ticksRemaining = (a.task (.process i)).wcet ∧
      (a.task (.process i)).tons ≤ a.sysClock
  | .call .taskNext => a.current = .process i ∧ (a.task (.process i)).priority = .periodic ∧
      (a.task (.process i)).tons + (a.task (.process i)).period < a.sysClock
  | .call (.taskCreatePeriod _ _ _ _ offset) => (a.task (.process i)).state = .dead ∧
      65536 ≤ a.sysClock.toNat + offset.toNat
  | .call _ => False

/-! ### Who lives on -/

theorem Change.sysClock (h : Change a r k c) :
    c.sysClock = if k = .timer then a.sysClock + 1 else a.sysClock := by
  cases h with
  | states hk h =>
    rw [if_neg hk.1]
    exact h.sysClock
  | install hx hq => rfl
  | yield ht => rfl
  | tick ht => rfl
  | bury hp => rfl

theorem handled_sysClock (h : a.handled e = .ok (c, d)) : c.sysClock = a.clockAfter e := by
  rw [(handled_cases h).change.sysClock, suspend_sysClock, clockAfter]
  simp only [request_timer_iff]

/-- No process but the current one can end. -/
theorem Change.alive (h : Change a r k c) (ha : a.Levels) (hc : c.Levels)
    (hi : (a.task (.process i)).state ≠ .dead) (hm : k = .terminate → a.current ≠ .process i) :
    (c.task (.process i)).state ≠ .dead := by
  cases h with
  | states hk h => exact hc.live _ _ (h.level ▸ ha.linked i hi)
  | @install x f g hx hq =>
    have hne : PDPtr.process i ≠ .process x := by
      intro heq
      rw [heq] at hi
      exact hi hx
    rw [setInfo_task, install_task, Function.update_of_ne hne]
    exact hi
  | yield ht =>
    obtain ⟨tons, ticks, clock, rfl⟩ := yieldTask_ok ht
    rw [setTask_task]
    by_cases hp : PDPtr.process i = a.current
    · rw [← hp, Function.update_self]
      exact hi
    · rw [Function.update_of_ne hp]
      exact hi
  | tick ht =>
    obtain ⟨ticks, rfl⟩ := chargeTick_ok ht
    show (Function.update a.task a.current _ (.process i)).state ≠ .dead
    by_cases hp : PDPtr.process i = a.current
    · rw [← hp, Function.update_self]
      exact hi
    · rw [Function.update_of_ne hp]
      exact hi
  | bury hp =>
    rw [bury_task, setState_other (hm rfl).symm]
    exact hi

theorem handled_levels (h : a.handled e = .ok (c, d)) (ha : a.Inv)
    (hc : d = true → c.Handling) : c.Levels := by
  cases d with
  | true => exact (hc rfl).levels
  | false =>
    obtain ⟨-, info, rfl⟩ := (handled_cases h).quiet
    exact (ha.suspend e).levels.of_same rfl (fun _ => rfl) (fun _ => rfl) (fun _ => Iff.rfl)
      (ha.suspend e).levels.periodic

theorem handled_alive (h : a.handled e = .ok (c, d)) (ha : a.Inv) (hc : d = true → c.Handling)
    (hi : (a.task (.process i)).state ≠ .dead)
    (hm : a.current = .process i → e ≠ .call .taskTerminate) :
    (c.task (.process i)).state ≠ .dead := by
  refine (handled_cases h).change.alive (ha.suspend e).levels (handled_levels h ha hc)
    ((ha.suspend_dead_iff e _).not.2 hi) fun hk => ?_
  rw [suspend_current]
  intro hcur
  refine hm hcur ?_
  cases e with
  | timer => cases hk
  | call api => cases api <;> first | rfl | cases hk

/-! ### Who is late -/

/-- Another clock reading than the timer's. -/
theorem clockAfter_call (a : Sched) (api : ApiCall) : a.clockAfter (.call api) = a.sysClock :=
  if_neg (by simp)

/-- Only the timer and the calls that set a start time make a task late. -/
theorem spoils_kept (hl : (a.task (.process i)).state ≠ .dead)
    (hm : a.current = .process i → e ≠ .timer ∧ e ≠ .call .taskNext) (he : e ≠ .timer) :
    ¬ a.Spoils i e := by
  intro h
  cases e with
  | timer => exact he rfl
  | call api =>
    cases api with
    | taskNext => exact (hm h.1).2 rfl
    | taskCreatePeriod f arg period wcet offset => exact hl h.1
    | _ => exact h

/-- A new task is late if its offset takes its start beyond the first epoch. -/
theorem spoils_born_iff (hd : (a.task (.process i)).state = .dead) (hp : e ≠ .timer)
    (hcur : a.current ≠ .process i) :
    a.sysClock + e.params.offset < a.sysClock ↔ a.Spoils i e := by
  have hzero : ¬ a.sysClock + (0 : Tick) < a.sysClock := by
    bv_omega
  cases e with
  | timer => exact absurd rfl hp
  | call api =>
    cases api with
    | taskNext => exact iff_of_false hzero fun h => hcur h.1
    | taskCreatePeriod f arg period wcet offset =>
      show a.sysClock + offset < a.sysClock ↔ _ ∧ 65536 ≤ a.sysClock.toNat + offset.toNat
      rw [and_iff_right hd]
      bv_omega
    | _ => exact iff_of_false hzero fun h => h

/-- **Who is late after an entry**: who was late before, and whom the entry makes so. -/
theorem Course.late_iff (hc : Course a e i n l t l') (ha : a.Inv) (hw : a.NoWrap e)
    (hcharged : t.ticksRemaining = t.wcet → l'.hits = 0)
    (hcur : a.current = .process i → ¬ a.Late i) (hp : t.priority = .periodic) :
    t.Late (a.clockAfter e) ↔ a.Late i ∨ a.Spoils i e := by
  cases hc with
  | born hd he ht hr =>
    subst ht
    have hnot : ¬ a.Late i := fun h => h.live hd
    have hne : a.current ≠ .process i := by
      intro hcur
      exact ha.current_live (by rw [hcur, hd])
    rw [or_iff_right hnot, ← spoils_born_iff hd he hne, clockAfter, if_neg he]
    exact ⟨fun h => h.past, fun h => ⟨rfl, rfl, h⟩⟩
  | kept hl hm ht hr =>
    subst ht
    by_cases he : e = .timer
    · subst he
      have hne : a.current ≠ .process i := fun h => (hm h).1 rfl
      have hsum : (a.task (.process i)).tons < a.sysClock + 1 ↔
          (a.task (.process i)).tons ≤ a.sysClock := by
        have hlt : a.sysClock.toNat + 1 < 65536 := hw
        bv_omega
      rw [clockAfter, if_pos rfl]
      constructor
      · intro h
        exact Or.inr ⟨hne, hl, h.periodic, h.uncharged, hsum.1 h.past⟩
      · rintro (h | ⟨-, -, hprio, hfull, hle⟩)
        · exact ⟨h.late.periodic, h.late.uncharged, hsum.2 (BitVec.le_of_lt h.late.past)⟩
        · exact ⟨hprio, hfull, hsum.2 hle⟩
    · rw [clockAfter, if_neg he, or_iff_left (spoils_kept hl hm he)]
      exact ⟨fun h => ⟨hl, h⟩, fun h => h.late⟩
  | charged hl he hc hne ht hr =>
    subst ht he
    refine iff_of_false (fun h => ?_) (not_or.2 ⟨hcur hc, fun h => h.1 hc⟩)
    have hhits := hcharged h.uncharged
    rw [hr] at hhits
    exact Nat.succ_ne_zero _ hhits
  | yielded hl he hc ht hr =>
    subst ht he
    rw [or_iff_right (hcur hc), clockAfter_call]
    constructor
    · intro h
      exact ⟨hc, h.periodic, h.past⟩
    · intro h
      exact ⟨hp, rfl, h.2.2⟩

/-- A creation that returned has created its task, if there was room. -/
theorem Inv.handled_born {f : Option (BitVec 16)} {arg : BitVec 16} {period wcet offset : Tick}
    (ha : a.Inv) (hfree : a.freeSlot = some i)
    (h : a.handled (.call (.taskCreatePeriod f arg period wcet offset)) = .ok (c, d)) :
    (c.task (.process i)).state ≠ .dead ∧ (c.task (.process i)).timing =
      .fresh (ApiCall.taskCreatePeriod f arg period wcet offset).params a.sysClock
        a.clockState := by
  have hfails := create_fails_call ha (.taskCreatePeriod f arg period wcet offset) rfl
  rw [h, hfree] at hfails
  have hnone : ∀ code, (if f = none then some AbortCode.nullTaskFunction
      else if admissible (ApiCall.taskCreatePeriod f arg period wcet offset).params then none
      else some .invalidReqInfo) ≠ some code :=
    fun code hcode => by cases (hfails (.abort code)).2 ⟨code, hcode, rfl⟩
  cases f with
  | none => exact absurd rfl (hnone _)
  | some f =>
    have hadm : admissible (ApiCall.taskCreatePeriod (some f) arg period wcet offset).params =
        true := by
      by_contra hadm
      exact hnone .invalidReqInfo (by rw [if_neg (by simp), if_neg hadm])
    have hcreates : (ApiCall.taskCreatePeriod (some f) arg period wcet offset).creates = true := by
      simp only [admissible, ApiCall.params, Bool.and_eq_true] at hadm
      simp only [ApiCall.creates, Option.isSome_some, Bool.true_and, Bool.and_eq_true]
      exact hadm
    rw [ha.handled_created hcreates hfree rfl] at h
    obtain ⟨rfl, -⟩ := Prod.mk.inj (Except.ok.inj h)
    refine ⟨?_, created_timing rfl⟩
    rw [created_task, Function.update_self, (newTask_spec _ _ _ _).1]
    simp

/-- `Dispatch` makes nobody late. -/
theorem Step.handled (hs : a.Step e a') (ha : a.Inv) : ∃ c d, a.handled e = .ok (c, d) ∧
    (d = true → c.Handling) ∧ ∀ i, a'.Late i ↔ c.Late i := by
  obtain ⟨c, d, b, hc, rfl, hd⟩ := enter_parts hs.2
  refine ⟨c, d, hc, ?_, fun i => ?_⟩
  · rintro rfl
    exact Dispatches.handling hc ha hs.1
  rcases hd with ⟨rfl, hd⟩ | ⟨rfl, rfl⟩
  · obtain ⟨htime, hdead⟩ := (Dispatches.handling hc ha hs.1).dispatch_timing hd (.process i)
    have hclock := (dispatch_clock hd).1
    constructor
    · intro h
      exact ⟨hdead.not.1 h.live, htime ▸ hclock ▸ h.late⟩
    · intro h
      refine ⟨hdead.not.2 h.live, ?_⟩
      show Timing.Late b.sysClock (b.task (.process i)).timing
      rw [htime, hclock]
      exact h.late
  · exact ⟨fun h => ⟨h.live, h.late⟩, fun h => ⟨h.live, h.late⟩⟩

end Sched

namespace Kernel

variable {s : Kernel} {a : Sched} {e : Entry} {i : Slot}

/-- The process `i` is a periodic task that has missed a start: it has not been charged for it,
and the tick of the start is over. -/
structure Late (s : Kernel) (i : Slot) : Prop where
  live : (s.pd (.process i)).state ≠ .dead
  periodic : (s.pd (.process i)).priority = .periodic
  uncharged : (s.pd (.process i)).ticksRemaining = (s.pd (.process i)).wcet
  past : (s.pd (.process i)).tons < s.sysClock

/-- The rules for a conflict-free schedule.  When a tick ends in a system or periodic task, no
other periodic task is waiting for its start; `Task_Next` of a periodic task comes before its next
start is over; and no task is created with a start beyond the first epoch. -/
def ConflictFree (s : Kernel) : Entry → Prop
  | .timer => ∀ p, s.cp = some p →
      (s.pd p).priority = .system ∨ (s.pd p).priority = .periodic → ∀ i, .process i ≠ p →
        (s.pd (.process i)).state ≠ .dead → (s.pd (.process i)).priority = .periodic →
          (s.pd (.process i)).ticksRemaining = (s.pd (.process i)).wcet →
            s.sysClock < (s.pd (.process i)).tons
  | .call .taskNext => ∀ p, s.cp = some p → (s.pd p).priority = .periodic →
      s.sysClock ≤ (s.pd p).tons + (s.pd p).period
  | .call (.taskCreatePeriod _ _ _ _ offset) => s.HasRoom →
      s.sysClock.toNat + offset.toNat < 65536
  | .call _ => True

instance (s : Kernel) (e : Entry) : Decidable (s.ConflictFree e) :=
  match e with
  | .timer => inferInstanceAs (Decidable (∀ p ∈ s.cp,
      (s.pd p).priority = .system ∨ (s.pd p).priority = .periodic → ∀ i : Slot, .process i ≠ p →
        (s.pd (.process i)).state ≠ .dead → (s.pd (.process i)).priority = .periodic →
          (s.pd (.process i)).ticksRemaining = (s.pd (.process i)).wcet →
            s.sysClock < (s.pd (.process i)).tons))
  | .call .taskNext => inferInstanceAs (Decidable (∀ p ∈ s.cp, (s.pd p).priority = .periodic →
      s.sysClock ≤ (s.pd p).tons + (s.pd p).period))
  | .call (.taskCreatePeriod _ _ _ _ offset) => inferInstanceAs
      (Decidable ((∃ x, (s.pd (.process x)).state = .dead) →
        s.sysClock.toNat + offset.toNat < 65536))
  | .call (.taskCreateSystem _ _) => isTrue trivial
  | .call (.taskCreateRR _ _) => isTrue trivial
  | .call .taskTerminate => isTrue trivial
  | .call .taskGetArg => isTrue trivial
  | .call .taskPid => isTrue trivial
  | .call .now => isTrue trivial
  | .call (.msgSend _ _ _) => isTrue trivial
  | .call (.msgRecv _ _) => isTrue trivial
  | .call (.msgRply _ _) => isTrue trivial
  | .call (.msgASend _ _ _) => isTrue trivial
  | .call (.osAbort _) => isTrue trivial

theorem Represents.late_iff (h : s.UserMode a) (i : Slot) : s.Late i ↔ a.Late i := by
  have ht := h.task (.process i)
  constructor
  · rintro ⟨hlive, hprio, hfull, hpast⟩
    rw [h.sysClock] at hpast
    exact ⟨by rwa [← h.state], by rwa [← ht], by rwa [← ht], by rwa [← ht]⟩
  · rintro ⟨hlive, hprio, hfull, hpast⟩
    rw [← ht] at hprio hfull hpast
    rw [← h.state] at hlive
    exact ⟨hlive, hprio, hfull, by rwa [h.sysClock]⟩

/-- The rules ask that no task is made late. -/
theorem Represents.conflictFree_iff (h : s.UserMode a) (ha : a.Inv) (hs : a.Scheduled) :
    s.ConflictFree e ↔ ∀ i, ¬ a.Spoils i e := by
  have hcp : ∀ P : PDPtr → Prop, (∀ p, s.cp = some p → P p) ↔ P a.current := by
    intro P
    rw [h.current]
    simp
  cases e with
  | timer =>
    rw [ConflictFree, hcp]
    simp only [h.task, h.sysClock]
    constructor
    · rintro hrule i ⟨hne, hlive, hprio, hfull, hle⟩
      by_cases hcur : (a.task a.current).priority = .system ∨
          (a.task a.current).priority = .periodic
      · exact absurd (hrule hcur i (Ne.symm hne) hlive hprio hfull) (BitVec.not_lt.2 hle)
      · -- a task of a lower level runs only if no periodic task is due
        obtain ⟨hsys, hper⟩ := not_or.1 hcur
        have hmem := ha.levels.linked i hlive
        rw [hprio] at hmem
        exact absurd (hs.periodic hsys hper _ hmem) (BitVec.not_lt.2 hle)
    · intro hno _ i hne hlive hprio hfull
      by_contra hle
      exact hno i ⟨Ne.symm hne, hlive, hprio, hfull, BitVec.not_lt.1 hle⟩
  | call api =>
    cases api with
    | taskNext =>
      rw [ConflictFree, hcp]
      simp only [h.task, h.sysClock]
      constructor
      · rintro hrule i ⟨hcur, hprio, hlt⟩
        rw [← hcur] at hprio hlt
        exact absurd (hrule hprio) (BitVec.not_le.2 hlt)
      · intro hno hprio
        by_contra hlt
        cases hc : a.current with
        | process i =>
          rw [hc] at hprio hlt
          exact hno i ⟨hc, hprio, BitVec.not_le.1 hlt⟩
        | idleProcess =>
          rw [hc, ha.levels.idle] at hprio
          cases hprio
    | taskCreatePeriod f arg period wcet offset =>
      show (s.HasRoom → s.sysClock.toNat + offset.toNat < 65536) ↔
        ∀ i, ¬ ((a.task (.process i)).state = .dead ∧ 65536 ≤ a.sysClock.toNat + offset.toNat)
      rw [HasRoom, h.sysClock]
      simp only [h.state]
      constructor
      · rintro hrule i ⟨hd, hle⟩
        exact absurd (hrule ⟨i, hd⟩) (Nat.not_lt.2 hle)
      · rintro hno ⟨i, hd⟩
        by_contra hle
        exact hno i ⟨hd, Nat.not_lt.1 hle⟩
    | _ => exact ⟨fun _ _ h => h, fun _ => trivial⟩

end Kernel

namespace Watched

variable {w w' w₀ : Watched} {a a' c : Sched} {es : List Entry} {e : Entry} {i : Slot} {d : Bool}

/-! ### Entries -/

/-- What holds at every return to user mode in the first epoch. -/
structure Ordered (w : Watched) (a : Sched) : Prop extends w.Follows a where
  scheduled : a.Scheduled
  onTime : a.OnTime
  charged : EachPeriodic Charged a w.ticks w.life
  ticks : w.ticks < 65536

/-- The current task is not late. -/
theorem Ordered.current_not_late (h : w.Ordered a) (hc : a.current = .process i) : ¬ a.Late i := by
  intro hl
  have hmem := h.inv.levels.linked i hl.live
  have hprio : (a.task (.process i)).priority = .periodic := hl.late.periodic
  rw [hprio] at hmem
  have hmissed : a.missedStart a.current = true := by
    have hfull : (a.task (.process i)).ticksRemaining = (a.task (.process i)).wcet :=
      hl.late.uncharged
    have hpast : (a.task (.process i)).tons < a.sysClock := hl.late.past
    rw [hc, Sched.missedStart, h.scheduled.epoch, h.scheduled.timed.epoch _ hmem, hfull]
    simpa using hpast
  rw [h.onTime (by rw [hc, hprio])] at hmissed
  cases hmissed

theorem Ordered.handled_late (h : w.Ordered a) (hc : a.handled e = .ok (c, d))
    (hh : d = true → c.Handling) (hw : a.NoWrap e) (hi : (c.task (.process i)).state ≠ .dead)
    (hp : (c.task (.process i)).priority = .periodic) : c.Late i ↔ a.Late i ∨ a.Spoils i e := by
  have hcourse := Sched.handled_course (n := w.ticksAfter e) (l := w.life i) hc h.inv hh hi hp
  have hcharged := Charged.course hcourse hp (h.charged i)
  rw [← hcourse.late_iff h.inv hw hcharged.uncharged h.current_not_late hp]
  constructor
  · intro hl
    rw [← Sched.handled_sysClock hc]
    exact hl.late
  · intro hl
    rw [← Sched.handled_sysClock hc] at hl
    exact ⟨hi, hl⟩

/-- The handler leaves the task alive, if it is one that can be late. -/
theorem Ordered.handled_late_of (h : w.Ordered a) (hc : a.handled e = .ok (c, d))
    (hh : d = true → c.Handling) (hw : a.NoWrap e) (hi : (a.task (.process i)).state ≠ .dead)
    (hm : a.current = .process i → e ≠ .call .taskTerminate)
    (hp : (a.task (.process i)).priority = .periodic) (hl : a.Late i ∨ a.Spoils i e) :
    c.Late i := by
  refine (h.handled_late hc hh hw (Sched.handled_alive hc h.inv hh hi hm) ?_).2 hl
  rw [(Sched.handled_cases hc).change.priority ((h.inv.suspend_dead_iff e _).not.2 hi),
    Sched.suspend_priority, hp]

/-- **Who is late when `Dispatch` is called.** -/
theorem Ordered.late_iff (h : w.Ordered a) (hc : a.handled e = .ok (c, d))
    (hh : d = true → c.Handling) (hw : a.NoWrap e) :
    (∀ i, ¬ c.Late i) ↔ (∀ i, ¬ a.Late i) ∧ ∀ i, ¬ a.Spoils i e := by
  constructor
  · intro hno
    have hlate : ∀ i, ¬ a.Late i := fun i hl =>
      hno i (h.handled_late_of hc hh hw hl.live (fun hcur => absurd hl (h.current_not_late hcur))
        hl.late.periodic (Or.inl hl))
    refine ⟨hlate, fun i hs => ?_⟩
    cases e with
    | timer => exact hno i (h.handled_late_of hc hh hw hs.2.1 (by simp) hs.2.2.1 (Or.inr hs))
    | call api =>
      cases api with
      | taskNext =>
        exact hno i (h.handled_late_of hc hh hw (hs.1 ▸ h.inv.current_live) (by simp) hs.2.1
          (Or.inr hs))
      | taskCreatePeriod f arg period wcet offset =>
        -- the first free entry is used, not necessarily this one
        cases hfree : a.freeSlot with
        | none => exact absurd hs.1 (Sched.freeSlot_eq_none_iff.1 hfree i)
        | some x =>
          obtain ⟨hx, htime⟩ := h.inv.handled_born hfree hc
          have hprio : (c.task (.process x)).priority = .periodic :=
            congrArg Timing.priority htime
          exact hno x ((h.handled_late hc hh hw hx hprio).2
            (Or.inr ⟨Sched.freeSlot_dead hfree, hs.2⟩))
      | _ => exact hs
  · intro ⟨hlate, hspoils⟩ i hl
    rcases (h.handled_late hc hh hw hl.live hl.late.periodic).1 hl with hl | hs
    · exact hlate i hl
    · exact hspoils i hs

/-! ### Runs -/

/-- A step in which neither the clock nor a start time wraps. -/
def FirstEpoch (w : Watched) (e : Entry) (w' : Watched) : Prop := w.Step e w' ∧ w.kernel.NoWrap e

/-- The current task has run in this tick. -/
def Seen (w : Watched) : Prop :=
  ∀ i, w.kernel.cp = some (.process i) → w.ticks ∈ (w.life i).ran

/-- At power-on there are no periodic tasks, and the setup task runs. -/
theorem Initial.ordered (h : w₀.Initial) : w₀.Seen ∧ ∃ a, w₀.Ordered a ∧
    ∀ i, (a.task (.process i)).state ≠ .dead → (a.task (.process i)).priority ≠ .periodic := by
  obtain ⟨create, kernelIdle, hf, hticks, hlife⟩ := h.follows
  refine ⟨fun i hcp => ?_, _, ⟨hf, Sched.bootedSched_scheduled create kernelIdle,
    fun hp => (by cases hp), ?_, ?_⟩, fun i hi hp => ?_⟩
  · rw [hf.represents.current] at hcp
    obtain rfl : 0 = i := PDPtr.process.inj (Option.some.inj hcp)
    rw [hticks, hlife, firstLife, Function.update_self]
    exact List.mem_cons_self
  · rw [hticks]
    exact EachPeriodic.boot Charged create kernelIdle _
  · rw [hticks]
    exact Nat.succ_pos _
  · have hmem := hf.inv.levels.linked i hi
    rw [hp] at hmem
    cases hmem

theorem Ordered.step (h : w.Ordered a) (hs : w.FirstEpoch e w') : ∃ a', w'.Ordered a' ∧
    ((∀ i, ¬ a'.Late i) ↔ (∀ i, ¬ a.Late i) ∧ ∀ i, ¬ a.Spoils i e) := by
  obtain ⟨a', hstep, hf', hticks, -⟩ := h.toFollows.step hs.1
  have hw := h.represents.noWrap hs.2
  have hfirst : w'.ticks < 65536 := by
    rw [hticks, ticksAfter, List.count_singleton]
    cases e with
    | timer =>
      have hlt : a.sysClock.toNat + 1 < 65536 := hw
      rw [(h.toFollows.clock_eq h.ticks).1] at hlt
      exact hlt
    | call api => exact h.ticks
  obtain ⟨b, hf, hcharged⟩ := Keeps.charged ⟨a, h.toFollows, h.charged⟩ hs.1
  obtain rfl := hf.represents.unique hf'.represents
  obtain ⟨c, d, hc, hh, hlate⟩ := hstep.handled h.inv
  refine ⟨b, ⟨hf, h.scheduled.enter h.inv hstep hw, hstep.onTime h.inv h.onTime, hcharged, hfirst⟩,
    ?_⟩
  simp only [hlate]
  exact h.late_iff hc hh hw

/-- **Conflict-free schedules.**  In every run from power-on within the first epoch: no periodic
task is late at the end if and only if the run has kept the rules. -/
theorem conflict_free_iff (hinit : w₀.Initial) :
    Run (fun w e w' => w.FirstEpoch e w' ∧ w.kernel.ConflictFree e) w₀ es w ↔
      Run FirstEpoch w₀ es w ∧ ∀ i, ¬ w.kernel.Late i := by
  obtain ⟨-, a₀, hord₀, hno⟩ := hinit.ordered
  refine Run.blame (I := fun w : Watched => ∃ a, w.Ordered a) (P := fun w => ∀ i, ¬ w.kernel.Late i)
    (G := fun w e => w.kernel.ConflictFree e) ?_ ?_ ⟨a₀, hord₀⟩ ?_
  · intro t e u ⟨a, ha⟩ hs
    obtain ⟨a', ha', -⟩ := ha.step hs
    exact ⟨a', ha'⟩
  · intro t e u ⟨a, ha⟩ hs
    obtain ⟨a', ha', hlate⟩ := ha.step hs
    simp only [ha.represents.late_iff, ha'.represents.late_iff]
    rw [hlate, ha.represents.conflictFree_iff ha.inv ha.scheduled]
  · intro i hl
    have hl := (hord₀.represents.late_iff i).1 hl
    exact hno i hl.live hl.late.periodic

/-- Two periodic tasks start in the same tick; the first one is done before it ends. -/
def sharing : List Entry :=
  [.call (.taskCreatePeriod (some 3) 0 4 2 1), .call (.taskCreatePeriod (some 4) 0 4 1 1),
    .call .taskTerminate, .timer, .call .taskNext, .timer, .call .taskNext, .timer, .timer,
    .timer, .call .taskNext, .call .taskNext]

/-- Entries that keep the rules. -/
def keepsRules (w : Watched) (e : Entry) : Bool := w.kernel.NoWrap e && w.kernel.ConflictFree e

theorem run_of_keepsRules (h : after keepsRules 1 2 es = some w) : ∃ w₀ : Watched, w₀.Initial ∧
    Run (fun w e w' => w.FirstEpoch e w' ∧ w.kernel.ConflictFree e) w₀ es w := by
  obtain ⟨w₀, hinit, hr⟩ := run_of_after h
  refine ⟨w₀, hinit, hr.mono fun _ _ _ ⟨hs, hkeeps⟩ => ?_⟩
  simp only [keepsRules, Bool.and_eq_true, decide_eq_true_eq] at hkeeps
  exact ⟨⟨hs, hkeeps.1⟩, hkeeps.2⟩

theorem conflict_free_sharing : ∃ w₀ w : Watched, w₀.Initial ∧ Run FirstEpoch w₀ sharing w ∧
    ∀ i, ¬ w.kernel.Late i := by
  have hex : ∃ w ∈ after keepsRules 1 2 sharing, True :=
    exists_mem_of_isSome (by decide +kernel) fun _ _ => trivial
  obtain ⟨w, hw, -⟩ := hex
  obtain ⟨w₀, hinit, hr⟩ := run_of_keepsRules hw
  exact ⟨w₀, w, hinit, (conflict_free_iff hinit).1 hr⟩

/-- A late task stays late, and does not run. -/
theorem Ordered.late_step (h : w.Ordered a) (hl : a.Late i) (hs : w.FirstEpoch e w') :
    ∃ a', w'.Ordered a' ∧ a'.Late i := by
  obtain ⟨a', ha', -⟩ := h.step hs
  obtain ⟨b, hstep, hf', -, -⟩ := h.toFollows.step hs.1
  obtain rfl := hf'.represents.unique ha'.represents
  obtain ⟨c, d, hc, hh, hlate⟩ := hstep.handled h.inv
  refine ⟨b, ha', (hlate i).2 ?_⟩
  exact h.handled_late_of hc hh (h.represents.noWrap hs.2) hl.live
    (fun hcur => absurd hl (h.current_not_late hcur)) hl.late.periodic (Or.inl hl)

/-- **Never made up.**  In the first epoch, a task that has missed a start does not run again. -/
theorem late_for_ever {es' : List Entry} (hinit : w₀.Initial) (hr : Run FirstEpoch w₀ es w)
    (hl : w.kernel.Late i) (hr' : Run FirstEpoch w es' w') :
    w'.kernel.Late i ∧ w'.kernel.cp ≠ some (.process i) := by
  obtain ⟨-, a₀, hord₀, -⟩ := hinit.ordered
  obtain ⟨a, hord⟩ := hr.invariant (P := fun w => ∃ a, w.Ordered a) ⟨a₀, hord₀⟩
    fun t e u ⟨a, ha⟩ hs => by
      obtain ⟨a', ha', -⟩ := ha.step hs
      exact ⟨a', ha'⟩
  obtain ⟨a', hord', hl'⟩ := hr'.invariant (P := fun w => ∃ a, w.Ordered a ∧ a.Late i)
    ⟨a, hord, (hord.represents.late_iff i).1 hl⟩
    fun t e u ⟨a, ha, hl⟩ hs => ha.late_step hl hs
  refine ⟨(hord'.represents.late_iff i).2 hl', fun hcp => ?_⟩
  rw [hord'.represents.current] at hcp
  exact hord'.current_not_late (Option.some.inj hcp) hl'

/-- A tick ends in the setup task, in which a periodic task that it created was to start; the setup
task goes on. -/
theorem late_for_ever_setup : ∃ w₀ w w' : Watched, w₀.Initial ∧
    Run FirstEpoch w₀ [.call (.taskCreatePeriod (some 3) 0 4 1 0), .timer] w ∧
    Run FirstEpoch w [.timer, .call .now] w' ∧
    w'.kernel.Late 1 ∧ w'.kernel.cp ≠ some (.process 1) := by
  have hex : ∃ x ∈ ((after (fun w e => w.kernel.NoWrap e) 1 2
      [.call (.taskCreatePeriod (some 3) 0 4 1 0), .timer]).bind fun w =>
        (Run.exec (advance fun w e => w.kernel.NoWrap e) w [.timer, .call .now]).map fun w' =>
          (w, w')).filter fun x => (x.1.kernel.pd (.process 1)).state ≠ .dead ∧
            (x.1.kernel.pd (.process 1)).priority = .periodic ∧
            (x.1.kernel.pd (.process 1)).ticksRemaining = (x.1.kernel.pd (.process 1)).wcet ∧
            (x.1.kernel.pd (.process 1)).tons < x.1.kernel.sysClock, True :=
    exists_mem_of_isSome (by decide +kernel) fun _ _ => trivial
  obtain ⟨x, hx, -⟩ := hex
  obtain ⟨hx, hfacts⟩ := Option.filter_eq_some_iff.1 hx
  obtain ⟨hlive, hprio, hfull, hpast⟩ := of_decide_eq_true hfacts
  obtain ⟨w, hw, hx⟩ := Option.bind_eq_some_iff.1 hx
  obtain ⟨w', hw', rfl⟩ := Option.map_eq_some_iff.1 hx
  have hstep : ∀ (t : Watched) e u, t.Step e u ∧ decide (t.kernel.NoWrap e) = true →
      t.FirstEpoch e u := fun _ _ _ h => ⟨h.1, of_decide_eq_true h.2⟩
  obtain ⟨w₀, hinit, hr⟩ := run_of_after hw
  have hr' := (Run.of_exec hw').mono fun _ _ _ hs => advance_step hs
  refine ⟨w₀, w, w', hinit, hr.mono hstep, hr'.mono hstep, ?_⟩
  exact late_for_ever hinit (hr.mono hstep) ⟨hlive, hprio, hfull, hpast⟩ (hr'.mono hstep)

/-! ### Starts -/

/-- The start times of a periodic task against its record: those that it has called `Task_Next`
for were made, and so was the next one, if the task has been charged for it. -/
structure Started (_ : ℕ) (t : Timing) (l : Life) : Prop where
  period : t.period = l.params.period
  tons : t.tons.toNat = l.start
  before : ∀ k < l.nexts, l.startOf k ∈ l.ran
  charged : t.ticksRemaining ≠ t.wcet → l.start ∈ l.ran

theorem Started.observe {n : ℕ} {t : Timing} {l : Life} (h : Started n t l) (n' : ℕ) (r : Bool) :
    Started n' t (l.observe n' r) := by
  unfold Life.observe
  cases r with
  | false => exact ⟨h.period, h.tons, h.before, h.charged⟩
  | true =>
    exact ⟨h.period, h.tons, fun k hk => List.mem_cons_of_mem _ (h.before k hk),
      fun ht => List.mem_cons_of_mem _ (h.charged ht)⟩

/-- The task that runs has made its start. -/
theorem Started.current {n : ℕ} (h : w.Ordered a) (hseen : w.Seen) (hcur : a.current = .process i)
    (hp : (a.task (.process i)).priority = .periodic)
    (hst : Started n (a.task (.process i)).timing (w.life i)) :
    (w.life i).start ∈ (w.life i).ran := by
  by_cases hfull : (a.task (.process i)).ticksRemaining = (a.task (.process i)).wcet
  · have hdue := h.inv.due (by rw [hcur, hp])
    rw [hcur, Sched.due, Bool.and_eq_true, decide_eq_true_eq] at hdue
    have hpast : ¬ (a.task (.process i)).tons < a.sysClock := fun hlt =>
      h.current_not_late hcur ⟨hcur ▸ h.inv.current_live, hp, hfull, hlt⟩
    have hnow : (a.task (.process i)).tons = a.sysClock :=
      BitVec.le_antisymm hdue.1 (BitVec.not_lt.1 hpast)
    have hstart : (w.life i).start = w.ticks := by
      rw [← hst.tons, ← (h.toFollows.clock_eq h.ticks).1]
      exact congrArg BitVec.toNat hnow
    rw [hstart]
    exact hseen i (by rw [h.represents.current, hcur])
  · exact hst.charged hfull

theorem Started.course {l' : Life} {t : Timing} (h : w.Ordered a) (hseen : w.Seen)
    (hw : a.NoWrap e) (hno : ¬ a.Spoils i e)
    (hc : Sched.Course a e i (w.ticksAfter e) (w.life i) t l') (hp : t.priority = .periodic)
    (hold : (a.task (.process i)).state ≠ .dead → (a.task (.process i)).priority = .periodic →
      Started w.ticks (a.task (.process i)).timing (w.life i)) :
    Started (w.ticksAfter e) t l' := by
  cases hc with
  | born hd he ht hr =>
    subst ht hr
    have hsum : ¬ a.sysClock + e.params.offset < a.sysClock :=
      mt (Sched.spoils_born_iff hd he (h.inv.current_ne hd)).1 hno
    have hticks : w.ticksAfter e = a.sysClock.toNat := by
      rw [ticksAfter, List.count_eq_zero.2 (by simp [Ne.symm he]), Nat.add_zero,
        (h.toFollows.clock_eq h.ticks).1]
    refine ⟨rfl, ?_, fun k hk => absurd hk (Nat.not_lt_zero k), fun hne => absurd rfl hne⟩
    show (a.sysClock + e.params.offset).toNat = w.ticksAfter e + e.params.offset.toNat + 0 * _
    rw [hticks]
    bv_omega
  | kept hl hm ht hr =>
    subst ht hr
    exact ⟨(hold hl hp).period, (hold hl hp).tons, (hold hl hp).before, (hold hl hp).charged⟩
  | charged hl he hcur hne ht hr =>
    subst ht hr
    exact ⟨(hold hl hp).period, (hold hl hp).tons, (hold hl hp).before,
      fun _ => Started.current h hseen hcur hp (hold hl hp)⟩
  | yielded hl he hcur ht hr =>
    subst ht hr he
    have hstart := Started.current h hseen hcur hp (hold hl hp)
    obtain ⟨hperiod, htons, hbefore, -⟩ := hold hl hp
    refine ⟨hperiod, ?_, fun k hk => ?_, fun hne => absurd rfl hne⟩
    · have hsum : (a.task (.process i)).tons.toNat +
          (a.task (.process i)).period.toNat < 65536 := by
        rw [← hcur]
        exact hw (by rw [hcur]; exact hp)
      have hper : (a.task (.process i)).period = (w.life i).params.period := hperiod
      have hton : (a.task (.process i)).tons.toNat = (w.life i).start := htons
      show ((a.task (.process i)).tons + (a.task (.process i)).period).toNat =
        (w.life i).startOf ((w.life i).nexts + 1)
      rw [BitVec.toNat_add, Nat.mod_eq_of_lt hsum, hton, hper, Life.start, Life.startOf,
        Nat.succ_mul, Nat.add_assoc _ (_ * _)]
    · rcases Nat.lt_succ_iff_lt_or_eq.1 hk with hk | rfl
      · exact hbefore k hk
      · exact hstart

/-- Whoever runs is seen to run. -/
theorem Step.seen (hs : w.Step e w') (ho : w'.Ordered a') : w'.Seen := by
  obtain ⟨s, -, rfl⟩ := hs
  intro i hcp
  have hcp : s.cp = some (.process i) := hcp
  have hlive : (s.pd (.process i)).state ≠ .dead := by
    have hcur := ho.represents.current
    rw [show (w.watch e s).kernel.cp = some (.process i) from hcp, Option.some.injEq] at hcur
    have hstate := ho.represents.state (.process i)
    rw [hcur] at hstate
    intro hd
    exact ho.inv.current_live (hstate.symm.trans (hcur ▸ hd))
  have halive : s.view.alive i = true := by simpa [Kernel.view] using hlive
  have hrunning : decide (s.view.running = some (.process i)) = true := by
    simpa [Kernel.view] using hcp
  show w.ticksAfter e ∈ (chronicle w.kernel.view s.view e (w.ticksAfter e) w.life i).ran
  rw [chronicle, if_pos halive, hrunning]
  exact List.mem_cons_self

theorem Ordered.started_step (h : w.Ordered a) (hst : EachPeriodic Started a w.ticks w.life)
    (hseen : w.Seen) (hs : w.FirstEpoch e w') (hno : ∀ i, ¬ a.Spoils i e) :
    w'.Seen ∧ ∃ a', w'.Ordered a' ∧ EachPeriodic Started a' w'.ticks w'.life := by
  obtain ⟨a', ho', -⟩ := h.step hs
  obtain ⟨b, hstep, hf', hticks, hlife⟩ := h.toFollows.step hs.1
  obtain rfl := hf'.represents.unique ho'.represents
  refine ⟨hs.1.seen ho', b, ho', fun i hi hp => ?_⟩
  obtain ⟨r, hr⟩ := Follows.life_eq hlife hi
  rw [hticks, hr]
  exact (Started.course h hseen (h.represents.noWrap hs.2) (hno i) (hstep.course h.inv hi hp) hp
    (hst i)).observe _ r

/-- **Starts on time.**  In a conflict-free run in the first epoch, every periodic task has run in
the tick of each of its starts that is over, and the next entry that keeps the rules raises a timing
violation exactly if it uses up a budget, or on demand. -/
theorem starts_on_time (hinit : w₀.Initial)
    (hr : Run (fun w e w' => w.FirstEpoch e w' ∧ w.kernel.ConflictFree e) w₀ es w) :
    (∀ i, (w.kernel.pd (.process i)).state ≠ .dead →
      (w.kernel.pd (.process i)).priority = .periodic → ∀ k ≤ (w.life i).nexts,
        (w.life i).startOf k < w.ticks → (w.life i).startOf k ∈ (w.life i).ran) ∧
    ∀ e, w.kernel.Possible e → w.kernel.NoWrap e → w.kernel.ConflictFree e →
      (w.kernel.enter e = .error (.abort .timingViolation) ↔
        (e = .timer ∧ ∃ p, w.kernel.cp = some p ∧ (w.kernel.pd p).priority = .periodic ∧
          (w.kernel.pd p).ticksRemaining = 1) ∨ e = .call (.osAbort .timingViolation)) := by
  obtain ⟨hseen₀, a₀, hord₀, hno₀⟩ := hinit.ordered
  obtain ⟨-, a, ho, hst, hno⟩ := hr.invariant
    (P := fun w => w.Seen ∧ ∃ a, w.Ordered a ∧ EachPeriodic Started a w.ticks w.life ∧
      ∀ i, ¬ a.Late i)
    ⟨hseen₀, a₀, hord₀, fun i hi hp => absurd hp (hno₀ i hi),
      fun i hl => hno₀ i hl.live hl.late.periodic⟩
    fun t e u ⟨hseen, a, ho, hst, hno⟩ ⟨hs, hfree⟩ => by
      have hspoils := (ho.represents.conflictFree_iff ho.inv ho.scheduled).1 hfree
      obtain ⟨hseen', b, ho', hst'⟩ := ho.started_step hst hseen hs hspoils
      obtain ⟨a', ha', hlate⟩ := ho.step hs
      obtain rfl := ha'.represents.unique ho'.represents
      exact ⟨hseen', a', ho', hst', hlate.2 ⟨hno, hspoils⟩⟩
  refine ⟨fun i hi hp k hk hlt => ?_, fun e hp hw hfree => ?_⟩
  · rw [ho.represents.state] at hi
    rw [ho.represents.priority] at hp
    obtain ⟨-, htons, hbefore, hcharged⟩ := hst i hi hp
    rcases Nat.lt_or_eq_of_le hk with hk | rfl
    · exact hbefore k hk
    · -- the last of these starts is over, so it was not missed
      refine hcharged fun hfull => hno i ⟨hi, hp, hfull, ?_⟩
      rw [BitVec.lt_def, htons, (ho.toFollows.clock_eq ho.ticks).1]
      exact hlt
  · have hspoils := (ho.represents.conflictFree_iff ho.inv ho.scheduled).1 hfree
    obtain ⟨create, kernelIdle, hb, -⟩ := hinit
    have hreach : w.kernel.Reachable :=
      ⟨create, kernelIdle, _, es, hb, kernel_run (hr.mono fun _ _ _ hs => hs.1.1)⟩
    rw [Kernel.timing_violation_iff hreach hp]
    refine or_congr_right (or_iff_left ?_)
    rintro ⟨a', c, p, hrep, hd, hal⟩
    obtain rfl := hrep.unique ho.represents
    have hh := hd.handling ho.inv (ho.represents.possible_iff.1 hp)
    obtain ⟨hlive, hprio⟩ := hh.alarm_periodic hal
    obtain ⟨hfull, hpast, -⟩ := hal.late
    cases p with
    | process i =>
      exact (ho.late_iff hd (fun _ => hh) (ho.represents.noWrap hw)).2 ⟨hno, hspoils⟩ i
        ⟨hlive, hprio, hfull, hpast⟩
    | idleProcess =>
      rw [hh.levels.idle] at hprio
      cases hprio

theorem starts_on_time_sharing : ∃ w₀ w : Watched, w₀.Initial ∧
    Run (fun w e w' => w.FirstEpoch e w' ∧ w.kernel.ConflictFree e) w₀ sharing w ∧
    (∀ i, (w.kernel.pd (.process i)).state ≠ .dead →
      (w.kernel.pd (.process i)).priority = .periodic → ∀ k ≤ (w.life i).nexts,
        (w.life i).startOf k < w.ticks → (w.life i).startOf k ∈ (w.life i).ran) ∧
    ∀ e, w.kernel.Possible e → w.kernel.NoWrap e → w.kernel.ConflictFree e →
      (w.kernel.enter e = .error (.abort .timingViolation) ↔
        (e = .timer ∧ ∃ p, w.kernel.cp = some p ∧ (w.kernel.pd p).priority = .periodic ∧
          (w.kernel.pd p).ticksRemaining = 1) ∨ e = .call (.osAbort .timingViolation)) := by
  have hex : ∃ w ∈ after keepsRules 1 2 sharing, True :=
    exists_mem_of_isSome (by decide +kernel) fun _ _ => trivial
  obtain ⟨w, hw, -⟩ := hex
  obtain ⟨w₀, hinit, hr⟩ := run_of_keepsRules hw
  exact ⟨w₀, w, hinit, hr, starts_on_time hinit hr⟩

end Watched

end RoombaRtos
