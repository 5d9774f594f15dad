import RoombaRtos.TaskTable

/-!
# Priority scheduling

While the 16-bit clock has not wrapped, the kernel runs the task that the policy of `os.h`
asks for, although `Dispatch` only looks at the head of the periodic queue.

* `Sched.Precedes` — the order of the periodic level: tasks whose start time has come go first,
  the others follow by start time;
* `Timed.place` — `insert` keeps that order;
* `Sched.Scheduled` — the order, and the choice of the current task by falling priority;
* `Scheduled.enter` — every kernel entry without a wrap keeps it;
* `priority_scheduling` — the policy for every run of the kernel.
-/

namespace RoombaRtos

open ListQueue Lockstep

namespace Sched

variable {a a' b : Sched} {p q : PDPtr} {l : List PDPtr} {r : InfoPtr PDPtr} {e : Entry}

/-! ### The order of the periodic level -/

/-- `p` may stand in front of `q`: it is due, or neither is and it starts no later. -/
def Precedes (a : Sched) (p q : PDPtr) : Prop :=
  (a.task p).tons ≤ a.sysClock ∨
    (a.sysClock < (a.task q).tons ∧ (a.task p).tons ≤ (a.task q).tons)

/-- The times of the tasks in `l`: ordered, in the first epoch, and charged only when due. -/
structure Timed (a : Sched) (l : List PDPtr) : Prop where
  sorted : l.Pairwise a.Precedes
  epoch : ∀ p ∈ l, (a.task p).clockState = .even
  started : ∀ p ∈ l, (a.task p).ticksRemaining < (a.task p).wcet → (a.task p).tons ≤ a.sysClock

/-- Two descriptors with the same times. -/
def SameTimes (t t' : Task PDPtr) : Prop :=
  t'.tons = t.tons ∧ t'.ticksRemaining = t.ticksRemaining ∧ t'.wcet = t.wcet ∧
    t'.clockState = t.clockState

theorem Timed.sublist {l' : List PDPtr} (h : a.Timed l) (hl : l'.Sublist l) : a.Timed l' :=
  ⟨h.sorted.sublist hl, fun p hp => h.epoch p (hl.subset hp),
    fun p hp => h.started p (hl.subset hp)⟩

theorem Timed.congr (h : a.Timed l) (ht : ∀ p ∈ l, SameTimes (a.task p) (a'.task p))
    (hc : a'.sysClock = a.sysClock) : a'.Timed l := by
  refine ⟨?_, ?_, ?_⟩
  · refine h.sorted.imp_of_mem fun {p q} hp hq hpq => ?_
    rw [Precedes, (ht p hp).1, (ht q hq).1, hc]
    exact hpq
  · intro p hp
    rw [(ht p hp).2.2.2, h.epoch p hp]
  · intro p hp
    rw [(ht p hp).1, (ht p hp).2.1, (ht p hp).2.2.1, hc]
    exact h.started p hp

/-- What the search of `insert` moves past, within one epoch. -/
theorem scansPast_iff {t u : Task PDPtr} (h : t.clockState = u.clockState) (clock : Tick) :
    scansPast t clock u = true ↔
      u.tons < t.tons ∨ u.ticksRemaining < u.wcet ∨ u.tons ≤ clock := by
  simp [scansPast, later, h, or_assoc]

/-- **Insertion keeps the order.** -/
theorem Timed.place (h : a.Timed l) (hp : (a.task p).clockState = .even)
    (hs : (a.task p).ticksRemaining < (a.task p).wcet → (a.task p).tons ≤ a.sysClock) :
    a.Timed (a.place p l) := by
  have hmem : ∀ q, q ∈ a.place p l ↔ q = p ∨ q ∈ l := fun q => mem_placeBehind
  -- a task that is passed over starts earlier or is due
  have hkeep : ∀ q ∈ l, scansPast (a.task p) a.sysClock (a.task q) = true ↔
      (a.task q).tons < (a.task p).tons ∨ (a.task q).tons ≤ a.sysClock := by
    intro q hq
    rw [scansPast_iff (hp.trans (h.epoch q hq).symm)]
    have := h.started q hq
    tauto
  refine ⟨?_, ?_, ?_⟩
  · refine placeBehind_pairwise h.sorted ?_ ?_
    · intro q hq hk
      rcases (hkeep q hq).1 hk with hlt | hdue
      · by_cases hd : (a.task q).tons ≤ a.sysClock
        · exact Or.inl hd
        · exact Or.inr ⟨by bv_omega, by bv_omega⟩
      · exact Or.inl hdue
    · intro q hq u hu hk hqu
      have hnot : ¬ ((a.task q).tons < (a.task p).tons ∨ (a.task q).tons ≤ a.sysClock) := by
        rw [← hkeep q hq, hk]
        simp
      rw [not_or] at hnot
      rcases hqu with rfl | hdue | ⟨hlt, hle⟩
      · exact Or.inr ⟨by bv_omega, by bv_omega⟩
      · exact absurd hdue hnot.2
      · exact Or.inr ⟨hlt, by bv_omega⟩
  · intro q hq
    rcases (hmem q).1 hq with rfl | hq
    · exact hp
    · exact h.epoch q hq
  · intro q hq
    rcases (hmem q).1 hq with rfl | hq
    · exact hs
    · exact h.started q hq

/-- The order survives a tick of the clock that does not wrap. -/
theorem Timed.tick (h : a.Timed l) (ht : a'.task = a.task) (hc : a'.sysClock = a.sysClock + 1)
    (hw : a.sysClock.toNat + 1 < 65536) : a'.Timed l := by
  refine ⟨h.sorted.imp ?_, ?_, ?_⟩
  · intro p q hpq
    rw [Precedes, ht, hc]
    rcases hpq with hdue | ⟨hlt, hle⟩
    · exact Or.inl (by bv_omega)
    · by_cases hd : (a.task p).tons ≤ a.sysClock + 1
      · exact Or.inl hd
      · exact Or.inr ⟨by bv_omega, hle⟩
  · rw [ht]
    exact h.epoch
  · intro p hp hlt
    rw [ht] at hlt ⊢
    have := h.started p hp hlt
    rw [hc]
    bv_omega

/-! ### The choice of the current task -/

/-- The clock is in its first epoch, the periodic level is in order, and the current task is
the one with the highest claim to the processor. -/
structure Scheduled (a : Sched) : Prop where
  epoch : a.clockState = .even
  timed : a.Timed (a.level .periodic)
  system : (a.task a.current).priority ≠ .system → ∀ p ∈ a.level .system, a.ready p = false
  periodic : (a.task a.current).priority ≠ .system → (a.task a.current).priority ≠ .periodic →
    ∀ p ∈ a.level .periodic, a.sysClock < (a.task p).tons
  rr : a.current = .idleProcess → ∀ p ∈ a.level .rr, a.ready p = false

/-- Within the first epoch a task is due when its start time has come. -/
theorem due_iff (hc : a.clockState = .even) (hp : (a.task p).clockState = .even) :
    a.due p = true ↔ (a.task p).tons ≤ a.sysClock := by
  simp [due, hc, hp]

/-- When the head of the periodic level is not due, no periodic task is. -/
theorem Timed.none_due (h : a.Timed (a.level .periodic)) (hc : a.clockState = .even)
    (hd : a.duePeriodic = none) : ∀ p ∈ a.level .periodic, a.sysClock < (a.task p).tons := by
  unfold duePeriodic at hd
  have hsorted := h.sorted
  have hepoch := h.epoch
  cases hl : a.level .periodic with
  | nil => simp
  | cons q l =>
    rw [hl] at hd hsorted hepoch
    have hq : ¬ (a.task q).tons ≤ a.sysClock := by
      rw [← due_iff hc (hepoch q (by simp))]
      simpa [Option.filter] using hd
    intro p hp
    rcases List.mem_cons.1 hp with rfl | hp
    · bv_omega
    · rcases (List.pairwise_cons.1 hsorted).1 p hp with hdue | ⟨hlt, -⟩
      · exact absurd hdue hq
      · exact hlt

theorem run_ready_false (h : a.ready q = false) : (a.run p).ready q = false := by
  by_cases hqp : q = p
  · subst hqp
    simp [ready, run_task, setState_self]
  · rw [ready, run_task, setState_other hqp]
    exact h

theorem run_tons (a : Sched) (p q : PDPtr) : SameTimes (a.task q) ((a.run p).task q) := by
  by_cases hqp : q = p
  · subst hqp
    rw [run_task, setState_task, Function.update_self]
    exact ⟨rfl, rfl, rfl, rfl⟩
  · rw [run_task, setState_other hqp]
    exact ⟨rfl, rfl, rfl, rfl⟩

/-- A selection schedules by priority, when the periodic level is in order. -/
theorem Handling.select_scheduled (h : a.Handling) (hc : a.clockState = .even)
    (ht : a.Timed (a.level .periodic)) (he : a.select = .ok a') : a'.Scheduled := by
  have hbring : ∀ q, q ≠ .periodic → (a.bring q).level .periodic = a.level .periodic := by
    intro q hq
    rw [Sched.bring, setLevel_level, Function.update_of_ne (Ne.symm hq)]
  have hprio : ∀ (b : Sched) p, ((b.run p).task p).priority = (b.task p).priority :=
    fun b p => setState_priority b p p .running
  have hrun : ∀ (b : Sched) p, b.Timed (b.level .periodic) →
      (b.run p).Timed ((b.run p).level .periodic) :=
    fun b p hb => hb.congr (fun q _ => run_tons b p q) rfl
  have hbt : ∀ q, q ≠ .periodic → (a.bring q).Timed ((a.bring q).level .periodic) := by
    intro q hq
    rw [hbring q hq]
    exact ht.congr (fun _ _ => ⟨rfl, rfl, rfl, rfl⟩) rfl
  rcases select_cases he with ⟨p, hf, rfl⟩ | ⟨hsys, ⟨p, hf, _, rfl⟩ |
    ⟨hdue, ⟨p, hf, rfl⟩ | ⟨hrr, rfl⟩⟩⟩
  · -- a system task runs
    have hp : (((a.bring .system).run p).task p).priority = .system := by
      rw [hprio]
      exact h.levels.priority _ p (List.mem_of_find?_eq_some hf)
    have hne : p ≠ .idleProcess :=
      ne_of_mem_of_not_mem (List.mem_of_find?_eq_some hf) (h.levels.idle_notMem _)
    exact ⟨hc, hrun _ p (hbt _ (by simp)), fun hn => absurd hp hn, fun hn => absurd hp hn,
      fun hn => absurd hn hne⟩
  all_goals
    have hsys' : ∀ q ∈ a.level .system, a.ready q = false := by simpa using hsys
  · -- the due periodic task at the head of its level runs
    have hmem := List.mem_of_head? (duePeriodic_eq_some.1 hf).1
    have hp : ((a.run p).task p).priority = .periodic := by
      rw [hprio]
      exact h.levels.priority _ p hmem
    have hne : p ≠ .idleProcess := ne_of_mem_of_not_mem hmem (h.levels.idle_notMem _)
    exact ⟨hc, hrun _ p ht, fun _ q hq => run_ready_false (hsys' q hq),
      fun _ hn => absurd hp hn, fun hn => absurd hn hne⟩
  all_goals
    have hnone := ht.none_due hc hdue
  · -- a round-robin task runs, and no periodic task is due
    have hp : (((a.bring .rr).run p).task p).priority = .rr := by
      rw [hprio]
      exact h.levels.priority _ p (List.mem_of_find?_eq_some hf)
    have hne : p ≠ .idleProcess :=
      ne_of_mem_of_not_mem (List.mem_of_find?_eq_some hf) (h.levels.idle_notMem _)
    refine ⟨hc, hrun _ p (hbt _ (by simp)), ?_, ?_, fun hn => absurd hn hne⟩
    · intro _ q hq
      rw [run_level, Sched.bring, setLevel_level, Function.update_of_ne (by simp)] at hq
      exact run_ready_false (hsys' q hq)
    · intro _ _ q hq
      rw [run_level, hbring _ (by simp)] at hq
      rw [(run_tons (a.bring .rr) p q).1]
      exact hnone q hq
  · -- the idle process runs, and nothing is ready
    have hrr' : ∀ q ∈ a.level .rr, a.ready q = false := by simpa using hrr
    refine ⟨hc, hrun _ _ ht, fun _ q hq => run_ready_false (hsys' q hq), ?_,
      fun _ q hq => run_ready_false (hrr' q hq)⟩
    intro _ _ q hq
    rw [(run_tons a _ q).1]
    exact hnone q hq

/-- The times after the current task has moved on. -/
theorem Timed.requeue (h : a.Timed (a.level .periodic)) :
    a.requeue.Timed (a.requeue.level .periodic) := by
  have hother : ∀ q l, q ≠ .periodic →
      (a.setLevel q l).Timed ((a.setLevel q l).level .periodic) := by
    intro q l hq
    rw [setLevel_level, Function.update_of_ne (Ne.symm hq)]
    exact h.congr (fun _ _ => ⟨rfl, rfl, rfl, rfl⟩) rfl
  unfold Sched.requeue
  split
  · exact hother _ _ (by simp)
  · have h1 : a.Timed (a.replaceHead (a.level .periodic)) := by
      cases hl : a.level .periodic with
      | nil =>
        rw [hl] at h
        exact h
      | cons p l =>
        rw [hl] at h
        exact (h.sublist (List.sublist_cons_self p l)).place (h.epoch p (by simp))
          (h.started p (by simp))
    rw [setLevel_level, Function.update_self]
    exact h1.congr (fun _ _ => ⟨rfl, rfl, rfl, rfl⟩) rfl
  · exact hother _ _ (by simp)
  · exact h

/-- Dispatching schedules by priority. -/
theorem Handling.dispatch_scheduled (h : a.Handling) (hc : a.clockState = .even)
    (ht : a.Timed (a.level .periodic)) (he : a.dispatch = .ok a') : a'.Scheduled :=
  h.requeue.select_scheduled (by simpa using hc) ht.requeue he

/-! ### Requests -/

/-- Neither the clock nor the start time of a task passes its last tick in this entry. -/
def NoWrap (a : Sched) : Entry → Prop
  | .timer => a.sysClock.toNat + 1 < 65536
  | .call .taskNext => (a.task a.current).priority = .periodic →
      (a.task a.current).tons.toNat + (a.task a.current).period.toNat < 65536
  | .call _ => True

theorem setState_times (a : Sched) (p q : PDPtr) (st : ProcessState) :
    SameTimes (a.task q) ((a.setState p st).task q) := by
  by_cases hqp : q = p
  · subst hqp
    rw [setState_task, Function.update_self]
    exact ⟨rfl, rfl, rfl, rfl⟩
  · rw [setState_other hqp]
    exact ⟨rfl, rfl, rfl, rfl⟩

theorem SameTimes.trans {t u v : Task PDPtr} (h : SameTimes t u) (h' : SameTimes u v) :
    SameTimes t v :=
  ⟨h'.1.trans h.1, h'.2.1.trans h.2.1, h'.2.2.1.trans h.2.2.1, h'.2.2.2.trans h.2.2.2⟩

/-- A request that changes only states, messages and parameter blocks, and then dispatches. -/
theorem Handling.states_scheduled (h : b.Handling) (ha : a.Scheduled)
    (ht : ∀ q, SameTimes (a.task q) (b.task q)) (hl : b.level = a.level)
    (hs : b.sysClock = a.sysClock) (hc : b.clockState = a.clockState)
    (he : b.dispatch = .ok a') : a'.Scheduled := by
  refine h.dispatch_scheduled (hc.trans ha.epoch) ?_ he
  rw [hl]
  exact ha.timed.congr (fun q _ => ht q) hs

theorem suspend_times (a : Sched) (e : Entry) (p : PDPtr) :
    SameTimes (a.task p) ((a.suspend e).1.task p) := by
  obtain ⟨st, params, ht⟩ := a.suspend_task_eq e p
  rw [ht]
  exact ⟨rfl, rfl, rfl, rfl⟩

theorem suspend_ready_of_ne (a : Sched) (e : Entry) (hp : p ≠ a.current) :
    (a.suspend e).1.ready p = a.ready p := by
  rw [ready, ready, a.suspend_task_of_ne e hp]

/-- Suspending the current task leaves everything scheduled by priority. -/
theorem Scheduled.suspend (h : a.Scheduled) (ha : a.Inv) (e : Entry) :
    (a.suspend e).1.Scheduled := by
  have htimes := a.suspend_times e
  have hsame := a.suspend_priority e
  have hother : ∀ p, p ≠ a.current → (a.suspend e).1.ready p = a.ready p :=
    fun p => a.suspend_ready_of_ne e
  set b := (a.suspend e).1 with hb
  have hcur : b.current = a.current := suspend_current a e
  have hlevel : b.level = a.level := suspend_level a e
  have hclock : b.sysClock = a.sysClock := suspend_sysClock a e
  have hprio : (b.task b.current).priority = (a.task a.current).priority := by
    rw [hcur, hsame]
  -- a level other than that of the current task is untouched
  have hready : ∀ q₁ p, p ∈ a.level q₁ → (a.task a.current).priority ≠ q₁ →
      b.ready p = a.ready p := by
    intro q₁ p hp hq₁
    exact hother p (ne_of_mem_of_not_mem hp (ha.levels.notMem_of_priority hq₁))
  refine ⟨(suspend_clockState a e).trans h.epoch, ?_, ?_, ?_, ?_⟩
  · rw [hlevel]
    exact h.timed.congr (fun q _ => htimes q) hclock
  · intro hp p hm
    rw [hprio] at hp
    rw [hlevel] at hm
    rw [hready .system p hm hp]
    exact h.system hp p hm
  · intro hp hp' p hm
    rw [hprio] at hp hp'
    rw [hlevel] at hm
    rw [hclock, (htimes p).1]
    exact h.periodic hp hp' p hm
  · intro hi p hm
    rw [hcur] at hi
    rw [hlevel] at hm
    rw [hready .rr p hm (by rw [hi, ha.levels.idle]; simp)]
    exact h.rr hi p hm

theorem Scheduled.setInfo (h : a.Scheduled) (r : InfoPtr PDPtr)
    (g : KernelRequestParams → KernelRequestParams) : (a.setInfo r g).Scheduled :=
  ⟨h.epoch, h.timed.congr (fun _ _ => ⟨rfl, rfl, rfl, rfl⟩) rfl, h.system, h.periodic, h.rr⟩

theorem chargeTick_scheduled {t : Task PDPtr} (h : a.Entered) (hs : a.Scheduled)
    (hw : a.sysClock.toNat + 1 < 65536)
    (ht : Kernel.chargeTick a.current (a.task a.current) = .ok t)
    (he : (a.setTask a.current fun _ => t).advanceClock.dispatch = .ok a') : a'.Scheduled := by
  obtain ⟨ticks, rfl⟩ := chargeTick_ok ht
  set t : Task PDPtr := { a.task a.current with ticksRemaining := ticks } with htdef
  have hh : (a.setTask a.current fun _ => t).advanceClock.Handling :=
    (h.setTimes ⟨t.tons, ticks, t.clockState, rfl⟩).of_eq rfl rfl rfl
  -- only a due task is charged
  have htimed : (a.setTask a.current fun _ => t).Timed (a.level .periodic) := by
    have hsame : ∀ q, ((a.setTask a.current fun _ => t).task q).tons = (a.task q).tons ∧
        ((a.setTask a.current fun _ => t).task q).clockState = (a.task q).clockState := by
      intro q
      by_cases hq : q = a.current
      · subst hq
        simp [setTask_task, htdef]
      · simp [setTask_task, hq]
    refine ⟨hs.timed.sorted.imp ?_, ?_, ?_⟩
    · intro p q hpq
      rw [Precedes, (hsame p).1, (hsame q).1]
      exact hpq
    · intro p hp
      rw [(hsame p).2]
      exact hs.timed.epoch p hp
    · intro p hp hlt
      rw [(hsame p).1]
      by_cases hpc : p = a.current
      · subst hpc
        exact (due_iff hs.epoch (hs.timed.epoch _ hp)).1 (h.due (h.levels.priority _ _ hp))
      · have hp' : (a.setTask a.current fun _ => t).task p = a.task p := by
          simp [setTask_task, hpc]
        rw [hp'] at hlt
        exact hs.timed.started p hp hlt
  refine hh.dispatch_scheduled ?_ (htimed.tick rfl rfl hw) he
  show (if a.sysClock + 1 < a.sysClock then a.clockState.flip else a.clockState) = .even
  rw [if_neg (by bv_omega), hs.epoch]

theorem yieldTask_periodic {t : Task PDPtr} (hp : t.priority = .periodic) :
    Kernel.yieldTask t = .ok { t with
      tons := t.tons + t.period
      ticksRemaining := t.wcet
      clockState := if t.tons + t.period < t.tons then t.clockState.flip else t.clockState } := by
  simp only [Kernel.yieldTask, hp]

theorem yieldTask_scheduled {t : Task PDPtr} (h : a.Entered) (hs : a.Scheduled)
    (hw : (a.task a.current).priority = .periodic →
      (a.task a.current).tons.toNat + (a.task a.current).period.toNat < 65536)
    (ht : Kernel.yieldTask (a.task a.current) = .ok t)
    (he : (a.setTask a.current fun _ => t).dispatch = .ok a') : a'.Scheduled := by
  have hh : (a.setTask a.current fun _ => t).Handling := h.setTimes (yieldTask_ok ht)
  have hother : ∀ q, q ≠ a.current → (a.setTask a.current fun _ => t).task q = a.task q := by
    intro q hq
    simp [setTask_task, hq]
  have hself : (a.setTask a.current fun _ => t).task a.current = t := by simp [setTask_task]
  have hcongr : ∀ l, a.Timed l → a.current ∉ l → (a.setTask a.current fun _ => t).Timed l := by
    intro l hl hn
    refine hl.congr (fun q hq => ?_) rfl
    rw [hother q (fun e => hn (e ▸ hq))]
    exact ⟨rfl, rfl, rfl, rfl⟩
  by_cases hp : (a.task a.current).priority = .periodic
  · -- the yielding task gets its next start time and takes its place by it
    have hne : a.current ≠ .idleProcess := by
      intro hc
      rw [hc, h.levels.idle] at hp
      cases hp
    obtain ⟨l, hl⟩ := List.head?_eq_some_iff.1 (hp ▸ h.front.resolve_left hne)
    have hnd : a.current ∉ l := by
      have := h.levels.nodup .periodic
      rw [hl] at this
      exact (List.nodup_cons.1 this).1
    have hover : ¬ ((a.task a.current).tons + (a.task a.current).period <
        (a.task a.current).tons) := by
      have := hw hp
      bv_omega
    have ht' : t = { a.task a.current with
        tons := (a.task a.current).tons + (a.task a.current).period
        ticksRemaining := (a.task a.current).wcet } := by
      rw [yieldTask_periodic hp, if_neg hover] at ht
      exact (Except.ok.inj ht).symm
    have htimed := hs.timed
    rw [hl] at htimed
    have hl' := hcongr l (htimed.sublist (List.sublist_cons_self _ l)) hnd
    have hplace : (a.setTask a.current fun _ => t).Timed
        ((a.setTask a.current fun _ => t).place a.current l) := by
      refine hl'.place ?_ ?_
      · rw [hself, ht']
        exact htimed.epoch _ (by simp)
      · rw [hself, ht']
        intro hlt
        bv_omega
    have hreq : (a.setTask a.current fun _ => t).requeue =
        (a.setTask a.current fun _ => t).setLevel .periodic
          ((a.setTask a.current fun _ => t).place a.current l) := by
      have hpt : t.priority = .periodic := by rw [ht']; exact hp
      unfold Sched.requeue
      rw [setTask_current, hself, hpt]
      simp only [setTask_level, hl]
      rfl
    refine hh.requeue.select_scheduled (by simpa using hs.epoch) ?_ he
    rw [hreq, setLevel_level, Function.update_self]
    exact hplace.congr (fun _ _ => ⟨rfl, rfl, rfl, rfl⟩) rfl
  · exact hh.dispatch_scheduled hs.epoch (hcongr _ hs.timed (h.levels.notMem_of_priority hp)) he

theorem install_scheduled (h : a.Entered) (hs : a.Scheduled) {x : Slot} {f : BitVec 16}
    {k : KernelRequestParams} {g : KernelRequestParams → KernelRequestParams}
    (hx : (a.task (.process x)).state = .dead) (hk : k.priority ≠ .unlisted)
    (he : ((a.install x f k).setInfo r g).dispatch = .ok a') : a'.Scheduled := by
  have hh : ((a.install x f k).setInfo r g).Handling :=
    (h.toHandling.install hx f hk).of_eq rfl rfl rfl
  have hnot := h.levels.notMem_of_dead hx .periodic
  set b := a.setTask (.process x) fun _ => a.newTask x f k with hb
  have hself : b.task (.process x) = a.newTask x f k := by simp [hb, setTask_task]
  have hold : b.Timed (a.level .periodic) := by
    refine hs.timed.congr (fun q hq => ?_) rfl
    have hne : q ≠ .process x := fun e => hnot (e ▸ hq)
    rw [hb, setTask_task, Function.update_of_ne hne]
    exact ⟨rfl, rfl, rfl, rfl⟩
  have hlevel : b.Timed ((a.install x f k).level .periodic) := by
    show b.Timed (Function.update b.level k.priority (b.join k.priority (.process x)) .periodic)
    by_cases hp : k.priority = .periodic
    · rw [hp, Function.update_self]
      have hnew : a.newTask x f k = { a.newTask x f k with
          wcet := k.wcet, ticksRemaining := k.wcet, clockState := a.clockState } := by
        simp [newTask, hp]
      refine hold.place ?_ ?_
      · rw [hself, hnew]
        exact hs.epoch
      · rw [hself, hnew]
        intro hlt
        bv_omega
    · rw [Function.update_of_ne (Ne.symm hp)]
      exact hold
  exact hh.dispatch_scheduled hs.epoch
    (hlevel.congr (fun _ _ => ⟨rfl, rfl, rfl, rfl⟩) rfl) he

theorem bury_scheduled (h : a.Entered) (hs : a.Scheduled) {i : Slot}
    (hi : a.current = .process i) (he : a.bury.dispatch = .ok a') : a'.Scheduled := by
  refine (h.bury hi).dispatch_scheduled hs.epoch ?_ he
  have hsub : (a.bury.level .periodic).Sublist (a.level .periodic) := by
    rw [bury_level]
    by_cases hq : (a.task a.current).priority = .periodic
    · rw [hq, Function.update_self]
      exact List.erase_sublist
    · rw [Function.update_of_ne (Ne.symm hq)]
  exact (hs.timed.sublist hsub).congr (fun q _ => setState_times a a.current q .dead) rfl

theorem Entered.serve_scheduled (h : a.Entered) (hs : a.Scheduled) {k : KernelRequestType}
    (hu : k = .timer ∨ a.current ≠ .idleProcess)
    (hclock : k = .timer → a.sysClock.toNat + 1 < 65536)
    (htons : k = .next → (a.task a.current).priority = .periodic →
      (a.task a.current).tons.toNat + (a.task a.current).period.toNat < 65536)
    (he : a.serve r k = .ok a') : a'.Scheduled := by
  have hproc : k ≠ .timer → ∃ i, a.current = .process i := by
    intro hk
    cases hc : a.current with
    | process i => exact ⟨i, rfl⟩
    | idleProcess => exact absurd hc (hu.resolve_left hk)
  cases k with
  | none =>
    cases he
    exact hs
  | timer =>
    obtain ⟨t, ht, hd⟩ := tick_cases he
    exact chargeTick_scheduled h hs (hclock rfl) ht hd
  | create =>
    obtain ⟨b, hb, hd⟩ := bind_ok he
    rcases create_cases hb with ⟨-, rfl⟩ | ⟨x, f, hx, -, hq, rfl⟩
    · exact h.toHandling.dispatch_scheduled hs.epoch hs.timed hd
    · exact install_scheduled h hs (freeSlot_dead hx) (admissible_listed hq) hd
  | next =>
    obtain ⟨t, ht, hd⟩ := yield_cases he
    exact yieldTask_scheduled h hs (htons rfl) ht hd
  | getArg =>
    cases he
    exact hs.setInfo _ _
  | getPid =>
    cases he
    exact hs.setInfo _ _
  | getNow =>
    cases he
    exact hs.setInfo _ _
  | msgSend =>
    obtain ⟨i, hi⟩ := hproc (by simp)
    obtain ⟨hp, ⟨-, rfl⟩ | ⟨x, -, hw, hd⟩ | ⟨x, -, -, hd⟩⟩ := send_cases he
    · exact hs
    · refine (h.handOver hp hw).states_scheduled hs (fun q => ?_) (by simp [Sched.handOver])
        (by simp [Sched.handOver]) (by simp [Sched.handOver]) hd
      rw [Sched.handOver, setReqParams_task]
      exact (setState_times a _ q .ready).trans (setState_times _ a.current q .replyBlock)
    · exact (h.post hp hi).states_scheduled hs
        (fun q => setState_times (a.setMail _) a.current q .sendBlock) rfl rfl rfl hd
  | msgRecv =>
    obtain ⟨hp, ⟨m, sender, hf, hm, hd⟩ | ⟨-, hd⟩⟩ := recv_cases he
    · refine (h.take hf hm).states_scheduled hs (fun q => ?_) rfl rfl rfl hd
      exact setState_times ((a.setMail _).setInfo r _) (.process sender) q .replyBlock
    · exact (h.await hp).states_scheduled hs
        (fun q => setState_times a a.current q .recvBlock) rfl rfl rfl hd
  | msgRply =>
    obtain ⟨-, ⟨-, rfl⟩ | ⟨x, -, hst, hd⟩ | ⟨x, -, -, hd⟩⟩ := reply_cases he
    · exact hs
    · refine (h.answer hst).states_scheduled hs (fun q => ?_) (by simp [Sched.answer])
        (by simp [Sched.answer]) (by simp [Sched.answer]) hd
      rw [Sched.answer, setReqParams_task]
      exact setState_times a _ q .ready
    · exact h.toHandling.dispatch_scheduled hs.epoch hs.timed hd
  | msgASend =>
    rcases asend_cases he with ⟨-, rfl⟩ | ⟨x, -, hw, hd⟩ | ⟨x, -, -, rfl⟩
    · exact hs
    · refine (h.notify hw).states_scheduled hs (fun q => ?_) (by simp [Sched.notify])
        (by simp [Sched.notify]) (by simp [Sched.notify]) hd
      rw [Sched.notify, setReqParams_task]
      exact setState_times a _ q .ready
    · exact hs
  | terminate =>
    obtain ⟨i, hi⟩ := hproc (by simp)
    obtain ⟨-, hd⟩ := terminate_cases he
    exact bury_scheduled h hs hi hd
  | abort => cases he

/-- **Every kernel entry that does not wrap keeps the priority schedule.** -/
theorem Scheduled.enter (h : a.Scheduled) (ha : a.Inv) (hs : a.Step e a') (hw : a.NoWrap e) :
    a'.Scheduled := by
  obtain ⟨b, hb, rfl⟩ := enter_cases hs.2
  obtain ⟨params, hself⟩ := a.suspend_task_current e
  have hcur := suspend_current a e
  refine ((ha.suspend e).serve_scheduled (h.suspend ha e) ?_ ?_ ?_ hb).setInfo _ _
  · cases e with
    | timer => exact Or.inl rfl
    | call c =>
      rw [hcur]
      exact Or.inr hs.1
  · intro hk
    rw [suspend_sysClock]
    cases e with
    | timer => exact hw
    | call c => cases c <;> cases hk
  · intro hk
    rw [hcur, hself]
    cases e with
    | timer => cases hk
    | call c =>
      cases c with
      | taskNext => exact hw
      | _ => cases hk

theorem bootedSched_scheduled (create kernelIdle : BitVec 16) :
    (Kernel.bootedSched create kernelIdle).Scheduled := by
  have hnil : (Kernel.bootedSched create kernelIdle).level .periodic = [] := rfl
  refine ⟨rfl, ?_, fun hp => absurd rfl hp, fun hp => absurd rfl hp, fun hp => by cases hp⟩
  rw [hnil]
  exact ⟨List.Pairwise.nil, by simp, by simp⟩

end Sched

namespace Kernel

variable {s s' s₀ : Kernel} {e : Entry} {es : List Entry}

/-- Neither `sys_clock` nor the `tons` of a task that yields passes 65535 in this entry. -/
def NoWrap (s : Kernel) : Entry → Prop
  | .timer => s.sysClock.toNat + 1 < 65536
  | .call .taskNext => ∀ p, s.cp = some p → (s.pd p).priority = .periodic →
      (s.pd p).tons.toNat + (s.pd p).period.toNat < 65536
  | .call _ => True

instance (s : Kernel) (e : Entry) : Decidable (s.NoWrap e) := by
  unfold NoWrap
  split
  · infer_instance
  · cases hcp : s.cp with
    | none => exact isTrue (by simp)
    | some p =>
      exact decidable_of_iff ((s.pd p).priority = .periodic →
        (s.pd p).tons.toNat + (s.pd p).period.toNat < 65536) (by simp)
  · infer_instance

theorem Represents.noWrap {a : Sched} (h : s.UserMode a) (hw : s.NoWrap e) : a.NoWrap e := by
  have ht := h.task a.current
  cases e with
  | timer =>
    show a.sysClock.toNat + 1 < 65536
    rw [← h.sysClock]
    exact hw
  | call c =>
    cases c with
    | taskNext =>
      show (a.task a.current).priority = .periodic → _
      rw [← ht]
      exact hw a.current h.current
    | _ => trivial

/-- The scheduling policy at a return to user mode. -/
structure FollowsPolicy (s : Kernel) (p : PDPtr) : Prop where
  active : (s.pd p).state ∉ [.dead, .sendBlock, .replyBlock, .recvBlock]
  /-- A task of a lower level runs only if no system task is ready. -/
  system : (s.pd p).priority ≠ .system →
    ∀ i, (s.pd (.process i)).priority = .system → (s.pd (.process i)).state ≠ .ready
  /-- A round-robin task or the idle process runs only if no periodic task is due. -/
  periodic : (s.pd p).priority = .rr ∨ p = .idleProcess →
    ∃ chain, (s.queue .periodic).Holds s.pd chain ∧ ∀ q ∈ chain, ¬ (s.pd q).tons ≤ s.sysClock
  /-- The idle process runs only if no round-robin task is ready. -/
  rr : p = .idleProcess →
    ∀ i, (s.pd (.process i)).priority = .rr → (s.pd (.process i)).state ≠ .ready

theorem Represents.followsPolicy {a : Sched} (h : s.UserMode a) (ha : a.Inv)
    (hs : a.Scheduled) : s.FollowsPolicy a.current := by
  have hready : ∀ q, (∀ p ∈ a.level q, a.ready p = false) →
      ∀ i, (s.pd (.process i)).priority = q → (s.pd (.process i)).state ≠ .ready := by
    intro q hq i hi hst
    rw [h.priority] at hi
    have hmem := ha.levels.linked i (by rw [← h.state, hst]; simp)
    rw [hi] at hmem
    have := hq _ hmem
    rw [Sched.ready, ← h.state, hst] at this
    simp at this
  refine ⟨?_, fun hp => ?_, fun hp => ⟨a.level .periodic, h.queue .periodic, ?_⟩, fun hp => ?_⟩
  · rw [h.state]
    rcases ha.active with hst | hst <;> simp [hst]
  · rw [h.priority] at hp
    exact hready .system (hs.system hp)
  · have hprio : (a.task a.current).priority ≠ .system ∧
        (a.task a.current).priority ≠ .periodic := by
      rcases hp with hp | hp
      · rw [h.priority] at hp
        simp [hp]
      · rw [hp, ha.levels.idle]
        simp
    intro q hq
    have hlt := hs.periodic hprio.1 hprio.2 q hq
    rw [h.sysClock, show (s.pd q).tons = (a.task q).tons from congrArg Task.tons (h.task q)]
    bv_omega
  · exact hready .rr (hs.rr hp)

/-- **Priority scheduling.**  In every run from power-on in which neither the clock nor a start
time wraps, every return to user mode follows the scheduling policy. -/
theorem priority_scheduling {create kernelIdle : BitVec 16}
    (hb : boot create kernelIdle = .ok s₀)
    (hr : Run (fun s e s' => s.Step e s' ∧ s.NoWrap e) s₀ es s) :
    ∃ p, s.cp = some p ∧ s.FollowsPolicy p := by
  obtain ⟨s₁, hb₁, h₁⟩ := boot_represents create kernelIdle
  have hs : s₀ = s₁ := Except.ok.inj (hb.symm.trans hb₁)
  subst hs
  obtain ⟨a, -, h, ha, hsched⟩ : ∃ a, Run Sched.Step (bootedSched create kernelIdle) es a ∧
      s.UserMode a ∧ a.Inv ∧ a.Scheduled := by
    refine hr.simulate (R := fun s a => s.UserMode a ∧ a.Inv ∧ a.Scheduled)
      ⟨h₁, Sched.bootedSched_inv create kernelIdle,
        Sched.bootedSched_scheduled create kernelIdle⟩ ?_
    intro t e u a ⟨hrep, hinv, hsched⟩ hs
    obtain ⟨a', hstep, h'⟩ := hrep.step hinv hs.1
    exact ⟨a', hstep, h', hstep.inv hinv, hsched.enter hinv hstep (hrep.noWrap hs.2)⟩
  exact ⟨a.current, h.current, h.followsPolicy ha hsched⟩

/-- A run with three tasks, one of them periodic, up to the second tick. -/
theorem priority_scheduling_three_tasks :
    ∃ s ∈ after (fun s e => decide (s.NoWrap e)) 1 2 [.call (.taskCreateRR (some 3) 0),
      .call (.taskCreatePeriod (some 4) 0 5 2 1), .call .taskTerminate, .timer,
      .call .taskNext, .timer], ∃ p, s.cp = some p ∧ s.FollowsPolicy p := by
  refine exists_mem_of_isSome (by decide +kernel) fun s hs => ?_
  obtain ⟨s₀, hb, hrun⟩ := run_of_after hs
  exact priority_scheduling hb (hrun.mono fun _ _ _ h => ⟨h.1, of_decide_eq_true h.2⟩)

end Kernel

end RoombaRtos
