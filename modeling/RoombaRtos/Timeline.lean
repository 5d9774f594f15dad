import RoombaRtos.Clock
import RoombaRtos.PriorityScheduling

/-!
# The record of a run

A record kept beside the kernel, of what happens to each process in time, and how the time fields
of a periodic task change with it.

* `Life` — when a process was created and with what parameters, how often it called `Task_Next`,
  how many ticks hit it since, and in which ticks it ran;
* `chronicle` — what one kernel entry adds to the record; it changes nothing in the kernel;
* `Watched` — the kernel with its record;
* `Sched.Course` — all that an entry can do to the time fields of a periodic task;
* `Watched.Keeps.step` — what the courses keep for each periodic task holds in every run.
-/

namespace RoombaRtos

open ListQueue Lockstep

/-! ### The record -/

/-- What is recorded of the life of a process. -/
structure Life where
  /-- The parameters it was created with. -/
  params : KernelRequestParams := {}
  /-- The number of ticks since power-on when it was created. -/
  born : ℕ := 0
  /-- How often it has called `Task_Next`. -/
  nexts : ℕ := 0
  /-- The ticks that hit while it was running, since its creation or its last `Task_Next`. -/
  hits : ℕ := 0
  /-- The numbers of the ticks in which it has been the running task, newest first. -/
  ran : List ℕ := []
deriving DecidableEq, Repr

/-- The parameters of an entry. -/
def Entry.params : Entry → KernelRequestParams
  | .timer => {}
  | .call c => c.params

namespace Life

/-- An entry made by, or hitting, the process itself. -/
def serve (l : Life) : Entry → Life
  | .timer => { l with hits := l.hits + 1 }
  | .call .taskNext => { l with nexts := l.nexts + 1, hits := 0 }
  | .call _ => l

/-- One entry, for a process that is alive after it: `alive` before it, and `running` then. -/
def step (l : Life) (e : Entry) (n : ℕ) (alive running : Bool) : Life :=
  if alive then if running then l.serve e else l else { params := e.params, born := n }

/-- The process is, or is not, the running task at a moment of tick `n`. -/
def observe (l : Life) (n : ℕ) (running : Bool) : Life :=
  if running then { l with ran := n :: l.ran } else l

@[simp] theorem serve_ran (l : Life) (e : Entry) : (l.serve e).ran = l.ran := by
  cases e with
  | timer => rfl
  | call c => cases c <;> rfl

@[simp] theorem observe_hits (l : Life) (n : ℕ) (r : Bool) : (l.observe n r).hits = l.hits := by
  cases r <;> rfl

end Life

/-- Which task runs, and which processes are alive. -/
structure View where
  running : Option PDPtr
  alive : Slot → Bool

def Kernel.view (s : Kernel) : View :=
  ⟨s.cp, fun i => (s.pd (.process i)).state ≠ .dead⟩

/-- The record after an entry `e` that led from the view `v` to `v'`, in tick `n`. -/
def chronicle (v v' : View) (e : Entry) (n : ℕ) (life : Slot → Life) : Slot → Life := fun i =>
  if v'.alive i then
    ((life i).step e n (v.alive i) (v.running = some (.process i))).observe n
      (v'.running = some (.process i))
  else {}

/-- The record at power-on: the setup task is there. -/
def firstLife (create : BitVec 16) : Slot → Life :=
  Function.update (fun _ => {}) 0 { params := Kernel.initParams create, ran := [0] }

/-- The kernel, the number of ticks since power-on, and the record. -/
structure Watched where
  kernel : Kernel
  ticks : ℕ
  life : Slot → Life

namespace Watched

def Initial (w : Watched) : Prop :=
  ∃ create kernelIdle, Kernel.boot create kernelIdle = .ok w.kernel ∧ w.ticks = 0 ∧
    w.life = firstLife create

/-- The number of ticks after the entry. -/
def ticksAfter (w : Watched) (e : Entry) : ℕ := w.ticks + [e].count .timer

def watch (w : Watched) (e : Entry) (s : Kernel) : Watched where
  kernel := s
  ticks := w.ticksAfter e
  life := chronicle w.kernel.view s.view e (w.ticksAfter e) w.life

def Step (w : Watched) (e : Entry) (w' : Watched) : Prop :=
  ∃ s, w.kernel.Step e s ∧ w' = w.watch e s

/-- One step as a function; `none` when it cannot happen, stops the kernel, or does not pass
`guard`. -/
def advance (guard : Watched → Entry → Bool) (w : Watched) (e : Entry) : Option Watched :=
  if guard w e then (w.kernel.advance (fun _ _ => true) e).map (w.watch e) else none

/-- The kernel and its record after power-on and the given entries. -/
def after (guard : Watched → Entry → Bool) (create kernelIdle : BitVec 16) (es : List Entry) :
    Option Watched :=
  (Kernel.boot create kernelIdle).toOption.bind fun s =>
    Run.exec (advance guard) ⟨s, 0, firstLife create⟩ es

theorem advance_step {guard : Watched → Entry → Bool} {w w' : Watched} {e : Entry}
    (h : w.advance guard e = some w') : w.Step e w' ∧ guard w e = true := by
  unfold advance at h
  by_cases hg : guard w e = true
  · rw [if_pos hg] at h
    obtain ⟨s, hs, rfl⟩ := Option.map_eq_some_iff.1 h
    exact ⟨⟨s, (Kernel.advance_step hs).1, rfl⟩, hg⟩
  · rw [if_neg hg] at h
    cases h

theorem run_of_after {guard : Watched → Entry → Bool} {create kernelIdle : BitVec 16}
    {es : List Entry} {w : Watched} (h : after guard create kernelIdle es = some w) :
    ∃ w₀ : Watched, w₀.Initial ∧ Run (fun w e w' => w.Step e w' ∧ guard w e = true) w₀ es w := by
  obtain ⟨s₀, hs₀, hrun⟩ := Option.bind_eq_some_iff.1 h
  exact ⟨⟨s₀, 0, firstLife create⟩, ⟨create, kernelIdle, toOption_eq_some.1 hs₀, rfl, rfl⟩,
    (Run.of_exec hrun).mono fun _ _ _ hs => advance_step hs⟩

/-- The run of the kernel that is recorded. -/
theorem kernel_run {w₀ w : Watched} {es : List Entry} (h : Run Step w₀ es w) :
    Run Kernel.Step w₀.kernel es w.kernel := by
  induction h with
  | nil => exact Run.nil _
  | snoc _ hs ih =>
    obtain ⟨s, hs, rfl⟩ := hs
    exact ih.snoc hs

/-- The policy, executed along the same entries, is what the kernel represents. -/
theorem userMode_of_after {guard : Watched → Entry → Bool} {create kernelIdle : BitVec 16}
    {es : List Entry} {w : Watched} {a : Sched} (h : after guard create kernelIdle es = some w)
    (ha : Run.exec Sched.advance (Kernel.bootedSched create kernelIdle) es = some a) :
    w.kernel.UserMode a := by
  obtain ⟨s₀, hs₀, hrun⟩ := Option.bind_eq_some_iff.1 h
  have hstep : Run Step ⟨s₀, 0, firstLife create⟩ es w :=
    (Run.of_exec hrun).mono fun _ _ _ hs => (advance_step hs).1
  obtain ⟨a', ha', hrep, -⟩ :=
    Kernel.run_represents (toOption_eq_some.1 hs₀) (kernel_run hstep)
  have heq : a = a' := (Sched.run_of_exec ha).functional
    (fun _ _ _ _ ht hu => Except.ok.inj (ht.2.symm.trans hu.2)) ha'
  exact heq ▸ hrep

end Watched

/-! ### The times of a periodic task -/

/-- The fields of a descriptor that concern its times. -/
structure Timing where
  priority : PriorityLevel
  period : Tick
  wcet : Tick
  tons : Tick
  ticksRemaining : Tick
  clockState : OverflowState
deriving DecidableEq, Repr

def Task.timing {α : Type} (t : Task α) : Timing :=
  ⟨t.priority, t.period, t.wcet, t.tons, t.ticksRemaining, t.clockState⟩

/-- The times of a new periodic task. -/
def Timing.fresh (q : KernelRequestParams) (sysClock : Tick) (clockState : OverflowState) :
    Timing :=
  ⟨.periodic, q.period, q.wcet, sysClock + q.offset, q.wcet, clockState⟩

/-- The times of a periodic task that a tick hits. -/
def Timing.charge (t : Timing) : Timing := { t with ticksRemaining := t.ticksRemaining - 1 }

/-- The times of a periodic task that calls `Task_Next`. -/
def Timing.next (t : Timing) : Timing :=
  { t with
    tons := t.tons + t.period
    ticksRemaining := t.wcet
    clockState := if t.tons + t.period < t.tons then t.clockState.flip else t.clockState }

namespace Sched

variable {a a' c : Sched} {e : Entry} {i : Slot} {d : Bool}

def view (a : Sched) : View := ⟨some a.current, fun i => (a.task (.process i)).state ≠ .dead⟩

/-- How a process came to the times `t` and the record `l'` that it has after an entry in tick
`n`, as a live periodic task; `l` is its record before. -/
inductive Course (a : Sched) (e : Entry) (i : Slot) (n : ℕ) (l : Life) (t : Timing) (l' : Life) :
    Prop
  | born (hd : (a.task (.process i)).state = .dead) (he : e ≠ .timer)
      (ht : t = .fresh e.params a.sysClock a.clockState)
      (hr : l' = { params := e.params, born := n })
  | kept (hl : (a.task (.process i)).state ≠ .dead)
      (hm : a.current = .process i → e ≠ .timer ∧ e ≠ .call .taskNext)
      (ht : t = (a.task (.process i)).timing) (hr : l' = l)
  | charged (hl : (a.task (.process i)).state ≠ .dead) (he : e = .timer)
      (hc : a.current = .process i) (hne : (a.task (.process i)).ticksRemaining - 1 ≠ 0)
      (ht : t = (a.task (.process i)).timing.charge) (hr : l' = { l with hits := l.hits + 1 })
  | yielded (hl : (a.task (.process i)).state ≠ .dead) (he : e = .call .taskNext)
      (hc : a.current = .process i) (ht : t = (a.task (.process i)).timing.next)
      (hr : l' = { l with nexts := l.nexts + 1, hits := 0 })

/-- The record of the process `i` after an entry, before it is seen who runs next. -/
def record (a : Sched) (e : Entry) (n : ℕ) (l : Life) (i : Slot) : Life :=
  l.step e n (a.view.alive i) (a.view.running = some (.process i))

section Record

variable {n : ℕ} {l : Life}

theorem record_dead (h : (a.task (.process i)).state = .dead) :
    a.record e n l i = { params := e.params, born := n } := by
  simp [record, view, h, Life.step]

theorem record_current (h : (a.task (.process i)).state ≠ .dead)
    (hc : a.current = .process i) : a.record e n l i = l.serve e := by
  simp [record, view, h, hc, Life.step]

theorem record_other (h : (a.task (.process i)).state ≠ .dead)
    (hm : a.current = .process i → e ≠ .timer ∧ e ≠ .call .taskNext) : a.record e n l i = l := by
  by_cases hc : a.current = .process i
  · obtain ⟨ht, hn⟩ := hm hc
    rw [record_current h hc]
    cases e with
    | timer => exact absurd rfl ht
    | call api =>
      cases api with
      | taskNext => exact absurd rfl hn
      | _ => rfl
  · simp [record, view, h, hc, Life.step]

/-- An entry does not change in which ticks a process ran before. -/
theorem record_ran (h : (a.task (.process i)).state ≠ .dead) : (a.record e n l i).ran = l.ran := by
  by_cases hc : a.current = .process i
  · rw [record_current h hc, Life.serve_ran]
  · rw [record_other h fun hc' => absurd hc' hc]

end Record

theorem request_next_iff : Entry.request e = .next ↔ e = .call .taskNext := by
  cases e with
  | timer => simp [Entry.request]
  | call api => cases api <;> simp [Entry.request, ApiCall.params]

theorem suspend_params (a : Sched) (e : Entry) (h : e ≠ .timer) :
    (a.suspend e).1.info (a.suspend e).2 = e.params := by
  cases e with
  | timer => exact absurd rfl h
  | call api => simp [suspend, Entry.params, setInfo]

theorem suspend_timing (a : Sched) (e : Entry) (p : PDPtr) :
    ((a.suspend e).1.task p).timing = (a.task p).timing := by
  obtain ⟨st, params, ht⟩ := a.suspend_task_eq e p
  rw [ht]
  rfl

theorem Inv.suspend_dead_iff (ha : a.Inv) (e : Entry) (p : PDPtr) :
    ((a.suspend e).1.task p).state = .dead ↔ (a.task p).state = .dead := by
  by_cases hp : p = a.current
  · subst hp
    obtain ⟨params, ht⟩ := a.suspend_task_current e
    rw [ht]
    exact ⟨fun hd => ProcessState.noConfusion hd, fun hd => absurd hd ha.current_live⟩
  · rw [a.suspend_task_of_ne e hp]

/-- A process that is listed in the same level as before was alive before. -/
theorem Handling.alive_of_level (h : c.Handling) (ha : a.Levels) (hl : c.level = a.level)
    (hi : (c.task (.process i)).state ≠ .dead) : (a.task (.process i)).state ≠ .dead :=
  ha.live _ _ (hl ▸ h.levels.linked i hi)

theorem yieldTask_timing {t t' : Task PDPtr} (h : Kernel.yieldTask t = .ok t')
    (hp : t'.priority = .periodic) : t'.timing = t.timing.next := by
  have hprio : t.priority = .periodic := by
    obtain ⟨tons, ticks, clock, rfl⟩ := yieldTask_ok h
    exact hp
  rw [yieldTask_periodic hprio, Except.ok.injEq] at h
  rw [← h]
  rfl

theorem chargeTick_timing {p : PDPtr} {t t' : Task PDPtr} (h : Kernel.chargeTick p t = .ok t')
    (hp : t'.priority = .periodic) :
    t.ticksRemaining - 1 ≠ 0 ∧ t'.timing = t.timing.charge := by
  have hprio : t.priority = .periodic := by
    obtain ⟨ticks, rfl⟩ := chargeTick_ok h
    exact hp
  unfold Kernel.chargeTick at h
  simp only [hprio] at h
  split_ifs at h with hle
  cases h
  refine ⟨fun heq => hle (by bv_omega), ?_⟩
  rw [Timing.charge, Task.timing, Task.timing, hprio]

/-- **The course of a periodic task** through a handler, up to the call of `Dispatch`. -/
theorem handled_course {n : ℕ} {l : Life} (h : a.handled e = .ok (c, d)) (ha : a.Inv)
    (hc : d = true → c.Handling)
    (hi : (c.task (.process i)).state ≠ .dead)
    (hp : (c.task (.process i)).priority = .periodic) :
    Course a e i n l (c.task (.process i)).timing (a.record e n l i) := by
  have hsame := a.suspend_timing e (.process i)
  have hlive : ((a.suspend e).1.task (.process i)).state ≠ .dead →
      (a.task (.process i)).state ≠ .dead := (ha.suspend_dead_iff e _).not.1
  have hnot : Entry.request e ≠ .timer ∧ Entry.request e ≠ .next →
      a.current = .process i → e ≠ .timer ∧ e ≠ .call .taskNext :=
    fun hk _ => ⟨fun he => hk.1 (request_timer_iff.2 he), fun he => hk.2 (request_next_iff.2 he)⟩
  have hkept : ∀ {t : Timing}, (a.task (.process i)).state ≠ .dead →
      (a.current = .process i → e ≠ .timer ∧ e ≠ .call .taskNext) →
      t = (a.task (.process i)).timing → Course a e i n l t (a.record e n l i) :=
    fun hl hm ht => .kept hl hm ht (record_other hl hm)
  have hcur := suspend_current a e
  have hent := ha.suspend e
  have hcase := handled_cases h
  cases d with
  | false =>
    obtain ⟨hk, info, rfl⟩ := hcase.quiet
    exact hkept (hlive hi) (hnot ⟨hk.1, hk.2.1⟩) hsame
  | true =>
    have hh := hc rfl
    have hparams := a.suspend_params e
    have hclock := a.suspend_sysClock e
    have hstate := a.suspend_clockState e
    have hdead := ha.suspend_dead_iff e (.process i)
    generalize hk : Entry.request e = k at *
    generalize (a.suspend e).2 = r at *
    generalize (a.suspend e).1 = b at *
    cases hcase.change with
    | states hk' hst =>
      obtain ⟨st, hst'⟩ := hst.task (.process i)
      refine hkept (hlive (hh.alive_of_level hent.levels hst.level hi)) (hnot ⟨hk'.1, hk'.2.1⟩) ?_
      rw [hst']
      exact hsame
    | @install x f g hx hq =>
      have hne : e ≠ .timer := by
        intro he
        rw [request_timer_iff.2 he] at hk
        cases hk
      rw [setInfo_task, install_task] at hi hp ⊢
      by_cases hix : i = x
      · subst hix
        rw [Function.update_self] at hp ⊢
        rw [hparams hne] at hp ⊢
        refine .born (hdead.1 hx) hne ?_ (record_dead (hdead.1 hx))
        rw [(newTask_spec b i f e.params).2.1] at hp
        simp [newTask, hp, Task.timing, Timing.fresh, hclock, hstate]
      · have hpx : PDPtr.process i ≠ .process x := fun heq => hix (PDPtr.process.inj heq)
        rw [Function.update_of_ne hpx] at hi ⊢
        exact hkept (hlive hi) (hnot ⟨by simp, by simp⟩) hsame
    | @yield t ht =>
      have he := request_next_iff.1 hk
      rw [setTask_task] at hi hp ⊢
      by_cases hci : b.current = .process i
      · have hlb : (b.task (.process i)).state ≠ .dead := by
          rw [← hci, hent.ready]
          simp
        rw [← hci, Function.update_self] at hp ⊢
        have hca := hcur.symm.trans hci
        have hrec := record_current (n := n) (l := l) (e := e) (hlive hlb) hca
        refine .yielded (hlive hlb) he hca ?_ (hrec.trans (by rw [he]; rfl))
        rw [yieldTask_timing ht hp, hci, hsame]
      · rw [Function.update_of_ne (Ne.symm hci)] at hi ⊢
        exact hkept (hlive hi) (fun heq => absurd (hcur.trans heq) hci) hsame
    | @tick t ht =>
      have he := request_timer_iff.1 hk
      have htask : (b.setTask b.current fun _ => t).advanceClock.task =
          Function.update b.task b.current t := rfl
      rw [htask] at hi hp ⊢
      by_cases hci : b.current = .process i
      · have hlb : (b.task (.process i)).state ≠ .dead := by
          rw [← hci, hent.ready]
          simp
        rw [← hci, Function.update_self] at hp ⊢
        obtain ⟨hne, htime⟩ := chargeTick_timing ht hp
        have hticks : (b.task (.process i)).ticksRemaining =
            (a.task (.process i)).ticksRemaining := congrArg Timing.ticksRemaining hsame
        rw [hci, hticks] at hne
        have hca := hcur.symm.trans hci
        have hrec := record_current (n := n) (l := l) (e := e) (hlive hlb) hca
        refine .charged (hlive hlb) he hca hne ?_ (hrec.trans (by rw [he]; rfl))
        rw [htime, hci, hsame]
      · rw [Function.update_of_ne (Ne.symm hci)] at hi ⊢
        exact hkept (hlive hi) (fun heq => absurd (hcur.trans heq) hci) hsame
    | bury hq =>
      have hci : PDPtr.process i ≠ b.current := by
        intro heq
        rw [heq, bury_task, setState_self] at hi
        exact hi rfl
      rw [bury_task, setState_other hci] at hi ⊢
      exact hkept (hlive hi) (hnot ⟨by simp, by simp⟩) hsame

/-- A dispatch changes no times, and nobody's life. -/
theorem Handling.dispatch_timing (h : c.Handling) (he : c.dispatch = .ok a') (p : PDPtr) :
    (a'.task p).timing = (c.task p).timing ∧
      ((a'.task p).state = .dead ↔ (c.task p).state = .dead) := by
  obtain ⟨p', hp', -, ht, -, -⟩ := h.dispatch_frame he
  rw [ht]
  by_cases hp : p = p'
  · subst hp
    rw [setState_task, Function.update_self]
    refine ⟨rfl, fun hd => ProcessState.noConfusion hd, fun hd => ?_⟩
    rcases hp' with rfl | hready
    · exact absurd hd h.levels.idle_live
    · rw [ready_iff.1 hready] at hd
      cases hd
  · rw [setState_other hp]
    exact ⟨rfl, Iff.rfl⟩

/-- A running periodic task that a tick hits goes on living, with one tick less. -/
theorem Step.charged (hs : a.Step .timer a') (ha : a.Inv) (hc : a.current = .process i)
    (hp : (a.task (.process i)).priority = .periodic) :
    (a'.task (.process i)).state ≠ .dead ∧
      (a'.task (.process i)).timing = (a.task (.process i)).timing.charge := by
  obtain ⟨c, d, b, hcase, rfl, hd⟩ := enter_parts hs.2
  have htask : (a.suspend .timer).1.task (.process i) =
      { a.task (.process i) with state := .ready } := by
    rw [← hc]
    exact Function.update_self _ _ _
  cases handled_cases hcase with
  | info info hk => exact absurd rfl hk.1
  | refused hk => rcases hk with hk | hk <;> cases hk
  | @tick t ht =>
    have hdis := hd.resolve_right fun h => by cases h.1
    have hself : ((a.suspend .timer).1.setTask (a.suspend .timer).1.current
        fun _ => t).advanceClock.task (.process i) = t := by
      rw [← hc]
      exact Function.update_self _ _ _
    rw [suspend_current, hc, htask] at ht
    obtain ⟨htime, hdead⟩ :=
      (Dispatches.handling hcase ha hs.1).dispatch_timing hdis.2 (.process i)
    rw [hself] at htime hdead
    obtain ⟨ticks, rfl⟩ := chargeTick_ok ht
    refine ⟨fun hx => ProcessState.noConfusion (hdead.1 hx), ?_⟩
    rw [setInfo_task, htime]
    exact (chargeTick_timing ht hp).2

/-- The course of a periodic task through an entry that returns to user mode. -/
theorem Step.course {n : ℕ} {l : Life} (hs : a.Step e a') (ha : a.Inv)
    (hi : (a'.task (.process i)).state ≠ .dead)
    (hp : (a'.task (.process i)).priority = .periodic) :
    Course a e i n l (a'.task (.process i)).timing (a.record e n l i) := by
  obtain ⟨c, d, b, hc, rfl, ⟨rfl, hd⟩ | ⟨rfl, rfl⟩⟩ := enter_parts hs.2
  · have hh := Dispatches.handling hc ha hs.1
    obtain ⟨htime, hdead⟩ := hh.dispatch_timing hd (.process i)
    rw [setInfo_task] at hi hp ⊢
    rw [htime]
    refine handled_course hc ha (fun _ => hh) (hdead.not.1 hi) ?_
    rw [← hp]
    exact (congrArg Timing.priority htime).symm
  · rw [setInfo_task] at hi hp ⊢
    exact handled_course hc ha (fun hd => by cases hd) hi hp

end Sched

theorem Kernel.Represents.view {s : Kernel} {a : Sched} (h : s.UserMode a) :
    s.view = a.view := by
  unfold Kernel.view Sched.view
  rw [h.current]
  simp only [h.state]

namespace Watched

variable {w w₀ : Watched}

/-- The kernel represents a state of the policy whose clock reads the number of ticks. -/
structure Follows (w : Watched) (a : Sched) : Prop where
  represents : w.kernel.UserMode a
  inv : a.Inv
  reads : a.Reads w.ticks

theorem Initial.follows (h : w₀.Initial) : ∃ create kernelIdle,
    w₀.Follows (Kernel.bootedSched create kernelIdle) ∧ w₀.ticks = 0 ∧
      w₀.life = firstLife create := by
  obtain ⟨create, kernelIdle, hb, hticks, hlife⟩ := h
  obtain ⟨s, hs, hrep⟩ := Kernel.boot_represents create kernelIdle
  have hk : w₀.kernel = s := Except.ok.inj (hb.symm.trans hs)
  refine ⟨create, kernelIdle, ⟨hk ▸ hrep, Sched.bootedSched_inv create kernelIdle, ?_⟩, hticks,
    hlife⟩
  rw [hticks]
  exact Kernel.bootedSched_reads create kernelIdle

/-- A step is a step of the policy, and the record can be kept there. -/
theorem Follows.step {a : Sched} {e : Entry} {w' : Watched} (h : w.Follows a)
    (hs : w.Step e w') : ∃ a', a.Step e a' ∧ w'.Follows a' ∧ w'.ticks = w.ticksAfter e ∧
      w'.life = chronicle a.view a'.view e (w.ticksAfter e) w.life := by
  obtain ⟨s, hs, rfl⟩ := hs
  obtain ⟨a', hstep, hrep⟩ := h.represents.step h.inv hs
  refine ⟨a', hstep, ⟨hrep, hstep.inv h.inv, hstep.reads h.reads⟩, rfl, ?_⟩
  rw [← h.represents.view, ← hrep.view]
  rfl

/-- `Q` holds of the times and the record of every live periodic task. -/
def EachPeriodic (Q : ℕ → Timing → Life → Prop) (a : Sched) (n : ℕ) (life : Slot → Life) : Prop :=
  ∀ i, (a.task (.process i)).state ≠ .dead → (a.task (.process i)).priority = .periodic →
    Q n (a.task (.process i)).timing (life i)

theorem EachPeriodic.boot (Q : ℕ → Timing → Life → Prop) (create kernelIdle : BitVec 16)
    (life : Slot → Life) : EachPeriodic Q (Kernel.bootedSched create kernelIdle) 0 life := by
  intro i hi hp
  by_cases h0 : i = 0
  · subst h0
    cases hp
  · have hne : PDPtr.process i ≠ .process 0 := fun heq => h0 (PDPtr.process.inj heq)
    have htask : (Kernel.bootedSched create kernelIdle).task (.process i) =
        (Kernel.initialSched kernelIdle).task (.process i) := by
      have hrun := Sched.setState_other hne (Kernel.createdSched create kernelIdle) .running
      exact hrun.trans (Function.update_of_ne hne _ _)
    rw [htask] at hi
    exact absurd rfl hi

/-- The record of a process that is alive after a step. -/
theorem Follows.life_eq {a a' : Sched} {e : Entry} {w' : Watched} {i : Slot}
    (hlife : w'.life = chronicle a.view a'.view e (w.ticksAfter e) w.life)
    (hi : (a'.task (.process i)).state ≠ .dead) :
    ∃ r, w'.life i = (a.record e (w.ticksAfter e) (w.life i) i).observe (w.ticksAfter e) r := by
  have halive : a'.view.alive i = true := by simpa [Sched.view] using hi
  rw [hlife, chronicle, if_pos halive]
  exact ⟨_, rfl⟩

/-- The kernel follows the policy, and `Q` holds of every live periodic task. -/
def Keeps (Q : ℕ → Timing → Life → Prop) (w : Watched) : Prop :=
  ∃ a, w.Follows a ∧ EachPeriodic Q a w.ticks w.life

theorem Initial.keeps {Q : ℕ → Timing → Life → Prop} (h : w₀.Initial) : w₀.Keeps Q := by
  obtain ⟨create, kernelIdle, hf, hticks, -⟩ := h.follows
  refine ⟨_, hf, ?_⟩
  rw [hticks]
  exact EachPeriodic.boot Q create kernelIdle _

/-- What the courses keep for each periodic task, every step keeps. -/
theorem Keeps.step {Q : ℕ → Timing → Life → Prop} {e : Entry} {w' : Watched} (h : w.Keeps Q)
    (hs : w.Step e w')
    (hcourse : ∀ a i t l' r, w.Follows a → Sched.Course a e i (w.ticksAfter e) (w.life i) t l' →
      t.priority = .periodic →
      ((a.task (.process i)).state ≠ .dead → (a.task (.process i)).priority = .periodic →
        Q w.ticks (a.task (.process i)).timing (w.life i)) →
      Q (w.ticksAfter e) t (l'.observe (w.ticksAfter e) r)) : w'.Keeps Q := by
  obtain ⟨a, hf, hQ⟩ := h
  obtain ⟨a', hstep, hf', hticks, hlife⟩ := hf.step hs
  refine ⟨a', hf', fun i hi hp => ?_⟩
  obtain ⟨r, hr⟩ := Follows.life_eq hlife hi
  rw [hticks, hr]
  exact hcourse a i _ _ r hf (hstep.course hf.inv hi hp) hp (hQ i)

/-- A live periodic task, seen from the kernel. -/
theorem Keeps.periodic {Q : ℕ → Timing → Life → Prop} {i : Slot} (h : w.Keeps Q)
    (hi : (w.kernel.pd (.process i)).state ≠ .dead)
    (hp : (w.kernel.pd (.process i)).priority = .periodic) :
    Q w.ticks (w.kernel.pd (.process i)).toTask.timing (w.life i) := by
  obtain ⟨a, hf, hQ⟩ := h
  rw [hf.represents.task]
  rw [hf.represents.state] at hi
  rw [hf.represents.priority] at hp
  exact hQ i hi hp

end Watched

end RoombaRtos
