import Mathlib.Data.Fin.Basic
import Mathlib.Data.List.FinRange
import Mathlib.Order.Interval.Finset.Fin
import RoombaRtos.Common
import RoombaRtos.Lib.Lockstep
import RoombaRtos.Lib.TimeTriggered

/-!
# The time-triggered scheduler of project 1

`Scheduler/Scheduler.cpp`: the tasks of the sketches `base.ino` and `remote.ino` are functions that
a table calls with given periods.  The main loop calls `Scheduler_Dispatch` and then sleeps for the
time that this returns.

* `Scheduler.startTask`, `Scheduler.dispatch` — the functions of the scheduler;
* `dispatch_cases` — what a dispatch does;
* `idle_exact` — the idle time is the time to the next release;
* `Board.Turns` — a turn of the main loop, with calls that take some time;
* `Board.on_time` — how late the calls of a task can be.

A callback is a value of any type `F`, with `none` for `NULL`.  The functions that are called do
not call the scheduler.
-/

namespace RoombaRtos.Project1

open Lockstep TimeTriggered

/-- `MAXTASKS`. -/
abbrev maxTasks : ℕ := 8

/-- An `int32_t` or an `uint32_t`. -/
abbrev Word32 := BitVec 32

structure Task (F : Type*) where
  period : Word32
  remainingTime : Word32
  isRunning : Bool
  callback : Option F

structure Scheduler (F : Type*) where
  tasks : Fin maxTasks → Task F
  lastRuntime : Word32
  /-- The static variable of `Scheduler_StartTask`. -/
  id : ℕ

namespace Scheduler

variable {F : Type*} {s : Scheduler F} {now elapsed : Word32} {i j : Fin maxTasks} {f : F}

/-- The variables of the file before `Scheduler_Init`. -/
def zero : Scheduler F :=
  { tasks := fun _ =>
      { period := 0
        remainingTime := 0
        isRunning := false
        callback := none }
    lastRuntime := 0
    id := 0 }

/-- `Scheduler_Init`. -/
def init (s : Scheduler F) (millis : Word32) : Scheduler F := { s with lastRuntime := millis }

/-- `Scheduler_StartTask`. -/
def startTask (s : Scheduler F) (delay period : Word) (task : Option F) : Scheduler F :=
  if h : s.id < maxTasks then
    { s with
      tasks := Function.update s.tasks ⟨s.id, h⟩
        { period := period.signExtend 32
          remainingTime := delay.signExtend 32
          isRunning := true
          callback := task }
      id := s.id + 1 }
  else s

/-! ### Dispatch -/

/-- The variables of the loop in `Scheduler_Dispatch`. -/
structure Pass (F : Type*) where
  tasks : Fin maxTasks → Task F
  t : Option F
  idleTime : Word32

/-- `min` on `uint32_t`. -/
def minU (a b : Word32) : Word32 := if a < b then a else b

/-- The body of the loop. -/
def visit (elapsed : Word32) (p : Pass F) (i : Fin maxTasks) : Pass F :=
  if (p.tasks i).isRunning then
    let remaining := (p.tasks i).remainingTime - elapsed
    if remaining.toInt ≤ 0 then
      match p.t with
      | none =>
        { tasks := Function.update p.tasks i
            { p.tasks i with remainingTime := remaining + (p.tasks i).period }
          t := (p.tasks i).callback
          idleTime := 0 }
      | some f =>
        { tasks := Function.update p.tasks i { p.tasks i with remainingTime := remaining }
          t := some f
          idleTime := 0 }
    else
      { tasks := Function.update p.tasks i { p.tasks i with remainingTime := remaining }
        t := p.t
        idleTime := minU remaining p.idleTime }
  else p

/-- What a dispatch leaves: the scheduler, the function that is called, the idle time returned. -/
structure Dispatched (F : Type*) where
  scheduler : Scheduler F
  called : Option F
  idleTime : Word32

/-- `Scheduler_Dispatch`, with what `millis` returns. -/
def dispatch (s : Scheduler F) (now : Word32) : Dispatched F :=
  let elapsed := now - s.lastRuntime
  let p := (List.finRange maxTasks).foldl (visit elapsed)
    { tasks := s.tasks
      t := none
      idleTime := 0xFFFFFFFF }
  { scheduler := { s with tasks := p.tasks, lastRuntime := now }
    called := p.t
    idleTime := p.idleTime }

@[simp] theorem dispatch_lastRuntime : (s.dispatch now).scheduler.lastRuntime = now := rfl

/-! ### A pass over the tasks -/

/-- The task after `elapsed`. -/
def aged (elapsed : Word32) (t : Task F) : Task F :=
  if t.isRunning then { t with remainingTime := t.remainingTime - elapsed } else t

/-- A task after its function was chosen for a call. -/
def served (elapsed : Word32) (t : Task F) : Task F :=
  { t with remainingTime := t.remainingTime - elapsed + t.period }

/-- The release of a task has come. -/
def Due (elapsed : Word32) (t : Task F) : Prop :=
  t.isRunning = true ∧ (t.remainingTime - elapsed).toInt ≤ 0

instance (elapsed : Word32) (t : Task F) : Decidable (Due elapsed t) :=
  inferInstanceAs (Decidable (_ ∧ _))

/-- The time to the next release. -/
def untilNext (elapsed : Word32) (t : Task F) : Word32 :=
  if (t.remainingTime - elapsed).toInt ≤ 0 then 0 else t.remainingTime - elapsed

theorem visit_tasks_of_ne (p : Pass F) (h : j ≠ i) :
    (visit elapsed p i).tasks j = p.tasks j := by
  simp only [visit]
  split_ifs
  · cases p.t <;> exact Function.update_of_ne h _ _
  · exact Function.update_of_ne h _ _
  · rfl

/-- A task that is not due, or comes after one that is due. -/
theorem visit_aged (p : Pass F) (h : ¬ Due elapsed (p.tasks i) ∨ p.t.isSome = true) :
    (visit elapsed p i).tasks i = aged elapsed (p.tasks i) ∧ (visit elapsed p i).t = p.t := by
  cases hr : (p.tasks i).isRunning with
  | false => simp only [visit, aged, hr, Bool.false_eq_true, if_false, and_self]
  | true =>
    by_cases hd : ((p.tasks i).remainingTime - elapsed).toInt ≤ 0
    · obtain ⟨f, hf⟩ := Option.isSome_iff_exists.1 (h.resolve_left (not_not_intro ⟨hr, hd⟩))
      simp only [visit, aged, hr, if_true, if_pos hd, hf, Function.update_self, and_self]
    · simp only [visit, aged, hr, if_true, if_neg hd, Function.update_self, and_self]

/-- The first task that is due. -/
theorem visit_due (p : Pass F) (hd : Due elapsed (p.tasks i)) (ht : p.t = none) :
    (visit elapsed p i).tasks i = served elapsed (p.tasks i) ∧
      (visit elapsed p i).t = (p.tasks i).callback := by
  simp only [visit, served, hd.1, if_true, if_pos hd.2, ht, Function.update_self, and_self]

theorem minU_toNat (a b : Word32) : (minU a b).toNat = min a.toNat b.toNat := by
  unfold minU
  simp only [BitVec.lt_def]
  split_ifs <;> omega

theorem visit_idleTime (elapsed : Word32) (p : Pass F) (i : Fin maxTasks) :
    (visit elapsed p i).idleTime.toNat =
      if (p.tasks i).isRunning then
        min (untilNext elapsed (p.tasks i)).toNat p.idleTime.toNat
      else p.idleTime.toNat := by
  simp only [visit, untilNext]
  split_ifs
  · cases p.t <;> simp
  · exact minU_toNat _ _
  · rfl

/-- The loop over the tasks `l`. -/
def loop (elapsed : Word32) (p : Pass F) (l : List (Fin maxTasks)) : Pass F :=
  l.foldl (visit elapsed) p

@[simp] theorem loop_cons (p : Pass F) (i : Fin maxTasks) (l : List (Fin maxTasks)) :
    loop elapsed p (i :: l) = loop elapsed (visit elapsed p i) l := rfl

theorem loop_append (p : Pass F) (l l' : List (Fin maxTasks)) :
    loop elapsed p (l ++ l') = loop elapsed (loop elapsed p l) l' :=
  List.foldl_append

theorem loop_tasks_of_notMem {l : List (Fin maxTasks)} (hj : j ∉ l) (p : Pass F) :
    (loop elapsed p l).tasks j = p.tasks j := by
  induction l generalizing p with
  | nil => rfl
  | cons i l ih =>
    obtain ⟨hne, hl⟩ := not_or.1 (mt List.mem_cons.2 hj)
    rw [loop_cons, ih hl, visit_tasks_of_ne p hne]

/-- Tasks that are not due, or come after one that is due. -/
theorem loop_aged (elapsed : Word32) {l : List (Fin maxTasks)} (hl : l.Nodup) {p : Pass F}
    (h : (∀ j ∈ l, ¬ Due elapsed (p.tasks j)) ∨ p.t.isSome = true) :
    (∀ j ∈ l, (loop elapsed p l).tasks j = aged elapsed (p.tasks j)) ∧
      (loop elapsed p l).t = p.t := by
  induction l generalizing p with
  | nil => exact ⟨fun j hj => absurd hj List.not_mem_nil, rfl⟩
  | cons i l ih =>
    obtain ⟨hi, hl⟩ := List.nodup_cons.1 hl
    have hne : ∀ j ∈ l, j ≠ i := fun j hj hji => hi (hji ▸ hj)
    obtain ⟨htask, ht⟩ := visit_aged p (h.imp_left fun h => h i List.mem_cons_self)
    have hrest : (∀ j ∈ l, ¬ Due elapsed ((visit elapsed p i).tasks j)) ∨
        (visit elapsed p i).t.isSome = true := by
      rw [ht]
      refine h.imp_left fun h j hj => ?_
      rw [visit_tasks_of_ne p (hne j hj)]
      exact h j (List.mem_cons_of_mem i hj)
    obtain ⟨htasks, ht'⟩ := ih hl hrest
    refine ⟨fun j hj => ?_, ?_⟩
    · rw [loop_cons]
      rcases List.mem_cons.1 hj with heq | hj
      · rw [heq, loop_tasks_of_notMem hi, htask]
      · rw [htasks j hj, visit_tasks_of_ne p (hne j hj)]
    · rw [loop_cons, ht', ht]

/-- The idle time is the least of the times to the next releases. -/
structure LeastIdle (elapsed : Word32) (tasks : Fin maxTasks → Task F) (l : List (Fin maxTasks))
    (w w' : Word32) : Prop where
  le : w'.toNat ≤ w.toNat
  le_untilNext : ∀ j ∈ l, (tasks j).isRunning = true →
    w'.toNat ≤ (untilNext elapsed (tasks j)).toNat
  attained : w'.toNat = w.toNat ∨ ∃ j ∈ l, (tasks j).isRunning = true ∧
    w'.toNat = (untilNext elapsed (tasks j)).toNat

theorem loop_idleTime {l : List (Fin maxTasks)} (hl : l.Nodup) (p : Pass F) :
    LeastIdle elapsed p.tasks l p.idleTime (loop elapsed p l).idleTime := by
  induction l generalizing p with
  | nil => exact ⟨le_rfl, fun j hj => absurd hj List.not_mem_nil, Or.inl rfl⟩
  | cons i l ih =>
    obtain ⟨hi, hl⟩ := List.nodup_cons.1 hl
    have hsame : ∀ j ∈ l, (visit elapsed p i).tasks j = p.tasks j := fun j hj =>
      visit_tasks_of_ne p fun hji => hi (hji ▸ hj)
    obtain ⟨hle, hnext, hatt⟩ := ih hl (visit elapsed p i)
    have hvisit := visit_idleTime elapsed p i
    rw [loop_cons]
    refine ⟨?_, fun j hj hr => ?_, ?_⟩
    · split_ifs at hvisit <;> omega
    · rcases List.mem_cons.1 hj with heq | hj
      · subst heq
        rw [if_pos hr] at hvisit
        omega
      · have hn := hnext j hj
        rw [hsame j hj] at hn
        exact hn hr
    · rcases hatt with heq | ⟨j, hj, hr, heq⟩
      · rw [hvisit] at heq
        split_ifs at heq with hr
        · rcases min_choice (untilNext elapsed (p.tasks i)).toNat p.idleTime.toNat with hm | hm
          · exact Or.inr ⟨i, List.mem_cons_self, hr, heq.trans hm⟩
          · exact Or.inl (heq.trans hm)
        · exact Or.inl heq
      · rw [hsame j hj] at hr heq
        exact Or.inr ⟨j, List.mem_cons_of_mem i hj, hr, heq⟩

/-! ### What a dispatch does -/

theorem dispatch_eq (s : Scheduler F) (now : Word32) (p : Pass F)
    (hp : loop (now - s.lastRuntime) ⟨s.tasks, none, 0xFFFFFFFF⟩ (List.finRange maxTasks) = p) :
    s.dispatch now = ⟨{ s with tasks := p.tasks, lastRuntime := now }, p.t, p.idleTime⟩ := by
  subst hp
  rfl

/-- **Nothing is due.**  No function is called. -/
theorem dispatch_quiet (h : ∀ j, ¬ Due (now - s.lastRuntime) (s.tasks j)) :
    (s.dispatch now).called = none ∧
      ∀ j, (s.dispatch now).scheduler.tasks j = aged (now - s.lastRuntime) (s.tasks j) := by
  obtain ⟨htasks, ht⟩ := loop_aged (now - s.lastRuntime)
    (p := ⟨s.tasks, none, 0xFFFFFFFF⟩) (List.nodup_finRange maxTasks)
    (Or.inl fun j _ => h j)
  exact ⟨ht, fun j => htasks j (List.mem_finRange j)⟩

/-- **Something is due.**  The function of the first such task is called, and its countdown is moved
one period on. -/
theorem dispatch_due (hi : Due (now - s.lastRuntime) (s.tasks i))
    (hfirst : ∀ j < i, ¬ Due (now - s.lastRuntime) (s.tasks j))
    (hf : (s.tasks i).callback = some f) :
    (s.dispatch now).called = some f ∧
      ∀ j, (s.dispatch now).scheduler.tasks j =
        if j = i then served (now - s.lastRuntime) (s.tasks j)
        else aged (now - s.lastRuntime) (s.tasks j) := by
  set elapsed := now - s.lastRuntime with helapsed
  set p₀ : Pass F := ⟨s.tasks, none, 0xFFFFFFFF⟩ with hp₀
  obtain ⟨l₁, l₂, hl⟩ := List.append_of_mem (List.mem_finRange i)
  have hsorted := List.pairwise_lt_finRange maxTasks
  rw [hl, List.pairwise_append, List.pairwise_cons] at hsorted
  obtain ⟨hs₁, ⟨hgt, hs₂⟩, hlt⟩ := hsorted
  have hlt : ∀ j ∈ l₁, j < i := fun j hj => hlt j hj i List.mem_cons_self
  have hi₁ : i ∉ l₁ := fun h => lt_irrefl i (hlt i h)
  have hi₂ : i ∉ l₂ := fun h => lt_irrefl i (hgt i h)
  have h₁₂ : ∀ j ∈ l₁, j ∉ l₂ := fun j h₁ h₂ => lt_asymm (hlt j h₁) (hgt j h₂)
  -- Up to the task nothing is due, and after it nothing is chosen.
  obtain ⟨htasks₁, ht₁⟩ := loop_aged elapsed (p := p₀) (hs₁.imp ne_of_lt)
    (Or.inl fun j hj => hfirst j (hlt j hj))
  set p₁ := loop elapsed p₀ l₁ with hp₁
  have htask : p₁.tasks i = s.tasks i := loop_tasks_of_notMem hi₁ p₀
  obtain ⟨htaski, hti⟩ := visit_due p₁ (by rwa [htask]) ht₁
  rw [htask, hf] at hti
  rw [htask] at htaski
  obtain ⟨htasks₂, ht₂⟩ := loop_aged elapsed (p := visit elapsed p₁ i)
    (hs₂.imp ne_of_lt) (Or.inr (by rw [hti]; rfl))
  have hloop : loop elapsed p₀ (List.finRange maxTasks) = loop elapsed (visit elapsed p₁ i) l₂ := by
    rw [hl, loop_append, loop_cons]
  rw [dispatch_eq s now _ hloop]
  refine ⟨ht₂.trans hti, fun j => ?_⟩
  have hmem : j ∈ l₁ ∨ j = i ∨ j ∈ l₂ := by
    have hj := List.mem_finRange j
    rw [hl] at hj
    simpa using hj
  rcases hmem with hj | hj | hj
  · rw [if_neg (hlt j hj).ne]
    show (loop elapsed (visit elapsed p₁ i) l₂).tasks j = _
    rw [loop_tasks_of_notMem (h₁₂ j hj), visit_tasks_of_ne p₁ (hlt j hj).ne, htasks₁ j hj]
  · subst hj
    rw [if_pos rfl]
    show (loop elapsed (visit elapsed p₁ j) l₂).tasks j = _
    rw [loop_tasks_of_notMem hi₂, htaski]
  · rw [if_neg (hgt j hj).ne']
    have h₁ : j ∉ l₁ := fun h => h₁₂ j h hj
    show (loop elapsed (visit elapsed p₁ i) l₂).tasks j = _
    rw [htasks₂ j hj, visit_tasks_of_ne p₁ (hgt j hj).ne', loop_tasks_of_notMem h₁]

theorem dispatch_idleTime (s : Scheduler F) (now : Word32) :
    LeastIdle (now - s.lastRuntime) s.tasks (List.finRange maxTasks) 0xFFFFFFFF
      (s.dispatch now).idleTime :=
  loop_idleTime (List.nodup_finRange maxTasks) ⟨s.tasks, none, 0xFFFFFFFF⟩

/-- A dispatch calls the function of the first task that is due, or none. -/
theorem dispatch_cases (now : Word32)
    (hcb : ∀ j, (s.tasks j).isRunning = true → (s.tasks j).callback.isSome = true) :
    (∃ i f, Due (now - s.lastRuntime) (s.tasks i) ∧
      (∀ j < i, ¬ Due (now - s.lastRuntime) (s.tasks j)) ∧ (s.tasks i).callback = some f ∧
      (s.dispatch now).called = some f ∧ ∀ j, (s.dispatch now).scheduler.tasks j =
        if j = i then served (now - s.lastRuntime) (s.tasks j)
        else aged (now - s.lastRuntime) (s.tasks j)) ∨
    ((∀ j, ¬ Due (now - s.lastRuntime) (s.tasks j)) ∧ (s.dispatch now).called = none ∧
      ∀ j, (s.dispatch now).scheduler.tasks j = aged (now - s.lastRuntime) (s.tasks j)) := by
  by_cases hdue : ∃ j, Due (now - s.lastRuntime) (s.tasks j)
  · left
    obtain ⟨i, hi, hmin⟩ := WellFounded.has_min (wellFounded_lt (α := Fin maxTasks))
      {j | Due (now - s.lastRuntime) (s.tasks j)} hdue
    obtain ⟨f, hf⟩ := Option.isSome_iff_exists.1 (hcb i hi.1)
    have hfirst : ∀ j < i, ¬ Due (now - s.lastRuntime) (s.tasks j) := fun j hj hd => hmin j hd hj
    exact ⟨i, f, hi, hfirst, hf, dispatch_due hi hfirst hf⟩
  · right
    have hnone := not_exists.1 hdue
    exact ⟨hnone, dispatch_quiet hnone⟩

@[simp] theorem aged_isRunning (t : Task F) : (aged elapsed t).isRunning = t.isRunning := by
  unfold aged
  split_ifs <;> rfl

@[simp] theorem aged_callback (t : Task F) : (aged elapsed t).callback = t.callback := by
  unfold aged
  split_ifs <;> rfl

@[simp] theorem served_isRunning (t : Task F) : (served elapsed t).isRunning = t.isRunning := rfl

@[simp] theorem served_callback (t : Task F) : (served elapsed t).callback = t.callback := rfl

theorem aged_remainingTime {t : Task F} (h : t.isRunning = true) :
    (aged elapsed t).remainingTime = t.remainingTime - elapsed := by
  unfold aged
  rw [if_pos h]

/-! ### The idle time -/

theorem called_isSome_iff
    (hcb : ∀ j, (s.tasks j).isRunning = true → (s.tasks j).callback.isSome = true) :
    (s.dispatch now).called.isSome = true ↔ ∃ j, Due (now - s.lastRuntime) (s.tasks j) := by
  rcases dispatch_cases now hcb with ⟨i, f, hi, -, -, hcall, -⟩ | ⟨hnone, hcall, -⟩
  · rw [hcall]
    exact iff_of_true rfl ⟨i, hi⟩
  · rw [hcall]
    exact iff_of_false Bool.false_ne_true fun ⟨j, hj⟩ => hnone j hj

theorem untilNext_eq_zero {t : Task F} :
    (untilNext elapsed t).toNat = 0 ↔ (t.remainingTime - elapsed).toInt ≤ 0 := by
  unfold untilNext
  split_ifs with hle
  · exact iff_of_true rfl hle
  · refine iff_of_false (fun h0 => hle ?_) hle
    rw [BitVec.eq_of_toNat_eq (y := 0) h0]
    exact le_rfl

/-- The dispatch returns `0` if it finds a task that is due, and only then. -/
theorem idleTime_eq_zero_iff :
    (s.dispatch now).idleTime = 0 ↔ ∃ j, Due (now - s.lastRuntime) (s.tasks j) := by
  obtain ⟨-, hnext, hatt⟩ := dispatch_idleTime s now
  constructor
  · intro h0
    rw [h0] at hatt
    rcases hatt with hatt | ⟨j, -, hr, hatt⟩
    · exact absurd hatt (by decide)
    · exact ⟨j, hr, untilNext_eq_zero.1 hatt.symm⟩
  · rintro ⟨j, hr, hle⟩
    have hj := hnext j (List.mem_finRange j) hr
    rw [untilNext_eq_zero.2 hle] at hj
    exact BitVec.eq_of_toNat_eq (Nat.le_zero.1 hj)

theorem elapsed_after (s : Scheduler F) (now : Word32) (k : ℕ) :
    now + BitVec.ofNat 32 k - (s.dispatch now).scheduler.lastRuntime = BitVec.ofNat 32 k := by
  rw [dispatch_lastRuntime, BitVec.add_comm, BitVec.add_sub_cancel]

/-- What is left of a countdown `x` that has not run off. -/
theorem toInt_sub_le_zero_iff {x : Word32} (hx : 0 < x.toInt) {k : ℕ} (hk : k < 2 ^ 31) :
    (x - BitVec.ofNat 32 k).toInt ≤ 0 ↔ x.toNat ≤ k := by
  have hlt := x.isLt
  have hnat : x.toInt = x.toNat := by
    rw [BitVec.toInt_eq_toNat_cond] at hx ⊢
    split_ifs at hx ⊢ <;> omega
  have hmax : x.toInt < 2 ^ 31 := BitVec.toInt_lt
  have hkt : (BitVec.ofNat 32 k).toInt = k := by
    rw [BitVec.toInt_eq_toNat_cond, BitVec.toNat_ofNat, Nat.mod_eq_of_lt (by omega),
      if_pos (by omega)]
  rw [BitVec.toInt_sub, hnat, hkt, Int.bmod_eq_of_le (by omega) (by omega)]
  omega

/-- **The idle time is exact.**  A dispatch returns `0` exactly if it has called a function.
Otherwise a dispatch before the time returned has run off calls nothing, and one just then does. -/
theorem idle_exact (s : Scheduler F) (now : Word32)
    (hcb : ∀ j, (s.tasks j).isRunning = true → (s.tasks j).callback.isSome = true)
    (hrun : ∃ j, (s.tasks j).isRunning = true) :
    ((s.dispatch now).idleTime = 0 ↔ (s.dispatch now).called.isSome = true) ∧
      ((s.dispatch now).idleTime ≠ 0 →
        (∀ k < (s.dispatch now).idleTime.toNat,
          ((s.dispatch now).scheduler.dispatch (now + BitVec.ofNat 32 k)).called = none) ∧
        ((s.dispatch now).scheduler.dispatch
          (now + (s.dispatch now).idleTime)).called.isSome = true) := by
  refine ⟨idleTime_eq_zero_iff.trans (called_isSome_iff hcb).symm, fun hne => ?_⟩
  have hquiet : ∀ j, ¬ Due (now - s.lastRuntime) (s.tasks j) :=
    not_exists.1 (mt idleTime_eq_zero_iff.2 hne)
  obtain ⟨-, htasks⟩ := dispatch_quiet hquiet
  obtain ⟨-, hnext, hatt⟩ := dispatch_idleTime s now
  set d := s.dispatch now with hd
  set elapsed := now - s.lastRuntime with helapsed
  have hcb' : ∀ j, (d.scheduler.tasks j).isRunning = true →
      (d.scheduler.tasks j).callback.isSome = true := fun j hr => by
    rw [htasks, aged_isRunning] at hr
    rw [htasks, aged_callback]
    exact hcb j hr
  -- The countdowns that are left, and the idle time below them.
  have hpos : ∀ j, (s.tasks j).isRunning = true →
      0 < ((s.tasks j).remainingTime - elapsed).toInt := fun j hr =>
    lt_of_not_ge fun hle => hquiet j ⟨hr, hle⟩
  have huntil : ∀ j, (s.tasks j).isRunning = true →
      untilNext elapsed (s.tasks j) = (s.tasks j).remainingTime - elapsed := fun j hr =>
    if_neg (not_le.2 (hpos j hr))
  have hmax : ∀ j, (s.tasks j).isRunning = true →
      ((s.tasks j).remainingTime - elapsed).toNat < 2 ^ 31 := fun j hr => by
    have hj := hpos j hr
    rw [BitVec.toInt_eq_toNat_cond] at hj
    split_ifs at hj <;> omega
  have hw : d.idleTime.toNat < 2 ^ 31 := by
    obtain ⟨j, hr⟩ := hrun
    have hj := hnext j (List.mem_finRange j) hr
    rw [huntil j hr] at hj
    exact lt_of_le_of_lt hj (hmax j hr)
  have hdue : ∀ (k : ℕ) (j : Fin maxTasks), k < 2 ^ 31 → (s.tasks j).isRunning = true →
      (Due (BitVec.ofNat 32 k) (d.scheduler.tasks j) ↔
        ((s.tasks j).remainingTime - elapsed).toNat ≤ k) := fun k j hk hr => by
    rw [htasks, Due, aged_isRunning, aged_remainingTime hr, toInt_sub_le_zero_iff (hpos j hr) hk]
    exact and_iff_right hr
  constructor
  · intro k hk
    have hnone : ∀ j, ¬ Due (BitVec.ofNat 32 k) (d.scheduler.tasks j) := fun j hj => by
      have hr : (s.tasks j).isRunning = true := by
        have hr := hj.1
        rwa [htasks, aged_isRunning] at hr
      have hle := (hdue k j (by omega) hr).1 hj
      have hjn := hnext j (List.mem_finRange j) hr
      rw [huntil j hr] at hjn
      omega
    rw [← elapsed_after s now k] at hnone
    exact (dispatch_quiet hnone).1
  · have hsome : ∃ j, Due (BitVec.ofNat 32 d.idleTime.toNat) (d.scheduler.tasks j) := by
      rcases hatt with hatt | ⟨j, -, hr, hatt⟩
      · rw [hatt] at hw
        exact absurd hw (by decide)
      · rw [huntil j hr] at hatt
        exact ⟨j, (hdue _ j hw hr).2 hatt.ge⟩
    rw [← elapsed_after s now] at hsome
    have hcalled := (called_isSome_iff hcb').2 hsome
    rwa [BitVec.ofNat_toNat, BitVec.setWidth_eq] at hcalled

/-- One task, to be called 3 ms after the start. -/
def alone : Scheduler Unit := zero.startTask 3 50 (some ())

theorem idle_exact_alone :
    (alone.dispatch 1).idleTime = 2 ∧
      ((alone.dispatch 1).scheduler.dispatch 3).called.isSome = true :=
  ⟨by decide, ((idle_exact alone 1 (by decide) ⟨0, by decide⟩).2 (by decide)).2⟩

end Scheduler

/-! ### The main loop -/

/-- The arguments of a call of `Scheduler_StartTask`. -/
structure TaskArgs (F : Type*) where
  delay : Word
  period : Word
  task : F

/-- The sketch between two turns of the main loop. -/
structure Board (F : Type*) where
  scheduler : Scheduler F
  /-- The time since the board was started, in milliseconds. -/
  clock : ℕ
  /-- What the last dispatch returned. -/
  idlePeriod : Word32

/-- A turn of the main loop: the time since the last dispatch, and the function that is called. -/
structure Turn (F : Type*) where
  gap : ℕ
  called : Option F

namespace Board

open Scheduler

variable {F : Type*} {b b' : Board F} {e : Turn F} {es : List (Turn F)} {args : List (TaskArgs F)}
  {g start : ℕ}

/-- The calls of `Scheduler_StartTask` in `setup`. -/
def startTasks (s : Scheduler F) (args : List (TaskArgs F)) : Scheduler F :=
  args.foldl (fun s a => s.startTask a.delay a.period (some a.task)) s

/-- `setup`, with the time at which it runs. -/
def setup (start : ℕ) (args : List (TaskArgs F)) : Board F :=
  { scheduler := startTasks (zero.init (BitVec.ofNat 32 start)) args
    clock := start
    idlePeriod := 0 }

/-- A turn of `loop`.  The sketch sleeps for the idle time, and what it does besides, which is to
run the function that was called, takes at most `g`. -/
def Turns (g : ℕ) (b : Board F) (e : Turn F) (b' : Board F) : Prop :=
  e.gap ≤ b.idlePeriod.toNat + g ∧
    e.called = (b.scheduler.dispatch (BitVec.ofNat 32 (b.clock + e.gap))).called ∧
    b' =
      { scheduler := (b.scheduler.dispatch (BitVec.ofNat 32 (b.clock + e.gap))).scheduler
        clock := b.clock + e.gap
        idlePeriod := (b.scheduler.dispatch (BitVec.ofNat 32 (b.clock + e.gap))).idleTime }

/-- How often a function has been called. -/
def calls [DecidableEq F] (f : F) (es : List (Turn F)) : ℕ := es.countP fun e => e.called = some f

/-- The time from `setup` to the release of the call number `n` of a task. -/
def release (a : TaskArgs F) (n : ℕ) : ℤ := a.delay.toInt + n * a.period.toInt

/-- The time to the next release of a task. -/
def slack [DecidableEq F] (start : ℕ) (es : List (Turn F)) (clock : ℕ) (a : TaskArgs F) : ℤ :=
  start + release a (calls a.task es) - clock

/-- A task of the table. -/
def entry (a : TaskArgs F) (remaining : ℤ) : Task F :=
  { period := a.period.signExtend 32
    remainingTime := BitVec.ofInt 32 remaining
    isRunning := true
    callback := some a.task }

theorem startTasks_append (s : Scheduler F) (a : TaskArgs F) :
    startTasks s (args ++ [a]) = (startTasks s args).startTask a.delay a.period (some a.task) :=
  List.foldl_append

/-- The tasks started stand in the table one after the other. -/
theorem startTasks_spec (start : ℕ) (hlen : args.length ≤ maxTasks) :
    (startTasks ((zero (F := F)).init (BitVec.ofNat 32 start)) args).id = args.length ∧
      (startTasks ((zero (F := F)).init (BitVec.ofNat 32 start)) args).lastRuntime =
        BitVec.ofNat 32 start ∧
      ∀ j : Fin maxTasks, (startTasks ((zero (F := F)).init (BitVec.ofNat 32 start)) args).tasks j =
        if h : j.val < args.length then
          entry (args.get ⟨j.val, h⟩) (args.get ⟨j.val, h⟩).delay.toInt
        else (zero (F := F)).tasks j := by
  induction args using List.reverseRecOn with
  | nil => exact ⟨rfl, rfl, fun j => rfl⟩
  | append_singleton args a ih =>
    have hlt : args.length < maxTasks := by
      rw [List.length_append, List.length_singleton] at hlen
      omega
    obtain ⟨hid, hlast, htasks⟩ := ih hlt.le
    rw [startTasks_append, startTask, hid, dif_pos hlt]
    refine ⟨by simp, hlast, fun j => ?_⟩
    show Function.update _ _ _ j = _
    by_cases hj : j = ⟨args.length, hlt⟩
    · subst hj
      simp [entry, BitVec.signExtend]
    · have hne : j.val ≠ args.length := fun h => hj (Fin.ext h)
      rw [Function.update_of_ne hj, htasks]
      by_cases hlt' : j.val < args.length
      · have happ : j.val < (args ++ [a]).length := by simp; omega
        rw [dif_pos hlt', dif_pos happ]
        simp [List.getElem_append_left hlt']
      · have happ : ¬ j.val < (args ++ [a]).length := by simp; omega
        rw [dif_neg hlt', dif_neg happ]

theorem ofInt_sub_ofNat (x : ℤ) (d : ℕ) :
    BitVec.ofInt 32 x - BitVec.ofNat 32 d = BitVec.ofInt 32 (x - d) := by
  rw [sub_eq_add_neg x, BitVec.ofInt_add, BitVec.ofInt_neg, BitVec.ofInt_natCast,
    BitVec.sub_eq_add_neg]

theorem aged_entry (a : TaskArgs F) (x : ℤ) (d : ℕ) :
    aged (BitVec.ofNat 32 d) (entry a x) = entry a (x - d) := by
  simp [aged, entry, ofInt_sub_ofNat]

theorem served_entry (a : TaskArgs F) (x : ℤ) (d : ℕ) :
    served (BitVec.ofNat 32 d) (entry a x) = entry a (x - d + a.period.toInt) := by
  simp [served, entry, ofInt_sub_ofNat, BitVec.ofInt_add, BitVec.signExtend]

theorem due_entry (a : TaskArgs F) (x : ℤ) (d : ℕ) :
    Due (BitVec.ofNat 32 d) (entry a x) ↔ (BitVec.ofInt 32 (x - d)).toInt ≤ 0 := by
  rw [← ofInt_sub_ofNat]
  exact and_iff_right rfl

/-- The idle time that a task allows. -/
theorem untilNext_entry (a : TaskArgs F) {x : ℤ} {d : ℕ}
    (h : (BitVec.ofInt 32 (x - d)).toInt = x - d) :
    ((untilNext (BitVec.ofNat 32 d) (entry a x)).toNat : ℤ) = max 0 (x - d) := by
  have hsub : (entry a x).remainingTime - BitVec.ofNat 32 d = BitVec.ofInt 32 (x - d) :=
    ofInt_sub_ofNat x d
  unfold untilNext
  rw [hsub, h]
  split_ifs with hle
  · rw [max_eq_left hle]
    rfl
  · rw [max_eq_right (by omega), ← BitVec.toInt_eq_toNat_of_msb, h]
    rw [← Bool.not_eq_true, BitVec.msb_eq_toInt, h]
    simpa using (by omega : 0 ≤ x - d)

theorem get_task_inj (hnodup : (args.map TaskArgs.task).Nodup) {i j : Fin args.length}
    (h : (args.get i).task = (args.get j).task) : i = j :=
  hnodup.of_map.get_inj_iff.1
    (List.inj_on_of_nodup_map hnodup (List.get_mem args i) (List.get_mem args j) h)

/-- A slot of the table is unused or holds one of the tasks. -/
theorem slot_cases (hlen : args.length ≤ maxTasks) (i : Fin maxTasks) :
    args.length ≤ i ∨ ∃ j : Fin args.length, i = Fin.castLE hlen j := by
  by_cases h : i.val < args.length
  · exact Or.inr ⟨⟨i, h⟩, rfl⟩
  · exact Or.inl (by omega)

/-! ### Accounts -/

/-- The table after a run: the countdown of each task is the time to its next release, as far as 32
bits can hold it. -/
structure Accounts [DecidableEq F] (args : List (TaskArgs F)) (hlen : args.length ≤ maxTasks)
    (start : ℕ) (es : List (Turn F)) (b : Board F) : Prop where
  lastRuntime : b.scheduler.lastRuntime = BitVec.ofNat 32 b.clock
  started : ∀ j, b.scheduler.tasks (Fin.castLE hlen j) =
    entry (args.get j) (slack start es b.clock (args.get j))
  unused : ∀ j : Fin maxTasks, args.length ≤ j → (b.scheduler.tasks j).isRunning = false

variable [DecidableEq F] {hlen : args.length ≤ maxTasks}

theorem setup_accounts (hlen : args.length ≤ maxTasks) (start : ℕ) :
    Accounts args hlen start [] (setup start args) := by
  obtain ⟨-, hlast, htasks⟩ := startTasks_spec (F := F) start hlen
  refine ⟨hlast, fun j => ?_, fun j hj => ?_⟩
  · show (startTasks _ args).tasks _ = _
    rw [htasks, dif_pos (show (Fin.castLE hlen j).val < args.length from j.isLt)]
    have hslack : slack start [] (setup start args).clock (args.get j) =
        (args.get j).delay.toInt := by
      simp [slack, release, calls, setup]
    rw [hslack]
    rfl
  · show ((startTasks _ args).tasks _).isRunning = _
    rw [htasks, dif_neg (by omega)]
    rfl

theorem Accounts.isSome (h : Accounts args hlen start es b) (i : Fin maxTasks)
    (hr : (b.scheduler.tasks i).isRunning = true) :
    (b.scheduler.tasks i).callback.isSome = true := by
  rcases slot_cases hlen i with hi | ⟨j, rfl⟩
  · rw [h.unused i hi] at hr
    cases hr
  · rw [h.started j]
    rfl

theorem Accounts.elapsed_eq (h : Accounts args hlen start es b) (d : ℕ) :
    BitVec.ofNat 32 (b.clock + d) - b.scheduler.lastRuntime = BitVec.ofNat 32 d := by
  rw [h.lastRuntime, BitVec.ofNat_add, BitVec.add_comm, BitVec.add_sub_cancel]

theorem calls_append_singleton (f : F) (es : List (Turn F)) (e : Turn F) :
    calls f (es ++ [e]) = calls f es + if e.called = some f then 1 else 0 := by
  simp [calls, List.countP_append, List.countP_singleton]

/-- The time to the next release after one more turn. -/
theorem slack_append (es : List (Turn F)) (clock : ℕ) (a : TaskArgs F) :
    slack start (es ++ [e]) (clock + e.gap) a =
      slack start es clock a - e.gap + if e.called = some a.task then a.period.toInt else 0 := by
  unfold slack release
  rw [calls_append_singleton]
  split_ifs
  · push_cast
    linarith
  · push_cast
    linarith

/-- **A turn.**  The first task whose countdown has run off is called, or none. -/
theorem Accounts.turn_cases (h : Accounts args hlen start es b) (ht : Turns g b e b') :
    (∃ i : Fin args.length, e.called = some (args.get i).task ∧
      (BitVec.ofInt 32 (slack start es b.clock (args.get i) - e.gap)).toInt ≤ 0 ∧
      (∀ j < i, 0 < (BitVec.ofInt 32 (slack start es b.clock (args.get j) - e.gap)).toInt) ∧
      ∀ j, b'.scheduler.tasks j = if j = Fin.castLE hlen i then
        served (BitVec.ofNat 32 e.gap) (b.scheduler.tasks j)
        else aged (BitVec.ofNat 32 e.gap) (b.scheduler.tasks j)) ∨
    (e.called = none ∧
      (∀ j, 0 < (BitVec.ofInt 32 (slack start es b.clock (args.get j) - e.gap)).toInt) ∧
      ∀ j, b'.scheduler.tasks j = aged (BitVec.ofNat 32 e.gap) (b.scheduler.tasks j)) := by
  obtain ⟨-, hcalled, hb'⟩ := ht
  have helapsed := h.elapsed_eq e.gap
  have hdue : ∀ j : Fin args.length, Due (BitVec.ofNat 32 e.gap)
      (b.scheduler.tasks (Fin.castLE hlen j)) ↔
        (BitVec.ofInt 32 (slack start es b.clock (args.get j) - e.gap)).toInt ≤ 0 := fun j => by
    rw [h.started j, due_entry]
  rcases dispatch_cases (BitVec.ofNat 32 (b.clock + e.gap)) h.isSome with
    ⟨i, f, hi, hfirst, hf, hcall, htasks⟩ | ⟨hnone, hcall, htasks⟩
  · rw [helapsed] at hi hfirst htasks
    left
    rcases slot_cases hlen i with hun | ⟨j, rfl⟩
    · rw [Due, h.unused i hun] at hi
      exact absurd hi.1 Bool.false_ne_true
    · rw [h.started j] at hf
      refine ⟨j, hcalled.trans (hcall.trans hf.symm), (hdue j).1 hi, fun k hk => ?_, ?_⟩
      · exact lt_of_not_ge (mt (hdue k).2 (hfirst _ hk))
      · rw [hb']
        exact htasks
  · rw [helapsed] at hnone htasks
    right
    refine ⟨hcalled.trans hcall, fun j => lt_of_not_ge (mt (hdue j).2 (hnone _)), ?_⟩
    rw [hb']
    exact htasks

/-- **Accounts are kept** by every turn, however long it takes. -/
theorem Accounts.turn (hnodup : (args.map TaskArgs.task).Nodup)
    (h : Accounts args hlen start es b) (ht : Turns g b e b') :
    Accounts args hlen start (es ++ [e]) b' := by
  have hclock : b'.clock = b.clock + e.gap := by rw [ht.2.2]
  have hlast : b'.scheduler.lastRuntime = BitVec.ofNat 32 b'.clock := by
    rw [hclock, ht.2.2]
    rfl
  rcases h.turn_cases ht with ⟨i, hcalled, -, -, htasks⟩ | ⟨hcalled, -, htasks⟩
  · refine ⟨hlast, fun j => ?_, fun j hj => ?_⟩
    · rw [htasks, h.started j, hclock, slack_append, hcalled]
      by_cases hji : j = i
      · subst hji
        rw [if_pos rfl, if_pos rfl, served_entry]
      · have hne : Fin.castLE hlen j ≠ Fin.castLE hlen i := fun heq =>
          hji (Fin.castLE_injective hlen heq)
        have htask : (args.get i).task ≠ (args.get j).task := fun heq =>
          hji (get_task_inj hnodup heq).symm
        rw [if_neg hne, if_neg (fun heq => htask (Option.some.inj heq)), aged_entry, add_zero]
    · rw [htasks]
      split_ifs
      · exact h.unused j hj
      · rw [aged_isRunning]
        exact h.unused j hj
  · refine ⟨hlast, fun j => ?_, fun j hj => ?_⟩
    · rw [htasks, h.started j, hclock, slack_append, hcalled, aged_entry]
      simp
    · rw [htasks, aged_isRunning]
      exact h.unused j hj

/-! ### Lateness -/

/-- The tasks down to `i`, which no task after `i` can delay except by one call at a time. -/
abbrev UpTo {n : ℕ} (i : Fin n) := ↥(Finset.Iic i)

theorem card_upTo {n : ℕ} (i : Fin n) : Fintype.card (UpTo i) = i + 1 := by
  rw [Fintype.card_coe, Fin.card_Iic]

/-- The periods down to `i` leave room for one call of each of the tasks. -/
def Roomy (args : List (TaskArgs F)) (g : ℕ) (i : Fin args.length) : Prop :=
  ∀ j ≤ i, 0 ≤ (args.get j).delay.toInt ∧ ((i + 1) * g : ℤ) < (args.get j).period.toInt

/-- What the turns keep, down to the task `i`. -/
structure Timely (args : List (TaskArgs F)) (hlen : args.length ≤ maxTasks) (g start : ℕ)
    (i : Fin args.length) (es : List (Turn F)) (b : Board F) : Prop where
  accounts : Accounts args hlen start es b
  busy : Busy (fun j : UpTo i => (args.get j).period.toInt) g
    (fun j : UpTo i => slack start es b.clock (args.get j))
  lt : ∀ j ≤ i, slack start es b.clock (args.get j) < 2 ^ 15
  idle : b.idlePeriod.toNat = 0 ∨
    ∀ j ≤ i, (b.idlePeriod.toNat : ℤ) ≤ slack start es b.clock (args.get j)

variable {i : Fin args.length}

theorem toInt_lt_word (x : Word) : x.toInt < 2 ^ 15 := BitVec.toInt_lt

theorem setup_timely (hlen : args.length ≤ maxTasks) (start : ℕ) (hroom : Roomy args g i) :
    Timely args hlen g start i [] (setup start args) := by
  have hslack : ∀ j, slack start [] (setup start args).clock (args.get j) =
      (args.get j).delay.toInt := fun j => by
    simp [slack, release, calls, setup]
  refine ⟨setup_accounts hlen start, .of_nonneg fun j => ?_, fun j _ => ?_, Or.inl rfl⟩
  · rw [hslack]
    exact (hroom j (Finset.mem_Iic.1 j.2)).1
  · rw [hslack]
    exact toInt_lt_word _

theorem Timely.late_le (h : Timely args hlen g start i es b) (hroom : Roomy args g i)
    {j : Fin args.length} (hj : j ≤ i) :
    -(i * g : ℤ) ≤ slack start es b.clock (args.get j) := by
  have hlate := h.busy.late_le (Int.natCast_nonneg g)
    (fun k => by
      rw [card_upTo]
      push_cast
      exact (hroom k (Finset.mem_Iic.1 k.2)).2) ⟨j, Finset.mem_Iic.2 hj⟩
  rw [card_upTo] at hlate
  push_cast at hlate
  simpa using hlate

theorem Timely.prompt (h : Timely args hlen g start i es b) (ht : Turns g b e b') :
    Prompt (g : ℤ) (fun j : UpTo i => slack start es b.clock (args.get j)) e.gap := by
  have hgap := ht.1
  rcases h.idle with h0 | hidle
  · left
    omega
  · right
    intro j
    have hj := hidle j (Finset.mem_Iic.1 j.2)
    show (e.gap : ℤ) ≤ slack start es b.clock (args.get j) + g
    omega

/-- No countdown down to `i` leaves the range of an `int32_t`. -/
theorem Timely.toInt_eq (h : Timely args hlen g start i es b) (hroom : Roomy args g i)
    (ht : Turns g b e b') {j : Fin args.length} (hj : j ≤ i) :
    (BitVec.ofInt 32 (slack start es b.clock (args.get j) - e.gap)).toInt =
      slack start es b.clock (args.get j) - e.gap := by
  have hlt := h.lt j hj
  have hlate := h.late_le hroom hj
  have hper := (hroom j hj).2
  have hword := toInt_lt_word (args.get j).period
  have hg : 0 ≤ (i * g : ℤ) := by positivity
  have hgap : (e.gap : ℤ) ≤ g ∨ (e.gap : ℤ) ≤ slack start es b.clock (args.get j) + g :=
    (h.prompt ht).imp_right fun hp => hp ⟨j, Finset.mem_Iic.2 hj⟩
  rw [add_mul, one_mul] at hper
  rw [BitVec.toInt_ofInt]
  apply Int.bmod_eq_of_le
  · omega
  · omega

/-- A turn, as seen by the tasks down to `i`. -/
theorem Timely.serve (hnodup : (args.map TaskArgs.task).Nodup)
    (h : Timely args hlen g start i es b) (hroom : Roomy args g i) (ht : Turns g b e b') :
    ∃ o, Serve (fun j : UpTo i => (args.get j).period.toInt) e.gap
      (fun j : UpTo i => slack start es b.clock (args.get j)) o
      (fun j : UpTo i => slack start (es ++ [e]) b'.clock (args.get j)) := by
  have hclock : b'.clock = b.clock + e.gap := by rw [ht.2.2]
  rcases h.accounts.turn_cases ht with ⟨k, hcalled, hk, hfirst, -⟩ | ⟨hcalled, hnone, -⟩
  · by_cases hki : k ≤ i
    · refine ⟨some ⟨k, Finset.mem_Iic.2 hki⟩, ?_⟩
      rw [h.toInt_eq hroom ht hki] at hk
      have hserve := Serve.serve (p := fun j : UpTo i => (args.get j).period.toInt)
        (r := fun j : UpTo i => slack start es b.clock (args.get j)) (e := e.gap)
        ⟨k, Finset.mem_Iic.2 hki⟩ (by show slack start es b.clock (args.get k) ≤ _; omega)
      convert hserve using 2 with j
      rw [hclock, slack_append, hcalled]
      have hiff : some (args.get k).task = some (args.get j).task ↔
          j = ⟨k, Finset.mem_Iic.2 hki⟩ := by
        constructor
        · intro heq
          exact Subtype.ext (get_task_inj hnodup (Option.some.inj heq)).symm
        · intro heq
          rw [heq]
      simp only [hiff]
    · refine ⟨none, ?_⟩
      have hidle := Serve.idle (p := fun j : UpTo i => (args.get j).period.toInt)
        (r := fun j : UpTo i => slack start es b.clock (args.get j)) (e := e.gap) (fun j => by
          have hj := hfirst j (lt_of_le_of_lt (Finset.mem_Iic.1 j.2) (not_le.1 hki))
          rw [h.toInt_eq hroom ht (Finset.mem_Iic.1 j.2)] at hj
          show (e.gap : ℤ) < slack start es b.clock (args.get j)
          omega)
      convert hidle using 2 with j
      have hne : some (args.get k).task ≠ some (args.get j).task := fun heq =>
        hki (get_task_inj hnodup (Option.some.inj heq) ▸ Finset.mem_Iic.1 j.2)
      rw [hclock, slack_append, hcalled, if_neg hne, add_zero]
  · refine ⟨none, ?_⟩
    have hidle := Serve.idle (p := fun j : UpTo i => (args.get j).period.toInt)
      (r := fun j : UpTo i => slack start es b.clock (args.get j)) (e := e.gap) (fun j => by
        have hj := hnone j
        rw [h.toInt_eq hroom ht (Finset.mem_Iic.1 j.2)] at hj
        show (e.gap : ℤ) < slack start es b.clock (args.get j)
        omega)
    convert hidle using 2 with j
    rw [hclock, slack_append, hcalled]
    simp

theorem Timely.idle_turn (h : Timely args hlen g start i es b) (hroom : Roomy args g i)
    (ht : Turns g b e b') {j : Fin args.length} (hj : j ≤ i) :
    (b'.idlePeriod.toNat : ℤ) ≤ max 0 (slack start es b.clock (args.get j) - e.gap) := by
  have hleast := dispatch_idleTime b.scheduler (BitVec.ofNat 32 (b.clock + e.gap))
  rw [h.accounts.elapsed_eq] at hleast
  have hle := hleast.le_untilNext (Fin.castLE hlen j) (List.mem_finRange _)
    (by rw [h.accounts.started]; rfl)
  rw [h.accounts.started] at hle
  rw [← untilNext_entry (args.get j) (h.toInt_eq hroom ht hj), ht.2.2]
  exact_mod_cast hle

/-- **The step.**  A turn keeps all tasks down to `i` on time. -/
theorem Timely.turn (hnodup : (args.map TaskArgs.task).Nodup)
    (h : Timely args hlen g start i es b) (hroom : Roomy args g i) (ht : Turns g b e b') :
    Timely args hlen g start i (es ++ [e]) b' := by
  obtain ⟨o, hserve⟩ := h.serve hnodup hroom ht
  have hperiod : ∀ j : UpTo i, (Fintype.card (UpTo i) * g : ℤ) < (args.get j).period.toInt :=
    fun j => by
      rw [card_upTo]
      push_cast
      exact (hroom j (Finset.mem_Iic.1 j.2)).2
  refine ⟨h.accounts.turn hnodup ht,
    h.busy.serve (Int.natCast_nonneg g) hperiod hserve (h.prompt ht), fun j hj => ?_, ?_⟩
  · have hgap : (0 : ℤ) ≤ e.gap := Int.natCast_nonneg e.gap
    have hlt := hserve.lt_of ⟨j, Finset.mem_Iic.2 hj⟩ hgap
      (toInt_lt_word (args.get j).period) (h.lt j hj)
    exact hlt
  · by_cases hall : ∀ j ≤ i, 0 ≤ slack start es b.clock (args.get j) - e.gap
    · right
      intro j hj
      have hidle := h.idle_turn hroom ht hj
      rw [max_eq_right (hall j hj)] at hidle
      have hslack := hserve.eq ⟨j, Finset.mem_Iic.2 hj⟩
      have hpos := hperiod ⟨j, Finset.mem_Iic.2 hj⟩
      have hcard : (0 : ℤ) ≤ Fintype.card (UpTo i) * g := by positivity
      simp only at hslack hpos
      split_ifs at hslack <;> omega
    · left
      push Not at hall
      obtain ⟨j, hj, hlt⟩ := hall
      have hidle := h.idle_turn hroom ht hj
      rw [max_eq_left hlt.le] at hidle
      omega

theorem run_timely (hlen : args.length ≤ maxTasks) (hnodup : (args.map TaskArgs.task).Nodup)
    (hroom : Roomy args g i) (h : Run (Turns g) (setup start args) es b) :
    Timely args hlen g start i es b := by
  induction h with
  | nil => exact setup_timely hlen start hroom
  | snoc _ ht ih => exact ih.turn hnodup hroom ht

/-- **On time.**  Where the functions called take at most `g` and the periods of the tasks down to
`i` are longer than `i + 1` calls, in every run of the sketch a call of the task `i` comes at its
release or later, by at most `i + 1` times `g`; and all calls released more than `i` times `g` ago
have been made.  It does not matter what the tasks after `i` are, or how often `millis` wraps. -/
theorem on_time (hlen : args.length ≤ maxTasks) (hnodup : (args.map TaskArgs.task).Nodup)
    (hroom : Roomy args g i) (h : Run (Turns g) (setup start args) es b) :
    (b.clock : ℤ) ≤ start + release (args.get i) (calls (args.get i).task es) + i * g ∧
      ∀ e b', Turns g b e b' → e.called = some (args.get i).task →
        start + release (args.get i) (calls (args.get i).task es) ≤ b'.clock ∧
          (b'.clock : ℤ) ≤
            start + release (args.get i) (calls (args.get i).task es) + (i + 1) * g := by
  have htimely := run_timely hlen hnodup hroom h
  have hlate := htimely.late_le hroom le_rfl
  refine ⟨by unfold slack at hlate; omega, fun e b' ht he => ?_⟩
  have hclock : b'.clock = b.clock + e.gap := by rw [ht.2.2]
  have htoInt := htimely.toInt_eq hroom ht le_rfl
  have hdue : slack start es b.clock (args.get i) ≤ e.gap := by
    rcases htimely.accounts.turn_cases ht with ⟨k, hcalled, hk, -, -⟩ | ⟨hcalled, -, -⟩
    · rw [he] at hcalled
      rw [get_task_inj hnodup (Option.some.inj hcalled)] at htoInt hlate ⊢
      omega
    · rw [he] at hcalled
      cases hcalled
  have hgap : (e.gap : ℤ) ≤ g ∨ (e.gap : ℤ) ≤ slack start es b.clock (args.get i) + g :=
    (htimely.prompt ht).imp_right fun hp => hp ⟨i, Finset.mem_Iic.2 le_rfl⟩
  have hg : 0 ≤ (i * g : ℤ) := by positivity
  unfold slack at *
  rw [hclock, add_mul, one_mul]
  push_cast
  omega

/-! ### The sketches -/

/-- The functions that `base.ino` starts. -/
inductive BaseTask
  | readLightSensor
  | updateChar
  | updatePacket
  | sendPacket
  | updateLcd
deriving DecidableEq, Repr

/-- The calls of `Scheduler_StartTask` in `base.ino`. -/
def baseArgs : List (TaskArgs BaseTask) :=
  [⟨0, 50, .readLightSensor⟩, ⟨10, 50, .updateChar⟩, ⟨0, 50, .updatePacket⟩, ⟨2, 50, .sendPacket⟩,
    ⟨4, 500, .updateLcd⟩]

/-- The functions that `remote.ino` starts. -/
inductive RemoteTask
  | updateArm
  | commandRoomba
  | getData
deriving DecidableEq, Repr

/-- The calls of `Scheduler_StartTask` in `remote.ino`. -/
def remoteArgs : List (TaskArgs RemoteTask) :=
  [⟨2, 50, .updateArm⟩, ⟨4, 100, .commandRoomba⟩, ⟨0, 50, .getData⟩]

/-- The functions of the base station may take 9 ms. -/
theorem roomy_base (i : Fin baseArgs.length) : Roomy baseArgs 9 i := by
  unfold Roomy
  revert i
  decide

/-- The functions of the remote station may take 16 ms. -/
theorem roomy_remote (i : Fin remoteArgs.length) : Roomy remoteArgs 16 i := by
  unfold Roomy
  revert i
  decide

/-- A turn as a function. -/
def advance (g : ℕ) (b : Board F) (e : Turn F) : Option (Board F) :=
  let d := b.scheduler.dispatch (BitVec.ofNat 32 (b.clock + e.gap))
  if e.gap ≤ b.idlePeriod.toNat + g ∧ e.called = d.called then
    some { scheduler := d.scheduler, clock := b.clock + e.gap, idlePeriod := d.idleTime }
  else none

theorem turns_of_advance (h : advance g b e = some b') : Turns g b e b' := by
  obtain ⟨⟨hgap, hcalled⟩, hb⟩ := Option.ite_none_right_eq_some.1 h
  exact ⟨hgap, hcalled, (Option.some.inj hb).symm⟩

/-- The base station, with functions that take 3 ms, until the second period has begun. -/
def secondPeriod : List (Turn BaseTask) :=
  [⟨3, some .readLightSensor⟩, ⟨3, some .updatePacket⟩, ⟨3, some .sendPacket⟩,
    ⟨3, some .updateChar⟩, ⟨3, some .updateLcd⟩, ⟨3, none⟩, ⟨35, some .readLightSensor⟩]

/-- The second call of `updatePacket` is released at 1050. -/
theorem on_time_second_period :
    ∃ p ∈ (Run.exec (advance 9) (setup 1000 baseArgs) secondPeriod).bind fun b =>
        (advance 9 b ⟨3, some .updatePacket⟩).map fun b' => (b, b'),
      (p.1.clock : ℤ) ≤ 1000 + 50 + 2 * 9 ∧ (1000 + 50 : ℤ) ≤ p.2.clock ∧
        (p.2.clock : ℤ) ≤ 1000 + 50 + 3 * 9 := by
  apply exists_mem_of_isSome (by decide +kernel)
  intro p hp
  obtain ⟨b, hb, hp⟩ := Option.bind_eq_some_iff.1 hp
  obtain ⟨b', hb', rfl⟩ := Option.map_eq_some_iff.1 hp
  have hrun : Run (Turns 9) (setup 1000 baseArgs) secondPeriod b :=
    (Run.of_exec hb).mono fun _ _ _ h => turns_of_advance h
  have hrelease : release (baseArgs.get ⟨2, by decide⟩)
      (calls (baseArgs.get ⟨2, by decide⟩).task secondPeriod) = 50 := by decide
  obtain ⟨hclock, hcalls⟩ :=
    on_time (i := ⟨2, by decide⟩) (by decide) (by decide) (roomy_base _) hrun
  obtain ⟨hlow, hhigh⟩ := hcalls _ _ (turns_of_advance hb') rfl
  rw [hrelease] at hclock hlow hhigh
  exact ⟨hclock, hlow, hhigh⟩

end Board

end RoombaRtos.Project1
