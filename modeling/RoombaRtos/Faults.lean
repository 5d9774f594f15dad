import RoombaRtos.Creation

/-!
# What stops the kernel

The aborts of the kernel, exactly.

* `refusal` — the abort with which the handler of an entry refuses it;
* `Sched.Inv.handled_fails` — the handlers fail with it, and in no other way;
* `Kernel.stops_iff` — an entry stops the kernel exactly if it is refused, or if the dispatcher
  comes to a periodic task that has missed its start;
* `Kernel.execute_lockstep` — any sequence of entries stops the kernel and the policy at the same
  entry with the same abort, or leads them to states that correspond.
-/

namespace RoombaRtos

open ListQueue Lockstep

/-- The abort with which an entry is refused, from the priority of the current task, what is left
of its budget, and whether the process table has room. -/
def refusal (priority : PriorityLevel) (ticksRemaining : Tick) (room : Bool) :
    Entry → Option AbortCode
  | .timer =>
      if priority = .periodic ∧ ticksRemaining = 1 then some .timingViolation else none
  | .call (.osAbort error) => some error
  | .call (.taskCreateSystem f _) => if room ∧ f = none then some .nullTaskFunction else none
  | .call (.taskCreateRR f _) => if room ∧ f = none then some .nullTaskFunction else none
  | .call (.taskCreatePeriod f _ period wcet _) =>
      if room then
        if f = none then some .nullTaskFunction
        else if 0 < period ∧ wcet < period then none
        else some .invalidReqInfo
      else none
  | .call (.msgSend _ _ _) => if priority = .periodic then some .periodicMsg else none
  | .call (.msgRecv _ _) => if priority = .periodic then some .periodicMsg else none
  | .call (.msgRply _ _) => if priority = .periodic then some .periodicMsg else none
  | .call (.msgASend id _ _) => if validId id = none then some .invalidReqInfo else none
  | .call .taskNext => none
  | .call .taskGetArg => none
  | .call .taskPid => none
  | .call .taskTerminate => none
  | .call .now => none

namespace Sched

variable {a c : Sched} {e : Entry} {x : Halt} {r : InfoPtr PDPtr} {code : AbortCode}

/-! ### Refusals -/

/-- The refusal of an entry in this state. -/
def refuses (a : Sched) (e : Entry) : Option AbortCode :=
  refusal (a.task a.current).priority (a.task a.current).ticksRemaining a.freeSlot.isSome e

/-- The outcome is the abort `o`, if there is one. -/
def FailsWith {α : Type} (y : Except Halt α) (o : Option AbortCode) : Prop :=
  ∀ x, y = .error x ↔ ∃ code, o = some code ∧ x = .abort code

theorem FailsWith.ok {α : Type} (b : α) : FailsWith (.ok b) none := by
  intro x
  refine ⟨fun h => ?_, fun ⟨_, h, _⟩ => ?_⟩
  · cases h
  · cases h

theorem FailsWith.error {α : Type} (code : AbortCode) :
    FailsWith (.error (.abort code) : Except Halt α) (some code) := by
  intro x
  constructor
  · intro h
    exact ⟨code, rfl, (Except.error.inj h).symm⟩
  · intro ⟨code', h, hx⟩
    rw [hx, Option.some.inj h]

/-- A check in front of the rest of a handler. -/
theorem FailsWith.guard {α : Type} {p : Prop} [Decidable p] (code : AbortCode)
    {y : Except Halt α} {o : Option AbortCode} (h : ¬ p → FailsWith y o) :
    FailsWith (if p then .error (.abort code) else y) (if p then some code else o) := by
  by_cases hp : p
  · rw [if_pos hp, if_pos hp]
    exact .error code
  · rw [if_neg hp, if_neg hp]
    exact h hp

theorem FailsWith.bind {α β : Type} {y : Except Halt α} {f : α → Except Halt β}
    {o : Option AbortCode} (h : FailsWith y o) (hf : ∀ b, ∃ c, f b = .ok c) :
    FailsWith (y >>= f) o := by
  intro x
  rw [← h x, bind_error_iff]
  refine or_iff_left ?_
  rintro ⟨b, -, hb⟩
  obtain ⟨c, hc⟩ := hf b
  rw [hc] at hb
  cases hb

/-- A creation fails only if there is room. -/
theorem create_fails (a : Sched) (r : InfoPtr PDPtr) : FailsWith (a.create r)
    (if a.freeSlot.isSome then
      if (a.info r).code = none then some .nullTaskFunction
      else if admissible (a.info r) then none else some .invalidReqInfo
    else none) := by
  unfold create
  cases a.freeSlot with
  | none => exact .ok a
  | some i =>
    cases hcode : (a.info r).code with
    | none => exact .error _
    | some f =>
      by_cases hq : admissible (a.info r) = true
      · simp only [hq, Option.isSome_some, if_true]
        exact .ok _
      · simp only [hq, Option.isSome_some, if_true]
        exact .error _

theorem suspend_call_params (a : Sched) (c : ApiCall) :
    (a.suspend (.call c)).1.info (a.suspend (.call c)).2 = c.params :=
  suspend_params a (.call c) (by simp)

theorem create_fails_call (h : a.Inv) (c : ApiCall) (hc : c.params.request = .create) :
    FailsWith (a.handled (.call c)) (if a.freeSlot.isSome then
      if c.params.code = none then some .nullTaskFunction
      else if admissible c.params then none else some .invalidReqInfo
    else none) := by
  have hfails := create_fails (a.suspend (.call c)).1 (a.suspend (.call c)).2
  rw [h.suspend_freeSlot, suspend_call_params] at hfails
  unfold handled
  rw [show Entry.request (.call c) = .create from hc]
  exact hfails.bind fun b => ⟨_, rfl⟩

theorem recv_fails (h : a.Entered) : FailsWith (a.handle r .msgRecv)
    (if (a.task a.current).priority = .periodic then some .periodicMsg else none) := by
  refine .guard _ fun _ => ?_
  cases hf : a.mail.find? (a.wanted r) with
  | none => exact .ok _
  | some m =>
    obtain ⟨i, hi, -⟩ := h.posted.sender m (List.mem_of_find?_eq_some hf)
    simp only [hi, validId_pidOf]
    exact .ok _

theorem tick_fails (h : a.Entered) : FailsWith (a.handle r .timer)
    (if (a.task a.current).priority = .periodic ∧ (a.task a.current).ticksRemaining = 1 then
      some .timingViolation else none) := by
  have hcharge : FailsWith (Kernel.chargeTick a.current (a.task a.current))
      (if (a.task a.current).priority = .periodic ∧ (a.task a.current).ticksRemaining = 1 then
        some .timingViolation else none) := by
    unfold Kernel.chargeTick
    cases hp : (a.task a.current).priority with
    | system => exact .ok _
    | rr => exact .ok _
    | periodic =>
      have hone : (a.task a.current).ticksRemaining - 1 ≤ 0 ↔
          (a.task a.current).ticksRemaining = 1 := by
        bv_omega
      simp only [true_and, hone]
      exact .guard _ fun _ => .ok _
    | unlisted =>
      have hidle : a.current = .idleProcess := by
        by_contra hu
        exact h.listed hu hp
      simp only [hidle, ne_eq, not_true_eq_false, if_false]
      exact .ok _
  exact hcharge.bind fun t => ⟨_, rfl⟩

theorem yieldTask_listed {t : Task PDPtr} (h : t.priority ≠ .unlisted) :
    ∃ t', Kernel.yieldTask t = .ok t' := by
  unfold Kernel.yieldTask
  cases hp : t.priority with
  | unlisted => exact absurd hp h
  | _ => exact ⟨_, rfl⟩

/-- The message calls that a periodic task may not make, before they look at their target. -/
theorem periodic_fails {β : Type} {y : Except Halt β} (hy : ∃ b, y = .ok b) :
    FailsWith (if (a.task a.current).priority = .periodic then .error (.abort .periodicMsg) else y)
      (if (a.task a.current).priority = .periodic then some .periodicMsg else none) := by
  obtain ⟨b, rfl⟩ := hy
  exact .guard _ fun _ => .ok b

/-- **Refusals.**  A handler fails exactly with the refusal of the entry. -/
theorem Inv.handled_fails (h : a.Inv) (hp : a.Possible e) :
    FailsWith (a.handled e) (a.refuses e) := by
  have hentered := h.suspend e
  have hprio := a.suspend_priority e a.current
  have hcur := a.suspend_current e
  have hlisted : e ≠ .timer →
      ((a.suspend e).1.task (a.suspend e).1.current).priority ≠ .unlisted := fun he =>
    hentered.listed (hp.request.resolve_left (mt request_timer_iff.1 he))
  cases e with
  | timer =>
    have htick := tick_fails hentered (r := (a.suspend .timer).2)
    have hticks := congrArg Timing.ticksRemaining (a.suspend_timing .timer a.current)
    rw [hcur, hprio, show ((a.suspend .timer).1.task a.current).ticksRemaining = _ from hticks]
      at htick
    exact htick
  | call c =>
    unfold refuses
    rw [← hprio, ← hcur]
    cases c with
    | osAbort error =>
      show FailsWith (.error (.abort ((a.suspend _).1.info (a.suspend _).2).abortCode)) _
      rw [suspend_call_params]
      exact .error error
    | taskCreateSystem f arg =>
      have hfails := create_fails_call h (.taskCreateSystem f arg) rfl
      simpa [refusal, ApiCall.params, admissible, ite_and] using hfails
    | taskCreateRR f arg =>
      have hfails := create_fails_call h (.taskCreateRR f arg) rfl
      simpa [refusal, ApiCall.params, admissible, ite_and] using hfails
    | taskCreatePeriod f arg period wcet offset =>
      have hfails := create_fails_call h (.taskCreatePeriod f arg period wcet offset) rfl
      have hq : admissible (ApiCall.taskCreatePeriod f arg period wcet offset).params = true ↔
          0 < period ∧ wcet < period := by
        show (decide (0 < period) && decide (wcet < period)) = true ↔ _
        rw [Bool.and_eq_true, decide_eq_true_iff, decide_eq_true_iff]
      simp only [hq] at hfails
      exact hfails
    | taskNext =>
      obtain ⟨t, ht⟩ := yieldTask_listed (hlisted (by simp))
      show FailsWith (Kernel.yieldTask _ >>= _) _
      rw [ht]
      exact .ok _
    | taskGetArg => exact .ok _
    | taskPid => exact .ok _
    | now => exact .ok _
    | taskTerminate =>
      show FailsWith (if _ then _ else _) _
      rw [if_neg (hlisted (by simp))]
      exact .ok _
    | msgSend id t v =>
      refine periodic_fails ?_
      cases (a.suspend (.call (.msgSend id t v))).1.target _ <;> exact ⟨_, rfl⟩
    | msgRecv m v => exact recv_fails hentered
    | msgRply id r =>
      refine periodic_fails ?_
      cases (a.suspend (.call (.msgRply id r))).1.target _ <;> exact ⟨_, rfl⟩
    | msgASend id t v =>
      show FailsWith
        (if validId ((a.suspend _).1.info (a.suspend _).2).msgTo = none then _ else _) _
      rw [suspend_call_params]
      refine .guard _ fun _ => ?_
      cases (a.suspend (.call (.msgASend id t v))).1.target _ <;> exact .ok _

end Sched

namespace Kernel

variable {s : Kernel} {a : Sched} {e : Entry} {es : List Entry} {x : Halt} {cp : PDPtr}

/-! ### The exact condition -/

theorem Represents.refuses_eq (h : s.UserMode a) (hcp : s.cp = some cp) : a.refuses e =
    refusal (s.pd cp).priority (s.pd cp).ticksRemaining s.findDead.isSome e := by
  have hcur : a.current = cp := Option.some.inj (h.current.symm.trans hcp)
  unfold Sched.refuses
  rw [h.findDead_eq, ← hcur, ← h.task]

/-- The kernel and the policy stop with the same aborts. -/
theorem Represents.enter_error (h : s.UserMode a) (ha : a.Inv) (hp : a.Possible e) :
    s.enter e = .error x ↔ a.enter e = .error x := by
  have hrel := h.enter ha hp
  constructor
  · intro hs
    rw [hs] at hrel
    exact hrel.error_left
  · intro he
    rw [he] at hrel
    exact hrel.error_right

/-- **Exactly when the kernel stops.**  Either the entry is refused, or `Dispatch` finds that the
periodic task it comes to has missed its start. -/
theorem stops_iff (h : s.Reachable) (hp : s.Possible e) : s.enter e = .error x ↔
    (∃ cp code, s.cp = some cp ∧ x = .abort code ∧
      refusal (s.pd cp).priority (s.pd cp).ticksRemaining s.findDead.isSome e = some code) ∨
    (x = .abort .timingViolation ∧ ∃ a c p, s.UserMode a ∧ a.Dispatches e c ∧ c.Alarms p) := by
  obtain ⟨a, ha, hrep⟩ := h.represents
  have hpa := hrep.possible_iff.1 hp
  rw [hrep.enter_error ha.inv hpa, Sched.enter_error_iff, ha.inv.handled_fails hpa x]
  refine or_congr ?_ ?_
  · rw [hrep.refuses_eq hrep.current]
    constructor
    · intro ⟨code, hcode, hx⟩
      exact ⟨_, code, hrep.current, hx, hcode⟩
    · intro ⟨cp, code, hcp, hx, hcode⟩
      have hcur : a.current = cp := Option.some.inj (hrep.current.symm.trans hcp)
      rw [hcur]
      exact ⟨code, hcode, hx⟩
  · simp only [Sched.dispatch_error_iff]
    constructor
    · intro ⟨c, hc, hx, p, hal⟩
      exact ⟨hx, a, c, p, hrep, hc, hal⟩
    · intro ⟨hx, a', c, p, hrep', hc, hal⟩
      rw [hrep'.unique hrep] at hc
      exact ⟨c, hc, hx, p, hal⟩

/-- At boot the setup task asks for a task without a function. -/
theorem stops_iff_null_function :
    ∃ s ∈ after (fun _ _ => true) 1 2 [],
      s.enter (.call (.taskCreateRR none 0)) = .error (.abort .nullTaskFunction) := by
  have hex : ∃ s ∈ (after (fun _ _ => true) 1 2 []).filter fun s =>
      s.cp = some (.process 0) ∧ s.findDead.isSome = true, True :=
    exists_mem_of_isSome (by decide +kernel) fun _ _ => trivial
  obtain ⟨s, hs, -⟩ := hex
  obtain ⟨hrun, hfacts⟩ := Option.filter_eq_some_iff.1 hs
  obtain ⟨hcp, hroom⟩ := of_decide_eq_true hfacts
  refine ⟨s, hrun, (stops_iff (reachable_of_after hrun) ?_).2 (Or.inl ⟨_, _, hcp, rfl, ?_⟩)⟩
  · show s.cp ≠ some .idleProcess
    rw [hcp]
    simp
  · simp [refusal, hroom]

/-! ### Runs that end in an abort -/

/-- The outcome of a sequence of entries.  Those that cannot happen are passed over. -/
def execute (s : Kernel) : List Entry → Except Halt Kernel
  | [] => .ok s
  | e :: es => if s.Possible e then s.enter e >>= fun s => s.execute es else s.execute es

end Kernel

/-- The outcome for the policy. -/
def Sched.execute (a : Sched) : List Entry → Except Halt Sched
  | [] => .ok a
  | e :: es => if a.Possible e then a.enter e >>= fun a => a.execute es else a.execute es

namespace Kernel

variable {s : Kernel} {a : Sched}

theorem Represents.execute (h : s.UserMode a) (ha : a.Inv) (es : List Entry) :
    Rel (fun s a => s.UserMode a ∧ a.Inv) (s.execute es) (a.execute es) := by
  induction es generalizing s a with
  | nil => exact ⟨h, ha⟩
  | cons e es ih =>
    rw [Kernel.execute, Sched.execute]
    by_cases hp : a.Possible e
    · rw [if_pos (h.possible_iff.2 hp), if_pos hp]
      exact (h.enter ha hp).bind_of_ok fun s' a' _ ha' h' => ih h' (ha.enter hp ha')
    · rw [if_neg (mt h.possible_iff.1 hp), if_neg hp]
      exact ih h ha

/-- **Lockstep.**  From power-on, any sequence of entries stops the kernel and the policy with the
same abort, or leads them to states of which one represents the other. -/
theorem execute_lockstep (create kernelIdle : BitVec 16) (es : List Entry) :
    Rel (fun s a => s.UserMode a ∧ a.Inv) (boot create kernelIdle >>= fun s => s.execute es)
      ((bootedSched create kernelIdle).execute es) := by
  obtain ⟨s, hb, hrep⟩ := boot_represents create kernelIdle
  rw [hb]
  exact hrep.execute (Sched.bootedSched_inv create kernelIdle) es

end Kernel

end RoombaRtos
