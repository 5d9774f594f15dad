import RoombaRtos.Lib.Epoch
import RoombaRtos.Effects

/-!
# The 16-bit clock and the due test

The kernel keeps the number of ticks since boot as a 16-bit counter and a bit for the epoch, and
the next start of a periodic task in the same way.

* `Encodes` — a counter and an epoch bit are the reading of a number of ticks;
* `Encodes.add` — adding a 16-bit amount, as `Task_Next` and the timer do it;
* `Encodes.due_iff` — what the due test of `Dispatch` says about the numbers;
* `Kernel.due_test_iff` — the test is right exactly as long as the clock has not wrapped since the
  start time.
-/

namespace RoombaRtos

open ListQueue Lockstep

/-- The epoch of a number of ticks: the parity of its quotient by `2 ^ 16`. -/
def epochOf (n : ℕ) : OverflowState := if Epoch.epoch 65536 n then .odd else .even

/-- The 16-bit counter `clock` and the epoch `state` are the reading of `n` ticks. -/
structure Encodes (clock : Tick) (state : OverflowState) (n : ℕ) : Prop where
  clock : clock.toNat = n % 65536
  state : state = epochOf n

instance (clock : Tick) (state : OverflowState) (n : ℕ) : Decidable (Encodes clock state n) :=
  decidable_of_iff (clock.toNat = n % 65536 ∧ state = epochOf n)
    ⟨fun h => ⟨h.1, h.2⟩, fun h => ⟨h.clock, h.state⟩⟩

theorem epochOf_eq_iff {n k : ℕ} :
    epochOf n = epochOf k ↔ Epoch.epoch 65536 n = Epoch.epoch 65536 k := by
  unfold epochOf
  cases Epoch.epoch 65536 n <;> cases Epoch.epoch 65536 k <;> simp

theorem epochOf_flip {n k : ℕ} (h : Epoch.epoch 65536 n = !Epoch.epoch 65536 k) :
    epochOf n = (epochOf k).flip := by
  unfold epochOf
  rw [h]
  cases Epoch.epoch 65536 k <;> rfl

namespace Encodes

variable {clock clock' : Tick} {state state' : OverflowState} {n k : ℕ}

/-- The counter wraps when the sum of its value and the amount has a carry. -/
theorem wraps_iff (h : Encodes clock state n) (d : Tick) :
    clock + d < clock ↔ 65536 ≤ n % 65536 + d.toNat := by
  rw [← h.clock]
  bv_omega

/-- The sum of a reading and a 16-bit amount: the epoch flips when the counter wraps. -/
theorem add (h : Encodes clock state n) (d : Tick) :
    Encodes (clock + d) (if clock + d < clock then state.flip else state) (n + d.toNat) := by
  have hd := d.isLt
  have hwrap := h.wraps_iff d
  have hepoch := Epoch.epoch_add (m := 65536) hd n
  refine ⟨?_, ?_⟩
  · rw [BitVec.toNat_add, h.clock, Nat.add_mod n, Nat.mod_eq_of_lt hd]
  · by_cases hw : 65536 ≤ n % 65536 + d.toNat
    · rw [if_pos hw] at hepoch
      rw [if_pos (hwrap.2 hw), h.state, epochOf_flip hepoch]
    · rw [if_neg hw] at hepoch
      rw [if_neg (fun hlt => hw (hwrap.1 hlt)), h.state, epochOf_eq_iff.2 hepoch]

/-- **The due test.**  It compares the readings within an epoch. -/
theorem due_iff (h : Encodes clock state n) (h' : Encodes clock' state' k) (hlt : n < k + 65536)
    (hlt' : k < n + 65536) :
    (clock' ≤ clock ∧ state = state') ↔ k ≤ n ∧ n / 65536 = k / 65536 := by
  rw [← Epoch.le_and_epoch_iff (by omega) hlt hlt', BitVec.le_def, h.clock, h'.clock, h.state,
    h'.state, epochOf_eq_iff]

end Encodes

namespace Sched

variable {a a' c : Sched} {r : InfoPtr PDPtr} {k : KernelRequestType} {e : Entry} {n : ℕ}

/-- The clock reads `n` ticks. -/
def Reads (a : Sched) (n : ℕ) : Prop := Encodes a.sysClock a.clockState n

theorem dispatch_clock (h : a.dispatch = .ok a') :
    a'.sysClock = a.sysClock ∧ a'.clockState = a.clockState := by
  have hr := a.requeue_sysClock
  have hc := a.requeue_clockState
  rcases select_cases h with ⟨p, -, rfl⟩ | ⟨-, ⟨p, -, -, rfl⟩ | ⟨-, ⟨p, -, rfl⟩ | ⟨-, rfl⟩⟩⟩
  · exact ⟨hr, hc⟩
  · exact ⟨hr, hc⟩
  · exact ⟨hr, hc⟩
  · exact ⟨hr, hc⟩

/-- Only the timer moves the clock, by one tick. -/
theorem Change.reads (h : Change a r k c) (ha : a.Reads n) :
    c.Reads (n + if k = .timer then 1 else 0) := by
  cases h with
  | states hk h =>
    rw [if_neg hk.1, Nat.add_zero, Reads, h.sysClock, h.clockState]
    exact ha
  | install hx hq => exact ha
  | yield ht => exact ha
  | tick ht => exact ha.add 1
  | bury hp => exact ha

theorem request_timer_iff : Entry.request e = .timer ↔ e = .timer := by
  cases e with
  | timer => simp [Entry.request]
  | call api => cases api <;> simp [Entry.request, ApiCall.params]

/-- The clock at the call of `Dispatch`, or at the end of a handler without one. -/
theorem handled_reads {d : Bool} (h : a.handled e = .ok (c, d)) (ha : a.Reads n) :
    c.Reads (n + [e].count .timer) := by
  have hsus : (a.suspend e).1.Reads n := by
    rw [Reads, suspend_sysClock, suspend_clockState]
    exact ha
  have hc := (handled_cases h).change.reads hsus
  have hcount : [e].count .timer = if Entry.request e = .timer then 1 else 0 := by
    rw [List.count_singleton]
    by_cases he : e = .timer
    · simp [he, Entry.request]
    · simp [he, request_timer_iff]
  rw [hcount]
  exact hc

theorem Step.reads (hs : a.Step e a') (ha : a.Reads n) : a'.Reads (n + [e].count .timer) := by
  obtain ⟨c, d, b, hc, rfl, ⟨rfl, hd⟩ | ⟨rfl, rfl⟩⟩ := enter_parts hs.2
  · have hread := handled_reads hc ha
    obtain ⟨hclock, hstate⟩ := dispatch_clock hd
    rw [Reads, setInfo_sysClock, setInfo_clockState, hclock, hstate]
    exact hread
  · rw [Reads, setInfo_sysClock, setInfo_clockState]
    exact handled_reads hc ha

/-- The clock counts the ticks of a run. -/
theorem run_reads {es : List Entry} (hr : Run Step a es a') (ha : a.Reads n) :
    a'.Reads (n + es.count .timer) := by
  induction hr with
  | nil => exact ha
  | snoc _ hs ih =>
    rw [List.count_append, ← Nat.add_assoc]
    exact hs.reads ih

/-- **The due test against the numbers of ticks**, for a clock that reads `n`. -/
theorem Reads.due_iff {p : PDPtr} {start : ℕ} (h : a.Reads n)
    (hp : Encodes (a.task p).tons (a.task p).clockState start) (hlt : n < start + 65536)
    (hlt' : start < n + 65536) :
    a.due p = true ↔ start ≤ n ∧ n / 65536 = start / 65536 := by
  rw [← Encodes.due_iff h hp hlt hlt']
  simp [due]

/-! ### A system task that is alone -/

/-- The task keeps the processor, and a tick only moves the clock. -/
theorem tick_alone (hprio : (a.task a.current).priority = .system)
    (hrun : (a.task a.current).state = .running) (hl : a.level .system = [a.current])
    (hi : a.info .timerIsr = {}) : a.enter .timer = .ok a.advanceClock := by
  set b := (a.setInfo .timerIsr fun _ => { request := .timer }).setState a.current .ready with hb
  have hbprio : (b.task a.current).priority = .system := by
    rw [hb, setState_priority]
    exact hprio
  have hbready : b.ready a.current = true := by
    rw [ready_iff, hb, setState_self]
  have hcharge : Kernel.chargeTick a.current (b.task a.current) = .ok (b.task a.current) := by
    rw [Kernel.chargeTick, hbprio]
  set c := b.advanceClock with hc
  have hset : (b.setTask a.current fun _ => b.task a.current).advanceClock = c := by
    rw [setTask, Function.update_eq_self]
  have hrequeue : c.requeue = c := by
    have hcprio : (c.task c.current).priority = .system := hbprio
    have hcl : (c.level .system).rotate 1 = c.level .system := by
      rw [show c.level .system = [a.current] from hl, List.rotate_singleton]
    rw [requeue, hcprio]
    exact (congrArg (c.setLevel .system) hcl).trans (Kernel.setLevel_self c .system)
  have hfind : (c.level .system).find? c.ready = some a.current := by
    rw [show c.level .system = [a.current] from hl]
    exact List.find?_cons_of_pos hbready
  have hbring : c.bring .system = c := by
    have hcl : rotateTo c.ready (c.level .system) = c.level .system := by
      rw [show c.level .system = [a.current] from hl]
      exact rotateTo_cons_self hbready
    exact (congrArg (c.setLevel .system) hcl).trans (Kernel.setLevel_self c .system)
  have hdispatch : c.dispatch = .ok (c.run a.current) := by
    rw [dispatch, hrequeue, select, hfind]
    exact congrArg (fun x : Sched => Except.ok (x.run a.current)) hbring
  have hserve : b.serve .timerIsr .timer = .ok (c.run a.current) := by
    rw [serve, tick, show b.current = a.current from rfl, hcharge]
    exact (congrArg dispatch hset).trans hdispatch
  have htask : (c.run a.current).task = a.task := by
    have hself : { a.task a.current with state := .running } = a.task a.current := by
      rw [← hrun]
    funext p
    by_cases hp : p = a.current
    · subst hp
      rw [run_task, setState_task, Function.update_self]
      show ({ b.task a.current with state := .running } : Task PDPtr) = _
      rw [hb, setState_task, Function.update_self]
      exact hself
    · rw [run_task, setState_other hp]
      exact setState_other hp _ _
  have hinfo : Function.update b.info .timerIsr { b.info .timerIsr with request := .none } =
      a.info := by
    have hbi : b.info = Function.update a.info .timerIsr { request := .timer } := rfl
    funext r
    by_cases hr : r = .timerIsr
    · subst hr
      rw [Function.update_self, hi, hbi, Function.update_self]
    · rw [Function.update_of_ne hr, hbi, Function.update_of_ne hr]
  have henter : a.enter .timer =
      .ok ((c.run a.current).setInfo .timerIsr fun q => { q with request := .none }) := by
    show (b.serve .timerIsr (b.info .timerIsr).request >>= _) = _
    have hreq : (b.info .timerIsr).request = .timer := suspend_request a .timer
    rw [hreq, hserve]
    rfl
  rw [henter, Except.ok.injEq]
  exact Sched.ext htask rfl rfl rfl rfl rfl hinfo

/-- It keeps the processor for any number of ticks. -/
theorem run_alone (hprio : (a.task a.current).priority = .system)
    (hrun : (a.task a.current).state = .running) (hl : a.level .system = [a.current])
    (hi : a.info .timerIsr = {}) (n : ℕ) :
    ∃ clock state, Run Step a (List.replicate n .timer)
      { a with sysClock := clock, clockState := state } := by
  induction n with
  | zero => exact ⟨a.sysClock, a.clockState, Run.nil a⟩
  | succ n ih =>
    obtain ⟨clock, state, hr⟩ := ih
    rw [List.replicate_succ']
    exact ⟨_, _, hr.snoc ⟨trivial, tick_alone hprio hrun hl hi⟩⟩

end Sched

namespace Kernel

variable {s s₀ : Kernel} {a c : Sched} {e : Entry} {es : List Entry} {p : PDPtr}

theorem bootedSched_reads (create kernelIdle : BitVec 16) :
    (bootedSched create kernelIdle).Reads 0 :=
  ⟨rfl, rfl⟩

/-- The clock counts the ticks since power-on. -/
theorem run_clock {create kernelIdle : BitVec 16} (hb : boot create kernelIdle = .ok s₀)
    (hr : Run Step s₀ es s) : Encodes s.sysClock s.clockState (es.count .timer) := by
  obtain ⟨a, hrun, hrep, -⟩ := run_represents hb hr
  have hread : a.Reads (0 + es.count .timer) := Sched.run_reads hrun (bootedSched_reads _ _)
  rw [hrep.sysClock, hrep.clockState]
  rwa [Nat.zero_add] at hread

/-- **The due test.**  In every run since power-on, at every call of `Dispatch`, let `p` be a task
whose start time is `start`, less than one epoch away.  The due test of `p` succeeds exactly when
the start time has come, if and only if the clock has not wrapped since the start time. -/
theorem due_test_iff {create kernelIdle : BitVec 16} {start : ℕ}
    (hb : boot create kernelIdle = .ok s₀) (hr : Run Step s₀ es s) (ha : s.UserMode a)
    (hd : a.Dispatches e c) (hp : Encodes (c.task p).tons (c.task p).clockState start)
    (hlt : (es ++ [e]).count .timer < start + 65536)
    (hlt' : start < (es ++ [e]).count .timer + 65536) :
    (c.due p = true ↔ start ≤ (es ++ [e]).count .timer) ↔
      (es ++ [e]).count .timer / 65536 ≤ start / 65536 := by
  set n := (es ++ [e]).count .timer with hn
  have hread : c.Reads n := by
    have hclock := run_clock hb hr
    rw [ha.sysClock, ha.clockState] at hclock
    rw [hn, List.count_append]
    exact Sched.handled_reads hd hclock
  rw [hread.due_iff hp hlt hlt']
  constructor
  · intro h
    by_cases hle : start ≤ n
    · exact (h.2 hle).2.le
    · exact Nat.div_le_div_right (by omega)
  · intro h
    refine ⟨fun hdue => hdue.1, fun hle => ⟨hle, ?_⟩⟩
    have := Nat.div_le_div_right (c := 65536) hle
    omega

/-- The first tick, at which a periodic task with offset 1 is due. -/
theorem due_test_first_tick : ∃ (s₀ s : Kernel) (es : List Entry) (a c : Sched),
    (boot 1 2 = .ok s₀ ∧ Run Step s₀ es s ∧ s.UserMode a ∧ a.Dispatches .timer c) ∧
    Encodes (c.task (.process 1)).tons (c.task (.process 1)).clockState 1 ∧
    c.due (.process 1) = true := by
  have hex : ∃ x ∈ ((Run.exec Sched.advance (bootedSched 1 2)
      [.call (.taskCreatePeriod (some 3) 0 10 5 1)]).bind fun a =>
        (a.dispatching .timer).map fun c => (a, c)).filter fun x =>
          Encodes (x.2.task (.process 1)).tons (x.2.task (.process 1)).clockState 1, True :=
    exists_mem_of_isSome (by decide +kernel) fun _ _ => trivial
  obtain ⟨x, hx, -⟩ := hex
  obtain ⟨hx, henc⟩ := Option.filter_eq_some_iff.1 hx
  obtain ⟨a, ha, hx⟩ := Option.bind_eq_some_iff.1 hx
  obtain ⟨c, hc, rfl⟩ := Option.map_eq_some_iff.1 hx
  have hdis := Sched.dispatching_eq_some.1 hc
  have henc := of_decide_eq_true henc
  obtain ⟨s₀, hb, hrep⟩ := boot_represents 1 2
  obtain ⟨s, hr, hrep'⟩ := hrep.run_back (Sched.bootedSched_inv 1 2) (Sched.run_of_exec ha)
  refine ⟨s₀, s, _, a, c, ⟨hb, hr, hrep', hdis⟩, henc, ?_⟩
  exact ((due_test_iff hb hr hrep' hdis henc (by decide) (by decide)).2 (by decide)).2 (by decide)

/-- The setup task has run alone for 65535 ticks. -/
def beforeWrap : Sched := { bootedSched 1 2 with sysClock := 65535, clockState := .even }

theorem run_beforeWrap :
    Run Sched.Step (bootedSched 1 2) (List.replicate 65535 .timer) beforeWrap := by
  obtain ⟨clock, state, hr⟩ := Sched.run_alone (a := bootedSched 1 2) rfl rfl rfl rfl 65535
  have hread := Sched.run_reads hr (bootedSched_reads 1 2)
  rw [List.count_replicate_self, Nat.zero_add] at hread
  have hclock : clock = 65535 := BitVec.eq_of_toNat_eq hread.clock
  have hstate : state = .even := hread.state
  rw [hclock, hstate] at hr
  exact hr

/-- A periodic task is released at tick 65535, the clock wraps, and the system task that ran in
between ends: the periodic task is not considered due, and the idle process runs. -/
theorem due_lost_at_wrap : ∃ (s₀ s s' : Kernel) (es : List Entry) (a c : Sched),
    (boot 1 2 = .ok s₀ ∧ Run Step s₀ es s ∧ s.UserMode a ∧ a.Dispatches (.call .taskTerminate) c) ∧
    (es ++ [Entry.call .taskTerminate]).count .timer = 65536 ∧
    (∃ p, (c.level .periodic).head? = some p ∧ (c.task p).priority = .periodic ∧
      Encodes (c.task p).tons (c.task p).clockState 65535 ∧ c.due p = false) ∧
    s.Step (.call .taskTerminate) s' ∧ s'.cp = some .idleProcess := by
  have hex : ∃ x ∈ ((Run.exec Sched.advance beforeWrap
      [.call (.taskCreatePeriod (some 3) 0 10 5 0), .timer]).bind fun a =>
        (a.dispatching (.call .taskTerminate)).bind fun c =>
          (a.advance (.call .taskTerminate)).map fun a' => (a, c, a')).filter fun x =>
            x.2.2.current = .idleProcess ∧
            (x.2.1.level .periodic).head? = some (.process 1) ∧
            (x.2.1.task (.process 1)).priority = .periodic ∧
            Encodes (x.2.1.task (.process 1)).tons (x.2.1.task (.process 1)).clockState 65535 ∧
            x.2.1.due (.process 1) = false, True :=
    exists_mem_of_isSome (by decide +kernel) fun _ _ => trivial
  obtain ⟨x, hx, -⟩ := hex
  obtain ⟨hx, hfacts⟩ := Option.filter_eq_some_iff.1 hx
  obtain ⟨hidle, hhead, hprio, henc, hdue⟩ := of_decide_eq_true hfacts
  obtain ⟨a, ha, hx⟩ := Option.bind_eq_some_iff.1 hx
  obtain ⟨c, hc, hx⟩ := Option.bind_eq_some_iff.1 hx
  obtain ⟨a', ha', rfl⟩ := Option.map_eq_some_iff.1 hx
  have hrun := run_beforeWrap.append (Sched.run_of_exec ha)
  obtain ⟨s₀, hb, hrep⟩ := boot_represents 1 2
  obtain ⟨s, hr, hrep'⟩ := hrep.run_back (Sched.bootedSched_inv 1 2) hrun
  have hinv := hrun.invariant (Sched.bootedSched_inv 1 2) fun _ _ _ ha hs => hs.inv ha
  obtain ⟨s', hs', hrep''⟩ := hrep'.step_back hinv (Sched.advance_step ha')
  refine ⟨s₀, s, s', _, a, c, ⟨hb, hr, hrep', Sched.dispatching_eq_some.1 hc⟩, ?_,
    ⟨.process 1, hhead, hprio, henc, hdue⟩, hs', ?_⟩
  · rw [List.count_append, List.count_append, List.count_replicate_self]
    decide
  · rw [hrep''.current]
    exact congrArg some hidle

end Kernel

end RoombaRtos
