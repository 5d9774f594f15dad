import RoombaRtos.FirstCome
import RoombaRtos.Timeline
import RoombaRtos.EarlyReturn

/-!
# Preemption

`Dispatch` moves the current task to the back of its queue whenever it is called: also when the
task has not yielded, and when a task of a higher level takes the processor from it.

* `Exchange.Wakes` — the request makes a process ready;
* `Sched.Step.runs_on_iff` — when a system task goes on running;
* `Kernel.system_runs_on_iff` — the same for the kernel;
* `Sched.FirstInLine` — a round-robin task is the next of its level;
* `Kernel.keeps_place_iff` — when a preempted round-robin task is resumed first.
-/

namespace RoombaRtos

open ListQueue Lockstep

/-! ### Who becomes ready -/

namespace Exchange

variable {x : Exchange} {i j : Slot} {c : ApiCall}

/-- The call `c` of another process makes the process `j` active. -/
def Wakes (x : Exchange) (j : Slot) : ApiCall → Prop
  | .taskCreateSystem _ _ => x.freeSlot = some j
  | .taskCreateRR _ _ => x.freeSlot = some j
  | .taskCreatePeriod _ _ _ _ _ => x.freeSlot = some j
  | .msgSend id t _ => x.target id = some j ∧ x.awaits j t = true
  | .msgRply id _ => x.target id = some j ∧ x.phase j = .replyBlock
  | .msgASend id t _ => x.target id = some j ∧ x.awaits j t = true
  | _ => False

theorem target_eq_some_iff {id : Pid} :
    x.target id = some j ↔ validId id = some j ∧ x.phase j ≠ .dead := by
  rw [target, Option.filter_eq_some_iff]
  simp

theorem wake_iff (k : Slot) (x : Exchange) :
    (x.setPhase k .active).phase j = .active ↔ x.phase j = .active ∨ k = j := by
  by_cases hk : j = k
  · subst hk
    simp [setPhase_self]
  · rw [setPhase_other hk]
    simp [Ne.symm hk]

/-- To wake the process `k`, which is one that satisfies `p`. -/
theorem wake_target_iff {o : Option Slot} {k : Slot} {p : Slot → Prop} (ht : o = some k)
    (hk : p k) : (x.setPhase k .active).phase j = .active ↔
      x.phase j = .active ∨ o = some j ∧ p j := by
  rw [wake_iff, ht, Option.some.injEq]
  exact or_congr_right ⟨fun h => ⟨h, h ▸ hk⟩, fun h => h.1⟩

theorem create_active_iff (b : Bool) : (x.create i b).phase j = .active ↔
    x.phase j = .active ∨ x.freeSlot = some j := by
  cases hf : x.freeSlot with
  | none => simp [create, hf]
  | some k =>
    have he : (x.create i b).phase = (x.setPhase k .active).phase := by
      simp only [create, hf]
      rfl
    rw [he, wake_iff, Option.some.injEq]

theorem send_active_iff (hj : j ≠ i) (id : Pid) (t : MType) (v : Option Addr) :
    (x.send i id t v).phase j = .active ↔
      x.phase j = .active ∨ x.target id = some j ∧ x.awaits j t = true := by
  rcases x.send_cases i id t v with ⟨ht, he⟩ | ⟨k, ht, hw, he⟩ | ⟨k, ht, hw, he⟩
  · simp [he, ht]
  · rw [he]
    show ((x.setPhase k .active).setPhase i .replyBlock).phase j = .active ↔ _
    rw [setPhase_other hj]
    exact wake_target_iff (p := fun l => x.awaits l t = true) ht hw
  · rw [he, ht]
    have hsame : (x.post i (letter i id t v)).phase j = x.phase j := setPhase_other hj _ _
    rw [hsame, Option.some.injEq]
    refine (or_iff_left ?_).symm
    rintro ⟨rfl, hw'⟩
    rw [hw] at hw'
    cases hw'

/-- The sender that a receiver takes a message from waits for a reply. -/
theorem Posted.recv_active_iff (hx : x.Posted) (hj : j ≠ i) (m : Mask) :
    (x.recv i m).phase j = .active ↔ x.phase j = .active := by
  rcases hx.recv_cases i m with ⟨m', k, -, -, hk, he⟩ | ⟨-, he⟩
  · rw [he]
    by_cases hjk : j = k
    · subst hjk
      rw [hk]
      exact iff_of_false (by simp [Exchange.take, setPhase_self]) (by simp)
    · have hsame : (x.take i m m' k).phase j = x.phase j := setPhase_other hjk _ _
      rw [hsame]
  · rw [he, setPhase_other hj]

theorem reply_active_iff (id : Pid) (r : Word) : (x.reply id r).phase j = .active ↔
    x.phase j = .active ∨ x.target id = some j ∧ x.phase j = .replyBlock := by
  rcases x.reply_cases id r with ⟨k, ht, hk, he⟩ | ⟨hno, he⟩
  · rw [he]
    exact wake_target_iff (p := fun l => x.phase l = .replyBlock) ht hk
  · rw [he]
    exact (or_iff_left fun h => hno j h.1 h.2).symm

theorem asend_active_iff (id : Pid) (t : MType) (r : Word) :
    (x.asend i id t r).phase j = .active ↔
      x.phase j = .active ∨ x.target id = some j ∧ x.awaits j t = true := by
  rcases x.asend_cases i id t r with ⟨k, ht, hw, he⟩ | ⟨hno, he⟩
  · rw [he]
    exact wake_target_iff (p := fun l => x.awaits l t = true) ht hw
  · rw [he]
    refine (or_iff_left fun h => ?_).symm
    have hw := hno j h.1
    rw [h.2] at hw
    cases hw

/-- **Who is active after a call**, other than the caller. -/
theorem Posted.call_active_iff (hx : x.Posted) (hj : j ≠ i) (hi : x.phase i = .active) :
    (x.call i c).phase j = .active ↔ x.phase j = .active ∨ x.Wakes j c := by
  set y := x.begin i c with hy
  have hxy : y.Posted := ⟨hx.sender, hx.nodup⟩
  have hphase : y.phase = x.phase := rfl
  have hawaits : ∀ k t, y.awaits k t = x.awaits k t := fun k t => begin_awaits hi k t
  cases c with
  | osAbort error => simp [call, serve, ← hy, hphase, Wakes]
  | taskCreateSystem f arg => exact create_active_iff false
  | taskCreateRR f arg => exact create_active_iff false
  | taskCreatePeriod f arg period wcet offset => exact create_active_iff true
  | taskNext => simp [call, serve, ← hy, hphase, Wakes]
  | taskGetArg => simp [call, serve, ← hy, hphase, Wakes]
  | taskPid => simp [call, serve, ← hy, setSlip, hphase, Wakes]
  | taskTerminate =>
    have he : (x.call i .taskTerminate).phase j = x.phase j :=
      setPhase_other hj _ .dead
    rw [he]
    simp [Wakes]
  | msgSend id t v =>
    show (y.send i id t v).phase j = .active ↔ _ ∨ x.target id = some j ∧ x.awaits j t = true
    rw [← hawaits]
    exact send_active_iff hj id t v
  | msgRecv m v =>
    show (y.recv i m).phase j = .active ↔ _ ∨ False
    rw [or_false]
    exact hxy.recv_active_iff hj m
  | msgRply id r => exact reply_active_iff id r
  | msgASend id t r =>
    show (y.asend i id t r).phase j = .active ↔ _ ∨ x.target id = some j ∧ x.awaits j t = true
    rw [← hawaits]
    exact asend_active_iff id t r
  | now => simp [call, serve, ← hy, hphase, Wakes]

end Exchange

/-! ### Going on -/

namespace Sched

variable {a a' c : Sched} {s : Kernel} {e : Entry} {p : PDPtr} {q : PriorityLevel}
  {r : InfoPtr PDPtr} {k : KernelRequestType} {l : List PDPtr} {i : Slot}

theorem eq_ready {st : ProcessState} (hd : st ≠ .dead) (hr : st ≠ .running)
    (hb : st.blocked = false) : st = .ready := by
  cases st <;> simp [ProcessState.blocked] at *

/-- A handler changes no priority. -/
theorem Change.priority (h : Change a r k c) (hp : (a.task p).state ≠ .dead) :
    (c.task p).priority = (a.task p).priority := by
  cases h with
  | states hk h =>
    obtain ⟨st, hst⟩ := h.task p
    rw [hst]
  | install hx hq =>
    rw [setInfo_task, install_task, Function.update_of_ne]
    rintro rfl
    exact hp hx
  | @yield t ht =>
    obtain ⟨tons, ticks, clock, rfl⟩ := yieldTask_ok ht
    rw [setTask_task]
    by_cases hpc : p = a.current
    · subst hpc
      rw [Function.update_self]
    · rw [Function.update_of_ne hpc]
  | @tick t ht =>
    obtain ⟨ticks, rfl⟩ := chargeTick_ok ht
    show ((a.setTask a.current fun _ => _).task p).priority = _
    rw [setTask_task]
    by_cases hpc : p = a.current
    · subst hpc
      rw [Function.update_self]
    · rw [Function.update_of_ne hpc]
  | bury hq => rw [bury_task, setState_priority]

/-- A handler changes the levels of system and round-robin tasks at their ends only, unless a task
of the level terminates. -/
theorem Change.level_prefix (h : Change a r k c) (hq : q = .system ∨ q = .rr)
    (hk : ¬ (k = .terminate ∧ (a.task a.current).priority = q)) : a.level q <+: c.level q := by
  cases h with
  | states hk h => rw [h.level]
  | @install x f g hx hadm =>
    rw [setInfo_level]
    by_cases hqp : (a.info r).priority = q
    · subst hqp
      rw [Sched.install, setLevel_level, Function.update_self]
      rcases hq with hq | hq <;> simp [join, hq]
    · obtain ⟨l, -, hlevel⟩ := a.install_level x f (a.info r)
      rw [hlevel, Function.update_of_ne (Ne.symm hqp)]
  | yield ht => exact List.prefix_rfl
  | tick ht => exact List.prefix_rfl
  | bury hp =>
    rw [bury_level, Function.update_of_ne fun heq => hk ⟨rfl, heq.symm⟩]

/-- A process that comes to life has the priority of the request. -/
theorem Change.born (h : Change a r k c) (ha : a.Entered) (hc : c.Handling)
    (hd : (a.task (.process i)).state = .dead) (hi : (c.task (.process i)).state ≠ .dead) :
    k = .create ∧ (c.task (.process i)).priority = (a.info r).priority := by
  have hcur : PDPtr.process i ≠ a.current := by
    intro heq
    rw [heq, ha.ready] at hd
    cases hd
  cases h with
  | states hk h => exact absurd hd (hc.alive_of_level ha.levels h.level hi)
  | @install x f g hx hadm =>
    refine ⟨rfl, ?_⟩
    rw [setInfo_task, install_task] at hi ⊢
    by_cases hix : PDPtr.process i = .process x
    · rw [hix, Function.update_self]
      exact (newTask_spec _ _ _ _).2.1
    · rw [Function.update_of_ne hix] at hi
      exact absurd hd hi
  | yield ht =>
    rw [setTask_task, Function.update_of_ne hcur] at hi
    exact absurd hd hi
  | @tick t ht =>
    have hsame : (a.setTask a.current fun _ => t).advanceClock.task (.process i) =
        a.task (.process i) := Function.update_of_ne hcur _ _
    rw [hsame] at hi
    exact absurd hd hi
  | bury hp =>
    rw [bury_task, setState_other hcur] at hi
    exact absurd hd hi

/-- The priority of a process after an entry: the one it had, or the one it was created with. -/
theorem Step.priority (hs : a.Step e a') (ha : a.Inv)
    (hi : (a'.task (.process i)).state ≠ .dead) : (a'.task (.process i)).priority =
      if (a.task (.process i)).state = .dead then e.params.priority
      else (a.task (.process i)).priority := by
  have hprio := a.suspend_priority e (.process i)
  have hdead := ha.suspend_dead_iff e (.process i)
  obtain ⟨c, d, b, hc, rfl, hd⟩ := enter_parts hs.2
  have hch := (handled_cases hc).change
  rw [setInfo_task] at hi ⊢
  rcases hd with ⟨rfl, hd⟩ | ⟨rfl, rfl⟩
  · have hh := Dispatches.handling hc ha hs.1
    rw [hh.dispatch_priority hd]
    split_ifs with hx
    · obtain ⟨hk, hborn⟩ := hch.born (ha.suspend e) hh (hdead.2 hx)
        ((hh.dispatch_timing hd (.process i)).2.not.1 hi)
      rw [hborn, suspend_params a e]
      rintro rfl
      cases hk
    · rw [hch.priority (hdead.not.2 hx), hprio]
  · obtain ⟨info, rfl⟩ := (handled_cases hc).quiet.2
    rw [if_neg (hdead.not.1 hi)]
    exact hprio

/-- Dispatching resumes a ready system task exactly if no other system task is ready. -/
theorem Handling.dispatch_same_iff (h : c.Handling) (hl : c.level .system = c.current :: l)
    (hp : c.ready c.current = true) (he : c.dispatch = .ok a') :
    a'.current = c.current ↔ ∀ x ∈ l, c.ready x = false := by
  have hprio : (c.task c.current).priority = .system :=
    h.levels.priority _ _ (by rw [hl]; exact List.mem_cons_self)
  have hnd : c.current ∉ l := (List.nodup_cons.1 (hl ▸ h.levels.nodup .system)).1
  have hmove : c.requeue.level .system = l ++ [c.current] := by
    rw [requeue_level (Or.inl rfl), if_pos hprio, hl, List.rotate_cons_succ, List.rotate_zero]
  have hready := c.requeue_ready
  have hfind : (c.requeue.level .system).find? c.requeue.ready =
      some ((l.find? c.ready).getD c.current) := by
    rw [hmove, hready, List.find?_append]
    cases l.find? c.ready <;> simp [hp]
  have hsel := select_of_find? (Or.inl rfl) (fun hq => by cases hq) hfind
  obtain rfl := Except.ok.inj (he.symm.trans hsel)
  rw [run_current]
  cases hf : l.find? c.ready with
  | none => exact iff_of_true rfl fun x hx => by simpa using List.find?_eq_none.1 hf x hx
  | some p =>
    have hmem := List.mem_of_find?_eq_some hf
    refine iff_of_false (fun heq => hnd (heq ▸ hmem)) fun hall => ?_
    have hready' := List.find?_some hf
    rw [hall p hmem] at hready'
    cases hready'

/-- A handler leaves the current task the current one. -/
theorem Change.current (h : Change a r k c) : c.current = a.current := by
  cases h with
  | states hk h => exact h.current
  | install hx hq => rfl
  | yield ht => rfl
  | tick ht => rfl
  | bury hp => rfl

/-- Before a dispatch the active processes are the ready ones. -/
theorem Handling.active_iff (h : c.Handling) (j : Slot) :
    c.exchange.phase j = .active ↔ c.ready (.process j) = true := by
  show (c.task (.process j)).state.phase = .active ↔ _
  rw [phase_eq_active, ready_iff, or_iff_left (h.stopped _)]

/-- A dispatch keeps the task at the head of the system queue, which is ready, if no other system
task is ready. -/
theorem Handling.dispatch_runs_on_iff {b : Sched} (hh : c.Handling) (hi : c.current = .process i)
    (hl : c.level .system = c.current :: l) (hready : c.ready c.current = true)
    (hd : c.dispatch = .ok b) : b.current = c.current ↔ ∀ j, j ≠ i →
      b.exchange.phase j = .active → (b.task (.process j)).priority ≠ .system := by
  have hnd : c.current ∉ l := (List.nodup_cons.1 (hl ▸ hh.levels.nodup .system)).1
  have hactive : ∀ j, b.exchange.phase j = .active ↔ c.ready (.process j) = true := by
    intro j
    rw [hh.dispatch_exchange hd, hh.active_iff]
  rw [hh.dispatch_same_iff hl hready hd]
  constructor
  · intro hall j hji hj hprio
    have hrj := (hactive j).1 hj
    have hlive : (c.task (.process j)).state ≠ .dead := by simp [ready_iff.1 hrj]
    have hmem := hh.levels.linked j hlive
    rw [← hh.dispatch_priority hd, hprio, hl, List.mem_cons, hi] at hmem
    have hl' := hmem.resolve_left (by simpa using hji)
    rw [hall _ hl'] at hrj
    cases hrj
  · intro hall x hx
    have hmem : x ∈ c.level .system := by
      rw [hl]
      exact List.mem_cons_of_mem _ hx
    obtain ⟨j, rfl⟩ := hh.levels.user _ x hmem
    by_contra hrj
    rw [Bool.not_eq_false] at hrj
    refine hall j ?_ ((hactive j).2 hrj) ?_
    · rintro rfl
      rw [hi] at hnd
      exact hnd hx
    · rw [hh.dispatch_priority hd]
      exact hh.levels.priority _ _ hmem

/-- **When a system task goes on running**: the handler returns early, or no other system task is
ready afterwards. -/
theorem Step.runs_on_iff (hs : a.Step e a') (ha : a.Inv) (hst : a.Stubs) (hrep : s.UserMode a)
    (hi : a.current = .process i) (hsys : (a.task a.current).priority = .system)
    (hterm : e ≠ .call .taskTerminate) (hrun : (a'.task a.current).state.blocked = false) :
    a'.current = a.current ↔ (s.reachesDispatch e = true → ∀ j, j ≠ i →
      a'.exchange.phase j = .active → (a'.task (.process j)).priority ≠ .system) := by
  obtain ⟨c, d, b, hc, rfl, hd⟩ := enter_parts hs.2
  rw [← ha.handled_reaches hst hrep hs.1 hc]
  rcases hd with ⟨rfl, hd⟩ | ⟨rfl, rfl⟩
  · have hch := (handled_cases hc).change
    have hh := Dispatches.handling hc ha hs.1
    have hcur : c.current = a.current := hch.current.trans (a.suspend_current e)
    -- the current task is still at the head of its level
    obtain ⟨l, hl⟩ : ∃ l, c.level .system = c.current :: l := by
      obtain ⟨t, ht⟩ := hch.level_prefix (Or.inl rfl) fun hk => hterm (request_terminate_iff.1 hk.1)
      have hfront := ha.front.resolve_left (by rw [hi]; simp)
      rw [hsys] at hfront
      obtain ⟨l, hl⟩ := List.head?_eq_some_iff.1 hfront
      rw [suspend_level, hl] at ht
      exact ⟨l ++ t, by rw [← ht, hcur]; rfl⟩
    have hready : c.ready c.current = true := by
      have hlive := hh.levels.live .system c.current (by rw [hl]; exact List.mem_cons_self)
      have hstop := hh.stopped c.current
      obtain ⟨p, hp, -, ht, -, -⟩ := hh.dispatch_frame hd
      rw [setInfo_task, ht, ← hcur] at hrun
      by_cases hpc : c.current = p
      · subst hpc
        refine hp.resolve_left ?_
        rw [hcur, hi]
        simp
      · rw [setState_other hpc] at hrun
        exact ready_iff.2 (eq_ready hlive hstop hrun)
    rw [setInfo_current, ← hcur, hh.dispatch_runs_on_iff (hcur.trans hi) hl hready hd]
    exact ⟨fun h _ => h, fun h => h rfl⟩
  · have hcur := (ha.early_return hc).1
    exact iff_of_true hcur fun hd => by cases hd

end Sched

namespace Kernel

variable {s s' : Kernel} {a a' : Sched} {e : Entry} {cp : PDPtr} {i j : Slot} {c : ApiCall}

/-- The entry makes the process `x` ready: it creates it, replies to it, or brings it a message
that it waits for. -/
def Rouses (s : Kernel) (x : Slot) : Entry → Prop
  | .call (.taskCreateSystem _ _) => s.findDead = some x
  | .call (.taskCreateRR _ _) => s.findDead = some x
  | .call (.taskCreatePeriod _ _ _ _ _) => s.findDead = some x
  | .call (.msgSend id t _) => validId id = some x ∧ s.awaits (.process x) t = true
  | .call (.msgRply id _) => validId id = some x ∧ (s.pd (.process x)).state = .replyBlock
  | .call (.msgASend id t _) => validId id = some x ∧ s.awaits (.process x) t = true
  | _ => False

/-- The process `x` is ready as a system task, or the entry makes it so. -/
structure Competes (s : Kernel) (x : Slot) (e : Entry) : Prop where
  ready : (s.pd (.process x)).state = .ready ∨ s.Rouses x e
  system : (if (s.pd (.process x)).state = .dead then e.params.priority
    else (s.pd (.process x)).priority) = .system

theorem Represents.rouses_iff (h : s.UserMode a) (ha : a.Stubs) (c : ApiCall) :
    s.Rouses j (.call c) ↔ a.exchange.Wakes j c := by
  have hcreate : s.findDead = some j ↔ a.exchange.freeSlot = some j := by
    rw [h.findDead_eq, Sched.Serving.freeSlot_eq]
  have hawaits : ∀ id t, (validId id = some j ∧ s.awaits (.process j) t = true) ↔
      (a.exchange.target id = some j ∧ a.exchange.awaits j t = true) := by
    intro id t
    rw [Exchange.target_eq_some_iff, h.awaits_eq, Sched.Serving.awaits_eq ha, and_assoc]
    refine and_congr_right fun _ => (and_iff_right_of_imp fun hw => ?_).symm
    rw [(Exchange.awaits_eq_true hw).1]
    simp
  cases c with
  | taskCreateSystem f arg => exact hcreate
  | taskCreateRR f arg => exact hcreate
  | taskCreatePeriod f arg period wcet offset => exact hcreate
  | msgSend id t v => exact hawaits id t
  | msgASend id t v => exact hawaits id t
  | msgRply id r =>
    show (validId id = some j ∧ (s.pd (.process j)).state = .replyBlock) ↔
      (a.exchange.target id = some j ∧ a.exchange.phase j = .replyBlock)
    rw [Exchange.target_eq_some_iff, h.phase_eq, and_assoc]
    refine and_congr_right fun _ => ?_
    cases (s.pd (.process j)).state <;> simp [ProcessState.phase]
  | _ => exact Iff.rfl

/-- Which other processes are ready as system tasks after an entry. -/
theorem Represents.competes_iff (h : s.UserMode a) (ha : a.Inv) (hst : a.Stubs)
    (hs : a.Step e a') (hi : a.current = .process i) (hj : j ≠ i) :
    s.Competes j e ↔
      a'.exchange.phase j = .active ∧ (a'.task (.process j)).priority = .system := by
  have hready : a.exchange.phase j = .active ↔ (s.pd (.process j)).state = .ready := by
    rw [h.phase_eq, Sched.phase_eq_active, or_iff_left]
    intro hrun
    rw [h.state] at hrun
    have hcur := (ha.running _ hrun).trans hi
    exact hj (PDPtr.process.inj hcur)
  have hactive : a'.exchange.phase j = .active ↔
      (s.pd (.process j)).state = .ready ∨ s.Rouses j e := by
    rcases hs.exchange ha hst with ⟨rfl, hx⟩ | ⟨i', c, rfl, hi', hx⟩
    · rw [hx, hready]
      exact (or_iff_left fun hr => hr).symm
    · obtain rfl : i' = i := PDPtr.process.inj (hi'.symm.trans hi)
      rw [hx, ha.exchange_posted.call_active_iff hj (ha.exchange_active hi), hready,
        h.rouses_iff hst]
  have hprio : a'.exchange.phase j = .active → (a'.task (.process j)).priority =
      if (s.pd (.process j)).state = .dead then e.params.priority
      else (s.pd (.process j)).priority := by
    intro hact
    rw [h.state, h.priority]
    refine hs.priority ha fun hd => ?_
    have hdead : a'.exchange.phase j = .dead := Sched.phase_eq_dead.2 hd
    rw [hdead] at hact
    cases hact
  constructor
  · rintro ⟨hr, hsys⟩
    have hact := hactive.2 hr
    exact ⟨hact, (hprio hact).trans hsys⟩
  · rintro ⟨hact, hsys⟩
    exact ⟨hactive.1 hact, (hprio hact).symm.trans hsys⟩

/-- **System tasks go on running, exactly.**  A system task that does not terminate and is not
blocked by its call is resumed after a kernel entry exactly if the handler returns early, or no
other system task was ready before the entry or is made ready by it. -/
theorem system_runs_on_iff (h : s.Reachable) (hs : s.Step e s') (hcp : s.cp = some cp)
    (hsys : (s.pd cp).priority = .system) (hterm : e ≠ .call .taskTerminate)
    (hblock : (s'.pd cp).state.blocked = false) : s'.cp = some cp ↔
      (s.reachesDispatch e = true → ∀ x, .process x ≠ cp → ¬ s.Competes x e) := by
  obtain ⟨a, ha, hrep⟩ := h.represents
  obtain ⟨a', hstep, hrep'⟩ := hrep.step ha.inv hs
  obtain rfl : a.current = cp := Option.some.inj (hrep.current.symm.trans hcp)
  have hprio := (hrep.priority a.current).symm.trans hsys
  obtain ⟨i, hi⟩ : ∃ i, a.current = .process i := by
    cases hc : a.current with
    | process i => exact ⟨i, rfl⟩
    | idleProcess =>
      rw [hc, ha.inv.levels.idle] at hprio
      cases hprio
  rw [hrep'.state] at hblock
  rw [hrep'.current, Option.some.injEq,
    hstep.runs_on_iff ha.inv ha.stubs hrep hi hprio hterm hblock]
  refine imp_congr_right fun _ => forall_congr' fun j => ?_
  rw [hi]
  refine imp_congr_ctx (by simp) fun hj => ?_
  have hji : j ≠ i := by simpa using hj
  rw [hrep.competes_iff ha.inv ha.stubs hstep hi hji]
  exact ⟨fun hall hc => hall hc.1 hc.2, fun hall hact hp => hall ⟨hact, hp⟩⟩

/-- A tick hits the setup task while a round-robin task waits. -/
theorem system_runs_on_alone :
    ∃ p ∈ ((after (fun _ _ => true) 1 2 [.call (.taskCreateRR (some 3) 0)]).bind fun s =>
          (s.advance (fun _ _ => true) .timer).map fun s' => (s, s')).filter fun p =>
        p.1.cp = some (.process 0) ∧ (p.1.pd (.process 0)).priority = .system ∧
          (p.2.pd (.process 0)).state.blocked = false ∧
          ∀ x, (p.1.pd (.process x)).state = .ready → (p.1.pd (.process x)).priority ≠ .system,
      p.2.cp = some (.process 0) := by
  refine exists_mem_of_isSome (by decide +kernel) fun p hp => ?_
  obtain ⟨hp, hfacts⟩ := Option.filter_eq_some_iff.1 hp
  obtain ⟨hcp, hsys, hblock, hothers⟩ := of_decide_eq_true hfacts
  obtain ⟨s, hs, hp⟩ := Option.bind_eq_some_iff.1 hp
  obtain ⟨s', hs', rfl⟩ := Option.map_eq_some_iff.1 hp
  refine (system_runs_on_iff (reachable_of_after hs) (advance_step hs').1 hcp hsys (by simp)
    hblock).2 fun _ x _ hc => ?_
  have hready : (s.pd (.process x)).state = .ready := hc.ready.resolve_right fun h => h
  have hprio := hc.system
  rw [if_neg (by simp [hready])] at hprio
  exact hothers x hready hprio

/-- The setup task has created another system task, which runs: a tick gives the processor back
to the setup task. -/
theorem system_tasks_alternate :
    ∃ p ∈ (after (fun _ _ => true) 1 2 [.call (.taskCreateSystem (some 3) 0)]).bind fun s =>
        (s.advance (fun _ _ => true) .timer).map fun s' => (s, s'),
      (p.1.Reachable ∧ p.1.Step .timer p.2) ∧
        p.1.cp = some (.process 1) ∧ (p.1.pd (.process 1)).priority = .system ∧
        (p.2.pd (.process 1)).state.blocked = false ∧ p.2.cp ≠ some (.process 1) := by
  have hex : ∃ p ∈ ((after (fun _ _ => true) 1 2 [.call (.taskCreateSystem (some 3) 0)]).bind
        fun s => (s.advance (fun _ _ => true) .timer).map fun s' => (s, s')).filter fun p =>
      p.1.cp = some (.process 1) ∧ (p.1.pd (.process 1)).priority = .system ∧
        (p.2.pd (.process 1)).state.blocked = false ∧ p.2.cp ≠ some (.process 1), True :=
    exists_mem_of_isSome (by decide +kernel) fun _ _ => trivial
  obtain ⟨p, hp, -⟩ := hex
  obtain ⟨hp, hfacts⟩ := Option.filter_eq_some_iff.1 hp
  refine ⟨p, hp, ?_, of_decide_eq_true hfacts⟩
  obtain ⟨s, hs, hp⟩ := Option.bind_eq_some_iff.1 hp
  obtain ⟨s', hs', rfl⟩ := Option.map_eq_some_iff.1 hp
  exact ⟨reachable_of_after hs, (advance_step hs').1⟩

end Kernel

/-! ### Being preempted -/

namespace Sched

variable {a a' c : Sched} {e : Entry} {p : PDPtr} {r : InfoPtr PDPtr} {k : KernelRequestType}
  {l : List PDPtr}

/-- A task of another level runs, and the ready round-robin task `p` is the first of its level. -/
structure FirstInLine (a : Sched) (p : PDPtr) : Prop where
  ready : a.ready p = true
  first : (a.level .rr).head? = some p
  above : (a.task a.current).priority ≠ .rr

/-- The round-robin task `p` runs. -/
def Resumed (a : Sched) (p : PDPtr) : Prop := a.current = p ∧ (a.task p).priority = .rr

/-- A dispatch runs the first round-robin task, or leaves it the first. -/
theorem Handling.dispatch_first (h : c.Handling) (hp : c.ready p = true)
    (hl : (c.requeue.level .rr).head? = some p) (he : c.dispatch = .ok a') :
    a'.Resumed p ∨ a'.FirstInLine p := by
  have hprio := h.dispatch_priority he
  have hrr := h.requeue.levels.priority _ _ (List.mem_of_head? hl)
  have hp' : c.requeue.ready p = true := by rwa [requeue_ready]
  rw [requeue_task] at hrr
  rcases h.requeue.select_level (Or.inr rfl) he with ⟨hf, -⟩ | ⟨hne, hlevel⟩
  · obtain ⟨t, ht⟩ := List.head?_eq_some_iff.1 hl
    rw [ht, List.find?_cons_of_pos hp'] at hf
    exact Or.inl ⟨(Option.some.inj hf).symm, (hprio p).trans hrr⟩
  · rw [requeue_task] at hne
    have hpc : p ≠ a'.current := by
      rintro rfl
      exact hne hrr
    obtain ⟨p', -, hcur, ht, -, -⟩ := h.dispatch_frame he
    refine Or.inr ⟨?_, by rw [hlevel, hl], by rw [hprio]; exact hne⟩
    rw [ready_iff, ht, setState_other (hcur ▸ hpc)]
    exact ready_iff.1 hp

/-- **One step at the other levels.**  The first round-robin task is resumed, or it is still the
first. -/
theorem FirstInLine.step (h : a.FirstInLine p) (ha : a.Inv) (hs : a.Step e a') :
    a'.Resumed p ∨ a'.FirstInLine p := by
  have hprio := a.suspend_priority e a.current
  have hpc : p ≠ a.current := by
    rintro rfl
    exact h.above (ha.levels.priority _ _ (List.mem_of_head? h.first))
  have hready : (a.suspend e).1.ready p = true := by
    rw [suspend_ready_of_ne a e hpc]
    exact h.ready
  obtain ⟨c, d, b, hc, rfl, ⟨rfl, hd⟩ | ⟨rfl, rfl⟩⟩ := enter_parts hs.2
  · have hhandled := handled_cases hc
    have hch := hhandled.change
    have habove : ((a.suspend e).1.task (a.suspend e).1.current).priority ≠ .rr := by
      rw [suspend_current, hprio]
      exact h.above
    have hlive : ((a.suspend e).1.task (a.suspend e).1.current).state ≠ .dead := by
      rw [(ha.suspend e).ready]
      simp
    obtain ⟨t, ht⟩ := hch.level_prefix (Or.inr rfl) fun hk => habove hk.2
    have hmove : c.requeue.level .rr = c.level .rr := by
      rw [requeue_level (Or.inr rfl), hch.current, hch.priority hlive, if_neg habove]
    have hfirst : (c.requeue.level .rr).head? = some p := by
      obtain ⟨l, hl⟩ := List.head?_eq_some_iff.1 h.first
      rw [hmove, ← ht, suspend_level, hl]
      rfl
    have hcp := hhandled.ready (ha.suspend e) hready (by rw [suspend_current]; exact hpc)
    rcases (Dispatches.handling hc ha hs.1).dispatch_first hcp hfirst hd with hcur | hline
    · exact Or.inl hcur
    · exact Or.inr ⟨hline.ready, hline.first, hline.above⟩
  · obtain ⟨info, rfl⟩ := (handled_cases hc).quiet.2
    refine Or.inr ⟨hready, ?_, ?_⟩
    · show ((a.suspend e).1.level .rr).head? = some p
      rw [suspend_level]
      exact h.first
    · show ((a.suspend e).1.task (a.suspend e).1.current).priority ≠ .rr
      rw [suspend_current, hprio]
      exact h.above

/-- Where nothing above can run, a round-robin task dispatches to its level or below. -/
theorem Handling.dispatch_below (h : c.Handling) (hcur : (c.task c.current).priority = .rr)
    (hsys : ∀ p ∈ c.level .system, c.ready p = false) (hdue : c.duePeriodic = none)
    (he : c.dispatch = .ok a') :
    (a'.task a'.current).priority ≠ .system ∧ (a'.task a'.current).priority ≠ .periodic := by
  have hlevel : c.requeue.level .system = c.level .system := by
    rw [requeue_level (Or.inl rfl), hcur, if_neg (by simp)]
  rw [h.dispatch_priority he, ← requeue_task]
  rcases select_cases he with ⟨p, hf, rfl⟩ | ⟨-, ⟨p, hf, -, rfl⟩ | ⟨-, ⟨p, hf, rfl⟩ | ⟨-, rfl⟩⟩⟩
  · have hready := List.find?_some hf
    have hmem := List.mem_of_find?_eq_some hf
    rw [Sched.ready, requeue_task] at hready
    rw [hlevel] at hmem
    exact absurd hready (by simpa [Sched.ready] using hsys p hmem)
  · rw [requeue_duePeriodic (by simp [hcur]), hdue] at hf
    cases hf
  · have hprio := h.requeue.levels.priority _ p (List.mem_of_find?_eq_some hf)
    rw [run_current, hprio]
    simp
  · rw [run_current, h.requeue.levels.idle]
    simp

/-- A new round-robin task lets nothing above run. -/
theorem Settled.install_rr {x : Slot} {f : BitVec 16} {q : KernelRequestParams} (hset : a.Settled)
    (ha : a.Levels) (hcur : (a.task a.current).priority = .rr)
    (hx : (a.task (.process x)).state = .dead) (hq : q.priority = .rr) :
    (∀ p ∈ (a.install x f q).level .system, (a.install x f q).ready p = false) ∧
      (a.install x f q).duePeriodic = none := by
  obtain ⟨l, -, hlevel⟩ := a.install_level x f q
  have hsame : ∀ level, ∀ p ∈ a.level level, (a.install x f q).task p = a.task p := by
    intro level p hp
    rw [install_task, Function.update_of_ne]
    rintro rfl
    exact ha.live _ _ hp hx
  have hother : ∀ {level : PriorityLevel}, level ≠ .rr →
      (a.install x f q).level level = a.level level := by
    intro level hne
    rw [hlevel, hq, Function.update_of_ne hne]
  constructor
  · intro p hp
    rw [hother (by simp)] at hp
    rw [Sched.ready, hsame _ p hp]
    exact hset.system (by simp [hcur]) p hp
  · have hnone := hset.periodic (by simp [hcur]) (by simp [hcur])
    rw [duePeriodic] at hnone
    rw [duePeriodic, hother (by simp)]
    cases hh : (a.level .periodic).head? with
    | none => rfl
    | some p =>
      have hdue : (a.install x f q).due p = a.due p := by
        rw [due, due, hsame _ p (List.mem_of_head? hh)]
        rfl
      rw [hh, Option.filter_some, ← hdue] at hnone
      rw [Option.filter_some]
      exact hnone

/-- **When a round-robin task is preempted** by a request of its own, it goes behind the other
tasks of its level. -/
theorem Step.preempted {api : ApiCall} (hs : a.Step (.call api) a') (ha : a.Inv) (hset : a.Settled)
    (hcur : (a.task a.current).priority = .rr) (hl : a.level .rr = a.current :: l)
    (hterm : api ≠ .taskTerminate) (hup : (a'.task a'.current).priority = .system ∨
      (a'.task a'.current).priority = .periodic) : a'.level .rr = l ++ [a.current] := by
  have hprio := a.suspend_priority (.call api) a.current
  have hent := ha.suspend (.call api)
  have hbcur :
      ((a.suspend (.call api)).1.task (a.suspend (.call api)).1.current).priority = .rr := by
    rw [suspend_current, hprio, hcur]
  obtain ⟨c, d, b, hc, rfl, ⟨rfl, hd⟩ | ⟨rfl, rfl⟩⟩ := enter_parts hs.2
  · have hch := (handled_cases hc).change
    have hh := Dispatches.handling hc ha hs.1
    have hlive :
        ((a.suspend (.call api)).1.task (a.suspend (.call api)).1.current).state ≠ .dead := by
      rw [hent.ready]
      simp
    have hccur : (c.task c.current).priority = .rr := by
      rw [hch.current, hch.priority hlive, hbcur]
    -- a task that joined the level would have changed nothing above it
    have hlevel : c.level .rr = a.level .rr := by
      rw [← a.suspend_level (.call api)]
      generalize hk : Entry.request (.call api) = k at hch
      cases hch with
      | states hk' h => rw [h.level]
      | @install x f g hx hadm =>
        by_cases hrr : ((a.suspend (.call api)).1.info (a.suspend (.call api)).2).priority = .rr
        · obtain ⟨hsys, hdue⟩ := (hset.suspend ha (.call api)).install_rr (f := f) hent.levels hbcur
            hx hrr
          obtain ⟨hns, hnp⟩ := hh.dispatch_below hccur hsys hdue hd
          rcases hup with hup | hup
          · exact absurd hup hns
          · exact absurd hup hnp
        · obtain ⟨l, -, hlevel⟩ := (a.suspend (.call api)).1.install_level x f
            ((a.suspend (.call api)).1.info (a.suspend (.call api)).2)
          rw [setInfo_level, hlevel, Function.update_of_ne (Ne.symm hrr)]
      | yield ht => rfl
      | tick ht => rfl
      | bury hp => exact absurd (Entry.call.inj (request_terminate_iff.1 hk)) hterm
    have hmove : c.requeue.level .rr = l ++ [a.current] := by
      rw [requeue_level (Or.inr rfl), if_pos hccur, hlevel, hl, List.rotate_cons_succ,
        List.rotate_zero]
    rcases hh.requeue.select_level (Or.inr rfl) hd with ⟨hf, -⟩ | ⟨-, hlevel'⟩
    · have hrr := hh.requeue.levels.priority _ _ (List.mem_of_find?_eq_some hf)
      rw [requeue_task, ← hh.dispatch_priority hd] at hrr
      rw [setInfo_task, setInfo_current, hrr] at hup
      rcases hup with hup | hup <;> cases hup
    · rw [setInfo_level, hlevel', hmove]
  · obtain ⟨hcur', -, -, -, -⟩ := ha.early_return hc
    have hsame : (b.task b.current).priority = .rr := by
      obtain ⟨info, rfl⟩ := (handled_cases hc).quiet.2
      exact hbcur
    rw [setInfo_task, setInfo_current, hsame] at hup
    rcases hup with hup | hup <;> cases hup

end Sched

namespace Kernel

variable {s s' : Kernel} {e : Entry} {cp p : PDPtr} {c : ApiCall}

/-- No round-robin task runs. -/
def RunsAbove (s : Kernel) : Prop := ∀ p, s.cp = some p → (s.pd p).priority ≠ .rr

/-- The task `cp` is the first one of the round-robin queue, and whatever the tasks of the other
levels do now, the next round-robin task to run is `cp`. -/
structure KeepsPlace (s : Kernel) (cp : PDPtr) : Prop where
  first : ∃ q, (s.queue .rr).Holds s.pd q ∧ q.head? = some cp
  resumed : ∀ es s' p, Run (fun s e s' => s.Step e s' ∧ s.RunsAbove) s es s' →
    s'.cp = some p → (s'.pd p).priority = .rr → p = cp

/-- The state of a kernel in which `cp` is first in line, or has been resumed. -/
def AwaitsTurn (cp : PDPtr) (s : Kernel) : Prop :=
  ∃ a, s.UserMode a ∧ a.Inv ∧
    (a.Resumed cp ∨ a.FirstInLine cp)

theorem AwaitsTurn.step (h : s.AwaitsTurn cp) (hs : s.Step e s' ∧ s.RunsAbove) :
    s'.AwaitsTurn cp := by
  obtain ⟨a, hrep, ha, ⟨rfl, hrr⟩ | hline⟩ := h
  · exact absurd ((hrep.priority _).trans hrr) (hs.2 _ hrep.current)
  · obtain ⟨a', hstep, hrep'⟩ := hrep.step ha hs.1
    exact ⟨a', hrep', hstep.inv ha, hline.step ha hstep⟩

/-- **A preempted round-robin task keeps its place, exactly.**  When a call of a round-robin task
that does not block it lets a system task or a periodic task run, the caller stays ahead of the
other round-robin tasks exactly if there are none in the queue. -/
theorem keeps_place_iff (h : s.Reachable) (hs : s.Step (.call c) s') (hcp : s.cp = some cp)
    (hrr : (s.pd cp).priority = .rr) (hterm : c ≠ .taskTerminate)
    (hblock : (s'.pd cp).state.blocked = false) (hp : s'.cp = some p)
    (hup : (s'.pd p).priority = .system ∨ (s'.pd p).priority = .periodic) :
    s'.KeepsPlace cp ↔ (s.queue .rr).Holds s.pd [cp] := by
  obtain ⟨a, ha, hrep⟩ := h.represents
  obtain ⟨a', hstep, hrep'⟩ := hrep.step ha.inv hs
  obtain rfl : a.current = cp := Option.some.inj (hrep.current.symm.trans hcp)
  obtain rfl : a'.current = p := Option.some.inj (hrep'.current.symm.trans hp)
  have ha' := hstep.inv ha.inv
  rw [hrep.priority] at hrr
  rw [hrep'.priority] at hup
  rw [hrep'.state] at hblock
  obtain ⟨l, hl⟩ : ∃ l, a.level .rr = a.current :: l := by
    have hidle : a.current ≠ .idleProcess := by
      intro hidle
      rw [hidle, ha.inv.levels.idle] at hrr
      cases hrr
    have hfront := ha.inv.front.resolve_left hidle
    rw [hrr] at hfront
    exact List.head?_eq_some_iff.1 hfront
  have hnd : a.current ∉ l := (List.nodup_cons.1 (hl ▸ ha.inv.levels.nodup .rr)).1
  have hl' := hstep.preempted ha.inv ha.settled hrr hl hterm hup
  have hholds : (s.queue .rr).Holds s.pd [a.current] ↔ l = [] := by
    have hq := hrep.queue .rr
    rw [hl] at hq
    constructor
    · intro hq'
      have heq := hq.linked.unique hq'.linked
      simpa using heq
    · rintro rfl
      exact hq
  rw [hholds]
  constructor
  · rintro ⟨⟨q, hq, hhead⟩, -⟩
    have heq : a'.level .rr = q := (hrep'.queue .rr).linked.unique hq.linked
    rw [← heq, hl'] at hhead
    cases l with
    | nil => rfl
    | cons x l =>
      obtain rfl : x = a.current := Option.some.inj hhead
      exact absurd List.mem_cons_self hnd
  · rintro rfl
    have hhead : (a'.level .rr).head? = some a.current := by
      rw [hl']
      rfl
    have hlive := ha'.levels.live .rr a.current (List.mem_of_head? hhead)
    have habove : (a'.task a'.current).priority ≠ .rr := by
      rcases hup with hup | hup <;> simp [hup]
    have hother : a.current ≠ a'.current := by
      intro heq
      refine habove ?_
      rw [← heq]
      exact ha'.levels.priority _ _ (List.mem_of_head? hhead)
    have hready : a'.ready a.current = true :=
      Sched.ready_iff.2 (Sched.eq_ready hlive (fun hrun => hother (ha'.running _ hrun)) hblock)
    refine ⟨⟨_, hrep'.queue .rr, hhead⟩, fun es s'' p hrun hp hprio => ?_⟩
    obtain ⟨b, hrepb, hb, ⟨hcur, -⟩ | hline⟩ := hrun.invariant (P := AwaitsTurn a.current)
      ⟨a', hrep', ha', Or.inr ⟨hready, hhead, habove⟩⟩ fun _ _ _ h hs => h.step hs
    · exact Option.some.inj ((hp.symm.trans hrepb.current).trans (congrArg some hcur))
    · obtain rfl : b.current = p := Option.some.inj (hrepb.current.symm.trans hp)
      exact absurd ((hrepb.priority _).symm.trans hprio) hline.above

/-- The only round-robin task creates a system task. -/
theorem keeps_place_alone :
    ∃ p ∈ ((after (fun _ _ => true) 1 2 [.call (.taskCreateRR (some 3) 0),
          .call .taskTerminate]).bind fun s =>
        (s.advance (fun _ _ => true) (.call (.taskCreateSystem (some 4) 0))).map
          fun s' => (s, s')).filter fun p =>
        p.1.cp = some (.process 1) ∧ (p.1.pd (.process 1)).priority = .rr ∧
          (p.2.pd (.process 1)).state.blocked = false ∧ p.2.cp = some (.process 0) ∧
          (p.2.pd (.process 0)).priority = .system ∧
          (p.1.queue .rr).Holds p.1.pd [.process 1],
      p.2.KeepsPlace (.process 1) := by
  refine exists_mem_of_isSome (by decide +kernel) fun p hp => ?_
  obtain ⟨hp, hfacts⟩ := Option.filter_eq_some_iff.1 hp
  obtain ⟨hcp, hrr, hblock, hcp', hsys, hholds⟩ := of_decide_eq_true hfacts
  obtain ⟨s, hs, hp⟩ := Option.bind_eq_some_iff.1 hp
  obtain ⟨s', hs', rfl⟩ := Option.map_eq_some_iff.1 hp
  exact (keeps_place_iff (reachable_of_after hs) (advance_step hs').1 hcp hrr (by simp) hblock
    hcp' (Or.inl hsys)).2 hholds

/-- The first of two round-robin tasks creates a system task, and is the last one then. -/
theorem preempted_goes_last :
    ∃ p ∈ (after (fun _ _ => true) 1 2 [.call (.taskCreateRR (some 3) 0),
          .call (.taskCreateRR (some 4) 0), .call .taskTerminate]).bind fun s =>
        (s.advance (fun _ _ => true) (.call (.taskCreateSystem (some 5) 0))).map
          fun s' => (s, s'),
      (p.1.Reachable ∧ p.1.Step (.call (.taskCreateSystem (some 5) 0)) p.2) ∧
        (p.1.cp = some (.process 1) ∧ (p.1.pd (.process 1)).priority = .rr) ∧
        (p.2.pd (.process 1)).state.blocked = false ∧
        (p.2.cp = some (.process 0) ∧ (p.2.pd (.process 0)).priority = .system) ∧
        ¬ p.2.KeepsPlace (.process 1) := by
  have hex : ∃ p ∈ ((after (fun _ _ => true) 1 2 [.call (.taskCreateRR (some 3) 0),
          .call (.taskCreateRR (some 4) 0), .call .taskTerminate]).bind fun s =>
        (s.advance (fun _ _ => true) (.call (.taskCreateSystem (some 5) 0))).map
          fun s' => (s, s')).filter fun p =>
      ((p.1.cp = some (.process 1) ∧ (p.1.pd (.process 1)).priority = .rr) ∧
        (p.2.pd (.process 1)).state.blocked = false ∧
        (p.2.cp = some (.process 0) ∧ (p.2.pd (.process 0)).priority = .system)) ∧
        (p.2.queue .rr).Holds p.2.pd [.process 2, .process 1], True :=
    exists_mem_of_isSome (by decide +kernel) fun _ _ => trivial
  obtain ⟨p, hp, -⟩ := hex
  obtain ⟨hp, hfacts⟩ := Option.filter_eq_some_iff.1 hp
  obtain ⟨⟨hcp, hblock, hcp'⟩, hholds⟩ := of_decide_eq_true hfacts
  refine ⟨p, hp, ?_, hcp, hblock, hcp', fun hkeeps => ?_⟩
  · obtain ⟨s, hs, hp⟩ := Option.bind_eq_some_iff.1 hp
    obtain ⟨s', hs', rfl⟩ := Option.map_eq_some_iff.1 hp
    exact ⟨reachable_of_after hs, (advance_step hs').1⟩
  · obtain ⟨q, hq, hhead⟩ := hkeeps.first
    obtain rfl := hholds.linked.unique hq.linked
    cases hhead

end Kernel

end RoombaRtos
