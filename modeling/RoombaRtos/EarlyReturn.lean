import RoombaRtos.Effects
import RoombaRtos.Mailboxes

/-!
# Early returns

Some request handlers return before they come to their call of `Dispatch`.  `Next_Kernel_Request`
has set the current task to `READY` by then, and only `Dispatch` sets it to `RUNNING` again.

* `Kernel.reachesDispatch` — which entries come to the call of `Dispatch`;
* `Sched.Inv.handled_reaches` — a handler dispatches in exactly these entries;
* `Kernel.one_running_iff` — exactly one process is running in the runs without early returns;
* `System.absent_noop_iff` — when a message to a process that is not there changes nothing.
-/

namespace RoombaRtos

open Lockstep

/-! ### The entries that dispatch -/

/-- The caller of a stub does not wait, whatever its parameter block says. -/
theorem Exchange.begin_awaits {x : Exchange} {i : Slot} {c : ApiCall} (hi : x.phase i = .active)
    (j : Slot) (t : MType) : (x.begin i c).awaits j t = x.awaits j t := by
  by_cases hj : j = i
  · subst hj
    have hphase : (x.begin j c).phase j = .active := hi
    simp [awaits, hphase, hi]
  · have hslip : (x.begin i c).slip j = x.slip j := Function.update_of_ne hj _ _
    rw [awaits, awaits, hslip]
    rfl

namespace Kernel

/-- The process that `id` names is alive. -/
def present (s : Kernel) (id : Pid) : Bool :=
  (validId id).any fun x => (s.pd (.process x)).state != .dead

/-- The process that `id` names waits for a message of this type. -/
def awaited (s : Kernel) (id : Pid) (t : MType) : Bool :=
  (validId id).any fun x => s.awaits (.process x) t

/-- The handler of the entry comes to its call of `Dispatch`, unless it aborts before. -/
def reachesDispatch (s : Kernel) : Entry → Bool
  | .call .taskGetArg => false
  | .call .taskPid => false
  | .call .now => false
  | .call (.msgSend id _ _) => s.present id
  | .call (.msgRply id _) => s.present id
  | .call (.msgASend id t _) => s.awaited id t
  | _ => true

variable {s s' : Kernel} {a : Sched} {e : Entry} {id : Pid} {t : MType}

theorem Represents.present_eq (h : s.UserMode a) (id : Pid) :
    s.present id = (a.exchange.target id).isSome := by
  unfold present Exchange.target
  cases validId id with
  | none => rfl
  | some x =>
    have hd : ((s.pd (.process x)).state != .dead) = (a.exchange.phase x != .dead) := by
      rw [h.phase_eq]
      cases (s.pd (.process x)).state <;> rfl
    rw [Option.any_some, hd]
    cases hx : a.exchange.phase x != .dead <;> simp [hx]

/-- A process that waits is alive. -/
theorem Represents.awaited_eq (h : s.UserMode a) (ha : a.Stubs) (id : Pid) (t : MType) :
    s.awaited id t = (a.exchange.target id).any fun x => a.exchange.awaits x t := by
  unfold awaited Exchange.target
  cases validId id with
  | none => rfl
  | some x =>
    simp only [Option.any_some, h.awaits_eq, Sched.Serving.awaits_eq ha]
    cases hx : a.exchange.phase x <;> simp [hx, Exchange.awaits]

end Kernel

namespace Sched

variable {a a' c : Sched} {s : Kernel} {e : Entry} {r : InfoPtr PDPtr} {k : KernelRequestType}
  {d : Bool}

theorem ok_snd {β : Type} {y z : Sched × Bool} (h : (Except.ok y : Except β _) = .ok z) :
    z.2 = y.2 :=
  (congrArg Prod.snd (Except.ok.inj h)).symm

/-- A message, or a reply, is passed on with a dispatch if its addressee is there. -/
theorem handle_addressed (hk : k = .msgSend ∨ k = .msgRply) (h : a.handle r k = .ok (c, d)) :
    d = (a.target r).isSome := by
  rcases hk with rfl | rfl
  · rw [handle] at h
    split_ifs at h
    cases ht : a.target r <;> exact ok_snd (ht ▸ h)
  · rw [handle] at h
    split_ifs at h
    cases ht : a.target r <;> exact ok_snd (ht ▸ h)

/-- An asynchronous message leads to a dispatch if its addressee waits for one like it. -/
theorem handle_notifies (h : a.handle r .msgASend = .ok (c, d)) :
    d = (a.target r).any fun x => a.awaits (.process x) (a.info r).msgMask := by
  rw [handle] at h
  split_ifs at h
  cases ht : a.target r with
  | none =>
    rw [ht] at h
    exact ok_snd h
  | some x =>
    rw [ht] at h
    have hd : d = _ := ok_snd h
    rw [hd, Option.any_some]
    cases a.awaits (.process x) (a.info r).msgMask <;> rfl

/-- A receiver gives up the processor, with a message or without one. -/
theorem handle_receives (h : a.handle r .msgRecv = .ok (c, d)) : d = true := by
  rw [handle] at h
  split_ifs at h
  split at h
  · split at h
    · cases h
    · exact ok_snd h
  · exact ok_snd h

theorem handle_terminates (h : a.handle r .terminate = .ok (c, d)) : d = true := by
  rw [handle] at h
  split_ifs at h
  exact ok_snd h

/-- **A handler dispatches** in the entries in which it does not return early, and only there. -/
theorem Inv.handled_reaches (ha : a.Inv) (hst : a.Stubs) (hrep : s.UserMode a)
    (hp : a.Possible e) (h : a.handled e = .ok (c, d)) : d = s.reachesDispatch e := by
  cases e with
  | timer =>
    obtain ⟨t, -, hc⟩ := bind_ok h
    cases hc
    rfl
  | call api =>
    obtain ⟨i, hi⟩ := Possible.caller hp
    have hsv : (a.suspend (.call api)).1.Serving i api := ha.serving hst hi
    have hx : (a.suspend (.call api)).1.exchange = a.exchange.begin i api :=
      ha.exchange_suspend hi
    set b := (a.suspend (.call api)).1 with hb
    have hr : (a.suspend (.call api)).2 = .stub (.process i) := congrArg InfoPtr.stub hi
    rw [handled, hr, ← hb] at h
    have htarget : b.target (.stub (.process i)) = a.exchange.target api.params.msgTo := by
      rw [Serving.target_eq, hx, hsv.info]
      rfl
    have hawaits : ∀ x t, b.awaits (.process x) t = a.exchange.awaits x t := by
      intro x t
      rw [Serving.awaits_eq hsv.stubs, hx, Exchange.begin_awaits (ha.exchange_active hi)]
    cases api with
    | osAbort error => cases h
    | taskCreateSystem f arg =>
      obtain ⟨b, -, hc⟩ := bind_ok h
      exact ok_snd hc
    | taskCreateRR f arg =>
      obtain ⟨b, -, hc⟩ := bind_ok h
      exact ok_snd hc
    | taskCreatePeriod f arg period wcet offset =>
      obtain ⟨b, -, hc⟩ := bind_ok h
      exact ok_snd hc
    | taskNext =>
      obtain ⟨t, -, hc⟩ := bind_ok h
      exact ok_snd hc
    | taskGetArg => exact ok_snd h
    | taskPid => exact ok_snd h
    | taskTerminate => exact handle_terminates h
    | msgSend id t v =>
      rw [handle_addressed (.inl rfl) h, htarget]
      exact (hrep.present_eq id).symm
    | msgRecv m v => exact handle_receives h
    | msgRply id r =>
      rw [handle_addressed (.inr rfl) h, htarget]
      exact (hrep.present_eq id).symm
    | msgASend id t v =>
      rw [handle_notifies h, htarget, hsv.info]
      simp only [hawaits]
      exact (hrep.awaited_eq hst id t).symm
    | now => exact ok_snd h

/-- `Dispatch` makes the task that it chooses the current one, and sets it to running. -/
theorem Handling.dispatch_running (h : a.Handling) (he : a.dispatch = .ok a') :
    (a'.task a'.current).state = .running := by
  obtain ⟨p, -, hcur, ht, -, -⟩ := h.dispatch_frame he
  rw [hcur, ht, setState_self]

/-- After an early return the current task is the same, and it is only ready. -/
theorem Inv.early_return (ha : a.Inv) (h : a.handled e = .ok (c, false)) :
    c.current = a.current ∧ c.level = a.level ∧ c.mail = a.mail ∧
      (c.task a.current).state = .ready ∧ ∀ p, p ≠ a.current → c.task p = a.task p := by
  obtain ⟨-, info, rfl⟩ := (handled_cases h).quiet
  refine ⟨a.suspend_current e, a.suspend_level e, a.suspend_mail e, ?_,
    fun p hp => a.suspend_task_of_ne e hp⟩
  have hready := (ha.suspend e).ready
  rw [suspend_current] at hready
  exact hready

/-- The current task is running again exactly if the entry came to its dispatch. -/
theorem Step.running_iff (h : a.Step e a') (ha : a.Inv) (hst : a.Stubs) (hrep : s.UserMode a) :
    (a'.task a'.current).state = .running ↔ s.reachesDispatch e = true := by
  obtain ⟨c, d, b, hc, rfl, hd⟩ := enter_parts h.2
  rw [← ha.handled_reaches hst hrep h.1 hc]
  rcases hd with ⟨rfl, hd⟩ | ⟨rfl, rfl⟩
  · have hrun : (b.task b.current).state = .running :=
      (Dispatches.handling hc ha h.1).dispatch_running hd
    exact iff_of_true hrun rfl
  · obtain ⟨hcur, -, -, hready, -⟩ := ha.early_return hc
    rw [setInfo_task, setInfo_current, hcur, hready]
    simp

end Sched

/-! ### Exactly one process is running -/

namespace Kernel

variable {s s' : Kernel} {a : Sched} {e : Entry}

/-- The process `Cp` points to is running, and no other process is. -/
def OneRunning (s : Kernel) : Prop :=
  ∃ cp, s.cp = some cp ∧ ∀ p, (s.pd p).state = .running ↔ p = cp

theorem Represents.oneRunning_iff (h : s.UserMode a) (ha : a.Inv) :
    s.OneRunning ↔ (a.task a.current).state = .running := by
  constructor
  · rintro ⟨cp, hcp, hall⟩
    obtain rfl : a.current = cp := Option.some.inj (h.current.symm.trans hcp)
    rw [← h.state]
    exact (hall _).2 rfl
  · intro hrun
    refine ⟨a.current, h.current, fun p => ?_⟩
    rw [h.state]
    constructor
    · exact ha.running p
    · rintro rfl
      exact hrun

theorem Booted.oneRunning_iff (h : s.Booted) (hs : s.Step e s') :
    s'.OneRunning ↔ s.reachesDispatch e = true := by
  obtain ⟨a, ha, hrep⟩ := h
  obtain ⟨a', hstep, hrep'⟩ := hrep.step ha.inv hs
  rw [hrep'.oneRunning_iff (hstep.inv ha.inv)]
  exact hstep.running_iff ha.inv ha.stubs hrep

/-- **Exactly one process is running**, exactly: it is so after power-on, and the runs in all
states of which it is so are those in which every handler comes to its call of `Dispatch`. -/
theorem one_running_iff (create kernelIdle : BitVec 16) :
    ∃ s₀, boot create kernelIdle = .ok s₀ ∧ s₀.OneRunning ∧ ∀ es s,
      Run (fun s e s' => s.Step e s' ∧ s'.OneRunning) s₀ es s ↔
        Run (fun s e s' => s.Step e s' ∧ s.reachesDispatch e = true) s₀ es s := by
  obtain ⟨s₀, hb, hrep⟩ := boot_represents create kernelIdle
  have hbooted : s₀.Booted := ⟨_, ⟨create, kernelIdle, [], Run.nil _⟩, hrep⟩
  have hone : s₀.OneRunning := by
    rw [hrep.oneRunning_iff (Sched.bootedSched_inv create kernelIdle)]
    exact Sched.bootedSched_first create kernelIdle
  refine ⟨s₀, hb, hone, fun es s => ?_⟩
  exact Run.keeps_iff (I := Booted) (P := OneRunning) (G := fun s e => s.reachesDispatch e = true)
    (fun _ _ _ h hs => h.step hs) (fun _ _ _ h _ hs => h.oneRunning_iff hs) hbooted hone

/-- The setup task asks for its id: nobody is running any more. -/
theorem nobody_running_after_pid :
    ∃ s ∈ after (fun _ _ => true) 1 2 [.call .taskPid], s.Reachable ∧ ¬ s.OneRunning := by
  have hex : ∃ s ∈ (after (fun _ _ => true) 1 2 [.call .taskPid]).filter fun s =>
      s.cp = some (.process 0) ∧ (s.pd (.process 0)).state = .ready, True :=
    exists_mem_of_isSome (by decide +kernel) fun _ _ => trivial
  obtain ⟨s, hs, -⟩ := hex
  obtain ⟨hrun, hfacts⟩ := Option.filter_eq_some_iff.1 hs
  obtain ⟨hcp, hst⟩ := of_decide_eq_true hfacts
  refine ⟨s, hrun, reachable_of_after hrun, ?_⟩
  rintro ⟨cp, hcp', hall⟩
  obtain rfl : PDPtr.process 0 = cp := Option.some.inj (hcp.symm.trans hcp')
  have hrunning := (hall _).2 rfl
  rw [hst] at hrunning
  cases hrunning

/-! ### Messages to nobody -/

/-- The kernel returns to user mode from the call `c` of `p`, whose handler did nothing. -/
def bounced (s : Kernel) (p : PDPtr) (c : ApiCall) : Kernel :=
  { (s.handling p c).setInfo (.stub p) fun q => { q with request := .none } with
    requestInfo := none
    kernelActive := true }

variable {p : PDPtr} {c : ApiCall} {id : Pid}

theorem handling_other {p' : PDPtr} (h : p' ≠ p) (c : ApiCall) :
    (s.handling p c).pd p' = s.pd p' := by
  simp [handling, setState, setTask, h, setInfo]

theorem handling_current (s : Kernel) (p : PDPtr) (c : ApiCall) : (s.handling p c).pd p =
    { s.pd p with state := .ready, reqParams := some (.stub p) } := by
  simp [handling, setState, setTask, setInfo]

theorem handling_info (s : Kernel) (p : PDPtr) (c : ApiCall) :
    (s.handling p c).info (.stub p) = c.params :=
  Function.update_self _ _ _

theorem enter_bounced (hactive : s.kernelActive = true) (hcp : s.cp = some p)
    (h : (s.handling p c).requestHandler p (.stub p) c.params.request = .ok (s.handling p c)) :
    s.enter (.call c) = .ok (s.bounced p c) := by
  rw [enter_call c hactive hcp, h]
  rfl

theorem bounced_pd (s : Kernel) (p : PDPtr) (c : ApiCall) :
    (s.bounced p c).pd = (s.handling p c).pd := rfl

theorem bounced_info (s : Kernel) (p : PDPtr) (c : ApiCall) :
    (s.bounced p c).info (.stub p) = { c.params with request := .none } := by
  have hinfo := s.handling_info p c
  show Function.update (s.handling p c).info (.stub p) _ (.stub p) = _
  rw [Function.update_self, hinfo]

theorem bounced_info_other {q : PDPtr} (h : q ≠ p) (c : ApiCall) :
    (s.bounced p c).info (.stub q) = s.info (.stub q) := by
  have hne : InfoPtr.stub q ≠ .stub p := fun he => h (InfoPtr.stub.inj he)
  show Function.update (Function.update s.info (.stub p) _) (.stub p) _ (.stub q) = _
  rw [Function.update_of_ne hne, Function.update_of_ne hne]

/-- A message call to a process that is not there. -/
structure ToNobody (s : Kernel) (p : PDPtr) (c : ApiCall) (id : Pid) : Prop where
  addressee : (∃ t v, c = .msgSend id t v) ∨ (∃ r, c = .msgRply id r) ∨ ∃ t x, c = .msgASend id t x
  absent : s.present id = false
  listed : (∀ t x, c ≠ .msgASend id t x) → (s.pd p).priority ≠ .periodic

/-- The target of the request, seen by its handler. -/
theorem ToNobody.target (h : s.ToNobody p c id) (hp : (s.pd p).state ≠ .dead) :
    validId id = none ∨ ∃ x, validId id = some x ∧
      ((s.handling p c).pd (.process x)).state = .dead := by
  have habsent := h.absent
  unfold present at habsent
  cases hx : validId id with
  | none => exact Or.inl rfl
  | some x =>
    have hdead : (s.pd (.process x)).state = .dead := by simpa [hx] using habsent
    have hne : PDPtr.process x ≠ p := by
      rintro rfl
      exact hp hdead
    refine Or.inr ⟨x, rfl, ?_⟩
    rw [handling_other hne, hdead]

/-- **A message to nobody bounces**, except an asynchronous one to an id out of range. -/
theorem ToNobody.enter (h : s.ToNobody p c id) (hp : (s.pd p).state ≠ .dead)
    (hactive : s.kernelActive = true) (hcp : s.cp = some p) :
    s.enter (.call c) = if (∃ t x, c = .msgASend id t x) ∧ validId id = none then
      .error (.abort .invalidReqInfo) else .ok (s.bounced p c) := by
  have hprio : ((s.handling p c).pd p).priority = (s.pd p).priority := by rw [handling_current]
  have htarget := h.target hp
  have hinfo := s.handling_info p c
  rcases h.addressee with ⟨t, v, rfl⟩ | ⟨r, rfl⟩ | ⟨t, x, rfl⟩
  · rw [if_neg (by simp)]
    refine enter_bounced hactive hcp ?_
    have hper := h.listed (by simp)
    show (s.handling p _).kernelRequestMsgSend p (.stub p) = _
    rw [kernelRequestMsgSend, hprio, if_neg hper, hinfo]
    rcases htarget with hv | ⟨x, hv, hd⟩
    · simp only [ApiCall.params, hv]
    · simp only [ApiCall.params, hv]
      exact if_pos hd
  · rw [if_neg (by simp)]
    refine enter_bounced hactive hcp ?_
    have hper := h.listed (by simp)
    show (s.handling p _).kernelRequestMsgRply p (.stub p) = _
    rw [kernelRequestMsgRply, hprio, if_neg hper, hinfo]
    rcases htarget with hv | ⟨x, hv, hd⟩
    · simp only [ApiCall.params, hv]
    · simp only [ApiCall.params, hv]
      exact if_pos hd
  · have hhandler : (s.handling p (.msgASend id t x)).requestHandler p (.stub p) .msgASend =
        (s.handling p (.msgASend id t x)).kernelRequestMsgASend p (.stub p) := rfl
    rcases htarget with hv | ⟨y, hv, hd⟩
    · rw [if_pos ⟨⟨t, x, rfl⟩, hv⟩, enter_call _ hactive hcp]
      simp only [ApiCall.params] at hinfo ⊢
      rw [hhandler, kernelRequestMsgASend, hinfo]
      simp only [hv]
      rfl
    · rw [if_neg (by simp [hv])]
      refine enter_bounced hactive hcp ?_
      simp only [ApiCall.params] at hinfo ⊢
      rw [hhandler, kernelRequestMsgASend, hinfo]
      simp only [hv]
      exact if_pos hd

end Kernel

namespace System

variable {s s' : System} {p : PDPtr} {c : ApiCall} {id : Pid} {e : Event}

/-- The machine came to this state since power-on. -/
def Reachable (s : System) : Prop := ∃ s₀ es, s₀.Initial ∧ Run Step s₀ es s

theorem Initial.booted (h : s.Initial) : s.kernel.Booted := by
  obtain ⟨⟨create, kernelIdle, hb⟩, -⟩ := h
  obtain ⟨k, hk, hrep⟩ := Kernel.boot_represents create kernelIdle
  obtain rfl := Except.ok.inj (hb.symm.trans hk)
  exact ⟨_, ⟨create, kernelIdle, [], Run.nil _⟩, hrep⟩

theorem Step.booted (hs : s.Step e s') (h : s.kernel.Booted) : s'.kernel.Booted := by
  obtain ⟨cp, hcp, ⟨rfl, k, hk, he⟩ | ⟨c, k, rfl, hidle, -, hk, he⟩ | ⟨c, rfl, -, he⟩ |
    ⟨v, x, rfl, -, -, he⟩⟩ := step_cases hs
  · rw [he]
    exact h.step (e := .timer) ⟨trivial, hk⟩
  · rw [he]
    refine h.step (e := .call c) ⟨?_, hk⟩
    show s.kernel.cp ≠ some .idleProcess
    rw [hcp]
    simpa using hidle
  · rw [he]
    exact h
  · rw [he]
    exact h

theorem Reachable.booted (h : s.Reachable) : s.kernel.Booted := by
  obtain ⟨s₀, es, h₀, hrun⟩ := h
  exact hrun.invariant (P := fun s => s.kernel.Booted) h₀.booted fun _ _ _ h hs => hs.booted h

/-- The call returns at once to its caller `p`, and nothing has changed: the states of the
processes, the task queues, the messages, the parameters of the other processes' requests, and
the user variables. -/
structure NoOp (s : System) (p : PDPtr) (s' : System) : Prop where
  returned : s'.kernel.cp = some p ∧ s'.call = s.call
  state : ∀ q, (s'.kernel.pd q).state = (s.kernel.pd q).state
  queue : s'.kernel.queue = s.kernel.queue ∧
    ∀ q, (s'.kernel.pd q).next = (s.kernel.pd q).next
  msgQueue : s'.kernel.msgQueue = s.kernel.msgQueue ∧ s'.kernel.messages = s.kernel.messages
  params : ∀ q, q ≠ p → (s'.kernel.pd q).reqParams = (s.kernel.pd q).reqParams ∧
    s'.kernel.info (.stub q) = s.kernel.info (.stub q)
  mem : s'.mem = s.mem

/-- The call and its return have no other effect. -/
def HasNoEffect (s : System) (p : PDPtr) (c : ApiCall) : Prop :=
  ∃ s₁ s₂, s.Step (.call c) s₁ ∧ s₁.Step .ret s₂ ∧ s.NoOp p s₂

/-- The machine after the call `c` of `p` bounced, and its stub has finished. -/
def bounced (s : System) (p : PDPtr) (c : ApiCall) : System where
  kernel := s.kernel.bounced p c
  call := s.call
  mem := c.epilogue ((s.kernel.bounced p c).info (.stub p)) s.mem

theorem Step.unique {s'' : System} (h : s.Step e s') (h' : s.Step e s'') : s' = s'' :=
  Except.ok.inj (Option.some.inj (h.symm.trans h'))

theorem Step.advance (h : s.Step e s') : s.advance e = some s' := by
  rw [System.advance, h]
  rfl

theorem reachable_of_after {create kernelIdle : BitVec 16} {mem : Addr → Word} {es : List Event}
    (h : after create kernelIdle mem es = some s) : s.Reachable := by
  obtain ⟨s₀, h₀, hrun⟩ := run_of_after h
  exact ⟨s₀, es, h₀, hrun⟩

theorem step_bounced (hcp : s.kernel.cp = some p) (hidle : p ≠ .idleProcess)
    (hfree : s.call p = none) (hnot : c ≠ .taskTerminate)
    (henter : s.kernel.enter (.call c) = .ok (s.kernel.bounced p c)) :
    ∃ s₁, s.Step (.call c) s₁ ∧ s₁.Step .ret (s.bounced p c) := by
  refine ⟨⟨s.kernel.bounced p c, Function.update s.call p (some c), s.mem⟩, ?_, ?_⟩
  · rw [Step, step, hcp]
    dsimp only
    rw [if_pos ⟨hidle, hfree⟩, henter, if_neg hnot]
    rfl
  · have hcp' : (s.kernel.bounced p c).cp = some p := hcp
    have hback : Function.update (Function.update s.call p (some c)) p none = s.call := by
      rw [Function.update_idem, ← hfree, Function.update_eq_self]
    rw [Step, step]
    dsimp only
    rw [hcp']
    dsimp only
    rw [Function.update_self, Option.map_some, hback]
    rfl

theorem bounced_noOp_iff (hc : s.kernel.ToNobody p c id) (hcp : s.kernel.cp = some p) :
    s.NoOp p (s.bounced p c) ↔
      (s.kernel.pd p).state = .ready ∧ ∀ t a, c = .msgSend id t (some a) → s.mem a = 0 := by
  have hother : ∀ q, q ≠ p → (s.kernel.bounced p c).pd q = s.kernel.pd q :=
    fun q hq => Kernel.handling_other hq c
  have hself := s.kernel.handling_current p c
  rw [← Kernel.bounced_pd] at hself
  have hinfo := s.kernel.bounced_info p c
  constructor
  · intro h
    refine ⟨?_, ?_⟩
    · have hstate := h.state p
      rw [show (s.bounced p c).kernel = s.kernel.bounced p c from rfl, hself] at hstate
      exact hstate.symm
    · rintro t a rfl
      have hmem := congrFun h.mem a
      rw [← hmem]
      show Function.update s.mem a ((s.kernel.bounced p _).info (.stub p)).msgData a = 0
      rw [Function.update_self, hinfo]
      rfl
  · rintro ⟨hready, hmem⟩
    refine ⟨⟨hcp, rfl⟩, fun q => ?_, ⟨rfl, fun q => ?_⟩, ⟨rfl, rfl⟩, fun q hq => ⟨?_, ?_⟩, ?_⟩
    · by_cases hq : q = p
      · subst hq
        exact (congrArg (fun d => d.state) hself).trans hready.symm
      · exact congrArg (fun d => d.state) (hother q hq)
    · by_cases hq : q = p
      · subst hq
        exact congrArg (fun d => d.next) hself
      · exact congrArg (fun d => d.next) (hother q hq)
    · exact congrArg (fun d => d.reqParams) (hother q hq)
    · exact Kernel.bounced_info_other hq c
    · show c.epilogue ((s.kernel.bounced p c).info (.stub p)) s.mem = s.mem
      rw [hinfo]
      rcases hc.addressee with ⟨t, v, rfl⟩ | ⟨r, rfl⟩ | ⟨t, x, rfl⟩
      · cases v with
        | none => rfl
        | some a =>
          have hzero := hmem t a rfl
          show Function.update s.mem a 0 = s.mem
          rw [← hzero, Function.update_eq_self]
      · rfl
      · rfl

/-- **Messages to nobody, exactly.**  A message call to an id out of range or to a dead process
has no effect if the caller was only ready before, the variable for the reply is null or `0`, and
the id of an asynchronous message is in range; and in no other case. -/
theorem absent_noop_iff (h : s.Reachable) (hcp : s.kernel.cp = some p) (hidle : p ≠ .idleProcess)
    (hfree : s.call p = none) (hc : s.kernel.ToNobody p c id) :
    s.HasNoEffect p c ↔ (s.kernel.pd p).state = .ready ∧
      (∀ t a, c = .msgSend id t (some a) → s.mem a = 0) ∧
      ∀ t x, c = .msgASend id t x → validId id ≠ none := by
  obtain ⟨a, ha, hrep⟩ := h.booted
  have hactive : s.kernel.kernelActive = true := congrArg Prod.snd hrep.control
  have hlive : (s.kernel.pd p).state ≠ .dead := by
    have hcur : a.current = p := Option.some.inj (hrep.current.symm.trans hcp)
    rw [hrep.state, ← hcur]
    exact ha.inv.current_live
  have henter := hc.enter hlive hactive hcp
  have hnot : c ≠ .taskTerminate := by
    rcases hc.addressee with ⟨t, v, rfl⟩ | ⟨r, rfl⟩ | ⟨t, x, rfl⟩ <;> simp
  by_cases hout : (∃ t x, c = .msgASend id t x) ∧ validId id = none
  · rw [if_pos hout] at henter
    obtain ⟨⟨t, x, rfl⟩, hv⟩ := hout
    refine iff_of_false ?_ fun hcond => hcond.2.2 t x rfl hv
    rintro ⟨s₁, s₂, hs₁, -, -⟩
    obtain ⟨cp, -, ⟨he, -⟩ | ⟨c, k, hcall, -, -, hk, -⟩ | ⟨c, he, -⟩ | ⟨v, y, he, -⟩⟩ :=
      step_cases hs₁
    · cases he
    · cases hcall
      rw [henter] at hk
      cases hk
    · cases he
    · cases he
  · rw [if_neg hout] at henter
    have hin : ∀ t x, c = .msgASend id t x → validId id ≠ none :=
      fun t x hcx hv => hout ⟨⟨t, x, hcx⟩, hv⟩
    obtain ⟨s₁, hs₁, hs₂⟩ := step_bounced hcp hidle hfree hnot henter
    rw [← and_assoc, and_iff_left hin, ← bounced_noOp_iff hc hcp]
    constructor
    · rintro ⟨t₁, t₂, ht₁, ht₂, hnoop⟩
      obtain rfl := ht₁.unique hs₁
      obtain rfl := ht₂.unique hs₂
      exact hnoop
    · intro hnoop
      exact ⟨s₁, _, hs₁, hs₂, hnoop⟩

/-- A task that has just asked for its id sends to a process that was never created. -/
theorem absent_noop_after_pid :
    ∃ s ∈ (after 1 2 (fun _ => 0) [.call .taskPid, .ret]).filter fun s =>
        s.kernel.cp = some (.process 0) ∧ s.call (.process 0) = none ∧
          s.kernel.present 9 = false ∧ (s.kernel.pd (.process 0)).priority ≠ .periodic ∧
          (s.kernel.pd (.process 0)).state = .ready ∧ s.mem 5 = 0,
      s.HasNoEffect (.process 0) (.msgSend 9 1 (some 5)) := by
  refine exists_mem_of_isSome (by decide +kernel) fun s hs => ?_
  obtain ⟨hrun, hfacts⟩ := Option.filter_eq_some_iff.1 hs
  obtain ⟨hcp, hfree, habsent, hprio, hready, hmem⟩ := of_decide_eq_true hfacts
  have hc : s.kernel.ToNobody (.process 0) (.msgSend 9 1 (some 5)) 9 :=
    ⟨Or.inl ⟨1, some 5, rfl⟩, habsent, fun _ => hprio⟩
  refine (absent_noop_iff (reachable_of_after hrun) hcp (by simp) hfree hc).2
    ⟨hready, ?_, fun t x hc => by cases hc⟩
  rintro t a hc
  cases hc
  exact hmem

/-- The setup task, just started, addresses processes that are not there: a reply leaves it
ready, a send destroys its variable, and an asynchronous send does not return. -/
theorem absent_has_effect :
    ∃ s ∈ after 1 2 (fun _ => 7) [], s.Reachable ∧
      (s.kernel.cp = some (.process 0) ∧ s.call (.process 0) = none) ∧
      ¬ s.HasNoEffect (.process 0) (.msgRply 9 3) ∧
      ¬ s.HasNoEffect (.process 0) (.msgSend 9 1 (some 5)) ∧
      ¬ s.HasNoEffect (.process 0) (.msgASend 16 1 3) := by
  have hex : ∃ s ∈ (after 1 2 (fun _ => 7) []).filter fun s =>
      (s.kernel.cp = some (.process 0) ∧ s.call (.process 0) = none) ∧
      (s.kernel.pd (.process 0)).state = .running ∧ s.mem 5 = 7 ∧
      (∀ x ∈ (s.advance (.call (.msgRply 9 3))).bind fun s => s.advance .ret,
        (x.kernel.pd (.process 0)).state = .ready) ∧
      (∀ x ∈ (s.advance (.call (.msgSend 9 1 (some 5)))).bind fun s => s.advance .ret,
        x.mem 5 = 0) ∧
      (s.advance (.call (.msgASend 16 1 3))).isNone, True :=
    exists_mem_of_isSome (by decide +kernel) fun _ _ => trivial
  obtain ⟨s, hs, -⟩ := hex
  obtain ⟨hrun, hfacts⟩ := Option.filter_eq_some_iff.1 hs
  obtain ⟨hcp, hrunning, hmem, hreply, hsend, hasend⟩ := of_decide_eq_true hfacts
  have hboth : ∀ {c : ApiCall} {s₁ s₂ : System}, s.Step (.call c) s₁ → s₁.Step .ret s₂ →
      ((s.advance (.call c)).bind fun s => s.advance .ret) = some s₂ := by
    intro c s₁ s₂ h₁ h₂
    rw [h₁.advance, Option.bind_some, h₂.advance]
  refine ⟨s, hrun, reachable_of_after hrun, hcp, ?_, ?_, ?_⟩
  · rintro ⟨s₁, s₂, h₁, h₂, hnoop⟩
    have hready := hreply s₂ (hboth h₁ h₂)
    rw [hnoop.state, hrunning] at hready
    cases hready
  · rintro ⟨s₁, s₂, h₁, h₂, hnoop⟩
    have hzero := hsend s₂ (hboth h₁ h₂)
    rw [hnoop.mem, hmem] at hzero
    cases hzero
  · rintro ⟨s₁, s₂, h₁, -, -⟩
    rw [h₁.advance] at hasend
    cases hasend

end System

end RoombaRtos
