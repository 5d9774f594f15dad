import RoombaRtos.TaskTable

/-!
# What a kernel entry does before it dispatches

Every request handler changes the tasks and the levels in its own way, and then most of them call
`Dispatch`.  Here the two parts are taken apart.

* `Sched.handle`, `Sched.handled` — a handler without its last call of `Dispatch`;
* `Sched.serve_eq` — the handlers are these, followed by `Dispatch`;
* `Sched.Handled` — all that a handler can have done, and `Sched.Change`, its effect on the tasks,
  the levels and the clock;
* `Sched.enter_parts` — a kernel entry is a handler and at most one dispatch.
-/

namespace RoombaRtos

open ListQueue Lockstep

namespace Sched

variable {a a' c : Sched} {p : PDPtr} {r : InfoPtr PDPtr} {k : KernelRequestType} {e : Entry}
  {d : Bool}

/-- A request handler up to its call of `Dispatch`, and whether there is one. -/
def handle (a : Sched) (r : InfoPtr PDPtr) : KernelRequestType → Except Halt (Sched × Bool)
  | .none => .ok (a, false)
  | .timer => do
      let t ← Kernel.chargeTick a.current (a.task a.current)
      return ((a.setTask a.current fun _ => t).advanceClock, true)
  | .create => do
      let a ← a.create r
      return (a, true)
  | .next => do
      let t ← Kernel.yieldTask (a.task a.current)
      return (a.setTask a.current fun _ => t, true)
  | .getArg => .ok (a.setInfo r fun q => { q with arg := (a.task a.current).arg }, false)
  | .getPid => .ok (a.setInfo r fun q => { q with outPid := (a.task a.current).processId }, false)
  | .getNow => .ok (a.setInfo r fun q => { q with outNow := a.sysClock }, false)
  | .msgSend =>
      if (a.task a.current).priority = .periodic then .error (.abort .periodicMsg)
      else
        match a.target r with
        | none => .ok (a, false)
        | some x =>
            .ok (if a.awaits (.process x) (a.info r).msgMask then a.handOver r x else a.post r,
              true)
  | .msgRecv =>
      if (a.task a.current).priority = .periodic then .error (.abort .periodicMsg)
      else
        match a.mail.find? (a.wanted r) with
        | some m =>
            match validId m.sender with
            | none => .error .undefinedAccess
            | some sender => .ok (a.take r m sender, true)
        | none => .ok (a.setState a.current .recvBlock, true)
  | .msgRply =>
      if (a.task a.current).priority = .periodic then .error (.abort .periodicMsg)
      else
        match a.target r with
        | none => .ok (a, false)
        | some x =>
            .ok (if (a.task (.process x)).state = .replyBlock then a.answer r x else a, true)
  | .msgASend =>
      if validId (a.info r).msgTo = none then .error (.abort .invalidReqInfo)
      else
        match a.target r with
        | none => .ok (a, false)
        | some x =>
            .ok (if a.awaits (.process x) (a.info r).msgMask then (a.notify r x, true)
              else (a, false))
  | .terminate =>
      if (a.task a.current).priority = .unlisted then .error (.abort .invalidPriority)
      else .ok (a.bury, true)
  | .abort => .error (.abort (a.info r).abortCode)

/-- The handler, and `Dispatch` if it is called. -/
def finish (c : Sched × Bool) : Except Halt Sched := if c.2 then c.1.dispatch else .ok c.1

/-- **The handlers end with `Dispatch`**, or do not call it. -/
theorem serve_eq (a : Sched) (r : InfoPtr PDPtr) (k : KernelRequestType) :
    a.serve r k = a.handle r k >>= finish := by
  cases k with
  | none => rfl
  | timer =>
    unfold serve tick handle
    cases Kernel.chargeTick a.current (a.task a.current) <;> rfl
  | create =>
    unfold serve handle
    cases a.create r <;> rfl
  | next =>
    unfold serve yield handle
    cases Kernel.yieldTask (a.task a.current) <;> rfl
  | getArg => rfl
  | getPid => rfl
  | getNow => rfl
  | msgSend =>
    simp only [serve, send, handle]
    by_cases hp : (a.task a.current).priority = .periodic
    · rw [if_pos hp, if_pos hp]
      rfl
    · rw [if_neg hp, if_neg hp]
      cases a.target r with
      | none => rfl
      | some x => cases hw : a.awaits (.process x) (a.info r).msgMask <;> simp [hw, finish]
  | msgRecv =>
    simp only [serve, recv, handle]
    by_cases hp : (a.task a.current).priority = .periodic
    · rw [if_pos hp, if_pos hp]
      rfl
    · rw [if_neg hp, if_neg hp]
      cases a.mail.find? (a.wanted r) with
      | none => rfl
      | some m => cases hv : validId m.sender <;> simp only [hv] <;> rfl
  | msgRply =>
    simp only [serve, reply, handle]
    by_cases hp : (a.task a.current).priority = .periodic
    · rw [if_pos hp, if_pos hp]
      rfl
    · rw [if_neg hp, if_neg hp]
      cases a.target r with
      | none => rfl
      | some x =>
        by_cases hs : (a.task (.process x)).state = .replyBlock
        · simp [hs, finish]
        · simp [hs, finish]
  | msgASend =>
    simp only [serve, asend, handle]
    by_cases hv : validId (a.info r).msgTo = none
    · rw [if_pos hv, if_pos hv]
      rfl
    · rw [if_neg hv, if_neg hv]
      cases a.target r with
      | none => rfl
      | some x => cases hw : a.awaits (.process x) (a.info r).msgMask <;> simp [hw, finish]
  | terminate =>
    simp only [serve, terminate, handle]
    by_cases hp : (a.task a.current).priority = .unlisted
    · rw [if_pos hp, if_pos hp]
      rfl
    · rw [if_neg hp, if_neg hp]
      rfl
  | abort => rfl

/-- The current task is suspended, and its request is handled up to the call of `Dispatch`. -/
def handled (a : Sched) (e : Entry) : Except Halt (Sched × Bool) :=
  (a.suspend e).1.handle (a.suspend e).2 (Entry.request e)

/-- In this entry `Dispatch` is called with the state `c`. -/
def Dispatches (a : Sched) (e : Entry) (c : Sched) : Prop := a.handled e = .ok (c, true)

/-- The state with which the entry calls `Dispatch`. -/
def dispatching (a : Sched) (e : Entry) : Option Sched :=
  (a.handled e).toOption.bind fun c => if c.2 then some c.1 else none

theorem dispatching_eq_some : a.dispatching e = some c ↔ a.Dispatches e c := by
  unfold dispatching Dispatches
  cases a.handled e with
  | error x => simp [Except.toOption]
  | ok b =>
    obtain ⟨b, d⟩ := b
    cases d <;> simp [Except.toOption]

/-! ### What a handler changes -/

/-- Only states of tasks, messages and parameter blocks differ. -/
structure SameButStates (a c : Sched) : Prop where
  task : ∀ p, ∃ st, c.task p = { a.task p with state := st }
  level : c.level = a.level
  current : c.current = a.current
  sysClock : c.sysClock = a.sysClock
  clockState : c.clockState = a.clockState

namespace SameButStates

theorem of_task_eq (ht : c.task = a.task) (hl : c.level = a.level) (hc : c.current = a.current)
    (hs : c.sysClock = a.sysClock) (ho : c.clockState = a.clockState) : SameButStates a c :=
  ⟨fun p => ⟨(a.task p).state, by rw [ht]⟩, hl, hc, hs, ho⟩

theorem trans {b : Sched} (h : SameButStates a b) (h' : SameButStates b c) : SameButStates a c := by
  refine ⟨fun p => ?_, h'.level.trans h.level, h'.current.trans h.current,
    h'.sysClock.trans h.sysClock, h'.clockState.trans h.clockState⟩
  obtain ⟨st, hst⟩ := h.task p
  obtain ⟨st', hst'⟩ := h'.task p
  exact ⟨st', by rw [hst', hst]⟩

theorem setState (a : Sched) (p : PDPtr) (st : ProcessState) :
    SameButStates a (a.setState p st) := by
  refine ⟨fun p' => ?_, rfl, rfl, rfl, rfl⟩
  by_cases h : p' = p
  · subst h
    exact ⟨st, by rw [setState_task, Function.update_self]⟩
  · exact ⟨(a.task p').state, by rw [setState_other h]⟩

theorem setReqParams (a : Sched) (p : PDPtr) (f : KernelRequestParams → KernelRequestParams) :
    SameButStates a (a.setReqParams p f) :=
  of_task_eq (by simp) (by simp) (by simp) (by simp) (by simp)

theorem handOver (a : Sched) (r : InfoPtr PDPtr) (x : Slot) :
    SameButStates a (a.handOver r x) :=
  ((setState a (.process x) .ready).trans (setState _ _ _)).trans (setReqParams _ _ _)

theorem post (a : Sched) (r : InfoPtr PDPtr) : SameButStates a (a.post r) := by
  have hmail : SameButStates a (a.setMail (a.mail ++ [a.letter r])) :=
    of_task_eq rfl rfl rfl rfl rfl
  exact hmail.trans (setState _ _ _)

theorem take (a : Sched) (r : InfoPtr PDPtr) (m : Mail) (sender : Slot) :
    SameButStates a (a.take r m sender) := by
  have hmail : SameButStates a ((a.setMail (a.mail.eraseP (a.wanted r))).setInfo r fun q =>
      { q with msgPtrData := m.data, outPid := m.sender }) := of_task_eq rfl rfl rfl rfl rfl
  exact hmail.trans (setState _ _ _)

theorem answer (a : Sched) (r : InfoPtr PDPtr) (x : Slot) : SameButStates a (a.answer r x) :=
  (setState a _ _).trans (setReqParams _ _ _)

theorem notify (a : Sched) (r : InfoPtr PDPtr) (x : Slot) : SameButStates a (a.notify r x) :=
  (setState a _ _).trans (setReqParams _ _ _)

end SameButStates

/-- What a request handler has done when it calls `Dispatch`, or returns without calling it. -/
inductive Handled (a : Sched) (r : InfoPtr PDPtr) : KernelRequestType → Sched → Bool → Prop
  /-- The request is answered in its parameter block, or it is not carried out. -/
  | info {k : KernelRequestType} (info : InfoPtr PDPtr → KernelRequestParams)
      (hk : k ≠ .timer ∧ k ≠ .next ∧ k ≠ .terminate) : Handled a r k { a with info := info } false
  /-- The process table is full, or the target of a reply does not wait for one. -/
  | refused {k : KernelRequestType} (hk : k = .create ∨ k = .msgRply) : Handled a r k a true
  | install {x : Slot} {f : BitVec 16} (g : KernelRequestParams → KernelRequestParams)
      (hx : (a.task (.process x)).state = .dead) (hq : admissible (a.info r) = true) :
      Handled a r .create ((a.install x f (a.info r)).setInfo r g) true
  | yield {t : Task PDPtr} (ht : Kernel.yieldTask (a.task a.current) = .ok t) :
      Handled a r .next (a.setTask a.current fun _ => t) true
  | tick {t : Task PDPtr} (ht : Kernel.chargeTick a.current (a.task a.current) = .ok t) :
      Handled a r .timer (a.setTask a.current fun _ => t).advanceClock true
  | handOver {x : Slot} (hp : (a.task a.current).priority ≠ .periodic)
      (hw : a.awaits (.process x) (a.info r).msgMask = true) :
      Handled a r .msgSend (a.handOver r x) true
  | post (hp : (a.task a.current).priority ≠ .periodic) : Handled a r .msgSend (a.post r) true
  | take {m : Mail} {sender : Slot} (hf : a.mail.find? (a.wanted r) = some m)
      (hm : m.sender = pidOf sender) : Handled a r .msgRecv (a.take r m sender) true
  | await (hp : (a.task a.current).priority ≠ .periodic) :
      Handled a r .msgRecv (a.setState a.current .recvBlock) true
  | answer {x : Slot} (hs : (a.task (.process x)).state = .replyBlock) :
      Handled a r .msgRply (a.answer r x) true
  | notify {x : Slot} (hw : a.awaits (.process x) (a.info r).msgMask = true) :
      Handled a r .msgASend (a.notify r x) true
  | bury (hp : (a.task a.current).priority ≠ .unlisted) : Handled a r .terminate a.bury true

/-- **What a handler does**, handler by handler. -/
theorem handle_cases (h : a.handle r k = .ok (c, d)) : Handled a r k c d := by
  cases k with
  | none =>
    cases h
    exact .info a.info (by simp)
  | timer =>
    obtain ⟨t, ht, hc⟩ := bind_ok h
    cases hc
    exact .tick ht
  | create =>
    obtain ⟨b, hb, hc⟩ := bind_ok h
    cases hc
    rcases create_cases hb with ⟨-, rfl⟩ | ⟨x, f, hx, -, hq, rfl⟩
    · exact .refused (by simp)
    · exact .install _ (freeSlot_dead hx) hq
  | next =>
    obtain ⟨t, ht, hc⟩ := bind_ok h
    cases hc
    exact .yield ht
  | getArg =>
    cases h
    exact .info _ (by simp)
  | getPid =>
    cases h
    exact .info _ (by simp)
  | getNow =>
    cases h
    exact .info _ (by simp)
  | msgSend =>
    simp only [handle] at h
    split_ifs at h with hp
    cases ht : a.target r with
    | none =>
      rw [ht] at h
      cases h
      exact .info a.info (by simp)
    | some x =>
      rw [ht] at h
      cases h
      split_ifs with hw
      · exact .handOver hp hw
      · exact .post hp
  | msgRecv =>
    simp only [handle] at h
    split_ifs at h with hp
    cases hf : a.mail.find? (a.wanted r) with
    | none =>
      rw [hf] at h
      cases h
      exact .await hp
    | some m =>
      rw [hf] at h
      cases hv : validId m.sender with
      | none => simp [hv] at h
      | some sender =>
        simp only [hv] at h
        cases h
        exact .take hf (validId_eq_some.1 hv)
  | msgRply =>
    simp only [handle] at h
    split_ifs at h
    cases ht : a.target r with
    | none =>
      rw [ht] at h
      cases h
      exact .info a.info (by simp)
    | some x =>
      rw [ht] at h
      cases h
      split_ifs with hs
      · exact .answer hs
      · exact .refused (by simp)
  | msgASend =>
    simp only [handle] at h
    split_ifs at h
    cases ht : a.target r with
    | none =>
      rw [ht] at h
      cases h
      exact .info a.info (by simp)
    | some x =>
      rw [ht] at h
      dsimp only at h
      split_ifs at h with hw
      · cases h
        exact .notify hw
      · cases h
        exact .info a.info (by simp)
  | terminate =>
    simp only [handle] at h
    split_ifs at h with hp
    cases h
    exact .bury hp
  | abort => cases h

/-- The effect of a handler on the tasks, the levels and the clock. -/
inductive Change (a : Sched) (r : InfoPtr PDPtr) : KernelRequestType → Sched → Prop
  | states {k : KernelRequestType} {c : Sched} (hk : k ≠ .timer ∧ k ≠ .next ∧ k ≠ .terminate)
      (h : SameButStates a c) : Change a r k c
  | install {x : Slot} {f : BitVec 16} {g : KernelRequestParams → KernelRequestParams}
      (hx : (a.task (.process x)).state = .dead) (hq : admissible (a.info r) = true) :
      Change a r .create ((a.install x f (a.info r)).setInfo r g)
  | yield {t : Task PDPtr} (ht : Kernel.yieldTask (a.task a.current) = .ok t) :
      Change a r .next (a.setTask a.current fun _ => t)
  | tick {t : Task PDPtr} (ht : Kernel.chargeTick a.current (a.task a.current) = .ok t) :
      Change a r .timer (a.setTask a.current fun _ => t).advanceClock
  | bury (hp : (a.task a.current).priority ≠ .unlisted) : Change a r .terminate a.bury

theorem Handled.change (h : Handled a r k c d) : Change a r k c := by
  cases h with
  | info info hk => exact .states hk (.of_task_eq rfl rfl rfl rfl rfl)
  | refused hk =>
    refine .states ?_ (.of_task_eq rfl rfl rfl rfl rfl)
    rcases hk with rfl | rfl <;> simp
  | install g hx hq => exact .install hx hq
  | yield ht => exact .yield ht
  | tick ht => exact .tick ht
  | handOver hp hw => exact .states (by simp) (.handOver a r _)
  | post hp => exact .states (by simp) (.post a r)
  | take hf hm => exact .states (by simp) (.take a r _ _)
  | await hp => exact .states (by simp) (.setState a _ _)
  | answer hs => exact .states (by simp) (.answer a r _)
  | notify hw => exact .states (by simp) (.notify a r _)
  | bury hp => exact .bury hp

/-- A handler that does not call `Dispatch` changes parameter blocks at most. -/
theorem Handled.quiet (h : Handled a r k c false) :
    (k ≠ .timer ∧ k ≠ .next ∧ k ≠ .terminate) ∧ ∃ info, c = { a with info := info } := by
  cases h with
  | info info hk => exact ⟨hk, info, rfl⟩

/-- `Dispatch` is called with the levels in order, and with nobody running. -/
theorem Handled.handling (h : Handled a r k c true) (ha : a.Entered)
    (hu : k = .timer ∨ a.current ≠ .idleProcess) : c.Handling := by
  have hproc : k ≠ .timer → ∃ i, a.current = .process i := by
    intro hk
    cases hc : a.current with
    | process i => exact ⟨i, rfl⟩
    | idleProcess => exact absurd hc (hu.resolve_left hk)
  cases h with
  | refused hk => exact ha.toHandling
  | install g hx hq =>
    exact (ha.toHandling.install hx _ (admissible_listed hq)).of_eq rfl rfl rfl
  | yield ht => exact ha.setTimes (yieldTask_ok ht)
  | tick ht =>
    obtain ⟨ticks, rfl⟩ := chargeTick_ok ht
    exact (ha.setTimes ⟨(a.task a.current).tons, ticks, (a.task a.current).clockState, rfl⟩).of_eq
      rfl rfl rfl
  | handOver hp hw => exact ha.handOver hp hw
  | post hp =>
    obtain ⟨i, hi⟩ := hproc (by simp)
    exact ha.post hp hi
  | take hf hm => exact ha.take hf hm
  | await hp => exact ha.await hp
  | answer hs => exact ha.answer hs
  | notify hw => exact ha.notify hw
  | bury hp =>
    obtain ⟨i, hi⟩ := hproc (by simp)
    exact ha.bury hi

theorem ready_iff : a.ready p = true ↔ (a.task p).state = .ready := by simp [ready]

theorem ready_setState_of_ne {st : ProcessState} {p' : PDPtr} (h : a.ready p = true)
    (hne : p ≠ p') : (a.setState p' st).ready p = true := by
  rw [ready_iff, setState_other hne]
  exact ready_iff.1 h

@[simp] theorem ready_setReqParams (a : Sched) (p p' : PDPtr)
    (f : KernelRequestParams → KernelRequestParams) :
    (a.setReqParams p f).ready p' = a.ready p' := by
  rw [ready, ready, setReqParams_task]

/-- Only the current task leaves the ready tasks while a request is handled. -/
theorem Handled.ready (h : Handled a r k c d) (ha : a.Entered) (hp : a.ready p = true)
    (hne : p ≠ a.current) : c.ready p = true := by
  have hst := ready_iff.1 hp
  -- a process that is blocked is not the one that is ready
  have hblocked : ∀ x st, (a.task (.process x)).state = st → st ≠ .ready → p ≠ .process x := by
    intro x st hx hst' heq
    subst heq
    exact hst' (hx.symm.trans hst)
  cases h with
  | info info hk => exact hp
  | refused hk => exact hp
  | install g hx hq =>
    rw [ready_iff, setInfo_task, install_task,
      Function.update_of_ne (hblocked _ _ hx (by simp))]
    exact hst
  | yield ht =>
    rw [ready_iff, setTask_task, Function.update_of_ne hne]
    exact hst
  | tick ht =>
    show (a.setTask a.current fun _ => _).ready p = true
    rw [ready_iff, setTask_task, Function.update_of_ne hne]
    exact hst
  | handOver _ hw =>
    have hx := hblocked _ _ (awaits_eq_true hw).1 (by simp)
    rw [Sched.handOver, ready_setReqParams]
    exact ready_setState_of_ne (ready_setState_of_ne hp hx) hne
  | post _ => exact ready_setState_of_ne hp hne
  | take hf hm =>
    obtain ⟨i, hi, hs⟩ := ha.posted.sender _ (List.mem_of_find?_eq_some hf)
    have hi' := pidOf_injective (hm.symm.trans hi)
    subst hi'
    exact ready_setState_of_ne hp (hblocked _ _ hs (by simp))
  | await _ => exact ready_setState_of_ne hp hne
  | answer hs =>
    rw [Sched.answer, ready_setReqParams]
    exact ready_setState_of_ne hp (hblocked _ _ hs (by simp))
  | notify hw =>
    have hx := hblocked _ _ (awaits_eq_true hw).1 (by simp)
    rw [Sched.notify, ready_setReqParams]
    exact ready_setState_of_ne hp hx
  | bury _ => exact ready_setState_of_ne hp hne

/-! ### A kernel entry and its dispatch -/

theorem handled_cases (h : a.handled e = .ok (c, d)) :
    Handled (a.suspend e).1 (a.suspend e).2 (Entry.request e) c d :=
  handle_cases h

theorem enter_eq (a : Sched) (e : Entry) : a.enter e =
    (a.suspend e).1.serve (a.suspend e).2 (Entry.request e) >>= fun b =>
      .ok (b.setInfo (a.suspend e).2 fun q => { q with request := .none }) := by
  rw [← suspend_request a e]
  rfl

/-- The state in which a successful entry returns to user mode: as the handler left it, or as
`Dispatch` did. -/
theorem enter_parts (h : a.enter e = .ok a') : ∃ c d b, a.handled e = .ok (c, d) ∧
    a' = b.setInfo (a.suspend e).2 (fun q => { q with request := .none }) ∧
    ((d = true ∧ c.dispatch = .ok b) ∨ (d = false ∧ b = c)) := by
  obtain ⟨b, hb, rfl⟩ := enter_cases h
  rw [serve_eq] at hb
  obtain ⟨⟨c, d⟩, hc, hd⟩ := bind_ok hb
  refine ⟨c, d, b, hc, rfl, ?_⟩
  cases d with
  | true => exact Or.inl ⟨rfl, hd⟩
  | false => exact Or.inr ⟨rfl, (Except.ok.inj hd).symm⟩

/-- The request of a possible entry, seen from the suspended task. -/
theorem Possible.request (h : a.Possible e) :
    Entry.request e = .timer ∨ (a.suspend e).1.current ≠ .idleProcess := by
  cases e with
  | timer => exact Or.inl rfl
  | call c =>
    rw [suspend_current]
    exact Or.inr h

/-- Whenever `Dispatch` is called, nobody is running and the levels are in order. -/
theorem Dispatches.handling (h : a.Dispatches e c) (ha : a.Inv) (hp : a.Possible e) :
    c.Handling :=
  (handled_cases h).handling (ha.suspend e) hp.request

end Sched

end RoombaRtos
