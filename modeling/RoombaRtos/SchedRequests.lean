import RoombaRtos.SchedInvariant

/-!
# Every request keeps the invariants

One inversion lemma per request says everything that a successful request can have done
(`send_cases`, `recv_cases`, …), and from it `Inv.enter`: a kernel entry takes a state that
satisfies `Sched.Inv` to one that does.
-/

namespace RoombaRtos

open ListQueue

namespace Sched

variable {a a' : Sched} {p : PDPtr} {q : PriorityLevel} {r : InfoPtr PDPtr}

/-! ### What a request can do -/

theorem send_cases (h : a.send r = .ok a') :
    (a.task a.current).priority ≠ .periodic ∧
      ((a.target r = none ∧ a' = a) ∨
      (∃ x, a.target r = some x ∧ a.awaits (.process x) (a.info r).msgMask = true ∧
        (a.handOver r x).dispatch = .ok a') ∨
      (∃ x, a.target r = some x ∧ a.awaits (.process x) (a.info r).msgMask = false ∧
        (a.post r).dispatch = .ok a')) := by
  unfold send at h
  by_cases hp : (a.task a.current).priority = .periodic
  · simp [hp] at h
  · refine ⟨hp, ?_⟩
    rw [if_neg hp] at h
    cases ht : a.target r with
    | none =>
      simp only [ht, Except.ok.injEq] at h
      exact Or.inl ⟨rfl, h.symm⟩
    | some x =>
      simp only [ht] at h
      cases hw : a.awaits (.process x) (a.info r).msgMask with
      | true =>
        rw [if_pos hw] at h
        exact Or.inr (Or.inl ⟨x, rfl, hw, h⟩)
      | false =>
        rw [if_neg (by simp [hw])] at h
        exact Or.inr (Or.inr ⟨x, rfl, hw, h⟩)

theorem recv_cases (h : a.recv r = .ok a') :
    (a.task a.current).priority ≠ .periodic ∧
      ((∃ m sender, a.mail.find? (a.wanted r) = some m ∧ m.sender = pidOf sender ∧
        (a.take r m sender).dispatch = .ok a') ∨
      (a.mail.find? (a.wanted r) = none ∧
        (a.setState a.current .recvBlock).dispatch = .ok a')) := by
  unfold recv at h
  by_cases hp : (a.task a.current).priority = .periodic
  · simp [hp] at h
  · refine ⟨hp, ?_⟩
    rw [if_neg hp] at h
    cases hf : a.mail.find? (a.wanted r) with
    | none =>
      simp only [hf] at h
      exact Or.inr ⟨rfl, h⟩
    | some m =>
      simp only [hf] at h
      cases hv : validId m.sender with
      | none => simp [hv] at h
      | some sender =>
        simp only [hv] at h
        exact Or.inl ⟨m, sender, rfl, validId_eq_some.1 hv, h⟩

theorem reply_cases (h : a.reply r = .ok a') :
    (a.task a.current).priority ≠ .periodic ∧
      ((a.target r = none ∧ a' = a) ∨
      (∃ x, a.target r = some x ∧ (a.task (.process x)).state = .replyBlock ∧
        (a.answer r x).dispatch = .ok a') ∨
      (∃ x, a.target r = some x ∧ (a.task (.process x)).state ≠ .replyBlock ∧
        a.dispatch = .ok a')) := by
  unfold reply at h
  by_cases hp : (a.task a.current).priority = .periodic
  · simp [hp] at h
  · refine ⟨hp, ?_⟩
    rw [if_neg hp] at h
    cases ht : a.target r with
    | none =>
      simp only [ht, Except.ok.injEq] at h
      exact Or.inl ⟨rfl, h.symm⟩
    | some x =>
      simp only [ht] at h
      by_cases hw : (a.task (.process x)).state = .replyBlock
      · rw [if_pos hw] at h
        exact Or.inr (Or.inl ⟨x, rfl, hw, h⟩)
      · rw [if_neg hw] at h
        exact Or.inr (Or.inr ⟨x, rfl, hw, h⟩)

theorem asend_cases (h : a.asend r = .ok a') :
    (a.target r = none ∧ a' = a) ∨
    (∃ x, a.target r = some x ∧ a.awaits (.process x) (a.info r).msgMask = true ∧
      (a.notify r x).dispatch = .ok a') ∨
    (∃ x, a.target r = some x ∧ a.awaits (.process x) (a.info r).msgMask = false ∧ a' = a) := by
  unfold asend at h
  by_cases hv : validId (a.info r).msgTo = none
  · simp [hv] at h
  · rw [if_neg hv] at h
    cases ht : a.target r with
    | none =>
      simp only [ht, Except.ok.injEq] at h
      exact Or.inl ⟨rfl, h.symm⟩
    | some x =>
      simp only [ht] at h
      cases hw : a.awaits (.process x) (a.info r).msgMask with
      | true =>
        rw [if_pos hw] at h
        exact Or.inr (Or.inl ⟨x, rfl, hw, h⟩)
      | false =>
        rw [if_neg (by simp [hw]), Except.ok.injEq] at h
        exact Or.inr (Or.inr ⟨x, rfl, hw, h.symm⟩)

theorem create_cases (h : a.create r = .ok a') :
    (a.freeSlot = none ∧ a' = a) ∨
    (∃ x f, a.freeSlot = some x ∧ (a.info r).code = some f ∧ admissible (a.info r) = true ∧
      a' = (a.install x f (a.info r)).setInfo r fun q => { q with outPid := pidOf x }) := by
  unfold create at h
  cases hx : a.freeSlot with
  | none =>
    simp only [hx, Except.ok.injEq] at h
    exact Or.inl ⟨rfl, h.symm⟩
  | some x =>
    simp only [hx] at h
    cases hf : (a.info r).code with
    | none => simp [hf] at h
    | some f =>
      simp only [hf] at h
      cases hq : admissible (a.info r) with
      | false => simp [hq] at h
      | true =>
        rw [if_pos hq, Except.ok.injEq] at h
        exact Or.inr ⟨x, f, rfl, rfl, rfl, h.symm⟩

theorem terminate_cases (h : a.terminate = .ok a') :
    (a.task a.current).priority ≠ .unlisted ∧ a.bury.dispatch = .ok a' := by
  unfold terminate at h
  by_cases hp : (a.task a.current).priority = .unlisted
  · simp [hp] at h
  · rw [if_neg hp] at h
    exact ⟨hp, h⟩

theorem yield_cases (h : a.yield = .ok a') :
    ∃ t, Kernel.yieldTask (a.task a.current) = .ok t ∧
      (a.setTask a.current fun _ => t).dispatch = .ok a' :=
  Lockstep.bind_ok h

theorem tick_cases (h : a.tick = .ok a') :
    ∃ t, Kernel.chargeTick a.current (a.task a.current) = .ok t ∧
      (a.setTask a.current fun _ => t).advanceClock.dispatch = .ok a' :=
  Lockstep.bind_ok h

/-- Yielding touches only the times of the task. -/
theorem yieldTask_ok {t t' : Task PDPtr} (h : Kernel.yieldTask t = .ok t') :
    ∃ tons ticks clock,
      t' = { t with tons := tons, ticksRemaining := ticks, clockState := clock } := by
  unfold Kernel.yieldTask at h
  split at h
  · exact ⟨_, _, _, (Except.ok.inj h).symm⟩
  · exact ⟨_, _, _, (Except.ok.inj h).symm⟩
  · exact ⟨_, _, _, (Except.ok.inj h).symm⟩
  · cases h

/-- Charging a tick touches only the remaining ticks of the task. -/
theorem chargeTick_ok {t t' : Task PDPtr} (h : Kernel.chargeTick p t = .ok t') :
    ∃ ticks, t' = { t with ticksRemaining := ticks } := by
  unfold Kernel.chargeTick at h
  split at h
  · exact ⟨_, (Except.ok.inj h).symm⟩
  · simp only at h
    split at h
    · cases h
    · exact ⟨_, (Except.ok.inj h).symm⟩
  · exact ⟨_, (Except.ok.inj h).symm⟩
  · split at h
    · cases h
    · exact ⟨_, (Except.ok.inj h).symm⟩

theorem awaits_eq_true {type : MType} (h : a.awaits p type = true) :
    (a.task p).state = .recvBlock ∧
      ∃ r, (a.task p).reqParams = some r ∧ maskTestAny (a.info r).msgMask type = true := by
  unfold awaits at h
  rw [Bool.and_eq_true] at h
  refine ⟨by simpa using h.1, ?_⟩
  cases hr : (a.task p).reqParams with
  | none => simp [hr] at h
  | some r => exact ⟨r, rfl, by simpa [hr] using h.2⟩

theorem freeSlot_dead {x : Slot} (h : a.freeSlot = some x) :
    (a.task (.process x)).state = .dead := by
  simpa using List.find?_some h

/-! ### State changes while a request is handled -/

theorem Handling.of_eq (h : a.Handling) (ht : a'.task = a.task) (hl : a'.level = a.level)
    (hm : a'.mail = a.mail) : a'.Handling := by
  refine ⟨h.levels.congr ht hl, ⟨?_, ?_⟩, ?_⟩
  · rw [ht, hm]; exact h.posted.sender
  · rw [hm]; exact h.posted.nodup
  · rw [ht]; exact h.stopped

theorem Handling.setTask (h : a.Handling) (f : Task PDPtr → Task PDPtr)
    (hp : (f (a.task p)).priority = (a.task p).priority)
    (hid : (f (a.task p)).processId = (a.task p).processId)
    (hl : (a.task p).state ≠ .dead) (hl' : (f (a.task p)).state ≠ .dead)
    (hr : (f (a.task p)).state ≠ .running)
    (hper : p ∈ a.level .periodic → (f (a.task p)).state = .ready)
    (hs : ∀ i, p = .process i → (∃ m ∈ a.mail, m.sender = pidOf i) →
      (f (a.task p)).state = .sendBlock) :
    (a.setTask p f).Handling := by
  have hself : (a.setTask p f).task p = f (a.task p) := by simp [setTask_task]
  have hother : ∀ p', p' ≠ p → (a.setTask p f).task p' = a.task p' := by
    intro p' hpp
    simp [setTask_task, hpp]
  refine ⟨h.levels.of_same rfl ?_ ?_ ?_ ?_, h.posted.of_states (List.Sublist.refl _) ?_, ?_⟩
  · intro p'
    by_cases hpp : p' = p
    · subst hpp; rw [hself, hp]
    · rw [hother p' hpp]
  · intro p'
    by_cases hpp : p' = p
    · subst hpp; rw [hself, hid]
    · rw [hother p' hpp]
  · intro p'
    by_cases hpp : p' = p
    · subst hpp
      rw [hself]
      exact ⟨fun hd => absurd hd hl', fun hd => absurd hd hl⟩
    · rw [hother p' hpp]
  · intro p' hp'
    by_cases hpp : p' = p
    · subst hpp
      rw [hself]
      exact Or.inl (hper hp')
    · rw [hother p' hpp]
      exact h.levels.periodic p' hp'
  · intro m hm i hi hst
    by_cases hpp : PDPtr.process i = p
    · subst hpp
      rw [hself]
      exact hs i rfl ⟨m, hm, hi⟩
    · rw [hother _ hpp, hst]
  · intro p'
    by_cases hpp : p' = p
    · subst hpp; rw [hself]; exact hr
    · rw [hother p' hpp]; exact h.stopped p'

/-- A live process becomes ready. -/
theorem Handling.wake (h : a.Handling) (hl : (a.task p).state ≠ .dead)
    (hs : (a.task p).state ≠ .sendBlock) : (a.setState p .ready).Handling := by
  refine h.setTask _ rfl rfl hl (by simp) (by simp) (fun _ => rfl) ?_
  rintro i rfl ⟨m, hm, hi⟩
  obtain ⟨j, hj, hst⟩ := h.posted.sender m hm
  have hij : i = j := pidOf_injective (hi.symm.trans hj)
  exact absurd (hij ▸ hst) hs

/-- A task that is not periodic blocks. -/
theorem Handling.block (h : a.Handling) {st : ProcessState} (hl : (a.task p).state ≠ .dead)
    (hper : p ∉ a.level .periodic)
    (hst : st = .sendBlock ∨ ((st = .replyBlock ∨ st = .recvBlock) ∧
      ∀ i, p = .process i → ∀ m ∈ a.mail, m.sender ≠ pidOf i)) : (a.setState p st).Handling := by
  refine h.setTask _ rfl rfl hl ?_ ?_ (fun hm => absurd hm hper) ?_
  · rcases hst with rfl | ⟨rfl | rfl, _⟩ <;> simp
  · rcases hst with rfl | ⟨rfl | rfl, _⟩ <;> simp
  · intro i hi hm
    rcases hst with rfl | ⟨_, hno⟩
    · rfl
    · obtain ⟨m, hm, hmi⟩ := hm
      exact absurd hmi (hno i hi m hm)

/-! ### Kernel entry -/

/-- The state in which a request handler starts. -/
structure Entered (a : Sched) : Prop extends a.Handling where
  ready : (a.task a.current).state = .ready
  front : a.current = .idleProcess ∨
    (a.level (a.task a.current).priority).head? = some a.current
  due : (a.task a.current).priority = .periodic → a.due a.current = true

theorem Entered.inv (h : a.Entered) : a.Inv :=
  ⟨h.levels, h.posted, h.front, h.due, Or.inr h.ready, fun p hp => absurd hp (h.stopped p)⟩

/-- The invariant only speaks of tasks, levels, messages and the clock. -/
theorem Inv.setInfo (h : a.Inv) (r : InfoPtr PDPtr)
    (g : KernelRequestParams → KernelRequestParams) : (a.setInfo r g).Inv :=
  ⟨h.levels.congr rfl rfl, ⟨h.posted.sender, h.posted.nodup⟩, h.front, h.due, h.active, h.running⟩

theorem Inv.current_live (h : a.Inv) : (a.task a.current).state ≠ .dead := by
  rcases h.active with hs | hs <;> simp [hs]

/-- A process that is not blocked has no undelivered message. -/
theorem Posted.no_mail (h : a.Posted) {i : Slot}
    (hs : (a.task (.process i)).state ≠ .sendBlock) : ∀ m ∈ a.mail, m.sender ≠ pidOf i := by
  intro m hm hmi
  obtain ⟨j, hj, hst⟩ := h.sender m hm
  have hij : i = j := pidOf_injective (hmi.symm.trans hj)
  exact hs (hij ▸ hst)

/-- Suspending the current task: it becomes ready, and its descriptor changes at most in
`req_params`. -/
theorem suspend_task (a : Sched) (e : Entry) :
    ∃ params, (a.suspend e).1.task = Function.update a.task a.current
      { a.task a.current with state := .ready, reqParams := params } := by
  cases e with
  | timer => exact ⟨(a.task a.current).reqParams, rfl⟩
  | call c =>
    refine ⟨some (.stub a.current), ?_⟩
    simp [suspend, setState_task, setTask_task]

/-- Other tasks are left alone, -/
theorem suspend_task_of_ne (a : Sched) (e : Entry) (hp : p ≠ a.current) :
    (a.suspend e).1.task p = a.task p := by
  obtain ⟨params, ht⟩ := a.suspend_task e
  rw [ht, Function.update_of_ne hp]

theorem suspend_task_current (a : Sched) (e : Entry) :
    ∃ params, (a.suspend e).1.task a.current =
      { a.task a.current with state := .ready, reqParams := params } := by
  obtain ⟨params, ht⟩ := a.suspend_task e
  exact ⟨params, by rw [ht, Function.update_self]⟩

/-- and no task changes in anything else. -/
theorem suspend_task_eq (a : Sched) (e : Entry) (p : PDPtr) :
    ∃ st params, (a.suspend e).1.task p = { a.task p with state := st, reqParams := params } := by
  by_cases hp : p = a.current
  · subst hp
    obtain ⟨params, ht⟩ := a.suspend_task_current e
    exact ⟨.ready, params, ht⟩
  · exact ⟨(a.task p).state, (a.task p).reqParams, a.suspend_task_of_ne e hp⟩

theorem suspend_priority (a : Sched) (e : Entry) (p : PDPtr) :
    ((a.suspend e).1.task p).priority = (a.task p).priority := by
  obtain ⟨st, params, ht⟩ := a.suspend_task_eq e p
  rw [ht]

@[simp] theorem suspend_level (a : Sched) (e : Entry) : (a.suspend e).1.level = a.level := by
  cases e <;> rfl

@[simp] theorem suspend_mail (a : Sched) (e : Entry) : (a.suspend e).1.mail = a.mail := by
  cases e <;> rfl

@[simp] theorem suspend_current (a : Sched) (e : Entry) :
    (a.suspend e).1.current = a.current := by
  cases e <;> rfl

@[simp] theorem suspend_sysClock (a : Sched) (e : Entry) :
    (a.suspend e).1.sysClock = a.sysClock := by
  cases e <;> rfl

@[simp] theorem suspend_clockState (a : Sched) (e : Entry) :
    (a.suspend e).1.clockState = a.clockState := by
  cases e <;> rfl

/-- Storing the state a process is in already changes nothing. -/
theorem setState_eq_self {st : ProcessState} (h : (a.task p).state = st) :
    a.setState p st = a := by
  subst h
  simp [setState, setTask]

theorem Inv.suspend (h : a.Inv) (e : Entry) : (a.suspend e).1.Entered := by
  obtain ⟨params, hself⟩ := a.suspend_task_current e
  have hother : ∀ p, p ≠ a.current → (a.suspend e).1.task p = a.task p :=
    fun p => a.suspend_task_of_ne e
  set b := (a.suspend e).1 with hb
  have hcur : b.current = a.current := by simp [hb]
  have hlevel : b.level = a.level := by simp [hb]
  have hmail : b.mail = a.mail := by simp [hb]
  refine ⟨⟨h.levels.of_same hlevel ?_ ?_ ?_ ?_, h.posted.of_states (by rw [hmail]) ?_, ?_⟩,
    ?_, ?_, ?_⟩
  · intro p
    by_cases hp : p = a.current
    · subst hp; rw [hself]
    · rw [hother p hp]
  · intro p
    by_cases hp : p = a.current
    · subst hp; rw [hself]
    · rw [hother p hp]
  · intro p
    by_cases hp : p = a.current
    · subst hp
      rw [hself]
      exact ⟨fun hd => by simp at hd, fun hd => absurd hd h.current_live⟩
    · rw [hother p hp]
  · intro p hp
    by_cases hpc : p = a.current
    · subst hpc; rw [hself]; exact Or.inl rfl
    · rw [hother p hpc]
      exact h.levels.periodic p hp
  · intro m _ i _ hst
    have hne : PDPtr.process i ≠ a.current := by
      intro hi
      rw [hi] at hst
      rcases h.active with hs | hs <;> simp [hs] at hst
    rw [hother _ hne, hst]
  · intro p
    by_cases hp : p = a.current
    · subst hp; rw [hself]; simp
    · rw [hother p hp]
      exact fun hr => hp (h.running p hr)
  · rw [hcur, hself]
  · rw [hcur, hself, hlevel]
    exact h.front
  · intro hper
    rw [hcur, hself] at hper
    have hd := h.due hper
    rw [hcur]
    simp only [Sched.due, hself] at hd ⊢
    simpa [hb] using hd

/-! ### The requests one by one -/

/-- A process waiting in a receive or for a reply is not periodic. -/
theorem Handling.notMem_periodic (h : a.Handling)
    (hs : (a.task p).state = .recvBlock ∨ (a.task p).state = .sendBlock ∨
      (a.task p).state = .replyBlock) : p ∉ a.level .periodic := by
  intro hm
  have hr := h.periodic_ready hm
  rcases hs with hs | hs | hs <;> simp [Sched.ready, hs] at hr

theorem Entered.handOver (h : a.Entered) (hp : (a.task a.current).priority ≠ .periodic)
    {x : Slot} (hw : a.awaits (.process x) (a.info r).msgMask = true) :
    (a.handOver r x).Handling := by
  obtain ⟨hs, -⟩ := awaits_eq_true hw
  have hne : a.current ≠ .process x := by
    intro he
    have := h.ready
    rw [he, hs] at this
    cases this
  have h1 : (a.setState (.process x) .ready).Handling :=
    h.toHandling.wake (by simp [hs]) (by simp [hs])
  have hcur : (a.setState (.process x) .ready).task a.current = a.task a.current :=
    setState_other hne _ _
  have h2 : ((a.setState (.process x) .ready).setState a.current .replyBlock).Handling := by
    refine h1.block (by rw [hcur, h.ready]; simp) ?_ (Or.inr ⟨Or.inl rfl, ?_⟩)
    · rw [setState_level]
      exact h.levels.notMem_of_priority hp
    · intro i hi
      rw [setState_mail]
      refine h.posted.no_mail ?_
      rw [← hi, h.ready]
      simp
  exact h2.of_eq (by simp [Sched.handOver]) (by simp [Sched.handOver]) (by simp [Sched.handOver])

theorem Entered.post (h : a.Entered) (hp : (a.task a.current).priority ≠ .periodic)
    {i : Slot} (hi : a.current = .process i) : (a.post r).Handling := by
  have hlive : (a.task a.current).state ≠ .dead := by simp [h.ready]
  have hpid : (a.letter r).sender = pidOf i := by
    have := h.levels.pid i (by rw [← hi]; exact hlive)
    rw [letter, hi, this]
  have hno : ∀ m ∈ a.mail, m.sender ≠ pidOf i :=
    h.posted.no_mail (by rw [← hi, h.ready]; simp)
  have h1 : (a.setState a.current .sendBlock).Handling :=
    h.toHandling.block hlive (h.levels.notMem_of_priority hp) (Or.inl rfl)
  refine ⟨h1.levels.congr rfl rfl, ⟨?_, ?_⟩, h1.stopped⟩
  · intro m hm
    rcases List.mem_append.1 hm with hm | hm
    · exact h1.posted.sender m hm
    · rw [List.mem_singleton.1 hm, hpid]
      refine ⟨i, rfl, ?_⟩
      rw [← hi]
      exact setState_self _ _ _
  · show ((a.mail ++ [a.letter r]).map Mail.sender).Nodup
    rw [List.map_append, List.nodup_append]
    refine ⟨h.posted.nodup, List.nodup_singleton _, ?_⟩
    rintro s hs t ht rfl
    rw [List.map_singleton, List.mem_singleton, hpid] at ht
    obtain ⟨m, hm, hms⟩ := List.mem_map.1 hs
    exact hno m hm (hms.trans ht)

theorem Entered.take (h : a.Entered) {m : Mail} {sender : Slot}
    (hf : a.mail.find? (a.wanted r) = some m) (hm : m.sender = pidOf sender) :
    (a.take r m sender).Handling := by
  have hmem := List.mem_of_find?_eq_some hf
  have hst : (a.task (.process sender)).state = .sendBlock := by
    obtain ⟨i, hi, hst⟩ := h.posted.sender m hmem
    have : sender = i := pidOf_injective (hm.symm.trans hi)
    rw [this, hst]
  -- the message taken was the only one of its sender
  have hno : ∀ m' ∈ a.mail.eraseP (a.wanted r), m'.sender ≠ pidOf sender := by
    rw [← hm]
    exact key_ne_of_mem_eraseP h.posted.nodup hf
  have h1 : ((a.setMail (a.mail.eraseP (a.wanted r))).setInfo r fun q =>
      { q with msgPtrData := m.data, outPid := m.sender }).Handling :=
    ⟨h.levels.congr rfl rfl,
      h.posted.of_states List.eraseP_sublist (fun _ _ _ _ hst => hst), h.stopped⟩
  refine h1.block ?_ ?_ (Or.inr ⟨Or.inl rfl, ?_⟩)
  · show (a.task (.process sender)).state ≠ .dead
    simp [hst]
  · exact h.toHandling.notMem_periodic (Or.inr (Or.inl hst))
  · intro i hi
    cases hi
    exact hno

theorem Entered.answer (h : a.Entered) {x : Slot}
    (hs : (a.task (.process x)).state = .replyBlock) : (a.answer r x).Handling := by
  have h1 : (a.setState (.process x) .ready).Handling :=
    h.toHandling.wake (by simp [hs]) (by simp [hs])
  exact h1.of_eq (by simp [Sched.answer]) (by simp [Sched.answer]) (by simp [Sched.answer])

theorem Entered.notify (h : a.Entered) {x : Slot} {type : MType}
    (hw : a.awaits (.process x) type = true) : (a.notify r x).Handling := by
  obtain ⟨hs, -⟩ := awaits_eq_true hw
  have h1 : (a.setState (.process x) .ready).Handling :=
    h.toHandling.wake (by simp [hs]) (by simp [hs])
  exact h1.of_eq (by simp [Sched.notify]) (by simp [Sched.notify]) (by simp [Sched.notify])

/-- The current task waits for a message. -/
theorem Entered.await (h : a.Entered) (hp : (a.task a.current).priority ≠ .periodic) :
    (a.setState a.current .recvBlock).Handling := by
  refine h.toHandling.block (by simp [h.ready]) (h.levels.notMem_of_priority hp)
    (Or.inr ⟨Or.inr rfl, ?_⟩)
  intro i hi
  refine h.posted.no_mail ?_
  rw [← hi, h.ready]
  simp

/-- New times for the current task do not disturb the invariants. -/
theorem Entered.setTimes (h : a.Entered) {t : Task PDPtr}
    (ht : ∃ tons ticks clock, t = { a.task a.current with
      tons := tons, ticksRemaining := ticks, clockState := clock }) :
    (a.setTask a.current fun _ => t).Handling := by
  obtain ⟨tons, ticks, clock, rfl⟩ := ht
  refine h.toHandling.setTask _ rfl rfl (by simp [h.ready]) (by simp [h.ready])
    (by simp [h.ready]) (fun _ => h.ready) ?_
  intro i hi ⟨m, hm, hmi⟩
  refine absurd hmi (h.posted.no_mail ?_ m hm)
  rw [← hi, h.ready]
  simp

/-! ### Creation -/

theorem newTask_spec (a : Sched) (x : Slot) (f : BitVec 16) (q : KernelRequestParams) :
    (a.newTask x f q).state = .ready ∧ (a.newTask x f q).priority = q.priority ∧
      (a.newTask x f q).processId = pidOf x ∧ (a.newTask x f q).reqParams = none := by
  unfold newTask
  cases q.priority <;> exact ⟨rfl, rfl, rfl, rfl⟩

theorem join_perm (a : Sched) (q : PriorityLevel) (p : PDPtr) :
    (a.join q p).Perm (p :: a.level q) := by
  unfold join
  split
  · exact placeBehind_perm _ p _
  · exact List.perm_append_singleton p _

theorem admissible_listed {q : KernelRequestParams} (h : admissible q = true) :
    q.priority ≠ .unlisted := by
  intro hq
  simp [admissible, hq] at h

theorem install_task (a : Sched) (x : Slot) (f : BitVec 16) (q : KernelRequestParams) :
    (a.install x f q).task = Function.update a.task (.process x) (a.newTask x f q) := rfl

theorem install_level (a : Sched) (x : Slot) (f : BitVec 16) (q : KernelRequestParams) :
    ∃ l : List PDPtr, l.Perm (.process x :: a.level q.priority) ∧
      (a.install x f q).level = Function.update a.level q.priority l :=
  ⟨_, join_perm (a.setTask (.process x) fun _ => a.newTask x f q) q.priority (.process x), rfl⟩

/-- The new task joins the queue of its level, and nobody moves. -/
theorem mem_install_level (a : Sched) (x : Slot) (f : BitVec 16) (q : KernelRequestParams)
    (q' : PriorityLevel) (p : PDPtr) : p ∈ (a.install x f q).level q' ↔
      p ∈ a.level q' ∨ p = .process x ∧ q' = q.priority := by
  obtain ⟨l, hl, hlevel⟩ := a.install_level x f q
  rw [hlevel]
  by_cases hq' : q' = q.priority
  · subst hq'
    rw [Function.update_self, hl.mem_iff, List.mem_cons]
    tauto
  · rw [Function.update_of_ne hq']
    tauto

theorem Handling.install (h : a.Handling) {x : Slot}
    (hx : (a.task (.process x)).state = .dead) (f : BitVec 16) {q : KernelRequestParams}
    (hq : q.priority ≠ .unlisted) : (a.install x f q).Handling := by
  obtain ⟨hst, hprio, hpid, -⟩ := a.newTask_spec x f q
  obtain ⟨l, hl, hlevel⟩ := a.install_level x f q
  have hself : (a.install x f q).task (.process x) = a.newTask x f q := by simp [install_task]
  have hother : ∀ p, p ≠ .process x → (a.install x f q).task p = a.task p := by
    intro p hp
    simp [install_task, hp]
  have hnot : ∀ q', PDPtr.process x ∉ a.level q' := h.levels.notMem_of_dead hx
  have hmem := a.mem_install_level x f q
  refine ⟨⟨?_, ?_, ?_, ?_, ?_, ?_, ?_, ?_, ?_, ?_⟩, ⟨?_, h.posted.nodup⟩, ?_⟩
  · intro q'
    rw [hlevel]
    by_cases hq' : q' = q.priority
    · subst hq'
      rw [Function.update_self, hl.nodup_iff, List.nodup_cons]
      exact ⟨hnot _, h.levels.nodup _⟩
    · rw [Function.update_of_ne hq']
      exact h.levels.nodup q'
  · intro q' p hm
    rcases (hmem q' p).1 hm with hm | ⟨rfl, rfl⟩
    · rw [hother p (fun he => hnot q' (he ▸ hm))]
      exact h.levels.priority q' p hm
    · rw [hself, hprio]
  · intro q' p hm
    rcases (hmem q' p).1 hm with hm | ⟨rfl, -⟩
    · exact h.levels.user q' p hm
    · exact ⟨x, rfl⟩
  · intro q' p hm
    rcases (hmem q' p).1 hm with hm | ⟨rfl, -⟩
    · rw [hother p (fun he => hnot q' (he ▸ hm))]
      exact h.levels.live q' p hm
    · rw [hself, hst]
      simp
  · intro i hi
    by_cases hix : i = x
    · subst hix
      rw [hself, hprio]
      exact (hmem _ _).2 (Or.inr ⟨rfl, rfl⟩)
    · rw [hother _ (by simpa using hix)] at hi ⊢
      exact (hmem _ _).2 (Or.inl (h.levels.linked i hi))
  · intro i hi
    by_cases hix : i = x
    · subst hix
      rw [hself, hpid]
    · rw [hother _ (by simpa using hix)] at hi ⊢
      exact h.levels.pid i hi
  · rw [hlevel, Function.update_of_ne (Ne.symm hq)]
    exact h.levels.unlisted
  · rw [hother _ (by simp)]
    exact h.levels.idle
  · rw [hother _ (by simp)]
    exact h.levels.idle_live
  · intro p hm
    rcases (hmem _ p).1 hm with hm | ⟨rfl, -⟩
    · rw [hother p (fun he => hnot _ (he ▸ hm))]
      exact h.levels.periodic p hm
    · rw [hself, hst]
      exact Or.inl rfl
  · intro m hm
    obtain ⟨i, hi, hs⟩ := h.posted.sender m hm
    refine ⟨i, hi, ?_⟩
    have hne : PDPtr.process i ≠ .process x := by
      intro he
      rw [he, hx] at hs
      cases hs
    rw [hother _ hne, hs]
  · intro p
    by_cases hp : p = .process x
    · subst hp
      rw [hself, hst]
      simp
    · rw [hother p hp]
      exact h.stopped p

/-- A successful creation leaves the current task ready. -/
theorem Entered.create (h : a.Entered) (he : a.create r = .ok a') :
    a'.Handling ∧ a'.current = a.current ∧ a'.task a.current = a.task a.current := by
  rcases create_cases he with ⟨-, rfl⟩ | ⟨x, f, hx, -, hq, rfl⟩
  · exact ⟨h.toHandling, rfl, rfl⟩
  · have hdead := freeSlot_dead hx
    have hne : a.current ≠ .process x := by
      intro hc
      rw [← hc, h.ready] at hdead
      cases hdead
    refine ⟨(h.toHandling.install hdead f (admissible_listed hq)).of_eq rfl rfl rfl, rfl, ?_⟩
    rw [setInfo_task, install_task, Function.update_of_ne hne]

/-! ### Termination -/

theorem bury_task (a : Sched) : a.bury.task = (a.setState a.current .dead).task := rfl

theorem bury_level (a : Sched) : a.bury.level = Function.update a.level
    (a.task a.current).priority
    ((a.level (a.task a.current).priority).erase a.current) := rfl

@[simp] theorem bury_current (a : Sched) : a.bury.current = a.current := rfl
@[simp] theorem bury_sysClock (a : Sched) : a.bury.sysClock = a.sysClock := rfl
@[simp] theorem bury_clockState (a : Sched) : a.bury.clockState = a.clockState := rfl
@[simp] theorem bury_info (a : Sched) : a.bury.info = a.info := rfl

theorem bury_mail (a : Sched) : a.bury.mail =
    a.mail.filter fun m => !m.admits (a.task a.current).processId anyMask := rfl

/-- The dying task leaves its queue, and nobody else does. -/
theorem Entered.mem_bury_level (h : a.Entered) (q : PriorityLevel) (p : PDPtr) :
    p ∈ a.bury.level q ↔ p ∈ a.level q ∧ p ≠ a.current := by
  rw [bury_level]
  by_cases hq : q = (a.task a.current).priority
  · subst hq
    rw [Function.update_self, (h.levels.nodup _).mem_erase_iff, and_comm]
  · rw [Function.update_of_ne hq]
    refine ⟨fun hm => ⟨hm, ?_⟩, fun hm => hm.1⟩
    exact ne_of_mem_of_not_mem hm (h.levels.notMem_of_priority (Ne.symm hq))

theorem Entered.bury (h : a.Entered) {i : Slot} (hi : a.current = .process i) :
    a.bury.Handling := by
  have hself : (a.bury.task a.current).state = .dead := setState_self _ _ _
  have hother : ∀ p, p ≠ a.current → a.bury.task p = a.task p :=
    fun p hp => setState_other hp a .dead
  have hsub : ∀ q p, p ∈ a.bury.level q → p ∈ a.level q :=
    fun q p hm => ((h.mem_bury_level q p).1 hm).1
  have hne : ∀ q p, p ∈ a.bury.level q → p ≠ a.current :=
    fun q p hm => ((h.mem_bury_level q p).1 hm).2
  have hlive : ∀ p, (a.bury.task p).state ≠ .dead → p ≠ a.current := by
    intro p hp he
    rw [he, hself] at hp
    exact hp rfl
  refine ⟨⟨?_, ?_, ?_, ?_, ?_, ?_, ?_, ?_, ?_, ?_⟩, h.posted.of_states ?_ ?_, ?_⟩
  · intro q
    rw [bury_level]
    by_cases hq : q = (a.task a.current).priority
    · subst hq
      rw [Function.update_self]
      exact (h.levels.nodup _).erase _
    · rw [Function.update_of_ne hq]
      exact h.levels.nodup q
  · intro q p hm
    rw [hother p (hne q p hm)]
    exact h.levels.priority q p (hsub q p hm)
  · intro q p hm
    exact h.levels.user q p (hsub q p hm)
  · intro q p hm
    rw [hother p (hne q p hm)]
    exact h.levels.live q p (hsub q p hm)
  · intro j hj
    have hjc := hlive _ hj
    rw [hother _ hjc] at hj ⊢
    exact (h.mem_bury_level _ _).2 ⟨h.levels.linked j hj, hjc⟩
  · intro j hj
    have hjc := hlive _ hj
    rw [hother _ hjc] at hj ⊢
    exact h.levels.pid j hj
  · rw [List.eq_nil_iff_forall_not_mem]
    intro p hm
    have hnil := hsub _ p hm
    rw [h.levels.unlisted] at hnil
    cases hnil
  · rw [hother _ (by rw [hi]; simp)]
    exact h.levels.idle
  · rw [hother _ (by rw [hi]; simp)]
    exact h.levels.idle_live
  · intro p hm
    rw [hother p (hne _ p hm)]
    exact h.levels.periodic p (hsub _ p hm)
  · rw [bury_mail]
    exact List.filter_sublist
  · intro m _ j _ hs
    have hjc : PDPtr.process j ≠ a.current := by
      intro he
      rw [he, h.ready] at hs
      cases hs
    rw [hother _ hjc, hs]
  · intro p
    by_cases hp : p = a.current
    · subst hp
      rw [hself]
      simp
    · rw [hother p hp]
      exact h.stopped p

/-! ### A whole kernel entry -/

/-- The call of a task other than the idle process, or the timer. -/
def Possible (a : Sched) : Entry → Prop
  | .timer => True
  | .call _ => a.current ≠ .idleProcess

theorem Entered.serve_inv (h : a.Entered) {k : KernelRequestType}
    (hu : k = .timer ∨ a.current ≠ .idleProcess) (he : a.serve r k = .ok a') : a'.Inv := by
  have hproc : k ≠ .timer → ∃ i, a.current = .process i := by
    intro hk
    cases hc : a.current with
    | process i => exact ⟨i, rfl⟩
    | idleProcess => exact absurd hc (hu.resolve_left hk)
  cases k with
  | none =>
    cases he
    exact h.inv
  | timer =>
    obtain ⟨t, ht, hd⟩ := tick_cases he
    obtain ⟨ticks, rfl⟩ := chargeTick_ok ht
    have h1 : (a.setTask a.current fun _ =>
        { a.task a.current with ticksRemaining := ticks }).advanceClock.Handling :=
      (h.setTimes ⟨(a.task a.current).tons, ticks, (a.task a.current).clockState, rfl⟩).of_eq
        rfl rfl rfl
    exact h1.dispatch_inv hd
  | create =>
    obtain ⟨b, hb, hd⟩ := Lockstep.bind_ok he
    exact (h.create hb).1.dispatch_inv hd
  | next =>
    obtain ⟨t, ht, hd⟩ := yield_cases he
    exact (h.setTimes (yieldTask_ok ht)).dispatch_inv hd
  | getArg =>
    cases he
    exact h.inv.setInfo _ _
  | getPid =>
    cases he
    exact h.inv.setInfo _ _
  | getNow =>
    cases he
    exact h.inv.setInfo _ _
  | msgSend =>
    obtain ⟨i, hi⟩ := hproc (by simp)
    obtain ⟨hp, ⟨-, rfl⟩ | ⟨x, -, hw, hd⟩ | ⟨x, -, -, hd⟩⟩ := send_cases he
    · exact h.inv
    · exact (h.handOver hp hw).dispatch_inv hd
    · exact (h.post hp hi).dispatch_inv hd
  | msgRecv =>
    obtain ⟨i, hi⟩ := hproc (by simp)
    obtain ⟨hp, ⟨m, sender, hf, hm, hd⟩ | ⟨-, hd⟩⟩ := recv_cases he
    · exact (h.take hf hm).dispatch_inv hd
    · exact (h.await hp).dispatch_inv hd
  | msgRply =>
    obtain ⟨-, ⟨-, rfl⟩ | ⟨x, -, hs, hd⟩ | ⟨x, -, -, hd⟩⟩ := reply_cases he
    · exact h.inv
    · exact (h.answer hs).dispatch_inv hd
    · exact h.toHandling.dispatch_inv hd
  | msgASend =>
    rcases asend_cases he with ⟨-, rfl⟩ | ⟨x, -, hw, hd⟩ | ⟨x, -, -, rfl⟩
    · exact h.inv
    · exact (h.notify hw).dispatch_inv hd
    · exact h.inv
  | terminate =>
    obtain ⟨i, hi⟩ := hproc (by simp)
    obtain ⟨-, hd⟩ := terminate_cases he
    exact (h.bury hi).dispatch_inv hd
  | abort => cases he

/-- The request made by an entry. -/
def Entry.request : Entry → KernelRequestType
  | .timer => .timer
  | .call c => c.params.request

theorem suspend_request (a : Sched) (e : Entry) :
    ((a.suspend e).1.info (a.suspend e).2).request = Entry.request e := by
  cases e <;> simp [suspend, Entry.request, setInfo]

/-- The parts of a successful kernel entry. -/
theorem enter_cases {e : Entry} (h : a.enter e = .ok a') :
    ∃ b, (a.suspend e).1.serve (a.suspend e).2 (Entry.request e) = .ok b ∧
      a' = b.setInfo (a.suspend e).2 fun q => { q with request := .none } := by
  obtain ⟨b, hb, hr⟩ := Lockstep.bind_ok h
  refine ⟨b, ?_, (Except.ok.inj hr).symm⟩
  rw [← suspend_request]
  exact hb

/-- **The invariant is kept by every kernel entry.** -/
theorem Inv.enter (h : a.Inv) {e : Entry} (hp : a.Possible e) (he : a.enter e = .ok a') :
    a'.Inv := by
  obtain ⟨b, hb, rfl⟩ := enter_cases he
  refine ((h.suspend e).serve_inv ?_ hb).setInfo _ _
  cases e with
  | timer => exact Or.inl rfl
  | call c =>
    rw [suspend_current]
    exact Or.inr hp

end Sched

end RoombaRtos
