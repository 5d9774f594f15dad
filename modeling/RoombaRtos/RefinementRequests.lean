import RoombaRtos.Refinement

/-!
# The requests represent those of the policy

Lockstep of every request handler, of a whole kernel entry (`Represents.enter`), and of
booting (`boot_represents`).  From them `reachable_represents`: every state that the kernel
returns to user mode in represents a state of the policy that satisfies its invariant.
-/

namespace RoombaRtos

open LinkedChain ListQueue Lockstep

namespace Kernel

variable {s : Kernel} {a : Sched} {c : Option (InfoPtr PDPtr) × Bool} {p : PDPtr}
  {q : PriorityLevel} {r : InfoPtr PDPtr}

/-! ### Updates of a represented state -/

theorem Represents.setTask (h : s.Represents c a) {f : Task PDPtr → Task PDPtr}
    (hd : (f (a.task p)).state = .dead ↔ (a.task p).state = .dead) :
    (s.setTask p f).Represents c (a.setTask p f) :=
  ⟨h.toStores.setTask hd, h.current, h.control⟩

theorem Represents.setState (h : s.Represents c a) (p : PDPtr) (st : ProcessState)
    (hl : (a.task p).state ≠ .dead) (hst : st ≠ .dead) :
    (s.setState p st).Represents c (a.setState p st) :=
  ⟨h.toStores.setState p st hl hst, h.current, h.control⟩

theorem Represents.setInfo (h : s.Represents c a) (r : InfoPtr PDPtr)
    (g : KernelRequestParams → KernelRequestParams) :
    (s.setInfo r g).Represents c (a.setInfo r g) :=
  ⟨h.toStores.setInfo r g, h.current, h.control⟩

theorem setReqParams_frame (s : Kernel) (p : PDPtr)
    (g : KernelRequestParams → KernelRequestParams) :
    (s.setReqParams p g).cp = s.cp ∧ (s.setReqParams p g).control = s.control := by
  unfold Kernel.setReqParams
  cases (s.pd p).reqParams <;> exact ⟨rfl, rfl⟩

theorem Represents.setReqParams (h : s.Represents c a) (p : PDPtr)
    (g : KernelRequestParams → KernelRequestParams) :
    (s.setReqParams p g).Represents c (a.setReqParams p g) := by
  obtain ⟨hcp, hctl⟩ := s.setReqParams_frame p g
  exact ⟨h.toStores.setReqParams p g, by rw [hcp, h.current, Sched.setReqParams_current],
    hctl.trans h.control⟩

/-- Replacing the outgoing messages. -/
theorem Represents.setMail (h : s.Represents c a) {msgs : Slot → Msg Slot}
    {queue : MsgQueue Slot} {nodes : List Slot} {mail : List Mail}
    (hm : Mailbox msgs queue nodes mail) :
    { s with messages := msgs, msgQueue := queue }.Represents c (a.setMail mail) :=
  ⟨⟨⟨h.task, h.queue, h.type, h.unlinked⟩, ⟨nodes, hm⟩, h.tasks, h.sysClock, h.clockState,
    h.info⟩, h.current, h.control⟩

/-! ### Messages -/

theorem Represents.awaits_eq (h : s.Represents c a) (p : PDPtr) (type : MType) :
    s.awaits p type = a.awaits p type := by
  rw [Kernel.awaits, Sched.awaits, h.state, Kernel.recvMask, h.reqParams, h.info]

/-- A live process carries its own index as its id. -/
theorem Represents.processId_eq (h : s.Represents c a) (ha : a.Entered) {i : Slot}
    (hi : a.current = .process i) : (s.pd a.current).processId = pidOf i := by
  have hlive : (a.task (.process i)).state ≠ .dead := by rw [← hi, ha.ready]; simp
  rw [h.processId, hi, ha.levels.pid i hlive]

/-- Only the idle process enters the kernel without a level. -/
theorem unlisted_idle (ha : a.Entered) (hp : (a.task a.current).priority = .unlisted) :
    a.current = .idleProcess := by
  rcases ha.front with hf | hf
  · exact hf
  · rw [hp, ha.levels.unlisted] at hf
    simp at hf

theorem target_none (h : validId (a.info r).msgTo = none) : a.target r = none := by
  simp [Sched.target, h]

theorem target_dead {x : Slot} (h : validId (a.info r).msgTo = some x)
    (hd : (a.task (.process x)).state = .dead) : a.target r = none := by
  simp [Sched.target, h, Option.filter, hd]

theorem target_live {x : Slot} (h : validId (a.info r).msgTo = some x)
    (hd : (a.task (.process x)).state ≠ .dead) : a.target r = some x := by
  simp [Sched.target, h, Option.filter, hd]

theorem Represents.msgSend (h : s.Represents c a) (ha : a.Entered) {i : Slot}
    (hi : a.current = .process i) :
    Lockstep.Rel (Represents c) (s.kernelRequestMsgSend a.current r) (a.send r) := by
  have hpid := h.processId_eq ha hi
  have hinfo : s.info r = a.info r := by rw [h.info]
  unfold Kernel.kernelRequestMsgSend Sched.send
  rw [h.priority, hinfo]
  by_cases hp : (a.task a.current).priority = .periodic
  · rw [if_pos hp, if_pos hp]
    exact Lockstep.Rel.error _
  rw [if_neg hp, if_neg hp]
  cases hv : validId (a.info r).msgTo with
  | none =>
    rw [target_none hv]
    exact h
  | some x =>
    simp only [h.state, h.awaits_eq]
    by_cases hd : (a.task (.process x)).state = .dead
    · rw [if_pos hd, target_dead hv hd]
      exact h
    rw [if_neg hd, target_live hv hd]
    simp only
    by_cases hw : a.awaits (.process x) (a.info r).msgMask = true
    · rw [if_pos hw, if_pos hw]
      have hne : a.current ≠ .process x := by
        intro he
        have hs := (Sched.awaits_eq_true hw).1
        rw [← he, ha.ready] at hs
        cases hs
      have h1 := (h.setState (.process x) .ready hd (by simp)).setState a.current .replyBlock
        (by rw [Sched.setState_other hne, ha.ready]; simp) (by simp)
      have h2 : Represents c _ (a.handOver r x) := h1.setReqParams (.process x) _
      simp only [h1.processId, h1.info, Sched.setState_processId, Sched.setState_info]
      refine Represents.dispatch h2 (ha.handOver hp hw) ?_
      simpa [Sched.handOver] using unlisted_idle ha
    · rw [if_neg hw, if_neg hw]
      obtain ⟨nodes, hbox⟩ := h.mail
      have hnode : i ∉ nodes := by
        rw [hbox.mem_nodes]
        intro ⟨m, hm, hmi⟩
        exact ha.posted.no_mail (by rw [← hi, ha.ready]; simp) m hm hmi
      have hsender : (a.letter r).sender = pidOf i := by
        rw [← hpid, h.processId]
        rfl
      obtain ⟨msgs, queue, he, hbox'⟩ := hbox.post hnode hsender
      have hmsg : ({ s.messages i with
          data := (a.info r).msgPtrData
          mask := (a.info r).msgMask
          receiver := (a.info r).msgTo
          sender := pidOf i } : Msg Slot) = { s.messages i with toMail := a.letter r } := by
        rw [← hsender]
        rfl
      rw [hpid, validId_pidOf]
      simp only [hmsg, he, Lockstep.ok_bind]
      have h1 := (h.setMail hbox').setState a.current .sendBlock
        (by rw [Sched.setMail_task, ha.ready]; simp) (by simp)
      refine Represents.dispatch h1 (ha.post hp hi) ?_
      simpa [Sched.post] using unlisted_idle ha

theorem Represents.msgRecv (h : s.Represents c a) (ha : a.Entered) {i : Slot}
    (hi : a.current = .process i) :
    Lockstep.Rel (Represents c) (s.kernelRequestMsgRecv a.current r) (a.recv r) := by
  have hpid := h.processId_eq ha hi
  have hpid' : (a.task a.current).processId = pidOf i := by rw [← h.processId, hpid]
  have hinfo : s.info r = a.info r := by rw [h.info]
  unfold Kernel.kernelRequestMsgRecv Sched.recv
  rw [h.priority, hinfo, hpid]
  by_cases hp : (a.task a.current).priority = .periodic
  · rw [if_pos hp, if_pos hp]
    exact Lockstep.Rel.error _
  rw [if_neg hp, if_neg hp]
  have hw : a.wanted r = fun m => m.admits (pidOf i) (a.info r).msgMask := by
    funext m
    rw [Sched.wanted, hpid']
  rw [hw]
  obtain ⟨nodes, hbox⟩ := h.mail
  have hv : validId (pidOf i) ≠ none := by simp
  cases hf : a.mail.find? fun m => m.admits (pidOf i) (a.info r).msgMask with
  | none =>
    rw [hbox.take_none hv hf]
    have h1 := h.setState a.current .recvBlock (by rw [ha.ready]; simp) (by simp)
    exact Represents.dispatch h1 (ha.await hp) (by simpa using unlisted_idle ha)
  | some m =>
    obtain ⟨j, msgs, queue, nodes', he, hm, hsender, hj, hbox'⟩ := hbox.take_some hv hf
    subst hm
    have hs : (msgs j).sender = pidOf j := hsender
    have htake : (a.take r (msgs j).toMail j).Handling := ha.take (by rw [hw]; exact hf) hsender
    have hlive : (a.task (.process j)).state ≠ .dead := by
      obtain ⟨k, hk, hst⟩ := ha.posted.sender _ (List.mem_of_find?_eq_some hf)
      rw [pidOf_injective (hsender.symm.trans hk), hst]
      simp
    have h1 := (h.setMail hbox').setInfo r fun q =>
      { q with msgPtrData := (msgs j).data, outPid := (msgs j).sender }
    have h2 := h1.setState a.current .ready (by simp [ha.ready]) (by simp)
    rw [Sched.setState_eq_self (by simp [ha.ready])] at h2
    have h3 := h2.setState (.process j) .replyBlock (by simpa using hlive) (by simp)
    have h4 := h3.setMail (hbox'.update (c := { msgs j with
      data := none, receiver := -1, sender := -1 }) hj rfl)
    rw [← hw] at h4
    rw [he]
    simp only [Lockstep.ok_bind, hs, validId_pidOf]
    rw [hs] at h4
    refine Represents.dispatch (a := a.take r (msgs j).toMail j) ?_ htake
      (by simpa [Sched.take] using unlisted_idle ha)
    rw [Sched.take, hs]
    exact h4

theorem Represents.msgRply (h : s.Represents c a) (ha : a.Entered) :
    Lockstep.Rel (Represents c) (s.kernelRequestMsgRply a.current r) (a.reply r) := by
  have hinfo : s.info r = a.info r := by rw [h.info]
  unfold Kernel.kernelRequestMsgRply Sched.reply
  rw [h.priority, hinfo]
  by_cases hp : (a.task a.current).priority = .periodic
  · rw [if_pos hp, if_pos hp]
    exact Lockstep.Rel.error _
  rw [if_neg hp, if_neg hp]
  cases hv : validId (a.info r).msgTo with
  | none =>
    rw [target_none hv]
    exact h
  | some x =>
    simp only [h.state]
    by_cases hd : (a.task (.process x)).state = .dead
    · rw [if_pos hd, target_dead hv hd]
      exact h
    rw [if_neg hd, target_live hv hd]
    simp only
    by_cases hs : (a.task (.process x)).state = .replyBlock
    · rw [if_pos hs, if_pos hs]
      have hcur : (a.setState (.process x) .ready).task a.current = a.task a.current := by
        refine Sched.setState_other ?_ a .ready
        intro he
        rw [← he, ha.ready] at hs
        cases hs
      have h1 : Represents c _ (a.answer r x) :=
        (h.setState (.process x) .ready hd (by simp)).setReqParams (.process x) _
      have hready : ((a.answer r x).task a.current).state = .ready := by
        simp [Sched.answer, hcur, ha.ready]
      have h2 := h1.setState a.current .ready (by simp [hready]) (by simp)
      rw [Sched.setState_eq_self hready] at h2
      exact Represents.dispatch h2 (ha.answer hs) (by simpa [Sched.answer] using unlisted_idle ha)
    · rw [if_neg hs, if_neg hs]
      have h1 := h.setState a.current .ready (by simp [ha.ready]) (by simp)
      rw [Sched.setState_eq_self ha.ready] at h1
      exact Represents.dispatch h1 ha.toHandling (unlisted_idle ha)

theorem Represents.msgASend (h : s.Represents c a) (ha : a.Entered) :
    Lockstep.Rel (Represents c) (s.kernelRequestMsgASend a.current r) (a.asend r) := by
  have hinfo : s.info r = a.info r := by rw [h.info]
  unfold Kernel.kernelRequestMsgASend Sched.asend
  rw [hinfo]
  cases hv : validId (a.info r).msgTo with
  | none => exact Lockstep.Rel.error _
  | some x =>
    rw [if_neg (by simp)]
    simp only [h.state, h.awaits_eq]
    by_cases hd : (a.task (.process x)).state = .dead
    · rw [if_pos hd, target_dead hv hd]
      exact h
    rw [if_neg hd, target_live hv hd]
    simp only
    by_cases hw : a.awaits (.process x) (a.info r).msgMask = true
    · rw [if_pos hw, if_pos hw]
      have h1 := h.setState (.process x) .ready hd (by simp)
      have h2 : Represents c _ (a.notify r x) := h1.setReqParams (.process x) _
      simp only [h1.processId, h1.info, Sched.setState_processId, Sched.setState_info]
      exact Represents.dispatch h2 (ha.notify hw) (by simpa [Sched.notify] using unlisted_idle ha)
    · rw [if_neg hw, if_neg hw]
      exact h

/-! ### The clock, yielding and termination -/

theorem Represents.next (h : s.Represents c a) (ha : a.Entered) :
    Lockstep.Rel (Represents c) (s.kernelRequestNext a.current) a.yield := by
  unfold Kernel.kernelRequestNext Sched.yield
  rw [h.task]
  cases ht : Kernel.yieldTask (a.task a.current) with
  | error e => exact Lockstep.Rel.error e
  | ok t =>
    obtain ⟨tons, ticks, clock, rfl⟩ := Sched.yieldTask_ok ht
    set t : Task PDPtr := { a.task a.current with
      tons := tons, ticksRemaining := ticks, clockState := clock } with htdef
    have hready : t.state = .ready := ha.ready
    have ht' : (if t.state ≠ .sendBlock ∧ t.state ≠ .replyBlock ∧ t.state ≠ .recvBlock then
        { t with state := .ready } else t) = t := by
      rw [if_pos (by simp [hready]), ← hready]
    simp only [Lockstep.ok_bind, ht']
    have h1 : Represents c (s.setTask a.current fun _ => t) (a.setTask a.current fun _ => t) :=
      h.setTask (by simp [hready, ha.ready])
    refine Represents.dispatch h1 (ha.setTimes ⟨tons, ticks, clock, rfl⟩) ?_
    simpa [Sched.setTask_task] using unlisted_idle ha

theorem Represents.advanceClock (h : s.Represents c a) :
    s.advanceClock.Represents c a.advanceClock := by
  refine ⟨⟨⟨h.task, h.queue, h.type, h.unlinked⟩, h.mail, h.tasks, ?_, ?_, h.info⟩, h.current,
    h.control⟩
  · show s.sysClock + 1 = a.sysClock + 1
    rw [h.sysClock]
  · show (if s.sysClock + 1 < s.sysClock then s.clockState.flip else s.clockState) =
      if a.sysClock + 1 < a.sysClock then a.clockState.flip else a.clockState
    rw [h.sysClock, h.clockState]

theorem Represents.timer (h : s.Represents c a) (ha : a.Entered) :
    Lockstep.Rel (Represents c) (s.kernelRequestTimer a.current) a.tick := by
  unfold Kernel.kernelRequestTimer Sched.tick
  rw [h.task]
  cases ht : Kernel.chargeTick a.current (a.task a.current) with
  | error e => exact Lockstep.Rel.error e
  | ok t =>
    obtain ⟨ticks, rfl⟩ := Sched.chargeTick_ok ht
    set t : Task PDPtr := { a.task a.current with ticksRemaining := ticks } with htdef
    have hready : t.state = .ready := ha.ready
    have hset : (a.setTask a.current fun _ => t).advanceClock.Handling :=
      (ha.setTimes ⟨t.tons, ticks, t.clockState, rfl⟩).of_eq rfl rfl rfl
    have h1 : Represents c (s.setTask a.current fun _ => t) (a.setTask a.current fun _ => t) :=
      h.setTask (by simp [hready, ha.ready])
    have hst : ((a.setTask a.current fun _ => t).advanceClock.task a.current).state = .ready := by
      show ((a.setTask a.current fun _ => t).task a.current).state = .ready
      simp [Sched.setTask_task, hready]
    have h2 := h1.advanceClock.setState a.current .ready (by simp [hst]) (by simp)
    rw [Sched.setState_eq_self hst] at h2
    have hun : ((a.setTask a.current fun _ => t).task a.current).priority = .unlisted →
        a.current = .idleProcess := by
      simpa [Sched.setTask_task] using unlisted_idle ha
    exact Represents.dispatch h2 hset hun

/-- The loop that removes the messages of a terminated receiver empties its mailbox. -/
theorem purgeLoop_filter {receiver : Pid} {fuel : ℕ} {msgs : Slot → Msg Slot}
    {queue : MsgQueue Slot} {nodes : List Slot} {mail : List Mail}
    (h : Mailbox msgs queue nodes mail) (hv : validId receiver ≠ none)
    (hfuel : mail.length < fuel) :
    ∃ msgs' queue' nodes', purgeLoop receiver fuel msgs queue = .ok (msgs', queue') ∧
      Mailbox msgs' queue' nodes' (mail.filter fun m => !m.admits receiver anyMask) := by
  induction fuel generalizing msgs queue nodes mail with
  | zero => omega
  | succ fuel ih =>
    rw [purgeLoop]
    cases hf : mail.find? fun m => m.admits receiver anyMask with
    | none =>
      rw [h.take_none hv hf]
      refine ⟨msgs, queue, nodes, rfl, ?_⟩
      have hall : mail.filter (fun m => !m.admits receiver anyMask) = mail := by
        rw [List.filter_eq_self]
        simpa using hf
      rwa [hall]
    | some m =>
      obtain ⟨i, msgs₁, queue₁, nodes₁, he, -, -, -, h₁⟩ := h.take_some hv hf
      have hmem := List.mem_of_find?_eq_some hf
      have hpm : m.admits receiver anyMask = true := by simpa using List.find?_some hf
      have hlen := List.length_eraseP_of_mem (p := fun m => m.admits receiver anyMask) hmem hpm
      have hpos := List.length_pos_of_mem hmem
      obtain ⟨msgs', queue', nodes', he', h'⟩ := ih h₁ (by omega)
      rw [filter_not_eraseP] at h'
      exact ⟨msgs', queue', nodes', by rw [he]; exact he', h'⟩

theorem liveSlots_bury (ha : a.Entered) {i : Slot} (hi : a.current = .process i) :
    a.bury.liveSlots = a.liveSlots.erase i ∧ i ∈ a.liveSlots := by
  constructor
  · ext j
    rw [Finset.mem_erase, Sched.mem_liveSlots, Sched.mem_liveSlots, Sched.bury_task, hi]
    by_cases hji : j = i
    · subst hji
      simp [Sched.setState_self]
    · rw [Sched.setState_other (by simpa using hji)]
      simp [hji]
  · rw [Sched.mem_liveSlots, ← hi, ha.ready]
    simp

theorem Represents.terminate (h : s.Represents c a) (ha : a.Entered) {i : Slot}
    (hi : a.current = .process i) :
    Lockstep.Rel (Represents c) (s.kernelRequestTerminate a.current) a.terminate := by
  have hpid := h.processId_eq ha hi
  have hpid' : (a.task a.current).processId = pidOf i := by rw [← h.processId, hpid]
  unfold Kernel.kernelRequestTerminate Sched.terminate
  rw [h.priority]
  set q := (a.task a.current).priority with hq
  by_cases hun : q = .unlisted
  · simp only [hun, if_true]
    exact Lockstep.Rel.error _
  obtain ⟨l, hl⟩ : ∃ l, a.level q = a.current :: l := by
    rcases ha.front with hf | hf
    · rw [hf] at hi
      cases hi
    · exact List.head?_eq_some_iff.1 hf
  -- the descriptor leaves its queue, and the messages sent to it are removed
  obtain ⟨q', hd, hlinks⟩ := h.removeHead ha.levels hl hun
  set s₁ := s.setQueue q (setNext s.pd a.current none, q') with hs₁
  obtain ⟨nodes, hbox⟩ := h.mail
  have hv : validId (pidOf i) ≠ none := by simp
  obtain ⟨msgs, queue, nodes', hpurge, hbox'⟩ :=
    purgeLoop_filter hbox hv (Nat.lt_succ_self _)
  rw [← hbox.length_eq] at hpurge
  have hpurge' : purgeLoop (pidOf i) (s₁.msgQueue.length.toNat + 1) s₁.messages s₁.msgQueue =
      .ok (msgs, queue) := hpurge
  have hpid₁ : (s₁.pd a.current).processId = pidOf i := by
    rw [← hpid]
    exact congrArg Task.processId (toTask_setNext s.pd a.current a.current none)
  -- one live process less
  obtain ⟨hslots, hmem⟩ := liveSlots_bury ha hi
  have htasks : (s.tasks - 1).toNat = a.bury.liveSlots.card := by
    have hpos := Finset.card_pos.2 ⟨i, hmem⟩
    have := h.tasks
    rw [hslots, Finset.card_erase_of_mem hmem, ← this]
    bv_omega
  have hbury : a.bury = ((a.setLevel q l).setMail
      (a.mail.filter fun m => !m.admits (pidOf i) anyMask)).setState a.current .dead := by
    rw [show l = (a.level q).erase a.current by rw [hl, List.erase_cons_head], ← hpid']
    rfl
  have hfinal : Represents c
      { ({ s₁ with messages := msgs, msgQueue := queue } : Kernel).setState a.current .dead with
        tasks := s.tasks - 1 } a.bury := by
    rw [hbury] at htasks ⊢
    have hk := hlinks.setTask a.current fun t => { t with state := .dead }
    exact ⟨⟨⟨hk.task, hk.queue, hk.type, hk.unlinked⟩, ⟨nodes', hbox'⟩, htasks, h.sysClock,
      h.clockState, h.info⟩, h.current, h.control⟩
  have hidle : (a.bury.task a.bury.current).priority = .unlisted →
      a.bury.current = .idleProcess := by
    rw [Sched.bury_task, Sched.bury_current, Sched.setState_priority]
    exact unlisted_idle ha
  rw [if_neg hun]
  simp only [if_neg hun, hd, Lockstep.ok_bind]
  rw [if_neg (not_not_intro rfl), hpid₁, hpurge']
  exact Represents.dispatch hfinal (ha.bury hi) hidle

/-! ### Creation -/

theorem Stores.findDead_eq (h : s.Stores a) : s.findDead = a.freeSlot := by
  simp only [Kernel.findDead, Sched.freeSlot, h.state]

/-- The task counter reaches its limit exactly when no table entry is free. -/
theorem Stores.tasks_full (h : s.Stores a) : s.tasks.toNat ≥ maxThread ↔ a.freeSlot = none := by
  have hcard : a.liveSlots.card = maxThread ↔ a.liveSlots = Finset.univ := by
    rw [← Finset.card_eq_iff_eq_univ, Fintype.card_fin]
  have hle : a.liveSlots.card ≤ maxThread := by simpa using Finset.card_le_univ a.liveSlots
  have hfree : a.freeSlot = none ↔ a.liveSlots = Finset.univ := by
    simp [Sched.freeSlot, Finset.eq_univ_iff_forall]
  rw [hfree, ← hcard, h.tasks]
  omega

/-- A new descriptor is written over an unlinked one. -/
theorem Links.fresh (h : s.Links a) (hp : ∀ q, p ∉ a.level q) {d : PD PDPtr}
    (hd : d.next = none) :
    { s with pd := Function.update s.pd p d }.Links (a.setTask p fun _ => d.toTask) := by
  have hother : ∀ p', p' ≠ p → Function.update s.pd p d p' = s.pd p' :=
    fun p' hp' => Function.update_of_ne hp' _ _
  refine ⟨?_, ?_, h.type, ?_⟩
  · intro p'
    by_cases hp' : p' = p
    · subst hp'
      simp [Sched.setTask_task]
    · simp only [hother p' hp', Sched.setTask_task, Function.update_of_ne hp', h.task]
  · intro q
    refine (h.queue q).congr fun p' hp' => ?_
    simp only [hother p' (fun e => hp q (e ▸ hp'))]
  · intro p' hp'
    by_cases hpp : p' = p
    · subst hpp
      simpa using hd
    · simp only [hother p' hpp]
      exact h.unlinked p' hp'

/-- `p` is in no level, the levels are disjoint, and there is room in each. -/
structure Joinable (a : Sched) (p : PDPtr) : Prop where
  disjoint : ∀ q₁ q₂ p, p ∈ a.level q₁ → p ∈ a.level q₂ → q₁ = q₂
  length_lt : ∀ q, (a.level q).length < 255
  notMem : ∀ q, p ∉ a.level q

theorem Joinable.setTask (h : Joinable a p) (p' : PDPtr) (f : Task PDPtr → Task PDPtr) :
    Joinable (a.setTask p' f) p :=
  ⟨h.disjoint, h.length_lt, h.notMem⟩

theorem joinable_of_dead (hl : a.Levels) (hp : (a.task p).state = .dead) : Joinable a p := by
  refine ⟨fun q₁ q₂ p hp₁ hp₂ => hl.level_unique hp₁ hp₂, fun q => ?_, hl.notMem_of_dead hp⟩
  have h := hl.length_le q
  have : maxThread = 16 := rfl
  omega

/-- The links when `p` joins a queue. -/
theorem Links.join (h : s.Links a) (hj : Joinable a p) {pd' : PDPtr → PD PDPtr}
    {q' : TaskQueue PDPtr}
    {l : List PDPtr} (hh : q'.Holds pd' l) (ht : q'.type = q)
    (hr : Relinked (p :: a.level q) s.pd pd') (hl : ∀ p', p' ∈ l ↔ p' = p ∨ p' ∈ a.level q) :
    (s.setQueue q (pd', q')).Links (a.setLevel q l) := by
  refine h.relink hh ht hr ?_ ?_ ?_
  · intro q₁ hq₁ p' hp' hm
    rcases List.mem_cons.1 hm with rfl | hm
    · exact hj.notMem q₁ hp'
    · exact hq₁ (hj.disjoint _ _ p' hp' hm)
  · intro p' hm hnot _
    exact absurd ((hl p').2 (List.mem_cons.1 hm)) hnot
  · intro p' hm _
    exact (hl p').2 (Or.inr hm)

theorem Links.enqueueAt (h : s.Links a) (hj : Joinable a p) (hprio : (a.task p).priority = q) :
    ∃ s', s.enqueueAt q p = .ok s' ∧ s'.Links (a.setLevel q (a.level q ++ [p])) ∧
      s' = { s with pd := s'.pd, queue := s'.queue } := by
  have hpq : (s.pd p).priority = (s.queue q).type := by
    rw [h.type, ← hprio]
    exact congrArg Task.priority (h.task p)
  obtain ⟨pd', q', he, hh, ht, hr⟩ :=
    enqueue_append (h.queue q) hpq (hj.notMem q) (h.unlinked p hj.notMem) (hj.length_lt q)
  refine ⟨s.setQueue q (pd', q'), by rw [Kernel.enqueueAt, he]; rfl, ?_, rfl⟩
  refine h.join hj hh (ht.trans (h.type q)) (hr.mono (by simp; tauto)) ?_
  intro p'
  rw [List.mem_append, List.mem_singleton]
  tauto

theorem Links.insertAt (h : s.Links a) (hj : Joinable a p) (hclock : s.sysClock = a.sysClock)
    (hprio : (a.task p).priority = .periodic) :
    ∃ s', s.insertAt p = .ok s' ∧
      s'.Links (a.setLevel .periodic (a.place p (a.level .periodic))) ∧
      s' = { s with pd := s'.pd, queue := s'.queue } := by
  have hpq : (s.pd p).priority = .periodic := by
    rw [← hprio]
    exact congrArg Task.priority (h.task p)
  obtain ⟨pd', q', he, hh, ht, hr⟩ :=
    insert_place (h.queue .periodic) (h.type _) hpq (hj.notMem _) (h.unlinked p hj.notMem)
      (hj.length_lt _) s.sysClock
  have hplace : a.place p (a.level .periodic) =
      placeBehind (fun e => scansPast (s.pd p).toTask s.sysClock (s.pd e).toTask) p
        (a.level .periodic) := by
    simp only [h.task, hclock]
    rfl
  refine ⟨s.setQueue .periodic (pd', q'), by rw [Kernel.insertAt, he]; rfl, ?_, rfl⟩
  rw [hplace]
  exact h.join hj hh (ht.trans (h.type _)) hr (fun p' => mem_placeBehind)

/-- The place of a task does not depend on its id. -/
theorem place_processId (a : Sched) (p : PDPtr) (t : Task PDPtr) (i : Pid) (l : List PDPtr) :
    (a.setTask p fun _ => t).place p l =
      (a.setTask p fun _ => { t with processId := i }).place p l := by
  have hkeep : ∀ e, scansPast ((a.setTask p fun _ => t).task p) a.sysClock
        ((a.setTask p fun _ => t).task e) =
      scansPast ((a.setTask p fun _ => { t with processId := i }).task p) a.sysClock
        ((a.setTask p fun _ => { t with processId := i }).task e) := by
    intro e
    by_cases he : e = p
    · subst he
      simp [Sched.setTask_task, scansPast, later]
    · simp [Sched.setTask_task, he, scansPast, later]
  have hfun := funext hkeep
  simp only [Sched.place]
  exact congrArg (fun keep => placeBehind keep p l) hfun

theorem setTask_setTask (a : Sched) (p : PDPtr) (t : Task PDPtr) (f : Task PDPtr → Task PDPtr) :
    (a.setTask p fun _ => t).setTask p f = a.setTask p fun _ => f t := by
  simp [Sched.setTask]

/-- Setting the id after the task joined a level is the same as setting it before. -/
theorem setLevel_setTask (a : Sched) (p : PDPtr) (t : Task PDPtr) (q : PriorityLevel)
    (l : List PDPtr) (f : Task PDPtr → Task PDPtr) :
    ((a.setTask p fun _ => t).setLevel q l).setTask p f =
      (a.setTask p fun _ => f t).setLevel q l := by
  simp [Sched.setTask, Sched.setLevel]

theorem Stores.linkNewTask (h : s.Stores a) (hl : a.Levels) {x : Slot}
    (hx : (a.task (.process x)).state = .dead) (f : BitVec 16) {q : KernelRequestParams}
    (hq : Sched.admissible q = true) :
    ∃ s', Kernel.linkNewTask
        { s with pd := Function.update s.pd (.process x) (freshPD f q) } x q = .ok s' ∧
      (s'.setTask (.process x) fun t => { t with processId := pidOf x }).Links
        (a.install x f q) ∧
      s' = { s with pd := s'.pd, queue := s'.queue } := by
  have hj := joinable_of_dead hl hx
  have h1 := h.toLinks.fresh (hl.notMem_of_dead hx) (d := freshPD f q) rfl
  unfold Kernel.linkNewTask Sched.install Sched.join Sched.newTask
  unfold Sched.admissible at hq
  cases hprio : q.priority with
  | system =>
    obtain ⟨s', he, hk, hs'⟩ := h1.enqueueAt (q := .system) (hj.setTask _ _)
      (by simp [Sched.setTask_task, freshPD, hprio])
    refine ⟨s', he, ?_, hs'⟩
    have hk' := hk.setTask (.process x) fun t => { t with processId := pidOf x }
    rw [setLevel_setTask] at hk'
    simpa [freshPD, kernelTaskCreateAt, hprio] using hk'
  | rr =>
    have h2 := h1.setTask (.process x) fun t => { t with ticksRemaining := 1 }
    rw [setTask_setTask] at h2
    obtain ⟨s', he, hk, hs'⟩ := h2.enqueueAt (q := .rr) (hj.setTask _ _)
      (by simp [Sched.setTask_task, freshPD, hprio])
    refine ⟨s', he, ?_, hs'⟩
    have hk' := hk.setTask (.process x) fun t => { t with processId := pidOf x }
    rw [setLevel_setTask] at hk'
    simpa [freshPD, kernelTaskCreateAt, hprio] using hk'
  | periodic =>
    have hadm : q.period > 0 ∧ q.wcet < q.period := by simpa [hprio] using hq
    have h2 := h1.setTask (.process x) fun t =>
      { t with
        period := q.period
        wcet := q.wcet
        tons := s.sysClock + q.offset
        ticksRemaining := q.wcet
        clockState := s.clockState }
    rw [setTask_setTask] at h2
    obtain ⟨s', he, hk, hs'⟩ := h2.insertAt (hj.setTask _ _) h.sysClock
      (by simp [Sched.setTask_task, freshPD, hprio])
    refine ⟨s', by rw [if_pos hadm]; exact he, ?_, hs'⟩
    have hk' := hk.setTask (.process x) fun t => { t with processId := pidOf x }
    rw [setLevel_setTask, place_processId _ _ _ (pidOf x)] at hk'
    simpa [freshPD, kernelTaskCreateAt, hprio, h.sysClock, h.clockState] using hk'
  | unlisted => simp [hprio] at hq

theorem linkNewTask_refused (s : Kernel) (x : Slot) {q : KernelRequestParams}
    (hq : Sched.admissible q = false) :
    s.linkNewTask x q = .error (.abort .invalidReqInfo) := by
  unfold Kernel.linkNewTask
  cases hprio : q.priority with
  | system => simp [Sched.admissible, hprio] at hq
  | rr => simp [Sched.admissible, hprio] at hq
  | periodic =>
    have hnot : ¬ (q.period > 0 ∧ q.wcet < q.period) := by
      intro h
      simp only [Sched.admissible, hprio, h, decide_true, Bool.and_true] at hq
      cases hq
    simp only [if_neg hnot]
  | unlisted => rfl

theorem liveSlots_install (a : Sched) {x : Slot} (hx : (a.task (.process x)).state = .dead)
    (f : BitVec 16) (q : KernelRequestParams) :
    (a.install x f q).liveSlots = Insert.insert x a.liveSlots ∧ x ∉ a.liveSlots := by
  constructor
  · ext j
    rw [Finset.mem_insert, Sched.mem_liveSlots, Sched.mem_liveSlots, Sched.install_task]
    by_cases hjx : j = x
    · subst hjx
      rw [Function.update_self, (a.newTask_spec j f q).1]
      simp
    · rw [Function.update_of_ne (by simpa using hjx)]
      simp [hjx]
  · rw [Sched.mem_liveSlots, not_not, hx]

/-- What creation keeps besides the relation. -/
def Created (s : Kernel) (a : Sched) (s' : Kernel) (a' : Sched) : Prop :=
  s'.Stores a' ∧ s'.cp = s.cp ∧ s'.control = s.control ∧ a'.current = a.current

theorem createTask_refused (s : Kernel) (x : Slot) (f : BitVec 16)
    (hq : Sched.admissible (s.info r) = false) :
    s.createTask r x f = .error (.abort .invalidReqInfo) := by
  rw [createTask, linkNewTask_refused _ x hq]
  rfl

theorem Stores.createTask (h : s.Stores a) (hl : a.Levels) {x : Slot}
    (hx : (a.task (.process x)).state = .dead) (f : BitVec 16) (hroom : s.tasks.toNat < 16)
    (hq : Sched.admissible (s.info r) = true) :
    ∃ s', s.createTask r x f = .ok s' ∧ Created s a s'
      ((a.install x f (a.info r)).setInfo r fun q => { q with outPid := pidOf x }) := by
  obtain ⟨s', he, hk, hs'⟩ := h.linkNewTask hl hx f hq
  have hinfo : s.info r = a.info r := by rw [h.info]
  rw [hinfo] at he hk
  obtain ⟨hslots, hnot⟩ := liveSlots_install a hx f (a.info r)
  have htasks : (s.tasks + 1).toNat = (a.install x f (a.info r)).liveSlots.card := by
    rw [hslots, Finset.card_insert_of_notMem hnot, ← h.tasks]
    bv_omega
  rw [Kernel.createTask, hinfo, he]
  refine ⟨_, rfl, ⟨⟨⟨hk.task, hk.queue, hk.type, hk.unlinked⟩, ?_, ?_, ?_, ?_, ?_⟩, ?_, ?_, rfl⟩⟩
  all_goals rw [hs']
  · exact h.mail
  · exact htasks
  · exact h.sysClock
  · exact h.clockState
  · show Function.update s.info r _ = Function.update a.info r _
    rw [h.info]
    rfl
  · rfl
  · rfl

theorem Stores.kernelTaskCreate (h : s.Stores a) (hl : a.Levels) :
    Lockstep.Rel (Created s a) (s.kernelTaskCreate r) (a.create r) := by
  have hinfo : s.info r = a.info r := by rw [h.info]
  unfold Kernel.kernelTaskCreate Sched.create
  rw [h.findDead_eq, hinfo]
  cases hfree : a.freeSlot with
  | none =>
    rw [if_pos (h.tasks_full.2 hfree)]
    exact ⟨h, rfl, rfl, rfl⟩
  | some x =>
    have hroom : ¬ s.tasks.toNat ≥ maxThread := by
      rw [h.tasks_full, hfree]
      simp
    rw [if_neg hroom]
    cases hcode : (a.info r).code with
    | none => exact Lockstep.Rel.error _
    | some f =>
      simp only
      cases hadm : Sched.admissible (a.info r) with
      | false =>
        rw [createTask_refused s x f (by rw [hinfo, hadm])]
        exact Lockstep.Rel.error _
      | true =>
        obtain ⟨s', he, hc⟩ := h.createTask hl (Sched.freeSlot_dead hfree) f (not_le.1 hroom)
          (by rw [hinfo, hadm])
        rw [he]
        exact hc

theorem Represents.create (h : s.Represents c a) (ha : a.Entered) :
    Lockstep.Rel (Represents c) (s.kernelRequestCreate r) (a.serve r .create) := by
  refine (h.toStores.kernelTaskCreate ha.levels).bind_of_ok ?_
  intro s' a' hs' ha' ⟨h', hcp, hctl, hcur⟩
  obtain ⟨hh, -, htask⟩ := ha.create ha'
  have hrep : s'.Represents c a' :=
    ⟨h', by rw [hcp, h.current, hcur], hctl.trans h.control⟩
  refine hrep.dispatch hh ?_
  rw [hcur, htask]
  exact unlisted_idle ha

/-! ### Kernel entries -/

theorem Represents.requestHandler (h : s.Represents c a) (ha : a.Entered)
    {k : KernelRequestType} (hu : k = .timer ∨ a.current ≠ .idleProcess) :
    Lockstep.Rel (Represents c) (s.requestHandler a.current r k) (a.serve r k) := by
  have hproc : k ≠ .timer → ∃ i, a.current = .process i := by
    intro hk
    cases hc : a.current with
    | process i => exact ⟨i, rfl⟩
    | idleProcess => exact absurd hc (hu.resolve_left hk)
  cases k with
  | none => exact h
  | timer => exact h.timer ha
  | create => exact h.create ha
  | next => exact h.next ha
  | getArg =>
    show Represents c (s.kernelRequestGetArg a.current r) _
    rw [kernelRequestGetArg, show (s.pd a.current).arg = (a.task a.current).arg from
      congrArg Task.arg (h.task a.current)]
    exact h.setInfo r _
  | getPid =>
    show Represents c (s.kernelRequestGetPid a.current r) _
    rw [kernelRequestGetPid, h.processId]
    exact h.setInfo r _
  | getNow =>
    show Represents c (s.kernelRequestGetNow r) _
    rw [kernelRequestGetNow, h.sysClock]
    exact h.setInfo r _
  | msgSend =>
    obtain ⟨i, hi⟩ := hproc (by simp)
    exact h.msgSend ha hi
  | msgRecv =>
    obtain ⟨i, hi⟩ := hproc (by simp)
    exact h.msgRecv ha hi
  | msgRply => exact h.msgRply ha
  | msgASend => exact h.msgASend ha
  | terminate =>
    obtain ⟨i, hi⟩ := hproc (by simp)
    exact h.terminate ha hi
  | abort =>
    have hinfo : s.info r = a.info r := by rw [h.info]
    show Lockstep.Rel _ (s.kernelRequestAbort r) _
    rw [kernelRequestAbort, hinfo]
    exact Lockstep.Rel.error _

/-- The kernel has returned to user mode and represents `a`. -/
abbrev UserMode (s : Kernel) (a : Sched) : Prop := s.Represents (none, true) a

/-- Leaving the kernel clears the served request. -/
theorem Represents.leaveKernel {b : Bool} (h : s.Represents (some r, b) a) :
    ∃ s', s.leaveKernel = .ok s' ∧
      s'.UserMode (a.setInfo r fun q => { q with request := .none }) := by
  have hreq : s.requestInfo = some r := congrArg Prod.fst h.control
  rw [Kernel.leaveKernel, hreq]
  have h1 := h.setInfo r fun q => { q with request := .none }
  exact ⟨_, rfl, ⟨⟨h1.task, h1.queue, h1.type, h1.unlinked⟩, h1.mail, h1.tasks, h1.sysClock,
    h1.clockState, h1.info⟩, h1.current, rfl⟩

/-- One turn of the request loop. -/
theorem Represents.serveRequest {b : Bool} (h : s.Represents (some r, b) a)
    (hlive : (a.task a.current).state ≠ .dead) (ha : (a.setState a.current .ready).Entered)
    (hu : (a.info r).request = .timer ∨ a.current ≠ .idleProcess) :
    Lockstep.Rel UserMode s.serveRequest (do
      let a' ← (a.setState a.current .ready).serve r (a.info r).request
      return a'.setInfo r fun q => { q with request := .none }) := by
  have hreq : s.requestInfo = some r := congrArg Prod.fst h.control
  have hinfo : (s.setState a.current .ready).info r = a.info r := by
    show s.info r = a.info r
    rw [h.info]
  rw [Kernel.serveRequest, hreq, h.current]
  simp only [hinfo]
  refine ((h.setState a.current .ready hlive (by simp)).requestHandler ha hu).bind ?_
  intro s' a' h'
  obtain ⟨s'', he, hs''⟩ := h'.leaveKernel
  rw [he]
  exact hs''

theorem Represents.setRequestInfo (h : s.Represents c a) (r : InfoPtr PDPtr) :
    { s with requestInfo := some r }.Represents (some r, c.2) a :=
  ⟨⟨⟨h.task, h.queue, h.type, h.unlinked⟩, h.mail, h.tasks, h.sysClock, h.clockState, h.info⟩,
    h.current, congrArg (fun x : Option (InfoPtr PDPtr) × Bool => (some r, x.2)) h.control⟩

/-- **Kernel entries run in lockstep.** -/
theorem Represents.enter (h : s.UserMode a) (ha : a.Inv) {e : Entry} (he : a.Possible e) :
    Lockstep.Rel UserMode (s.enter e) (a.enter e) := by
  have hactive : s.kernelActive = true := congrArg Prod.snd h.control
  have hreq : s.requestInfo = none := congrArg Prod.fst h.control
  have hentered := ha.suspend e
  cases e with
  | timer =>
    show Lockstep.Rel UserMode s.timerInterrupt _
    rw [timerInterrupt, if_pos hactive, if_neg (by simp [hreq])]
    have h1 := (h.setInfo .timerIsr fun _ => { request := .timer }).setRequestInfo .timerIsr
    exact h1.serveRequest ha.current_live hentered (Or.inl (by simp [Sched.setInfo]))
  | call c =>
    show Lockstep.Rel UserMode (s.kernelRequest c.params) _
    rw [kernelRequest, if_pos hactive, h.current]
    have h1 := (h.setInfo (.stub a.current) fun _ => c.params).setRequestInfo (.stub a.current)
    have h2 := h1.setTask (p := a.current)
      (f := fun t => { t with reqParams := some (.stub a.current) }) Iff.rfl
    refine h2.serveRequest ?_ hentered (Or.inr he)
    show (Function.update a.task a.current _ a.current).state ≠ .dead
    rw [Function.update_self]
    exact ha.current_live

/-! ### Booting -/

/-- The tables before the first task is created. -/
def initialSched (kernelIdle : BitVec 16) : Sched where
  task
    | .process _ => { state := .dead, clockState := .even }
    | .idleProcess => { kernelTaskCreateAt {} kernelIdle with priority := .unlisted }.toTask
  level _ := []
  mail := []
  current := .idleProcess
  sysClock := 0
  clockState := .even
  info _ := {}

theorem initTables_stores (kernelIdle : BitVec 16) :
    (initTables kernelIdle).Stores (initialSched kernelIdle) := by
  refine ⟨⟨?_, ?_, fun _ => rfl, ?_⟩, ⟨[], ?_⟩, ?_, rfl, rfl, rfl⟩
  · intro p
    cases p <;> rfl
  · intro q
    exact TaskQueue.Holds.nil _ _
  · intro p _
    cases p <;> rfl
  · exact ⟨MsgQueue.Holds.nil _, rfl, by simp, fun _ _ => rfl⟩
  · simp [initTables, Sched.liveSlots, initialSched]

theorem initialSched_handling (kernelIdle : BitVec 16) : (initialSched kernelIdle).Handling := by
  refine ⟨⟨?_, ?_, ?_, ?_, ?_, ?_, rfl, rfl, ?_, ?_⟩, ⟨?_, ?_⟩, ?_⟩
  all_goals try simp [initialSched, kernelTaskCreateAt]
  intro p
  cases p <;> simp

/-- The parameters with which `Kernel_Init` creates the setup task. -/
def initParams (create : BitVec 16) : KernelRequestParams :=
  { request := .create, priority := .system, code := some create, arg := 0 }

/-- The setup task has been created in the first table entry. -/
def createdSched (create kernelIdle : BitVec 16) : Sched :=
  let a := (initialSched kernelIdle).setInfo .kernelInit fun _ => initParams create
  (a.install 0 create (initParams create)).setInfo .kernelInit fun q =>
    { q with outPid := pidOf 0 }

/-- The state of the policy at the first return to user mode: the setup task runs alone. -/
def bootedSched (create kernelIdle : BitVec 16) : Sched :=
  (createdSched create kernelIdle).run (.process 0)

theorem createdSched_handling (create kernelIdle : BitVec 16) :
    (createdSched create kernelIdle).Handling := by
  have h₀ : ((initialSched kernelIdle).setInfo .kernelInit fun _ => initParams create).Handling :=
    (initialSched_handling kernelIdle).of_eq rfl rfl rfl
  exact (h₀.install (x := 0) rfl create (by simp [initParams])).of_eq rfl rfl rfl

theorem boot_represents (create kernelIdle : BitVec 16) :
    ∃ s, boot create kernelIdle = .ok s ∧ s.UserMode (bootedSched create kernelIdle) := by
  set a₀ := (initialSched kernelIdle).setInfo .kernelInit fun _ => initParams create with ha₀
  set a₁ := createdSched create kernelIdle with ha₁
  have hh₀ : a₀.Handling := (initialSched_handling kernelIdle).of_eq rfl rfl rfl
  have hh₁ : a₁.Handling := createdSched_handling create kernelIdle
  have hcreate : a₀.create .kernelInit = .ok a₁ := rfl
  have hfind : (a₁.level .system).find? a₁.ready = some (.process 0) := rfl
  have hbring : a₁.bring .system = a₁ := setLevel_self a₁ .system
  have hselect : a₁.select = .ok (bootedSched create kernelIdle) := by
    rw [Sched.select, hfind]
    show Except.ok ((a₁.bring .system).run (.process 0)) = _
    rw [hbring]
    rfl
  -- the setup task is created, and then it is chosen to run
  have h₀ := (initTables_stores kernelIdle).setInfo .kernelInit fun _ => initParams create
  have h₀' : { (initTables kernelIdle).setInfo .kernelInit fun _ => initParams create with
      requestInfo := some .kernelInit }.Stores a₀ :=
    ⟨⟨h₀.task, h₀.queue, h₀.type, h₀.unlinked⟩, h₀.mail, h₀.tasks, h₀.sysClock, h₀.clockState,
      h₀.info⟩
  obtain ⟨s₁, he₁, h₁, hcp₁, hctl₁, -⟩ :=
    (hcreate ▸ h₀'.kernelTaskCreate (r := .kernelInit) hh₀.levels).ok_right
  have h₁' : { s₁ with requestInfo := none }.Stores a₁ :=
    ⟨⟨h₁.task, h₁.queue, h₁.type, h₁.unlinked⟩, h₁.mail, h₁.tasks, h₁.sysClock, h₁.clockState,
      h₁.info⟩
  have hinit : kernelInit create kernelIdle = .ok { s₁ with requestInfo := none } := by
    have he : kernelInit create kernelIdle = (do
        let s ← { (initTables kernelIdle).setInfo .kernelInit fun _ => initParams create with
          requestInfo := some .kernelInit }.kernelTaskCreate .kernelInit
        return { s with requestInfo := none }) := rfl
    rw [he, he₁]
    rfl
  have hactive : s₁.kernelActive = false := congrArg Prod.snd hctl₁
  have htasks : s₁.tasks > 0 := by
    have hmem : (0 : Slot) ∈ a₁.liveSlots := by
      rw [Sched.mem_liveSlots]
      exact fun hd => by cases hd
    have hpos := Finset.card_pos.2 ⟨0, hmem⟩
    rw [← h₁.tasks] at hpos
    exact BitVec.lt_def.2 hpos
  obtain ⟨s₂, he₂, h₂⟩ := (hselect ▸ h₁'.dispatch_boot hh₁ hcp₁).ok_right
  have hctl₂ : s₂.control = (none, false) := by
    rw [h₂.control]
    exact congrArg _ hactive
  refine ⟨{ s₂ with kernelActive := true }, ?_, ?_⟩
  · have hreq₂ : s₂.requestInfo = none := congrArg Prod.fst hctl₂
    have hact₂ : s₂.kernelActive = false := congrArg Prod.snd hctl₂
    rw [boot, hinit]
    simp only [Lockstep.ok_bind]
    rw [kernelStart, if_pos ⟨by simp [hactive], htasks⟩, he₂]
    simp only [Lockstep.ok_bind]
    rw [Kernel.leaveKernel, hreq₂]
    simp [hact₂]
  · refine ⟨⟨⟨h₂.task, h₂.queue, h₂.type, h₂.unlinked⟩, h₂.mail, h₂.tasks, h₂.sysClock,
      h₂.clockState, h₂.info⟩, h₂.current, ?_⟩
    exact congrArg (fun x : Option (InfoPtr PDPtr) × Bool => (x.1, true)) hctl₂

end Kernel

/-! ### Runs -/

/-- From one return to user mode to the next. -/
def Sched.Step (a : Sched) (e : Entry) (a' : Sched) : Prop :=
  a.Possible e ∧ a.enter e = .ok a'

instance (a : Sched) (e : Entry) : Decidable (a.Possible e) :=
  match e with
  | .timer => inferInstanceAs (Decidable True)
  | .call _ => inferInstanceAs (Decidable (a.current ≠ .idleProcess))

/-- One step of the policy as a function. -/
def Sched.advance (a : Sched) (e : Entry) : Option Sched :=
  if a.Possible e then (a.enter e).toOption else none

theorem Sched.advance_step {a a' : Sched} {e : Entry} (h : a.advance e = some a') :
    a.Step e a' := by
  unfold Sched.advance at h
  by_cases hp : a.Possible e
  · rw [if_pos hp, toOption_eq_some] at h
    exact ⟨hp, h⟩
  · rw [if_neg hp] at h
    cases h

theorem Sched.run_of_exec {a a' : Sched} {es : List Entry}
    (h : Run.exec Sched.advance a es = some a') : Run Sched.Step a es a' :=
  (Run.of_exec h).mono fun _ _ _ hs => Sched.advance_step hs

theorem Sched.Step.inv {a a' : Sched} {e : Entry} (h : a.Step e a') (ha : a.Inv) : a'.Inv :=
  ha.enter h.1 h.2

/-- The states of the policy in runs since power-on. -/
def Sched.Reachable (a : Sched) : Prop :=
  ∃ create kernelIdle es, Run Sched.Step (Kernel.bootedSched create kernelIdle) es a

theorem Sched.bootedSched_inv (create kernelIdle : BitVec 16) :
    (Kernel.bootedSched create kernelIdle).Inv := by
  have h := Kernel.createdSched_handling create kernelIdle
  exact h.run (Or.inr rfl) (fun hd => by cases hd) (Or.inr rfl) (fun hp => by cases hp)

theorem Sched.Reachable.inv {a : Sched} (h : a.Reachable) : a.Inv := by
  obtain ⟨create, kernelIdle, es, hrun⟩ := h
  exact hrun.invariant (Sched.bootedSched_inv create kernelIdle) fun _ _ _ ha hs => hs.inv ha

theorem Sched.Reachable.step {a a' : Sched} {e : Entry} (h : a.Reachable) (hs : a.Step e a') :
    a'.Reachable := by
  obtain ⟨create, kernelIdle, es, hrun⟩ := h
  exact ⟨create, kernelIdle, es ++ [e], Run.snoc hrun hs⟩

/-- An invariant of the policy: it holds at boot and is kept by every step from a state that
satisfies `Sched.Inv`. -/
theorem Sched.Reachable.induction {P : Sched → Prop} {a : Sched} (h : a.Reachable)
    (hboot : ∀ create kernelIdle, P (Kernel.bootedSched create kernelIdle))
    (hstep : ∀ a e a', a.Inv → P a → a.Step e a' → P a') : P a := by
  obtain ⟨create, kernelIdle, es, hrun⟩ := h
  have hboth := hrun.invariant (P := fun a => a.Inv ∧ P a)
    ⟨Sched.bootedSched_inv create kernelIdle, hboot create kernelIdle⟩
    fun t e u ht hs => ⟨hs.inv ht.1, hstep t e u ht.1 ht.2 hs⟩
  exact hboth.2

namespace Kernel

variable {s s' s₀ : Kernel} {a : Sched} {e : Entry} {es : List Entry}

theorem Represents.possible_iff (h : s.UserMode a) : s.Possible e ↔ a.Possible e := by
  cases e with
  | timer => exact Iff.rfl
  | call c =>
    rw [Kernel.Possible, h.current]
    simp [Sched.Possible]

/-- A step of the kernel is a step of the policy. -/
theorem Represents.step (h : s.UserMode a) (ha : a.Inv) (hs : s.Step e s') :
    ∃ a', a.Step e a' ∧ s'.UserMode a' := by
  have hp := h.possible_iff.1 hs.1
  obtain ⟨a', he, h'⟩ := (hs.2 ▸ h.enter ha hp).ok_left
  exact ⟨a', ⟨hp, he⟩, h'⟩

/-- **Refinement.**  Every run of the kernel is a run of the policy. -/
theorem run_represents {create kernelIdle : BitVec 16} (hb : boot create kernelIdle = .ok s₀)
    (hr : Run Kernel.Step s₀ es s) :
    ∃ a, Run Sched.Step (bootedSched create kernelIdle) es a ∧ s.UserMode a ∧ a.Inv := by
  obtain ⟨s₁, hb₁, h₁⟩ := boot_represents create kernelIdle
  have hs : s₀ = s₁ := Except.ok.inj (hb.symm.trans hb₁)
  subst hs
  obtain ⟨a, hrun, h, ha⟩ := hr.simulate (R := fun s a => s.UserMode a ∧ a.Inv)
    ⟨h₁, Sched.bootedSched_inv create kernelIdle⟩ fun t e u a ht hs => by
      obtain ⟨a', hstep, h'⟩ := ht.1.step ht.2 hs
      exact ⟨a', hstep, h', hstep.inv ht.2⟩
  exact ⟨a, hrun, h, ha⟩

/-- The kernel determines the state of the policy that it represents. -/
theorem Represents.unique {c : Option (InfoPtr PDPtr) × Bool} {a' : Sched} (h : s.Represents c a)
    (h' : s.Represents c a') : a = a' := by
  obtain ⟨nodes, hm⟩ := h.mail
  obtain ⟨nodes', hm'⟩ := h'.mail
  have hnodes : nodes = nodes' := hm.holds.linked.unique hm'.holds.linked
  refine Sched.ext ?_ ?_ ?_ ?_ ?_ ?_ ?_
  · funext p
    rw [← h.task, h'.task]
  · funext q
    exact (h.queue q).linked.unique (h'.queue q).linked
  · rw [hm.mail_eq, hm'.mail_eq, hnodes]
  · exact Option.some.inj (h.current.symm.trans h'.current)
  · rw [← h.sysClock, h'.sysClock]
  · rw [← h.clockState, h'.clockState]
  · rw [← h.info, h'.info]

/-- A step of the policy is a step of the kernel. -/
theorem Represents.step_back {a' : Sched} (h : s.UserMode a) (ha : a.Inv) (hs : a.Step e a') :
    ∃ s', s.Step e s' ∧ s'.UserMode a' := by
  obtain ⟨s', he, h'⟩ := (hs.2 ▸ h.enter ha hs.1).ok_right
  exact ⟨s', ⟨h.possible_iff.2 hs.1, he⟩, h'⟩

/-- Every run of the policy is a run of the kernel. -/
theorem Represents.run_back {a' : Sched} (h : s.UserMode a) (ha : a.Inv)
    (hr : Run Sched.Step a es a') : ∃ s', Run Kernel.Step s es s' ∧ s'.UserMode a' := by
  obtain ⟨s', hrun, h', -⟩ := hr.simulate
    (R := fun (a : Sched) (s : Kernel) => s.UserMode a ∧ a.Inv) ⟨h, ha⟩ fun t e u s ht hs => by
      obtain ⟨s', hstep, h'⟩ := ht.1.step_back ht.2 hs
      exact ⟨s', hstep, h', hs.inv ht.2⟩
  exact ⟨s', hrun, h'⟩

/-- Every state in which the kernel returns to user mode represents a state of the policy. -/
theorem Reachable.represents (h : s.Reachable) : ∃ a, a.Reachable ∧ s.UserMode a := by
  obtain ⟨create, kernelIdle, s₀, es, hb, hr⟩ := h
  obtain ⟨a, hrun, hrep, -⟩ := run_represents hb hr
  exact ⟨a, ⟨create, kernelIdle, es, hrun⟩, hrep⟩

end Kernel

end RoombaRtos
