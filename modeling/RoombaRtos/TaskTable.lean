import RoombaRtos.RefinementRequests

/-!
# The process table, the task queues and internal errors

Two consequences of the refinement for every state in which the kernel returns to user mode.

* `reachable_consistent` — the three intrusive queues partition the live processes, and their
  lengths and the task counter agree;
* `reachable_front` — the current task is at the front of its queue, and the checks of the
  kernel on its own data never fail: an abort comes from a task's request or its timing.
-/

namespace RoombaRtos

open LinkedChain ListQueue Lockstep

namespace Sched

variable {a a' : Sched} {e : Entry} {r : InfoPtr PDPtr} {x : Halt}

/-! ### Counting the live processes -/

/-- The tasks of the three levels are the live processes, each listed once. -/
theorem Levels.card_liveSlots (h : a.Levels) : a.liveSlots.card =
    (a.level .system).length + (a.level .periodic).length + (a.level .rr).length := by
  have hdis : ∀ {q q' : PriorityLevel}, q ≠ q' → List.Disjoint (a.level q) (a.level q') :=
    fun hq p hp hp' => hq (h.level_unique hp hp')
  set l := a.level .system ++ a.level .periodic ++ a.level .rr with hl
  have hnd : l.Nodup := by
    rw [hl, List.nodup_append', List.nodup_append']
    refine ⟨⟨h.nodup _, h.nodup _, hdis (by simp)⟩, h.nodup _, ?_⟩
    rw [List.disjoint_append_left]
    exact ⟨hdis (by simp), hdis (by simp)⟩
  have hmem : ∀ i, PDPtr.process i ∈ l ↔ i ∈ a.liveSlots := by
    intro i
    rw [mem_liveSlots, hl, List.mem_append, List.mem_append]
    constructor
    · rintro ((hm | hm) | hm) <;> exact h.live _ _ hm
    · intro hi
      have hm := h.linked i hi
      cases hp : (a.task (.process i)).priority with
      | system => exact Or.inl (Or.inl (hp ▸ hm))
      | periodic => exact Or.inl (Or.inr (hp ▸ hm))
      | rr => exact Or.inr (hp ▸ hm)
      | unlisted =>
        rw [hp, h.unlisted] at hm
        simp at hm
  have hmap : a.liveSlots.card = l.toFinset.card := by
    refine Finset.card_bij (fun i _ => PDPtr.process i) ?_ ?_ ?_
    · intro i hi
      rw [List.mem_toFinset]
      exact (hmem i).2 hi
    · intro i _ j _ hij
      exact PDPtr.process.inj hij
    · intro p hp
      rw [List.mem_toFinset] at hp
      have huser : ∃ i, p = .process i := by
        rw [hl, List.mem_append, List.mem_append] at hp
        rcases hp with (hp | hp) | hp <;> exact h.user _ p hp
      obtain ⟨i, rfl⟩ := huser
      exact ⟨i, (hmem i).1 hp, rfl⟩
  rw [hmap, List.toFinset_card_of_nodup hnd, hl, List.length_append, List.length_append]

theorem Levels.count_eq (h : a.Levels) {i : Slot} (hi : (a.task (.process i)).state ≠ .dead)
    (q : PriorityLevel) : (a.level q).count (.process i) =
      if q = (a.task (.process i)).priority then 1 else 0 := by
  by_cases hq : q = (a.task (.process i)).priority
  · rw [if_pos hq, hq]
    exact List.count_eq_one_of_mem (h.nodup _) (h.linked i hi)
  · rw [if_neg hq]
    exact List.count_eq_zero_of_not_mem (h.notMem_of_priority (Ne.symm hq))

/-! ### What can stop the kernel -/

/-- The aborts that the policy itself raises: a task was late, or made a wrong request. -/
def Blameless (x : Halt) : Prop :=
  x = .abort .timingViolation ∨ x = .abort .invalidReqInfo ∨ x = .abort .periodicMsg ∨
    x = .abort .nullTaskFunction

theorem dispatch_error (h : a.dispatch = .error x) : Blameless x := by
  unfold dispatch select at h
  split at h
  · cases h
  · split at h
    · split at h
      · exact Or.inl (Except.error.inj h).symm
      · cases h
    · split at h <;> cases h

theorem create_error (h : a.create r = .error x) : Blameless x := by
  unfold create at h
  split at h
  · cases h
  · split at h
    · exact Or.inr (Or.inr (Or.inr (Except.error.inj h).symm))
    · split at h
      · cases h
      · exact Or.inr (Or.inl (Except.error.inj h).symm)

theorem send_error (h : a.send r = .error x) : Blameless x := by
  unfold send at h
  split at h
  · exact Or.inr (Or.inr (Or.inl (Except.error.inj h).symm))
  · split at h
    · cases h
    · split at h <;> exact dispatch_error h

theorem recv_error (ha : a.Handling) (h : a.recv r = .error x) : Blameless x := by
  unfold recv at h
  split at h
  · exact Or.inr (Or.inr (Or.inl (Except.error.inj h).symm))
  · split at h
    · next m hf =>
      obtain ⟨i, hi, -⟩ := ha.posted.sender m (List.mem_of_find?_eq_some hf)
      rw [hi, validId_pidOf] at h
      exact dispatch_error h
    · exact dispatch_error h

theorem reply_error (h : a.reply r = .error x) : Blameless x := by
  unfold reply at h
  split at h
  · exact Or.inr (Or.inr (Or.inl (Except.error.inj h).symm))
  · split at h
    · cases h
    · split at h <;> exact dispatch_error h

theorem asend_error (h : a.asend r = .error x) : Blameless x := by
  unfold asend at h
  split at h
  · exact Or.inr (Or.inl (Except.error.inj h).symm)
  · split at h
    · cases h
    · split at h
      · exact dispatch_error h
      · cases h

/-- A task that can call the kernel has one of the three priorities. -/
theorem Entered.listed (h : a.Entered) (hu : a.current ≠ .idleProcess) :
    (a.task a.current).priority ≠ .unlisted := by
  intro hp
  rcases h.front with hf | hf
  · exact hu hf
  · rw [hp, h.levels.unlisted] at hf
    simp at hf

theorem yield_error (ha : a.Entered) (hu : a.current ≠ .idleProcess) (h : a.yield = .error x) :
    Blameless x := by
  have hp := ha.listed hu
  rcases bind_error h with ht | ⟨t, -, hd⟩
  · unfold Kernel.yieldTask at ht
    split at ht
    · cases ht
    · cases ht
    · cases ht
    · next hun => exact absurd hun hp
  · exact dispatch_error hd

theorem tick_error (ha : a.Entered) (h : a.tick = .error x) : Blameless x := by
  rcases bind_error h with ht | ⟨t, -, hd⟩
  · unfold Kernel.chargeTick at ht
    split at ht
    · cases ht
    · simp only at ht
      split at ht
      · exact Or.inl (Except.error.inj ht).symm
      · cases ht
    · cases ht
    · next hun =>
      split at ht
      · next hc => exact absurd hun (ha.listed hc)
      · cases ht
  · exact dispatch_error hd

theorem serve_error {k : KernelRequestType} (ha : a.Entered)
    (hu : k = .timer ∨ a.current ≠ .idleProcess) (h : a.serve r k = .error x) :
    Blameless x ∨ (k = .abort ∧ x = .abort (a.info r).abortCode) := by
  cases k with
  | none => cases h
  | timer => exact Or.inl (tick_error ha h)
  | create =>
    rcases bind_error h with hc | ⟨b, -, hd⟩
    · exact Or.inl (create_error hc)
    · exact Or.inl (dispatch_error hd)
  | next => exact Or.inl (yield_error ha (hu.resolve_left (by simp)) h)
  | getArg => cases h
  | getPid => cases h
  | getNow => cases h
  | msgSend => exact Or.inl (send_error h)
  | msgRecv => exact Or.inl (recv_error ha.toHandling h)
  | msgRply => exact Or.inl (reply_error h)
  | msgASend => exact Or.inl (asend_error h)
  | terminate =>
    unfold Sched.serve terminate at h
    rw [if_neg (ha.listed (hu.resolve_left (by simp)))] at h
    exact Or.inl (dispatch_error h)
  | abort => exact Or.inr ⟨rfl, (Except.error.inj h).symm⟩

/-- An entry fails blamelessly, or it is a call of `OS_Abort`. -/
theorem Inv.enter_error (ha : a.Inv) (hp : a.Possible e) (h : a.enter e = .error x) :
    Blameless x ∨ ∃ code, e = .call (.osAbort code) ∧ x = .abort code := by
  have hserve : (a.suspend e).1.serve (a.suspend e).2 (Entry.request e) = .error x := by
    rw [← suspend_request a e]
    rcases bind_error h with hs | ⟨b, -, hb⟩
    · exact hs
    · cases hb
  have hu : Entry.request e = .timer ∨ (a.suspend e).1.current ≠ .idleProcess := by
    cases e with
    | timer => exact Or.inl rfl
    | call c =>
      rw [suspend_current]
      exact Or.inr hp
  rcases serve_error (ha.suspend e) hu hserve with hx | ⟨hk, hx⟩
  · exact Or.inl hx
  · right
    cases e with
    | timer => cases hk
    | call c =>
      cases c with
      | osAbort code =>
        exact ⟨code, rfl, by simpa [Sched.suspend, Sched.setInfo, ApiCall.params] using hx⟩
      | _ => cases hk

end Sched

namespace Kernel

variable {s : Kernel} {e : Entry}

/-- The process table and the task queues fit together; `chain q` is the chain of the queue of
level `q`, from `head` through `next`. -/
structure Consistent (s : Kernel) (chain : PriorityLevel → List PDPtr) : Prop where
  /-- The chain has no repetition, ends in a null link at `tail`, and is counted by `length`. -/
  queues : ∀ q, (s.queue q).Holds s.pd (chain q)
  tail : ∀ q t, (s.queue q).tail = some t → (s.pd t).next = none
  /-- A live process is linked once, in the queue of its priority. -/
  live : ∀ i, (s.pd (.process i)).state ≠ .dead → ∀ q,
    (chain q).count (.process i) = if q = (s.pd (.process i)).priority then 1 else 0
  dead : ∀ i, (s.pd (.process i)).state = .dead → ∀ q, .process i ∉ chain q
  idle : ∀ q, .idleProcess ∉ chain q
  /-- There are three queues. -/
  unlisted : chain .unlisted = []
  tasks : s.tasks.toNat =
    (Finset.univ.filter fun i : Slot => (s.pd (.process i)).state ≠ .dead).card
  lengths : s.tasks.toNat = (s.queue .system).length.toNat +
    (s.queue .periodic).length.toNat + (s.queue .rr).length.toNat

/-- The last descriptor of a queue has a null link. -/
theorem holds_tail {pd : PDPtr → PD PDPtr} {q : TaskQueue PDPtr} {l : List PDPtr} {t : PDPtr}
    (h : q.Holds pd l) (ht : q.tail = some t) : (pd t).next = none := by
  rw [h.linked.tail_eq] at ht
  obtain ⟨l', rfl⟩ := List.getLast?_eq_some_iff.1 ht
  exact h.linked.next_last

theorem Represents.consistent {a : Sched} (h : s.UserMode a) (ha : a.Inv) :
    s.Consistent a.level := by
  have hcount : a.liveSlots =
      Finset.univ.filter fun i : Slot => (s.pd (.process i)).state ≠ .dead := by
    simp only [Sched.liveSlots, h.state]
  refine ⟨h.queue, fun q t ht => holds_tail (h.queue q) ht, ?_, ?_, ha.levels.idle_notMem,
    ha.levels.unlisted, by rw [h.tasks, hcount], ?_⟩
  · intro i hi q
    rw [h.state] at hi
    rw [h.priority]
    exact ha.levels.count_eq hi q
  · intro i hi q
    rw [h.state] at hi
    exact ha.levels.notMem_of_dead hi q
  · rw [h.tasks, ha.levels.card_liveSlots, (h.queue _).length_eq, (h.queue _).length_eq,
      (h.queue _).length_eq]

/-- **The process table and the task queues stay consistent**, whatever the tasks request and
whenever the timer ticks. -/
theorem reachable_consistent (h : s.Reachable) : ∃ chain, s.Consistent chain := by
  obtain ⟨a, ha, hrep⟩ := h.represents
  exact ⟨a.level, hrep.consistent ha.inv⟩

/-- A run in which the table entry of the setup task is used again. -/
theorem consistent_after_recycling :
    ∃ s ∈ after (fun _ _ => true) 1 2 [.call (.taskCreateRR (some 3) 0),
      .call (.taskCreatePeriod (some 4) 0 5 2 1), .call .taskTerminate, .timer,
      .call (.taskCreateSystem (some 5) 0), .call (.msgRecv 1 none)],
      ∃ chain, s.Consistent chain :=
  exists_mem_of_isSome (by decide +kernel) fun _ hs => reachable_consistent (reachable_of_after hs)

/-- The aborts by which the kernel reports that its own data are inconsistent. -/
def internalErrors : List AbortCode :=
  [.wrongTaskOrder, .queueingError, .noDeadProcess, .invalidPriority, .noRequestInfo]

theorem reachable_front (h : s.Reachable) :
    ∃ p, s.cp = some p ∧ (p ≠ .idleProcess → (s.queue (s.pd p).priority).head = some p) := by
  obtain ⟨a, ha, hrep⟩ := h.represents
  refine ⟨a.current, hrep.current, fun hne => ?_⟩
  have hf := ha.inv.front.resolve_left hne
  rw [hrep.priority, (hrep.queue _).linked.head_eq, hf]

/-- A failing entry into the kernel is one of the policy. -/
theorem reachable_error {x : Halt} (h : s.Reachable) (hp : s.Possible e)
    (he : s.enter e = .error x) :
    Sched.Blameless x ∨ ∃ code, e = .call (.osAbort code) ∧ x = .abort code := by
  obtain ⟨a, ha, hrep⟩ := h.represents
  have hp' := hrep.possible_iff.1 hp
  exact ha.inv.enter_error hp' (he ▸ hrep.enter ha.inv hp').error_left

/-- **Internal errors are unreachable.**  Booting succeeds; at every return to user mode the
current task is at the front of its queue; and no entry reports an internal error, unless a
task passes that very code to `OS_Abort`. -/
theorem internal_errors_unreachable :
    (∀ create kernelIdle, ∃ s, boot create kernelIdle = .ok s) ∧
    ∀ s : Kernel, s.Reachable →
      (∃ p, s.cp = some p ∧
        (p ≠ .idleProcess → (s.queue (s.pd p).priority).head = some p)) ∧
      ∀ e, s.Possible e → ∀ code ∈ internalErrors, s.enter e = .error (.abort code) →
        e = .call (.osAbort code) := by
  refine ⟨fun create kernelIdle => ?_, fun s h => ⟨reachable_front h, ?_⟩⟩
  · obtain ⟨s, hb, -⟩ := boot_represents create kernelIdle
    exact ⟨s, hb⟩
  · intro e hp code hcode he
    rcases reachable_error h hp he with hx | ⟨code', rfl, hx⟩
    · rcases hx with hx | hx | hx | hx <;> cases hx <;> simp [internalErrors] at hcode
    · cases hx
      rfl

/-- Two tasks that wait for messages, and the idle process. -/
theorem internal_errors_unreachable_while_waiting :
    ∃ s ∈ after (fun _ _ => true) 1 2 [.call (.taskCreateRR (some 3) 0),
      .call (.msgRecv 1 none), .call (.msgRecv 1 none)],
      (∃ p, s.cp = some p ∧
        (p ≠ .idleProcess → (s.queue (s.pd p).priority).head = some p)) ∧
      ∀ e, s.Possible e → ∀ code ∈ internalErrors, s.enter e = .error (.abort code) →
        e = .call (.osAbort code) :=
  exists_mem_of_isSome (by decide +kernel) fun s hs =>
    internal_errors_unreachable.2 s (reachable_of_after hs)

end Kernel

end RoombaRtos
