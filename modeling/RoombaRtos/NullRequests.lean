import RoombaRtos.Timeline
import RoombaRtos.EarlyReturn

/-!
# Request pointers

`req_params` of a descriptor is null from its creation until the process makes a request of its
own.  `Kernel_Request_MsgSend` and `Kernel_Request_MsgASend` read through the pointer of the target
before they look at its state.

* `Kernel.msgSendReads`, `Kernel.msgRplyReads`, `Kernel.msgASendReads` — the descriptors whose
  `req_params` the handlers dereference;
* `Sched.Step.reqParams_iff` — what sets the pointer, and what clears it;
* `Kernel.null_read_iff` — when a handler reads through a null pointer.
-/

namespace RoombaRtos

open Lockstep

namespace Sched

variable {a a' c : Sched} {e : Entry} {i : Slot} {d : Bool} {r : InfoPtr PDPtr}
  {k : KernelRequestType}

/-- A request sets the pointer of the task that makes it. -/
theorem suspend_reqParams_iff (a : Sched) (e : Entry) (i : Slot) :
    ((a.suspend e).1.task (.process i)).reqParams ≠ none ↔
      (e ≠ .timer ∧ a.current = .process i) ∨ (a.task (.process i)).reqParams ≠ none := by
  by_cases hi : PDPtr.process i = a.current
  · cases e with
    | timer =>
      have ht : (a.suspend .timer).1.task a.current =
          { a.task a.current with state := .ready } := Function.update_self _ _ _
      rw [hi, ht]
      simp
    | call c =>
      have ht : ((a.suspend (.call c)).1.task a.current).reqParams = some (.stub a.current) := by
        simp [suspend, setState_task, setTask_task]
      rw [hi, ht]
      simp
  · rw [a.suspend_task_of_ne e hi]
    simp [Ne.symm hi]

/-- The process is created: it was dead, and is alive. -/
def Born (a a' : Sched) (i : Slot) : Prop :=
  (a.task (.process i)).state = .dead ∧ (a'.task (.process i)).state ≠ .dead

/-- A handler clears the pointer of a process that it creates, and no other. -/
theorem Change.reqParams_iff (h : Change a r k c) (ha : a.Entered) (hc : c.Handling) :
    (c.task (.process i)).reqParams ≠ none ↔
      (a.task (.process i)).reqParams ≠ none ∧ ¬ Born a c i := by
  have hsame : (c.task (.process i)).reqParams = (a.task (.process i)).reqParams →
      ((c.task (.process i)).state ≠ .dead → (a.task (.process i)).state ≠ .dead) →
      ((c.task (.process i)).reqParams ≠ none ↔
        (a.task (.process i)).reqParams ≠ none ∧ ¬ Born a c i) := by
    intro hr hl
    rw [hr, and_iff_left]
    exact fun hb => hl hb.2 hb.1
  cases h with
  | states hk hst =>
    obtain ⟨st, ht⟩ := hst.task (.process i)
    exact hsame (by rw [ht]) (hc.alive_of_level ha.levels hst.level)
  | @install x f g hx hq =>
    by_cases hix : i = x
    · subst hix
      have hself : ((a.install i f (a.info r)).setInfo r g).task (.process i) =
          a.newTask i f (a.info r) := by
        rw [setInfo_task, install_task, Function.update_self]
      have hparams : (a.newTask i f (a.info r)).reqParams = none := by
        unfold newTask
        cases (a.info r).priority <;> rfl
      have hstate : (a.newTask i f (a.info r)).state = .ready := by
        unfold newTask
        cases (a.info r).priority <;> rfl
      have hborn : Born a ((a.install i f (a.info r)).setInfo r g) i :=
        ⟨hx, by rw [hself, hstate]; simp⟩
      rw [hself, hparams]
      exact iff_of_false (fun h => h rfl) fun h => h.2 hborn
    · have hother : ((a.install x f (a.info r)).setInfo r g).task (.process i) =
          a.task (.process i) := by
        rw [setInfo_task, install_task, Function.update_of_ne (by simpa using hix)]
      exact hsame (by rw [hother]) fun h => by rwa [hother] at h
  | @yield t ht =>
    obtain ⟨tons, ticks, clock, rfl⟩ := yieldTask_ok ht
    refine hsame ?_ (hc.alive_of_level ha.levels rfl)
    rw [setTask_task]
    by_cases hi : PDPtr.process i = a.current
    · rw [hi, Function.update_self]
    · rw [Function.update_of_ne hi]
  | @tick t ht =>
    obtain ⟨ticks, rfl⟩ := chargeTick_ok ht
    refine hsame ?_ (hc.alive_of_level ha.levels rfl)
    show (Function.update a.task a.current _ (.process i)).reqParams = _
    by_cases hi : PDPtr.process i = a.current
    · rw [hi, Function.update_self]
    · rw [Function.update_of_ne hi]
  | bury hp =>
    rw [bury_task]
    by_cases hi : PDPtr.process i = a.current
    · refine hsame ?_ fun h => ?_
      · rw [bury_task, hi, setState_task, Function.update_self]
      · rw [hi, ha.ready]
        simp
    · refine hsame ?_ fun h => ?_
      · rw [bury_task, setState_other hi]
      · rwa [bury_task, setState_other hi] at h

/-- A dispatch changes no pointer. -/
theorem Handling.dispatch_reqParams (h : c.Handling) (he : c.dispatch = .ok a') (p : PDPtr) :
    (a'.task p).reqParams = (c.task p).reqParams := by
  obtain ⟨p', -, -, ht, -, -⟩ := h.dispatch_frame he
  rw [ht, setState_task]
  by_cases hp : p = p'
  · rw [hp, Function.update_self]
  · rw [Function.update_of_ne hp]

/-- **What sets and clears the request pointer**: a request of the process itself, and its
creation. -/
theorem Step.reqParams_iff (hs : a.Step e a') (ha : a.Inv) (i : Slot) :
    (a'.task (.process i)).reqParams ≠ none ↔
      (e ≠ .timer ∧ a.current = .process i) ∨
        (a.task (.process i)).reqParams ≠ none ∧ ¬ Born a a' i := by
  obtain ⟨c, d, b, hc, rfl, hd⟩ := enter_parts hs.2
  have hent := ha.suspend e
  have hh : c.Handling := by
    rcases hd with ⟨rfl, -⟩ | ⟨rfl, rfl⟩
    · exact Dispatches.handling hc ha hs.1
    · obtain ⟨info, rfl⟩ := (handled_cases hc).quiet.2
      exact hent.toHandling.of_eq rfl rfl rfl
  have hb : (b.task (.process i)).reqParams = (c.task (.process i)).reqParams ∧
      ((b.task (.process i)).state = .dead ↔ (c.task (.process i)).state = .dead) := by
    rcases hd with ⟨-, hd⟩ | ⟨-, rfl⟩
    · exact ⟨hh.dispatch_reqParams hd _, (hh.dispatch_timing hd _).2⟩
    · exact ⟨rfl, Iff.rfl⟩
  have hborn : Born a (b.setInfo (a.suspend e).2 fun q => { q with request := .none }) i ↔
      Born (a.suspend e).1 c i := by
    rw [Born, Born, setInfo_task, ha.suspend_dead_iff, ne_eq, hb.2]
  have hlive : a.current = .process i → ¬ Born (a.suspend e).1 c i := by
    rintro hi ⟨hdead, -⟩
    rw [ha.suspend_dead_iff, ← hi] at hdead
    exact ha.current_live hdead
  rw [hborn, setInfo_task, hb.1, (handled_cases hc).change.reqParams_iff hent hh,
    suspend_reqParams_iff, or_and_right]
  exact or_congr_left (and_iff_left_of_imp fun h => hlive h.2)

end Sched

namespace Kernel

variable {s s' s₀ : Kernel} {a : Sched} {e : Entry} {es : List Entry} {p : PDPtr} {c : ApiCall}
  {r : InfoPtr PDPtr} {id : Pid} {x : Slot} {create kernelIdle : BitVec 16}

/-! ### The pointers that the handlers go through -/

/-- The descriptors through whose `req_params` `Kernel_Request_MsgSend` reads or writes, in this
order: the mask of the target first, and its data and id if the message is handed over. -/
def msgSendReads (s : Kernel) (cp : PDPtr) (r : InfoPtr PDPtr) : List PDPtr :=
  if (s.pd cp).priority = .periodic then []
  else
    match validId (s.info r).msgTo with
    | none => []
    | some x =>
        let pRecv := PDPtr.process x
        if (s.pd pRecv).state = .dead then [pRecv]
        else if s.awaits pRecv (s.info r).msgMask then [pRecv, pRecv, pRecv]
        else [pRecv]

/-- The same of `Kernel_Request_MsgRply`, which looks at the state of the target first. -/
def msgRplyReads (s : Kernel) (cp : PDPtr) (r : InfoPtr PDPtr) : List PDPtr :=
  if (s.pd cp).priority = .periodic then []
  else
    match validId (s.info r).msgTo with
    | none => []
    | some x =>
        let pRecv := PDPtr.process x
        if (s.pd pRecv).state = .replyBlock then [pRecv] else []

/-- The same of `Kernel_Request_MsgASend`. -/
def msgASendReads (s : Kernel) (r : InfoPtr PDPtr) : List PDPtr :=
  match validId (s.info r).msgTo with
  | none => []
  | some x =>
      let pRecv := PDPtr.process x
      if (s.pd pRecv).state = .dead then [pRecv]
      else if s.awaits pRecv (s.info r).msgMask then [pRecv, pRecv, pRecv, pRecv]
      else [pRecv]

/-- The same of the handler that the call `c` of `p` enters. -/
def reads (s : Kernel) (p : PDPtr) (c : ApiCall) : List PDPtr :=
  match c.params.request with
  | .msgSend => (s.handling p c).msgSendReads p (.stub p)
  | .msgRply => (s.handling p c).msgRplyReads p (.stub p)
  | .msgASend => (s.handling p c).msgASendReads (.stub p)
  | _ => []

/-- The handler that the call `c` of the current task enters goes through no null pointer. -/
def ReadsNoNull (s : Kernel) (c : ApiCall) : Prop :=
  ∃ p, s.cp = some p ∧ ∀ q ∈ s.reads p c, ((s.handling p c).pd q).reqParams ≠ none

/-- The process in the table entry `x` calls the kernel. -/
def Calls (x : Slot) (s : Kernel) (e : Entry) (_ : Kernel) : Prop :=
  e ≠ .timer ∧ s.cp = some (.process x)

/-- A process is created in the table entry `x`. -/
def Creates (x : Slot) (s : Kernel) (_ : Entry) (s' : Kernel) : Prop :=
  (s.pd (.process x)).state = .dead ∧ (s'.pd (.process x)).state ≠ .dead

theorem handling_reqParams_iff : ((s.handling p c).pd (.process x)).reqParams ≠ none ↔
    p = .process x ∨ (s.pd (.process x)).reqParams ≠ none := by
  by_cases hx : PDPtr.process x = p
  · subst hx
    rw [handling_current]
    simp
  · rw [handling_other hx]
    simp [Ne.symm hx]

/-- A handler that goes through the pointer of its target first. -/
theorem reads_iff (hne : s.reads p c ≠ []) (hall : ∀ q ∈ s.reads p c, q = .process x) :
    (∀ q ∈ s.reads p c, ((s.handling p c).pd q).reqParams ≠ none) ↔
      p = .process x ∨ (s.pd (.process x)).reqParams ≠ none := by
  rw [← handling_reqParams_iff (c := c)]
  constructor
  · intro h
    obtain ⟨q, hq⟩ := List.exists_mem_of_ne_nil _ hne
    exact hall q hq ▸ h q hq
  · intro h q hq
    rw [hall q hq]
    exact h

theorem reads_msgSend {t : MType} {v : Option Addr} (hp : (s.pd p).priority ≠ .periodic)
    (hx : validId id = some x) : s.reads p (.msgSend id t v) ≠ [] ∧
      ∀ q ∈ s.reads p (.msgSend id t v), q = .process x := by
  have hprio : ((s.handling p (.msgSend id t v)).pd p).priority ≠ .periodic := by
    rwa [handling_current]
  have hto : validId ((s.handling p (.msgSend id t v)).info (.stub p)).msgTo = some x := by
    rw [handling_info]
    exact hx
  show (s.handling p _).msgSendReads p (.stub p) ≠ [] ∧
    ∀ q ∈ (s.handling p _).msgSendReads p (.stub p), q = .process x
  unfold msgSendReads
  simp only [if_neg hprio, hto]
  split_ifs <;> simp

theorem reads_msgASend {t : MType} {v : Word} (hx : validId id = some x) :
    s.reads p (.msgASend id t v) ≠ [] ∧ ∀ q ∈ s.reads p (.msgASend id t v), q = .process x := by
  have hto : validId ((s.handling p (.msgASend id t v)).info (.stub p)).msgTo = some x := by
    rw [handling_info]
    exact hx
  show (s.handling p _).msgASendReads (.stub p) ≠ [] ∧
    ∀ q ∈ (s.handling p _).msgASendReads (.stub p), q = .process x
  unfold msgASendReads
  simp only [hto]
  split_ifs <;> simp

theorem reads_msgSend_periodic {t : MType} {v : Option Addr} (hp : (s.pd p).priority = .periodic) :
    s.reads p (.msgSend id t v) = [] := by
  have hprio : ((s.handling p (.msgSend id t v)).pd p).priority = .periodic := by
    rwa [handling_current]
  show (s.handling p _).msgSendReads p (.stub p) = []
  rw [msgSendReads, if_pos hprio]

/-- A process that waits for a reply has made a request. -/
theorem Booted.reads_msgRply (h : s.Booted) (w : Word) : ∀ q ∈ s.reads p (.msgRply id w),
    ((s.handling p (.msgRply id w)).pd q).reqParams ≠ none := by
  obtain ⟨a, ha, hrep⟩ := h
  intro q hq
  have hq : q ∈ (s.handling p (.msgRply id w)).msgRplyReads p (.stub p) := hq
  unfold msgRplyReads at hq
  split_ifs at hq
  · cases hq
  · split at hq
    · cases hq
    · next x hx =>
      dsimp only at hq
      split_ifs at hq with hst
      · rw [List.mem_singleton.1 hq]
        refine handling_reqParams_iff.2 (or_iff_not_imp_left.2 fun hne => ?_)
        rw [handling_other (Ne.symm hne), hrep.state] at hst
        rw [hrep.reqParams, ha.stubs x (by rw [hst]; rfl)]
        simp
      · cases hq

theorem boot_reqParams (hb : boot create kernelIdle = .ok s₀) (x : Slot) :
    (s₀.pd (.process x)).reqParams = none := by
  obtain ⟨s, hs, hrep⟩ := boot_represents create kernelIdle
  obtain rfl := Except.ok.inj (hb.symm.trans hs)
  rw [hrep.reqParams]
  by_cases hx : x = 0
  · subst hx
    rfl
  · rw [Sched.bootedSched_other create kernelIdle hx]

theorem Booted.boot (hb : boot create kernelIdle = .ok s₀) : s₀.Booted := by
  obtain ⟨s, hs, hrep⟩ := boot_represents create kernelIdle
  obtain rfl := Except.ok.inj (hb.symm.trans hs)
  exact ⟨_, ⟨create, kernelIdle, [], Run.nil _⟩, hrep⟩

theorem Booted.reqParams_iff (h : s.Booted) (hs : s.Step e s') (x : Slot) :
    (s'.pd (.process x)).reqParams ≠ none ↔
      Calls x s e s' ∨ (s.pd (.process x)).reqParams ≠ none ∧ ¬ Creates x s e s' := by
  obtain ⟨a, ha, hrep⟩ := h
  obtain ⟨a', hstep, hrep'⟩ := hrep.step ha.inv hs
  rw [hrep'.reqParams, hrep.reqParams, hstep.reqParams_iff ha.inv, Calls, Creates, hrep.current,
    hrep.state, hrep'.state, Option.some.injEq]
  rfl

/-- The pointer is set exactly while a request of the process is remembered. -/
theorem reqParams_ne_none_iff (hb : boot create kernelIdle = .ok s₀) (hrun : Run Step s₀ es s)
    (x : Slot) : (s.pd (.process x)).reqParams ≠ none ↔
      Run.Unbroken Step (Calls x) (Creates x) s₀ es s :=
  hrun.unbroken_iff (I := Booted) (P := fun s => (s.pd (.process x)).reqParams ≠ none)
    (fun _ _ _ h hs => h.step hs) (fun _ _ _ h hs => h.reqParams_iff hs x) (Booted.boot hb)
    (fun h => h (boot_reqParams hb x))

/-- **Null reads, exactly.**  In every run since power-on, and for every message call with an id in
range, the handler goes through no null pointer exactly if the call is a `Msg_Rply`, or a
`Msg_Send` of a periodic task, which aborts; or the call is addressed to the caller itself, or to a
table entry whose process has called the kernel since one was last created in it. -/
theorem null_read_iff (hb : boot create kernelIdle = .ok s₀) (hrun : Run Step s₀ es s)
    (hcp : s.cp = some p) (hx : validId id = some x)
    (hc : (∃ t v, c = .msgSend id t v) ∨ (∃ w, c = .msgRply id w) ∨ ∃ t w, c = .msgASend id t w) :
    s.ReadsNoNull c ↔ (∃ w, c = .msgRply id w) ∨
      ((∃ t v, c = .msgSend id t v) ∧ (s.pd p).priority = .periodic) ∨
      p = .process x ∨ Run.Unbroken Step (Calls x) (Creates x) s₀ es s := by
  have hbooted : s.Booted := hrun.invariant (Booted.boot hb) fun _ _ _ h hs => h.step hs
  rw [← reqParams_ne_none_iff hb hrun]
  have hread : s.ReadsNoNull c ↔
      ∀ q ∈ s.reads p c, ((s.handling p c).pd q).reqParams ≠ none := by
    simp [ReadsNoNull, hcp]
  rw [hread]
  rcases hc with ⟨t, v, rfl⟩ | ⟨w, rfl⟩ | ⟨t, w, rfl⟩
  · by_cases hp : (s.pd p).priority = .periodic
    · refine iff_of_true ?_ (Or.inr (Or.inl ⟨⟨t, v, rfl⟩, hp⟩))
      intro q hq
      rw [reads_msgSend_periodic hp] at hq
      cases hq
    · rw [reads_iff (reads_msgSend hp hx).1 (reads_msgSend hp hx).2]
      simp [hp]
  · exact iff_of_true (hbooted.reads_msgRply w) (Or.inl ⟨w, rfl⟩)
  · rw [reads_iff (reads_msgASend hx).1 (reads_msgASend hx).2]
    simp

/-- The setup task sends to the task that it has just created. -/
theorem null_read_of_fresh_task :
    ∃ s ∈ after (fun _ _ => true) 1 2 [.call (.taskCreateRR (some 3) 0)],
      s.Reachable ∧ ¬ s.ReadsNoNull (.msgSend 1 1 none) ∧ ¬ s.ReadsNoNull (.msgASend 1 1 0) := by
  have hex : ∃ s ∈ (after (fun _ _ => true) 1 2 [.call (.taskCreateRR (some 3) 0)]).filter fun s =>
      s.cp = some (.process 0) ∧ .process 1 ∈ s.reads (.process 0) (.msgSend 1 1 none) ∧
        .process 1 ∈ s.reads (.process 0) (.msgASend 1 1 0) ∧
        ((s.handling (.process 0) (.msgSend 1 1 none)).pd (.process 1)).reqParams = none ∧
        ((s.handling (.process 0) (.msgASend 1 1 0)).pd (.process 1)).reqParams = none, True :=
    exists_mem_of_isSome (by decide +kernel) fun _ _ => trivial
  obtain ⟨s, hs, -⟩ := hex
  obtain ⟨hrun, hfacts⟩ := Option.filter_eq_some_iff.1 hs
  obtain ⟨hcp, hsend, hasend, hnull, hnull'⟩ := of_decide_eq_true hfacts
  refine ⟨s, hrun, reachable_of_after hrun, ?_, ?_⟩
  · rintro ⟨p, hp, hall⟩
    obtain rfl : PDPtr.process 0 = p := Option.some.inj (hcp.symm.trans hp)
    exact hall _ hsend hnull
  · rintro ⟨p, hp, hall⟩
    obtain rfl : PDPtr.process 0 = p := Option.some.inj (hcp.symm.trans hp)
    exact hall _ hasend hnull'

/-- A task that has asked for its id, and waits for the processor, is sent a message. -/
theorem null_read_after_request :
    ∃ p ∈ ((boot 1 2).toOption.bind fun s₀ => (Run.exec (advance fun _ _ => true) s₀
          [.call (.taskCreateRR (some 3) 0), .call (.taskCreateRR (some 4) 0),
            .call .taskTerminate, .call .taskPid, .timer]).map fun s => (s₀, s)).filter fun p =>
        p.2.cp = some (.process 2) ∧ (p.2.pd (.process 1)).reqParams ≠ none,
      p.2.ReadsNoNull (.msgSend 1 1 none) := by
  refine exists_mem_of_isSome (by decide +kernel) fun p hp => ?_
  obtain ⟨hp, hfacts⟩ := Option.filter_eq_some_iff.1 hp
  obtain ⟨hcp, hset⟩ := of_decide_eq_true hfacts
  obtain ⟨s₀, hb, hp⟩ := Option.bind_eq_some_iff.1 hp
  obtain ⟨s, hrun, rfl⟩ := Option.map_eq_some_iff.1 hp
  have hb : boot 1 2 = .ok s₀ := toOption_eq_some.1 hb
  have hrun := (Run.of_exec hrun).mono fun _ _ _ hs => (advance_step hs).1
  exact (null_read_iff hb hrun hcp (by decide) (Or.inl ⟨1, none, rfl⟩)).2
    (Or.inr (Or.inr (Or.inr ((reqParams_ne_none_iff hb hrun 1).1 hset))))

end Kernel

end RoombaRtos
