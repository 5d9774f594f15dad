import RoombaRtos.Preemption

/-!
# Replies to asynchronous messages

An asynchronous sender does not wait for a reply, but its receiver is told its id.

* `Exchange.Posted.call_bystander` — a call leaves the parameter blocks of the other active
  processes alone;
* `Sched.Step.reply_wakes` — a reply to a process that waits for one wakes it;
* `Kernel.async_reply_iff` — when a reply to an asynchronous message harms nobody.
-/

namespace RoombaRtos

open Lockstep

/-! ### What the receiver is told -/

namespace Exchange

variable {x : Exchange} {i j : Slot} {c : ApiCall}

/-- A call leaves the other active processes active, and their parameter blocks as they are. -/
theorem Posted.call_bystander (hx : x.Posted) (hji : j ≠ i) (hi : x.phase i = .active)
    (hj : x.phase j = .active) :
    (x.call i c).phase j = .active ∧ (x.call i c).slip j = x.slip j := by
  refine ⟨(hx.call_active_iff hji hi).2 (Or.inl hj), ?_⟩
  set y := x.begin i c with hy
  have hyx : y.slip j = x.slip j := setSlip_other hji x _
  have hposted : y.Posted := ⟨hx.sender, hx.nodup⟩
  have hne : ∀ k ph, y.phase k = ph → ph ≠ .active → j ≠ k := by
    rintro k ph hk hph rfl
    exact hph (hk.symm.trans hj)
  show (y.serve i c).slip j = x.slip j
  rw [← hyx]
  refine serve_induction (P := fun z => z.slip j = y.slip j) rfl c ?_ ?_ ?_ ?_ ?_ ?_ ?_
  · intro w
    exact setSlip_other hji y _
  · intro b
    rcases y.create_cases i b with he | ⟨k, -, he⟩
    · rw [he]
    · rw [he]
      exact Function.update_of_ne hji _ _
  · intro _
    rfl
  · intro id t v _
    rcases y.send_cases i id t v with ⟨-, he⟩ | ⟨k, -, hw, he⟩ | ⟨k, -, -, he⟩
    · rw [he]
    · rw [he]
      exact setSlip_other (hne k _ (awaits_eq_true hw).1 (by simp)) _ _
    · rw [he]
      rfl
  · intro m v _
    rcases hposted.recv_cases i m with ⟨m', k, -, -, -, he⟩ | ⟨-, he⟩
    · rw [he]
      exact Function.update_of_ne hji _ _
    · rw [he]
      rfl
  · intro id r _
    rcases y.reply_cases id r with ⟨k, -, hk, he⟩ | ⟨-, he⟩
    · rw [he]
      exact setSlip_other (hne k _ hk (by simp)) _ _
    · rw [he]
  · intro id t r _
    rcases y.asend_cases i id t r with ⟨k, -, hw, he⟩ | ⟨-, he⟩
    · rw [he]
      exact setSlip_other (hne k _ (awaits_eq_true hw).1 (by simp)) _ _
    · rw [he]

/-- The receiver of an asynchronous message is active then, and is told the id of the sender. -/
theorem call_asend_told {id : Pid} {t : MType} {w : Word} (hi : x.phase i = .active)
    (ht : x.target id = some j) (hw : x.awaits j t = true) :
    (x.call i (.msgASend id t w)).phase j = .active ∧
      ((x.call i (.msgASend id t w)).slip j).outPid = pidOf i := by
  set y := x.begin i (.msgASend id t w) with hy
  have hw' : y.awaits j t = true := (begin_awaits hi j t).trans hw
  have he : x.call i (.msgASend id t w) = y.notify i j w := by
    rcases y.asend_cases i id t w with ⟨k, hk, -, he⟩ | ⟨hno, -⟩
    · obtain rfl : j = k := Option.some.inj (ht.symm.trans hk)
      exact he
    · exact absurd hw' (by simp [hno j ht])
  rw [he]
  refine ⟨setPhase_self _ _ _, ?_⟩
  rw [notify, setSlip_self]

end Exchange

namespace Sched

variable {a a' c : Sched} {s s' : Kernel} {e : Entry} {i j x : Slot} {id : Pid} {w : Word}
  {d : Bool}

/-- A process that was told the id `id`, and has made no call since. -/
structure Told (a : Sched) (j : Slot) (id : Pid) : Prop where
  active : a.exchange.phase j = .active
  outPid : (a.exchange.slip j).outPid = id

theorem Told.step (h : a.Told j id) (hs : a.Step e a') (ha : a.Inv) (hst : a.Stubs)
    (hquiet : a.current = .process j → e = .timer) : a'.Told j id := by
  rcases hs.exchange ha hst with ⟨-, hx⟩ | ⟨i, c, rfl, hi, hx⟩
  · exact ⟨by rw [hx, h.active], by rw [hx, h.outPid]⟩
  · have hji : j ≠ i := by
      rintro rfl
      cases hquiet hi
    obtain ⟨hact, hslip⟩ :=
      ha.exchange_posted.call_bystander (c := c) hji (ha.exchange_active hi) h.active
    rw [← hx] at hact hslip
    exact ⟨hact, by rw [hslip, h.outPid]⟩

/-! ### A reply that nobody waits for -/

/-- The handler of a reply does nothing if the process it is addressed to does not wait. -/
theorem Inv.handled_reply (ha : a.Inv) (hst : a.Stubs) (hi : a.current = .process i)
    (h : a.handled (.call (.msgRply id w)) = .ok (c, d))
    (hx : ∀ x, validId id = some x → (a.task (.process x)).state ≠ .replyBlock) :
    c = (a.suspend (.call (.msgRply id w))).1 := by
  have hsv : (a.suspend (.call (.msgRply id w))).1.Serving i (.msgRply id w) := ha.serving hst hi
  set b := (a.suspend (.call (.msgRply id w))).1 with hb
  have hr : (a.suspend (.call (.msgRply id w))).2 = .stub (.process i) := congrArg InfoPtr.stub hi
  have h : b.handle (.stub (.process i)) .msgRply = .ok (c, d) := by
    rw [← hr]
    exact h
  have hnone : ∀ x, b.target (.stub (.process i)) = some x →
      (b.task (.process x)).state ≠ .replyBlock := by
    intro x ht
    rw [Sched.target, Option.filter_eq_some_iff, hsv.info] at ht
    by_cases hxi : PDPtr.process x = a.current
    · obtain ⟨params, htask⟩ := a.suspend_task_current (.call (.msgRply id w))
      rw [hxi, htask]
      simp
    · rw [hb, a.suspend_task_of_ne _ hxi]
      exact hx x ht.1
  rw [handle] at h
  split_ifs at h
  cases ht : b.target (.stub (.process i)) with
  | none =>
    rw [ht] at h
    exact (congrArg Prod.fst (Except.ok.inj h)).symm
  | some x =>
    rw [ht] at h
    dsimp only at h
    rw [if_neg (hnone x ht)] at h
    exact (congrArg Prod.fst (Except.ok.inj h)).symm

/-- The other processes are as before, but that one of them may have been given the processor. -/
structure Undisturbed (a : Sched) (p : PDPtr) (a' : Sched) : Prop where
  task : ∀ x : Slot, .process x ≠ p → a'.task (.process x) = a.task (.process x) ∨
    (a.task (.process x)).state = .ready ∧ a'.current = .process x ∧
      a'.task (.process x) = { a.task (.process x) with state := .running }
  info : ∀ x : Slot, .process x ≠ p →
    a'.info (.stub (.process x)) = a.info (.stub (.process x))

/-- Suspending the current task touches no parameter block of another process. -/
theorem suspend_info_other {r : InfoPtr PDPtr} (hr : r ≠ (a.suspend e).2) :
    (a.suspend e).1.info r = a.info r := by
  cases e with
  | timer => exact Function.update_of_ne hr _ _
  | call c => exact Function.update_of_ne hr _ _

/-- A handler that does nothing disturbs nobody, whether it dispatches or not. -/
theorem Step.undisturbed (hs : a.Step e a') (ha : a.Inv)
    (hc : ∀ c d, a.handled e = .ok (c, d) → c = (a.suspend e).1) :
    a.Undisturbed a.current a' := by
  obtain ⟨c, d, b, hhandled, rfl, hd⟩ := enter_parts hs.2
  have hsame : ∀ x : Slot, .process x ≠ a.current → c.task (.process x) = a.task (.process x) := by
    intro x hx
    rw [hc c d hhandled, a.suspend_task_of_ne e hx]
  have hother : ∀ x : Slot, .process x ≠ a.current →
      InfoPtr.stub (.process x) ≠ (a.suspend e).2 := by
    intro x hx
    cases e with
    | timer => simp [suspend]
    | call api => exact fun he => hx (InfoPtr.stub.inj he)
  have hinfo : ∀ x : Slot, .process x ≠ a.current →
      c.info (.stub (.process x)) = a.info (.stub (.process x)) := by
    intro x hx
    rw [hc c d hhandled, suspend_info_other (hother x hx)]
  rcases hd with ⟨rfl, hd⟩ | ⟨rfl, rfl⟩
  · obtain ⟨p, hp, hcur, ht, -, hi⟩ := (Dispatches.handling hhandled ha hs.1).dispatch_frame hd
    refine ⟨fun x hx => ?_, fun x hx => ?_⟩
    · rw [setInfo_task, setInfo_current, ht]
      by_cases hxp : PDPtr.process x = p
      · subst hxp
        have hready := ready_iff.1 (hp.resolve_left (by simp))
        rw [hsame x hx] at hready
        rw [setState_task, Function.update_self, hsame x hx]
        exact Or.inr ⟨hready, hcur, rfl⟩
      · rw [setState_other hxp, hsame x hx]
        exact Or.inl rfl
    · rw [← hinfo x hx, ← hi]
      exact Function.update_of_ne (hother x hx) _ _
  · refine ⟨fun x hx => Or.inl (hsame x hx), fun x hx => ?_⟩
    rw [← hinfo x hx]
    exact Function.update_of_ne (hother x hx) _ _

/-- A reply to a process that waits for one wakes it. -/
theorem Step.reply_wakes (hs : a.Step (.call (.msgRply id w)) a') (ha : a.Inv) (hst : a.Stubs)
    (hi : a.current = .process i) (hv : validId id = some x)
    (hx : (a.task (.process x)).state = .replyBlock) : x ≠ i ∧ a'.exchange.phase x = .active := by
  have hphase : a.exchange.phase x = .replyBlock := by
    show (a.task (.process x)).state.phase = .replyBlock
    rw [hx]
    rfl
  have hxi : x ≠ i := by
    rintro rfl
    rw [ha.exchange_active hi] at hphase
    cases hphase
  refine ⟨hxi, ?_⟩
  rcases hs.exchange ha hst with ⟨he, -⟩ | ⟨i', c, he, hi', hx'⟩
  · cases he
  · cases he
    obtain rfl : i' = i := PDPtr.process.inj (hi'.symm.trans hi)
    have ht : a.exchange.target id = some x :=
      Exchange.target_eq_some_iff.2 ⟨hv, by simp [hphase]⟩
    rw [hx', ha.exchange_posted.call_active_iff hxi (ha.exchange_active hi)]
    exact Or.inr ⟨ht, hphase⟩

end Sched

namespace Kernel

variable {s s' s₀ s₁ s₂ s₃ s₄ : Kernel} {a a' : Sched} {es es' : List Entry} {i r : Slot}
  {t : MType} {v w : Word} {id : Pid}

/-- The processes other than `p` are as before, with their requests, but that one of those that
were ready may have been given the processor. -/
structure Undisturbed (s : Kernel) (p : PDPtr) (s' : Kernel) : Prop where
  state : ∀ x : Slot, .process x ≠ p → (s'.pd (.process x)).state = (s.pd (.process x)).state ∨
    (s.pd (.process x)).state = .ready ∧ s'.cp = some (.process x)
  params : ∀ x : Slot, .process x ≠ p →
    (s'.pd (.process x)).reqParams = (s.pd (.process x)).reqParams ∧
      s'.info (.stub (.process x)) = s.info (.stub (.process x))

theorem Represents.undisturbed {p : PDPtr} (h : s.UserMode a) (h' : s'.UserMode a')
    (hund : a.Undisturbed p a') : s.Undisturbed p s' := by
  refine ⟨fun x hx => ?_, fun x hx => ⟨?_, ?_⟩⟩
  · rw [h.state, h'.state, h'.current]
    rcases hund.task x hx with he | ⟨hready, hcur, -⟩
    · exact Or.inl (by rw [he])
    · exact Or.inr ⟨hready, by rw [hcur]⟩
  · rw [h.reqParams, h'.reqParams]
    rcases hund.task x hx with he | ⟨-, -, he⟩
    · rw [he]
    · rw [he]
  · rw [h.info, h'.info, hund.info x hx]

/-- **A reply, exactly**: it disturbs nobody if the process it is addressed to does not wait for a
reply, and only then. -/
theorem Represents.reply_undisturbed_iff (h : s.UserMode a) (h' : s'.UserMode a')
    (hs : a.Step (.call (.msgRply id w)) a') (ha : a.Inv) (hst : a.Stubs)
    (hi : a.current = .process i) : s.Undisturbed (.process i) s' ↔
      ∀ x, validId id = some x → (s.pd (.process x)).state ≠ .replyBlock := by
  constructor
  · intro hund x hv hx
    rw [h.state] at hx
    obtain ⟨hxi, hactive⟩ := hs.reply_wakes ha hst hi hv hx
    have hstate := Sched.phase_eq_active.1 hactive
    have hx' := hund.state x (by simpa using hxi)
    rw [h.state, h'.state, hx] at hx'
    rcases hx' with he | ⟨he, -⟩
    · rw [he] at hstate
      rcases hstate with h | h <;> cases h
    · cases he
  · intro hx
    refine h.undisturbed h' ?_
    rw [← hi]
    refine hs.undisturbed ha fun c d hc => ha.handled_reply hst hi hc fun x hv => ?_
    rw [← h.state]
    exact hx x hv

/-- The process `p` makes no call. -/
def QuietStep (p : PDPtr) (s : Kernel) (e : Entry) (s' : Kernel) : Prop :=
  s.Step e s' ∧ (s.cp = some p → e = .timer)

/-- What the process was told is still in its parameter block when it goes on. -/
theorem Represents.told_run (h : s₁.UserMode a) (ha : a.Reachable) (ht : a.Told r id)
    (hrun : Run (QuietStep (.process r)) s₁ es s₂) :
    ∃ a', s₂.UserMode a' ∧ a'.Reachable ∧ a'.Told r id :=
  hrun.invariant (P := fun s => ∃ a, s.UserMode a ∧ a.Reachable ∧ a.Told r id) ⟨a, h, ha, ht⟩
    fun _ _ _ ⟨a, hrep, ha, ht⟩ hs => by
      obtain ⟨a', hs', hrep'⟩ := hrep.step ha.inv hs.1
      refine ⟨a', hrep', ha.step hs', ht.step hs' ha.inv ha.stubs fun hc => hs.2 ?_⟩
      rw [hrep.current, hc]

/-- **Replies to asynchronous messages, exactly.**  Let the process `i` send an asynchronous
message to `r`, which waits for it, and let `id` be what the stub of `r` returns, at any time before
`r` makes its next call.  Whatever has happened in between, a reply of `r` to `id` disturbs nobody
exactly if the process in the table entry `i` is not waiting for a reply then. -/
theorem async_reply_iff (h : s₀.Reachable) (hcp : s₀.cp = some (.process i))
    (hw : s₀.awaits (.process r) t = true)
    (hsend : s₀.Step (.call (.msgASend (pidOf r) t v)) s₁)
    (hwait : Run (QuietStep (.process r)) s₁ es s₂)
    (hid : (s₂.info (.stub (.process r))).outPid = id)
    (hrun : Run Step s₂ es' s₃) (hcp' : s₃.cp = some (.process r))
    (hreply : s₃.Step (.call (.msgRply id w)) s₄) :
    s₃.Undisturbed (.process r) s₄ ↔ (s₃.pd (.process i)).state ≠ .replyBlock := by
  obtain ⟨a₀, ha₀, hrep₀⟩ := h.represents
  obtain ⟨a₁, hstep₁, hrep₁⟩ := hrep₀.step ha₀.inv hsend
  have hi : a₀.current = .process i := Option.some.inj (hrep₀.current.symm.trans hcp)
  -- the receiver is told the id of the sender
  have htold : a₁.Told r (pidOf i) := by
    have hactive := ha₀.inv.exchange_active hi
    rw [hrep₀.awaits_eq, Sched.Serving.awaits_eq ha₀.stubs] at hw
    have ht : a₀.exchange.target (pidOf r) = some r := by
      rw [Exchange.target_eq_some_iff, (Exchange.awaits_eq_true hw).1]
      exact ⟨validId_pidOf r, by simp⟩
    obtain ⟨hphase, hout⟩ := Exchange.call_asend_told (w := v) hactive ht hw
    rcases hstep₁.exchange ha₀.inv ha₀.stubs with ⟨he, -⟩ | ⟨i', c, he, hi', hx⟩
    · cases he
    · cases he
      obtain rfl : i' = i := PDPtr.process.inj (hi'.symm.trans hi)
      exact ⟨by rw [hx, hphase], by rw [hx, hout]⟩
  obtain ⟨a₂, hrep₂, hreach₂, htold₂⟩ := hrep₁.told_run (ha₀.step hstep₁) htold hwait
  obtain rfl : pidOf i = id := by
    rw [← hid, hrep₂.info, ← htold₂.outPid]
    rfl
  obtain ⟨a₃, ha₃, hrep₃⟩ : s₃.Booted :=
    hrun.invariant ⟨a₂, hreach₂, hrep₂⟩ fun _ _ _ h hs => h.step hs
  obtain ⟨a₄, hstep₄, hrep₄⟩ := hrep₃.step ha₃.inv hreply
  have hr : a₃.current = .process r := Option.some.inj (hrep₃.current.symm.trans hcp')
  rw [hrep₃.reply_undisturbed_iff hrep₄ hstep₄ ha₃.inv ha₃.stubs hr, validId_pidOf]
  simp

/-- Three round-robin tasks, the first of which waits for a message. -/
def receiverWaits : List Entry :=
  [.call (.taskCreateRR (some 3) 0), .call (.taskCreateRR (some 4) 0),
    .call (.taskCreateRR (some 5) 0), .call .taskTerminate, .call (.msgRecv 1 none)]

/-- The receiver replies at once. -/
theorem async_reply_at_once :
    ∃ p ∈ ((after (fun _ _ => true) 1 2 receiverWaits).bind fun s₀ =>
          (s₀.advance (fun _ _ => true) (.call (.msgASend 1 1 7))).bind fun s₁ =>
            (s₁.advance (fun _ _ => true) (.call (.msgRecv 2 none))).bind fun s₂ =>
              (s₂.advance (fun _ _ => true) (.call (.msgRply 2 9))).map fun s₃ =>
                (s₀, s₁, s₂, s₃)).filter fun p =>
        (p.1.cp = some (.process 2) ∧ p.1.awaits (.process 1) 1 = true) ∧
          p.2.1.cp ≠ some (.process 1) ∧
          p.2.2.1.cp = some (.process 1) ∧ (p.2.2.1.info (.stub (.process 1))).outPid = 2 ∧
          (p.2.2.1.pd (.process 2)).state ≠ .replyBlock,
      p.2.2.1.Undisturbed (.process 1) p.2.2.2 := by
  refine exists_mem_of_isSome (by decide +kernel) fun p hp => ?_
  obtain ⟨hp, hfacts⟩ := Option.filter_eq_some_iff.1 hp
  obtain ⟨⟨hcp, hw⟩, hquiet, hcp', hid, hstate⟩ := of_decide_eq_true hfacts
  obtain ⟨s₀, hs₀, hp⟩ := Option.bind_eq_some_iff.1 hp
  obtain ⟨s₁, hs₁, hp⟩ := Option.bind_eq_some_iff.1 hp
  obtain ⟨s₂, hs₂, hp⟩ := Option.bind_eq_some_iff.1 hp
  obtain ⟨s₃, hs₃, rfl⟩ := Option.map_eq_some_iff.1 hp
  exact (async_reply_iff (r := 1) (reachable_of_after hs₀) hcp hw (advance_step hs₁).1
    (Run.single ⟨(advance_step hs₂).1, fun h => absurd h hquiet⟩) hid (Run.nil _) hcp'
    (advance_step hs₃).1).2 hstate

/-- Task 2 sends an asynchronous message to task 1 and then a message to task 3, which receives it.
The reply of task 1 to its asynchronous message goes to task 2, before task 3 has replied. -/
theorem async_reply_forges_reply :
    ∃ s₀ s₁ s₂ s₃ s₄ : Kernel, after (fun _ _ => true) 1 2 receiverWaits = some s₀ ∧
      (s₀.cp = some (.process 2) ∧ s₀.awaits (.process 1) 1 = true) ∧
      s₀.Step (.call (.msgASend 1 1 7)) s₁ ∧
      Run (QuietStep (.process 1)) s₁ [.call (.msgRecv 2 none)] s₂ ∧
      (s₂.cp = some (.process 1) ∧ (s₂.info (.stub (.process 1))).outPid = 2) ∧
      Run Step s₂ [.timer, .call (.msgSend 3 2 (some 5)), .timer] s₃ ∧
      s₃.cp = some (.process 1) ∧ s₃.Step (.call (.msgRply 2 9)) s₄ ∧
      ¬ s₃.Undisturbed (.process 1) s₄ := by
  have hex : ∃ p ∈ ((after (fun _ _ => true) 1 2 receiverWaits).bind fun s₀ =>
        (s₀.advance (fun _ _ => true) (.call (.msgASend 1 1 7))).bind fun s₁ =>
          (s₁.advance (fun _ _ => true) (.call (.msgRecv 2 none))).bind fun s₂ =>
            (Run.exec (advance fun _ _ => true) s₂
              [.timer, .call (.msgSend 3 2 (some 5)), .timer]).bind fun s₃ =>
                (s₃.advance (fun _ _ => true) (.call (.msgRply 2 9))).map fun s₄ =>
                  (s₀, s₁, s₂, s₃, s₄)).filter fun p =>
      (p.1.cp = some (.process 2) ∧ p.1.awaits (.process 1) 1 = true) ∧
        p.2.1.cp ≠ some (.process 1) ∧
        (p.2.2.1.cp = some (.process 1) ∧ (p.2.2.1.info (.stub (.process 1))).outPid = 2) ∧
        p.2.2.2.1.cp = some (.process 1) ∧ (p.2.2.2.1.pd (.process 2)).state = .replyBlock ∧
        (p.2.2.2.2.pd (.process 2)).state = .running, True :=
    exists_mem_of_isSome (by decide +kernel) fun _ _ => trivial
  obtain ⟨p, hp, -⟩ := hex
  obtain ⟨hp, hfacts⟩ := Option.filter_eq_some_iff.1 hp
  obtain ⟨hsender, hquiet, hreceiver, hcp, hwaits, hwoken⟩ := of_decide_eq_true hfacts
  obtain ⟨s₀, hs₀, hp⟩ := Option.bind_eq_some_iff.1 hp
  obtain ⟨s₁, hs₁, hp⟩ := Option.bind_eq_some_iff.1 hp
  obtain ⟨s₂, hs₂, hp⟩ := Option.bind_eq_some_iff.1 hp
  obtain ⟨s₃, hs₃, hp⟩ := Option.bind_eq_some_iff.1 hp
  obtain ⟨s₄, hs₄, rfl⟩ := Option.map_eq_some_iff.1 hp
  refine ⟨s₀, s₁, s₂, s₃, s₄, hs₀, hsender, (advance_step hs₁).1,
    Run.single ⟨(advance_step hs₂).1, fun h => absurd h hquiet⟩, hreceiver,
    (Run.of_exec hs₃).mono fun _ _ _ hs => (advance_step hs).1, hcp, (advance_step hs₄).1,
    fun hund => ?_⟩
  rcases hund.state 2 (by simp) with he | ⟨hready, -⟩
  · rw [hwoken, hwaits] at he
    cases he
  · rw [hwaits] at hready
    cases hready

end Kernel

end RoombaRtos
