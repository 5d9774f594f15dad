import RoombaRtos.Mailboxes

/-!
# Messages to processes that have ended

`Kernel_Request_Terminate` takes the messages addressed to the dying process out of the queue, with
a search for the mask `ANY`.  A message whose type byte is `0` is not found by any mask.

* `Exchange.Addressed` — every undelivered message is addressed to a live process;
* `Exchange.Addressed.call_iff` — no call but a termination can break this;
* `Kernel.purge_iff` — the runs in which terminations purge all that they should.
-/

namespace RoombaRtos

open ListQueue Lockstep

namespace Exchange

variable {x x' : Exchange} {i j : Slot} {mask : Mask} {m : Mail} {c : ApiCall}

def Addressed (x : Exchange) : Prop :=
  ∀ m ∈ x.mail, ∃ j, m.receiver = pidOf j ∧ x.phase j ≠ .dead

/-- The messages of `x'` were queued already, or are addressed to processes that live in `x`. -/
def Extends (x x' : Exchange) : Prop :=
  ∀ m ∈ x'.mail, m ∈ x.mail ∨ ∃ j, m.receiver = pidOf j ∧ x.phase j ≠ .dead

/-- The processes that live in `x` live in `x'`. -/
def Survives (x x' : Exchange) : Prop := ∀ j, x.phase j ≠ .dead → x'.phase j ≠ .dead

theorem Survives.setPhase (h : Survives x x') (i : Slot) (ph : Phase) (hph : ph ≠ .dead) :
    Survives x (x'.setPhase i ph) := by
  intro j hj hdead
  exact h j hj ((setPhase_eq_iff hph).1 hdead).2

theorem Extends.refl (x : Exchange) : Extends x x := fun _ hm => Or.inl hm

/-- A call queues only messages to live processes. -/
theorem Posted.call_extends (hx : x.Posted) (i : Slot) (c : ApiCall) : Extends x (x.call i c) := by
  have hxb : (x.begin i c).Posted := ⟨hx.sender, hx.nodup⟩
  refine serve_induction (P := Extends x) (x := x.begin i c) (.refl x) c ?_ ?_ ?_ ?_ ?_ ?_ ?_
  · exact fun w => .refl x
  · intro b
    rcases (x.begin i c).create_cases i b with he | ⟨j, -, he⟩ <;> rw [he] <;> exact .refl x
  · intro _ m hm
    exact Or.inl (List.mem_filter.1 hm).1
  · intro id t v _ m hm
    rcases (x.begin i c).send_cases i id t v with ⟨-, he⟩ | ⟨j, -, -, he⟩ | ⟨j, ht, -, he⟩
    · rw [he] at hm
      exact Or.inl hm
    · rw [he] at hm
      exact Or.inl hm
    · rw [he] at hm
      rcases List.mem_append.1 hm with hm | hm
      · exact Or.inl hm
      · rw [List.mem_singleton.1 hm]
        exact Or.inr ⟨j, target_eq_some ht⟩
  · intro mask v _ m hm
    rcases hxb.recv_cases i mask with ⟨m', j, -, -, -, he⟩ | ⟨-, he⟩
    · rw [he] at hm
      exact Or.inl (List.mem_of_mem_eraseP hm)
    · rw [he] at hm
      exact Or.inl hm
  · intro id r _
    rcases (x.begin i c).reply_cases id r with ⟨j, -, -, he⟩ | ⟨-, he⟩ <;> rw [he] <;>
      exact .refl x
  · intro id t r _
    rcases (x.begin i c).asend_cases i id t r with ⟨j, -, -, he⟩ | ⟨-, he⟩ <;> rw [he] <;>
      exact .refl x

/-- No call but a termination ends a process. -/
theorem Posted.call_survives (hx : x.Posted) (i : Slot) (hc : c ≠ .taskTerminate) :
    Survives x (x.call i c) := by
  have hxb : (x.begin i c).Posted := ⟨hx.sender, hx.nodup⟩
  have h0 : Survives x (x.begin i c) := fun _ hj => hj
  refine serve_induction h0 c ?_ ?_ ?_ ?_ ?_ ?_ ?_
  · exact fun w => h0
  · intro b
    rcases (x.begin i c).create_cases i b with he | ⟨j, -, he⟩
    · rw [he]
      exact h0
    · rw [he]
      exact h0.setPhase j .active (by simp)
  · exact fun he => absurd he hc
  · intro id t v _
    rcases (x.begin i c).send_cases i id t v with ⟨-, he⟩ | ⟨j, -, -, he⟩ | ⟨j, -, -, he⟩
    · rw [he]
      exact h0
    · rw [he]
      exact (h0.setPhase j .active (by simp)).setPhase i .replyBlock (by simp)
    · rw [he]
      exact h0.setPhase i .sendBlock (by simp)
  · intro mask v _
    rcases hxb.recv_cases i mask with ⟨m, j, -, -, -, he⟩ | ⟨-, he⟩
    · rw [he]
      exact h0.setPhase j .replyBlock (by simp)
    · rw [he]
      exact h0.setPhase i .recvBlock (by simp)
  · intro id r _
    rcases (x.begin i c).reply_cases id r with ⟨j, -, -, he⟩ | ⟨-, he⟩
    · rw [he]
      exact h0.setPhase j .active (by simp)
    · rw [he]
      exact h0
  · intro id t r _
    rcases (x.begin i c).asend_cases i id t r with ⟨j, -, -, he⟩ | ⟨-, he⟩
    · rw [he]
      exact h0.setPhase j .active (by simp)
    · rw [he]
      exact h0

/-- While every message is addressed to a live process, a call adds no other. -/
theorem Addressed.call_mail (h : x.Addressed) (hx : x.Posted) :
    ∀ m ∈ (x.call i c).mail, ∃ j, m.receiver = pidOf j ∧ x.phase j ≠ .dead :=
  fun m hm => (hx.call_extends i c m hm).elim (h m) id

/-- The search of a termination misses what has no type. -/
theorem wanted_any_iff : wanted i anyMask m = true ↔ m.receiver = pidOf i ∧ m.mask ≠ 0 := by
  rw [wanted_iff, maskTestAny_any]

/-- The messages to the dying process that its termination leaves in the queue. -/
theorem terminate_mail_eq_iff : (x.terminate i).mail = (x.mail.filter fun m =>
    m.receiver ≠ pidOf i) ↔ ∀ m ∈ x.mail, m.receiver = pidOf i → m.mask ≠ 0 := by
  have hmail : (x.terminate i).mail = x.mail.filter fun m => !wanted i anyMask m := rfl
  rw [hmail, filter_eq_filter_iff]
  refine forall₂_congr fun m _ => ?_
  have hw := wanted_any_iff (i := i) (m := m)
  by_cases hr : m.receiver = pidOf i
  · cases hwant : wanted i anyMask m <;> simp_all
  · cases hwant : wanted i anyMask m <;> simp_all

theorem Addressed.terminate_iff (h : x.Addressed) : (x.terminate i).Addressed ↔
    ∀ m ∈ x.mail, m.receiver = pidOf i → m.mask ≠ 0 := by
  have hmail : (x.terminate i).mail = x.mail.filter fun m => !wanted i anyMask m := rfl
  constructor
  · intro h' m hm hr hzero
    have hnot : wanted i anyMask m = false := by
      by_contra hwant
      exact (wanted_any_iff.1 (by simpa using hwant)).2 hzero
    obtain ⟨j, hj, hlive⟩ := h' m (by rw [hmail, List.mem_filter]; exact ⟨hm, by rw [hnot]; rfl⟩)
    obtain rfl : i = j := pidOf_injective (hr.symm.trans hj)
    rw [Exchange.terminate, setPhase_self] at hlive
    exact hlive rfl
  · intro hall m hm
    rw [hmail, List.mem_filter] at hm
    obtain ⟨j, hj, hlive⟩ := h m hm.1
    have hji : j ≠ i := by
      rintro rfl
      have hwant := wanted_any_iff.2 ⟨hj, hall m hm.1 hj⟩
      simp [hwant] at hm
    exact ⟨j, hj, by rwa [Exchange.terminate, setPhase_other hji]⟩

/-- No call but a termination can leave a message without its receiver. -/
theorem Addressed.call_iff (h : x.Addressed) (hx : x.Posted) : (x.call i c).Addressed ↔
    (c = .taskTerminate → ∀ m ∈ x.mail, m.receiver = pidOf i → m.mask ≠ 0) := by
  by_cases hc : c = .taskTerminate
  · subst hc
    have hb : (x.begin i .taskTerminate).Addressed := h
    exact (hb.terminate_iff (i := i)).trans ⟨fun hno _ => hno, fun hno => hno rfl⟩
  · refine ⟨fun _ he => absurd he hc, fun _ m hm => ?_⟩
    obtain ⟨j, hj, hlive⟩ := h.call_mail hx m hm
    exact ⟨j, hj, hx.call_survives i hc j hlive⟩

end Exchange

namespace Kernel

variable {s s' : Kernel} {a : Sched} {e : Entry} {mail : List Mail}

/-- The undelivered messages are `mail`, the oldest first. -/
def Queued (s : Kernel) (mail : List Mail) : Prop :=
  ∃ nodes, s.msgQueue.Holds s.messages nodes ∧ mail = nodes.map fun n => (s.messages n).toMail

/-- Every queued message is addressed to a live process. -/
def Addressed (s : Kernel) : Prop :=
  ∃ mail, s.Queued mail ∧ ∀ m ∈ mail, ∃ j, m.receiver = pidOf j ∧
    (s.pd (.process j)).state ≠ .dead

/-- A termination takes the messages to the dead process out of the queue, and leaves the others
in their order. -/
def PurgesReceiver (s : Kernel) (e : Entry) (s' : Kernel) : Prop :=
  e = .call .taskTerminate → ∀ i, s.cp = some (.process i) →
    ∃ mail mail', s.Queued mail ∧ s'.Queued mail' ∧
      mail' = mail.filter fun m => m.receiver ≠ pidOf i

/-- A process starts with no message addressed to it. -/
def StartsClean (s s' : Kernel) : Prop :=
  ∀ j, (s.pd (.process j)).state = .dead → (s'.pd (.process j)).state ≠ .dead →
    ∃ mail, s'.Queued mail ∧ ∀ m ∈ mail, m.receiver ≠ pidOf j

/-- A task terminates while a message of type `0` to it is queued. -/
def LeavesMail (s : Kernel) (e : Entry) : Prop :=
  e = .call .taskTerminate ∧ ∃ i mail, s.cp = some (.process i) ∧ s.Queued mail ∧
    ∃ m ∈ mail, m.receiver = pidOf i ∧ m.mask = 0

theorem Represents.queued_iff (h : s.UserMode a) : s.Queued mail ↔ mail = a.mail := by
  obtain ⟨nodes, hm⟩ := h.mail
  constructor
  · rintro ⟨nodes', hq, rfl⟩
    rw [hm.mail_eq, hm.holds.linked.unique hq.linked]
  · rintro rfl
    exact ⟨nodes, hm.holds, hm.mail_eq⟩

theorem Represents.addressed_iff (h : s.UserMode a) : s.Addressed ↔ a.exchange.Addressed := by
  simp only [Addressed, h.queued_iff, exists_eq_left, ← h.live_iff]
  rfl

theorem Represents.leavesMail_iff {i : Slot} {c : ApiCall} (h : s.UserMode a)
    (hi : a.current = .process i) : ¬ s.LeavesMail (.call c) ↔
      (c = .taskTerminate → ∀ m ∈ a.exchange.mail, m.receiver = pidOf i → m.mask ≠ 0) := by
  have hcp : ∀ j, s.cp = some (.process j) ↔ j = i := by
    intro j
    rw [h.current, hi]
    simp [eq_comm]
  simp only [LeavesMail, h.queued_iff, hcp, Entry.call.injEq]
  have hmail : a.exchange.mail = a.mail := rfl
  rw [hmail]
  simp

/-- One step from a state in which every message is addressed to a live process. -/
theorem Booted.purges_iff (h : s.Booted) (had : s.Addressed) (hs : s.Step e s') :
    (s'.Addressed ∧ PurgesReceiver s e s' ∧ StartsClean s s') ↔ ¬ s.LeavesMail e := by
  obtain ⟨a, ha, hrep⟩ := h
  obtain ⟨a', hstep, hrep'⟩ := hrep.step ha.inv hs
  have hx := hrep.addressed_iff.1 had
  have hposted := ha.inv.exchange_posted
  have hmail : a'.exchange.mail = a'.mail := rfl
  -- a new process was dead before, and nothing was addressed to it
  have hclean : (∀ m ∈ a'.mail, ∃ j, m.receiver = pidOf j ∧ a.exchange.phase j ≠ .dead) →
      StartsClean s s' := by
    intro hall j hdead _
    refine ⟨a'.mail, hrep'.queued_iff.2 rfl, fun m hm hr => ?_⟩
    obtain ⟨k, hk, hlive⟩ := hall m hm
    obtain rfl : j = k := pidOf_injective (hr.symm.trans hk)
    exact (hrep.live_iff j).1 hlive hdead
  rw [hrep'.addressed_iff]
  rcases hstep.exchange ha.inv ha.stubs with ⟨rfl, he⟩ | ⟨i, c, rfl, hi, he⟩
  · have hnot : ¬ s.LeavesMail .timer := fun hc => Entry.noConfusion hc.1
    refine iff_of_true ⟨he ▸ hx, (fun hc => Entry.noConfusion hc), hclean ?_⟩ hnot
    rw [← hmail, he]
    exact hx
  · have hpurges : PurgesReceiver s (.call c) s' ↔ (c = .taskTerminate →
        ∀ m ∈ a.exchange.mail, m.receiver = pidOf i → m.mask ≠ 0) := by
      have hcp : ∀ j, s.cp = some (.process j) ↔ i = j := by
        intro j
        rw [hrep.current, hi]
        simp
      simp only [PurgesReceiver, hrep.queued_iff, hrep'.queued_iff, hcp, Entry.call.injEq,
        exists_and_left, exists_eq_left, forall_eq']
      refine imp_congr_right fun hc => ?_
      subst hc
      rw [← hmail, he]
      exact Exchange.terminate_mail_eq_iff
    rw [hrep.leavesMail_iff hi, hpurges, he, hx.call_iff hposted]
    refine ⟨fun h => h.1, fun h => ⟨h, h, hclean ?_⟩⟩
    rw [← hmail, he]
    exact hx.call_mail hposted

/-- **The purge of a termination, exactly.**  After power-on no message is queued.  The runs in
which every termination takes exactly the messages to the dead process out of the queue, every
queued message is addressed to a live process, and every new process starts without messages, are
those in which no task terminates while a message of type `0` to it is queued. -/
theorem purge_iff (create kernelIdle : BitVec 16) :
    ∃ s₀, boot create kernelIdle = .ok s₀ ∧ s₀.Addressed ∧ ∀ es s,
      Run (fun s e s' => s.Step e s' ∧ s'.Addressed ∧ PurgesReceiver s e s' ∧ StartsClean s s')
          s₀ es s ↔
        Run (fun s e s' => s.Step e s' ∧ ¬ s.LeavesMail e) s₀ es s := by
  obtain ⟨s₀, hb, hrep⟩ := boot_represents create kernelIdle
  have hbooted : s₀.Booted := ⟨_, ⟨create, kernelIdle, [], Run.nil _⟩, hrep⟩
  have had : s₀.Addressed := by
    rw [hrep.addressed_iff, Sched.bootedSched_exchange]
    intro m hm
    cases hm
  refine ⟨s₀, hb, had, fun es s => ?_⟩
  exact Run.does_iff (I := Booted) (P := Addressed)
    (Q := fun s e s' => s'.Addressed ∧ PurgesReceiver s e s' ∧ StartsClean s s')
    (G := fun s e => ¬ s.LeavesMail e) (fun _ _ _ h hs => h.step hs) (fun _ _ _ h => h.1)
    (fun _ _ _ h hP hs => h.purges_iff hP hs) hbooted had

/-- Task 1 sends to task 2 with type `0`, and task 2 terminates: the message stays in the queue,
and the task that task 3 then creates in the table entry starts with it. -/
theorem purge_misses_type_zero :
    ∃ p ∈ (after (fun _ _ => true) 1 2 [.call (.taskCreateRR (some 3) 0),
          .call (.taskCreateRR (some 4) 0), .call (.taskCreateRR (some 5) 0),
          .call (.msgRecv 1 none), .call (.msgSend 2 0 (some 7)),
          .call .taskTerminate]).bind fun s =>
        (s.advance (fun _ _ => true) (.call (.taskCreateRR (some 6) 0))).map fun s' => (s, s'),
      (p.1.Reachable ∧ p.1.Step (.call (.taskCreateRR (some 6) 0)) p.2) ∧
        ¬ p.1.Addressed ∧ ¬ StartsClean p.1 p.2 := by
  have hex : ∃ p ∈ ((after (fun _ _ => true) 1 2 [.call (.taskCreateRR (some 3) 0),
          .call (.taskCreateRR (some 4) 0), .call (.taskCreateRR (some 5) 0),
          .call (.msgRecv 1 none), .call (.msgSend 2 0 (some 7)),
          .call .taskTerminate]).bind fun s =>
        (s.advance (fun _ _ => true) (.call (.taskCreateRR (some 6) 0))).map fun s' =>
          (s, s')).filter fun p =>
      (p.1.pd (.process 2)).state = .dead ∧ (p.2.pd (.process 2)).state ≠ .dead ∧
        (p.1.msgQueue.head = some 1 ∧ (p.1.messages 1).receiver = 2) ∧
        p.2.msgQueue.head = some 1 ∧ (p.2.messages 1).receiver = 2, True :=
    exists_mem_of_isSome (by decide +kernel) fun _ _ => trivial
  obtain ⟨p, hp, -⟩ := hex
  obtain ⟨hp, hfacts⟩ := Option.filter_eq_some_iff.1 hp
  obtain ⟨hdead, hlive, hhead, hhead'⟩ := of_decide_eq_true hfacts
  -- the head of the queue is the message to task 2
  have hqueued : ∀ (s : Kernel) (mail : List Mail), s.msgQueue.head = some 1 ∧
      (s.messages 1).receiver = 2 → s.Queued mail → ∃ m ∈ mail, m.receiver = pidOf 2 := by
    rintro s mail ⟨hh, hr⟩ ⟨nodes, hq, rfl⟩
    rw [hq.linked.head_eq] at hh
    have hmem : (1 : Slot) ∈ nodes := List.mem_of_head? hh
    exact ⟨_, List.mem_map_of_mem hmem, hr⟩
  refine ⟨p, hp, ?_, ?_, ?_⟩
  · obtain ⟨s, hs, hp⟩ := Option.bind_eq_some_iff.1 hp
    obtain ⟨s', hs', rfl⟩ := Option.map_eq_some_iff.1 hp
    exact ⟨reachable_of_after hs, (advance_step hs').1⟩
  · rintro ⟨mail, hq, hall⟩
    obtain ⟨m, hm, hr⟩ := hqueued _ mail hhead hq
    obtain ⟨j, hj, hjlive⟩ := hall m hm
    obtain rfl : (2 : Slot) = j := pidOf_injective (hr.symm.trans hj)
    exact hjlive hdead
  · intro hclean
    obtain ⟨mail, hq, hall⟩ := hclean 2 hdead hlive
    obtain ⟨m, hm, hr⟩ := hqueued _ mail hhead' hq
    exact hall m hm hr

end Kernel

end RoombaRtos
