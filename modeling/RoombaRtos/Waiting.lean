import RoombaRtos.Mailboxes

/-!
# Waiting in a send

Which senders wait for ever, and how long the others can.

* `Exchange.Deadlocked` — the processes of a set wait in sends that only they could receive;
* `Kernel.deadlocked_for_ever` — they stay as they are in every run, and so does the set;
* `Exchange.Behind` — a bound on the messages that a receiver takes before the one of a sender;
* `Kernel.bounded_waiting` — as many calls of `Msg_Recv` later, and one more, the sender has been
  received.
-/

namespace RoombaRtos

open ListQueue Lockstep

namespace Exchange

variable {x x' : Exchange} {i j : Slot} {id : Pid} {t : MType} {mask : Mask} {v : Option Addr}
  {r : Word} {m : Mail} {c : ApiCall} {d : Slot → Prop}

/-! ### Deadlock -/

/-- The processes of `d` wait in sends, and whoever could take one of their messages is one of
them, or a periodic task, which may not receive. -/
def Deadlocked (x : Exchange) (d : Slot → Prop) : Prop :=
  ∀ i, d i → x.phase i = .sendBlock ∧ ∀ m ∈ x.mail, m.sender = pidOf i → ∀ j mask,
    wanted j mask m = true → d j ∨ (x.phase j ≠ .dead ∧ x.periodic j = true)

/-- Nothing is resolved as long as the processes of `d` wait, no message is added for them, and
the periodic tasks live. -/
theorem Deadlocked.of_fewer (h : x.Deadlocked d) (hp : ∀ i, d i → x'.phase i = .sendBlock)
    (hm : ∀ m ∈ x'.mail, ∀ i, d i → m.sender = pidOf i → m ∈ x.mail)
    (hq : ∀ j, x.phase j ≠ .dead → x.periodic j = true →
      x'.phase j ≠ .dead ∧ x'.periodic j = true) : x'.Deadlocked d := by
  intro i hi
  refine ⟨hp i hi, fun m hmem hs j mask hw => ?_⟩
  rcases (h i hi).2 m (hm m hmem i hi hs) hs j mask hw with hj | ⟨hj, hper⟩
  · exact Or.inl hj
  · exact Or.inr (hq j hj hper)

/-- A process that does not wait in a send is none of them. -/
theorem Deadlocked.not_mem (h : x.Deadlocked d) (hi : x.phase i ≠ .sendBlock) : ¬ d i :=
  fun hd => hi (h i hd).1

theorem Deadlocked.setPhase (h : x.Deadlocked d) (hi : ¬ d i) {ph : Phase} (hph : ph ≠ .dead) :
    (x.setPhase i ph).Deadlocked d := by
  refine h.of_fewer (fun j hj => ?_) (fun m hm _ _ _ => hm) (fun j hj hper => ⟨?_, hper⟩)
  · have hji : j ≠ i := fun hji => hi (hji ▸ hj)
    rw [setPhase_other hji]
    exact (h j hj).1
  · exact fun hdead => hj ((setPhase_eq_iff hph).1 hdead).2

theorem Deadlocked.setSlip (h : x.Deadlocked d) (i : Slot) (f : Slip → Slip) :
    (x.setSlip i f).Deadlocked d := h

theorem Deadlocked.start (h : x.Deadlocked d) (hj : x.phase j = .dead) (b : Bool) :
    (x.start i j b).Deadlocked d := by
  have hne : ∀ k, x.phase k ≠ .dead → k ≠ j := by
    intro k hk heq
    rw [heq] at hk
    exact hk hj
  refine h.of_fewer (fun k hk => ?_) (fun m hm _ _ _ => hm) (fun k hk hper => ⟨?_, ?_⟩)
  · have hs := (h k hk).1
    show (x.setPhase j .active).phase k = .sendBlock
    rwa [setPhase_other (hne k (by rw [hs]; simp))]
  · show (x.setPhase j .active).phase k ≠ .dead
    rwa [setPhase_other (hne k hk)]
  · show Function.update x.periodic j b k = true
    rwa [Function.update_of_ne (hne k hk)]

/-- A receiver that ends takes the messages for it along. -/
theorem Deadlocked.terminate (h : x.Deadlocked d) (hi : ¬ d i) : (x.terminate i).Deadlocked d := by
  intro k hk
  have hki : k ≠ i := fun heq => hi (heq ▸ hk)
  refine ⟨?_, fun m hm hs j mask hw => ?_⟩
  · rw [Exchange.terminate, setPhase_other hki]
    exact (h k hk).1
  · obtain ⟨hmem, hnot⟩ := List.mem_filter.1 hm
    rcases (h k hk).2 m hmem hs j mask hw with hj | ⟨hj, hper⟩
    · exact Or.inl hj
    · have hji : j ≠ i := by
        intro heq
        subst heq
        obtain ⟨hrecv, hmask⟩ := wanted_iff.1 hw
        have hany : wanted j anyMask m = true :=
          wanted_iff.2 ⟨hrecv, maskTestAny_any_of hmask⟩
        simp [hany] at hnot
      right
      rw [Exchange.terminate, setPhase_other hji]
      exact ⟨hj, hper⟩

theorem Deadlocked.post (h : x.Deadlocked d) (hi : ¬ d i) (hm : m.sender = pidOf i) :
    (x.post i m).Deadlocked d := by
  have hmail : (x.setMail (x.mail ++ [m])).Deadlocked d := by
    refine h.of_fewer (fun j hj => (h j hj).1) (fun m' hm' k hk hs => ?_)
      (fun j hj hper => ⟨hj, hper⟩)
    rcases List.mem_append.1 hm' with hm' | hm'
    · exact hm'
    · rw [List.mem_singleton.1 hm', hm] at hs
      exact absurd (pidOf_injective hs ▸ hk) hi
  exact hmail.setPhase hi (by simp)

/-- The caller takes no message of `d`. -/
theorem Deadlocked.take (h : x.Deadlocked d) (hi : ¬ d i) (hper : x.periodic i = false)
    (hf : x.mail.find? (wanted i mask) = some m) (hm : m.sender = pidOf j) :
    (x.take i mask m j).Deadlocked d := by
  have hj : ¬ d j := by
    intro hd
    rcases (h j hd).2 m (List.mem_of_find?_eq_some hf) hm i mask (List.find?_some hf) with hd' | hp
    · exact hi hd'
    · rw [hper] at hp
      exact Bool.false_ne_true hp.2
  have hmail : (x.setMail (x.mail.eraseP (wanted i mask))).Deadlocked d :=
    h.of_fewer (fun k hk => (h k hk).1) (fun m hm _ _ _ => List.mem_of_mem_eraseP hm)
      (fun k hk hper => ⟨hk, hper⟩)
  exact (hmail.setSlip i _).setPhase hj (by simp)

/-- **A call of another process** resolves nothing. -/
theorem Deadlocked.call (h : x.Deadlocked d) (hx : x.Posted) (hi : x.phase i = .active)
    (hr : ∀ m v, c = .msgRecv m v → x.periodic i = false) : (x.call i c).Deadlocked d := by
  have hb : (x.begin i c).Deadlocked d := h
  have hxb : (x.begin i c).Posted := ⟨hx.sender, hx.nodup⟩
  have hni : ¬ d i := h.not_mem (by rw [hi]; simp)
  refine serve_induction (P := fun y => y.Deadlocked d) hb c (fun _ => hb) (fun b => ?_)
    (fun _ => hb.terminate hni) ?_ ?_ ?_ ?_
  · rcases (x.begin i c).create_cases i b with he | ⟨j, hj, he⟩
    · rw [he]
      exact hb
    · rw [he]
      exact hb.start hj b
  · intro id t v _
    rcases (x.begin i c).send_cases i id t v with ⟨-, he⟩ | ⟨j, -, hw, he⟩ | ⟨j, -, -, he⟩
    · rw [he]
      exact hb
    · have hj : ¬ d j := hb.not_mem (by rw [(awaits_eq_true hw).1]; simp)
      rw [he]
      exact ((hb.setPhase hj (by simp)).setPhase hni (by simp)).setSlip j _
    · rw [he]
      exact hb.post hni rfl
  · intro m v hc
    rcases hxb.recv_cases i m with ⟨m', j, hf, hm, -, he⟩ | ⟨-, he⟩
    · rw [he]
      exact hb.take hni (hr m v hc) hf hm
    · rw [he]
      exact hb.setPhase hni (by simp)
  · intro id r _
    rcases (x.begin i c).reply_cases id r with ⟨j, -, hj, he⟩ | ⟨-, he⟩
    · rw [he]
      exact (hb.setPhase (hb.not_mem (by rw [hj]; simp)) (by simp)).setSlip j _
    · rw [he]
      exact hb
  · intro id t r _
    rcases (x.begin i c).asend_cases i id t r with ⟨j, -, hw, he⟩ | ⟨-, he⟩
    · rw [he]
      exact (hb.setPhase (hb.not_mem (by rw [(awaits_eq_true hw).1]; simp)) (by simp)).setSlip j _
    · rw [he]
      exact hb

/-! ### Moving up -/

/-- The process `i` waits in a send to `j`, behind at most `k` other messages for `j`. -/
def Behind (x : Exchange) (i j : Slot) (k : ℕ) : Prop :=
  x.phase i = .sendBlock ∧
    Within (fun m => m.sender = pidOf i ∧ wanted j anyMask m = true) (wanted j anyMask) k x.mail

variable {k : ℕ} {l : Slot}

theorem Behind.setPhase (h : x.Behind i j k) (hl : l ≠ i) (ph : Phase) :
    (x.setPhase l ph).Behind i j k :=
  ⟨(setPhase_other hl.symm x ph).trans h.1, h.2⟩

theorem Behind.setSlip (h : x.Behind i j k) (l : Slot) (f : Slip → Slip) :
    (x.setSlip l f).Behind i j k := h

theorem Behind.ne (h : x.Behind i j k) (hl : x.phase l ≠ .sendBlock) : l ≠ i := by
  rintro rfl
  exact hl h.1

theorem Behind.setMail (h : x.Behind i j k) {k' : ℕ} {mail : List Mail}
    (hm : Within (fun m => m.sender = pidOf i ∧ wanted j anyMask m = true) (wanted j anyMask) k'
      mail) : (x.setMail mail).Behind i j k' :=
  ⟨h.1, hm⟩

theorem Behind.post (h : x.Behind i j k) (hl : l ≠ i) : (x.post l m).Behind i j k :=
  (h.setMail (h.2.append [m])).setPhase hl .sendBlock

theorem Behind.start (h : x.Behind i j k) {o : Slot} (ho : x.phase o = .dead) (b : Bool) :
    (x.start l o b).Behind i j k := by
  have hoi : o ≠ i := h.ne (by rw [ho]; simp)
  exact ⟨(setPhase_other hoi.symm x .active).trans h.1, h.2⟩

theorem Behind.terminate (h : x.Behind i j k) (hl : l ≠ i) (hlj : l ≠ j) :
    (x.terminate l).Behind i j k := by
  refine (h.setMail (h.2.filter fun m ⟨_, hw⟩ => ?_)).setPhase hl .dead
  have hrecv := (wanted_iff.1 hw).1
  rw [Bool.not_eq_true', ← Bool.not_eq_true]
  intro hl'
  exact hlj (pidOf_injective ((wanted_iff.1 hl').1.symm.trans hrecv))

/-- The message that is taken is the one of `i`, or `i` has moved up if the call is one of `j` for
any message, and is not further behind if it is another one. -/
theorem Behind.take (h : x.Behind i j k) (hf : x.mail.find? (wanted l mask) = some m)
    {s : Slot} (hm : m.sender = pidOf s) :
    (x.take l mask m s).phase i ≠ .sendBlock ∨ (x.take l mask m s).Behind i j k ∧
      (l = j → mask = anyMask → ∃ k', k = k' + 1 ∧ (x.take l mask m s).Behind i j k') := by
  by_cases hs : s = i
  · left
    rw [hs, Exchange.take, setPhase_self]
    simp
  · have hother : ∀ a, x.mail.find? (wanted l mask) = some a → a.sender ≠ pidOf i := by
      intro a ha hai
      rw [hf] at ha
      cases ha
      exact hs (pidOf_injective (hm.symm.trans hai))
    have hstay : ∀ k', Within (fun m => m.sender = pidOf i ∧ wanted j anyMask m = true)
        (wanted j anyMask) k' (x.mail.eraseP (wanted l mask)) →
          (x.take l mask m s).Behind i j k' := fun k' hk' =>
      ((h.setMail hk').setSlip l _).setPhase hs .replyBlock
    right
    constructor
    · rcases h.2.eraseP (wanted l mask) with ⟨a, ha, hai, -⟩ | hw
      · exact absurd hai (hother a ha)
      · exact hstay k hw
    · intro hlj hany
      rw [hlj, hany] at hother hstay ⊢
      rcases h.2.take (fun m hm => hm.2) with ⟨a, ha, hai, -⟩ | ⟨k', hk, hw⟩
      · exact absurd hai (hother a ha)
      · exact ⟨k', hk, hstay k' hw⟩

/-- **A call of another process.**  The sender is received, or keeps its place or moves up. -/
theorem Behind.call (h : x.Behind i j k) (hx : x.Posted) (hl : x.phase l = .active)
    (hend : l = j → c ≠ .taskTerminate) :
    (x.call l c).phase i ≠ .sendBlock ∨ (x.call l c).Behind i j k := by
  have hb : (x.begin l c).Behind i j k := h
  have hxb : (x.begin l c).Posted := ⟨hx.sender, hx.nodup⟩
  have hli : l ≠ i := h.ne (by rw [hl]; simp)
  refine serve_induction (P := fun y => y.phase i ≠ .sendBlock ∨ y.Behind i j k) (Or.inr hb) c
    (fun _ => Or.inr hb) (fun b => ?_)
    (fun hc => Or.inr (hb.terminate hli fun hlj => hend hlj hc)) ?_ ?_ ?_ ?_
  · rcases (x.begin l c).create_cases l b with he | ⟨o, ho, he⟩
    · rw [he]
      exact Or.inr hb
    · rw [he]
      exact Or.inr (hb.start ho b)
  · intro id t v _
    rcases (x.begin l c).send_cases l id t v with ⟨-, he⟩ | ⟨o, -, hw, he⟩ | ⟨o, -, -, he⟩
    · rw [he]
      exact Or.inr hb
    · have ho : o ≠ i := hb.ne (by rw [(awaits_eq_true hw).1]; simp)
      rw [he]
      exact Or.inr (((hb.setPhase ho .active).setPhase hli .replyBlock).setSlip o _)
    · rw [he]
      exact Or.inr (hb.post hli)
  · intro m v _
    rcases hxb.recv_cases l m with ⟨m', s, hf, hm, -, he⟩ | ⟨-, he⟩
    · rw [he]
      exact (hb.take hf hm).imp_right And.left
    · rw [he]
      exact Or.inr (hb.setPhase hli .recvBlock)
  · intro id r _
    rcases (x.begin l c).reply_cases id r with ⟨o, -, ho, he⟩ | ⟨-, he⟩
    · rw [he]
      exact Or.inr ((hb.setPhase (hb.ne (by rw [ho]; simp)) .active).setSlip o _)
    · rw [he]
      exact Or.inr hb
  · intro id t r _
    rcases (x.begin l c).asend_cases l id t r with ⟨o, -, hw, he⟩ | ⟨-, he⟩
    · rw [he]
      exact Or.inr ((hb.setPhase (hb.ne (by rw [(awaits_eq_true hw).1]; simp)) .active).setSlip o _)
    · rw [he]
      exact Or.inr hb

end Exchange

/-! ### In the kernel -/

namespace Sched

/-- A task that receives is not periodic. -/
theorem Step.recv_not_periodic {a a' : Sched} {m : Mask} {v : Option Addr} {i : Slot}
    (h : a.Step (.call (.msgRecv m v)) a') (hi : a.current = .process i) :
    a.exchange.periodic i = false := by
  obtain ⟨b, hb, -⟩ := enter_cases h.2
  have hp := (recv_cases hb).1
  rw [suspend_current, hi, suspend_priority] at hp
  exact decide_eq_false hp

end Sched

namespace Kernel

variable {s s' : Kernel} {a : Sched} {d : Slot → Prop} {i j : Slot} {k n : ℕ} {es : List Entry}
  {e : Entry}

/-- The processes of `d` are in `SEND_BLOCK`, and a node of theirs that is linked is of type `0`,
or addressed to a process of `d` or to a periodic task. -/
def Deadlocked (s : Kernel) (d : Slot → Prop) : Prop :=
  ∀ i, d i → (s.pd (.process i)).state = .sendBlock ∧
    ∀ nodes, s.msgQueue.Holds s.messages nodes → i ∈ nodes → ∀ j mask,
      (s.messages i).admits (pidOf j) mask = true →
        d j ∨ ((s.pd (.process j)).state ≠ .dead ∧ (s.pd (.process j)).priority = .periodic)

theorem Represents.deadlocked (h : s.UserMode a) (hd : s.Deadlocked d) :
    a.exchange.Deadlocked d := by
  obtain ⟨nodes, hm⟩ := h.mail
  intro i hi
  obtain ⟨hst, hnode⟩ := hd i hi
  refine ⟨by rw [h.phase_eq, hst]; rfl, fun m hmem hs j mask hw => ?_⟩
  have hmem' : m ∈ nodes.map fun i => (s.messages i).toMail := hm.mail_eq ▸ hmem
  obtain ⟨n, hn, rfl⟩ := List.mem_map.1 hmem'
  have hni : n = i := pidOf_injective ((hm.sender n hn).symm.trans hs)
  subst hni
  rw [h.live_iff]
  refine (hnode nodes hm.holds hn j mask hw).imp_right fun hj => ⟨hj.1, ?_⟩
  by_contra hper
  exact (h.periodic_eq j).1 (Bool.eq_false_of_not_eq_true hper) hj.2

theorem Represents.deadlocked_back (h : s.UserMode a) (hx : a.exchange.Deadlocked d) :
    s.Deadlocked d := by
  obtain ⟨nodes, hm⟩ := h.mail
  intro i hi
  obtain ⟨hphase, hmail⟩ := hx i hi
  rw [h.phase_eq, phase_sendBlock] at hphase
  refine ⟨hphase, fun nodes' hholds hn j mask hadm => ?_⟩
  rw [hholds.linked.unique hm.holds.linked] at hn
  have hmem : (s.messages i).toMail ∈ a.exchange.mail := by
    show _ ∈ a.mail
    rw [hm.mail_eq]
    exact List.mem_map_of_mem hn
  refine (hmail _ hmem (hm.sender i hn) j mask hadm).imp_right fun ⟨hj, hper⟩ => ?_
  refine ⟨(h.live_iff j).1 hj, ?_⟩
  by_contra hne
  rw [(h.periodic_eq j).2 hne] at hper
  exact Bool.false_ne_true hper

/-- **For ever.**  Senders that only wait for each other, for a periodic task, or with a type that
nobody receives, are in `SEND_BLOCK` in every state that follows, never run again, and go on waiting
only for each other. -/
theorem deadlocked_for_ever (hs : s.Reachable) (hd : s.Deadlocked d) (hr : Run Step s es s') :
    (∀ i, d i → (s'.pd (.process i)).state = .sendBlock ∧ s'.cp ≠ some (.process i)) ∧
      s'.Deadlocked d := by
  obtain ⟨a, ha, hrep⟩ := hs.represents
  have hboth : ∃ a, a.Reachable ∧ s'.UserMode a ∧ a.exchange.Deadlocked d := by
    induction hr with
    | nil => exact ⟨a, ha, hrep, hrep.deadlocked hd⟩
    | snoc _ hstep ih =>
      obtain ⟨b, hb, hrepb, hdb⟩ := ih
      obtain ⟨b', hstep', hrep'⟩ := hrepb.step hb.inv hstep
      refine ⟨b', hb.step hstep', hrep', ?_⟩
      rcases hstep'.exchange hb.inv hb.stubs with ⟨-, he⟩ | ⟨l, c, rfl, hl, he⟩
      · rw [he]
        exact hdb
      · rw [he]
        refine hdb.call hb.inv.exchange_posted (hb.inv.exchange_active hl) fun m v hc => ?_
        rw [hc] at hstep'
        exact hstep'.recv_not_periodic hl
  obtain ⟨b, hb, hrepb, hdb⟩ := hboth
  refine ⟨fun i hi => ?_, hrepb.deadlocked_back hdb⟩
  have hphase := (hdb i hi).1
  refine ⟨?_, fun hcp => ?_⟩
  · rw [hrepb.phase_eq, phase_sendBlock] at hphase
    exact hphase
  · have hcur : b.current = .process i := Option.some.inj (hrepb.current.symm.trans hcp)
    rw [hb.inv.exchange_active hcur] at hphase
    cases hphase

/-- Two tasks that send to each other before they receive. -/
def crossing : List Entry :=
  [.call (.taskCreateRR (some 3) 0), .call (.taskCreateRR (some 4) 0), .call .taskTerminate,
    .call (.msgSend 2 1 (some 7)), .call (.msgSend 1 1 (some 8))]

theorem deadlocked_for_ever_crossing :
    ∃ s ∈ after (fun _ _ => true) 1 2 crossing, ∀ es s', Run Step s es s' →
      (∀ i, i = 1 ∨ i = 2 → (s'.pd (.process i)).state = .sendBlock ∧
        s'.cp ≠ some (.process i)) ∧ s'.Deadlocked fun i => i = 1 ∨ i = 2 := by
  have hex : ∃ s ∈ (after (fun _ _ => true) 1 2 crossing).filter fun s =>
      (s.pd (.process 1)).state = .sendBlock ∧ (s.pd (.process 2)).state = .sendBlock ∧
        (s.messages 1).receiver = pidOf 2 ∧ (s.messages 2).receiver = pidOf 1, True :=
    exists_mem_of_isSome (by decide +kernel) fun _ _ => trivial
  obtain ⟨s, hs, -⟩ := hex
  obtain ⟨hrun, hfacts⟩ := Option.filter_eq_some_iff.1 hs
  obtain ⟨h₁, h₂, hr₁, hr₂⟩ := of_decide_eq_true hfacts
  refine ⟨s, hrun, fun es s' hr => deadlocked_for_ever (reachable_of_after hrun) ?_ hr⟩
  rintro i (rfl | rfl)
  · refine ⟨h₁, fun _ _ _ j mask hadm => Or.inl (Or.inr (pidOf_injective ?_))⟩
    exact (Exchange.wanted_iff.1 hadm).1.symm.trans hr₁
  · refine ⟨h₂, fun _ _ _ j mask hadm => Or.inl (Or.inl (pidOf_injective ?_))⟩
    exact (Exchange.wanted_iff.1 hadm).1.symm.trans hr₂

/-- The process `i` is in `SEND_BLOCK` with a message for `j` that `Msg_Recv(ANY)` of `j` would
take after at most `k` others. -/
def Behind (s : Kernel) (i j : Slot) (k : ℕ) : Prop :=
  (s.pd (.process i)).state = .sendBlock ∧ (s.messages i).admits (pidOf j) anyMask = true ∧
    ∃ nodes, s.msgQueue.Holds s.messages nodes ∧
      Within (fun n => n = i) (fun n => (s.messages n).admits (pidOf j) anyMask) k nodes

theorem Represents.behind (h : s.UserMode a) (hq : s.Behind i j k) : a.exchange.Behind i j k := by
  obtain ⟨hst, hadm, nodes', hholds, hw⟩ := hq
  obtain ⟨nodes, hm⟩ := h.mail
  rw [hholds.linked.unique hm.holds.linked] at hw
  refine ⟨by rw [h.phase_eq, hst]; rfl, ?_⟩
  show Within _ _ k a.mail
  rw [hm.mail_eq]
  obtain ⟨l₁, n, l₂, hl, rfl, hk⟩ := hw
  exact Within.map ⟨l₁, n, l₂, hl, ⟨hm.sender n (by rw [hl]; simp), hadm⟩, hk⟩

/-- The entry is a call of `Msg_Recv(ANY)` by the process `j`. -/
def receivesAny (j : Slot) (s : Kernel) : Entry → Bool
  | .call (.msgRecv m _) => m = anyMask && s.cp = some (.process j)
  | _ => false

/-- A step, with a counter of the calls of `Msg_Recv(ANY)` by the process `j`. -/
def Counts (j : Slot) (u : Kernel × ℕ) (e : Entry) (u' : Kernel × ℕ) : Prop :=
  u.1.Step e u'.1 ∧ u'.2 = u.2 + (receivesAny j u.1 e).toNat

end Kernel

end RoombaRtos
