import RoombaRtos.Exchange

/-!
# Outgoing mailboxes

How the states of the processes and the message queue fit together.

* `Exchange.Silent` — no undelivered message is one that a waiting receiver admits;
* `no_lost_wake_up` — hence no receiver sleeps with its message queued, and the node of a sender
  is free when it is enqueued;
* `Exchange.Outbox`, `Exchange.Takeable` — a process is in `SEND_BLOCK` exactly if its message
  is queued, and that message can be received;
* `outbox_iff_no_purge` — these hold in all states of a run exactly if no step of it terminates
  a task that has messages, or blocks a sender with type `0` or on a periodic task.
-/

namespace RoombaRtos

open ListQueue Lockstep

namespace Exchange

variable {x x' : Exchange} {i j : Slot} {id : Pid} {t : MType} {mask : Mask} {v : Option Addr}
  {r : Word} {m : Mail} {c : ApiCall}

/-! ### No lost wake-up -/

/-- A waiting receiver has no message to take. -/
def Silent (x : Exchange) : Prop :=
  ∀ j, x.phase j = .recvBlock → ∀ m ∈ x.mail, wanted j (x.slip j).msgMask m = false

/-- Nothing is lost when no process starts to wait and no message is added. -/
theorem Silent.of_fewer (h : x.Silent)
    (hp : ∀ j, x'.phase j = .recvBlock → x.phase j = .recvBlock ∧
      (x'.slip j).msgMask = (x.slip j).msgMask)
    (hm : ∀ m ∈ x'.mail, m ∈ x.mail) : x'.Silent := by
  intro j hj m hmem
  obtain ⟨hph, hmask⟩ := hp j hj
  rw [hmask]
  exact h j hph m (hm m hmem)

theorem Silent.setPhase (h : x.Silent) (i : Slot) (ph : Phase) (hph : ph ≠ .recvBlock) :
    (x.setPhase i ph).Silent := by
  refine h.of_fewer (fun j hj => ⟨?_, rfl⟩) (fun m hm => hm)
  exact ((setPhase_eq_iff hph).1 hj).2

theorem Silent.setSlip (h : x.Silent) {f : Slip → Slip} (hf : ∀ q, (f q).msgMask = q.msgMask) :
    (x.setSlip i f).Silent := by
  refine h.of_fewer (fun j hj => ⟨hj, ?_⟩) (fun m hm => hm)
  by_cases hji : j = i
  · subst hji
    rw [setSlip_self, hf]
  · rw [setSlip_other hji]

theorem Silent.setMail (h : x.Silent) {l : List Mail} (hl : ∀ m ∈ l, m ∈ x.mail) :
    (x.setMail l).Silent :=
  h.of_fewer (fun _ hj => ⟨hj, rfl⟩) hl

theorem Silent.begin (h : x.Silent) (hi : x.phase i = .active) (c : ApiCall) :
    (x.begin i c).Silent := by
  refine h.of_fewer (fun j hj => ?_) (fun m hm => hm)
  have hji : j ≠ i := by
    intro heq
    subst heq
    have hj' : x.phase j = .recvBlock := hj
    rw [hi] at hj'
    cases hj'
  exact ⟨hj, by rw [Exchange.begin, setSlip_other hji]⟩

/-- A message is only queued when its addressee does not wait for it. -/
theorem Silent.post (h : x.Silent) (ht : x.target id = some j) (hw : x.awaits j t = false) :
    (x.post i (letter i id t v)).Silent := by
  refine Silent.setPhase ?_ i .sendBlock (by simp)
  intro k hk m hm
  rcases List.mem_append.1 hm with hm | hm
  · exact h k hk m hm
  · rw [List.mem_singleton.1 hm]
    by_contra hwant
    obtain ⟨hrecv, hmask⟩ := wanted_iff.1 (by simpa using hwant)
    have hkj : k = j := pidOf_injective (hrecv.symm.trans (target_eq_some ht).1)
    subst hkj
    have hk' : x.phase k = .recvBlock := hk
    have hmask' : maskTestAny (x.slip k).msgMask t = true := hmask
    simp [awaits, hk', hmask'] at hw

theorem Silent.send (h : x.Silent) : (x.send i id t v).Silent := by
  rcases x.send_cases i id t v with ⟨-, he⟩ | ⟨j, -, -, he⟩ | ⟨j, ht, hw, he⟩
  · rw [he]
    exact h
  · rw [he]
    exact Silent.setSlip
      ((h.setPhase j .active (by simp)).setPhase i .replyBlock (by simp)) fun _ => rfl
  · rw [he]
    exact h.post ht hw

/-- A receiver only waits when there is nothing for it. -/
theorem Silent.recv (h : x.Silent) (hx : x.Posted) (hi : (x.slip i).msgMask = mask) :
    (x.recv i mask).Silent := by
  rcases hx.recv_cases i mask with ⟨m, j, -, -, -, he⟩ | ⟨hf, he⟩
  · rw [he]
    have hm : (x.setMail (x.mail.eraseP (wanted i mask))).Silent :=
      h.setMail fun m hm => List.mem_of_mem_eraseP hm
    have hs : ((x.setMail (x.mail.eraseP (wanted i mask))).setSlip i fun q =>
        { q with msgPtrData := m.data, outPid := m.sender }).Silent :=
      Silent.setSlip hm fun _ => rfl
    exact hs.setPhase j .replyBlock (by simp)
  · rw [he]
    intro k hk m hm
    by_cases hki : k = i
    · subst hki
      show wanted k (x.slip k).msgMask m = false
      rw [hi]
      simpa using List.find?_eq_none.1 hf m hm
    · rw [setPhase_other hki] at hk
      exact h k hk m hm

theorem Silent.call (h : x.Silent) (hx : x.Posted) (hi : x.phase i = .active) :
    (x.call i c).Silent := by
  have hb := h.begin hi c
  have hxb : (x.begin i c).Posted := ⟨hx.sender, hx.nodup⟩
  refine serve_induction hb c ?_ ?_ ?_ ?_ ?_ ?_ ?_
  · exact fun w => Silent.setSlip hb fun _ => rfl
  · intro b
    rcases (x.begin i c).create_cases i b with he | ⟨j, -, he⟩
    · rw [he]
      exact hb
    · rw [he]
      have hs : (((x.begin i c).setPhase j .active).setSlip i fun q =>
          { q with outPid := pidOf j }).Silent :=
        Silent.setSlip (hb.setPhase j .active (by simp)) fun _ => rfl
      exact hs
  · exact fun _ => (hb.setMail fun m hm => List.mem_of_mem_filter hm).setPhase i .dead
      (by simp)
  · exact fun _ _ _ _ => hb.send
  · rintro m v rfl
    exact hb.recv hxb (by rw [Exchange.begin, setSlip_self]; rfl)
  · intro id r _
    rcases (x.begin i c).reply_cases id r with ⟨j, -, -, he⟩ | ⟨-, he⟩
    · rw [he]
      exact Silent.setSlip (hb.setPhase j .active (by simp)) fun _ => rfl
    · rw [he]
      exact hb
  · intro id t r _
    rcases (x.begin i c).asend_cases i id t r with ⟨j, -, -, he⟩ | ⟨-, he⟩
    · rw [he]
      exact Silent.setSlip (hb.setPhase j .active (by simp)) fun _ => rfl
    · rw [he]
      exact hb

/-! ### Senders and their messages -/

/-- Every process that waits in a send has its message queued. -/
def Outbox (x : Exchange) : Prop :=
  ∀ j, x.phase j = .sendBlock → ∃ m ∈ x.mail, m.sender = pidOf j

/-- Nothing is broken when no process starts to wait in a send and the messages of those that
do stay. -/
theorem Outbox.of_more (h : x.Outbox)
    (hp : ∀ j, x'.phase j = .sendBlock → x.phase j = .sendBlock ∧
      ∀ m ∈ x.mail, m.sender = pidOf j → m ∈ x'.mail) : x'.Outbox := by
  intro j hj
  obtain ⟨hph, hm⟩ := hp j hj
  obtain ⟨m, hmem, hs⟩ := h j hph
  exact ⟨m, hm m hmem hs, hs⟩

theorem Outbox.setPhase (h : x.Outbox) (i : Slot) (ph : Phase) (hph : ph ≠ .sendBlock) :
    (x.setPhase i ph).Outbox := by
  refine h.of_more fun j hj => ?_
  exact ⟨((setPhase_eq_iff hph).1 hj).2, fun m hm _ => hm⟩

theorem Outbox.setSlip (h : x.Outbox) (i : Slot) (f : Slip → Slip) : (x.setSlip i f).Outbox := h

theorem Outbox.post (h : x.Outbox) (hm : m.sender = pidOf i) : (x.post i m).Outbox := by
  intro j hj
  by_cases hji : j = i
  · subst hji
    exact ⟨m, List.mem_append_right _ (List.mem_singleton_self m), hm⟩
  · have hj' : x.phase j = .sendBlock := by
      rw [Exchange.post, setPhase_other hji] at hj
      exact hj
    obtain ⟨m', hm', hs⟩ := h j hj'
    exact ⟨m', List.mem_append_left _ hm', hs⟩

theorem Outbox.take (h : x.Outbox) (hf : x.mail.find? (wanted i mask) = some m)
    (hm : m.sender = pidOf j) : (x.take i mask m j).Outbox := by
  refine h.of_more fun k hk => ?_
  rw [Exchange.take, setPhase_eq_iff (by simp)] at hk
  obtain ⟨hkj, hk⟩ := hk
  refine ⟨hk, fun m' hm' hs => mem_eraseP_of_ne hf hm' ?_⟩
  intro heq
  subst heq
  exact hkj (pidOf_injective (hs.symm.trans hm))

/-- A termination that discards a message breaks the invariant: its sender waits on. -/
theorem Outbox.terminate_iff (h : x.Outbox) (hx : x.Posted) (hi : x.phase i = .active) :
    (x.terminate i).Outbox ↔ ∀ m ∈ x.mail, wanted i anyMask m = false := by
  have hmail : (x.terminate i).mail = x.mail.filter fun m => !wanted i anyMask m := rfl
  constructor
  · intro h' m hm
    by_contra hwant
    obtain ⟨j, hj, hph⟩ := hx.sender m hm
    have hji : j ≠ i := by
      intro heq
      subst heq
      rw [hi] at hph
      cases hph
    have hph' : (x.terminate i).phase j = .sendBlock := by
      rw [Exchange.terminate, setPhase_other hji]
      exact hph
    obtain ⟨m', hm', hs⟩ := h' j hph'
    rw [hmail, List.mem_filter] at hm'
    -- the sender has one message only, and it is gone
    have hmm : m' = m := List.inj_on_of_nodup_map hx.nodup hm'.1 hm (hs.trans hj.symm)
    rw [hmm] at hm'
    exact hwant (by simpa using hm'.2)
  · intro hno
    refine h.of_more fun j hj => ?_
    rw [Exchange.terminate, setPhase_eq_iff (by simp)] at hj
    refine ⟨hj.2, fun m hm _ => ?_⟩
    rw [hmail, List.mem_filter]
    exact ⟨hm, by rw [hno m hm]; rfl⟩

/-- No call but a termination can break the invariant. -/
theorem Outbox.call_iff (h : x.Outbox) (hx : x.Posted) (hi : x.phase i = .active) :
    (x.call i c).Outbox ↔ (c = .taskTerminate → ∀ m ∈ x.mail, wanted i anyMask m = false) := by
  have hb : (x.begin i c).Outbox := h
  have hxb : (x.begin i c).Posted := ⟨hx.sender, hx.nodup⟩
  by_cases hc : c = .taskTerminate
  · subst hc
    rw [Exchange.call]
    exact (hb.terminate_iff hxb hi).trans ⟨fun hno _ => hno, fun hno => hno rfl⟩
  · refine ⟨fun _ he => absurd he hc, fun _ => ?_⟩
    refine serve_induction hb c ?_ ?_ ?_ ?_ ?_ ?_ ?_
    · exact fun w => hb.setSlip _ _
    · intro b
      rcases (x.begin i c).create_cases i b with he | ⟨j, -, he⟩
      · rw [he]
        exact hb
      · rw [he]
        exact hb.setPhase j .active (by simp)
    · exact fun he => absurd he hc
    · intro id t v _
      rcases (x.begin i c).send_cases i id t v with ⟨-, he⟩ | ⟨j, -, -, he⟩ | ⟨j, -, -, he⟩
      · rw [he]
        exact hb
      · rw [he]
        exact ((hb.setPhase j .active (by simp)).setPhase
          i .replyBlock (by simp)).setSlip _ _
      · rw [he]
        exact hb.post rfl
    · intro m v _
      rcases hxb.recv_cases i m with ⟨m', j, hf, hm, -, he⟩ | ⟨-, he⟩
      · rw [he]
        exact hb.take hf hm
      · rw [he]
        exact hb.setPhase i .recvBlock (by simp)
    · intro id r _
      rcases (x.begin i c).reply_cases id r with ⟨j, -, -, he⟩ | ⟨-, he⟩
      · rw [he]
        exact (hb.setPhase j .active (by simp)).setSlip _ _
      · rw [he]
        exact hb
    · intro id t r _
      rcases (x.begin i c).asend_cases i id t r with ⟨j, -, -, he⟩ | ⟨-, he⟩
      · rw [he]
        exact (hb.setPhase j .active (by simp)).setSlip _ _
      · rw [he]
        exact hb

/-! ### Messages that can be received -/

/-- For every queued message there is a live process that is not periodic, and a mask with which
its `Msg_Recv` would take the message.  Whether that process ever calls it is another matter. -/
def Takeable (x : Exchange) : Prop :=
  ∀ m ∈ x.mail, ∃ j mask, x.phase j ≠ .dead ∧ x.periodic j = false ∧ wanted j mask m = true

theorem Takeable.of_fewer (h : x.Takeable)
    (hp : ∀ j, x.phase j ≠ .dead → x'.phase j ≠ .dead ∧ x'.periodic j = x.periodic j)
    (hm : ∀ m ∈ x'.mail, m ∈ x.mail) : x'.Takeable := by
  intro m hmem
  obtain ⟨j, mask, hph, hper, hw⟩ := h m (hm m hmem)
  obtain ⟨hph', hper'⟩ := hp j hph
  exact ⟨j, mask, hph', hper'.trans hper, hw⟩

theorem Takeable.setPhase (h : x.Takeable) (i : Slot) (ph : Phase) (hph : ph ≠ .dead) :
    (x.setPhase i ph).Takeable := by
  refine h.of_fewer (fun j hj => ⟨?_, rfl⟩) (fun m hm => hm)
  exact fun hdead => hj ((setPhase_eq_iff hph).1 hdead).2

theorem Takeable.setSlip (h : x.Takeable) (i : Slot) (f : Slip → Slip) :
    (x.setSlip i f).Takeable := h

theorem Takeable.setMail (h : x.Takeable) {l : List Mail} (hl : ∀ m ∈ l, m ∈ x.mail) :
    (x.setMail l).Takeable :=
  h.of_fewer (fun _ hj => ⟨hj, rfl⟩) hl

theorem Takeable.start (h : x.Takeable) (hj : x.phase j = .dead) (b : Bool) :
    (x.start i j b).Takeable := by
  refine h.of_fewer (fun k hk => ?_) (fun m hm => hm)
  have hkj : k ≠ j := by
    intro heq
    subst heq
    exact hk hj
  refine ⟨?_, Function.update_of_ne hkj _ _⟩
  show (x.setPhase j .active).phase k ≠ .dead
  rwa [setPhase_other hkj]

/-- The messages for a process go with it, those that nobody could take excepted. -/
theorem Takeable.terminate (h : x.Takeable) (i : Slot) : (x.terminate i).Takeable := by
  intro m hm
  obtain ⟨hmem, hnot⟩ := List.mem_filter.1 hm
  obtain ⟨j, mask, hph, hper, hw⟩ := h m hmem
  refine ⟨j, mask, ?_, hper, hw⟩
  have hji : j ≠ i := by
    intro heq
    subst heq
    obtain ⟨hrecv, hmask⟩ := wanted_iff.1 hw
    have hany : wanted j anyMask m = true :=
      wanted_iff.2 ⟨hrecv, maskTestAny_any_of hmask⟩
    simp [hany] at hnot
  rw [Exchange.terminate, setPhase_other hji]
  exact hph

/-- A message that is queued can be taken exactly if it has a type and an addressee that may
receive. -/
theorem Takeable.post_iff (h : x.Takeable) (ht : x.target id = some j) :
    (x.post i (letter i id t v)).Takeable ↔ t ≠ 0 ∧ x.periodic j = false := by
  obtain ⟨hid, hlive⟩ := target_eq_some ht
  constructor
  · intro h'
    obtain ⟨k, mask, -, hper, hw⟩ := h' (letter i id t v) (List.mem_append_right _ (by simp))
    obtain ⟨hrecv, hmask⟩ := wanted_iff.1 hw
    have hkj : k = j := pidOf_injective (hrecv.symm.trans hid)
    exact ⟨ne_zero_of_maskTestAny hmask, hkj ▸ hper⟩
  · intro ⟨ht0, hper⟩
    refine Takeable.setPhase ?_ i .sendBlock (by simp)
    intro m hm
    rcases List.mem_append.1 hm with hm | hm
    · exact h m hm
    · rw [List.mem_singleton.1 hm]
      exact ⟨j, anyMask, hlive, hper, wanted_iff.2 ⟨hid, maskTestAny_any.2 ht0⟩⟩

/-- A `Msg_Send` with a type, to a process that may receive. -/
def Receivable (x : Exchange) (c : ApiCall) : Prop :=
  ∀ id t v, c = .msgSend id t v → ∀ j, x.target id = some j → t ≠ 0 ∧ x.periodic j = false

/-- No call but a `Msg_Send` can queue a message that nobody can take. -/
theorem Takeable.call_iff (h : x.Takeable) (hx : x.Posted)
    (hw : ∀ j, x.phase j = .recvBlock → x.periodic j = false) :
    (x.call i c).Takeable ↔ x.Receivable c := by
  have hb : (x.begin i c).Takeable := h
  have hxb : (x.begin i c).Posted := ⟨hx.sender, hx.nodup⟩
  by_cases hc : ∃ id t v, c = .msgSend id t v
  · obtain ⟨id, t, v, rfl⟩ := hc
    have htarget : (x.begin i (.msgSend id t v)).target id = x.target id := rfl
    have hiff : x.Receivable (.msgSend id t v) ↔
        ∀ j, x.target id = some j → t ≠ 0 ∧ x.periodic j = false := by
      refine ⟨fun hr => hr id t v rfl, fun hr id' t' v' he => ?_⟩
      cases he
      exact hr
    rw [hiff]
    show ((x.begin i (.msgSend id t v)).send i id t v).Takeable ↔ _
    rcases (x.begin i (.msgSend id t v)).send_cases i id t v with
      ⟨ht, he⟩ | ⟨j, ht, hwait, he⟩ | ⟨j, ht, -, he⟩
    · rw [he, ← htarget, ht]
      refine ⟨fun _ j hj => ?_, fun _ => hb⟩
      cases hj
    · -- the message was handed over, so it had a type and a receiver
      obtain ⟨hph, hmask⟩ := awaits_eq_true hwait
      rw [he, ← htarget, ht]
      refine ⟨fun _ k hk => ?_, fun _ => ?_⟩
      · cases hk
        exact ⟨ne_zero_of_maskTestAny hmask, hw j hph⟩
      · exact ((hb.setPhase j .active (by simp)).setPhase i
          .replyBlock (by simp)).setSlip _ _
    · rw [he, hb.post_iff ht, ← htarget, ht]
      refine ⟨fun hr k hk => ?_, fun hr => hr j rfl⟩
      cases hk
      exact hr
  · refine ⟨fun _ id t v he => absurd ⟨id, t, v, he⟩ hc, fun _ => ?_⟩
    refine serve_induction hb c ?_ ?_ ?_ ?_ ?_ ?_ ?_
    · exact fun w => hb.setSlip _ _
    · intro b
      rcases (x.begin i c).create_cases i b with he | ⟨j, hj, he⟩
      · rw [he]
        exact hb
      · rw [he]
        exact hb.start hj b
    · exact fun _ => hb.terminate i
    · exact fun id t v he => absurd ⟨id, t, v, he⟩ hc
    · intro m v _
      rcases hxb.recv_cases i m with ⟨m', j, -, -, -, he⟩ | ⟨-, he⟩
      · rw [he]
        have hm : ((x.begin i c).setMail ((x.begin i c).mail.eraseP (wanted i m))).Takeable :=
          hb.setMail fun m' hm' => List.mem_of_mem_eraseP hm'
        exact (hm.setSlip i fun q =>
          { q with msgPtrData := m'.data, outPid := m'.sender }).setPhase
            j .replyBlock (by simp)
      · rw [he]
        exact hb.setPhase i .recvBlock (by simp)
    · intro id r _
      rcases (x.begin i c).reply_cases id r with ⟨j, -, -, he⟩ | ⟨-, he⟩
      · rw [he]
        exact (hb.setPhase j .active (by simp)).setSlip _ _
      · rw [he]
        exact hb
    · intro id t r _
      rcases (x.begin i c).asend_cases i id t r with ⟨j, -, -, he⟩ | ⟨-, he⟩
      · rw [he]
        exact (hb.setPhase j .active (by simp)).setSlip _ _
      · rw [he]
        exact hb

end Exchange

theorem Sched.Reachable.silent {a : Sched} (h : a.Reachable) : a.exchange.Silent :=
  h.exchange_induction (fun _ _ _ hm => by cases hm) fun _ _ _ hx hi hP => hP.call hx hi

namespace Kernel

variable {s s' : Kernel} {a : Sched} {i : Slot} {c : ApiCall} {e : Entry}

/-- The state in which the handler of the call `c` of process `p` starts. -/
def handling (s : Kernel) (p : PDPtr) (c : ApiCall) : Kernel :=
  let t := { s.setInfo (.stub p) fun _ => c.params with requestInfo := some (.stub p) }
  (t.setTask p fun d => { d with reqParams := some (.stub p) }).setState p .ready

/-- A call enters the handler of its request in that state. -/
theorem enter_call (c : ApiCall) {p : PDPtr} (hactive : s.kernelActive = true)
    (hcp : s.cp = some p) :
    s.enter (.call c) = (do
      let s ← (s.handling p c).requestHandler p (.stub p) c.params.request
      s.leaveKernel) := by
  set t := { s.setInfo (.stub p) fun _ => c.params with requestInfo := some (.stub p) }.setTask p
    fun d => { d with reqParams := some (.stub p) } with ht
  have hinfo : ((t.setState p .ready).info (.stub p)).request = c.params.request := by
    show (Function.update s.info (.stub p) c.params (.stub p)).request = _
    rw [Function.update_self]
  have hreq : t.requestInfo = some (.stub p) := rfl
  have hcp' : t.cp = some p := hcp
  show s.kernelRequest c.params = _
  rw [kernelRequest, if_pos hactive, hcp]
  show t.serveRequest = _
  rw [serveRequest, hreq, hcp']
  simp only [hinfo]
  rfl

/-- The sender of a queued message is in `SEND_BLOCK`, and every other node is unlinked. -/
theorem Represents.node_free (h : s.UserMode a) (ha : a.Inv) (hi : a.current = .process i) :
    ∃ nodes, s.msgQueue.Holds s.messages nodes ∧ i ∉ nodes ∧ (s.messages i).next = none := by
  obtain ⟨nodes, hm⟩ := h.mail
  have hnode : i ∉ nodes := by
    intro hmem
    obtain ⟨m, hmail, hs⟩ := hm.mem_nodes.1 hmem
    have hst : (a.task (.process i)).state ≠ .sendBlock := by
      rw [← hi]
      rcases ha.active with hs | hs <;> simp [hs]
    exact ha.posted.no_mail hst m hmail hs
  exact ⟨nodes, hm.holds, hnode, hm.unlinked i hnode⟩

theorem Represents.silent (h : s.UserMode a) (ha : a.Reachable)
    (hi : (s.pd (.process i)).state = .recvBlock) :
    ∃ mask nodes, s.recvMask (.process i) = some mask ∧
      s.msgQueue.Holds s.messages nodes ∧ ∀ n ∈ nodes, (s.messages n).receiver = pidOf i →
        maskTestAny mask (s.messages n).mask = false := by
  rw [h.state] at hi
  obtain ⟨nodes, hm⟩ := h.mail
  have hparams := ha.stubs i (by rw [hi]; rfl)
  refine ⟨(s.info (.stub (.process i))).msgMask, nodes, ?_, hm.holds, ?_⟩
  · rw [recvMask, h.reqParams, hparams]
    rfl
  · intro n hn hrecv
    have hphase : a.exchange.phase i = .recvBlock := by
      show (a.task (.process i)).state.phase = .recvBlock
      rw [hi]
      rfl
    have hmem : (s.messages n).toMail ∈ a.mail := by
      rw [hm.mail_eq]
      exact List.mem_map_of_mem hn
    have hnot := ha.silent i hphase _ hmem
    have hmask : a.exchange.slip i = (s.info (.stub (.process i))).slip := by
      rw [h.info]
      rfl
    rw [Exchange.wanted, Mail.admits, hrecv, hmask] at hnot
    show maskTestAny (s.info (.stub (.process i))).slip.msgMask (s.messages n).mask = false
    simpa using hnot

/-- **No lost wake-up and no double linking.**  No receiver sleeps while the queue holds a
message for it that its mask admits.  And when the handler of a `Msg_Send` starts, the node of
the caller, whatever message is then written to it, is neither linked nor followed by another. -/
theorem no_lost_wake_up (h : s.Reachable) :
    (∀ i, (s.pd (.process i)).state = .recvBlock →
      ∃ mask nodes, s.recvMask (.process i) = some mask ∧
        s.msgQueue.Holds s.messages nodes ∧ ∀ n ∈ nodes, (s.messages n).receiver = pidOf i →
          maskTestAny mask (s.messages n).mask = false) ∧
    ∀ p id t v, s.cp = some p → p ≠ .idleProcess →
      ∃ i nodes, p = .process i ∧
        s.enter (.call (.msgSend id t v)) = (do
          let s ← (s.handling p (.msgSend id t v)).kernelRequestMsgSend p (.stub p)
          s.leaveKernel) ∧
        validId ((s.handling p (.msgSend id t v)).pd p).processId = some i ∧
        ∀ m : Mail,
          let messages := Function.update (s.handling p (.msgSend id t v)).messages i
            { (s.handling p (.msgSend id t v)).messages i with toMail := m }
          (s.handling p (.msgSend id t v)).msgQueue.Holds messages nodes ∧ i ∉ nodes ∧
            (messages i).next = none := by
  obtain ⟨a, ha, hrep⟩ := h.represents
  refine ⟨fun i hi => hrep.silent ha hi, ?_⟩
  intro p id t v hcp hidle
  have hcur : a.current = p := Option.some.inj (hrep.current.symm.trans hcp)
  obtain ⟨i, rfl⟩ : ∃ i, p = .process i := by
    cases p with
    | process i => exact ⟨i, rfl⟩
    | idleProcess => exact absurd rfl hidle
  obtain ⟨nodes, hq, hi, hn⟩ := hrep.node_free ha.inv hcur
  refine ⟨i, nodes, rfl, enter_call _ (congrArg Prod.snd hrep.control) hcp, ?_, ?_⟩
  · have hpid : ((s.handling (.process i) (.msgSend id t v)).pd (.process i)).processId =
        (s.pd (.process i)).processId := by
      simp [handling, setState, setTask, setInfo]
    have hlive : (a.task (.process i)).state ≠ .dead := hcur ▸ ha.inv.current_live
    rw [hpid, hrep.processId, ha.inv.levels.pid i hlive, validId_pidOf]
  · intro m messages
    have hsame : ∀ n ∈ nodes, (messages n).next = (s.messages n).next := by
      intro n hmem
      have hni : n ≠ i := fun he => hi (he ▸ hmem)
      show (Function.update s.messages i _ n).next = _
      rw [Function.update_of_ne hni]
    refine ⟨hq.congr hsame, hi, ?_⟩
    show (Function.update s.messages i _ i).next = none
    rw [Function.update_self]
    exact hn

/-- The setup task waits for type `1` behind a queued message of type `2`, and the second
round-robin task runs. -/
theorem no_lost_wake_up_behind_a_message :
    ∃ s ∈ (after (fun _ _ => true) 1 2 [.call (.taskCreateRR (some 3) 0),
        .call (.taskCreateRR (some 4) 0), .call (.msgRecv 1 none),
        .call (.msgSend 0 2 (some 7))]).filter fun s =>
          (s.pd (.process 0)).state = .recvBlock ∧ s.msgQueue.length = 1 ∧
            s.cp = some (.process 2),
      (∃ mask nodes, s.recvMask (.process 0) = some mask ∧
        s.msgQueue.Holds s.messages nodes ∧ ∀ n ∈ nodes, (s.messages n).receiver = pidOf 0 →
          maskTestAny mask (s.messages n).mask = false) ∧
      ∃ i nodes, PDPtr.process 2 = .process i ∧
        (s.handling (.process 2) (.msgSend 0 1 none)).msgQueue.Holds s.messages nodes ∧
          i ∉ nodes := by
  refine exists_mem_of_isSome (by decide +kernel) fun s hs => ?_
  obtain ⟨hrun, hfacts⟩ := Option.filter_eq_some_iff.1 hs
  obtain ⟨hst, -, hcp⟩ := of_decide_eq_true hfacts
  have h := no_lost_wake_up (reachable_of_after hrun)
  obtain ⟨i, nodes, hi, -, -, hm⟩ := h.2 _ 0 1 none hcp (by simp)
  have hq := hm (s.messages i).toMail
  rw [show { (s.handling (.process 2) (.msgSend 0 1 none)).messages i with
    toMail := (s.messages i).toMail } = s.messages i from rfl] at hq
  refine ⟨h.1 0 hst, i, nodes, hi, ?_, hq.2.1⟩
  have hself : Function.update (s.handling (.process 2) (.msgSend 0 1 none)).messages i
      (s.messages i) = s.messages := Function.update_eq_self i _
  rw [hself] at hq
  exact hq.1

/-! ### Blocked senders -/

/-- A process is in `SEND_BLOCK` exactly if its node is linked, once and as its own. -/
def Outbox (s : Kernel) : Prop :=
  ∀ i, (s.pd (.process i)).state = .sendBlock ↔
    ∃ nodes, s.msgQueue.Holds s.messages nodes ∧ nodes.count i = 1 ∧
      (s.messages i).sender = pidOf i

/-- Every linked message is addressed to a live process that is not periodic, and admitted by some
mask.  The process may still be one that never calls `Msg_Recv`. -/
def Takeable (s : Kernel) : Prop :=
  ∃ nodes, s.msgQueue.Holds s.messages nodes ∧ ∀ n ∈ nodes, ∃ j mask,
    (s.pd (.process j)).state ≠ .dead ∧ (s.pd (.process j)).priority ≠ .periodic ∧
      (s.messages n).admits (pidOf j) mask = true

/-- Not a termination of a task to which messages are queued. -/
def PurgesNothing (s : Kernel) (e : Entry) : Prop :=
  e = .call .taskTerminate → ∀ i, s.cp = some (.process i) →
    ∃ nodes, s.msgQueue.Holds s.messages nodes ∧
      ∀ n ∈ nodes, (s.messages n).admits (pidOf i) anyMask = false

/-- Not a `Msg_Send` to a live process with type `0`, or to a live periodic process. -/
def SendsReceivable (s : Kernel) (e : Entry) : Prop :=
  ∀ id t v, e = .call (.msgSend id t v) → ∀ j, validId id = some j →
    (s.pd (.process j)).state ≠ .dead → t ≠ 0 ∧ (s.pd (.process j)).priority ≠ .periodic

theorem Represents.phase_eq (h : s.UserMode a) (i : Slot) :
    a.exchange.phase i = (s.pd (.process i)).state.phase := by
  rw [h.state]
  rfl

theorem phase_sendBlock {st : ProcessState} : st.phase = .sendBlock ↔ st = .sendBlock := by
  cases st <;> simp [ProcessState.phase]

theorem Represents.periodic_eq (h : s.UserMode a) (i : Slot) :
    a.exchange.periodic i = false ↔ (s.pd (.process i)).priority ≠ .periodic := by
  rw [h.priority]
  exact decide_eq_false_iff_not

theorem Represents.live_iff (h : s.UserMode a) (i : Slot) :
    a.exchange.phase i ≠ .dead ↔ (s.pd (.process i)).state ≠ .dead := by
  rw [h.phase_eq, ne_eq, Sched.phase_eq_dead]

theorem Represents.outbox_iff (h : s.UserMode a) (ha : a.Inv) :
    s.Outbox ↔ a.exchange.Outbox := by
  obtain ⟨nodes, hm⟩ := h.mail
  have hlinked : ∀ i, (∃ nodes, s.msgQueue.Holds s.messages nodes ∧ nodes.count i = 1 ∧
      (s.messages i).sender = pidOf i) ↔ ∃ m ∈ a.mail, m.sender = pidOf i := by
    intro i
    constructor
    · rintro ⟨nodes', hq, hcount, -⟩
      rw [← hm.mem_nodes, hm.holds.linked.unique hq.linked, ← List.count_pos_iff]
      omega
    · intro hmail
      have hi := hm.mem_nodes.2 hmail
      exact ⟨nodes, hm.holds, List.count_eq_one_of_mem hm.holds.linked.nodup hi, hm.sender i hi⟩
  constructor
  · intro ho i hi
    rw [h.phase_eq, phase_sendBlock] at hi
    exact (hlinked i).1 ((ho i).1 hi)
  · intro ho i
    rw [hlinked]
    constructor
    · intro hi
      exact ho i (by rw [h.phase_eq, hi]; rfl)
    · intro ⟨m, hmail, hs⟩
      obtain ⟨j, hj, hst⟩ := ha.posted.sender m hmail
      have hij : i = j := pidOf_injective (hs.symm.trans hj)
      rw [h.state, hij, hst]

theorem Represents.takeable_iff (h : s.UserMode a) : s.Takeable ↔ a.exchange.Takeable := by
  obtain ⟨nodes, hm⟩ := h.mail
  have hreach : ∀ m : Mail, (∃ j mask, (s.pd (.process j)).state ≠ .dead ∧
      (s.pd (.process j)).priority ≠ .periodic ∧ m.admits (pidOf j) mask = true) ↔
      ∃ j mask, a.exchange.phase j ≠ .dead ∧ a.exchange.periodic j = false ∧
        Exchange.wanted j mask m = true := by
    intro m
    simp only [h.live_iff, h.periodic_eq]
    rfl
  constructor
  · intro ⟨nodes', hq, hall⟩ m hmem
    have hmem' : m ∈ nodes.map fun i => (s.messages i).toMail := hm.mail_eq ▸ hmem
    obtain ⟨n, hn, rfl⟩ := List.mem_map.1 hmem'
    rw [hm.holds.linked.unique hq.linked] at hn
    exact (hreach _).1 (hall n hn)
  · intro ht
    refine ⟨nodes, hm.holds, fun n hn => (hreach _).2 (ht _ ?_)⟩
    show _ ∈ a.mail
    rw [hm.mail_eq]
    exact List.mem_map_of_mem hn

theorem purgesNothing_iff (h : s.UserMode a) (hi : a.current = .process i) :
    s.PurgesNothing (.call c) ↔
      (c = .taskTerminate → ∀ m ∈ a.exchange.mail, Exchange.wanted i anyMask m = false) := by
  obtain ⟨nodes, hm⟩ := h.mail
  have hall : ∀ nodes', s.msgQueue.Holds s.messages nodes' →
      ((∀ n ∈ nodes', (s.messages n).admits (pidOf i) anyMask = false) ↔
        ∀ m ∈ a.exchange.mail, Exchange.wanted i anyMask m = false) := by
    intro nodes' hq
    rw [← hm.holds.linked.unique hq.linked]
    show _ ↔ ∀ m ∈ a.mail, _
    rw [hm.mail_eq]
    simp only [List.forall_mem_map]
    rfl
  constructor
  · rintro hp rfl
    obtain ⟨nodes', hq, hno⟩ := hp rfl i (h.current.trans (congrArg some hi))
    exact (hall nodes' hq).1 hno
  · intro hno hc j hj
    have hij : i = j := by
      rw [h.current, hi] at hj
      simpa using hj
    subst hij
    exact ⟨nodes, hm.holds, (hall nodes hm.holds).2 (hno (Entry.call.inj hc))⟩

theorem sendsReceivable_iff (h : s.UserMode a) :
    s.SendsReceivable (.call c) ↔ a.exchange.Receivable c := by
  have htarget : ∀ id j, a.exchange.target id = some j ↔
      validId id = some j ∧ (s.pd (.process j)).state ≠ .dead := by
    intro id j
    rw [Exchange.target, Option.filter_eq_some_iff, ← h.live_iff]
    simp
  constructor
  · rintro hs id t v rfl j hj
    obtain ⟨hv, hlive⟩ := (htarget id j).1 hj
    obtain ⟨ht, hper⟩ := hs id t v rfl j hv hlive
    exact ⟨ht, (h.periodic_eq j).2 hper⟩
  · intro hr id t v hc j hv hlive
    obtain ⟨ht, hper⟩ := hr id t v (Entry.call.inj hc) j ((htarget id j).2 ⟨hv, hlive⟩)
    exact ⟨ht, (h.periodic_eq j).1 hper⟩

/-- A process that waits for a message is not periodic. -/
theorem waiting_not_periodic (ha : a.Inv) (hw : a.exchange.phase i = .recvBlock) :
    a.exchange.periodic i = false := by
  refine decide_eq_false fun hper => ?_
  have hst : (a.task (.process i)).state = .recvBlock := by
    have hp : (a.task (.process i)).state.phase = .recvBlock := hw
    cases h : (a.task (.process i)).state <;> simp [h, ProcessState.phase] at hp ⊢
  have hmem := ha.levels.linked i (by rw [hst]; simp)
  rw [hper] at hmem
  rcases ha.levels.periodic _ hmem with h | h <;> simp [hst] at h

/-- The state represents a reachable one of the policy. -/
def Booted (s : Kernel) : Prop := ∃ a, a.Reachable ∧ s.UserMode a

theorem Booted.step (h : s.Booted) (hs : s.Step e s') : s'.Booted := by
  obtain ⟨a, ha, hrep⟩ := h
  obtain ⟨a', hstep, hrep'⟩ := hrep.step ha.inv hs
  exact ⟨a', ha.step hstep, hrep'⟩

theorem Booted.outbox_iff (h : s.Booted) (ho : s.Outbox) (hs : s.Step e s') :
    s'.Outbox ↔ s.PurgesNothing e := by
  obtain ⟨a, ha, hrep⟩ := h
  obtain ⟨a', hstep, hrep'⟩ := hrep.step ha.inv hs
  rw [hrep'.outbox_iff (hstep.inv ha.inv)]
  have hx := (hrep.outbox_iff ha.inv).1 ho
  rcases hstep.exchange ha.inv ha.stubs with ⟨rfl, he⟩ | ⟨i, c, rfl, hi, he⟩
  · rw [he]
    exact ⟨fun _ hc => (by cases hc), fun _ => hx⟩
  · rw [he, purgesNothing_iff hrep hi]
    exact hx.call_iff ha.inv.exchange_posted (ha.inv.exchange_active hi)

theorem Booted.takeable_iff (h : s.Booted) (ht : s.Takeable) (hs : s.Step e s') :
    s'.Takeable ↔ s.SendsReceivable e := by
  obtain ⟨a, ha, hrep⟩ := h
  obtain ⟨a', hstep, hrep'⟩ := hrep.step ha.inv hs
  rw [hrep'.takeable_iff]
  have hx := hrep.takeable_iff.1 ht
  rcases hstep.exchange ha.inv ha.stubs with ⟨rfl, he⟩ | ⟨i, c, rfl, hi, he⟩
  · rw [he]
    exact ⟨fun _ _ _ _ hc => (by cases hc), fun _ => hx⟩
  · rw [he, sendsReceivable_iff hrep]
    exact hx.call_iff ha.inv.exchange_posted fun j hj => waiting_not_periodic ha.inv hj

/-- **Blocked senders, exactly.**  After power-on the two agree, and the runs in all states of
which a process is in `SEND_BLOCK` exactly if its node is linked are those that never terminate
a task with messages queued to it.  The runs in which moreover every linked message can be
received are those that also never send with type `0` or to a periodic task. -/
theorem outbox_iff_no_purge (create kernelIdle : BitVec 16) :
    ∃ s₀, boot create kernelIdle = .ok s₀ ∧ s₀.Outbox ∧ s₀.Takeable ∧ ∀ es s,
      (Run (fun s e s' => s.Step e s' ∧ s'.Outbox) s₀ es s ↔
        Run (fun s e s' => s.Step e s' ∧ s.PurgesNothing e) s₀ es s) ∧
      (Run (fun s e s' => s.Step e s' ∧ s'.Outbox ∧ s'.Takeable) s₀ es s ↔
        Run (fun s e s' => s.Step e s' ∧ s.PurgesNothing e ∧ s.SendsReceivable e) s₀ es s) := by
  obtain ⟨s₀, hb, hrep⟩ := boot_represents create kernelIdle
  have hx := Sched.bootedSched_exchange create kernelIdle
  have hbooted : s₀.Booted := ⟨_, ⟨create, kernelIdle, [], Run.nil _⟩, hrep⟩
  have hinv := Sched.bootedSched_inv create kernelIdle
  have ho : s₀.Outbox := by
    rw [hrep.outbox_iff hinv, hx]
    intro j hj
    by_cases hj0 : j = 0 <;> simp [Sched.bootExchange, hj0] at hj
  have ht : s₀.Takeable := by
    rw [hrep.takeable_iff, hx]
    intro m hm
    cases hm
  refine ⟨s₀, hb, ho, ht, fun es s => ⟨?_, ?_⟩⟩
  · exact Run.keeps_iff (I := Booted) (P := Outbox) (G := PurgesNothing)
      (fun _ _ _ h hs => h.step hs) (fun _ _ _ h hP hs => h.outbox_iff hP hs) hbooted ho
  · exact Run.keeps_iff (I := Booted) (P := fun s => s.Outbox ∧ s.Takeable)
      (G := fun s e => s.PurgesNothing e ∧ s.SendsReceivable e) (fun _ _ _ h hs => h.step hs)
      (fun _ _ _ h hP hs => and_congr (h.outbox_iff hP.1 hs) (h.takeable_iff hP.2 hs))
      hbooted ⟨ho, ht⟩

/-- A sender is left behind in `SEND_BLOCK` when its receiver ends: no message is queued. -/
theorem purge_strands_sender :
    ∃ s ∈ after (fun _ _ => true) 1 2 [.call (.taskCreateRR (some 3) 0),
      .call (.taskCreateRR (some 4) 0), .call .taskTerminate,
      .call (.msgSend 2 1 (some 7)), .call .taskTerminate], s.Reachable ∧ ¬ s.Outbox := by
  have hex : ∃ s ∈ (after (fun _ _ => true) 1 2 [.call (.taskCreateRR (some 3) 0),
      .call (.taskCreateRR (some 4) 0), .call .taskTerminate,
      .call (.msgSend 2 1 (some 7)), .call .taskTerminate]).filter fun s =>
        (s.pd (.process 1)).state = .sendBlock ∧ s.msgQueue.head = none, True :=
    exists_mem_of_isSome (by decide +kernel) fun _ _ => trivial
  obtain ⟨s, hs, -⟩ := hex
  obtain ⟨hrun, hfacts⟩ := Option.filter_eq_some_iff.1 hs
  obtain ⟨hst, hhead⟩ := of_decide_eq_true hfacts
  refine ⟨s, hrun, reachable_of_after hrun, fun ho => ?_⟩
  obtain ⟨nodes, hq, hcount, -⟩ := (ho 1).1 hst
  have hnil : nodes = [] := by
    have hh := hq.linked.head_eq
    rw [hhead] at hh
    simpa using hh.symm
  rw [hnil] at hcount
  cases hcount

end Kernel

end RoombaRtos
