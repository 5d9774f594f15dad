import RoombaRtos.SchedRequests
import Mathlib.Data.Fintype.Card

/-!
# The kernel represents the scheduling policy

The relation between the pointer structures of the kernel and the lists of the policy, and
the lockstep of `Dispatch` with its list counterpart.

* `Mailbox msgs queue nodes mail` — the message queue links exactly the nodes of the senders of
  `mail`, in order;
* `Kernel.Links` — the descriptors carry the tasks, and the queues link the levels;
* `Kernel.Stores` — `Links`, the mailbox, the task counter and the clock;
* `Kernel.Represents c` — `Stores`, the current task, and the control variables `c`;
* `Represents.dispatch` — dispatching keeps the relation, or aborts on both sides alike.
-/

namespace RoombaRtos

open LinkedChain ListQueue Lockstep

/-! ### The mailbox -/

/-- The messages `mail` are queued in the nodes `nodes` of their senders. -/
structure Mailbox (msgs : Slot → Msg Slot) (queue : MsgQueue Slot) (nodes : List Slot)
    (mail : List Mail) : Prop where
  holds : queue.Holds msgs nodes
  mail_eq : mail = nodes.map fun i => (msgs i).toMail
  sender : ∀ i ∈ nodes, (msgs i).sender = pidOf i
  unlinked : ∀ i, i ∉ nodes → (msgs i).next = none

namespace Mailbox

variable {msgs : Slot → Msg Slot} {queue : MsgQueue Slot} {nodes : List Slot} {mail : List Mail}
  {receiver : Pid} {mask : Mask} {i : Slot} {m : Mail}

theorem length_le (h : Mailbox msgs queue nodes mail) : nodes.length ≤ maxThread := by
  have := List.Nodup.length_le_card h.holds.linked.nodup
  simpa using this

theorem length_eq (h : Mailbox msgs queue nodes mail) : queue.length.toNat = mail.length := by
  rw [h.holds.length_eq, h.mail_eq, List.length_map]

/-- Exactly the senders of queued messages have their node linked. -/
theorem mem_nodes (h : Mailbox msgs queue nodes mail) :
    i ∈ nodes ↔ ∃ m ∈ mail, m.sender = pidOf i := by
  rw [h.mail_eq]
  constructor
  · intro hi
    exact ⟨_, List.mem_map_of_mem hi, h.sender i hi⟩
  · intro ⟨m, hm, hmi⟩
    obtain ⟨j, hj, rfl⟩ := List.mem_map.1 hm
    have hij : j = i := pidOf_injective ((h.sender j hj).symm.trans hmi)
    exact hij ▸ hj

/-- Contents of nodes that are not queued are irrelevant. -/
theorem update (h : Mailbox msgs queue nodes mail) (hi : i ∉ nodes) {c : Msg Slot}
    (hc : c.next = (msgs i).next) : Mailbox (Function.update msgs i c) queue nodes mail := by
  have hsame : ∀ j ∈ nodes, Function.update msgs i c j = msgs j := by
    intro j hj
    have hji : j ≠ i := fun e => hi (e ▸ hj)
    rw [Function.update_of_ne hji]
  refine ⟨h.holds.congr (fun j hj => by rw [hsame j hj]), ?_, ?_, ?_⟩
  · rw [h.mail_eq]
    exact List.map_congr_left fun j hj => by rw [hsame j hj]
  · intro j hj
    rw [hsame j hj, h.sender j hj]
  · intro j hj
    by_cases hji : j = i
    · subst hji
      rw [Function.update_self, hc, h.unlinked j hj]
    · rw [Function.update_of_ne hji, h.unlinked j hj]

/-- The node of a sender without a queued message is filled and enqueued. -/
theorem post (h : Mailbox msgs queue nodes mail) (hi : i ∉ nodes) (hm : m.sender = pidOf i) :
    ∃ msgs' queue',
      msgEnqueue (Function.update msgs i { msgs i with toMail := m }) queue i =
        .ok (msgs', queue') ∧
      Mailbox msgs' queue' (nodes ++ [i]) (mail ++ [m]) := by
  set c : Msg Slot := { msgs i with toMail := m } with hc
  have hself : (Function.update msgs i c i).toMail = m := by rw [Function.update_self]
  have h1 := h.update (c := c) hi rfl
  have hlen := h1.length_le
  have hlen' : nodes.length < 255 := by
    have : maxThread = 16 := rfl
    omega
  obtain ⟨msgs', queue', he, hq, hr⟩ :=
    msgEnqueue_append h1.holds hi (h1.unlinked i hi) hlen'
  refine ⟨msgs', queue', he, hq, ?_, ?_, ?_⟩
  · rw [List.map_append, h1.mail_eq]
    simp only [List.map_singleton, hr.mail, hself]
  · intro j hj
    have hs : (msgs' j).sender = (Function.update msgs i c j).sender :=
      congrArg Mail.sender (hr.mail j)
    rw [hs]
    rcases List.mem_append.1 hj with hj | hj
    · exact h1.sender j hj
    · rw [List.mem_singleton.1 hj, ← hm]
      exact congrArg Mail.sender hself
  · intro j hj
    rw [List.mem_append, not_or] at hj
    rw [hr.other j hj.1, h1.unlinked j hj.1]

/-- Nothing is taken when nothing is admitted. -/
theorem take_none (h : Mailbox msgs queue nodes mail) (hv : validId receiver ≠ none)
    (hf : mail.find? (fun m => m.admits receiver mask) = none) :
    msgFindReceiver msgs queue receiver mask = .ok (none, msgs, queue) := by
  refine msgFindReceiver_none h.holds hv ?_
  intro i hi
  rw [List.find?_eq_none] at hf
  have := hf (msgs i).toMail (by rw [h.mail_eq]; exact List.mem_map_of_mem hi)
  simpa using this

/-- The first admitted message is taken out of the mailbox. -/
theorem take_some (h : Mailbox msgs queue nodes mail) (hv : validId receiver ≠ none)
    (hf : mail.find? (fun m => m.admits receiver mask) = some m) :
    ∃ i msgs' queue' nodes', msgFindReceiver msgs queue receiver mask =
        .ok (some i, msgs', queue') ∧
      (msgs' i).toMail = m ∧ m.sender = pidOf i ∧ i ∉ nodes' ∧
      Mailbox msgs' queue' nodes' (mail.eraseP fun m => m.admits receiver mask) := by
  set p : Mail → Bool := fun m => m.admits receiver mask with hp
  have hf' : (nodes.find? fun i => p (msgs i).toMail).map (fun i => (msgs i).toMail) = some m := by
    rw [h.mail_eq, List.find?_map] at hf
    exact hf
  obtain ⟨i, hi, him⟩ := Option.map_eq_some_iff.1 hf'
  obtain ⟨hpi, l₁, l₂, hnodes, hl₁⟩ := List.find?_eq_some_iff_append.1 hi
  have hl₁' : ∀ j ∈ l₁, p (msgs j).toMail = false := by
    intro j hj
    simpa using hl₁ j hj
  subst hnodes
  obtain ⟨msgs', queue', he, hq, hn, hr⟩ := msgFindReceiver_take h.holds hv hl₁' hpi
  have hnd := h.holds.linked.nodup
  have hmid : i ∉ l₁ ++ l₂ := (List.nodup_middle.1 hnd |> List.nodup_cons.1).1
  refine ⟨i, msgs', queue', l₁ ++ l₂, he, (hr.mail i).trans him, ?_, hmid, hq, ?_, ?_, ?_⟩
  · rw [← him]
    exact h.sender i (by simp)
  · rw [h.mail_eq, List.map_append, List.map_append, List.map_cons,
      List.eraseP_append_right _ (by simpa using hl₁'), List.eraseP_cons_of_pos hpi]
    simp only [hr.mail]
  · intro j hj
    have hs : (msgs' j).sender = (msgs j).sender := congrArg Mail.sender (hr.mail j)
    rw [hs]
    exact h.sender j (by simp only [List.mem_append, List.mem_cons] at hj ⊢; tauto)
  · intro j hj
    by_cases hji : j = i
    · rw [hji, hn]
    · have hj' : j ∉ l₁ ++ i :: l₂ := by
        simp only [List.mem_append, List.mem_cons] at hj ⊢
        tauto
      rw [hr.other j hj', h.unlinked j hj']

end Mailbox

/-! ### The relation -/

/-- The live entries of the process table. -/
def Sched.liveSlots (a : Sched) : Finset Slot :=
  Finset.univ.filter fun i => (a.task (.process i)).state ≠ .dead

@[simp] theorem Sched.mem_liveSlots {a : Sched} {i : Slot} :
    i ∈ a.liveSlots ↔ (a.task (.process i)).state ≠ .dead := by
  simp [Sched.liveSlots]

theorem Sched.liveSlots_congr {a a' : Sched}
    (h : ∀ i, (a'.task (.process i)).state = .dead ↔ (a.task (.process i)).state = .dead) :
    a'.liveSlots = a.liveSlots := by
  ext i
  rw [mem_liveSlots, mem_liveSlots, ne_eq, h]

namespace Kernel

/-- The descriptors carry the tasks of the policy, and the queues link its levels. -/
structure Links (s : Kernel) (a : Sched) : Prop where
  task : ∀ p, (s.pd p).toTask = a.task p
  queue : ∀ q, (s.queue q).Holds s.pd (a.level q)
  type : ∀ q, (s.queue q).type = q
  unlinked : ∀ p, (∀ q, p ∉ a.level q) → (s.pd p).next = none

/-- The static data of the kernel, apart from the current task and the control variables. -/
structure Stores (s : Kernel) (a : Sched) : Prop extends s.Links a where
  mail : ∃ nodes, Mailbox s.messages s.msgQueue nodes a.mail
  tasks : s.tasks.toNat = a.liveSlots.card
  sysClock : s.sysClock = a.sysClock
  clockState : s.clockState = a.clockState
  info : s.info = a.info

/-- `request_info` and `kernel_active`. -/
def control (s : Kernel) : Option (InfoPtr PDPtr) × Bool := (s.requestInfo, s.kernelActive)

/-- The kernel state `s` represents `a`, with control variables `c`. -/
structure Represents (c : Option (InfoPtr PDPtr) × Bool) (s : Kernel) (a : Sched) : Prop
    extends s.Stores a where
  current : s.cp = some a.current
  control : s.control = c

variable {s : Kernel} {a : Sched} {c : Option (InfoPtr PDPtr) × Bool} {p : PDPtr}
  {q : PriorityLevel} {r : InfoPtr PDPtr}

/-! ### Updates -/

@[simp] theorem setTask_next (s : Kernel) (p p' : PDPtr) (f : Task PDPtr → Task PDPtr) :
    ((s.setTask p f).pd p').next = (s.pd p').next := by
  by_cases h : p' = p
  · subst h; simp [setTask]
  · simp [setTask, h]

theorem Links.setTask (h : s.Links a) (p : PDPtr) (f : Task PDPtr → Task PDPtr) :
    (s.setTask p f).Links (a.setTask p f) := by
  refine ⟨?_, ?_, h.type, ?_⟩
  · intro p'
    by_cases hp : p' = p
    · subst hp
      simp [Kernel.setTask, Sched.setTask, h.task]
    · simp [Kernel.setTask, Sched.setTask, hp, h.task]
  · intro q
    exact (h.queue q).congr (fun p' _ => setTask_next s p p' f)
  · intro p' hp'
    rw [setTask_next]
    exact h.unlinked p' hp'

/-- A queue operation that relinks only descriptors which are in no other queue. -/
theorem Links.relink (h : s.Links a) {pd' : PDPtr → PD PDPtr} {q' : TaskQueue PDPtr}
    {S l : List PDPtr} (hq : q'.Holds pd' l) (ht : q'.type = q) (hr : Relinked S s.pd pd')
    (hS : ∀ q₁, q₁ ≠ q → ∀ p ∈ a.level q₁, p ∉ S)
    (hn : ∀ p ∈ S, p ∉ l → (∀ q₁, q₁ ≠ q → p ∉ a.level q₁) → (pd' p).next = none)
    (hl : ∀ p ∈ a.level q, p ∉ S → p ∈ l) : (s.setQueue q (pd', q')).Links (a.setLevel q l) := by
  refine ⟨?_, ?_, ?_, ?_⟩
  · intro p
    exact (hr.task p).trans (h.task p)
  · intro q₁
    show (Function.update s.queue q q' q₁).Holds pd' (Function.update a.level q l q₁)
    by_cases hq₁ : q₁ = q
    · subst hq₁
      rwa [Function.update_self, Function.update_self]
    · rw [Function.update_of_ne hq₁, Function.update_of_ne hq₁]
      exact (h.queue q₁).congr (fun p hp => hr.other p (hS q₁ hq₁ p hp))
  · intro q₁
    show (Function.update s.queue q q' q₁).type = q₁
    by_cases hq₁ : q₁ = q
    · subst hq₁
      rwa [Function.update_self]
    · rw [Function.update_of_ne hq₁, h.type]
  · intro p hp
    have hpl : p ∉ l := by
      have := hp q
      rwa [Sched.setLevel_level, Function.update_self] at this
    have hpo : ∀ q₁, q₁ ≠ q → p ∉ a.level q₁ := by
      intro q₁ hq₁
      have := hp q₁
      rwa [Sched.setLevel_level, Function.update_of_ne hq₁] at this
    show (pd' p).next = none
    by_cases hpS : p ∈ S
    · exact hn p hpS hpl hpo
    · rw [hr.other p hpS]
      refine h.unlinked p fun q₁ hm => ?_
      by_cases hq₁ : q₁ = q
      · subst hq₁
        exact hpl (hl p hm hpS)
      · exact hpo q₁ hq₁ hm

/-- A queue operation that permutes a level. -/
theorem Links.permute (h : s.Links a) (hl : a.Levels) {pd' : PDPtr → PD PDPtr}
    {q' : TaskQueue PDPtr} {l : List PDPtr} (hq : q'.Holds pd' l) (ht : q'.type = q)
    (hr : Relinked (a.level q) s.pd pd') (hp : l.Perm (a.level q)) :
    (s.setQueue q (pd', q')).Links (a.setLevel q l) := by
  refine h.relink hq ht hr ?_ ?_ ?_
  · intro q₁ hq₁ p hp₁ hpq
    exact hq₁ (hl.level_unique hp₁ hpq)
  · intro p hpq hpl
    exact absurd (hp.mem_iff.2 hpq) hpl
  · intro p hpq _
    exact hp.mem_iff.2 hpq

/-- The head of a queue leaves it. -/
theorem Links.removeHead (h : s.Links a) (ha : a.Levels) {l : List PDPtr}
    (hl : a.level q = p :: l) (hq : q ≠ .unlisted) :
    ∃ q', deque s.pd (s.queue q) = .ok (p, setNext s.pd p none, q') ∧
      (s.setQueue q (setNext s.pd p none, q')).Links (a.setLevel q l) := by
  obtain ⟨q', hd, hholds, htype⟩ := deque_cons (hl ▸ h.queue q) (by rwa [h.type])
  refine ⟨q', hd, h.relink (S := [p]) hholds (htype.trans (h.type q))
    (Relinked.setNext (by simp) none) ?_ ?_ ?_⟩
  · intro q₁ hq₁ p' hp' hpc
    rw [List.mem_singleton.1 hpc] at hp'
    exact hq₁ (ha.level_unique hp' (by simp [hl]))
  · intro p' hpc _ _
    rw [List.mem_singleton.1 hpc]
    simp [setNext]
  · intro p' hp' hpc
    rw [hl] at hp'
    rcases List.mem_cons.1 hp' with rfl | hp'
    · exact absurd (List.mem_singleton_self _) hpc
    · exact hp'

theorem Stores.setTask (h : s.Stores a) {f : Task PDPtr → Task PDPtr}
    (hd : (f (a.task p)).state = .dead ↔ (a.task p).state = .dead) :
    (s.setTask p f).Stores (a.setTask p f) := by
  refine ⟨h.toLinks.setTask p f, h.mail, ?_, h.sysClock, h.clockState, h.info⟩
  have hlive : (a.setTask p f).liveSlots = a.liveSlots := by
    refine Sched.liveSlots_congr fun i => ?_
    by_cases hi : PDPtr.process i = p
    · subst hi
      simp [Sched.setTask_task, hd]
    · simp [Sched.setTask_task, hi]
  rw [hlive]
  exact h.tasks

theorem Stores.setState (h : s.Stores a) (p : PDPtr) (st : ProcessState)
    (hl : (a.task p).state ≠ .dead) (hst : st ≠ .dead) :
    (s.setState p st).Stores (a.setState p st) :=
  h.setTask ⟨fun e => absurd e hst, fun e => absurd e hl⟩

theorem Stores.setInfo (h : s.Stores a) (r : InfoPtr PDPtr)
    (g : KernelRequestParams → KernelRequestParams) : (s.setInfo r g).Stores (a.setInfo r g) :=
  ⟨⟨h.task, h.queue, h.type, h.unlinked⟩, h.mail, h.tasks, h.sysClock, h.clockState, by
    show Function.update s.info r (g (s.info r)) = Function.update a.info r (g (a.info r))
    rw [h.info]⟩

theorem Stores.reqParams (h : s.Stores a) (p : PDPtr) :
    (s.pd p).reqParams = (a.task p).reqParams :=
  congrArg Task.reqParams (h.task p)

theorem Stores.state (h : s.Stores a) (p : PDPtr) : (s.pd p).state = (a.task p).state :=
  congrArg Task.state (h.task p)

theorem Stores.priority (h : s.Stores a) (p : PDPtr) : (s.pd p).priority = (a.task p).priority :=
  congrArg Task.priority (h.task p)

theorem Stores.processId (h : s.Stores a) (p : PDPtr) :
    (s.pd p).processId = (a.task p).processId :=
  congrArg Task.processId (h.task p)

theorem Stores.setReqParams (h : s.Stores a) (p : PDPtr)
    (g : KernelRequestParams → KernelRequestParams) :
    (s.setReqParams p g).Stores (a.setReqParams p g) := by
  unfold Kernel.setReqParams Sched.setReqParams
  rw [h.reqParams p]
  cases (a.task p).reqParams with
  | none => exact h
  | some r => exact h.setInfo r g

theorem Stores.setQueue (h : s.Stores a) {pd' : PDPtr → PD PDPtr} {q' : TaskQueue PDPtr}
    {l : List PDPtr} (hk : (s.setQueue q (pd', q')).Links (a.setLevel q l)) :
    (s.setQueue q (pd', q')).Stores (a.setLevel q l) :=
  ⟨hk, h.mail, h.tasks, h.sysClock, h.clockState, h.info⟩

/-! ### Dispatching -/

/-- The length test of `Dispatch`. -/
theorem Stores.one_lt_length (h : s.Stores a) (q : PriorityLevel) :
    (s.queue q).length > 1 ↔ 1 < (a.level q).length := by
  rw [← (h.queue q).length_eq, gt_iff_lt, BitVec.lt_def]
  rfl

theorem Stores.length_pos (h : s.Stores a) (q : PriorityLevel) :
    (s.queue q).length > 0 ↔ a.level q ≠ [] := by
  rw [← List.length_pos_iff, ← (h.queue q).length_eq, gt_iff_lt, BitVec.lt_def]
  rfl

/-- Moving the head of a system or round-robin queue to its end. -/
theorem Stores.requeueHead (h : s.Stores a) (hl : a.Levels) (hq : q ≠ .unlisted)
    (hne : a.level q ≠ []) :
    ∃ r, requeueHead s.pd (s.queue q) = .ok r ∧
      (s.setQueue q r).Stores (a.setLevel q ((a.level q).rotate 1)) := by
  cases hlev : a.level q with
  | nil => exact absurd hlev hne
  | cons x l =>
    have hx : (s.pd x).priority = (s.queue q).type := by
      rw [h.priority, h.type, hl.priority q x (by simp [hlev])]
    obtain ⟨pd', q', he, hq', ht', hr⟩ :=
      requeueHead_append (hlev ▸ h.queue q) hx (by rw [h.type]; exact hq)
    have hrot : (x :: l).rotate 1 = l ++ [x] := by simp
    refine ⟨(pd', q'), he, h.setQueue (h.permute hl ?_ (ht'.trans (h.type q)) (hlev ▸ hr) ?_)⟩
    · rw [hrot]
      exact hq'
    · rw [hlev]
      exact List.rotate_perm _ _

/-- Moving the head of the periodic queue to its place. -/
theorem Stores.reinsertHead (h : s.Stores a) (hl : a.Levels) (hne : a.level .periodic ≠ []) :
    ∃ r, reinsertHead s.pd (s.queue .periodic) s.sysClock = .ok r ∧
      (s.setQueue .periodic r).Stores
        (a.setLevel .periodic (a.replaceHead (a.level .periodic))) := by
  cases hlev : a.level .periodic with
  | nil => exact absurd hlev hne
  | cons x l =>
    have hx : (s.pd x).priority = .periodic := by
      rw [h.priority, hl.priority .periodic x (by simp [hlev])]
    obtain ⟨pd', q', he, hq', ht', hr⟩ :=
      reinsertHead_place (hlev ▸ h.queue .periodic) hx (h.type _) s.sysClock
    have hplace : a.replaceHead (x :: l) =
        placeBehind (fun e => scansPast (s.pd x).toTask s.sysClock (s.pd e).toTask) x l := by
      simp only [h.task, h.sysClock]
      rfl
    refine ⟨(pd', q'), he,
      h.setQueue (h.permute hl ?_ (ht'.trans (h.type .periodic)) (hlev ▸ hr) ?_)⟩
    · rw [hplace]
      exact hq'
    · rw [hlev]
      exact a.replaceHead_perm _

theorem setLevel_self (a : Sched) (q : PriorityLevel) : a.setLevel q (a.level q) = a := by
  simp [Sched.setLevel]

/-- Moving on in a level of at most one task does nothing. -/
theorem short_level {l : List PDPtr} (h : ¬ 1 < l.length) :
    l.rotate 1 = l ∧ a.replaceHead l = l := by
  match l with
  | [] => exact ⟨rfl, rfl⟩
  | [x] => exact ⟨List.rotate_singleton x 1, rfl⟩
  | _ :: _ :: _ => simp at h

theorem Stores.requeueCurrent (h : s.Stores a) (hl : a.Levels)
    (hc : (a.task a.current).priority = .unlisted → a.current = .idleProcess) :
    ∃ s', s.requeueCurrent a.current = .ok s' ∧ s'.Stores a.requeue ∧ s'.cp = s.cp ∧
      s'.control = s.control := by
  have hrot : ∀ q, ¬ (s.queue q).length > 1 →
      s.Stores (a.setLevel q ((a.level q).rotate 1)) ∧
        s.Stores (a.setLevel q (a.replaceHead (a.level q))) := by
    intro q hq
    rw [h.one_lt_length] at hq
    obtain ⟨h1, h2⟩ := short_level (a := a) hq
    rw [h1, h2, setLevel_self]
    exact ⟨h, h⟩
  have hne : ∀ q, (s.queue q).length > 1 → a.level q ≠ [] := by
    intro q hq e
    rw [h.one_lt_length, e] at hq
    simp at hq
  unfold Kernel.requeueCurrent Sched.requeue
  rw [h.priority]
  cases hp : (a.task a.current).priority with
  | system =>
    simp only
    by_cases hq : (s.queue .system).length > 1
    · obtain ⟨r, he, hr⟩ := h.requeueHead hl (by simp) (hne .system hq)
      rw [if_pos hq, he]
      exact ⟨_, rfl, hr, rfl, rfl⟩
    · rw [if_neg hq]
      exact ⟨s, rfl, (hrot _ hq).1, rfl, rfl⟩
  | periodic =>
    simp only
    by_cases hq : (s.queue .periodic).length > 1
    · obtain ⟨r, he, hr⟩ := h.reinsertHead hl (hne .periodic hq)
      rw [if_pos hq, he]
      exact ⟨_, rfl, hr, rfl, rfl⟩
    · rw [if_neg hq]
      exact ⟨s, rfl, (hrot _ hq).2, rfl, rfl⟩
  | rr =>
    simp only
    by_cases hq : (s.queue .rr).length > 1
    · obtain ⟨r, he, hr⟩ := h.requeueHead hl (by simp) (hne .rr hq)
      rw [if_pos hq, he]
      exact ⟨_, rfl, hr, rfl, rfl⟩
    · rw [if_neg hq]
      exact ⟨s, rfl, (hrot _ hq).1, rfl, rfl⟩
  | unlisted =>
    simp only
    rw [if_neg (not_not_intro (hc hp))]
    exact ⟨s, rfl, h, rfl, rfl⟩

theorem Stores.ready_iff (h : s.Stores a) (p : PDPtr) :
    a.ready p = true ↔ (s.pd p).state = .ready := by
  rw [h.state]
  simp [Sched.ready]

/-- `Queue_Rotate_Ready` on a queue that is not empty and not the periodic one. -/
theorem Stores.rotateReady (h : s.Stores a) (hl : a.Levels) (hq : q ≠ .unlisted)
    (hq' : q ≠ .periodic) (hne : a.level q ≠ []) :
    ∃ s', s.rotateReady q = .ok ((a.level q).find? a.ready, s') ∧ s'.Stores (a.bring q) ∧
      s'.control = s.control := by
  obtain ⟨pd', q', he, hh, ht, hr⟩ :=
    queueRotateReady_find (h.queue q) hne h.ready_iff
      (fun p hp => by rw [h.priority, h.type, hl.priority q p hp]) (by rwa [h.type])
      (by rwa [h.type])
  refine ⟨s.setQueue q (pd', q'), ?_,
    h.setQueue (h.permute hl hh (ht.trans (h.type q)) hr (rotateTo_perm _ _)), rfl⟩
  rw [Kernel.rotateReady, he]
  rfl

theorem bring_of_none (h : (a.level q).find? a.ready = none) : a.bring q = a := by
  have hall : ∀ p ∈ a.level q, a.ready p = false := by simpa using h
  rw [Sched.bring, rotateTo_eq_self hall, setLevel_self]

/-- The search of a level for a ready task. -/
theorem Stores.firstReady (h : s.Stores a) (hl : a.Levels) (hq : q ≠ .unlisted)
    (hq' : q ≠ .periodic) :
    ∃ s', s.firstReady q = .ok ((a.level q).find? a.ready, s') ∧ s'.Stores (a.bring q) ∧
      s'.control = s.control := by
  unfold Kernel.firstReady
  by_cases hne : a.level q = []
  · rw [if_neg (fun hlen => (h.length_pos q).1 hlen hne)]
    have hf : (a.level q).find? a.ready = none := by simp [hne]
    rw [hf, bring_of_none hf]
    exact ⟨s, rfl, h, rfl⟩
  · rw [if_pos ((h.length_pos q).2 hne)]
    exact h.rotateReady hl hq hq' hne

theorem Stores.due_eq (h : s.Stores a) (p : PDPtr) : s.due p = a.due p := by
  have ht := h.task p
  simp only [Kernel.due, Sched.due, h.sysClock, h.clockState, ht]

theorem Stores.missedStart_eq (h : s.Stores a) (p : PDPtr) :
    s.missedStart p = a.missedStart p := by
  have ht := h.task p
  simp only [Kernel.missedStart, Sched.missedStart, h.sysClock, h.clockState, ht]

theorem Stores.periodicDue_eq (h : s.Stores a) :
    s.periodicDue = .ok a.duePeriodic.isSome := by
  unfold Kernel.periodicDue Sched.duePeriodic
  rw [(h.queue .periodic).peek_eq]
  cases hlev : a.level .periodic with
  | nil =>
    rw [if_neg (fun hlen => (h.length_pos _).1 hlen hlev)]
    rfl
  | cons p l =>
    rw [if_pos ((h.length_pos _).2 (by simp [hlev]))]
    simp only [List.head?_cons, h.due_eq]
    cases hd : a.due p <;> simp [Option.filter, hd]

/-- `Queue_Rotate_Ready` on the periodic queue, whose tasks are all ready. -/
theorem Stores.rotatePeriodic (h : s.Stores a) (ha : a.Handling)
    (hp : (a.level .periodic).head? = some p) :
    s.rotateReady .periodic = .ok (some p, s) := by
  cases hlev : a.level .periodic with
  | nil => simp [hlev] at hp
  | cons x l =>
    have hx : x = p := by simpa [hlev] using hp
    subst hx
    have hready : (s.pd x).state = .ready :=
      (h.ready_iff x).1 (ha.periodic_ready (by simp [hlev]))
    have hself : s.setQueue .periodic (s.pd, s.queue .periodic) = s := by
      simp [Kernel.setQueue]
    rw [Kernel.rotateReady, queueRotateReady_front (hlev ▸ h.queue .periodic) hready]
    simp only [Lockstep.ok_bind, hself]
    rfl

/-- The kernel found a task to run where the policy runs it. -/
def Selected (c : Option (InfoPtr PDPtr) × Bool) (x : PDPtr × Kernel) (b : Sched) : Prop :=
  ∃ a' : Sched, x.2.Stores a' ∧ x.2.control = c ∧ (a'.task x.1).state ≠ .dead ∧ b = a'.run x.1

theorem Stores.selectNext (h : s.Stores a) (ha : a.Handling) :
    Lockstep.Rel (Selected s.control) s.selectNext a.select := by
  obtain ⟨s₁, he₁, h₁, hc₁⟩ := h.firstReady ha.levels (q := .system) (by simp) (by simp)
  unfold Kernel.selectNext Sched.select
  rw [he₁]
  cases hsys : (a.level .system).find? a.ready with
  | some p =>
    have hmem := List.mem_of_find?_eq_some hsys
    exact ⟨a.bring .system, h₁, hc₁, ha.levels.live _ p hmem, rfl⟩
  | none =>
    rw [bring_of_none hsys] at h₁
    simp only [Lockstep.ok_bind, h₁.periodicDue_eq]
    cases hdue : a.duePeriodic with
    | some p =>
      have hhead := (Sched.duePeriodic_eq_some.1 hdue).1
      simp only [Option.isSome_some, if_true, h₁.rotatePeriodic ha hhead, Lockstep.ok_bind,
        h₁.missedStart_eq]
      by_cases hm : a.missedStart p = true
      · rw [if_pos hm, if_pos hm]
        exact Lockstep.Rel.error _
      · rw [if_neg hm, if_neg hm]
        exact ⟨a, h₁, hc₁, ha.levels.live _ p (List.mem_of_head? hhead), rfl⟩
    | none =>
      simp only [Option.isSome_none, Bool.false_eq_true, if_false]
      obtain ⟨s₂, he₂, h₂, hc₂⟩ := h₁.firstReady ha.levels (q := .rr) (by simp) (by simp)
      rw [he₂]
      cases hrr : (a.level .rr).find? a.ready with
      | some p =>
        have hmem := List.mem_of_find?_eq_some hrr
        exact ⟨a.bring .rr, h₂, hc₂.trans hc₁, ha.levels.live _ p hmem, rfl⟩
      | none =>
        rw [bring_of_none hrr] at h₂
        exact ⟨a, h₂, hc₂.trans hc₁, ha.levels.idle_live, rfl⟩

/-- The part of `Dispatch` that chooses a task and makes it the current one. -/
theorem Stores.select (h : s.Stores a) (ha : a.Handling) :
    Lockstep.Rel (Represents s.control) (do
      let (newP, s) ← s.selectNext
      return { s.setState newP .running with cp := some newP }) a.select := by
  rw [← bind_pure a.select]
  refine (h.selectNext ha).bind ?_
  rintro ⟨p, s'⟩ b ⟨a', h', hc', hlive, rfl⟩
  have h₁ := h'.setState p .running hlive (by simp)
  exact ⟨⟨⟨h₁.task, h₁.queue, h₁.type, h₁.unlinked⟩, h₁.mail, h₁.tasks, h₁.sysClock,
    h₁.clockState, h₁.info⟩, rfl, hc'⟩

/-- **Dispatching runs in lockstep.** -/
theorem Represents.dispatch (h : s.Represents c a) (ha : a.Handling)
    (hc : (a.task a.current).priority = .unlisted → a.current = .idleProcess) :
    Lockstep.Rel (Represents c) s.dispatch a.dispatch := by
  obtain ⟨s₁, he, h₁, hcp, hctl⟩ := h.toStores.requeueCurrent ha.levels hc
  have hrun : s₁.currentRunning = false := by
    have := ha.stopped a.current
    rw [Kernel.currentRunning, hcp, h.current]
    simp only [h₁.state, Sched.requeue_task, decide_eq_false_iff_not]
    exact this
  have hsel := h₁.select ha.requeue
  rw [hctl, h.control] at hsel
  unfold Kernel.dispatch Sched.dispatch
  rw [h.current]
  simp only [he, Lockstep.ok_bind, hrun, Bool.false_eq_true, if_false]
  exact hsel

/-- At boot there is no current task to move. -/
theorem Stores.dispatch_boot (h : s.Stores a) (ha : a.Handling) (hcp : s.cp = none) :
    Lockstep.Rel (Represents s.control) s.dispatch a.select := by
  unfold Kernel.dispatch Kernel.currentRunning
  simp only [hcp, pure_bind, Bool.false_eq_true, if_false]
  exact h.select ha

end Kernel

end RoombaRtos
