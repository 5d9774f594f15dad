import RoombaRtos.Message

/-!
# The message queue as a list

The functions of `kernel/message.c`, called in any order.

* `MailMemory` — the queue and the message nodes, and what the functions do to them;
* `MailList` — what the queue is for: messages are found in the order in which they were sent, among
  those that a receiver asks for;
* `MailMemory.Represents` — the queue in the memory is the list;
* `msg_queue_refines_list` — every call has the result that it has on the list.
-/

namespace RoombaRtos

open ListQueue Lockstep

variable {β : Type}

inductive MailCall (β : Type)
  /-- The node is filled in before it is enqueued. -/
  | enqueue (msg : β) (mail : Mail)
  | deque
  | findReceiver (receiver : Pid) (mask : Mask)
deriving DecidableEq, Repr

/-- What a call returns: a node, no node, or an abort. -/
abbrev MailResult (β : Type) : Type := Except Halt (Option β)

/-- A message queue and the nodes. -/
structure MailMemory (β : Type) where
  msgs : β → Msg β
  list : MsgQueue β

def MailMemory.call [DecidableEq β] (s : MailMemory β) :
    MailCall β → Except Halt (Option β × MailMemory β)
  | .enqueue msg mail => do
      let filled := Function.update s.msgs msg { s.msgs msg with toMail := mail }
      let (msgs, list) ← msgEnqueue filled s.list msg
      return (none, { msgs := msgs, list := list })
  | .deque => do
      let (msg, msgs, list) ← msgDeque s.msgs s.list
      return (some msg, { msgs := msgs, list := list })
  | .findReceiver receiver mask => do
      let (msg, msgs, list) ← msgFindReceiver s.msgs s.list receiver mask
      return (msg, { msgs := msgs, list := list })

/-- The messages in the queue, the oldest one first, with the nodes they are in. -/
abbrev MailList (β : Type) : Type := List (β × Mail)

/-- What the calls mean for the list. -/
def MailList.call (l : MailList β) : MailCall β → Except Halt (Option β × MailList β)
  | .enqueue msg mail => .ok (none, l ++ [(msg, mail)])
  | .deque =>
      match l with
      | [] => .error (.abort .queueingError)
      | m :: l => .ok (some m.1, l)
  | .findReceiver receiver mask =>
      if validId receiver = none then .error (.abort .queueingError)
      else .ok ((l.find? fun m => m.2.admits receiver mask).map Prod.fst,
        l.eraseP fun m => m.2.admits receiver mask)

/-- The queue in the memory is the list `l`. -/
structure MailMemory.Represents (s : MailMemory β) (l : MailList β) : Prop where
  holds : s.list.Holds s.msgs (l.map Prod.fst)
  mail_eq : ∀ m ∈ l, (s.msgs m.1).toMail = m.2

/-- A node is enqueued only if it is not in the queue and links to nothing, and there is room for
it. -/
def MailMemory.Admits (s : MailMemory β) (l : MailList β) : MailCall β → Prop
  | .enqueue msg _ => msg ∉ l.map Prod.fst ∧ (s.msgs msg).next = none ∧ l.length < 255
  | .deque => True
  | .findReceiver _ _ => True

namespace MailMemory.Represents

variable {s : MailMemory β} {l : MailList β} {m : β × Mail} {mail : Mail} {x : β} {receiver : Pid}
  {mask : Mask}

theorem nil (msgs : β → Msg β) : Represents ⟨msgs, msgQueueInit⟩ [] :=
  ⟨MsgQueue.Holds.nil msgs, by simp⟩

/-- What is admitted does not depend on where it is looked up. -/
theorem admits_eq (h : s.Represents l) (hm : m ∈ l) :
    (s.msgs m.1).admits receiver mask = m.2.admits receiver mask :=
  congrArg (fun mail : Mail => mail.admits receiver mask) (h.mail_eq m hm)

variable [DecidableEq β]

theorem enqueue (h : s.Represents l) (hx : x ∉ l.map Prod.fst) (hn : (s.msgs x).next = none)
    (hlen : l.length < 255) (mail : Mail) :
    ∃ s', s.call (.enqueue x mail) = .ok (none, s') ∧ s'.Represents (l ++ [(x, mail)]) := by
  set filled := Function.update s.msgs x { s.msgs x with toMail := mail } with hfilled
  have hself : (filled x).toMail = mail := by rw [hfilled, Function.update_self]
  have hother : ∀ m, m ≠ x → filled m = s.msgs m := fun m hm => Function.update_of_ne hm _ _
  have hne : ∀ m ∈ l.map Prod.fst, m ≠ x := fun m hm he => hx (he ▸ hm)
  have hholds : s.list.Holds filled (l.map Prod.fst) :=
    h.holds.congr fun m hm => congrArg Msg.next (hother m (hne m hm))
  have hnull : (filled x).next = none := by
    rw [hfilled, Function.update_self]
    exact hn
  obtain ⟨msgs', list', he, hq, hr⟩ := msgEnqueue_append hholds hx hnull (by simpa using hlen)
  refine ⟨⟨msgs', list'⟩, ?_, ?_, ?_⟩
  · rw [MailMemory.call]
    simp only [← hfilled, he]
    rfl
  · simpa using hq
  · intro m hm
    rw [hr.mail]
    rcases List.mem_append.1 hm with hm | hm
    · rw [hother m.1 (hne m.1 (List.mem_map_of_mem hm))]
      exact h.mail_eq m hm
    · rw [List.mem_singleton.1 hm]
      exact hself

theorem deque (h : s.Represents (m :: l)) :
    ∃ s', s.call .deque = .ok (some m.1, s') ∧ s'.Represents l ∧ (s'.msgs m.1).next = none := by
  obtain ⟨msgs', list', he, hq, hn, hr⟩ := msgDeque_cons h.holds
  refine ⟨⟨msgs', list'⟩, ?_, ⟨hq, ?_⟩, hn⟩
  · rw [MailMemory.call, he]
    rfl
  · intro m' hm'
    rw [hr.mail]
    exact h.mail_eq m' (List.mem_cons_of_mem m hm')

/-- No message is admitted, and nothing happens. -/
theorem find_none (h : s.Represents l) (hv : validId receiver ≠ none)
    (hnone : l.find? (fun m => m.2.admits receiver mask) = none) :
    s.call (.findReceiver receiver mask) = .ok (none, s) := by
  have hl : ∀ x ∈ l.map Prod.fst, (s.msgs x).admits receiver mask = false := by
    intro x hx
    obtain ⟨m, hm, rfl⟩ := List.mem_map.1 hx
    rw [h.admits_eq hm]
    simpa using List.find?_eq_none.1 hnone m hm
  rw [MailMemory.call, msgFindReceiver_none h.holds hv hl]
  rfl

/-- The first message that is admitted is taken, wherever it is. -/
theorem find_some (h : s.Represents l) (hv : validId receiver ≠ none)
    (hm : l.find? (fun m => m.2.admits receiver mask) = some m) :
    ∃ s', s.call (.findReceiver receiver mask) = .ok (some m.1, s') ∧
      s'.Represents (l.eraseP fun m => m.2.admits receiver mask) ∧
      (s'.msgs m.1).next = none := by
  obtain ⟨hadm, l₁, l₂, rfl, hl₁⟩ := List.find?_eq_some_iff_append.1 hm
  have hnot : ∀ m ∈ l₁, ¬ m.2.admits receiver mask = true := fun m hm => by simpa using hl₁ m hm
  have herase : (l₁ ++ m :: l₂).eraseP (fun m => m.2.admits receiver mask) = l₁ ++ l₂ := by
    rw [List.eraseP_append_right _ hnot, List.eraseP_cons, hadm]
    rfl
  have hfirst : ∀ x ∈ l₁.map Prod.fst, (s.msgs x).admits receiver mask = false := by
    intro x hx
    obtain ⟨m', hm', rfl⟩ := List.mem_map.1 hx
    rw [h.admits_eq (List.mem_append_left _ hm')]
    simpa using hnot m' hm'
  have hholds : s.list.Holds s.msgs (l₁.map Prod.fst ++ m.1 :: l₂.map Prod.fst) := by
    simpa using h.holds
  have hmem : m ∈ l₁ ++ m :: l₂ := by simp
  obtain ⟨msgs', list', he, hq, hn, hr⟩ :=
    msgFindReceiver_take hholds hv hfirst ((h.admits_eq hmem).trans hadm)
  rw [herase]
  refine ⟨⟨msgs', list'⟩, ?_, ⟨by simpa using hq, ?_⟩, hn⟩
  · rw [MailMemory.call, he]
    rfl
  · intro m' hm'
    rw [hr.mail]
    apply h.mail_eq m'
    rcases List.mem_append.1 hm' with hm' | hm'
    · exact List.mem_append_left _ hm'
    · exact List.mem_append_right _ (List.mem_cons_of_mem m hm')

/-- **One call.**  On the memory and on the list it has the same result.  The nodes that it returns
link to nothing, and a search that finds none changes nothing. -/
theorem call (h : s.Represents l) {c : MailCall β} (hc : s.Admits l c) :
    Rel (fun a b => a.1 = b.1 ∧ a.2.Represents b.2 ∧
      (∀ x, a.1 = some x → (a.2.msgs x).next = none) ∧
      ∀ receiver mask, c = .findReceiver receiver mask → a.1 = none → a.2 = s)
      (s.call c) (MailList.call l c) := by
  cases c with
  | enqueue x mail =>
    obtain ⟨hx, hn, hlen⟩ := hc
    obtain ⟨s', hs, hrep⟩ := h.enqueue hx hn hlen mail
    rw [hs]
    exact ⟨rfl, hrep, fun _ ho => (by cases ho), fun _ _ hc => (by cases hc)⟩
  | deque =>
    cases l with
    | nil =>
      rw [MailMemory.call, msgDeque, if_pos (h.holds.length_eq_zero.2 rfl)]
      exact Rel.error _
    | cons m l =>
      obtain ⟨s', hs, hrep, hnext⟩ := h.deque
      rw [hs]
      refine ⟨rfl, hrep, fun x ho => ?_, fun _ _ hc => (by cases hc)⟩
      rw [← Option.some.inj ho]
      exact hnext
  | findReceiver receiver mask =>
    by_cases hv : validId receiver = none
    · rw [MailMemory.call, msgFindReceiver, if_pos hv, MailList.call, if_pos hv]
      exact Rel.error _
    · cases hfind : l.find? fun m => m.2.admits receiver mask with
      | none =>
        have herase : (l.eraseP fun m => m.2.admits receiver mask) = l :=
          List.eraseP_of_forall_not (List.find?_eq_none.1 hfind)
        rw [h.find_none hv hfind, MailList.call, if_neg hv, hfind, herase]
        exact ⟨rfl, h, fun _ ho => (by cases ho), fun _ _ _ _ => rfl⟩
      | some m =>
        obtain ⟨s', hs, hrep, hnext⟩ := h.find_some hv hfind
        rw [hs, MailList.call, if_neg hv, hfind]
        refine ⟨rfl, hrep, fun x ho => ?_, fun _ _ _ ho => (by cases ho)⟩
        rw [← Option.some.inj ho]
        exact hnext

end MailMemory.Represents

/-! ### Any number of calls -/

variable [DecidableEq β]

/-- A call on the memory with its result.  The list beside it is changed as the call says. -/
def MailStep (p : MailMemory β × MailList β) (e : MailCall β × MailResult β)
    (p' : MailMemory β × MailList β) : Prop :=
  p.1.Admits p.2 e.1 ∧ attempt p.1 (p.1.call e.1) = (e.2, p'.1) ∧
    (attempt p.2 (p.2.call e.1)).2 = p'.2

/-- The call had the result that it has on the list, and left this list in the memory. -/
structure MailStep.Refines (p : MailMemory β × MailList β) (e : MailCall β × MailResult β)
    (p' : MailMemory β × MailList β) : Prop where
  result : (attempt p.2 (p.2.call e.1)).1 = e.2
  represents : p'.1.Represents p'.2
  /-- Searches that find nothing change nothing, nor do calls that fail, as `attempt` has it. -/
  unchanged : (∃ halt, e.2 = .error halt) ∨
    (∃ receiver mask, e = (.findReceiver receiver mask, .ok none)) → p'.1 = p.1
  next_eq : ∀ x, e.2 = .ok (some x) → (p'.1.msgs x).next = none

theorem MailStep.refines {p p' : MailMemory β × MailList β} {e : MailCall β × MailResult β}
    (hp : p.1.Represents p.2) (h : MailStep p e p') : MailStep.Refines p e p' := by
  obtain ⟨c, r⟩ := e
  obtain ⟨s', l'⟩ := p'
  obtain ⟨hadm, hcall, hlist⟩ := h
  rcases (hp.call hadm).attempt_cases p.1 p.2 with
    ⟨a, b, ha, hb, hres, hrep, hnext, hnone⟩ | ⟨halt, ha, hb⟩
  · obtain ⟨rfl, rfl⟩ := Prod.mk.inj (ha.symm.trans hcall)
    rw [hb] at hlist
    obtain rfl : b.2 = l' := hlist
    refine ⟨?_, hrep, ?_, fun x he => hnext x (Except.ok.inj he)⟩
    · rw [hb, hres]
    · rintro (⟨halt, he⟩ | ⟨receiver, mask, he⟩)
      · cases he
      · obtain ⟨hc, ho⟩ := Prod.mk.inj he
        exact hnone receiver mask hc (Except.ok.inj ho)
  · obtain ⟨rfl, rfl⟩ := Prod.mk.inj (ha.symm.trans hcall)
    rw [hb] at hlist
    obtain rfl : p.2 = l' := hlist
    refine ⟨?_, hp, fun _ => rfl, fun _ he => (by cases he)⟩
    rw [hb]

/-- **The message queue is a list.**  From `msg_queue_init` on, every call of `msg_enqueue`,
`msg_deque` and `msg_find_receiver` has the result that it has on the list of the messages, and the
queue is this list after it.  The nodes that leave it link to nothing. -/
theorem msg_queue_refines_list (msgs : β → Msg β) {es : List (MailCall β × MailResult β)}
    {p : MailMemory β × MailList β} (hrun : Run MailStep (⟨msgs, msgQueueInit⟩, []) es p) :
    Run (fun p e p' => MailStep p e p' ∧ MailStep.Refines p e p') (⟨msgs, msgQueueInit⟩, []) es p :=
  hrun.strengthen (P := fun p => p.1.Represents p.2) (MailMemory.Represents.nil msgs)
    fun _ _ _ hp hstep => ⟨hstep.refines hp, (hstep.refines hp).represents⟩

/-- Messages for two receivers. -/
def exampleMail (x : ℕ) : Mail :=
  if x = 1 then { receiver := 3, mask := 1 } else { receiver := 4, mask := 2 }

/-- The nodes of the first messages are filled in. -/
def exampleMsgs : ℕ → ℕ → Msg ℕ
  | 0 => fun _ => {}
  | x + 1 => Function.update (exampleMsgs x) (x + 1)
      { exampleMsgs x (x + 1) with toMail := exampleMail (x + 1) }

/-- Two messages are sent.  The second one is taken by its receiver, who then finds none. -/
theorem second_message_taken : ∃ p : MailMemory ℕ × MailList ℕ,
    Run (fun p e p' => MailStep p e p' ∧ MailStep.Refines p e p')
      (⟨exampleMsgs 0, msgQueueInit⟩, [])
      [(.enqueue 1 (exampleMail 1), .ok none), (.enqueue 2 (exampleMail 2), .ok none),
        (.findReceiver 4 2, .ok (some 2)), (.findReceiver 4 2, .ok none)] p := by
  have h1 : MailStep (⟨exampleMsgs 0, msgQueueInit⟩, []) (.enqueue 1 (exampleMail 1), .ok none)
      (⟨exampleMsgs 1, ⟨some 1, some 1, 1⟩⟩, [(1, exampleMail 1)]) :=
    ⟨⟨by decide, rfl, by decide⟩, rfl, rfl⟩
  have h2 : MailStep (⟨exampleMsgs 1, ⟨some 1, some 1, 1⟩⟩, [(1, exampleMail 1)])
      (.enqueue 2 (exampleMail 2), .ok none)
      (⟨setMsgNext (exampleMsgs 2) 1 (some 2), ⟨some 1, some 2, 2⟩⟩,
        [(1, exampleMail 1), (2, exampleMail 2)]) :=
    ⟨⟨by decide, rfl, by decide⟩, rfl, rfl⟩
  have h3 : MailStep (⟨setMsgNext (exampleMsgs 2) 1 (some 2), ⟨some 1, some 2, 2⟩⟩,
      [(1, exampleMail 1), (2, exampleMail 2)]) (.findReceiver 4 2, .ok (some 2))
      (⟨setMsgNext (setMsgNext (setMsgNext (exampleMsgs 2) 1 (some 2)) 1 none) 2 none,
        ⟨some 1, some 1, 1⟩⟩, [(1, exampleMail 1)]) :=
    ⟨trivial, rfl, rfl⟩
  have h4 : MailStep
      (⟨setMsgNext (setMsgNext (setMsgNext (exampleMsgs 2) 1 (some 2)) 1 none) 2 none,
        ⟨some 1, some 1, 1⟩⟩, [(1, exampleMail 1)]) (.findReceiver 4 2, .ok none)
      (⟨setMsgNext (setMsgNext (setMsgNext (exampleMsgs 2) 1 (some 2)) 1 none) 2 none,
        ⟨some 1, some 1, 1⟩⟩, [(1, exampleMail 1)]) :=
    ⟨trivial, rfl, rfl⟩
  exact ⟨_, msg_queue_refines_list _ ((((Run.single h1).snoc h2).snoc h3).snoc h4)⟩

end RoombaRtos
