import RoombaRtos.Common
import RoombaRtos.Lib.LinkedChain
import RoombaRtos.Lib.ListQueue
import RoombaRtos.Lib.Lockstep

/-!
# Messages and the message queue

The queue of outgoing messages of `kernel/message.c`, shared by all receivers.  Message nodes
live in a table over an arbitrary pointer type `β`.

* `msgQueueInit`, `msgDeque`, `msgEnqueue`, `msgFindReceiver` follow the C functions; the
  `while` of `msg_find_receiver` is `msgScan`;
* `MsgQueue.Holds msgs q l` — the queue is exactly the list of nodes `l`;
* `msgEnqueue_append` and `msgFindReceiver_take` — appending, and removal of the first
  message for a receiver under a mask, in each of the four pointer cases.
-/

namespace RoombaRtos

open LinkedChain ListQueue

/-- What a message node holds besides its queue link. -/
structure Mail where
  data : Option Addr := none
  mask : MType := 0
  sender : Pid := 0
  receiver : Pid := 0
deriving DecidableEq, Repr

structure Msg (β : Type) extends Mail where
  next : Option β := none
deriving DecidableEq, Repr

structure MsgQueue (β : Type) where
  head : Option β
  tail : Option β
  length : BitVec 8
deriving DecidableEq, Repr

/-- The message is for `receiver` and of a type that `mask` admits. -/
def Mail.admits (m : Mail) (receiver : Pid) (mask : Mask) : Bool :=
  m.receiver == receiver && maskTestAny mask m.mask

variable {β : Type}

def msgQueueInit : MsgQueue β := { head := none, tail := none, length := 0 }

/-- The `while` loop of `msg_find_receiver`: yields `prev` and `curr`. -/
def msgScan (msgs : β → Msg β) (receiver : Pid) (mask : Mask) :
    ℕ → Option β → Option β → Except Halt (Option β × Option β)
  | _, prev, none => .ok (prev, none)
  | 0, _, some _ => .error .diverges
  | fuel + 1, prev, some curr =>
      if (msgs curr).admits receiver mask then .ok (prev, some curr)
      else msgScan msgs receiver mask fuel (some curr) (msgs curr).next

/-- The queue is exactly the list of nodes `l`. -/
structure MsgQueue.Holds (msgs : β → Msg β) (q : MsgQueue β) (l : List β) : Prop where
  linked : Linked (fun m => (msgs m).next) q.head q.tail l
  length_eq : q.length.toNat = l.length

theorem MsgQueue.Holds.nil (msgs : β → Msg β) : (msgQueueInit : MsgQueue β).Holds msgs [] :=
  ⟨Linked.nil, rfl⟩

theorem MsgQueue.Holds.congr {msgs msgs' : β → Msg β} {q : MsgQueue β} {l : List β}
    (h : q.Holds msgs l) (hl : ∀ m ∈ l, (msgs' m).next = (msgs m).next) : q.Holds msgs' l :=
  ⟨h.linked.congr hl, h.length_eq⟩

theorem MsgQueue.Holds.length_eq_zero {msgs : β → Msg β} {q : MsgQueue β} {l : List β}
    (h : q.Holds msgs l) : q.length = 0 ↔ l = [] :=
  count_eq_zero h.length_eq

theorem msgScan_eq (msgs : β → Msg β) (receiver : Pid) (mask : Mask) (fuel : ℕ)
    (prev h : Option β) :
    msgScan msgs receiver mask fuel prev h =
      (scan (fun m => (msgs m).next) (fun m => !(msgs m).admits receiver mask)
        fuel prev h).elim (.error .diverges) .ok := by
  induction fuel generalizing prev h with
  | zero => cases h <;> rfl
  | succ fuel ih =>
    cases h with
    | none => rfl
    | some m =>
      rw [msgScan, scan, ih]
      cases (msgs m).admits receiver mask <;> rfl

/-- The search stops at the first admitted message. -/
theorem msgScan_seg {msgs : β → Msg β} {receiver : Pid} {mask : Mask} {l : List β}
    {h prev : Option β} {fuel : ℕ} (hs : Seg (fun m => (msgs m).next) h l none)
    (hfuel : l.length ≤ fuel) :
    msgScan msgs receiver mask fuel prev h =
      .ok ((l.takeWhile fun m => !(msgs m).admits receiver mask).getLast?.or prev,
        l.find? fun m => (msgs m).admits receiver mask) := by
  rw [msgScan_eq, scan_of_le hs hfuel, List.find?_eq_head?_dropWhile_not]
  rfl

variable [DecidableEq β]

/-! ### The queue operations -/

/-- `msg->next = n`. -/
def setMsgNext (msgs : β → Msg β) (m : β) (n : Option β) : β → Msg β :=
  Function.update msgs m { msgs m with next := n }

def msgDeque (msgs : β → Msg β) (list : MsgQueue β) :
    Except Halt (β × (β → Msg β) × MsgQueue β) :=
  if list.length = 0 then .error (.abort .queueingError)
  else
    match list.head with
    | none => .error .undefinedAccess
    | some curr =>
        let length := list.length - 1
        if length = 0 then .ok (curr, msgs, msgQueueInit)
        else .ok (curr, setMsgNext msgs curr none,
          { list with head := (msgs curr).next, length := length })

def msgEnqueue (msgs : β → Msg β) (list : MsgQueue β) (msg : β) :
    Except Halt ((β → Msg β) × MsgQueue β) :=
  if list.length = 0 then
    .ok (msgs, { head := some msg, tail := some msg, length := list.length + 1 })
  else
    match list.tail with
    | none => .error .undefinedAccess
    | some tail =>
        .ok (setMsgNext msgs tail (some msg),
          { list with tail := some msg, length := list.length + 1 })

/-- Finds and removes the first message for `receiver` matching the mask. -/
def msgFindReceiver (msgs : β → Msg β) (list : MsgQueue β) (receiver : Pid) (mask : Mask) :
    Except Halt (Option β × (β → Msg β) × MsgQueue β) :=
  -- `OS_Abort` is called from inside the kernel here
  if validId receiver = none then .error (.abort .queueingError)
  else do
    let (prev, curr) ← msgScan msgs receiver mask list.length.toNat none list.head
    match curr with
    | none => return (none, msgs, list)
    | some curr =>
        let (msgs, list) ←
          if list.head = some curr ∧ list.tail = some curr then
            pure (msgs, { list with head := none, tail := none })
          else if list.head = some curr then
            pure (msgs, { list with head := (msgs curr).next })
          else
            match prev with
            | none => .error .undefinedAccess
            | some prev =>
                if list.tail = some curr then
                  pure (setMsgNext msgs prev none, { list with tail := some prev })
                else
                  pure (setMsgNext msgs prev (msgs curr).next, list)
        return (some curr, setMsgNext msgs curr none, { list with length := list.length - 1 })

/-! ### Effect on the list -/

theorem next_setMsgNext (msgs : β → Msg β) (m : β) (n : Option β) :
    (fun c => (setMsgNext msgs m n c).next) = Function.update (fun c => (msgs c).next) m n := by
  funext c
  by_cases h : c = m
  · subst h; simp [setMsgNext]
  · simp [setMsgNext, h]

@[simp] theorem toMail_setMsgNext (msgs : β → Msg β) (m c : β) (n : Option β) :
    (setMsgNext msgs m n c).toMail = (msgs c).toMail := by
  by_cases h : c = m
  · subst h; simp [setMsgNext]
  · simp [setMsgNext, h]

/-- The table after a queue operation: contents are untouched, and links change only inside
`S`. -/
structure MailRelinked (S : List β) (msgs msgs' : β → Msg β) : Prop where
  mail : ∀ m, (msgs' m).toMail = (msgs m).toMail
  other : ∀ m, m ∉ S → (msgs' m).next = (msgs m).next

theorem MailRelinked.setMsgNext {S : List β} {msgs : β → Msg β} {m : β} (hm : m ∈ S)
    (n : Option β) : MailRelinked S msgs (setMsgNext msgs m n) := by
  refine ⟨fun c => toMail_setMsgNext msgs m c n, fun c hc => ?_⟩
  have hcm : c ≠ m := fun h => hc (h ▸ hm)
  simp [RoombaRtos.setMsgNext, hcm]

omit [DecidableEq β] in
theorem MailRelinked.trans {S : List β} {msgs msgs' msgs'' : β → Msg β}
    (h : MailRelinked S msgs msgs') (h' : MailRelinked S msgs' msgs'') :
    MailRelinked S msgs msgs'' :=
  ⟨fun m => (h'.mail m).trans (h.mail m), fun m hm => (h'.other m hm).trans (h.other m hm)⟩

section Specifications

variable {msgs : β → Msg β} {q : MsgQueue β} {l l₁ l₂ : List β} {c x : β}
  {receiver : Pid} {mask : Mask}

/-- **Enqueue.**  An unlinked node goes to the end of the list. -/
theorem msgEnqueue_append (h : q.Holds msgs l) (hx : x ∉ l) (hn : (msgs x).next = none)
    (hlen : l.length < 255) :
    ∃ msgs' q', msgEnqueue msgs q x = .ok (msgs', q') ∧ q'.Holds msgs' (l ++ [x]) ∧
      MailRelinked l msgs msgs' := by
  have hcount : (q.length + 1).toNat = (l ++ [x]).length := by
    have hq := h.length_eq
    rw [toNat_add_one (by omega), hq, List.length_append, List.length_singleton]
  rw [msgEnqueue]
  by_cases hl : l = []
  · subst hl
    rw [if_pos (h.length_eq_zero.2 rfl)]
    exact ⟨msgs, _, rfl, ⟨⟨⟨rfl, hn⟩, rfl, List.nodup_singleton x⟩, hcount⟩,
      ⟨fun _ => rfl, fun _ _ => rfl⟩⟩
  · rw [if_neg (fun e => hl (h.length_eq_zero.1 e))]
    obtain ⟨t, ht⟩ : ∃ t, l.getLast? = some t := ⟨_, List.getLast?_eq_some_getLast hl⟩
    have htail : q.tail = some t := by rw [h.linked.tail_eq, ht]
    rw [htail]
    refine ⟨_, _, rfl, ⟨?_, hcount⟩, MailRelinked.setMsgNext (List.mem_of_getLast? ht) _⟩
    rw [next_setMsgNext]
    exact h.linked.push htail hx hn

/-- **Dequeue.**  The head node is removed with a null link. -/
theorem msgDeque_cons (h : q.Holds msgs (c :: l)) :
    ∃ msgs' q', msgDeque msgs q = .ok (c, msgs', q') ∧ q'.Holds msgs' l ∧
      (msgs' c).next = none ∧ MailRelinked [c] msgs msgs' := by
  have hne : q.length ≠ 0 := fun e => by simpa using h.length_eq_zero.1 e
  have hhead : q.head = some c := h.linked.head_eq
  have hlen : q.length.toNat = l.length + 1 := h.length_eq
  have hlen' : (q.length - 1).toNat = l.length := by
    rw [toNat_sub_one (by omega)]
    omega
  rw [msgDeque, if_neg hne, hhead]
  by_cases hl : l = []
  · subst hl
    have h0 : q.length - 1 = 0 := BitVec.eq_of_toNat_eq (by simpa using hlen')
    refine ⟨msgs, msgQueueInit, by simp only [h0, if_true], MsgQueue.Holds.nil msgs, ?_,
      ⟨fun _ => rfl, fun _ _ => rfl⟩⟩
    have h1 : Linked (fun m => (msgs m).next) q.head q.tail ([] ++ [c]) := h.linked
    exact h1.next_last
  · have h0 : q.length - 1 ≠ 0 := by
      intro e
      rw [e] at hlen'
      exact hl (List.length_eq_zero_iff.1 hlen'.symm)
    refine ⟨setMsgNext msgs c none,
      { q with head := (msgs c).next, length := q.length - 1 }, by simp only [if_neg h0],
      ⟨?_, hlen'⟩, ?_, MailRelinked.setMsgNext (by simp) _⟩
    · have hp := Linked.pop (hhead ▸ h.linked) hl
      rwa [← next_setMsgNext] at hp
    · simp [setMsgNext]

/-- With no admitted message the search changes nothing. -/
theorem msgFindReceiver_none (h : q.Holds msgs l) (hv : validId receiver ≠ none)
    (hl : ∀ m ∈ l, (msgs m).admits receiver mask = false) :
    msgFindReceiver msgs q receiver mask = .ok (none, msgs, q) := by
  have hf : (l.find? fun m => (msgs m).admits receiver mask) = none := by
    rw [List.find?_eq_none]
    intro m hm
    simp [hl m hm]
  rw [msgFindReceiver, if_neg hv, msgScan_seg h.linked.seg (by rw [h.length_eq]), hf]
  rfl

/-- **Masked removal.**  The first admitted message leaves the queue with a null link, and the
others keep their order. -/
theorem msgFindReceiver_take (h : q.Holds msgs (l₁ ++ c :: l₂)) (hv : validId receiver ≠ none)
    (hl₁ : ∀ m ∈ l₁, (msgs m).admits receiver mask = false)
    (hc : (msgs c).admits receiver mask = true) :
    ∃ msgs' q', msgFindReceiver msgs q receiver mask = .ok (some c, msgs', q') ∧
      q'.Holds msgs' (l₁ ++ l₂) ∧ (msgs' c).next = none ∧
      MailRelinked (l₁ ++ c :: l₂) msgs msgs' := by
  have hf : (l₁ ++ c :: l₂).find? (fun m => (msgs m).admits receiver mask) = some c := by
    rw [List.find?_append, List.find?_eq_none.2 (by intro m hm; simp [hl₁ m hm])]
    simp [hc]
  have ht : (l₁ ++ c :: l₂).takeWhile (fun m => !(msgs m).admits receiver mask) = l₁ := by
    rw [List.takeWhile_append_of_pos (by intro m hm; simp [hl₁ m hm])]
    simp [hc]
  have hlen : (q.length - 1).toNat = (l₁ ++ l₂).length := by
    have hq := h.length_eq
    simp only [List.length_append, List.length_cons] at hq ⊢
    rw [toNat_sub_one (by omega)]
    omega
  have hhead := h.linked.head_eq_iff
  have htail := h.linked.tail_eq_iff
  rw [msgFindReceiver, if_neg hv, msgScan_seg h.linked.seg (by rw [h.length_eq]), hf, ht,
    Option.or_none]
  simp only [Lockstep.ok_bind]
  rcases List.eq_nil_or_concat l₁ with rfl | ⟨r, p, hrp⟩
  · -- the match is the head of the queue
    have hc₀ : q.head = some c := hhead.2 rfl
    cases l₂ with
    | nil =>
      rw [if_pos ⟨hc₀, htail.2 rfl⟩]
      refine ⟨_, _, rfl, ⟨Linked.nil, hlen⟩, by simp [setMsgNext],
        MailRelinked.setMsgNext (by simp) _⟩
    | cons e m =>
      have hlast : q.tail ≠ some c := fun he => by simpa using htail.1 he
      rw [if_neg (fun hh => hlast hh.2), if_pos hc₀]
      refine ⟨_, _, rfl, ⟨?_, hlen⟩, by simp [setMsgNext], MailRelinked.setMsgNext (by simp) _⟩
      rw [next_setMsgNext]
      exact Linked.pop (hc₀ ▸ h.linked) (by simp)
  · -- the match has a predecessor `p`
    rw [List.concat_eq_append] at hrp
    subst hrp
    have hfirst : q.head ≠ some c := fun he => by simpa using hhead.1 he
    rw [if_neg (fun hh => hfirst hh.1), if_neg hfirst]
    simp only [List.getLast?_append, List.getLast?_singleton, Option.some_or]
    cases l₂ with
    | nil =>
      rw [if_pos (htail.2 rfl)]
      refine ⟨_, _, rfl, ⟨?_, hlen⟩, by simp [setMsgNext],
        (MailRelinked.setMsgNext (by simp) _).trans (MailRelinked.setMsgNext (by simp) _)⟩
      rw [next_setMsgNext, next_setMsgNext]
      have hq : Linked (fun m => (msgs m).next) q.head q.tail (r ++ [p, c]) := by
        simpa using h.linked
      simpa using hq.removeLast
    | cons e m =>
      have hlast : q.tail ≠ some c := fun he => by simpa using htail.1 he
      rw [if_neg hlast]
      refine ⟨_, _, rfl, ⟨?_, hlen⟩, by simp [setMsgNext],
        (MailRelinked.setMsgNext (by simp) _).trans (MailRelinked.setMsgNext (by simp) _)⟩
      rw [next_setMsgNext, next_setMsgNext]
      have hq : Linked (fun m => (msgs m).next) q.head q.tail (r ++ p :: c :: e :: m) := by
        simpa using h.linked
      simpa using hq.removeAfter (by simp)

end Specifications

end RoombaRtos
