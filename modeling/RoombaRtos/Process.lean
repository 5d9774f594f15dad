import RoombaRtos.Common
import RoombaRtos.Lib.LinkedChain
import RoombaRtos.Lib.ListQueue
import RoombaRtos.Lib.Lockstep

/-!
# Process descriptors and task queues

The intrusive task queues of `kernel/process.c`.  A descriptor lives in a table `pd` over an
arbitrary pointer type `α`, and the queues of all priorities link descriptors of that one
table through their `next` fields.

* `queueInit`, `peek`, `deque`, `enqueue`, `later`, `insert` follow the C functions; the `while`
  of `insert` is `insertScan`, bounded by the queue's `length`;
* `TaskQueue.Holds pd q l` — the queue `q` is exactly the list `l`;
* `Relinked S pd pd'` — only links of descriptors in `S` differ;
* `deque_cons`, `enqueue_append`, `insert_place` — what each operation does to the list.
-/

namespace RoombaRtos

open LinkedChain ListQueue

/-- Where a `KERNEL_REQUEST_PARAMS` block lives: on the stack of a process inside an API stub,
of the timer interrupt, or of `Kernel_Init`. -/
inductive InfoPtr (α : Type)
  | stub (p : α)
  | timerIsr
  | kernelInit
deriving DecidableEq, Repr

/-- What a process descriptor holds besides its queue link. -/
structure Task (α : Type) where
  state : ProcessState := .dead
  code : TaskFuncPtr := none
  arg : Word := 0
  processId : Pid := 0
  priority : PriorityLevel := .system
  period : Tick := 0
  wcet : Tick := 0
  tons : Tick := 0
  ticksRemaining : Tick := 0
  clockState : OverflowState := .even
  reqParams : Option (InfoPtr α) := none
deriving DecidableEq, Repr

/-- A process descriptor.  The all-default value is the zeroed one. -/
structure PD (α : Type) extends Task α where
  next : Option α := none
deriving DecidableEq, Repr

structure TaskQueue (α : Type) where
  head : Option α
  tail : Option α
  length : BitVec 8
  type : PriorityLevel
deriving DecidableEq, Repr

variable {α : Type}

def peek (list : TaskQueue α) : Option α := list.head

/-! ### Relinking and queues as lists -/

/-- Only the links of descriptors in `S` may differ. -/
structure Relinked (S : List α) (pd pd' : α → PD α) : Prop where
  task : ∀ p, (pd' p).toTask = (pd p).toTask
  other : ∀ p, p ∉ S → (pd' p).next = (pd p).next

namespace Relinked

variable {S T : List α} {pd pd' pd'' : α → PD α}

theorem refl (S : List α) (pd : α → PD α) : Relinked S pd pd := ⟨fun _ => rfl, fun _ _ => rfl⟩

theorem trans (h : Relinked S pd pd') (h' : Relinked S pd' pd'') : Relinked S pd pd'' :=
  ⟨fun p => (h'.task p).trans (h.task p), fun p hp => (h'.other p hp).trans (h.other p hp)⟩

theorem mono (h : Relinked S pd pd') (hST : ∀ p ∈ S, p ∈ T) : Relinked T pd pd' :=
  ⟨h.task, fun p hp => h.other p (fun hS => hp (hST p hS))⟩

end Relinked

/-- The queue `q` over the table `pd` is exactly the list `l`. -/
structure TaskQueue.Holds (pd : α → PD α) (q : TaskQueue α) (l : List α) : Prop where
  linked : Linked (fun p => (pd p).next) q.head q.tail l
  length_eq : q.length.toNat = l.length

instance [DecidableEq α] (pd : α → PD α) (q : TaskQueue α) (l : List α) :
    Decidable (q.Holds pd l) :=
  decidable_of_iff (Linked (fun p => (pd p).next) q.head q.tail l ∧ q.length.toNat = l.length)
    ⟨fun h => ⟨h.1, h.2⟩, fun h => ⟨h.linked, h.length_eq⟩⟩

namespace TaskQueue.Holds

variable {pd pd' : α → PD α} {q q' : TaskQueue α} {l : List α} {a : α}

theorem nil (pd : α → PD α) (type : PriorityLevel) :
    (⟨none, none, 0, type⟩ : TaskQueue α).Holds pd [] :=
  ⟨Linked.nil, rfl⟩

theorem congr (h : q.Holds pd l) (hl : ∀ p ∈ l, (pd' p).next = (pd p).next) :
    q.Holds pd' l :=
  ⟨h.linked.congr hl, h.length_eq⟩

/-- The link of a task in the queue is the one behind it. -/
theorem next_eq (h : q.Holds pd l) (h' : q'.Holds pd' l) (ha : a ∈ l) :
    (pd' a).next = (pd a).next := by
  obtain ⟨l₁, l₂, rfl⟩ := List.append_of_mem ha
  exact h'.linked.next_of_append_cons.trans h.linked.next_of_append_cons.symm

/-- Two queues that hold the same list are the same, and so are their tables, where only the links
of this list may differ. -/
theorem eq_of_relinked (h : q.Holds pd l) (h' : q'.Holds pd' l) (hr : Relinked l pd pd')
    (ht : q'.type = q.type) : pd' = pd ∧ q' = q := by
  constructor
  · funext a
    have hnext : (pd' a).next = (pd a).next := by
      by_cases ha : a ∈ l
      · exact h.next_eq h' ha
      · exact hr.other a ha
    have htask := hr.task a
    calc pd' a = { (pd' a).toTask with next := (pd' a).next } := rfl
      _ = { (pd a).toTask with next := (pd a).next } := by rw [htask, hnext]
      _ = pd a := rfl
  · have hhead : q'.head = q.head := h'.linked.head_eq.trans h.linked.head_eq.symm
    have htail : q'.tail = q.tail := h'.linked.tail_eq.trans h.linked.tail_eq.symm
    have hlen : q'.length = q.length :=
      BitVec.eq_of_toNat_eq (h'.length_eq.trans h.length_eq.symm)
    calc q' = ⟨q'.head, q'.tail, q'.length, q'.type⟩ := rfl
      _ = ⟨q.head, q.tail, q.length, q.type⟩ := by rw [hhead, htail, hlen, ht]
      _ = q := rfl

theorem peek_eq (h : q.Holds pd l) : peek q = l.head? := h.linked.head_eq

theorem length_eq_zero (h : q.Holds pd l) : q.length = 0 ↔ l = [] :=
  count_eq_zero h.length_eq

theorem length_lt (h : q.Holds pd l) : l.length < 256 := by
  rw [← h.length_eq]
  exact q.length.isLt

end TaskQueue.Holds

/-! ### The search of `insert` -/

/-- `t1` is scheduled later than `t2`, taking the epoch of the clock into account. -/
def later (t1 t2 : Task α) : Bool :=
  (t1.clockState != t2.clockState && t1.tons < t2.tons) ||
    (t1.clockState == t2.clockState && t1.tons > t2.tons)

/-- The condition under which the search of `insert` moves past `element`. -/
def scansPast (task : Task α) (sysClock : Tick) (element : Task α) : Bool :=
  later task element || element.ticksRemaining < element.wcet || element.tons ≤ sysClock

/-- The `while` loop of `insert`: yields `element_prev` and `element`. -/
def insertScan (pd : α → PD α) (task : α) (sysClock : Tick) :
    ℕ → Option α → Option α → Except Halt (Option α × Option α)
  | _, prev, none => .ok (prev, none)
  | 0, _, some _ => .error .diverges
  | fuel + 1, prev, some element =>
      if scansPast (pd task).toTask sysClock (pd element).toTask then
        insertScan pd task sysClock fuel (some element) (pd element).next
      else .ok (prev, some element)

theorem insertScan_eq (pd : α → PD α) (x : α) (sysClock : Tick) (fuel : ℕ) (prev h : Option α) :
    insertScan pd x sysClock fuel prev h =
      (scan (fun p => (pd p).next) (fun e => scansPast (pd x).toTask sysClock (pd e).toTask)
        fuel prev h).elim (.error .diverges) .ok := by
  induction fuel generalizing prev h with
  | zero => cases h <;> rfl
  | succ fuel ih =>
    cases h with
    | none => rfl
    | some e =>
      rw [insertScan, scan, ih]
      split <;> rfl

/-- The search stops behind the longest prefix it scans past. -/
theorem insertScan_seg {pd : α → PD α} {x : α} {l : List α} (sysClock : Tick)
    {h prev : Option α} {fuel : ℕ}
    (hs : Seg (fun p => (pd p).next) h l none) (hfuel : l.length ≤ fuel) :
    insertScan pd x sysClock fuel prev h =
      .ok ((l.takeWhile fun e => scansPast (pd x).toTask sysClock (pd e).toTask).getLast?.or prev,
        (l.dropWhile fun e => scansPast (pd x).toTask sysClock (pd e).toTask).head?) := by
  rw [insertScan_eq, scan_of_le hs hfuel]
  rfl

variable [DecidableEq α]

/-! ### The queue operations -/

/-- `p->next = n`. -/
def setNext (pd : α → PD α) (p : α) (n : Option α) : α → PD α :=
  Function.update pd p { pd p with next := n }

def queueInit (type : PriorityLevel) : Except Halt (TaskQueue α) :=
  if type = .unlisted then .error (.abort .queueingError)
  else .ok { head := none, tail := none, length := 0, type := type }

def deque (pd : α → PD α) (list : TaskQueue α) :
    Except Halt (α × (α → PD α) × TaskQueue α) :=
  if list.length = 0 then .error (.abort .queueingError)
  else
    match list.head with
    | none => .error .undefinedAccess
    | some element => do
        let length := list.length - 1
        let list ←
          if length = 0 then queueInit list.type
          else pure { list with head := (pd element).next, length := length }
        return (element, setNext pd element none, list)

def enqueue (pd : α → PD α) (list : TaskQueue α) (task : α) :
    Except Halt ((α → PD α) × TaskQueue α) :=
  if list.type ≠ (pd task).priority then .error (.abort .queueingError)
  else if list.length = 0 then
    .ok (pd, { list with head := some task, tail := some task, length := 1 })
  else
    match list.tail with
    | none => .error .undefinedAccess
    | some tail =>
        .ok (setNext pd tail (some task),
          { list with tail := some task, length := list.length + 1 })

def insert (pd : α → PD α) (list : TaskQueue α) (task : α) (sysClock : Tick) :
    Except Halt ((α → PD α) × TaskQueue α) :=
  if list.type ≠ (pd task).priority ∨ list.type ≠ .periodic then
    .error (.abort .queueingError)
  else if list.length = 0 then enqueue pd list task
  else do
    let (elementPrev, element) ← insertScan pd task sysClock list.length.toNat none list.head
    match elementPrev, element with
    | none, element =>
        return (setNext pd task element,
          { list with head := some task, length := list.length + 1 })
    | some prev, none =>
        return (setNext (setNext pd prev (some task)) task none,
          { list with tail := some task, length := list.length + 1 })
    | some prev, some element =>
        return (setNext (setNext pd task (some element)) prev (some task),
          { list with length := list.length + 1 })

/-! ### Effect of an assignment to a link -/

theorem next_setNext (pd : α → PD α) (p : α) (n : Option α) :
    (fun q => (setNext pd p n q).next) = Function.update (fun q => (pd q).next) p n := by
  funext q
  by_cases h : q = p
  · subst h; simp [setNext]
  · simp [setNext, h]

@[simp] theorem toTask_setNext (pd : α → PD α) (p q : α) (n : Option α) :
    (setNext pd p n q).toTask = (pd q).toTask := by
  by_cases h : q = p
  · subst h; simp [setNext]
  · simp [setNext, h]

theorem Relinked.setNext {S : List α} {pd : α → PD α} {p : α} (hp : p ∈ S) (n : Option α) :
    Relinked S pd (RoombaRtos.setNext pd p n) := by
  refine ⟨fun q => toTask_setNext pd p q n, fun q hq => ?_⟩
  have hqp : q ≠ p := fun h => hq (h ▸ hp)
  simp [RoombaRtos.setNext, hqp]

section Specifications

variable {pd : α → PD α} {q : TaskQueue α} {l : List α} {a x : α}

/-- **Dequeue.**  The head is returned with a null link and the rest stays queued. -/
theorem deque_cons (h : q.Holds pd (a :: l)) (ht : q.type ≠ .unlisted) :
    ∃ q', deque pd q = .ok (a, setNext pd a none, q') ∧
      q'.Holds (setNext pd a none) l ∧ q'.type = q.type := by
  have hne : q.length ≠ 0 := fun e => by simpa using h.length_eq_zero.1 e
  have hhead : q.head = some a := h.linked.head_eq
  have hlen : q.length.toNat = l.length + 1 := h.length_eq
  have hlen' : (q.length - 1).toNat = l.length := by
    rw [toNat_sub_one (by omega)]
    omega
  by_cases hl : l = []
  · subst hl
    have h0 : q.length - 1 = 0 := BitVec.eq_of_toNat_eq (by simpa using hlen')
    refine ⟨⟨none, none, 0, q.type⟩, ?_, TaskQueue.Holds.nil _ _, rfl⟩
    simp only [deque, if_neg hne, hhead, h0, if_true, queueInit, if_neg ht]
    rfl
  · have h0 : q.length - 1 ≠ 0 := by
      intro e
      rw [e] at hlen'
      exact hl (List.length_eq_zero_iff.1 hlen'.symm)
    refine ⟨{ q with head := (pd a).next, length := q.length - 1 }, ?_, ⟨?_, hlen'⟩, rfl⟩
    · simp only [deque, if_neg hne, hhead, if_neg h0]
      rfl
    · have hp := Linked.pop (hhead ▸ h.linked) hl
      rwa [← next_setNext] at hp

/-- **Enqueue.**  An unlinked task of the queue's level goes to the end of the list. -/
theorem enqueue_append (h : q.Holds pd l) (hp : (pd x).priority = q.type) (hx : x ∉ l)
    (hn : (pd x).next = none) (hlen : l.length < 255) :
    ∃ pd' q', enqueue pd q x = .ok (pd', q') ∧ q'.Holds pd' (l ++ [x]) ∧ q'.type = q.type ∧
      Relinked l pd pd' := by
  rw [enqueue, if_neg (by simp [hp])]
  by_cases hl : l = []
  · subst hl
    rw [if_pos (h.length_eq_zero.2 rfl)]
    exact ⟨pd, _, rfl, ⟨⟨⟨rfl, hn⟩, rfl, List.nodup_singleton x⟩, rfl⟩, rfl, Relinked.refl _ _⟩
  · rw [if_neg (fun e => hl (h.length_eq_zero.1 e))]
    obtain ⟨t, ht⟩ : ∃ t, l.getLast? = some t := ⟨_, List.getLast?_eq_some_getLast hl⟩
    have htail : q.tail = some t := by rw [h.linked.tail_eq, ht]
    rw [htail]
    refine ⟨_, _, rfl, ⟨?_, ?_⟩, rfl, Relinked.setNext (List.mem_of_getLast? ht) _⟩
    · rw [next_setNext]
      exact h.linked.push htail hx hn
    · have hq := h.length_eq
      rw [toNat_add_one (by omega), hq, List.length_append, List.length_singleton]

/-- **Insert.**  An unlinked periodic task is placed behind the longest prefix that the search
scans past. -/
theorem insert_place (h : q.Holds pd l) (ht : q.type = .periodic)
    (hp : (pd x).priority = .periodic) (hx : x ∉ l) (hn : (pd x).next = none)
    (hlen : l.length < 255) (sysClock : Tick) :
    ∃ pd' q', insert pd q x sysClock = .ok (pd', q') ∧
      q'.Holds pd'
        (placeBehind (fun e => scansPast (pd x).toTask sysClock (pd e).toTask) x l) ∧
      q'.type = q.type ∧ Relinked (x :: l) pd pd' := by
  rw [insert, if_neg (by simp [ht, hp])]
  by_cases hl : l = []
  · subst hl
    rw [if_pos (h.length_eq_zero.2 rfl)]
    obtain ⟨pd', q', he, hq, hty, hr⟩ :=
      enqueue_append h (hp.trans ht.symm) hx hn hlen
    exact ⟨pd', q', he, hq, hty, hr.mono (by simp)⟩
  · rw [if_neg (fun e => hl (h.length_eq_zero.1 e)),
      insertScan_seg sysClock h.linked.seg (by rw [h.length_eq])]
    set keep : α → Bool := fun e => scansPast (pd x).toTask sysClock (pd e).toTask with hkeep
    have hsplit : l = l.takeWhile keep ++ l.dropWhile keep :=
      (List.takeWhile_append_dropWhile).symm
    have hlen' : (q.length + 1).toNat = (placeBehind keep x l).length := by
      have hq := h.length_eq
      rw [(placeBehind_perm keep x l).length_eq, toNat_add_one (by omega), hq, List.length_cons]
    -- the three places where the C code relinks: front, end, between
    rcases List.eq_nil_or_concat (l.takeWhile keep) with hk | ⟨r, p, hk⟩
    · -- nothing was scanned past: insertion at the front
      have hd : l.dropWhile keep = l := by rw [hk] at hsplit; exact hsplit.symm
      simp only [hk, hd, List.getLast?_nil, Option.or_none,
        Lockstep.ok_bind]
      refine ⟨_, _, rfl, ⟨?_, hlen'⟩, rfl, Relinked.setNext (by simp) _⟩
      rw [placeBehind, hk, hd, next_setNext, ← h.linked.head_eq]
      exact h.linked.insertFront hl hx
    · have hlast : (l.takeWhile keep).getLast? = some p := by simp [hk]
      have hmem : p ∈ l := by
        rw [hsplit, hk]
        simp
      cases hd : l.dropWhile keep with
      | nil =>
        -- everything was scanned past: insertion at the end
        have hl' : l = r ++ [p] := by rw [hsplit, hk, hd]; simp
        simp only [hlast, List.head?_nil, Option.or_none,
          Lockstep.ok_bind]
        refine ⟨_, _, rfl, ⟨?_, hlen'⟩, rfl,
          (Relinked.setNext (by simp [hmem]) _).trans (Relinked.setNext (by simp) _)⟩
        have htail : q.tail = some p := by rw [h.linked.tail_eq, hl']; simp
        have hpush := h.linked.push htail hx hn
        have hself : setNext (setNext pd p (some x)) x none = setNext pd p (some x) := by
          have hxp : x ≠ p := fun e => hx (e ▸ hmem)
          funext b
          by_cases hb : b = x
          · subst hb
            rw [setNext, Function.update_self, setNext, Function.update_of_ne hxp]
            rw [← hn]
          · rw [setNext, Function.update_of_ne hb]
        rw [hself, next_setNext, placeBehind, hk, hd]
        simpa [hl'] using hpush
      | cons e m =>
        -- insertion between `p` and `e`
        have hl' : l = r ++ p :: e :: m := by rw [hsplit, hk, hd]; simp
        simp only [hlast, List.head?_cons, Option.some_or, Lockstep.ok_bind]
        refine ⟨_, _, rfl, ⟨?_, hlen'⟩, rfl,
          (Relinked.setNext (by simp) _).trans (Relinked.setNext (by simp [hmem]) _)⟩
        have hpe : (pd p).next = some e := by
          have := (hl' ▸ h.linked).next_of_append_cons
          simpa using this
        have hins := Linked.insertAfter (hl' ▸ h.linked) (by simp) (hl' ▸ hx)
        rw [hpe] at hins
        rw [next_setNext, next_setNext, placeBehind, hk, hd]
        simpa using hins

end Specifications

end RoombaRtos
