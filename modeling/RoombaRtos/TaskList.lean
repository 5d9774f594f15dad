import RoombaRtos.Process

/-!
# The task queue as a list

The functions of `kernel/process.c` that all queues of the kernel are made with, called in any order
on one queue.

* `QueueMemory` — a queue and the descriptors, and what the functions do to them;
* `TaskList` — what the queue is for: tasks leave it in the order in which they entered;
* `QueueMemory.Represents` — the queue in the memory is the list;
* `task_queue_refines_list` — every call has the result that it has on the list.

A descriptor that is not in the queue may link to anything: `enqueue` does not look at the link of
the task, and `deque` does not look at the link of the last task in the queue.
-/

namespace RoombaRtos

open LinkedChain Lockstep

variable {α : Type}

inductive QueueCall (α : Type)
  | init (type : PriorityLevel)
  | enqueue (task : α)
  | deque
  | peek
deriving DecidableEq, Repr

/-- What a call returns: a task, no task, or an abort. -/
abbrev QueueResult (α : Type) : Type := Except Halt (Option α)

/-- A queue and the descriptors. -/
structure QueueMemory (α : Type) where
  pd : α → PD α
  list : TaskQueue α

def QueueMemory.call [DecidableEq α] (s : QueueMemory α) :
    QueueCall α → Except Halt (Option α × QueueMemory α)
  | .init type => do
      let list ← queueInit type
      return (none, { s with list := list })
  | .enqueue task => do
      let (pd, list) ← enqueue s.pd s.list task
      return (none, { pd := pd, list := list })
  | .deque => do
      let (task, pd, list) ← deque s.pd s.list
      return (some task, { pd := pd, list := list })
  | .peek => return (peek s.list, s)

/-- The tasks in the queue, the oldest one first, and their level. -/
structure TaskList (α : Type) where
  tasks : List α
  type : PriorityLevel
deriving DecidableEq, Repr

namespace TaskList

/-- What the calls mean for the list, where the tasks have the levels `level`. -/
def call (level : α → PriorityLevel) (f : TaskList α) :
    QueueCall α → Except Halt (Option α × TaskList α)
  | .init type =>
      if type = .unlisted then .error (.abort .queueingError)
      else .ok (none, { tasks := [], type := type })
  | .enqueue task =>
      if f.type = level task then .ok (none, { f with tasks := f.tasks ++ [task] })
      else .error (.abort .queueingError)
  | .deque =>
      match f.tasks with
      | [] => .error (.abort .queueingError)
      | task :: tasks => .ok (some task, { f with tasks := tasks })
  | .peek => .ok (f.tasks.head?, f)

/-- A task of the level of the queue is enqueued only if it is not in the queue, and there is room
for it. -/
def Admits (level : α → PriorityLevel) (f : TaskList α) : QueueCall α → Prop
  | .enqueue task => f.type = level task → task ∉ f.tasks ∧ f.tasks.length < 255
  | .init _ => True
  | .deque => True
  | .peek => True

end TaskList

/-- The queue in the memory is the list `f`. -/
structure QueueMemory.Represents (level : α → PriorityLevel) (s : QueueMemory α)
    (f : TaskList α) : Prop where
  threaded : Threaded (fun p => (s.pd p).next) s.list.head s.list.tail f.tasks
  length_eq : s.list.length.toNat = f.tasks.length
  type_eq : s.list.type = f.type
  listed : f.type ≠ .unlisted
  level_eq : ∀ p, (s.pd p).priority = level p

namespace QueueMemory.Represents

variable {level : α → PriorityLevel} {s : QueueMemory α} {f : TaskList α} {x : α} {l : List α}

theorem length_eq_zero (h : s.Represents level f) : s.list.length = 0 ↔ f.tasks = [] :=
  count_eq_zero h.length_eq

/-- A queue that was just initialized. -/
theorem nil {pd : α → PD α} {type : PriorityLevel} (ht : type ≠ .unlisted)
    (hp : ∀ p, (pd p).priority = level p) :
    Represents level ⟨pd, ⟨none, none, 0, type⟩⟩ ⟨[], type⟩ :=
  ⟨Threaded.nil, rfl, rfl, ht, hp⟩

variable [DecidableEq α]

theorem enqueue (h : s.Represents level f) (hx : x ∉ f.tasks) (hlen : f.tasks.length < 255)
    (ht : f.type = level x) :
    ∃ pd' list', RoombaRtos.enqueue s.pd s.list x = .ok (pd', list') ∧
      Represents level ⟨pd', list'⟩ { f with tasks := f.tasks ++ [x] } := by
  rw [RoombaRtos.enqueue, if_neg (by simp [h.type_eq, h.level_eq, ht])]
  by_cases hnil : f.tasks = []
  · rw [if_pos (h.length_eq_zero.2 hnil)]
    refine ⟨_, _, rfl, ?_, ?_, h.type_eq, h.listed, h.level_eq⟩
    · show Threaded _ (some x) (some x) (f.tasks ++ [x])
      rw [hnil]
      exact Threaded.single x
    · show 1 = (f.tasks ++ [x]).length
      rw [hnil]
      rfl
  · rw [if_neg (fun e => hnil (h.length_eq_zero.1 e))]
    obtain ⟨t, hlast⟩ : ∃ t, f.tasks.getLast? = some t := ⟨_, List.getLast?_eq_some_getLast hnil⟩
    have htail : s.list.tail = some t := h.threaded.tail_eq.trans hlast
    rw [htail]
    refine ⟨_, _, rfl, ?_, ?_, h.type_eq, h.listed, ?_⟩
    · show Threaded (fun p => (setNext s.pd t (some x) p).next) s.list.head (some x)
        (f.tasks ++ [x])
      rw [next_setNext]
      exact h.threaded.push htail hx
    · show (s.list.length + 1).toNat = (f.tasks ++ [x]).length
      have hcount := h.length_eq
      rw [toNat_add_one (by omega), hcount, List.length_append, List.length_singleton]
    · intro p
      exact (congrArg Task.priority (toTask_setNext s.pd t p _)).trans (h.level_eq p)

/-- The last task leaves an initialized queue, and any other one leaves its link as the head. -/
theorem deque (h : s.Represents level f) (hl : f.tasks = x :: l) :
    ∃ pd' list', RoombaRtos.deque s.pd s.list = .ok (x, pd', list') ∧
      Represents level ⟨pd', list'⟩ { f with tasks := l } ∧ (pd' x).next = none := by
  have hne : s.list.length ≠ 0 := fun e => by simp [h.length_eq_zero.1 e] at hl
  have hthread := h.threaded
  have hcount := h.length_eq
  rw [hl] at hthread hcount
  have hhead : s.list.head = some x := hthread.head_eq
  have hpred : (s.list.length - 1).toNat = l.length := by
    rw [toNat_sub_one (by rw [hcount]; simp), hcount, List.length_cons]
    rfl
  have hnext : (setNext s.pd x none x).next = none := by simp [setNext]
  have hlevel : ∀ p, (setNext s.pd x none p).priority = level p := fun p =>
    (congrArg Task.priority (toTask_setNext s.pd x p none)).trans (h.level_eq p)
  by_cases hnil : l = []
  · subst hnil
    have h0 : s.list.length - 1 = 0 := BitVec.eq_of_toNat_eq hpred
    have ht : s.list.type ≠ .unlisted := by
      rw [h.type_eq]
      exact h.listed
    refine ⟨setNext s.pd x none, ⟨none, none, 0, s.list.type⟩, ?_, ?_, hnext⟩
    · simp only [RoombaRtos.deque, if_neg hne, hhead, h0, if_true, queueInit, if_neg ht]
      rfl
    · rw [h.type_eq]
      exact nil h.listed hlevel
  · have h0 : s.list.length - 1 ≠ 0 := by
      intro e
      rw [e] at hpred
      exact hnil (List.length_eq_zero_iff.1 hpred.symm)
    refine ⟨setNext s.pd x none,
      { s.list with head := (s.pd x).next, length := s.list.length - 1 }, ?_,
      ⟨?_, hpred, h.type_eq, h.listed, hlevel⟩, hnext⟩
    · simp only [RoombaRtos.deque, if_neg hne, hhead, if_neg h0]
      rfl
    · show Threaded (fun p => (setNext s.pd x none p).next) (s.pd x).next s.list.tail l
      rw [next_setNext]
      exact hthread.pop hnil none

/-- **One call.**  On the memory and on the list it has the same result, and a task that is dequeued
links to nothing. -/
theorem call (h : s.Represents level f) {c : QueueCall α} (hc : f.Admits level c) :
    Rel (fun a b => a.1 = b.1 ∧ a.2.Represents level b.2 ∧
      ∀ x, c = .deque → a.1 = some x → (a.2.pd x).next = none) (s.call c) (f.call level c) := by
  cases c with
  | init type =>
    by_cases ht : type = .unlisted
    · rw [QueueMemory.call, queueInit, if_pos ht, TaskList.call, if_pos ht]
      exact Rel.error _
    · rw [QueueMemory.call, queueInit, if_neg ht, TaskList.call, if_neg ht]
      exact ⟨rfl, nil ht h.level_eq, fun _ hc => (by cases hc)⟩
  | enqueue x =>
    by_cases ht : f.type = level x
    · obtain ⟨hx, hlen⟩ := hc ht
      obtain ⟨pd', list', he, h'⟩ := h.enqueue hx hlen ht
      rw [QueueMemory.call, he, TaskList.call, if_pos ht]
      exact ⟨rfl, h', fun _ hc => (by cases hc)⟩
    · have hguard : s.list.type ≠ (s.pd x).priority := by rwa [h.type_eq, h.level_eq]
      rw [QueueMemory.call, RoombaRtos.enqueue, if_pos hguard, TaskList.call, if_neg ht]
      exact Rel.error _
  | deque =>
    cases hl : f.tasks with
    | nil =>
      rw [QueueMemory.call, RoombaRtos.deque, if_pos (h.length_eq_zero.2 hl), TaskList.call, hl]
      exact Rel.error _
    | cons x l =>
      obtain ⟨pd', list', he, h', hnext⟩ := h.deque hl
      rw [QueueMemory.call, he, TaskList.call, hl]
      refine ⟨rfl, h', fun y _ hy => ?_⟩
      rw [← Option.some.inj hy]
      exact hnext
  | peek => exact ⟨h.threaded.head_eq, h, fun _ hc => (by cases hc)⟩

end QueueMemory.Represents

/-! ### Any number of calls -/

variable [DecidableEq α]

/-- A call on the memory with its result.  The list beside it is changed as the call says. -/
def QueueStep (level : α → PriorityLevel) (p : QueueMemory α × TaskList α)
    (e : QueueCall α × QueueResult α) (p' : QueueMemory α × TaskList α) : Prop :=
  p.2.Admits level e.1 ∧ attempt p.1 (p.1.call e.1) = (e.2, p'.1) ∧
    (attempt p.2 (p.2.call level e.1)).2 = p'.2

/-- The call had the result that it has on the list, and left this list in the memory. -/
structure QueueStep.Refines (level : α → PriorityLevel) (p : QueueMemory α × TaskList α)
    (e : QueueCall α × QueueResult α) (p' : QueueMemory α × TaskList α) : Prop where
  result : (attempt p.2 (p.2.call level e.1)).1 = e.2
  represents : p'.1.Represents level p'.2
  /-- Calls that fail change nothing, as `attempt` has it: the guards come first. -/
  unchanged : ∀ halt, e.2 = .error halt → p'.1 = p.1
  next_eq : ∀ x, e = (.deque, .ok (some x)) → (p'.1.pd x).next = none

theorem QueueStep.refines {level : α → PriorityLevel} {p p' : QueueMemory α × TaskList α}
    {e : QueueCall α × QueueResult α} (hp : p.1.Represents level p.2)
    (h : QueueStep level p e p') : QueueStep.Refines level p e p' := by
  obtain ⟨c, r⟩ := e
  obtain ⟨s', f'⟩ := p'
  obtain ⟨hadm, hcall, hlist⟩ := h
  rcases (hp.call hadm).attempt_cases p.1 p.2 with
    ⟨a, b, ha, hb, hres, hrep, hnext⟩ | ⟨halt, ha, hb⟩
  · obtain ⟨rfl, rfl⟩ := Prod.mk.inj (ha.symm.trans hcall)
    rw [hb] at hlist
    obtain rfl : b.2 = f' := hlist
    refine ⟨?_, hrep, fun _ he => (by cases he), ?_⟩
    · rw [hb, hres]
    · intro x he
      obtain ⟨hc, hx⟩ := Prod.mk.inj he
      exact hnext x hc (Except.ok.inj hx)
  · obtain ⟨rfl, rfl⟩ := Prod.mk.inj (ha.symm.trans hcall)
    rw [hb] at hlist
    obtain rfl : p.2 = f' := hlist
    refine ⟨?_, hp, fun _ _ => rfl, fun _ he => ?_⟩
    · rw [hb]
    · cases (Prod.mk.inj he).2

/-- **The task queue is a list.**  From `queue_init` on, whatever the descriptors link to, every
call of `queue_init`, `enqueue`, `deque` and `peek` has the result that it has on the list of the
tasks, and the queue is this list after it. -/
theorem task_queue_refines_list {type : PriorityLevel} {list : TaskQueue α}
    (hinit : queueInit type = .ok list) (pd : α → PD α)
    {es : List (QueueCall α × QueueResult α)} {p : QueueMemory α × TaskList α}
    (hrun : Run (QueueStep fun x => (pd x).priority) (⟨pd, list⟩, ⟨[], type⟩) es p) :
    Run (fun p e p' => QueueStep (fun x => (pd x).priority) p e p' ∧
      QueueStep.Refines (fun x => (pd x).priority) p e p') (⟨pd, list⟩, ⟨[], type⟩) es p := by
  have hrep : QueueMemory.Represents (fun x => (pd x).priority) ⟨pd, list⟩ ⟨[], type⟩ := by
    unfold queueInit at hinit
    split_ifs at hinit with ht
    obtain rfl := Except.ok.inj hinit
    exact QueueMemory.Represents.nil ht fun _ => rfl
  refine hrun.strengthen (P := fun p => p.1.Represents (fun x => (pd x).priority) p.2) hrep ?_
  intro p e p' hp hstep
  exact ⟨hstep.refines hp, (hstep.refines hp).represents⟩

/-- Descriptors of round-robin tasks, but for one. -/
def exampleTasks (x : ℕ) : PD ℕ := { priority := if x = 9 then .system else .rr }

/-- Two tasks are enqueued and one of another level is not, and the first one is dequeued. -/
theorem first_of_two_tasks : ∃ p : QueueMemory ℕ × TaskList ℕ,
    Run (fun p e p' => QueueStep (fun x => (exampleTasks x).priority) p e p' ∧
      QueueStep.Refines (fun x => (exampleTasks x).priority) p e p')
      (⟨exampleTasks, ⟨none, none, 0, .rr⟩⟩, ⟨[], .rr⟩)
      [(.enqueue 1, .ok none), (.enqueue 2, .ok none),
        (.enqueue 9, .error (.abort .queueingError)), (.deque, .ok (some 1))] p := by
  have h1 : QueueStep (fun x => (exampleTasks x).priority)
      (⟨exampleTasks, ⟨none, none, 0, .rr⟩⟩, ⟨[], .rr⟩) (.enqueue 1, .ok none)
      (⟨exampleTasks, ⟨some 1, some 1, 1, .rr⟩⟩, ⟨[1], .rr⟩) :=
    ⟨fun _ => by decide, rfl, rfl⟩
  have h2 : QueueStep (fun x => (exampleTasks x).priority)
      (⟨exampleTasks, ⟨some 1, some 1, 1, .rr⟩⟩, ⟨[1], .rr⟩) (.enqueue 2, .ok none)
      (⟨setNext exampleTasks 1 (some 2), ⟨some 1, some 2, 2, .rr⟩⟩, ⟨[1, 2], .rr⟩) :=
    ⟨fun _ => by decide, rfl, rfl⟩
  have h9 : QueueStep (fun x => (exampleTasks x).priority)
      (⟨setNext exampleTasks 1 (some 2), ⟨some 1, some 2, 2, .rr⟩⟩, ⟨[1, 2], .rr⟩)
      (.enqueue 9, .error (.abort .queueingError))
      (⟨setNext exampleTasks 1 (some 2), ⟨some 1, some 2, 2, .rr⟩⟩, ⟨[1, 2], .rr⟩) :=
    ⟨fun _ => by decide, rfl, rfl⟩
  have hd : QueueStep (fun x => (exampleTasks x).priority)
      (⟨setNext exampleTasks 1 (some 2), ⟨some 1, some 2, 2, .rr⟩⟩, ⟨[1, 2], .rr⟩)
      (.deque, .ok (some 1))
      (⟨setNext (setNext exampleTasks 1 (some 2)) 1 none, ⟨some 2, some 2, 1, .rr⟩⟩,
        ⟨[2], .rr⟩) :=
    ⟨trivial, rfl, rfl⟩
  have hinit : queueInit .rr = .ok (⟨none, none, 0, .rr⟩ : TaskQueue ℕ) := rfl
  exact ⟨_, task_queue_refines_list hinit exampleTasks
    ((((Run.single h1).snoc h2).snoc h9).snoc hd)⟩

end RoombaRtos
