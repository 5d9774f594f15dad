import Mathlib.Data.List.Basic
import Mathlib.Logic.Function.Basic

/-!
# Bounded queues and ring buffers

A queue of limited capacity, with the memory of everything that went through it, and the ring
buffer that keeps such a queue in an array with two indices and a flag.

* `Tape` — what came out of the queue and how, and what is still in it; `Tape.arrive`,
  `Tape.take` and `Tape.discard` are its operations;
* `Tape.Reads bs` — `bs` was taken from the front while more may have arrived behind;
* `Circular` — two indices and a flag that says the writer is one round ahead, which tells a
  full buffer from an empty one;
* `Circular.Holds` — the ring keeps a given list; `Holds.push`, `Holds.pop`, `Holds.clear`,
  `Holds.full_iff` and `Holds.unread_iff` say what the operations and the tests of the indices
  mean for that list.
-/

namespace RingBuffer

variable {α : Type*}

/-! ### Queues with a memory -/

/-- How an item left the queue. -/
inductive Fate
  | taken
  | discarded
deriving DecidableEq, Repr

structure Tape (α : Type*) where
  /-- The items that left the queue, the first one first. -/
  gone : List (α × Fate)
  unread : List α

namespace Tape

def empty : Tape α where
  gone := []
  unread := []

/-- Everything that was let in, in the order of arrival. -/
def accepted (q : Tape α) : List α := q.gone.map Prod.fst ++ q.unread

/-- The items that were taken, in the order of taking. -/
def taken (q : Tape α) : List α := (q.gone.filter fun x => x.2 = .taken).map Prod.fst

/-- An item arrives. -/
def push (q : Tape α) (x : α) : Tape α := { q with unread := q.unread ++ [x] }

/-- An item arrives at a queue for `cap` items, and is dropped if the queue is full. -/
def arrive (cap : ℕ) (q : Tape α) (x : α) : Tape α :=
  if q.unread.length < cap then q.push x else q

/-- The oldest item is taken. -/
def take (q : Tape α) : Tape α :=
  match q.unread with
  | [] => q
  | x :: l => { gone := q.gone ++ [(x, .taken)], unread := l }

/-- All items are thrown away. -/
def discard (q : Tape α) : Tape α where
  gone := q.gone ++ q.unread.map fun x => (x, .discarded)
  unread := []

variable {q q₁ q₂ q₃ : Tape α} {x : α} {l bs : List α}

theorem accepted_push (q : Tape α) (x : α) : (q.push x).accepted = q.accepted ++ [x] :=
  (List.append_assoc _ _ _).symm

theorem accepted_take (q : Tape α) : q.take.accepted = q.accepted := by
  cases h : q.unread with
  | nil => simp only [take, h]
  | cons x l => simp [take, accepted, h]

theorem accepted_discard (q : Tape α) : q.discard.accepted = q.accepted := by
  have hfst : (Prod.fst ∘ fun x : α => (x, Fate.discarded)) = id := by
    funext x
    rfl
  simp [discard, accepted, hfst]

/-- Items that are thrown away are not taken. -/
theorem taken_discard (q : Tape α) : q.discard.taken = q.taken := by
  have hnone : (q.unread.map fun x => (x, Fate.discarded)).filter (fun x => x.2 = .taken) = [] := by
    rw [List.filter_eq_nil_iff]
    intro y hy
    obtain ⟨x, -, rfl⟩ := List.mem_map.1 hy
    simp
  rw [taken, discard, List.filter_append, hnone, List.append_nil]
  rfl

/-- The items `bs` were taken, while more may have arrived. -/
def Reads (bs : List α) (q q' : Tape α) : Prop :=
  q'.gone = q.gone ++ bs.map (fun x => (x, .taken)) ∧ ∃ new, q.unread ++ new = bs ++ q'.unread

namespace Reads

theorem refl (q : Tape α) : Reads [] q q := ⟨by simp, [], by simp⟩

theorem trans {bs bs' : List α} (h : Reads bs q₁ q₂) (h' : Reads bs' q₂ q₃) :
    Reads (bs ++ bs') q₁ q₃ := by
  obtain ⟨hg, new, hu⟩ := h
  obtain ⟨hg', new', hu'⟩ := h'
  refine ⟨?_, new ++ new', ?_⟩
  · rw [hg', hg, List.map_append, List.append_assoc]
  · rw [← List.append_assoc, hu, List.append_assoc, hu', List.append_assoc]

theorem arrive (cap : ℕ) (q : Tape α) (x : α) : Reads [] q (q.arrive cap x) := by
  unfold Tape.arrive
  split
  · exact ⟨by simp [push], [x], by simp [push]⟩
  · exact refl q

theorem take (h : q.unread = x :: l) : Reads [x] q q.take := by
  have htake : q.take = { gone := q.gone ++ [(x, .taken)], unread := l } := by
    simp only [Tape.take, h]
  rw [htake]
  exact ⟨rfl, [], by simp [h]⟩

theorem taken (h : Reads bs q₁ q₂) : q₂.taken = q₁.taken ++ bs := by
  have hall : (bs.map fun x => (x, Fate.taken)).filter (fun x => x.2 = .taken) =
      bs.map fun x => (x, Fate.taken) := by
    rw [List.filter_eq_self]
    intro y hy
    obtain ⟨x, -, rfl⟩ := List.mem_map.1 hy
    simp
  have hfst : (Prod.fst ∘ fun x : α => (x, Fate.taken)) = id := by
    funext x
    rfl
  rw [Tape.taken, h.1, List.filter_append, hall, List.map_append, List.map_map, hfst,
    List.map_id]
  rfl

/-- Nothing was thrown away. -/
theorem fate (h : Reads bs q₁ q₂) (h₁ : ∀ x ∈ q₁.gone, x.2 = .taken) :
    ∀ x ∈ q₂.gone, x.2 = .taken := by
  intro x hx
  rw [h.1] at hx
  rcases List.mem_append.1 hx with hx | hx
  · exact h₁ x hx
  · obtain ⟨y, -, rfl⟩ := List.mem_map.1 hx
    rfl

/-- What was taken is a stretch of what was let in. -/
theorem accepted (h : Reads bs q₁ q₂) :
    q₂.accepted = q₁.gone.map Prod.fst ++ bs ++ q₂.unread := by
  have hfst : (Prod.fst ∘ fun x : α => (x, Fate.taken)) = id := by
    funext x
    rfl
  simp [Tape.accepted, h.1, hfst]

theorem accepted_mono (h : Reads bs q₁ q₂) : q₁.accepted <+: q₂.accepted := by
  obtain ⟨new, hu⟩ := h.2
  refine ⟨new, ?_⟩
  rw [h.accepted, Tape.accepted, List.append_assoc, hu, List.append_assoc]

end Reads

end Tape

/-! ### Ring buffers -/

structure Circular (α : Type*) where
  read : ℕ
  write : ℕ
  /-- The writer is one round ahead of the reader. -/
  wrapped : Bool
  cell : ℕ → α

/-- The cell `k` places behind `i`. -/
def index (cap i k : ℕ) : ℕ := if i + k < cap then i + k else i + k - cap

/-- One place on. -/
def next (cap i : ℕ) : ℕ := if i + 1 < cap then i + 1 else 0

theorem next_of_lt {cap i : ℕ} (h : i + 1 < cap) : next cap i = i + 1 := if_pos h

theorem next_last {cap i : ℕ} (h : ¬ i + 1 < cap) : next cap i = 0 := if_neg h

theorem next_eq_zero {cap i : ℕ} : next cap i = 0 ↔ ¬ i + 1 < cap := by
  unfold next
  split <;> simp_all

/-- Counting from the next place is counting one place further. -/
theorem index_next {cap i k : ℕ} (hi : i < cap) (hk : k < cap) :
    index cap (next cap i) k = index cap i (k + 1) := by
  unfold index next
  split <;> split <;> split <;> omega

namespace Circular

def count (cap : ℕ) (r : Circular α) : ℕ :=
  if r.wrapped then cap - r.read + r.write else r.write - r.read

theorem count_wrapped {cap : ℕ} {r : Circular α} (h : r.wrapped = true) :
    r.count cap = cap - r.read + r.write := if_pos h

theorem count_straight {cap : ℕ} {r : Circular α} (h : r.wrapped = false) :
    r.count cap = r.write - r.read := if_neg (by simp [h])

def push (cap : ℕ) (r : Circular α) (x : α) : Circular α where
  read := r.read
  write := next cap r.write
  wrapped := r.wrapped || next cap r.write == 0
  cell := Function.update r.cell r.write x

def pop (cap : ℕ) (r : Circular α) : Circular α where
  read := next cap r.read
  write := r.write
  wrapped := r.wrapped && next cap r.read != 0
  cell := r.cell

def clear (r : Circular α) : Circular α := { r with read := r.write, wrapped := false }

/-- The ring keeps the list `l`. -/
structure Holds (cap : ℕ) (r : Circular α) (l : List α) : Prop where
  read_lt : r.read < cap
  write_lt : r.write < cap
  behind : r.wrapped = true → r.write ≤ r.read
  ahead : r.wrapped = false → r.read ≤ r.write
  length : l.length = r.count cap
  cells : ∀ k x, l[k]? = some x → r.cell (index cap r.read k) = x

namespace Holds

variable {cap : ℕ} {r : Circular α} {l : List α} {x : α}

theorem length_le (h : Holds cap r l) : l.length ≤ cap := by
  rw [h.length, count]
  have hr := h.read_lt
  have hw := h.write_lt
  split
  · have hb := h.behind ‹_›
    omega
  · omega

/-- A ring keeps one list. -/
theorem unique {l' : List α} (h : Holds cap r l) (h' : Holds cap r l') : l = l' := by
  have hlen : l.length = l'.length := h.length.trans h'.length.symm
  apply List.ext_getElem hlen
  intro k hk hk'
  have hx := h.cells k l[k] (List.getElem?_eq_getElem hk)
  have hx' := h'.cells k l'[k] (List.getElem?_eq_getElem hk')
  exact hx.symm.trans hx'

/-- The indices meet in a full buffer, and the flag is set. -/
theorem full_iff (h : Holds cap r l) :
    (r.wrapped = true ∧ r.read = r.write) ↔ l.length = cap := by
  have hr := h.read_lt
  have hw := h.write_lt
  rw [h.length, count]
  cases hf : r.wrapped with
  | true =>
    have hb := h.behind hf
    simp only [if_true, true_and]
    omega
  | false =>
    simp only [Bool.false_eq_true, if_false, false_and, false_iff]
    omega

theorem unread_iff (h : Holds cap r l) :
    (r.wrapped = true ∨ r.read < r.write) ↔ l ≠ [] := by
  have hr := h.read_lt
  rw [← List.length_pos_iff, h.length, count]
  cases hf : r.wrapped with
  | true =>
    simp only [if_true, true_or, true_iff]
    omega
  | false =>
    simp only [Bool.false_eq_true, if_false, false_or]
    omega

/-- The writer never gets a second round ahead. -/
theorem not_wrapped_of_push (h : Holds cap r l) (hl : l.length < cap)
    (hz : next cap r.write = 0) : r.wrapped = false := by
  have hr := h.read_lt
  have hw := h.write_lt
  have hlast := next_eq_zero.1 hz
  by_contra hf
  rw [Bool.not_eq_false] at hf
  have hb := h.behind hf
  have hfull : l.length = cap := h.full_iff.1 ⟨hf, by omega⟩
  omega

/-- The reader never gets ahead of the writer. -/
theorem wrapped_of_pop (h : Holds cap r (x :: l)) (hz : next cap r.read = 0) :
    r.wrapped = true := by
  have hr := h.read_lt
  have hw := h.write_lt
  have hlast := next_eq_zero.1 hz
  rcases h.unread_iff.2 (by simp) with hf | hlt
  · exact hf
  · omega

theorem head (h : Holds cap r (x :: l)) : r.cell r.read = x := by
  have hx := h.cells 0 x rfl
  have hr := h.read_lt
  rwa [index, Nat.add_zero, if_pos hr] at hx

/-- The writer stands behind the last item. -/
theorem write_eq (h : Holds cap r l) : index cap r.read l.length = r.write := by
  have hr := h.read_lt
  have hw := h.write_lt
  have hlen := h.length
  unfold index
  cases hf : r.wrapped with
  | true =>
    have hb := h.behind hf
    rw [count_wrapped hf] at hlen
    split <;> omega
  | false =>
    have ha := h.ahead hf
    rw [count_straight hf] at hlen
    split <;> omega

/-- The write goes to a free cell. -/
theorem push_cells (h : Holds cap r l) (hl : l.length < cap) (x : α) {k : ℕ} {y : α}
    (hk : (l ++ [x])[k]? = some y) : (r.push cap x).cell (index cap r.read k) = y := by
  have hr := h.read_lt
  show Function.update r.cell r.write x (index cap r.read k) = y
  by_cases hkl : k < l.length
  · rw [List.getElem?_append_left hkl] at hk
    have hne : index cap r.read k ≠ r.write := by
      rw [← h.write_eq]
      unfold index
      split <;> split <;> omega
    rw [Function.update_of_ne hne]
    exact h.cells k y hk
  · have hkeq : k = l.length := by
      have hlt := (List.getElem?_eq_some_iff.1 hk).1
      rw [List.length_append, List.length_singleton] at hlt
      omega
    subst hkeq
    rw [h.write_eq, Function.update_self]
    simpa using hk

/-- **An item is written behind the others.** -/
theorem push (h : Holds cap r l) (hl : l.length < cap) (x : α) :
    Holds cap (r.push cap x) (l ++ [x]) := by
  have hr := h.read_lt
  have hw := h.write_lt
  have hlen := h.length
  have hone := h.not_wrapped_of_push hl
  have hcells : ∀ k y, (l ++ [x])[k]? = some y →
      (r.push cap x).cell (index cap r.read k) = y :=
    fun k y hk => h.push_cells hl x hk
  by_cases hlast : r.write + 1 < cap
  · have hnext : next cap r.write = r.write + 1 := next_of_lt hlast
    have hwrap : (r.push cap x).wrapped = r.wrapped := by
      simp [Circular.push, hnext]
    have hpush : (r.push cap x).write = r.write + 1 := hnext
    refine ⟨hr, by omega, fun hf => ?_, fun hf => ?_, ?_, hcells⟩
    · rw [hwrap] at hf
      have hb := h.behind hf
      have hne : r.read ≠ r.write := by
        intro he
        have hfull := h.full_iff.1 ⟨hf, he⟩
        omega
      show (r.push cap x).write ≤ r.read
      omega
    · rw [hwrap] at hf
      have ha := h.ahead hf
      show r.read ≤ (r.push cap x).write
      omega
    · rw [List.length_append, List.length_singleton, hlen]
      cases hf : r.wrapped with
      | true =>
        rw [count_wrapped hf, count_wrapped (hwrap.trans hf), hpush]
        rfl
      | false =>
        have ha := h.ahead hf
        rw [count_straight hf, count_straight (hwrap.trans hf), hpush]
        show r.write - r.read + 1 = r.write + 1 - r.read
        omega
  · -- the writer wraps
    have hnext : next cap r.write = 0 := next_last hlast
    have hf : r.wrapped = false := hone hnext
    have hwrap : (r.push cap x).wrapped = true := by
      simp [Circular.push, hnext]
    have hpush : (r.push cap x).write = 0 := hnext
    refine ⟨hr, by omega, fun _ => ?_, fun hf' => ?_, ?_, hcells⟩
    · rw [hpush]
      exact Nat.zero_le _
    · rw [hwrap] at hf'
      cases hf'
    · have ha := h.ahead hf
      rw [List.length_append, List.length_singleton, hlen, count_straight hf,
        count_wrapped hwrap, hpush]
      show r.write - r.read + 1 = cap - r.read + 0
      omega

/-- **The oldest item is read.** -/
theorem pop (h : Holds cap r (x :: l)) : Holds cap (r.pop cap) l := by
  have hr := h.read_lt
  have hw := h.write_lt
  have hle := h.length_le
  have hlen := h.length
  have hone := h.wrapped_of_pop
  rw [List.length_cons] at hle hlen
  have hcells : ∀ k y, l[k]? = some y →
      (r.pop cap).cell (index cap (r.pop cap).read k) = y := by
    intro k y hk
    have hbound := (List.getElem?_eq_some_iff.1 hk).1
    have hcell := h.cells (k + 1) y (by simpa using hk)
    show r.cell (index cap (next cap r.read) k) = y
    rw [index_next hr (by omega)]
    exact hcell
  by_cases hlast : r.read + 1 < cap
  · have hnext : next cap r.read = r.read + 1 := next_of_lt hlast
    have hwrap : (r.pop cap).wrapped = r.wrapped := by
      simp [Circular.pop, hnext]
    have hpop : (r.pop cap).read = r.read + 1 := hnext
    refine ⟨by omega, hw, fun hf => ?_, fun hf => ?_, ?_, hcells⟩
    · rw [hwrap] at hf
      have hb := h.behind hf
      show r.write ≤ (r.pop cap).read
      omega
    · rw [hwrap] at hf
      rw [count_straight hf] at hlen
      show (r.pop cap).read ≤ r.write
      omega
    · cases hf : r.wrapped with
      | true =>
        rw [count_wrapped hf] at hlen
        rw [count_wrapped (hwrap.trans hf), hpop]
        show l.length = cap - (r.read + 1) + r.write
        omega
      | false =>
        rw [count_straight hf] at hlen
        rw [count_straight (hwrap.trans hf), hpop]
        show l.length = r.write - (r.read + 1)
        omega
  · -- the reader wraps
    have hnext : next cap r.read = 0 := next_last hlast
    have hf : r.wrapped = true := hone hnext
    have hwrap : (r.pop cap).wrapped = false := by
      simp [Circular.pop, hnext]
    have hpop : (r.pop cap).read = 0 := hnext
    refine ⟨by omega, hw, fun hf' => ?_, fun _ => ?_, ?_, hcells⟩
    · rw [hwrap] at hf'
      cases hf'
    · rw [hpop]
      exact Nat.zero_le _
    · rw [count_wrapped hf] at hlen
      rw [count_straight hwrap, hpop]
      show l.length = r.write - 0
      omega

/-- Everything that is unread is forgotten. -/
theorem clear (h : Holds cap r l) : Holds cap r.clear [] :=
  ⟨h.write_lt, h.write_lt, fun hf => Bool.noConfusion hf, fun _ => Nat.le_refl _,
    by simp [count, Circular.clear], fun k x hk => by simp at hk⟩

theorem empty (hcap : 0 < cap) (cell : ℕ → α) : Holds cap ⟨0, 0, false, cell⟩ [] :=
  ⟨hcap, hcap, fun hf => Bool.noConfusion hf, fun _ => Nat.le_refl _, by simp [count],
    fun k x hk => by simp at hk⟩

end Holds

end Circular

end RingBuffer
