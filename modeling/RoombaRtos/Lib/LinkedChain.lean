import Mathlib.Logic.Function.Basic
import Mathlib.Data.List.Basic
import Mathlib.Data.List.Chain
import Mathlib.Data.List.Nodup

/-!
# Singly linked chains in a heap of links

A heap of links over an address type `α` is a map `next : α → Option α`.  This file relates
such a heap to ordinary lists, and says how the usual pointer surgery acts on the list:

* `Seg next h l t` — starting at `h` and following `next` visits exactly the addresses `l`
  and arrives at `t`;
* `scan next past` — the walk of a search loop, with `scan_seg` for where it ends;
* `Linked next head tail l` — `head` starts a chain that visits `l` without repetition and
  ends in a null link, and `tail` is its last address;
* `Linked.push`, `Linked.pop`, `Linked.insertFront`, `Linked.insertAfter`,
  `Linked.removeAfter`, `Linked.removeLast` — the list seen after each of the five edits;
* `Threaded next head tail l` — the same without the null link at the end, for queues that count
  their cells; `Threaded.push`, `Threaded.pop` — the list seen after an edit at either end.

Nothing here refers to what the cells carry besides their link.
-/

namespace LinkedChain

variable {α : Type*}

/-! ### Segments -/

/-- Following `next` from `h` visits exactly `l` and arrives at `t`. -/
def Seg (next : α → Option α) : Option α → List α → Option α → Prop
  | h, [], t => h = t
  | h, a :: l, t => h = some a ∧ Seg next (next a) l t

instance decidableSeg [DecidableEq α] (next : α → Option α) :
    ∀ (h : Option α) (l : List α) (t : Option α), Decidable (Seg next h l t)
  | h, [], t => inferInstanceAs (Decidable (h = t))
  | h, a :: l, t =>
      haveI := decidableSeg next (next a) l t
      inferInstanceAs (Decidable (h = some a ∧ Seg next (next a) l t))

@[simp] theorem seg_nil {next : α → Option α} {h t : Option α} : Seg next h [] t ↔ h = t :=
  Iff.rfl

@[simp] theorem seg_cons {next : α → Option α} {h t : Option α} {a : α} {l : List α} :
    Seg next h (a :: l) t ↔ h = some a ∧ Seg next (next a) l t :=
  Iff.rfl

theorem seg_append {next : α → Option α} {h t : Option α} {l₁ l₂ : List α} :
    Seg next h (l₁ ++ l₂) t ↔ ∃ m, Seg next h l₁ m ∧ Seg next m l₂ t := by
  induction l₁ generalizing h with
  | nil => simp
  | cons a l₁ ih => simp [ih, and_assoc]

theorem seg_congr {next next' : α → Option α} {h t : Option α} {l : List α}
    (hl : ∀ a ∈ l, next' a = next a) : Seg next' h l t ↔ Seg next h l t := by
  induction l generalizing h with
  | nil => rfl
  | cons a l ih =>
    rw [seg_cons, seg_cons, hl a (by simp), ih (fun b hb => hl b (by simp [hb]))]

/-- A segment that is entered at a null link is empty. -/
theorem seg_head {next : α → Option α} {h : Option α} {l : List α} (hs : Seg next h l none) :
    h = l.head? := by
  cases l with
  | nil => exact hs
  | cons a l => exact hs.1

/-- The chain from a given head is unique. -/
theorem seg_unique {next : α → Option α} {h : Option α} {l l' : List α}
    (hl : Seg next h l none) (hl' : Seg next h l' none) : l = l' := by
  induction l generalizing h l' with
  | nil =>
    have hh : h = none := hl
    have := seg_head hl'
    cases l' with
    | nil => rfl
    | cons a l' => simp [hh] at this
  | cons a l ih =>
    have hh : h = some a := hl.1
    cases l' with
    | nil =>
      have : h = none := hl'
      simp [hh] at this
    | cons b l' =>
      have hab : a = b := by simpa [hh] using hl'.1
      subst hab
      rw [ih hl.2 hl'.2]

/-! ### Walking along a chain -/

/-- Follow the links past the cells that satisfy `past`, for at most `fuel` cells: the last cell
that was passed, and the cell where the walk ends. -/
def scan (next : α → Option α) (past : α → Bool) :
    ℕ → Option α → Option α → Option (Option α × Option α)
  | _, prev, none => some (prev, none)
  | 0, _, some _ => none
  | fuel + 1, prev, some a =>
      if past a then scan next past fuel (some a) (next a) else some (prev, some a)

/-- The walk ends behind the longest prefix that satisfies `past`, unless it may not go that far. -/
theorem scan_seg {next : α → Option α} {past : α → Bool} {l : List α} {h : Option α}
    (hs : Seg next h l none) (fuel : ℕ) (prev : Option α) :
    scan next past fuel prev h =
        some ((l.takeWhile past).getLast?.or prev, (l.dropWhile past).head?) ∨
      scan next past fuel prev h = none ∧ fuel < l.length := by
  induction l generalizing h fuel prev with
  | nil =>
    have hh : h = none := hs
    subst hh
    left
    cases fuel <;> simp [scan]
  | cons a l ih =>
    obtain ⟨rfl, hs⟩ := hs
    cases fuel with
    | zero => exact Or.inr ⟨rfl, by simp⟩
    | succ fuel =>
      rw [scan]
      by_cases ha : past a = true
      · rw [if_pos ha, List.takeWhile_cons_of_pos ha, List.dropWhile_cons_of_pos ha]
        rcases ih hs fuel (some a) with hok | ⟨hnone, hlt⟩
        · left
          rw [hok]
          cases hr : l.takeWhile past with
          | nil => simp
          | cons b r => simp [List.getLast?_cons]
        · exact Or.inr ⟨hnone, by simpa using hlt⟩
      · left
        rw [if_neg ha, List.takeWhile_cons_of_neg ha, List.dropWhile_cons_of_neg ha]
        simp

/-- With enough fuel the walk ends. -/
theorem scan_of_le {next : α → Option α} {past : α → Bool} {l : List α} {h : Option α}
    (hs : Seg next h l none) {fuel : ℕ} (hfuel : l.length ≤ fuel) (prev : Option α) :
    scan next past fuel prev h =
      some ((l.takeWhile past).getLast?.or prev, (l.dropWhile past).head?) := by
  rcases scan_seg hs fuel prev with hok | ⟨-, hlt⟩
  · exact hok
  · exact absurd hlt (Nat.not_lt.2 hfuel)

/-- Two cells that link to each other are never left. -/
theorem scan_cycle {next : α → Option α} {past : α → Bool} {a b : α} (hab : next a = some b)
    (hba : next b = some a) (ha : past a = true) (hb : past b = true) (fuel : ℕ)
    (prev : Option α) :
    scan next past fuel prev (some a) = none ∧ scan next past fuel prev (some b) = none := by
  induction fuel generalizing prev with
  | zero => exact ⟨rfl, rfl⟩
  | succ fuel ih =>
    rw [scan, if_pos ha, hab, scan, if_pos hb, hba]
    exact ⟨(ih (some a)).2, (ih (some b)).1⟩

/-! ### Whole chains -/

/-- `head` and `tail` describe a null-terminated, repetition-free chain through `l`. -/
structure Linked (next : α → Option α) (head tail : Option α) (l : List α) : Prop where
  seg : Seg next head l none
  tail_eq : tail = l.getLast?
  nodup : l.Nodup

instance [DecidableEq α] (next : α → Option α) (head tail : Option α) (l : List α) :
    Decidable (Linked next head tail l) :=
  decidable_of_iff (Seg next head l none ∧ tail = l.getLast? ∧ l.Nodup)
    ⟨fun h => ⟨h.1, h.2.1, h.2.2⟩, fun h => ⟨h.seg, h.tail_eq, h.nodup⟩⟩

namespace Linked

variable {next next' : α → Option α} {head tail : Option α} {l l₁ l₂ : List α} {a p x : α}

theorem nil : Linked next none none [] := ⟨rfl, rfl, List.nodup_nil⟩

theorem head_eq (h : Linked next head tail l) : head = l.head? := seg_head h.seg

theorem unique (h : Linked next head tail l) {tail' : Option α} {l' : List α}
    (h' : Linked next head tail' l') : l = l' := seg_unique h.seg h'.seg

/-- Links of cells outside the chain are irrelevant. -/
theorem congr (h : Linked next head tail l) (hl : ∀ a ∈ l, next' a = next a) :
    Linked next' head tail l :=
  ⟨(seg_congr hl).2 h.seg, h.tail_eq, h.nodup⟩

/-- The last cell of a chain has a null link. -/
theorem next_last (h : Linked next head tail (l ++ [a])) : next a = none := by
  obtain ⟨m, _, hm⟩ := seg_append.1 h.seg
  exact hm.2

/-- The first cell is the one with nothing in front of it. -/
theorem head_eq_iff (h : Linked next head tail (l₁ ++ a :: l₂)) : head = some a ↔ l₁ = [] := by
  rw [h.head_eq]
  cases l₁ with
  | nil => simp
  | cons b l₁ =>
    have hba : b ≠ a := by
      have hnd := (List.nodup_cons.1 h.nodup).1
      intro hba
      rw [hba] at hnd
      exact hnd (by simp)
    simpa using hba

/-- The last cell is the one with nothing behind it. -/
theorem tail_eq_iff (h : Linked next head tail (l₁ ++ a :: l₂)) : tail = some a ↔ l₂ = [] := by
  rw [h.tail_eq]
  cases l₂ with
  | nil => simp
  | cons b l₂ =>
    have hnot : a ∉ b :: l₂ := (List.nodup_cons.1 (List.nodup_append.1 h.nodup).2.1).1
    have hlast : (l₁ ++ a :: b :: l₂).getLast? = (b :: l₂).getLast? := by
      rw [List.getLast?_append_of_ne_nil l₁ (List.cons_ne_nil a _), List.getLast?_cons_cons]
    rw [hlast]
    refine ⟨fun he => absurd (List.mem_of_getLast? he) hnot, fun he => ?_⟩
    cases he

theorem next_of_append_cons (h : Linked next head tail (l₁ ++ a :: l₂)) :
    next a = l₂.head? := by
  obtain ⟨m, _, hm⟩ := seg_append.1 h.seg
  exact seg_head hm.2

/-- Two cells that link to each other are not in a chain. -/
theorem notMem_of_cycle {b : α} (h : Linked next head tail l) (hab : next a = some b)
    (hba : next b = some a) : a ∉ l := by
  intro ha
  obtain ⟨l₁, l₂, rfl⟩ := List.append_of_mem ha
  have hnext := h.next_of_append_cons
  rw [hab] at hnext
  cases l₂ with
  | nil => cases hnext
  | cons c l₂ =>
    obtain rfl : b = c := Option.some.inj hnext
    have hcons : l₁ ++ a :: b :: l₂ = (l₁ ++ [a]) ++ b :: l₂ := by simp
    have hnext' := (hcons ▸ h).next_of_append_cons
    rw [hba] at hnext'
    have hmem : a ∈ l₂ := List.mem_of_head? hnext'.symm
    have hnd := (List.nodup_append.1 h.nodup).2.1
    exact (List.nodup_cons.1 hnd).1 (List.mem_cons_of_mem b hmem)

variable [DecidableEq α]

theorem seg_update_of_notMem {h t : Option α} {v : Option α} (hx : x ∉ l) :
    Seg (Function.update next x v) h l t ↔ Seg next h l t :=
  seg_congr fun b hb => Function.update_of_ne (fun e : b = x => hx (e ▸ hb)) _ _

/-- **Append.**  Linking the last cell of a chain to a fresh cell with a null link. -/
theorem push (h : Linked next head tail l) (ht : tail = some p) (hx : x ∉ l)
    (hn : next x = none) :
    Linked (Function.update next p (some x)) head (some x) (l ++ [x]) := by
  obtain ⟨l', rfl⟩ : ∃ l', l = l' ++ [p] := by
    have hl : l.getLast? = some p := by rw [← h.tail_eq, ht]
    exact ⟨_, (List.dropLast_append_getLast? p hl).symm⟩
  have hp : p ∉ l' := by
    have := h.nodup
    rw [List.nodup_append] at this
    exact fun hm => this.2.2 p hm p (by simp) rfl
  have hxp : x ≠ p := by rintro rfl; simp at hx
  obtain ⟨m, hs, hm⟩ := seg_append.1 h.seg
  refine ⟨?_, by simp, ?_⟩
  · rw [List.append_assoc, seg_append]
    refine ⟨m, (seg_update_of_notMem hp).2 hs, hm.1, ?_⟩
    rw [Function.update_self]
    exact ⟨rfl, by rw [seg_nil, Function.update_of_ne hxp, hn]⟩
  · rw [List.nodup_append]
    refine ⟨h.nodup, List.nodup_singleton x, ?_⟩
    rintro a ha b hb rfl
    exact hx (by simpa [List.mem_singleton.1 hb] using ha)

/-- **Remove the head** of a chain with at least one further cell, clearing its link. -/
theorem pop (h : Linked next head tail (a :: l)) (hl : l ≠ []) :
    Linked (Function.update next a none) (next a) tail l := by
  have ha : a ∉ l := (List.nodup_cons.1 h.nodup).1
  refine ⟨(seg_update_of_notMem ha).2 h.seg.2, ?_, (List.nodup_cons.1 h.nodup).2⟩
  rw [h.tail_eq]
  cases l with
  | nil => exact absurd rfl hl
  | cons b l => simp [List.getLast?_cons_cons]

/-- **Insert in front** of a nonempty chain. -/
theorem insertFront (h : Linked next head tail l) (hl : l ≠ []) (hx : x ∉ l) :
    Linked (Function.update next x head) (some x) tail (x :: l) := by
  refine ⟨⟨rfl, ?_⟩, ?_, List.nodup_cons.2 ⟨hx, h.nodup⟩⟩
  · rw [Function.update_self]
    exact (seg_update_of_notMem hx).2 h.seg
  · rw [h.tail_eq]
    cases l with
    | nil => exact absurd rfl hl
    | cons b l => simp [List.getLast?_cons_cons]

/-- **Insert between** `p` and its successor. -/
theorem insertAfter (h : Linked next head tail (l₁ ++ p :: l₂)) (hl : l₂ ≠ [])
    (hx : x ∉ l₁ ++ p :: l₂) :
    Linked (Function.update (Function.update next x (next p)) p (some x)) head tail
      (l₁ ++ p :: x :: l₂) := by
  obtain ⟨m, hs, hm⟩ := seg_append.1 h.seg
  have hnd := h.nodup
  simp only [List.nodup_append, List.nodup_cons, List.mem_cons] at hnd
  have hp₁ : p ∉ l₁ := fun hp => hnd.2.2 p hp p (Or.inl rfl) rfl
  have hp₂ : p ∉ l₂ := hnd.2.1.1
  simp only [List.mem_append, List.mem_cons, not_or] at hx
  obtain ⟨hx₁, hxp, hx₂⟩ := hx
  refine ⟨?_, ?_, ?_⟩
  · refine seg_append.2 ⟨m, ?_, hm.1, ?_⟩
    · rw [seg_update_of_notMem hp₁, seg_update_of_notMem hx₁]
      exact hs
    · rw [Function.update_self]
      refine ⟨rfl, ?_⟩
      rw [Function.update_of_ne hxp, Function.update_self, seg_update_of_notMem hp₂,
        seg_update_of_notMem hx₂]
      exact hm.2
  · rw [h.tail_eq]
    cases l₂ with
    | nil => exact absurd rfl hl
    | cons b l₂ => simp [List.getLast?_append, List.getLast?_cons_cons]
  · rw [List.nodup_append]
    simp only [List.nodup_cons, List.mem_cons, not_or]
    refine ⟨hnd.1, ⟨⟨Ne.symm hxp, hp₂⟩, hx₂, hnd.2.1.2⟩, ?_⟩
    rintro b hb c (rfl | rfl | hc) rfl
    · exact hp₁ hb
    · exact hx₁ hb
    · exact hnd.2.2 b hb b (Or.inr hc) rfl

/-- **Remove the cell after** `p`, when it is not the last one. -/
theorem removeAfter (h : Linked next head tail (l₁ ++ p :: a :: l₂)) (hl : l₂ ≠ []) :
    Linked (Function.update (Function.update next p (next a)) a none) head tail
      (l₁ ++ p :: l₂) := by
  obtain ⟨m, hs, hm⟩ := seg_append.1 h.seg
  have hnd := h.nodup
  simp only [List.nodup_append, List.nodup_cons, List.mem_cons, not_or] at hnd
  obtain ⟨hnd₁, ⟨⟨hpa, hp₂⟩, ha₂, hnd₂⟩, hd⟩ := hnd
  have hp₁ : p ∉ l₁ := fun hp => hd p hp p (Or.inl rfl) rfl
  have ha₁ : a ∉ l₁ := fun ha => hd a ha a (Or.inr (Or.inl rfl)) rfl
  refine ⟨?_, ?_, ?_⟩
  · refine seg_append.2 ⟨m, ?_, hm.1, ?_⟩
    · rw [seg_update_of_notMem ha₁, seg_update_of_notMem hp₁]
      exact hs
    · rw [Function.update_of_ne hpa, Function.update_self, seg_update_of_notMem ha₂,
        seg_update_of_notMem hp₂]
      exact hm.2.2
  · rw [h.tail_eq]
    cases l₂ with
    | nil => exact absurd rfl hl
    | cons b l₂ => simp [List.getLast?_append, List.getLast?_cons_cons]
  · rw [List.nodup_append]
    refine ⟨hnd₁, List.nodup_cons.2 ⟨hp₂, hnd₂⟩, ?_⟩
    rintro b hb c hc rfl
    rcases List.mem_cons.1 hc with rfl | hc
    · exact hp₁ hb
    · exact hd b hb b (Or.inr (Or.inr hc)) rfl

/-- **Remove the last cell**, whose predecessor is `p`. -/
theorem removeLast (h : Linked next head tail (l ++ [p, a])) :
    Linked (Function.update (Function.update next p none) a none) head (some p) (l ++ [p]) := by
  obtain ⟨m, hs, hm⟩ := seg_append.1 h.seg
  have hnd := h.nodup
  simp only [List.nodup_append, List.nodup_cons, List.mem_cons, List.not_mem_nil, or_false,
    not_false_eq_true, List.nodup_nil, and_true] at hnd
  obtain ⟨hndl, hpa, hd⟩ := hnd
  have hp : p ∉ l := fun hp => hd p hp p (Or.inl rfl) rfl
  have ha : a ∉ l := fun ha => hd a ha a (Or.inr rfl) rfl
  refine ⟨?_, by simp, ?_⟩
  · refine seg_append.2 ⟨m, ?_, hm.1, ?_⟩
    · rw [seg_update_of_notMem ha, seg_update_of_notMem hp]
      exact hs
    · rw [Function.update_of_ne hpa, Function.update_self]
      rfl
  · rw [List.nodup_append]
    refine ⟨hndl, List.nodup_singleton p, ?_⟩
    rintro b hb c hc rfl
    exact hp (by simpa [List.mem_singleton.1 hc] using hb)

end Linked

/-! ### Chains whose last link is not used -/

/-- Each cell of `l` but the last one links to the cell behind it.  The link of the last cell may be
anything. -/
structure Threaded (next : α → Option α) (head tail : Option α) (l : List α) : Prop where
  head_eq : head = l.head?
  tail_eq : tail = l.getLast?
  nodup : l.Nodup
  chain : l.IsChain fun a b => next a = some b

namespace Threaded

variable {next : α → Option α} {head tail : Option α} {l : List α} {a p x : α}

theorem nil : Threaded next none none [] := ⟨rfl, rfl, List.nodup_nil, List.isChain_nil⟩

theorem single (x : α) : Threaded next (some x) (some x) [x] :=
  ⟨rfl, rfl, List.nodup_singleton x, List.isChain_singleton x⟩

/-- The second cell is the one that the first cell links to. -/
theorem next_head (h : Threaded next head tail (a :: l)) (hl : l ≠ []) : next a = l.head? := by
  cases l with
  | nil => exact absurd rfl hl
  | cons b l => exact (List.isChain_cons.1 h.chain).1 b rfl

variable [DecidableEq α]

/-- **Append.** -/
theorem push (h : Threaded next head tail l) (ht : tail = some p) (hx : x ∉ l) :
    Threaded (Function.update next p (some x)) head (some x) (l ++ [x]) := by
  obtain ⟨l', rfl⟩ : ∃ l', l = l' ++ [p] := by
    have hl : l.getLast? = some p := by rw [← h.tail_eq, ht]
    exact ⟨_, (List.dropLast_append_getLast? p hl).symm⟩
  have hp : p ∉ l' := by
    have hnd := List.nodup_append.1 h.nodup
    exact fun hm => hnd.2.2 p hm p (by simp) rfl
  refine ⟨?_, by simp, ?_, ?_⟩
  · rw [h.head_eq]
    cases l' with
    | nil => rfl
    | cons b l' => rfl
  · exact List.nodup_append.2 ⟨h.nodup, List.nodup_singleton x, fun b hb c hc hbc =>
      hx (List.mem_singleton.1 hc ▸ hbc ▸ hb)⟩
  · obtain ⟨hchain, -, hlast⟩ := List.isChain_append.1 h.chain
    rw [List.append_assoc, List.singleton_append, List.isChain_append]
    refine ⟨?_, ?_, ?_⟩
    · -- only the link of `p` has changed
      apply hchain.imp_of_mem_imp
      intro b c hb hc hbc
      rw [Function.update_of_ne (fun he : b = p => hp (he ▸ hb)), hbc]
    · rw [List.isChain_pair, Function.update_self]
    · intro b hb c hc
      have hbp : b ≠ p := fun he => hp (he ▸ List.mem_of_getLast? hb)
      rw [Function.update_of_ne hbp]
      exact hlast b hb c hc

/-- **Remove the head**, whatever its link becomes. -/
theorem pop (h : Threaded next head tail (a :: l)) (hl : l ≠ []) (v : Option α) :
    Threaded (Function.update next a v) (next a) tail l := by
  obtain ⟨ha, hnd⟩ := List.nodup_cons.1 h.nodup
  refine ⟨h.next_head hl, ?_, hnd, ?_⟩
  · rw [h.tail_eq]
    cases l with
    | nil => exact absurd rfl hl
    | cons b l => rw [List.getLast?_cons_cons]
  · apply (List.isChain_cons.1 h.chain).2.imp_of_mem_imp
    intro b c hb hc hbc
    rw [Function.update_of_ne (fun he : b = a => ha (he ▸ hb)), hbc]

end Threaded

end LinkedChain
