import Mathlib.Algebra.Ring.Nat
import Mathlib.Data.List.SplitLengths
import Mathlib.Data.List.Chain

/-!
# Streams of frames

Items that are sent as frames, all of the same length, and what can be told from the stream.

* `getElem?_flatMap` — where in the stream the entries of the frames are;
* `eq_of_aligned` — a stretch of the length of a frame that starts where a frame starts is one;
* `take_of_splitLengths` — the pieces into which the front of a list is cut;
* `exists_indices` — a reader that only moves on, along the states of a run.
-/

namespace Frames

variable {α β : Type*} {f : α → List β} {n : ℕ}

theorem getElem?_flatMap (hf : ∀ a, (f a).length = n) (l : List α) (i : ℕ) {r : ℕ} (hr : r < n) :
    (l.flatMap f)[n * i + r]? = l[i]?.bind fun a => (f a)[r]? := by
  induction l generalizing i with
  | nil => simp
  | cons a l ih =>
    rw [List.flatMap_cons]
    cases i with
    | zero =>
      have hlt : n * 0 + r < (f a).length := by
        rw [hf]
        omega
      rw [List.getElem?_append_left hlt]
      simp
    | succ i =>
      have hge : (f a).length ≤ n * (i + 1) + r := by
        rw [hf, Nat.mul_succ]
        omega
      have hsub : n * (i + 1) + r - (f a).length = n * i + r := by
        rw [hf, Nat.mul_succ]
        omega
      rw [List.getElem?_append_right hge, hsub, ih]
      rfl

theorem length_flatMap (hf : ∀ a, (f a).length = n) (l : List α) :
    (l.flatMap f).length = n * l.length := by
  induction l with
  | nil => rfl
  | cons a l ih =>
    rw [List.flatMap_cons, List.length_append, ih, hf, List.length_cons, Nat.mul_succ]
    omega

/-- **Frames are found where they start.** -/
theorem eq_of_aligned (hf : ∀ a, (f a).length = n) {l : List α} {v : List β} (hv : v.length = n)
    (hn : 0 < n) {i : ℕ} (h : ∀ r, r < n → (l.flatMap f)[n * i + r]? = v[r]?) :
    ∃ a, l[i]? = some a ∧ v = f a := by
  cases ha : l[i]? with
  | none =>
    have h0 := h 0 hn
    rw [getElem?_flatMap hf l i hn, ha, List.getElem?_eq_getElem (by omega)] at h0
    cases h0
  | some a =>
    refine ⟨a, rfl, List.ext_getElem? fun r => ?_⟩
    rcases Nat.lt_or_ge r n with hr | hr
    · have h' := h r hr
      rw [getElem?_flatMap hf l i hr, ha] at h'
      exact h'.symm
    · rw [List.getElem?_eq_none (by omega), List.getElem?_eq_none (by rw [hf]; omega)]

/-- Cut into pieces, the front of a list is still there. -/
theorem flatten_splitLengths (ns : List ℕ) (l : List α) :
    (ns.splitLengths l).flatten = l.take ns.sum := by
  induction ns generalizing l with
  | nil =>
    rw [List.sum_nil, List.take_zero]
    rfl
  | cons n ns ih =>
    rw [List.splitLengths_cons, List.flatten_cons, ih, List.sum_cons, List.take_add]

/-- **A reader that only moves on.**  If it never goes back in one step, then its places along a
run are in order. -/
theorem exists_indices {σ : Type*} {step : σ → σ → Prop} {place : σ → ℕ → Prop}
    (hstep : ∀ s t i, place s i → step s t → ∃ j, i ≤ j ∧ place t j) {s : σ} {ts : List σ}
    (hts : (s :: ts).IsChain step) {i : ℕ} (hi : place s i) :
    ∃ idx, List.Forall₂ place ts idx ∧ (i :: idx).Pairwise (· ≤ ·) := by
  induction ts generalizing s i with
  | nil => exact ⟨[], List.Forall₂.nil, List.pairwise_singleton _ _⟩
  | cons t ts ih =>
    rw [List.isChain_cons_cons] at hts
    obtain ⟨j, hij, hj⟩ := hstep s t i hi hts.1
    obtain ⟨idx, hidx, hle⟩ := ih hts.2 hj
    refine ⟨j :: idx, List.Forall₂.cons hj hidx, List.pairwise_cons.2 ⟨fun k hk => ?_, hle⟩⟩
    rcases List.mem_cons.1 hk with rfl | hk
    · exact hij
    · exact hij.trans (List.rel_of_pairwise_cons hle hk)

end Frames
