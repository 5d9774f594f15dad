import Mathlib.Algebra.Order.BigOperators.Group.Finset
import Mathlib.Data.Fintype.Card
import Mathlib.Tactic.Linarith

/-!
# Periodic tasks served one at a time

A dispatcher keeps for each task the time to its next release.  Each time it looks, it lets the
time that has passed run off all of them, and serves one task that is due, if there is one, which
moves the release of that task one period on.

* `Serve` — one look at the tasks, whichever of the due tasks is served;
* `Prompt g` — the dispatcher looks again within `g`, or at most `g` after the next release;
* `Busy` — the tasks served since some task last waited; `Busy.serve` keeps it;
* `Busy.late_le` — with periods of more than `card ι * g` no release waits for more than
  `card ι - 1` others.
-/

namespace TimeTriggered

variable {ι : Type*} [DecidableEq ι]

/-- One look at the tasks, `e` after the last one.  Any task that is due may be served. -/
inductive Serve (p : ι → ℤ) (e : ℤ) (r : ι → ℤ) : Option ι → (ι → ℤ) → Prop
  | serve (i : ι) (hdue : r i ≤ e) :
      Serve p e r (some i) (fun j => r j - e + if j = i then p j else 0)
  | idle (hnone : ∀ j, e < r j) : Serve p e r none (fun j => r j - e)

/-- The dispatcher looks again within `g`, or at most `g` after the next release. -/
def Prompt (g : ℤ) (r : ι → ℤ) (e : ℤ) : Prop := e ≤ g ∨ ∀ j, e ≤ r j + g

variable {p r r' r₀ : ι → ℤ} {e d g : ℤ} {o : Option ι} {i : ι}

/-- Each look takes the time off every countdown, and adds a period to the one served. -/
theorem Serve.eq (h : Serve p e r o r') (j : ι) :
    r' j = r j - e + if o = some j then p j else 0 := by
  cases h with
  | serve i hdue => simp only [Option.some.injEq, eq_comm]
  | idle hnone => simp

theorem Serve.due (h : Serve p e r (some i) r') : r i ≤ e := by
  cases h with
  | serve _ hdue => exact hdue

/-- A part of the waiting may be counted before the look. -/
theorem Serve.shift (h : Serve p e r o r') (d : ℤ) :
    Serve p (e - d) (fun j => r j - d) o r' := by
  cases h with
  | serve i hdue =>
    have hsub : ∀ j, r j - e = r j - d - (e - d) := fun j => by omega
    simp only [hsub]
    exact .serve i (by omega)
  | idle hnone =>
    have hsub : ∀ j, r j - e = r j - d - (e - d) := fun j => by omega
    simp only [hsub]
    exact .idle fun j => by have := hnone j; omega

/-- No countdown exceeds what it starts with and its period. -/
theorem Serve.lt_of (h : Serve p e r o r') (i : ι) (he : 0 ≤ e) {m : ℤ} (hp : p i < m)
    (hr : r i < m) : r' i < m := by
  rw [h.eq]
  split_ifs with ho
  · subst ho
    have hdue := h.due
    omega
  · omega

/-! ### Busy periods -/

/-- The tasks `s` have been served since the dispatcher last had nothing to do, which was at most
`card s * g` ago: since then their releases are a period further away than those of the rest. -/
def Busy (p : ι → ℤ) (g : ℤ) (r : ι → ℤ) : Prop :=
  ∃ (b : ℤ) (s : Finset ι), b ≤ s.card * g ∧ ∀ j, (if j ∈ s then p j else 0) ≤ r j + b

/-- Nothing waits. -/
theorem Busy.of_nonneg (h : ∀ j, 0 ≤ r j) : Busy p g r :=
  ⟨0, ∅, by simp, by simpa using h⟩

variable [Fintype ι]

/-- A busy period ends when all tasks have been served. -/
theorem Busy.proper (hp : ∀ j, Fintype.card ι * g < p j) (h : Busy p g r) :
    ∃ (b : ℤ) (s : Finset ι), b ≤ s.card * g ∧ (∀ j, (if j ∈ s then p j else 0) ≤ r j + b) ∧
      (s.card < Fintype.card ι ∨ s = ∅) := by
  obtain ⟨b, s, hb, hs⟩ := h
  rcases lt_or_eq_of_le s.card_le_univ with hlt | heq
  · exact ⟨b, s, hb, hs, Or.inl hlt⟩
  · refine ⟨0, ∅, by simp, fun j => ?_, Or.inr rfl⟩
    have hall : j ∈ s := by
      rw [Finset.eq_univ_of_card s heq]
      exact Finset.mem_univ j
    have hj := hs j
    have hpj := hp j
    rw [if_pos hall] at hj
    rw [heq] at hb
    simp only [Finset.notMem_empty, if_false]
    linarith

/-- A task that has been served in a busy period is not due again in it. -/
theorem Busy.serve_of_le (hg : 0 ≤ g) (hp : ∀ j, Fintype.card ι * g < p j) (h : Busy p g r)
    (hs : Serve p e r o r') (he : e ≤ g) : Busy p g r' := by
  cases hs with
  | idle hnone =>
    refine .of_nonneg fun j => ?_
    have hj := hnone j
    omega
  | serve i hdue =>
    obtain ⟨b, s, hb, hs, hcard⟩ := h.proper hp
    have hi : i ∉ s := by
      intro hmem
      have hlt : s.card < Fintype.card ι :=
        hcard.resolve_right fun h0 => Finset.notMem_empty i (h0 ▸ hmem)
      have hle : ((s.card : ℤ) + 1) * g ≤ Fintype.card ι * g :=
        mul_le_mul_of_nonneg_right (by exact_mod_cast hlt) hg
      have hii := hs i
      have hpi := hp i
      rw [if_pos hmem] at hii
      linarith
    refine ⟨b + e, insert i s, ?_, fun j => ?_⟩
    · rw [Finset.card_insert_of_notMem hi]
      push_cast
      linarith
    · have hj := hs j
      by_cases hji : j = i
      · subst hji
        simp only [Finset.mem_insert_self, if_true]
        rw [if_neg hi] at hj
        linarith
      · simp only [Finset.mem_insert, hji, false_or, if_false]
        linarith

/-- Idling up to the next release leaves nothing waiting. -/
theorem Busy.serve (hg : 0 ≤ g) (hp : ∀ j, Fintype.card ι * g < p j) (h : Busy p g r)
    (hs : Serve p e r o r') (he : Prompt g r e) : Busy p g r' := by
  rcases he with he | he
  · exact h.serve_of_le hg hp hs he
  · have hbusy : Busy p g (fun j => r j - (e - g)) :=
      .of_nonneg fun j => by have hj := he j; omega
    exact hbusy.serve_of_le hg hp (hs.shift (e - g)) (by omega)

/-- In a busy period a task waits for each of the others at most once. -/
theorem Busy.late_le (hg : 0 ≤ g) (hp : ∀ j, Fintype.card ι * g < p j) (h : Busy p g r) (j : ι) :
    -((Fintype.card ι - 1) * g) ≤ r j := by
  obtain ⟨b, s, hb, hs⟩ := h
  have hj := hs j
  by_cases hmem : j ∈ s
  · have hle : (s.card : ℤ) * g ≤ Fintype.card ι * g :=
      mul_le_mul_of_nonneg_right (by exact_mod_cast s.card_le_univ) hg
    have hpj := hp j
    have hpos : (1 : ℤ) ≤ Fintype.card ι := by exact_mod_cast Fintype.card_pos_iff.2 ⟨j⟩
    have hwait : 0 ≤ ((Fintype.card ι : ℤ) - 1) * g := mul_nonneg (by omega) hg
    rw [if_pos hmem] at hj
    linarith
  · have hlt : s.card < Fintype.card ι := by
      rw [Finset.card_lt_iff_ne_univ]
      exact fun h0 => hmem (h0 ▸ Finset.mem_univ j)
    have hle : (s.card : ℤ) * g ≤ ((Fintype.card ι : ℤ) - 1) * g :=
      mul_le_mul_of_nonneg_right (by omega) hg
    rw [if_neg hmem] at hj
    linarith

end TimeTriggered
