import Mathlib.Algebra.Order.Ring.Nat
import Mathlib.Data.Nat.Init
import Mathlib.Data.Set.CoeSort
import Mathlib.Order.Defs.Unbundled

/-!
# Counters with an epoch bit

A natural number kept as its residue modulo `m` and the parity of its quotient: the counter, and
the epoch that tells on which side of a wrap it is.

* `epoch m n` — whether `n` lies in an odd epoch; `epoch_eq_iff` — numbers less than `m` apart
  have the same epoch bit if they have the same quotient;
* `epoch_add` — the epoch bit of a sum;
* `le_and_epoch_iff` — comparing counters within an epoch;
* `mod_le_mod_iff` — comparing counters without looking at the epochs;
* `Later m n k` — comparing counters across a wrap as well; `later_iff_emod` — which numbers count
  as later;
* `later_iff` — the comparison is right for numbers less than `m` apart; `later_iff_of_le` — at a
  distance of exactly `m` neither number counts as the later one;
* `isStrictWeakOrder` — it orders the numbers in a window of `m`; `later_not_trans` — beyond one it
  need not be transitive.
-/

namespace Epoch

variable {m n k d : ℕ}

/-- The epoch bit: the parity of the quotient. -/
def epoch (m n : ℕ) : Bool := n / m % 2 == 1

theorem epoch_eq (m n : ℕ) : epoch m n = decide (n / m % 2 = 1) := by
  rw [epoch, Bool.eq_iff_iff]
  simp

/-- Numbers less than one epoch apart are in the same or in neighbouring epochs. -/
theorem div_le_succ (hm : 0 < m) (h : n < k + m) : n / m ≤ k / m + 1 := by
  rw [← Nat.add_div_right k hm]
  exact Nat.div_le_div_right h.le

theorem div_cases (hm : 0 < m) (h : n < k + m) (h' : k < n + m) :
    n / m = k / m ∨ n / m = k / m + 1 ∨ k / m = n / m + 1 := by
  have hle := div_le_succ hm h
  have hle' := div_le_succ hm h'
  omega

/-- The epoch bit tells neighbouring epochs apart. -/
theorem epoch_eq_iff (hm : 0 < m) (h : n < k + m) (h' : k < n + m) :
    epoch m n = epoch m k ↔ n / m = k / m := by
  have hdiv := div_cases hm h h'
  rw [epoch_eq, epoch_eq, decide_eq_decide]
  omega

/-- A step of less than one epoch wraps the counter at most once. -/
theorem epoch_add (hd : d < m) (n : ℕ) :
    epoch m (n + d) = if m ≤ n % m + d then !epoch m n else epoch m n := by
  have hm : 0 < m := by omega
  have hmod := Nat.mod_lt n hm
  have hdiv : (n + d) / m = n / m + if m ≤ n % m + d then 1 else 0 := by
    rw [Nat.add_div hm, Nat.div_eq_of_lt hd, Nat.mod_eq_of_lt hd, Nat.add_zero]
  rw [epoch_eq, epoch_eq, hdiv]
  split_ifs with h
  · rw [← decide_not, decide_eq_decide]
    omega
  · rw [Nat.add_zero]

/-- Within an epoch the counters are compared. -/
theorem le_and_epoch_iff (hm : 0 < m) (h : n < k + m) (h' : k < n + m) :
    (k % m ≤ n % m ∧ epoch m n = epoch m k) ↔ k ≤ n ∧ n / m = k / m := by
  rw [epoch_eq_iff hm h h']
  have hn := Nat.div_add_mod n m
  have hk := Nat.div_add_mod k m
  constructor
  · rintro ⟨hle, hdiv⟩
    rw [hdiv] at hn
    exact ⟨by omega, hdiv⟩
  · rintro ⟨hle, hdiv⟩
    rw [hdiv] at hn
    exact ⟨by omega, hdiv⟩

/-- The bare counters compare as the numbers do exactly within an epoch. -/
theorem mod_le_mod_iff (hm : 0 < m) (h : n < k + m) (h' : k < n + m) :
    k % m ≤ n % m ↔ (k ≤ n ↔ k / m = n / m) := by
  have hn := Nat.div_add_mod n m
  have hk := Nat.div_add_mod k m
  have hlt := Nat.mod_lt n hm
  have hlt' := Nat.mod_lt k hm
  rcases div_cases hm h h' with heq | heq | heq
  · rw [heq] at hn
    omega
  · rw [heq, Nat.mul_add, Nat.mul_one] at hn
    omega
  · rw [heq, Nat.mul_add, Nat.mul_one] at hk
    omega

/-! ### Comparison across a wrap -/

/-- `n` counts as later than `k`: its counter is ahead within an epoch, and behind otherwise. -/
def Later (m n k : ℕ) : Prop :=
  (epoch m n ≠ epoch m k ∧ n % m < k % m) ∨ (epoch m n = epoch m k ∧ k % m < n % m)

/-- The counter and the epoch bit are the place of a number on a ring of two epochs. -/
theorem mod_mul_two (m n : ℕ) : n % (m * 2) = n % m + if epoch m n then m else 0 := by
  rw [Nat.mod_mul, epoch_eq]
  rcases Nat.mod_two_eq_zero_or_one (n / m) with h | h <;> simp [h]

/-- The distance of two numbers on that ring. -/
theorem sub_emod_mul_two (hm : 0 < m) (n k : ℕ) : ((n : ℤ) - k) % (m * 2 : ℕ) =
    if k % (m * 2) ≤ n % (m * 2) then ((n % (m * 2) : ℕ) : ℤ) - (k % (m * 2) : ℕ)
    else ((n % (m * 2) : ℕ) : ℤ) - (k % (m * 2) : ℕ) + (m * 2 : ℕ) := by
  have hn := Nat.mod_lt n (by omega : 0 < m * 2)
  have hk := Nat.mod_lt k (by omega : 0 < m * 2)
  rw [Int.sub_emod, ← Int.natCast_emod, ← Int.natCast_emod]
  split_ifs with h
  · exact Int.emod_eq_of_lt (by omega) (by omega)
  · rw [← Int.add_emod_right]
    exact Int.emod_eq_of_lt (by omega) (by omega)

/-- **Which numbers count as later, exactly**: those that are ahead by less than an epoch on a ring
of two epochs. -/
theorem later_iff_emod (hm : 0 < m) (n k : ℕ) :
    Later m n k ↔ 0 < ((n : ℤ) - k) % (m * 2 : ℕ) ∧ ((n : ℤ) - k) % (m * 2 : ℕ) < m := by
  have hn := Nat.mod_lt n hm
  have hk := Nat.mod_lt k hm
  rw [sub_emod_mul_two hm, mod_mul_two, mod_mul_two, Later]
  by_cases he : epoch m n = epoch m k
  · -- the epochs cancel out
    simp only [he, ne_eq, not_true_eq_false, false_and, false_or, true_and,
      Nat.add_le_add_iff_right]
    split_ifs <;> omega
  · -- one of the numbers is in the second half of the ring
    simp only [he, ne_eq, not_false_eq_true, true_and, false_and, or_false]
    cases hbit : epoch m n with
    | false =>
      have hbit' : epoch m k = true := by simpa [hbit] using he
      simp only [hbit', Bool.false_eq_true, if_false, if_true]
      split_ifs <;> omega
    | true =>
      have hbit' : epoch m k = false := by simpa [hbit] using he
      simp only [hbit', Bool.false_eq_true, if_false, if_true]
      split_ifs <;> omega

/-- Numbers at most `m` apart. -/
theorem later_iff_of_le (hm : 0 < m) (h : n ≤ k + m) (h' : k ≤ n + m) :
    Later m n k ↔ k < n ∧ n < k + m := by
  rw [later_iff_emod hm]
  by_cases hkn : k ≤ n
  · rw [Int.emod_eq_of_lt (by omega) (by omega)]
    omega
  · rw [← Int.add_emod_right, Int.emod_eq_of_lt (by omega) (by omega)]
    omega

/-- Numbers less than `m` apart. -/
theorem later_iff (hm : 0 < m) (h : n < k + m) (h' : k < n + m) : Later m n k ↔ k < n := by
  rw [later_iff_of_le hm h.le h'.le]
  omega

/-- A number that is ahead by one to two epochs does not count as later. -/
theorem not_later (hm : 0 < m) (h : k + m ≤ n) (h' : n < k + m * 2) : ¬ Later m n k := by
  rw [later_iff_emod hm, Int.emod_eq_of_lt (by omega) (by omega)]
  omega

/-- **Within a window of one epoch** the numbers are compared by a strict weak order. -/
theorem isStrictWeakOrder {α : Type*} (hm : 0 < m) {S : Set α} {f : α → ℕ} {lo : ℕ}
    (h : ∀ p ∈ S, lo ≤ f p ∧ f p < lo + m) :
    IsStrictWeakOrder S fun p q => Later m (f p) (f q) := by
  have hlt : ∀ p q : S, Later m (f p) (f q) ↔ f q < f p := by
    intro p q
    have hp := h p p.2
    have hq := h q q.2
    exact later_iff hm (by omega) (by omega)
  simp only [hlt]
  exact
    { irrefl := fun p => lt_irrefl (f p)
      trans := fun p q r hpq hqr => hqr.trans hpq
      incomp_trans := fun p q r hpq hqr => by omega }

/-- **Beyond a window** they are not.  Of numbers each of which counts as later than the one before
it, the last one does not count as later than the first one. -/
theorem later_not_trans (hm : 0 < m) {a b c : ℕ} (hab : a < b) (hba : b < a + m) (hbc : b < c)
    (hcb : c < b + m) (hac : a + m ≤ c) : Later m b a ∧ Later m c b ∧ ¬ Later m c a :=
  ⟨(later_iff hm hba (by omega)).2 hab, (later_iff hm hcb (by omega)).2 hbc,
    not_later hm hac (by omega)⟩

end Epoch
