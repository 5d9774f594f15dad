import Mathlib.Algebra.Group.Prod
import Mathlib.Algebra.BigOperators.Group.List.Basic
import Mathlib.Data.List.Basic

/-!
# Sums of sums

The two running sums of Fletcher's checksum, over any commutative monoid: the sum of the
elements, and the sum of the sums so far.

* `sums c l` — the sums over `l`, begun at `c`;
* `sums_set_eq_iff` — **one changed element is always seen**: where addition cancels, replacing an
  element changes the sums unless the new element is the old one.
-/

namespace Fletcher

variable {M : Type*}

/-- One round of the loop. -/
def step [Add M] (c : M × M) (b : M) : M × M := (c.1 + b, c.2 + (c.1 + b))

def sums [Add M] (c : M × M) (l : List M) : M × M := l.foldl step c

@[simp] theorem sums_nil [Add M] (c : M × M) : sums c [] = c := rfl

@[simp] theorem sums_cons [Add M] (c : M × M) (b : M) (l : List M) :
    sums c (b :: l) = sums (step c b) l := rfl

theorem sums_append [Add M] (c : M × M) (l l' : List M) :
    sums c (l ++ l') = sums (sums c l) l' := List.foldl_append

/-- The first of them is the sum of the list. -/
theorem sums_fst [AddMonoid M] (c : M × M) (l : List M) : (sums c l).1 = c.1 + l.sum := by
  induction l generalizing c with
  | nil => simp
  | cons b l ih => rw [sums_cons, ih, step, List.sum_cons, add_assoc]

/-- **One changed element is always seen.** -/
theorem sums_set_eq_iff [AddCancelMonoid M] (c : M × M) (l : List M) {i : ℕ} (hi : i < l.length)
    (b : M) : sums c (l.set i b) = sums c l ↔ b = l[i] := by
  constructor
  · intro h
    have hsum : (l.set i b).sum = l.sum := by
      have hfst := congrArg Prod.fst h
      rw [sums_fst, sums_fst] at hfst
      exact add_left_cancel hfst
    have hsplit : l.sum = (l.take i).sum + (l[i] + (l.drop (i + 1)).sum) := by
      rw [← List.sum_cons, ← List.sum_append, ← List.drop_eq_getElem_cons hi,
        List.take_append_drop]
    rw [List.set_eq_take_append_cons_drop, if_pos hi, List.sum_append, List.sum_cons,
      hsplit] at hsum
    exact add_right_cancel (add_left_cancel hsum)
  · intro h
    rw [h, List.set_getElem_self]

end Fletcher
