import RoombaRtos.Move

/-!
# Steering

What `choose_user_move` makes of a position of the joystick.

* `axis` — a reading of one axis, in percent;
* `Spins` — the positions in which the robot is to spin on the spot;
* `Steers` — what the joystick is for: the wheels turn as far as it is pushed, and to the side;
* `steers_iff` — when they do.
-/

namespace RoombaRtos

/-- The reading of an axis, mapped from `[0, 1023]` to `[-100, 100]`. -/
def axis (r : BitVec 16) : ℤ := cmapU r.toNat 0 1023 (-100) 100

/-- The speed that `x` or `y` adds to that of a wheel. -/
def quarter (v : ℤ) : ℤ := cmapU v (-100) 100 (-25) 25

/-- The speed of a wheel, from its two parts. -/
def wheel (v : ℤ) : ℤ := cmapU v (-75) 75 (-100) 100

theorem axis_mem (r : BitVec 16) : -100 ≤ axis r ∧ axis r ≤ 100 := cmapU_mem (by decide)

theorem wheel_mem (v : ℤ) : -100 ≤ wheel v ∧ wheel v ≤ 100 := cmapU_mem (by decide)

theorem axis_eq (r : BitVec 16) :
    axis r = if 1023 ≤ r.toNat then 100 else (r.toNat : ℤ) * 200 / 1023 - 100 := by
  have hmap : mapU r.toNat 0 1023 (-100) 100 = (r.toNat : ℤ) * 200 / 1023 - 100 := by
    rw [mapU_of_le (by decide) (by omega)]
    omega
  rw [axis, cmapU, hmap, constrainU]
  split_ifs <;> omega

/-- The axis is at its limit at the ends of the range of readings, where the map has rounded. -/
theorem axis_extreme_iff (r : BitVec 16) :
    absU (axis r) = 100 ↔ r.toNat ≤ 5 ∨ 1023 ≤ r.toNat := by
  rw [axis_eq, absU]
  split_ifs <;> omega

theorem quarter_eq {v : ℤ} (h : -100 ≤ v) (h' : v ≤ 100) :
    quarter v = (v + 100) * 50 / 200 - 25 := by
  have hmap : mapU v (-100) 100 (-25) 25 = (v + 100) * 50 / 200 - 25 := by
    rw [mapU_of_le (by decide) h]
    omega
  rw [quarter, cmapU, hmap, constrainU_of_mem (by omega) (by omega)]

theorem wheel_eq {v : ℤ} (h : -75 ≤ v) (h' : v ≤ 75) :
    wheel v = (v + 75) * 200 / 150 - 100 := by
  have hmap : mapU v (-75) 75 (-100) 100 = (v + 75) * 200 / 150 - 100 := by
    rw [mapU_of_le (by decide) h]
    omega
  rw [wheel, cmapU, hmap, constrainU_of_mem (by omega) (by omega)]

/-! ### The four drives -/

/-- The robot is to spin on the spot. -/
def Spins (x y : ℤ) (mode : Byte) : Prop :=
  deadband < absU x ∧ (absU y ≤ deadband ∨ mode = stayMode)

/-- The robot is to drive in a curve. -/
def Curves (x y : ℤ) (mode : Byte) : Prop :=
  deadband < absU x ∧ deadband < absU y ∧ mode ≠ stayMode

variable {x y : BitVec 16} {mode : Byte}

/-- A wheel on the outside or the inside of a curve: `v` is what its side adds. -/
def curveWheel (v y : ℤ) : ℤ := wheel ((25 + v) * (if y < 0 then -1 else 1) + quarter y)

theorem chooseUserMove_curve (h : Curves (axis x) (axis y) mode) :
    chooseUserMove x y mode =
      ⟨curveWheel (quarter (axis x)) (axis y), curveWheel (-quarter (axis x)) (axis y)⟩ := by
  unfold chooseUserMove
  exact if_pos h

theorem chooseUserMove_straight (hx : absU (axis x) ≤ deadband) (hy : deadband < absU (axis y))
    (hm : mode ≠ stayMode) : chooseUserMove x y mode = .forward (axis y) := by
  have hnot : ¬ Curves (axis x) (axis y) mode := fun h => by
    have hx' := h.1
    omega
  unfold chooseUserMove
  exact (if_neg hnot).trans (if_pos ⟨hy, hm⟩)

theorem chooseUserMove_spin (h : Spins (axis x) (axis y) mode) :
    chooseUserMove x y mode = .spinRight ((axis x).tdiv 100 * 50) := by
  obtain ⟨hx, hy⟩ := h
  have hstraight : ¬ (deadband < absU (axis y) ∧ mode ≠ stayMode) := by
    rintro ⟨hlt, hm⟩
    rcases hy with hy | hy
    · omega
    · exact hm hy
  have hnot : ¬ Curves (axis x) (axis y) mode := fun h => hstraight h.2
  unfold chooseUserMove
  exact (if_neg hnot).trans ((if_neg hstraight).trans (if_pos hx))

theorem chooseUserMove_stop (hx : absU (axis x) ≤ deadband)
    (hy : absU (axis y) ≤ deadband ∨ mode = stayMode) : chooseUserMove x y mode = .stop := by
  have hstraight : ¬ (deadband < absU (axis y) ∧ mode ≠ stayMode) := by
    rintro ⟨hlt, hm⟩
    rcases hy with hy | hy
    · omega
    · exact hm hy
  have hnot : ¬ Curves (axis x) (axis y) mode := fun h => hstraight h.2
  have hspin : ¬ deadband < absU (axis x) := by omega
  unfold chooseUserMove
  exact (if_neg hnot).trans ((if_neg hstraight).trans (if_neg hspin))

/-- The wheels of a curve turn the way of `y`, the one on the side of `x` faster. -/
theorem curve_signs {a b : ℤ} (ha : -100 ≤ a) (ha' : a ≤ 100) (hb : -100 ≤ b) (hb' : b ≤ 100)
    (hx : deadband < absU a) (hy : deadband < absU b) :
    (curveWheel (quarter a) b).sign = b.sign ∧ (curveWheel (-quarter a) b).sign = b.sign ∧
      (curveWheel (quarter a) b - curveWheel (-quarter a) b).sign = (a * b).sign := by
  have hqa := quarter_eq ha ha'
  have hqb := quarter_eq hb hb'
  have hx' : 20 < a ∨ a < -20 := by
    unfold absU deadband at hx
    split_ifs at hx <;> omega
  have hy' : 20 < b ∨ b < -20 := by
    unfold absU deadband at hy
    split_ifs at hy <;> omega
  rw [Int.sign_mul]
  unfold curveWheel
  rcases hy' with hpos | hneg
  · rw [if_neg (by omega), Int.mul_one, Int.mul_one, wheel_eq (by omega) (by omega),
      wheel_eq (by omega) (by omega), Int.sign_eq_one_of_pos (by omega : 0 < b)]
    rcases hx' with hx' | hx'
    · rw [Int.sign_eq_one_of_pos (by omega : 0 < a)]
      refine ⟨Int.sign_eq_one_of_pos (by omega), Int.sign_eq_one_of_pos (by omega),
        Int.sign_eq_one_of_pos (by omega)⟩
    · rw [Int.sign_eq_neg_one_of_neg (by omega : a < 0)]
      refine ⟨Int.sign_eq_one_of_pos (by omega), Int.sign_eq_one_of_pos (by omega),
        Int.sign_eq_neg_one_of_neg (by omega)⟩
  · rw [if_pos (by omega), wheel_eq (by omega) (by omega), wheel_eq (by omega) (by omega),
      Int.sign_eq_neg_one_of_neg (by omega : b < 0)]
    rcases hx' with hx' | hx'
    · rw [Int.sign_eq_one_of_pos (by omega : 0 < a)]
      refine ⟨Int.sign_eq_neg_one_of_neg (by omega), Int.sign_eq_neg_one_of_neg (by omega),
        Int.sign_eq_neg_one_of_neg (by omega)⟩
    · rw [Int.sign_eq_neg_one_of_neg (by omega : a < 0)]
      refine ⟨Int.sign_eq_neg_one_of_neg (by omega), Int.sign_eq_neg_one_of_neg (by omega),
        Int.sign_eq_one_of_pos (by omega)⟩

/-- The division comes first, so that only a full deflection leaves a speed. -/
theorem spin_speed {v : ℤ} (h : -100 ≤ v) (h' : v ≤ 100) :
    v.tdiv 100 * 50 = if absU v = 100 then v.sign * 50 else 0 := by
  unfold absU
  rcases lt_trichotomy v 0 with hv | hv | hv
  · have hdiv : v.tdiv 100 = -(-v / 100) := by
      rw [← Int.tdiv_eq_ediv_of_nonneg (by omega), Int.neg_tdiv, Int.neg_neg]
    rw [hdiv, Int.sign_eq_neg_one_of_neg hv]
    split_ifs <;> omega
  · subst hv
    rfl
  · rw [Int.tdiv_eq_ediv_of_nonneg (by omega), Int.sign_eq_one_of_pos hv]
    split_ifs <;> omega

/-! ### What the joystick is for -/

/-- The wheels follow the joystick. -/
structure Steers (x y : BitVec 16) (mode : Byte) : Prop where
  within : (-100 ≤ (chooseUserMove x y mode).leftSpeed ∧
      (chooseUserMove x y mode).leftSpeed ≤ 100) ∧
    (-100 ≤ (chooseUserMove x y mode).rightSpeed ∧ (chooseUserMove x y mode).rightSpeed ≤ 100)
  stop : absU (axis x) ≤ deadband → absU (axis y) ≤ deadband ∨ mode = stayMode →
    chooseUserMove x y mode = .stop
  /-- The robot spins to the side of `x`. -/
  spin : Spins (axis x) (axis y) mode →
    (chooseUserMove x y mode).leftSpeed = -(chooseUserMove x y mode).rightSpeed ∧
      (chooseUserMove x y mode).leftSpeed ≠ 0 ∧
      (chooseUserMove x y mode).leftSpeed.sign = (axis x).sign
  /-- It spins no slower when `x` is pushed further. -/
  spin_mono : Spins (axis x) (axis y) mode → ∀ x', absU (axis x) ≤ absU (axis x') →
    absU (chooseUserMove x y mode).leftSpeed ≤ absU (chooseUserMove x' y mode).leftSpeed
  straight : absU (axis x) ≤ deadband → deadband < absU (axis y) → mode ≠ stayMode →
    (chooseUserMove x y mode).leftSpeed = axis y ∧ (chooseUserMove x y mode).rightSpeed = axis y
  curve : deadband < absU (axis x) → deadband < absU (axis y) → mode ≠ stayMode →
    (chooseUserMove x y mode).leftSpeed ≠ 0 ∧ (chooseUserMove x y mode).rightSpeed ≠ 0 ∧
      (chooseUserMove x y mode).leftSpeed.sign = (axis y).sign ∧
      (chooseUserMove x y mode).rightSpeed.sign = (axis y).sign ∧
      ((chooseUserMove x y mode).leftSpeed - (chooseUserMove x y mode).rightSpeed).sign =
        (axis x * axis y).sign

/-- In every position the robot stops, spins, drives straight on or in a curve. -/
theorem drive_cases (x y : ℤ) (mode : Byte) :
    (absU x ≤ deadband ∧ (absU y ≤ deadband ∨ mode = stayMode)) ∨ Spins x y mode ∨
      (absU x ≤ deadband ∧ deadband < absU y ∧ mode ≠ stayMode) ∨ Curves x y mode := by
  unfold Spins Curves
  by_cases hm : mode = stayMode
  · have hx := le_or_gt (absU x) deadband
    simp only [hm, or_true, and_true, ne_eq, not_true_eq_false, and_false, or_false]
    exact hx
  · simp only [hm, or_false, ne_eq, not_false_eq_true, and_true]
    omega

theorem chooseUserMove_within (x y : BitVec 16) (mode : Byte) :
    (-100 ≤ (chooseUserMove x y mode).leftSpeed ∧ (chooseUserMove x y mode).leftSpeed ≤ 100) ∧
      (-100 ≤ (chooseUserMove x y mode).rightSpeed ∧
        (chooseUserMove x y mode).rightSpeed ≤ 100) := by
  rcases drive_cases (axis x) (axis y) mode with h | h | h | h
  · rw [chooseUserMove_stop h.1 h.2]
    decide
  · obtain ⟨hx, hx'⟩ := axis_mem x
    rw [chooseUserMove_spin h]
    show (_ ≤ (axis x).tdiv 100 * 50 ∧ (axis x).tdiv 100 * 50 ≤ _) ∧
      (_ ≤ -((axis x).tdiv 100 * 50) ∧ -((axis x).tdiv 100 * 50) ≤ _)
    rw [spin_speed hx hx']
    rcases Int.sign_trichotomy (axis x) with hsign | hsign | hsign <;> rw [hsign] <;>
      split_ifs <;> decide
  · rw [chooseUserMove_straight h.1 h.2.1 h.2.2]
    exact ⟨axis_mem y, axis_mem y⟩
  · rw [chooseUserMove_curve h]
    exact ⟨wheel_mem _, wheel_mem _⟩

/-- A spinning robot turns its wheels only at full deflection. -/
theorem spin_left (h : Spins (axis x) (axis y) mode) :
    (chooseUserMove x y mode).leftSpeed =
      if absU (axis x) = 100 then (axis x).sign * 50 else 0 := by
  obtain ⟨hx, hx'⟩ := axis_mem x
  rw [chooseUserMove_spin h, ← spin_speed hx hx']
  rfl

theorem spin_left_abs (h : Spins (axis x) (axis y) mode) :
    absU (chooseUserMove x y mode).leftSpeed = if absU (axis x) = 100 then 50 else 0 := by
  rw [spin_left h]
  split_ifs with hfull
  · have hne : axis x ≠ 0 := by
      intro h0
      rw [h0] at hfull
      cases hfull
    rcases lt_or_gt_of_ne hne with hneg | hpos
    · rw [Int.sign_eq_neg_one_of_neg hneg]
      rfl
    · rw [Int.sign_eq_one_of_pos hpos]
      rfl
  · rfl

/-- **Steering, exactly.**  For all readings and modes the wheels follow the joystick, unless the
robot is to spin and the stick is not at the end of its way: then they stand still. -/
theorem steers_iff (x y : BitVec 16) (mode : Byte) : Steers x y mode ↔
    (Spins (axis x) (axis y) mode → x.toNat ≤ 5 ∨ 1023 ≤ x.toNat) := by
  rw [← axis_extreme_iff]
  constructor
  · intro h hs
    obtain ⟨-, hne, -⟩ := h.spin hs
    by_contra hfull
    exact hne (by rw [spin_left hs, if_neg hfull])
  · intro h
    refine ⟨chooseUserMove_within x y mode, chooseUserMove_stop, ?_, ?_, ?_, ?_⟩
    · intro hs
      have hfull := h hs
      have hleft := spin_left hs
      rw [if_pos hfull] at hleft
      have hne : axis x ≠ 0 := by
        intro h0
        rw [h0] at hfull
        cases hfull
      refine ⟨?_, ?_, ?_⟩
      · rw [chooseUserMove_spin hs]
        exact (Int.neg_neg _).symm
      · rw [hleft]
        have hsign : (axis x).sign ≠ 0 := fun h0 => hne (Int.sign_eq_zero_iff_zero.1 h0)
        omega
      · rw [hleft, Int.sign_mul, Int.sign_sign]
        exact Int.mul_one _
    · intro hs x' hle
      have hs' : Spins (axis x') (axis y) mode := ⟨lt_of_lt_of_le hs.1 hle, hs.2⟩
      have hmem := axis_mem x'
      rw [spin_left_abs hs, spin_left_abs hs']
      have hbound : absU (axis x') ≤ 100 := by
        unfold absU
        split_ifs <;> omega
      split_ifs <;> omega
    · intro hx hy hm
      rw [chooseUserMove_straight hx hy hm]
      exact ⟨rfl, rfl⟩
    · intro hx hy hm
      obtain ⟨ha, ha'⟩ := axis_mem x
      obtain ⟨hb, hb'⟩ := axis_mem y
      obtain ⟨hl, hr, hdiff⟩ := curve_signs ha ha' hb hb' hx hy
      rw [chooseUserMove_curve ⟨hx, hy, hm⟩]
      have hne : (axis y).sign ≠ 0 := by
        intro h0
        rw [Int.sign_eq_zero_iff_zero.1 h0] at hy
        cases hy
      refine ⟨fun h0 => hne ?_, fun h0 => hne ?_, hl, hr, hdiff⟩
      · have h0 : curveWheel (quarter (axis x)) (axis y) = 0 := h0
        rw [← hl, h0]
        rfl
      · have h0 : curveWheel (-quarter (axis x)) (axis y) = 0 := h0
        rw [← hr, h0]
        rfl

/-- With the joystick pushed halfway to the side, the robot stands still. -/
theorem half_spin_stands :
    (axis 800 = 56 ∧ axis 512 = 0) ∧ chooseUserMove 800 512 freeMode = ⟨0, 0⟩ ∧
      ¬ Steers 800 512 freeMode := by
  have hmove : chooseUserMove 800 512 freeMode = ⟨0, 0⟩ := by decide
  refine ⟨by decide, hmove, fun h => ?_⟩
  have hs : Spins (axis 800) (axis 512) freeMode := ⟨by decide, Or.inl (by decide)⟩
  apply (h.spin hs).2.1
  rw [hmove]

end RoombaRtos
