import RoombaRtos.Common

/-!
# Moves

The wheel speeds of `move/move.c`, and the arithmetic of `utils/utils.c` they are computed with.

* `cmapU` — a value mapped from one range to another, and clamped;
* `Move` — the speeds of the two wheels, in percent;
* `roombaSpeed` — what the robot is told;
* `chooseUserMove` — the move for a position of the joystick.

`long` has four bytes on the board and `int16_t` two; all values here stay far inside.
-/

namespace RoombaRtos

/-! ### Ranges -/

/-- Maps the value `x` which is in range `[inMin, inMax]` to `[outMin, outMax]`. -/
def mapU (x inMin inMax outMin outMax : ℤ) : ℤ :=
  ((x - inMin) * (outMax - outMin)).tdiv (inMax - inMin) + outMin

/-- Constrains the value `x` to `[lo, hi]`. -/
def constrainU (x lo hi : ℤ) : ℤ := if x < lo then lo else if x > hi then hi else x

/-- Maps and constrains `x`. -/
def cmapU (x inMin inMax outMin outMax : ℤ) : ℤ :=
  constrainU (mapU x inMin inMax outMin outMax) outMin outMax

/-- Calculates the absolute value of a number. -/
def absU (x : ℤ) : ℤ := if x > 0 then x else if x < 0 then -x else 0

theorem constrainU_mem {x lo hi : ℤ} (h : lo ≤ hi) :
    lo ≤ constrainU x lo hi ∧ constrainU x lo hi ≤ hi := by
  unfold constrainU
  split_ifs <;> omega

theorem cmapU_mem {x inMin inMax outMin outMax : ℤ} (h : outMin ≤ outMax) :
    outMin ≤ cmapU x inMin inMax outMin outMax ∧ cmapU x inMin inMax outMin outMax ≤ outMax :=
  constrainU_mem h

theorem constrainU_cases (x lo hi : ℤ) : x < lo ∧ constrainU x lo hi = lo ∨
    hi < x ∧ lo ≤ x ∧ constrainU x lo hi = hi ∨ lo ≤ x ∧ x ≤ hi ∧ constrainU x lo hi = x := by
  unfold constrainU
  split_ifs <;> omega

theorem absU_le_iff {x k : ℤ} (hk : 0 ≤ k) : absU x ≤ k ↔ -k ≤ x ∧ x ≤ k := by
  unfold absU
  split_ifs <;> omega

theorem absU_eq_zero_iff {x : ℤ} : absU x = 0 ↔ x = 0 := by
  unfold absU
  split_ifs <;> omega

theorem constrainU_of_mem {x lo hi : ℤ} (h : lo ≤ x) (h' : x ≤ hi) : constrainU x lo hi = x := by
  unfold constrainU
  split_ifs <;> omega

/-- From the lower end of the range on, the quotient is rounded down. -/
theorem mapU_of_le {x inMin inMax outMin outMax : ℤ} (hout : outMin ≤ outMax) (h : inMin ≤ x) :
    mapU x inMin inMax outMin outMax =
      (x - inMin) * (outMax - outMin) / (inMax - inMin) + outMin := by
  have hmul : 0 ≤ (x - inMin) * (outMax - outMin) := Int.mul_nonneg (by omega) (by omega)
  rw [mapU, Int.tdiv_eq_ediv_of_nonneg hmul]

/-! ### Moves -/

/-- `DEADBAND`. -/
def deadband : ℤ := 20

/-- `MAX_SPEED`. -/
def maxSpeed : ℤ := 500

/-- `FREE_MODE`, `STAY_MODE` and `NO_MODE`. -/
def freeMode : Byte := 0
def stayMode : Byte := 1
def noMode : Byte := 3

structure Move where
  leftSpeed : ℤ
  rightSpeed : ℤ
deriving DecidableEq, Repr

namespace Move

/-- Stop both wheels. -/
def stop : Move := ⟨0, 0⟩

/-- Move both wheels forwards. -/
def forward (speed : ℤ) : Move := ⟨speed, speed⟩

/-- Move both wheels backwards. -/
def backward (speed : ℤ) : Move := ⟨-speed, -speed⟩

/-- Spin on a dime right. -/
def spinRight (speed : ℤ) : Move := ⟨speed, -speed⟩

/-- Spin on a dime left. -/
def spinLeft (speed : ℤ) : Move := ⟨-speed, speed⟩

end Move

/-- Convert relative percentage based speed to absolute speed. -/
def roombaSpeed (speed : ℤ) : ℤ := cmapU speed (-100) 100 (-maxSpeed) maxSpeed

/-- Choose a user speed based on x and y joystick directions. -/
def chooseUserMove (x y : BitVec 16) (mode : Byte) : Move :=
  -- both axes are mapped from `[0, 1023]` to `[-100, 100]`
  let x := cmapU x.toNat 0 1023 (-100) 100
  let y := cmapU y.toNat 0 1023 (-100) 100
  if absU x > deadband ∧ absU y > deadband ∧ mode ≠ stayMode then
    -- angled drive
    let x := cmapU x (-100) 100 (-25) 25
    let sign : ℤ := if y < 0 then -1 else 1
    let leftX := (25 + x) * sign
    let rightX := (25 - x) * sign
    let y := cmapU y (-100) 100 (-25) 25
    ⟨cmapU (leftX + y) (-75) 75 (-100) 100, cmapU (rightX + y) (-75) 75 (-100) 100⟩
  else if absU y > deadband ∧ mode ≠ stayMode then
    -- straight drive
    .forward y
  else if absU x > deadband then
    -- spin drive
    .spinRight (x.tdiv 100 * 50)
  else .stop

theorem roombaSpeed_mem (speed : ℤ) :
    -maxSpeed ≤ roombaSpeed speed ∧ roombaSpeed speed ≤ maxSpeed :=
  cmapU_mem (by decide)

end RoombaRtos
