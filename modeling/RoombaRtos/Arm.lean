import RoombaRtos.Common
import RoombaRtos.Lib.Lockstep
import RoombaRtos.Move
import Mathlib.Data.Set.Basic

/-!
# The arm

The pan and tilt kit of `Arm/Arm.cpp`: two servos that are moved by one degree at a time, at a
speed that is set with the joystick.

* `filterSpeed` — the speed for a reading of the joystick;
* `Arm.tick` — both joints are moved, if it is their time;
* `Arm.Step` — the calls of `UpdateArm` and `TickArm`, in any order;
* `saturates_iff` — for which readings the speed grows with the reading;
* `Arm.divides_iff` — when both divisions of a tick can be carried out.

An `int8_t` or `int16_t` is kept as its bits, and read with `BitVec.toInt`.
-/

namespace RoombaRtos

open Lockstep

/-! ### Servos -/

/-- `pwm_write`: what is stored in the compare register. -/
def pwmValue (microSeconds : Word) : Word :=
  BitVec.ofInt 16 (mapU microSeconds.toNat 500 2500 125 625)

/-- `Motor::write`, with `MIN_PULSE` and `MAX_PULSE`. -/
def motorWrite (angle : Byte) : Word :=
  let pos : Word := BitVec.ofInt 16 (constrainU angle.toNat 0 180)
  let pos : Word := BitVec.ofInt 16 (mapU pos.toNat 0 180 544 2400)
  pwmValue pos

/-! ### Joints -/

/-- `DEG_MIN`. -/
def degMin : ℤ := 1

/-- `DEG_MAX`. -/
def degMax : ℤ := 179

/-- `S_MAX_SPEED`, in degrees for each second. -/
def sMaxSpeed : ℤ := 15

structure Joint where
  pos : Byte
  speed : BitVec 8
  lastRun : BitVec 32
  /-- The compare register of the servo. -/
  servo : Word
deriving DecidableEq, Repr

def setServoPos (pos : Byte) : Word :=
  motorWrite (BitVec.ofInt 8 (constrainU pos.toNat degMin degMax))

def setJointSpeed (joint : Joint) (s : BitVec 8) : Joint :=
  { joint with speed := BitVec.ofInt 8 (constrainU s.toInt (-1 * sMaxSpeed) sMaxSpeed) }

/-- `value` should be a reading from the joystick, in `[0, 1023]`. -/
def filterSpeed (value : BitVec 16) : BitVec 8 :=
  let speed : BitVec 8 :=
    BitVec.ofInt 8 (mapU value.toInt 20 1003 (-1 * sMaxSpeed) sMaxSpeed)
  let speed : BitVec 8 :=
    BitVec.ofInt 8 (constrainU speed.toInt (-1 * sMaxSpeed) sMaxSpeed)
  -- threshold
  if absU speed.toInt ≤ 5 then 0 else speed

/-- The number of ticks required to pass to update the joint by one degree. -/
def Joint.thresh (joint : Joint) : BitVec 16 :=
  BitVec.ofInt 16 ((100 : ℤ).tdiv (absU joint.speed.toInt))

/-- The joint is moved by one degree. -/
def Joint.update (joint : Joint) (now : BitVec 32) : Joint :=
  let pos : Byte := BitVec.ofInt 8 (constrainU
    (if joint.speed.toInt < 0 then joint.pos.toNat - 1 else joint.pos.toNat + 1)
    degMin degMax)
  { joint with pos := pos, servo := setServoPos pos, lastRun := now }

/-- What `Arm::tick` does to a joint; `none` if it divides by zero, which C leaves undefined. -/
def Joint.tick (joint : Joint) (now delta : BitVec 32) : Option Joint :=
  if absU joint.speed.toInt = 0 then none
  else if delta.toNat > joint.thresh.toNat then some (joint.update now)
  else some joint

/-! ### The arm -/

structure Arm where
  x : Joint
  y : Joint
deriving DecidableEq, Repr

/-- What is called by `UpdateArm`, with the values of the packet, and by `TickArm`. -/
inductive ArmCall
  | setSpeedX (value : BitVec 16)
  | setSpeedY (value : BitVec 16)
  | tick (now : Tick)
deriving DecidableEq, Repr

namespace Arm

/-- The constructor runs before the kernel does, and `Now` returns 0 there. -/
def init : Arm where
  x := { pos := 90, speed := 0, lastRun := 0, servo := 0 }
  y := { pos := 0, speed := 0, lastRun := 0, servo := 0 }

-- each axis of the joystick sets the speed of the other joint
def setSpeedX (arm : Arm) (s : BitVec 8) : Arm := { arm with y := setJointSpeed arm.y s }

def setSpeedY (arm : Arm) (s : BitVec 8) : Arm := { arm with x := setJointSpeed arm.x s }

def tick (arm : Arm) (now : Tick) : Option Arm := do
  let now : BitVec 32 := now.setWidth 32
  let deltaX := now - arm.x.lastRun
  let deltaY := now - arm.y.lastRun
  let x ← arm.x.tick now deltaX
  let y ← arm.y.tick now deltaY
  return { x := x, y := y }

def call (arm : Arm) : ArmCall → Option Arm
  | .setSpeedX value => some (arm.setSpeedX (filterSpeed value))
  | .setSpeedY value => some (arm.setSpeedY (filterSpeed value))
  | .tick now => arm.tick now

def Step (arm : Arm) (c : ArmCall) (arm' : Arm) : Prop := arm.call c = some arm'

end Arm

/-! ### Speeds -/

/-- The number of steps of speed that `value` is away from the lower end of the range. -/
def speedSteps (value : BitVec 16) : ℤ := ((value.toInt - 20) * 30).tdiv 983

/-- The mapped value, in the eight bits that it is stored in. -/
def narrowed (value : BitVec 16) : ℤ := (speedSteps value - 15).bmod 256

theorem narrowed_cases (value : BitVec 16) :
    (speedSteps value - 15) % 256 < 128 ∧ narrowed value = (speedSteps value - 15) % 256 ∨
      128 ≤ (speedSteps value - 15) % 256 ∧
        narrowed value = (speedSteps value - 15) % 256 - 256 := by
  unfold narrowed
  rw [Int.bmod_def]
  split_ifs with h <;> omega

theorem toInt_ofInt_of_mem {s : ℤ} (h : -15 ≤ s) (h' : s ≤ 15) : (BitVec.ofInt 8 s).toInt = s := by
  rw [BitVec.toInt_ofInt]
  exact Int.bmod_eq_of_le (by omega) (by omega)

theorem constrained_mem (s : ℤ) :
    -15 ≤ constrainU s (-1 * sMaxSpeed) sMaxSpeed ∧
      constrainU s (-1 * sMaxSpeed) sMaxSpeed ≤ 15 :=
  constrainU_mem (by decide)

/-- **The speed for a reading**: the narrowed value, without the middle, and up to the limits. -/
theorem filterSpeed_toInt (value : BitVec 16) : (filterSpeed value).toInt =
    if -5 ≤ narrowed value ∧ narrowed value ≤ 5 then 0
    else constrainU (narrowed value) (-15) 15 := by
  have hmap : mapU value.toInt 20 1003 (-1 * sMaxSpeed) sMaxSpeed = speedSteps value - 15 := rfl
  have hnarrow : (BitVec.ofInt 8 (speedSteps value - 15)).toInt = narrowed value :=
    BitVec.toInt_ofInt _
  obtain ⟨hlo, hhi⟩ := constrained_mem (narrowed value)
  have hspeed := toInt_ofInt_of_mem hlo hhi
  have hmiddle : absU (constrainU (narrowed value) (-1 * sMaxSpeed) sMaxSpeed) ≤ 5 ↔
      -5 ≤ narrowed value ∧ narrowed value ≤ 5 := by
    rw [absU_le_iff (by decide)]
    have hcases := constrainU_cases (narrowed value) (-1 * sMaxSpeed) sMaxSpeed
    unfold sMaxSpeed at hcases ⊢
    omega
  rw [filterSpeed, hmap]
  simp only [hnarrow, hspeed, hmiddle]
  split_ifs
  · rfl
  · exact hspeed

theorem speedSteps_of_le {value : BitVec 16} (h : 20 ≤ value.toInt) :
    speedSteps value = (value.toInt - 20) * 30 / 983 :=
  Int.tdiv_eq_ediv_of_nonneg (by omega)

theorem speedSteps_of_lt {value : BitVec 16} (h : value.toInt < 20) :
    speedSteps value = -((20 - value.toInt) * 30 / 983) := by
  have hneg : (value.toInt - 20) * 30 = -((20 - value.toInt) * 30) := by omega
  rw [speedSteps, hneg, Int.neg_tdiv, Int.tdiv_eq_ediv_of_nonneg (by omega)]

/-- A reading whose mapped value, in eight bits, is still beyond the limit it is beyond. -/
def Fits (value : BitVec 16) : Prop :=
  (value.toInt < 20 → (20 - value.toInt) * 30 / 983 % 256 ≤ 113) ∧
    (1003 < value.toInt → 30 ≤ (value.toInt - 20) * 30 / 983 % 256 ∧
      (value.toInt - 20) * 30 / 983 % 256 ≤ 142)

/-- The speed follows the readings in `S`: it grows with them, and stays at the limits outside of
the range `[20, 1003]`. -/
structure SaturatesOn (S : Set (BitVec 16)) : Prop where
  within : ∀ v ∈ S, -sMaxSpeed ≤ (filterSpeed v).toInt ∧ (filterSpeed v).toInt ≤ sMaxSpeed
  below : ∀ v ∈ S, v.toInt < 20 → (filterSpeed v).toInt = -sMaxSpeed
  above : ∀ v ∈ S, 1003 < v.toInt → (filterSpeed v).toInt = sMaxSpeed
  mono : ∀ v ∈ S, ∀ w ∈ S, v.toInt ≤ w.toInt → (filterSpeed v).toInt ≤ (filterSpeed w).toInt

theorem filterSpeed_mem (value : BitVec 16) :
    -15 ≤ (filterSpeed value).toInt ∧ (filterSpeed value).toInt ≤ 15 := by
  have hcases := constrainU_cases (narrowed value) (-15) 15
  rw [filterSpeed_toInt]
  split_ifs <;> omega

/-- The speed is at a limit exactly if the narrowed value is there or beyond. -/
theorem filterSpeed_eq_min_iff (value : BitVec 16) :
    (filterSpeed value).toInt = -15 ↔ narrowed value ≤ -15 := by
  have hcases := constrainU_cases (narrowed value) (-15) 15
  rw [filterSpeed_toInt]
  split_ifs with hmiddle
  · exact iff_of_false (by decide) (by omega)
  · omega

theorem filterSpeed_eq_max_iff (value : BitVec 16) :
    (filterSpeed value).toInt = 15 ↔ 15 ≤ narrowed value := by
  have hcases := constrainU_cases (narrowed value) (-15) 15
  rw [filterSpeed_toInt]
  split_ifs with hmiddle
  · exact iff_of_false (by decide) (by omega)
  · omega

theorem narrowed_le_iff {value : BitVec 16} (h : value.toInt < 20) :
    narrowed value ≤ -15 ↔ (20 - value.toInt) * 30 / 983 % 256 ≤ 113 := by
  have hcases := narrowed_cases value
  rw [speedSteps_of_lt h] at hcases
  generalize (20 - value.toInt) * 30 / 983 = q at hcases ⊢
  rcases hcases with ⟨hr, hn⟩ | ⟨hr, hn⟩
  · rw [hn]
    clear hn
    omega
  · rw [hn]
    clear hn
    omega

theorem le_narrowed_iff {value : BitVec 16} (h : 1003 < value.toInt) :
    15 ≤ narrowed value ↔ 30 ≤ (value.toInt - 20) * 30 / 983 % 256 ∧
      (value.toInt - 20) * 30 / 983 % 256 ≤ 142 := by
  have hcases := narrowed_cases value
  rw [speedSteps_of_le (by omega)] at hcases
  generalize (value.toInt - 20) * 30 / 983 = q at hcases ⊢
  rcases hcases with ⟨hr, hn⟩ | ⟨hr, hn⟩
  · rw [hn]
    clear hn
    omega
  · rw [hn]
    clear hn
    omega

/-- Inside of the range nothing is lost. -/
theorem narrowed_of_mem {value : BitVec 16} (h : 20 ≤ value.toInt) (h' : value.toInt ≤ 1003) :
    narrowed value = (value.toInt - 20) * 30 / 983 - 15 := by
  have hcases := narrowed_cases value
  rw [speedSteps_of_le h] at hcases
  omega

/-- Up to the threshold the filter keeps the order. -/
theorem filterSpeed_le {v w : BitVec 16} (h : narrowed v ≤ narrowed w) :
    (filterSpeed v).toInt ≤ (filterSpeed w).toInt := by
  have hv := constrainU_cases (narrowed v) (-15) 15
  have hw := constrainU_cases (narrowed w) (-15) 15
  rw [filterSpeed_toInt, filterSpeed_toInt]
  split_ifs <;> omega

/-- **The speed of the arm, exactly.**  For the readings of any set the speed follows the reading
exactly if none of them wraps when it is narrowed. -/
theorem saturates_iff (S : Set (BitVec 16)) : SaturatesOn S ↔ ∀ v ∈ S, Fits v := by
  constructor
  · intro h v hv
    refine ⟨fun hlt => ?_, fun hgt => ?_⟩
    · exact (narrowed_le_iff hlt).1 ((filterSpeed_eq_min_iff v).1 (h.below v hv hlt))
    · exact (le_narrowed_iff hgt).1 ((filterSpeed_eq_max_iff v).1 (h.above v hv hgt))
  · intro h
    have hbelow : ∀ v ∈ S, v.toInt < 20 → (filterSpeed v).toInt = -15 := fun v hv hlt =>
      (filterSpeed_eq_min_iff v).2 ((narrowed_le_iff hlt).2 ((h v hv).1 hlt))
    have habove : ∀ v ∈ S, 1003 < v.toInt → (filterSpeed v).toInt = 15 := fun v hv hgt =>
      (filterSpeed_eq_max_iff v).2 ((le_narrowed_iff hgt).2 ((h v hv).2 hgt))
    refine ⟨fun v _ => filterSpeed_mem v, hbelow, habove, ?_⟩
    intro v hv w hw hvw
    have hlo := (filterSpeed_mem w).1
    have hhi := (filterSpeed_mem v).2
    by_cases hv20 : v.toInt < 20
    · rw [hbelow v hv hv20]
      exact hlo
    by_cases hw1003 : 1003 < w.toInt
    · rw [habove w hw hw1003]
      exact hhi
    -- both are inside of the range
    apply filterSpeed_le
    rw [narrowed_of_mem (by omega) (by omega), narrowed_of_mem (by omega) (by omega)]
    omega

/-- A reading of 5000 sends the arm the other way at full speed. -/
theorem speed_reverses :
    (filterSpeed 1003).toInt = 15 ∧ (filterSpeed 5000).toInt = -15 ∧
      ¬ SaturatesOn Set.univ := by
  have hspeed : (filterSpeed 5000).toInt = -15 := by decide
  refine ⟨by decide, hspeed, fun h => ?_⟩
  have habove := h.above 5000 (Set.mem_univ _) (by decide)
  rw [hspeed] at habove
  cases habove

/-! ### Divisors -/

/-- The readings for which the arm is to stand still: in units of a degree for each second, and in
eight bits, the reading is at most 5 away from the middle. -/
def InDeadZone (value : BitVec 16) : Prop :=
  10 ≤ speedSteps value % 256 ∧ speedSteps value % 256 ≤ 20

theorem filterSpeed_eq_zero_iff (value : BitVec 16) :
    (filterSpeed value).toInt = 0 ↔ InDeadZone value := by
  have hcases := narrowed_cases value
  have hclamp := constrainU_cases (narrowed value) (-15) 15
  have hmiddle : -5 ≤ narrowed value ∧ narrowed value ≤ 5 ↔ InDeadZone value := by
    unfold InDeadZone
    generalize speedSteps value = q at hcases ⊢
    clear hclamp
    rcases hcases with ⟨hr, hn⟩ | ⟨hr, hn⟩
    · rw [hn]
      clear hn
      omega
    · rw [hn]
      clear hn
      omega
  rw [filterSpeed_toInt, ← hmiddle]
  split_ifs with h
  · exact iff_of_true rfl h
  · omega

theorem setJointSpeed_speed (joint : Joint) (value : BitVec 16) :
    (setJointSpeed joint (filterSpeed value)).speed.toInt = (filterSpeed value).toInt := by
  obtain ⟨hlo, hhi⟩ := filterSpeed_mem value
  have hclamp : constrainU (filterSpeed value).toInt (-1 * sMaxSpeed) sMaxSpeed =
      (filterSpeed value).toInt := constrainU_of_mem hlo hhi
  rw [setJointSpeed, hclamp]
  exact toInt_ofInt_of_mem hlo hhi

theorem Joint.tick_cases {joint joint' : Joint} {now delta : BitVec 32}
    (h : joint.tick now delta = some joint') :
    absU joint.speed.toInt ≠ 0 ∧
      (joint.thresh.toNat < delta.toNat ∧ joint' = joint.update now ∨
        delta.toNat ≤ joint.thresh.toNat ∧ joint' = joint) := by
  unfold Joint.tick at h
  split_ifs at h with hzero hlt
  · exact ⟨hzero, Or.inl ⟨hlt, (Option.some.inj h).symm⟩⟩
  · exact ⟨hzero, Or.inr ⟨not_lt.1 hlt, (Option.some.inj h).symm⟩⟩

theorem Joint.tick_isSome_iff (joint : Joint) (now delta : BitVec 32) :
    (joint.tick now delta).isSome ↔ absU joint.speed.toInt ≠ 0 := by
  unfold Joint.tick
  split_ifs with hzero
  · exact iff_of_false (by simp) (not_not_intro hzero)
  · exact iff_of_true rfl hzero
  · exact iff_of_true rfl hzero

/-- A tick changes no speed. -/
theorem Joint.tick_speed {joint joint' : Joint} {now delta : BitVec 32}
    (h : joint.tick now delta = some joint') : joint'.speed = joint.speed := by
  rcases (Joint.tick_cases h).2 with ⟨-, rfl⟩ | ⟨-, rfl⟩ <;> rfl

namespace Arm

variable {s s' : Arm} {e : ArmCall} {es : List ArmCall} {now : Tick} {value : BitVec 16}

/-- Both divisions of `Arm::tick` have a divisor that is not zero. -/
def Divides (s : Arm) : Prop := absU s.x.speed.toInt ≠ 0 ∧ absU s.y.speed.toInt ≠ 0

theorem tick_parts (h : s.tick now = some s') :
    s.x.tick (now.setWidth 32) (now.setWidth 32 - s.x.lastRun) = some s'.x ∧
      s.y.tick (now.setWidth 32) (now.setWidth 32 - s.y.lastRun) = some s'.y := by
  obtain ⟨x, hx, h⟩ := Option.bind_eq_some_iff.1 h
  obtain ⟨y, hy, h⟩ := Option.bind_eq_some_iff.1 h
  rw [← Option.some.inj h]
  exact ⟨hx, hy⟩

/-- A tick is defined exactly if its divisions are. -/
theorem tick_isSome_iff (s : Arm) (now : Tick) : (s.tick now).isSome ↔ s.Divides := by
  rw [Divides, ← Joint.tick_isSome_iff s.x (now.setWidth 32) (now.setWidth 32 - s.x.lastRun),
    ← Joint.tick_isSome_iff s.y (now.setWidth 32) (now.setWidth 32 - s.y.lastRun)]
  constructor
  · intro h
    obtain ⟨s', hs'⟩ := Option.isSome_iff_exists.1 h
    obtain ⟨hx, hy⟩ := tick_parts hs'
    exact ⟨by rw [hx]; rfl, by rw [hy]; rfl⟩
  · rintro ⟨hx, hy⟩
    obtain ⟨x, hx⟩ := Option.isSome_iff_exists.1 hx
    obtain ⟨y, hy⟩ := Option.isSome_iff_exists.1 hy
    have htick : s.tick now = some ⟨x, y⟩ := by
      unfold tick
      simp only [hx, hy]
      rfl
    rw [htick]
    rfl

/-- The call sets the speed of an axis to a value outside of the dead zone. -/
def Moves (set : BitVec 16 → ArmCall) (_ : Arm) (e : ArmCall) (_ : Arm) : Prop :=
  ∃ value, e = set value ∧ ¬ InDeadZone value

/-- The call sets the speed of an axis to zero. -/
def Rests (set : BitVec 16 → ArmCall) (_ : Arm) (e : ArmCall) (_ : Arm) : Prop :=
  ∃ value, e = set value ∧ InDeadZone value

theorem setSpeed_iff (joint : Joint) (value : BitVec 16) :
    absU (setJointSpeed joint (filterSpeed value)).speed.toInt ≠ 0 ↔ ¬ InDeadZone value := by
  rw [ne_eq, absU_eq_zero_iff, setJointSpeed_speed, filterSpeed_eq_zero_iff]

/-- The joint that a call is for moves after it if the value is outside of the dead zone. -/
theorem moves_or_iff {set : BitVec 16 → ArmCall} (hset : Function.Injective set) (P : Prop)
    (value : BitVec 16) : Moves set s (set value) s' ∨ P ∧ ¬ Rests set s (set value) s' ↔
      ¬ InDeadZone value := by
  constructor
  · rintro (⟨v, he, hv⟩ | ⟨-, hrest⟩)
    · rwa [hset he]
    · exact fun hdead => hrest ⟨value, rfl, hdead⟩
  · intro hv
    exact Or.inl ⟨value, rfl, hv⟩

/-- What makes the speed of the joint `X` zero or not. -/
theorem Step.x_iff (h : s.Step e s') : absU s'.x.speed.toInt ≠ 0 ↔
    Moves .setSpeedY s e s' ∨ absU s.x.speed.toInt ≠ 0 ∧ ¬ Rests .setSpeedY s e s' := by
  cases e with
  | setSpeedX value =>
    rw [← Option.some.inj h]
    simp [Moves, Rests, setSpeedX]
  | setSpeedY value =>
    rw [← Option.some.inj h]
    exact (setSpeed_iff s.x value).trans (moves_or_iff (fun _ _ => ArmCall.setSpeedY.inj) _ _).symm
  | tick now =>
    rw [Joint.tick_speed (tick_parts h).1]
    simp [Moves, Rests]

theorem Step.y_iff (h : s.Step e s') : absU s'.y.speed.toInt ≠ 0 ↔
    Moves .setSpeedX s e s' ∨ absU s.y.speed.toInt ≠ 0 ∧ ¬ Rests .setSpeedX s e s' := by
  cases e with
  | setSpeedX value =>
    rw [← Option.some.inj h]
    exact (setSpeed_iff s.y value).trans (moves_or_iff (fun _ _ => ArmCall.setSpeedX.inj) _ _).symm
  | setSpeedY value =>
    rw [← Option.some.inj h]
    simp [Moves, Rests, setSpeedY]
  | tick now =>
    rw [Joint.tick_speed (tick_parts h).2]
    simp [Moves, Rests]

/-- **The divisions of a tick, exactly.**  In every run of the arm both divisors are not zero if and
only if each axis has been set outside of the dead zone, and not inside of it since. -/
theorem divides_iff (hrun : Run Step init es s) : s.Divides ↔
    Run.Unbroken Step (Moves .setSpeedX) (Rests .setSpeedX) init es s ∧
      Run.Unbroken Step (Moves .setSpeedY) (Rests .setSpeedY) init es s := by
  have hx := Run.unbroken_iff (I := fun _ => True) (P := fun s : Arm => absU s.x.speed.toInt ≠ 0)
    hrun (fun _ _ _ h _ => h) (fun _ _ _ _ h => h.x_iff) trivial (by decide)
  have hy := Run.unbroken_iff (I := fun _ => True) (P := fun s : Arm => absU s.y.speed.toInt ≠ 0)
    hrun (fun _ _ _ h _ => h) (fun _ _ _ _ h => h.y_iff) trivial (by decide)
  rw [Divides, hx, hy]
  exact And.comm

/-- With the joystick at its ends both joints move. -/
theorem divides_when_pushed :
    ∃ s ∈ Run.exec call init [.setSpeedX 1003, .setSpeedY 0], s.Divides ∧
      Run.Unbroken Step (Moves .setSpeedX) (Rests .setSpeedX) init
          [.setSpeedX 1003, .setSpeedY 0] s ∧
        Run.Unbroken Step (Moves .setSpeedY) (Rests .setSpeedY) init
          [.setSpeedX 1003, .setSpeedY 0] s := by
  obtain ⟨s, hs, hx, hy⟩ : ∃ s ∈ Run.exec call init [.setSpeedX 1003, .setSpeedY 0],
      absU s.x.speed.toInt ≠ 0 ∧ absU s.y.speed.toInt ≠ 0 := ⟨_, rfl, by decide, by decide⟩
  exact ⟨s, hs, ⟨hx, hy⟩, (divides_iff (Run.of_exec hs)).1 ⟨hx, hy⟩⟩

/-- Before the first update, and with the joystick left alone, a tick divides by zero. -/
theorem resting_arm_divides_by_zero :
    (¬ init.Divides ∧ init.tick 9 = none) ∧
      ∃ s ∈ Run.exec call init [.setSpeedX 512, .setSpeedY 512],
        Run Step init [.setSpeedX 512, .setSpeedY 512] s ∧ ¬ s.Divides ∧ s.tick 9 = none := by
  refine ⟨⟨by unfold Divides; decide, by decide⟩, ?_⟩
  obtain ⟨s, hs, hdiv, htick⟩ : ∃ s ∈ Run.exec call init [.setSpeedX 512, .setSpeedY 512],
      ¬ (absU s.x.speed.toInt ≠ 0 ∧ absU s.y.speed.toInt ≠ 0) ∧ s.tick 9 = none :=
    ⟨_, rfl, by decide, by decide⟩
  exact ⟨s, hs, Run.of_exec hs, hdiv, htick⟩

end Arm

end RoombaRtos
