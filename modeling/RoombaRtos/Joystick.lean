import RoombaRtos.Move
import RoombaRtos.Setters

/-!
# Joysticks

The readings of `Joystick/Joystick.cpp`, down to the registers that `analog_read` of
`utils/utils.c` returns, and what `updatePacket` of the base station makes of two of them.

* `toNat_reduceRange` — the values of an axis;
* `Packet.Ranged` — the fields are ones that joysticks can have;
* `ranged_update` — `updatePacket` leaves such fields in the packet, those of the readings.
-/

namespace RoombaRtos

/-- What `analog_read` returns when `ADCL` and `ADCH` hold a result that is adjusted to the left. -/
def analogRead (lowADC highADC : Byte) : BitVec 16 :=
  (lowADC >>> 6).setWidth 16 ||| highADC.setWidth 16 <<< 2

namespace Joystick

/-- `Joystick::MAX_ADC`. -/
def maxAdc : ℤ := 1023

/-- `Joystick::DEADBAND`. -/
def deadband : ℤ := 20

def reduceRange (value : BitVec 16) : BitVec 16 :=
  let result := mapU value.toNat (0 + deadband) (maxAdc - deadband) 0 maxAdc
  BitVec.ofInt 16 (constrainU result 0 maxAdc)

/-- The readings up to the deadband are zero, and the axis is at its end as far from the other
end. -/
theorem toNat_reduceRange (value : BitVec 16) :
    (reduceRange value).toNat = min 1023 ((value.toNat - 20) * 1023 / 983) := by
  have hmap : mapU value.toNat (0 + deadband) (maxAdc - deadband) 0 maxAdc =
      ((value.toNat - 20) * 1023 : ℤ).tdiv 983 := by
    simp [mapU, deadband, maxAdc]
  have hcon : constrainU (mapU value.toNat (0 + deadband) (maxAdc - deadband) 0 maxAdc) 0 maxAdc =
      (min 1023 ((value.toNat - 20) * 1023 / 983) : ℕ) := by
    rw [hmap]
    by_cases hle : value.toNat ≤ 20
    · have hneg : ((value.toNat - 20) * 1023 : ℤ).tdiv 983 =
          -((20 - value.toNat) * 1023 / 983) := by
        rw [← Int.tdiv_eq_ediv_of_nonneg (by omega), ← Int.neg_tdiv]
        congr 1
        omega
      rw [hneg, Nat.sub_eq_zero_of_le hle]
      unfold constrainU maxAdc
      split_ifs <;> omega
    · have hpos : ((value.toNat - 20) * 1023 : ℤ).tdiv 983 =
          ((value.toNat - 20) * 1023 / 983 : ℕ) := by
        rw [Int.tdiv_eq_ediv_of_nonneg (by omega)]
        omega
      rw [hpos]
      unfold constrainU maxAdc
      split_ifs <;> omega
  show (BitVec.ofInt 16 _).toNat = _
  rw [hcon, BitVec.toNat_ofInt]
  omega

theorem reduceRange_le (value : BitVec 16) : (reduceRange value).toNat ≤ 1023 := by
  rw [toNat_reduceRange]
  exact min_le_left _ _

/-- What is read when the axes of a joystick are converted, and the port of its switch. -/
structure Reading where
  lowX : Byte
  highX : Byte
  lowY : Byte
  highY : Byte
  pinA : Byte
deriving DecidableEq, Repr

def getX (r : Reading) : BitVec 16 := reduceRange (analogRead r.lowX r.highX)

def getY (r : Reading) : BitVec 16 := reduceRange (analogRead r.lowY r.highY)

/-- A pressed switch pulls its pin down. -/
def getClick (pinSW : ℕ) (r : Reading) : Bool := !r.pinA.getLsbD pinSW

end Joystick

/-! ### The packets of the base station -/

namespace Packet

/-- The fields are ones that the joysticks can have. -/
def Ranged (p : Packet) : Prop :=
  ∃ fields : (k : Field) → k.Value, p = encode fields ∧
    (fields .joy1X).toNat ≤ 1023 ∧ (fields .joy1Y).toNat ≤ 1023 ∧
    (fields .joy2X).toNat ≤ 1023 ∧ (fields .joy2Y).toNat ≤ 1023 ∧
    (fields .joy1SW = 0x00 ∨ fields .joy1SW = 0xFF) ∧
    (fields .joy2SW = 0x00 ∨ fields .joy2SW = 0xFF)

theorem ranged_ofFields {x1 y1 x2 y2 : BitVec 16} {sw1 sw2 : Byte} (hx1 : x1.toNat ≤ 1023)
    (hy1 : y1.toNat ≤ 1023) (hx2 : x2.toNat ≤ 1023) (hy2 : y2.toNat ≤ 1023)
    (hsw1 : sw1 = 0x00 ∨ sw1 = 0xFF) (hsw2 : sw2 = 0x00 ∨ sw2 = 0xFF) :
    (ofFields x1 y1 sw1 x2 y2 sw2).Ranged :=
  ⟨fun k => Field.casesOn (motive := Field.Value) k x1 y1 sw1 x2 y2 sw2, rfl, hx1, hy1, hx2, hy2,
    hsw1, hsw2⟩

/-- `updatePacket`, with what it reads from the two joysticks. -/
def update (joystick1 joystick2 : Joystick.Reading) (p : Packet) : Packet :=
  updatePacket (Joystick.getX joystick1) (Joystick.getY joystick1) (Joystick.getClick 1 joystick1)
    (Joystick.getX joystick2) (Joystick.getY joystick2) (Joystick.getClick 0 joystick2) p

/-- The fields that `updatePacket` sets. -/
def readings (joystick1 joystick2 : Joystick.Reading) : (k : Field) → k.Value
  | .joy1X => Joystick.getX joystick1
  | .joy1Y => Joystick.getY joystick1
  | .joy1SW => if Joystick.getClick 1 joystick1 then 0xFF else 0x00
  | .joy2X => Joystick.getX joystick2
  | .joy2Y => Joystick.getY joystick2
  | .joy2SW => if Joystick.getClick 0 joystick2 then 0xFF else 0x00

theorem update_encode (fields : (k : Field) → k.Value) (joystick1 joystick2 : Joystick.Reading) :
    update joystick1 joystick2 (encode fields) = encode (readings joystick1 joystick2) := by
  have hcalls : update joystick1 joystick2 (encode fields) = (encode fields).calls
      [⟨.joy1X, readings joystick1 joystick2 .joy1X⟩, ⟨.joy1Y, readings joystick1 joystick2 .joy1Y⟩,
        ⟨.joy1SW, readings joystick1 joystick2 .joy1SW⟩,
        ⟨.joy2X, readings joystick1 joystick2 .joy2X⟩,
        ⟨.joy2Y, readings joystick1 joystick2 .joy2Y⟩,
        ⟨.joy2SW, readings joystick1 joystick2 .joy2SW⟩] := rfl
  rw [hcalls, calls_encode]
  congr 1
  funext k
  cases k <;> rfl

theorem ranged_update {p : Packet} (h : p.Ranged) (joystick1 joystick2 : Joystick.Reading) :
    (update joystick1 joystick2 p).Ranged := by
  obtain ⟨fields, rfl, -⟩ := h
  have hswitch : ∀ b : Bool, ((if b then 0xFF else 0x00 : Byte) = 0x00) ∨
      (if b then 0xFF else 0x00 : Byte) = 0xFF := by decide
  exact ⟨readings joystick1 joystick2, update_encode fields joystick1 joystick2,
    Joystick.reduceRange_le _, Joystick.reduceRange_le _, Joystick.reduceRange_le _,
    Joystick.reduceRange_le _, hswitch _, hswitch _⟩

end Packet

end RoombaRtos
