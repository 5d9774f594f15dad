import Mathlib.Data.Vector.Basic
import Mathlib.Tactic.IntervalCases
import RoombaRtos.Common

/-!
# Packets

The joystick packets of `Packet/Packet.h` and `Packet/Packet.cpp`: fourteen bytes, of which the
first two are the magic number and the last two a checksum of the others.

* `fletcher` — the two sums of the checksum, with the blocks of `updateChecksum`;
* `Packet.ofFields`, `Packet.ofBuffer` — the two constructors;
* `Packet.Valid` — the bytes start with the magic number and carry their checksum;
* `ofBuffer_of_valid`, `ofBuffer_of_not_valid` — the buffer is kept if it is valid, and otherwise
  the packet is all zero;
* `decoder_accepts_image` — the buffers that are kept are those made from fields, and the all-zero
  one.

The sizes are those of the board, where `PACKET_MAGIC` is an `int` of two bytes.
-/

namespace RoombaRtos

/-- `PACKET_MAGIC`. -/
def packetMagic : BitVec 16 := 0xFEED

/-- `PACKET_SIZE`: the magic number, four axes, two switches and the checksum. -/
abbrev packetSize : ℕ := 2 + 4 * 2 + 2 * 1 + 2

/-- `HIGH_BYTE`. -/
def highByte (x : BitVec 16) : Byte := (x >>> 8).setWidth 8

/-- `LOW_BYTE`. -/
def lowByte (x : BitVec 16) : Byte := x.setWidth 8

/-- `TO16BIT`. -/
def to16bit (h l : Byte) : BitVec 16 := h.setWidth 16 <<< 8 ||| l.setWidth 16

theorem toNat_to16bit (h l : Byte) : (to16bit h l).toNat = h.toNat * 256 + l.toNat := by
  have hh := h.isLt
  have hl := l.isLt
  have hmod : (h.toNat % 2 ^ 16) <<< 8 % 2 ^ 16 = h.toNat <<< 8 := by
    rw [Nat.mod_eq_of_lt (by omega : h.toNat < 2 ^ 16), Nat.shiftLeft_eq]
    omega
  rw [to16bit, BitVec.toNat_or, BitVec.toNat_shiftLeft, BitVec.toNat_setWidth,
    BitVec.toNat_setWidth, hmod, Nat.mod_eq_of_lt (by omega : l.toNat < 2 ^ 16),
    ← Nat.shiftLeft_add_eq_or_of_lt hl, Nat.shiftLeft_eq]

@[simp] theorem to16bit_bytes (x : BitVec 16) : to16bit (highByte x) (lowByte x) = x := by
  apply BitVec.eq_of_toNat_eq
  have hx := x.isLt
  rw [toNat_to16bit, highByte, lowByte, BitVec.toNat_setWidth, BitVec.toNat_setWidth,
    BitVec.toNat_ushiftRight, Nat.shiftRight_eq_div_pow]
  omega

/-- Two bytes can be told from their word. -/
theorem to16bit_inj {h l h' l' : Byte} : to16bit h l = to16bit h' l' ↔ h = h' ∧ l = l' := by
  constructor
  · intro he
    have hnat := congrArg BitVec.toNat he
    rw [toNat_to16bit, toNat_to16bit] at hnat
    have hl := l.isLt
    have hl' := l'.isLt
    exact ⟨BitVec.eq_of_toNat_eq (by omega), BitVec.eq_of_toNat_eq (by omega)⟩
  · rintro ⟨rfl, rfl⟩
    rfl

@[simp] theorem highByte_to16bit (h l : Byte) : highByte (to16bit h l) = h :=
  (to16bit_inj.1 (to16bit_bytes (to16bit h l))).1

@[simp] theorem lowByte_to16bit (h l : Byte) : lowByte (to16bit h l) = l :=
  (to16bit_inj.1 (to16bit_bytes (to16bit h l))).2

theorem to16bit_eq_magic {h l : Byte} :
    to16bit h l = packetMagic ↔ h = highByte packetMagic ∧ l = lowByte packetMagic := by
  rw [← to16bit_inj]
  rfl

/-! ### Checksums -/

/-- One pass of a summation loop: the sum of the bytes, and the sum of the sums. -/
def sumBytes (c : BitVec 32 × BitVec 32) (bytes : List Byte) : BitVec 32 × BitVec 32 :=
  bytes.foldl (fun c b => (c.1 + b.setWidth 32, c.2 + (c.1 + b.setWidth 32))) c

def mod255 (c : BitVec 32 × BitVec 32) : BitVec 32 × BitVec 32 := (c.1 % 255, c.2 % 255)

/-- The number of bytes that can be summed before the sums are reduced. -/
def checksumBlock : ℕ := 5802

/-- The blocks of the outer loop, and the bytes behind them. -/
def sumBlocks : ℕ → BitVec 32 × BitVec 32 → List Byte → (BitVec 32 × BitVec 32) × List Byte
  | 0, c, bytes => (c, bytes)
  | n + 1, c, bytes =>
      sumBlocks n (mod255 (sumBytes c (bytes.take checksumBlock))) (bytes.drop checksumBlock)

/-- Fletcher's checksum. -/
def fletcher (bytes : List Byte) : BitVec 32 × BitVec 32 :=
  let (c, rest) := sumBlocks (bytes.length / checksumBlock) (0, 0) bytes
  mod255 (sumBytes c rest)

/-! ### Packets -/

structure Packet where
  data : Vector Byte packetSize
deriving DecidableEq, Repr

namespace Packet

def magic (p : Packet) : BitVec 16 := to16bit p.data[0] p.data[1]

def joy1X (p : Packet) : BitVec 16 := to16bit p.data[2] p.data[3]

def joy1Y (p : Packet) : BitVec 16 := to16bit p.data[4] p.data[5]

def joy2X (p : Packet) : BitVec 16 := to16bit p.data[6] p.data[7]

def joy2Y (p : Packet) : BitVec 16 := to16bit p.data[8] p.data[9]

def joy1SW (p : Packet) : Byte := p.data[10]

def joy2SW (p : Packet) : Byte := p.data[11]

def checksum (p : Packet) : BitVec 16 := to16bit p.data[12] p.data[13]

def updateChecksum (p : Packet) : Packet :=
  let c := fletcher (p.data.toList.take (packetSize - 2))
  { data := (p.data.set 12 (c.2.setWidth 8)).set 13 (c.1.setWidth 8) }

/-- `PACKET_VALUE_ASSIGN`. -/
def valueAssign (p : Packet) (i : ℕ) (hi : i + 1 < packetSize) (value : BitVec 16) : Packet :=
  { data := (p.data.set i (highByte value) (Nat.lt_of_succ_lt hi)).set (i + 1) (lowByte value) hi }

def setJoy1X (p : Packet) (value : BitVec 16) : Packet :=
  (p.valueAssign 2 (by decide) value).updateChecksum

def setJoy1Y (p : Packet) (value : BitVec 16) : Packet :=
  (p.valueAssign 4 (by decide) value).updateChecksum

def setJoy2X (p : Packet) (value : BitVec 16) : Packet :=
  (p.valueAssign 6 (by decide) value).updateChecksum

def setJoy2Y (p : Packet) (value : BitVec 16) : Packet :=
  (p.valueAssign 8 (by decide) value).updateChecksum

def setJoy1SW (p : Packet) (value : Byte) : Packet :=
  updateChecksum { data := p.data.set 10 value }

def setJoy2SW (p : Packet) (value : Byte) : Packet :=
  updateChecksum { data := p.data.set 11 value }

/-- `ZeroMemory` on the data. -/
def zero : Packet := ⟨Vector.replicate packetSize 0⟩

/-- The constructor from a buffer. -/
def ofBuffer (buffer : Vector Byte packetSize) : Packet :=
  if to16bit buffer[0] buffer[1] = packetMagic then
    let p : Packet := ⟨buffer⟩
    let rx := p.checksum
    let p := p.updateChecksum
    -- the calculated checksum must match what was received
    if p.checksum ≠ rx then zero else p
  else zero

/-- The constructor from the values of the fields. -/
def ofFields (joy1X joy1Y : BitVec 16) (joy1SW : Byte) (joy2X joy2Y : BitVec 16)
    (joy2SW : Byte) : Packet :=
  updateChecksum ⟨#v[highByte packetMagic, lowByte packetMagic, highByte joy1X, lowByte joy1X,
    highByte joy1Y, lowByte joy1Y, highByte joy2X, lowByte joy2X, highByte joy2Y, lowByte joy2Y,
    joy1SW, joy2SW, 0, 0]⟩

/-- The bytes start with the magic number and carry their checksum. -/
def Valid (bytes : Vector Byte packetSize) : Prop :=
  bytes[0] = 0xFE ∧ bytes[1] = 0xED ∧
    bytes[12] = (fletcher (bytes.toList.take 12)).2.setWidth 8 ∧
    bytes[13] = (fletcher (bytes.toList.take 12)).1.setWidth 8

instance (bytes : Vector Byte packetSize) : Decidable (Valid bytes) := by
  unfold Valid
  infer_instance

variable {bytes : Vector Byte packetSize}

theorem updateChecksum_data (p : Packet) :
    p.updateChecksum.data[12] = (fletcher (p.data.toList.take 12)).2.setWidth 8 ∧
      p.updateChecksum.data[13] = (fletcher (p.data.toList.take 12)).1.setWidth 8 := by
  constructor
  · show ((p.data.set 12 _).set 13 _)[12] = _
    rw [Vector.getElem_set_ne _ _ (by decide), Vector.getElem_set_self]
    rfl
  · show ((p.data.set 12 _).set 13 _)[13] = _
    rw [Vector.getElem_set_self]
    rfl

/-- A checksum that is right stays as it is. -/
theorem updateChecksum_of_valid (h : Valid bytes) : updateChecksum ⟨bytes⟩ = ⟨bytes⟩ := by
  obtain ⟨-, -, h1, h0⟩ := h
  have hset : ∀ (i : ℕ) (hi : i < packetSize) (b : Byte), bytes[i] = b → bytes.set i b = bytes := by
    rintro i hi b rfl
    exact Vector.set_getElem_self hi
  have hdata : (bytes.set 12 ((fletcher (bytes.toList.take 12)).2.setWidth 8)).set 13
      ((fletcher (bytes.toList.take 12)).1.setWidth 8) = bytes := by
    rw [hset 12 (by decide) _ h1, hset 13 (by decide) _ h0]
  exact congrArg Packet.mk hdata

/-- **A valid buffer is kept.** -/
theorem ofBuffer_of_valid (h : Valid bytes) : ofBuffer bytes = ⟨bytes⟩ := by
  have hmagic : to16bit bytes[0] bytes[1] = packetMagic := by
    rw [to16bit_eq_magic, h.1, h.2.1]
    decide
  simp only [ofBuffer, hmagic, if_true, updateChecksum_of_valid h]
  simp

/-- **Any other buffer is not.** -/
theorem ofBuffer_of_not_valid (h : ¬ Valid bytes) : ofBuffer bytes = zero := by
  unfold ofBuffer
  by_cases hmagic : to16bit bytes[0] bytes[1] = packetMagic
  · obtain ⟨hhigh, hlow⟩ := to16bit_eq_magic.1 hmagic
    obtain ⟨h1, h0⟩ := updateChecksum_data ⟨bytes⟩
    have hne : (updateChecksum ⟨bytes⟩).checksum ≠ checksum ⟨bytes⟩ := by
      intro he
      obtain ⟨he1, he0⟩ := to16bit_inj.1 he
      apply h
      exact ⟨hhigh, hlow, he1.symm.trans h1, he0.symm.trans h0⟩
    rw [if_pos hmagic]
    exact if_pos hne
  · rw [if_neg hmagic]

theorem zero_magic : zero.magic ≠ packetMagic := by decide

/-! ### The packets made from fields -/

/-- The bytes in front of the checksum stay as they are. -/
theorem updateChecksum_take (p : Packet) :
    p.updateChecksum.data.toList.take 12 = p.data.toList.take 12 := by
  show ((p.data.set 12 _).set 13 _).toList.take 12 = _
  rw [Vector.toList_set, Vector.toList_set, List.take_set_of_le (by decide),
    List.take_set_of_le (by decide)]

theorem updateChecksum_getElem (p : Packet) {i : ℕ} (hp : i < packetSize) (hi : i < 12) :
    p.updateChecksum.data[i] = p.data[i] := by
  show ((p.data.set 12 _).set 13 _)[i] = _
  rw [Vector.getElem_set_ne _ _ (by omega), Vector.getElem_set_ne _ _ (by omega)]

theorem valid_updateChecksum (p : Packet) (h0 : p.data[0] = 0xFE) (h1 : p.data[1] = 0xED) :
    Valid p.updateChecksum.data := by
  obtain ⟨h12, h13⟩ := updateChecksum_data p
  refine ⟨?_, ?_, ?_, ?_⟩
  · rw [updateChecksum_getElem p (by decide) (by decide), h0]
  · rw [updateChecksum_getElem p (by decide) (by decide), h1]
  · rw [updateChecksum_take, h12]
  · rw [updateChecksum_take, h13]

/-- **The packets made from fields are valid.** -/
theorem valid_ofFields (joy1X joy1Y : BitVec 16) (joy1SW : Byte) (joy2X joy2Y : BitVec 16)
    (joy2SW : Byte) : Valid (ofFields joy1X joy1Y joy1SW joy2X joy2Y joy2SW).data :=
  valid_updateChecksum _ rfl rfl

/-- The packet with the fields of `p`. -/
def remake (p : Packet) : Packet :=
  ofFields p.joy1X p.joy1Y p.joy1SW p.joy2X p.joy2Y p.joy2SW

/-- Every getter returns what the packet was built from. -/
theorem getters_ofFields (x1 y1 : BitVec 16) (sw1 : Byte) (x2 y2 : BitVec 16) (sw2 : Byte) :
    (ofFields x1 y1 sw1 x2 y2 sw2).joy1X = x1 ∧ (ofFields x1 y1 sw1 x2 y2 sw2).joy1Y = y1 ∧
      (ofFields x1 y1 sw1 x2 y2 sw2).joy1SW = sw1 ∧ (ofFields x1 y1 sw1 x2 y2 sw2).joy2X = x2 ∧
      (ofFields x1 y1 sw1 x2 y2 sw2).joy2Y = y2 ∧ (ofFields x1 y1 sw1 x2 y2 sw2).joy2SW = sw2 := by
  refine ⟨?_, ?_, rfl, ?_, ?_, rfl⟩
  · exact to16bit_bytes x1
  · exact to16bit_bytes y1
  · exact to16bit_bytes x2
  · exact to16bit_bytes y2

/-- Valid bytes are determined by those in front of the checksum. -/
theorem Valid.ext {bytes' : Vector Byte packetSize} (h : Valid bytes) (h' : Valid bytes')
    (heq : ∀ i (hi : i < packetSize), i < 12 → bytes[i] = bytes'[i]) : bytes = bytes' := by
  have htake : bytes.toList.take 12 = bytes'.toList.take 12 := by
    apply List.ext_getElem
    · simp
    · intro i hi hi'
      rw [List.length_take] at hi
      rw [List.getElem_take, List.getElem_take, Vector.getElem_toList, Vector.getElem_toList]
      exact heq i _ (by omega)
  obtain ⟨-, -, h12, h13⟩ := h
  obtain ⟨-, -, h12', h13'⟩ := h'
  apply Vector.ext
  intro i hi
  have hlt : i < 14 := hi
  obtain hi12 | rfl | rfl : i < 12 ∨ i = 12 ∨ i = 13 := by omega
  · exact heq i hi hi12
  · rw [h12, h12', htake]
  · rw [h13, h13', htake]

/-- A valid buffer is the packet made from its fields. -/
theorem Valid.data_remake (h : Valid bytes) : (remake ⟨bytes⟩).data = bytes := by
  apply Valid.ext (valid_ofFields _ _ _ _ _ _) h
  intro i hp hi
  refine (updateChecksum_getElem _ hp hi).trans ?_
  obtain ⟨h0, h1, -, -⟩ := h
  interval_cases i
  · exact h0.symm
  · exact h1.symm
  · exact highByte_to16bit _ _
  · exact lowByte_to16bit _ _
  · exact highByte_to16bit _ _
  · exact lowByte_to16bit _ _
  · exact highByte_to16bit _ _
  · exact lowByte_to16bit _ _
  · exact highByte_to16bit _ _
  · exact lowByte_to16bit _ _
  · rfl
  · rfl

theorem valid_iff_remake : Valid bytes ↔ bytes = (remake ⟨bytes⟩).data := by
  constructor
  · intro h
    exact h.data_remake.symm
  · intro h
    rw [h]
    exact valid_ofFields _ _ _ _ _ _

/-- **The decoder accepts the encoder's image.**  Packets made from fields are decoded to
themselves, with the fields they were made from.  The decoder keeps a buffer if it is the packet
made from its own fields, or all zero; otherwise the packet is zeroed. -/
theorem decoder_accepts_image :
    (∀ x1 y1 sw1 x2 y2 sw2, let p := ofBuffer (ofFields x1 y1 sw1 x2 y2 sw2).data
      p.data = (ofFields x1 y1 sw1 x2 y2 sw2).data ∧ p.joy1X = x1 ∧ p.joy1Y = y1 ∧
        p.joy1SW = sw1 ∧ p.joy2X = x2 ∧ p.joy2Y = y2 ∧ p.joy2SW = sw2) ∧
    ∀ buffer : Vector Byte packetSize,
      ((ofBuffer buffer).data = buffer ↔
        buffer = (remake ⟨buffer⟩).data ∨ buffer = Vector.replicate packetSize 0) ∧
      (buffer = (remake ⟨buffer⟩).data ∨
        (ofBuffer buffer).data = Vector.replicate packetSize 0) := by
  refine ⟨?_, fun buffer => ?_⟩
  · intro x1 y1 sw1 x2 y2 sw2 p
    have hp : p = ofFields x1 y1 sw1 x2 y2 sw2 :=
      ofBuffer_of_valid (valid_ofFields x1 y1 sw1 x2 y2 sw2)
    rw [hp]
    exact ⟨rfl, getters_ofFields x1 y1 sw1 x2 y2 sw2⟩
  · rw [← valid_iff_remake]
    by_cases h : Valid buffer
    · rw [ofBuffer_of_valid h]
      simp [h]
    · rw [ofBuffer_of_not_valid h]
      refine ⟨⟨fun hb => Or.inr hb.symm, fun hb => ?_⟩, Or.inr rfl⟩
      rcases hb with hb | hb
      · exact absurd hb h
      · exact hb.symm

/-- The packet that stands for a refused buffer is not made from fields. -/
theorem zero_buffer_kept :
    ¬ ((ofBuffer (Vector.replicate packetSize 0)).data = Vector.replicate packetSize 0 ↔
      Vector.replicate packetSize 0 = (remake ⟨Vector.replicate packetSize 0⟩).data) := by
  decide

end Packet

end RoombaRtos
