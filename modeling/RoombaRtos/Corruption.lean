import Mathlib.Data.ZMod.Basic
import Mathlib.Tactic.Ring
import RoombaRtos.Lib.Fletcher
import RoombaRtos.Reception

/-!
# What the checksum of a packet detects

`updateChecksum` computes Fletcher's sums modulo 255, so it cannot tell `0x00` from `0xFF`.

* `fletcher_residue` — the machine computes the two sums of the residues, for any length: the
  blocks are short enough that nothing overflows;
* `residue_eq_iff` — two bytes have the same residue if they are equal, or `0x00` and `0xFF`;
* `single_byte_corruption` — a packet with one byte replaced is refused, except when the byte is
  one of the fields and `0x00` and `0xFF` are exchanged.
-/

namespace RoombaRtos

/-- A byte as the checksum sees it. -/
def residue (b : Byte) : ZMod 255 := b.toNat

theorem residue_eq_iff {a b : Byte} :
    residue a = residue b ↔ a = b ∨ (a = 0 ∧ b = 0xFF) ∨ (a = 0xFF ∧ b = 0) := by
  have ha := a.isLt
  have hb := b.isLt
  rw [residue, residue, ZMod.natCast_eq_natCast_iff']
  constructor
  · intro h
    have hcases : a.toNat = b.toNat ∨ (a.toNat = 0 ∧ b.toNat = 255) ∨
        (a.toNat = 255 ∧ b.toNat = 0) := by omega
    rcases hcases with h | ⟨h, h'⟩ | ⟨h, h'⟩
    · exact Or.inl (BitVec.eq_of_toNat_eq h)
    · exact Or.inr (Or.inl ⟨BitVec.eq_of_toNat_eq h, BitVec.eq_of_toNat_eq h'⟩)
    · exact Or.inr (Or.inr ⟨BitVec.eq_of_toNat_eq h, BitVec.eq_of_toNat_eq h'⟩)
  · intro h
    rcases h with h | ⟨h, h'⟩ | ⟨h, h'⟩
    · rw [h]
    · rw [h, h']
      rfl
    · rw [h, h']
      rfl

/-- The sums as residues. -/
def residues (c : BitVec 32 × BitVec 32) : ZMod 255 × ZMod 255 := (c.1.toNat, c.2.toNat)

/-- `n` more bytes can be summed in a machine word. -/
def Room (c : BitVec 32 × BitVec 32) (n : ℕ) : Prop :=
  c.1.toNat + 255 * n < 2 ^ 32 ∧ 2 * c.2.toNat + n * (2 * c.1.toNat + 255 * (n + 1)) < 2 ^ 33

theorem Room.step {c : BitVec 32 × BitVec 32} {n : ℕ} (h : Room c (n + 1)) (b : Byte) :
    (c.1 + b.setWidth 32).toNat = c.1.toNat + b.toNat ∧
      (c.2 + (c.1 + b.setWidth 32)).toNat = c.2.toNat + (c.1.toNat + b.toNat) ∧
      Room (c.1 + b.setWidth 32, c.2 + (c.1 + b.setWidth 32)) n := by
  obtain ⟨h1, h2⟩ := h
  have hb := b.isLt
  have hwide : (b.setWidth 32).toNat = b.toNat := by
    rw [BitVec.toNat_setWidth, Nat.mod_eq_of_lt (by omega)]
  have hfst : (c.1 + b.setWidth 32).toNat = c.1.toNat + b.toNat := by
    rw [BitVec.toNat_add, hwide, Nat.mod_eq_of_lt (by omega)]
  have hbound : 2 * (c.2.toNat + (c.1.toNat + b.toNat)) +
      n * (2 * (c.1.toNat + b.toNat) + 255 * (n + 1)) < 2 ^ 33 := by
    calc 2 * (c.2.toNat + (c.1.toNat + b.toNat)) +
          n * (2 * (c.1.toNat + b.toNat) + 255 * (n + 1))
        ≤ 2 * (c.2.toNat + (c.1.toNat + 255)) + n * (2 * (c.1.toNat + 255) + 255 * (n + 1)) := by
          gcongr <;> omega
      _ = 2 * c.2.toNat + (n + 1) * (2 * c.1.toNat + 255 * (n + 1 + 1)) := by ring
      _ < 2 ^ 33 := h2
  have hsnd : (c.2 + (c.1 + b.setWidth 32)).toNat = c.2.toNat + (c.1.toNat + b.toNat) := by
    rw [BitVec.toNat_add, hfst, Nat.mod_eq_of_lt]
    have hpos := Nat.zero_le (n * (2 * (c.1.toNat + b.toNat) + 255 * (n + 1)))
    omega
  refine ⟨hfst, hsnd, ?_, ?_⟩
  · show (c.1 + b.setWidth 32).toNat + 255 * n < 2 ^ 32
    omega
  · show 2 * (c.2 + (c.1 + b.setWidth 32)).toNat +
      n * (2 * (c.1 + b.setWidth 32).toNat + 255 * (n + 1)) < 2 ^ 33
    rw [hfst, hsnd]
    exact hbound

/-- Where there is room, a summation loop computes the sums of the residues. -/
theorem residues_sumBytes {c : BitVec 32 × BitVec 32} {bytes : List Byte}
    (h : Room c bytes.length) :
    residues (sumBytes c bytes) = Fletcher.sums (residues c) (bytes.map residue) := by
  induction bytes generalizing c with
  | nil => rfl
  | cons b bytes ih =>
    obtain ⟨hfst, hsnd, hroom⟩ := h.step b
    have hstep : residues (c.1 + b.setWidth 32, c.2 + (c.1 + b.setWidth 32)) =
        Fletcher.step (residues c) (residue b) := by
      simp only [residues, Fletcher.step, residue, hfst, hsnd, Nat.cast_add]
    rw [List.map_cons, Fletcher.sums_cons, ← hstep, ← ih hroom]
    rfl

theorem residues_mod255 (c : BitVec 32 × BitVec 32) : residues (mod255 c) = residues c := by
  have hmod : ∀ x : BitVec 32, ((x % 255).toNat : ZMod 255) = x.toNat := by
    intro x
    rw [BitVec.toNat_umod]
    exact ZMod.natCast_mod _ 255
  simp only [residues, mod255, hmod]

/-- Reduced sums. -/
def Reduced (c : BitVec 32 × BitVec 32) : Prop := c.1.toNat < 255 ∧ c.2.toNat < 255

theorem reduced_mod255 (c : BitVec 32 × BitVec 32) : Reduced (mod255 c) := by
  have hmod : ∀ x : BitVec 32, (x % 255).toNat < 255 := by
    intro x
    rw [BitVec.toNat_umod]
    exact Nat.mod_lt _ (by decide)
  exact ⟨hmod c.1, hmod c.2⟩

/-- **A block is short enough.** -/
theorem Reduced.room {c : BitVec 32 × BitVec 32} (h : Reduced c) {n : ℕ}
    (hn : n ≤ checksumBlock) : Room c n := by
  obtain ⟨h1, h2⟩ := h
  have hn' : n ≤ 5802 := hn
  refine ⟨by omega, ?_⟩
  have hle : n * (2 * c.1.toNat + 255 * (n + 1)) ≤ 5802 * (2 * 254 + 255 * 5803) :=
    Nat.mul_le_mul hn' (by omega)
  omega

theorem residues_sumBlocks (n : ℕ) {c : BitVec 32 × BitVec 32} (hc : Reduced c)
    (bytes : List Byte) :
    Reduced (sumBlocks n c bytes).1 ∧
      (sumBlocks n c bytes).2 = bytes.drop (n * checksumBlock) ∧
      residues (sumBlocks n c bytes).1 =
        Fletcher.sums (residues c) ((bytes.take (n * checksumBlock)).map residue) := by
  induction n generalizing c bytes with
  | zero => simp [sumBlocks, hc]
  | succ n ih =>
    have hblock : Room c (bytes.take checksumBlock).length := hc.room (List.length_take_le _ _)
    obtain ⟨hred, hrest, hsums⟩ :=
      ih (reduced_mod255 (sumBytes c (bytes.take checksumBlock))) (bytes.drop checksumBlock)
    have hcount : (n + 1) * checksumBlock = checksumBlock + n * checksumBlock := by ring
    refine ⟨hred, ?_, ?_⟩
    · rw [sumBlocks, hrest, List.drop_drop, hcount]
    · rw [sumBlocks, hsums, residues_mod255, residues_sumBytes hblock, hcount, List.take_add,
        List.map_append, Fletcher.sums_append]

/-- **The checksum is Fletcher's**, for any number of bytes. -/
theorem fletcher_residue (bytes : List Byte) :
    Reduced (fletcher bytes) ∧
      residues (fletcher bytes) = Fletcher.sums 0 (bytes.map residue) := by
  have hzero : Reduced (0, 0) := ⟨by decide, by decide⟩
  obtain ⟨hred, hrest, hsums⟩ :=
    residues_sumBlocks (bytes.length / checksumBlock) hzero bytes
  set n := bytes.length / checksumBlock with hn
  have hlen : (bytes.drop (n * checksumBlock)).length ≤ checksumBlock := by
    rw [List.length_drop, hn, ← Nat.mod_eq_sub_div_mul]
    exact (Nat.mod_lt _ (by decide)).le
  refine ⟨reduced_mod255 _, ?_⟩
  show residues (mod255 (sumBytes _ (sumBlocks n (0, 0) bytes).2)) = _
  rw [residues_mod255, hrest, residues_sumBytes (hred.room hlen), hsums, ← Fletcher.sums_append,
    ← List.map_append, List.take_append_drop]
  rfl

/-- Reduced sums are determined by their residues. -/
theorem Reduced.eq_of_residues {c c' : BitVec 32 × BitVec 32} (h : Reduced c) (h' : Reduced c')
    (heq : residues c = residues c') : c = c' := by
  have hword : ∀ x y : BitVec 32, x.toNat < 255 → y.toNat < 255 →
      (x.toNat : ZMod 255) = y.toNat → x = y := by
    intro x y hx hy hxy
    rw [ZMod.natCast_eq_natCast_iff', Nat.mod_eq_of_lt hx, Nat.mod_eq_of_lt hy] at hxy
    exact BitVec.eq_of_toNat_eq hxy
  obtain ⟨h1, h2⟩ := Prod.ext_iff.1 heq
  exact Prod.ext (hword _ _ h.1 h'.1 h1) (hword _ _ h.2 h'.2 h2)

/-- Nothing is lost when they are stored in bytes. -/
theorem Reduced.eq_of_bytes {c c' : BitVec 32 × BitVec 32} (h : Reduced c) (h' : Reduced c')
    (h2 : c.2.setWidth 8 = c'.2.setWidth 8) (h1 : c.1.setWidth 8 = c'.1.setWidth 8) : c = c' := by
  have hword : ∀ x y : BitVec 32, x.toNat < 255 → y.toNat < 255 →
      x.setWidth 8 = y.setWidth 8 → x = y := by
    intro x y hx hy hxy
    have hnat := congrArg BitVec.toNat hxy
    rw [BitVec.toNat_setWidth, BitVec.toNat_setWidth] at hnat
    exact BitVec.eq_of_toNat_eq (by omega)
  exact Prod.ext (hword _ _ h.1 h'.1 h1) (hword _ _ h.2 h'.2 h2)

/-- **One replaced byte is seen unless it has the same residue.** -/
theorem fletcher_set_eq_iff (bytes : List Byte) {i : ℕ} (hi : i < bytes.length) (b : Byte) :
    fletcher (bytes.set i b) = fletcher bytes ↔ residue b = residue bytes[i] := by
  obtain ⟨hred, hsums⟩ := fletcher_residue bytes
  obtain ⟨hred', hsums'⟩ := fletcher_residue (bytes.set i b)
  rw [List.map_set] at hsums'
  have hi' : i < (bytes.map residue).length := by
    rw [List.length_map]
    exact hi
  rw [← List.getElem_map residue (h := hi'), ← Fletcher.sums_set_eq_iff 0 _ hi', ← hsums, ← hsums']
  constructor
  · intro h
    rw [h]
  · intro h
    exact hred'.eq_of_residues hred h

/-! ### Corrupted packets -/

namespace Packet

variable {bytes : Vector Byte packetSize}

/-- The checksum covers the first twelve bytes. -/
theorem fletcher_take_set (bytes : Vector Byte packetSize) {i : ℕ} (hi : i < packetSize)
    (b : Byte) :
    fletcher ((bytes.set i b).toList.take 12) = fletcher (bytes.toList.take 12) ↔
      12 ≤ i ∨ residue b = residue bytes[i] := by
  rw [Vector.toList_set]
  by_cases h : 12 ≤ i
  · rw [List.take_set_of_le h]
    simp [h]
  · have hlen : i < (bytes.toList.take 12).length := by
      rw [List.length_take, Vector.length_toList]
      omega
    rw [List.take_set, fletcher_set_eq_iff _ hlen, List.getElem_take, Vector.getElem_toList]
    simp [h]

/-- The corrupted packets that are still valid. -/
theorem valid_set_iff (h : Valid bytes) {i : ℕ} (hi : i < packetSize) {b : Byte}
    (hne : b ≠ bytes[i]) :
    Valid (bytes.set i b) ↔ 2 ≤ i ∧ i ≤ 11 ∧
      ((bytes[i] = 0 ∧ b = 0xFF) ∨ (bytes[i] = 0xFF ∧ b = 0)) := by
  obtain ⟨h0, h1, h12, h13⟩ := h
  have hsize : i < 14 := hi
  -- a byte that is as it was is not the corrupted one
  have hother : ∀ k (hk : k < packetSize), (bytes.set i b)[k] = bytes[k] → i ≠ k := by
    intro k hk heq hik
    subst hik
    rw [Vector.getElem_set_self] at heq
    exact hne heq
  constructor
  · intro hv
    obtain ⟨h0', h1', h12', h13'⟩ := hv
    have hi0 : i ≠ 0 := hother 0 (by decide) (h0'.trans h0.symm)
    have hi1 : i ≠ 1 := hother 1 (by decide) (h1'.trans h1.symm)
    have hlow : ¬ 12 ≤ i := by
      intro hle
      have hsame := (fletcher_take_set bytes hi b).2 (Or.inl hle)
      rw [hsame, ← h12] at h12'
      rw [hsame, ← h13] at h13'
      have hi12 := hother 12 (by decide) h12'
      have hi13 := hother 13 (by decide) h13'
      omega
    refine ⟨by omega, by omega, ?_⟩
    rw [Vector.getElem_set_ne _ _ (by omega)] at h12' h13'
    have hsame : fletcher ((bytes.set i b).toList.take 12) = fletcher (bytes.toList.take 12) :=
      (fletcher_residue _).1.eq_of_bytes (fletcher_residue _).1 (h12'.symm.trans h12)
        (h13'.symm.trans h13)
    rcases (fletcher_take_set bytes hi b).1 hsame with hle | hres
    · exact absurd hle hlow
    · exact (residue_eq_iff.1 hres.symm).resolve_left hne.symm
  · rintro ⟨hlow, hhigh, hb⟩
    have hres : residue bytes[i] = residue b := residue_eq_iff.2 (Or.inr hb)
    have hsame := (fletcher_take_set bytes hi b).2 (Or.inr hres.symm)
    refine ⟨?_, ?_, ?_, ?_⟩
    · rw [Vector.getElem_set_ne _ _ (by omega), h0]
    · rw [Vector.getElem_set_ne _ _ (by omega), h1]
    · rw [Vector.getElem_set_ne _ _ (by omega), h12, hsame]
    · rw [Vector.getElem_set_ne _ _ (by omega), h13, hsame]

/-- **The corruption of one byte is detected, unless `0x00` and `0xFF` are exchanged in a field.**
A packet with one of its bytes replaced is refused by the decoder, and `RXData` keeps the packet
it has. -/
theorem single_byte_corruption (joy1X joy1Y : BitVec 16) (joy1SW : Byte) (joy2X joy2Y : BitVec 16)
    (joy2SW : Byte) (bytes : Vector Byte packetSize)
    (hbytes : bytes = (ofFields joy1X joy1Y joy1SW joy2X joy2Y joy2SW).data) (i : ℕ)
    (hi : i < packetSize) (b : Byte) (hne : b ≠ bytes[i]) :
    (ofBuffer (bytes.set i b) = zero ∧
        ∀ r : RxData, ({ r with buffer := bytes.set i b } : RxData).storeBuffer.packet = r.packet) ↔
      ¬ (2 ≤ i ∧ i ≤ 11 ∧ ((bytes[i] = 0 ∧ b = 0xFF) ∨ (bytes[i] = 0xFF ∧ b = 0))) := by
  have hvalid : Valid bytes := by
    rw [hbytes]
    exact valid_ofFields _ _ _ _ _ _
  rw [← valid_set_iff hvalid hi hne]
  constructor
  · rintro ⟨hzero, -⟩ hv
    rw [ofBuffer_of_valid hv] at hzero
    have h0 : (bytes.set i b)[0] = 0 := congrArg (fun p : Packet => p.data[0]) hzero
    rw [hv.1] at h0
    cases h0
  · intro hv
    refine ⟨ofBuffer_of_not_valid hv, fun r => ?_⟩
    rw [RxData.storeBuffer_packet]
    exact if_neg hv

/-- A magic byte, an axis and a checksum byte are corrupted. -/
theorem single_byte_corruption_seen :
    ofBuffer ((ofFields 512 512 0 512 512 0).data.set 1 0xFF) = zero ∧
      ofBuffer ((ofFields 512 512 0 512 512 0).data.set 3 1) = zero ∧
      ofBuffer ((ofFields 512 512 0 512 512 0).data.set 12 0) = zero :=
  ⟨((single_byte_corruption 512 512 0 512 512 0 _ rfl 1 (by decide) 0xFF (by decide)).2
      (by decide)).1,
    ((single_byte_corruption 512 512 0 512 512 0 _ rfl 3 (by decide) 1 (by decide)).2
      (by decide)).1,
    ((single_byte_corruption 512 512 0 512 512 0 _ rfl 12 (by decide) 0 (by decide)).2
      (by decide)).1⟩

/-- A switch that reads as pressed: `0x00` became `0xFF`, and `RXData` stores the packet. -/
theorem switch_corruption_accepted :
    (0xFF : Byte) ≠ (ofFields 512 512 0 512 512 0).data[10] ∧
      ofBuffer ((ofFields 512 512 0 512 512 0).data.set 10 0xFF) ≠ zero ∧
      ∀ r : RxData, (({ r with
        buffer := (ofFields 512 512 0 512 512 0).data.set 10 0xFF } : RxData).storeBuffer.packet
          ).joy1SW = 0xFF := by
  refine ⟨by decide, by decide, fun r => ?_⟩
  have hv : Valid ((ofFields 512 512 0 512 512 0).data.set 10 0xFF) := by decide
  rw [RxData.storeBuffer_packet, if_pos hv]
  rfl

end Packet

end RoombaRtos
