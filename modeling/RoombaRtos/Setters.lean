import RoombaRtos.Packet

/-!
# Setting the fields of a packet

The setters of `Packet.h`, and `updatePacket` of the base station, which calls all of them before
each packet it sends.

* `Packet.Field` — the fields a packet carries, with the getter and the setter of each;
* `Packet.encode` — the constructor from the values of the fields;
* `get_set` — a setter changes its field and no other one;
* `set_encode` — setting a field of an encoded packet is encoding the changed fields;
* `setters_reencode` — after any calls the packet is the encoding of the last values.
-/

namespace RoombaRtos

namespace Packet

inductive Field
  | joy1X
  | joy1Y
  | joy1SW
  | joy2X
  | joy2Y
  | joy2SW
deriving DecidableEq, Repr

/-- The axes are words and the switches are bytes. -/
abbrev Field.Value : Field → Type
  | .joy1SW => Byte
  | .joy2SW => Byte
  | .joy1X => BitVec 16
  | .joy1Y => BitVec 16
  | .joy2X => BitVec 16
  | .joy2Y => BitVec 16

/-- The getters. -/
def get (p : Packet) : (k : Field) → k.Value
  | .joy1X => p.joy1X
  | .joy1Y => p.joy1Y
  | .joy1SW => p.joy1SW
  | .joy2X => p.joy2X
  | .joy2Y => p.joy2Y
  | .joy2SW => p.joy2SW

/-- The setters. -/
def set (p : Packet) : (k : Field) → k.Value → Packet
  | .joy1X => p.setJoy1X
  | .joy1Y => p.setJoy1Y
  | .joy1SW => p.setJoy1SW
  | .joy2X => p.setJoy2X
  | .joy2Y => p.setJoy2Y
  | .joy2SW => p.setJoy2SW

/-- The call of a setter. -/
abbrev SetterCall : Type := (k : Field) × k.Value

def call (p : Packet) (c : SetterCall) : Packet := p.set c.1 c.2

def calls (p : Packet) (cs : List SetterCall) : Packet := cs.foldl call p

/-- The constructor, with its arguments as one. -/
def encode (fields : (k : Field) → k.Value) : Packet :=
  ofFields (fields .joy1X) (fields .joy1Y) (fields .joy1SW) (fields .joy2X) (fields .joy2Y)
    (fields .joy2SW)

variable {fields : (k : Field) → k.Value}

theorem valid_encode : Valid (encode fields).data := valid_ofFields _ _ _ _ _ _

theorem get_encode (k : Field) : (encode fields).get k = fields k := by
  obtain ⟨h1X, h1Y, h1SW, h2X, h2Y, h2SW⟩ := getters_ofFields (fields .joy1X) (fields .joy1Y)
    (fields .joy1SW) (fields .joy2X) (fields .joy2Y) (fields .joy2SW)
  cases k with
  | joy1X => exact h1X
  | joy1Y => exact h1Y
  | joy1SW => exact h1SW
  | joy2X => exact h2X
  | joy2Y => exact h2Y
  | joy2SW => exact h2SW

theorem get_updateChecksum (p : Packet) (k : Field) : p.updateChecksum.get k = p.get k := by
  have hbyte : ∀ i (hp : i < packetSize), i < 12 → p.updateChecksum.data[i] = p.data[i] :=
    fun i hp hi => updateChecksum_getElem p hp hi
  cases k with
  | joy1X => exact congrArg₂ to16bit (hbyte 2 _ (by decide)) (hbyte 3 _ (by decide))
  | joy1Y => exact congrArg₂ to16bit (hbyte 4 _ (by decide)) (hbyte 5 _ (by decide))
  | joy1SW => exact hbyte 10 _ (by decide)
  | joy2X => exact congrArg₂ to16bit (hbyte 6 _ (by decide)) (hbyte 7 _ (by decide))
  | joy2Y => exact congrArg₂ to16bit (hbyte 8 _ (by decide)) (hbyte 9 _ (by decide))
  | joy2SW => exact hbyte 11 _ (by decide)

/-- **The fields are apart.**  In any packet a setter changes its own field and no other one. -/
theorem get_set (p : Packet) (k : Field) (value : k.Value) :
    (p.set k value).get = Function.update p.get k value := by
  funext k'
  cases k <;> refine (get_updateChecksum _ _).trans ?_ <;> cases k' <;>
    simp [get, joy1X, joy1Y, joy1SW, joy2X, joy2Y, joy2SW, valueAssign, Function.update]

theorem valid_set_encode (k : Field) (value : k.Value) :
    Valid ((encode fields).set k value).data := by
  cases k <;> exact valid_updateChecksum _ rfl rfl

/-- Setting a field of an encoded packet is encoding the changed fields. -/
theorem set_encode (k : Field) (value : k.Value) :
    (encode fields).set k value = encode (Function.update fields k value) := by
  have hget : (encode fields).get = fields := funext get_encode
  have hvalid : Valid ((encode fields).set k value).data := valid_set_encode k value
  calc (encode fields).set k value
      = encode ((encode fields).set k value).get := (congrArg Packet.mk hvalid.data_remake).symm
    _ = encode (Function.update fields k value) := by rw [get_set, hget]

/-! ### Any number of calls -/

/-- The value of each field after the calls. -/
def lastSet (fields : (k : Field) → k.Value) (cs : List SetterCall) : (k : Field) → k.Value :=
  cs.foldl (fun fields c => Function.update fields c.1 c.2) fields

theorem calls_encode (cs : List SetterCall) :
    (encode fields).calls cs = encode (lastSet fields cs) := by
  induction cs generalizing fields with
  | nil => rfl
  | cons c cs ih =>
    show ((encode fields).set c.1 c.2).calls cs = _
    rw [set_encode, ih]
    rfl

theorem lastSet_of_not_set {cs : List SetterCall} {k : Field} (h : ∀ c ∈ cs, c.1 ≠ k) :
    lastSet fields cs k = fields k := by
  induction cs generalizing fields with
  | nil => rfl
  | cons c cs ih =>
    obtain ⟨hc, hcs⟩ := List.forall_mem_cons.1 h
    show lastSet (Function.update fields c.1 c.2) cs k = _
    rw [ih hcs, Function.update_of_ne hc.symm]

theorem lastSet_of_last {before after : List SetterCall} {k : Field} {value : k.Value}
    (h : ∀ c ∈ after, c.1 ≠ k) : lastSet fields (before ++ ⟨k, value⟩ :: after) k = value := by
  have happ : lastSet fields (before ++ ⟨k, value⟩ :: after) =
      lastSet (Function.update (lastSet fields before) k value) after := by
    simp only [lastSet, List.foldl_append, List.foldl_cons]
  rw [happ, lastSet_of_not_set h, Function.update_self]

/-- **The setters keep a packet encoded.**  Whatever setters are called on a packet made from
fields, in whatever order, it is valid, it is the packet made from the last values of the fields,
and two more calls for different fields can be exchanged. -/
theorem setters_reencode (fields : (k : Field) → k.Value) (cs : List SetterCall) :
    ∃ last : (k : Field) → k.Value,
      (∀ k, (∀ c ∈ cs, c.1 ≠ k) → last k = fields k) ∧
      (∀ k (value : k.Value) before after, cs = before ++ ⟨k, value⟩ :: after →
        (∀ c ∈ after, c.1 ≠ k) → last k = value) ∧
      ((encode fields).calls cs).data = (encode last).data ∧
      (∀ k, ((encode fields).calls cs).get k = last k) ∧
      (∀ n, Valid ((encode fields).calls (cs.take n)).data) ∧
      ∀ c d : SetterCall, c.1 ≠ d.1 → (encode fields).calls (cs ++ [c, d]) =
        (encode fields).calls (cs ++ [d, c]) := by
  refine ⟨lastSet fields cs, fun k h => lastSet_of_not_set h, ?_, ?_, ?_, ?_, ?_⟩
  · rintro k value before after rfl h
    exact lastSet_of_last h
  · rw [calls_encode]
  · intro k
    rw [calls_encode, get_encode]
  · intro n
    rw [calls_encode]
    exact valid_encode
  · intro c d hcd
    rw [calls_encode, calls_encode]
    have hcomm := Function.update_comm hcd c.2 d.2 (lastSet fields cs)
    simp only [lastSet, List.foldl_append, List.foldl_cons, List.foldl_nil] at hcomm ⊢
    rw [hcomm]

/-! ### The base station -/

/-- `updatePacket`, with the positions that the joysticks return and whether they are pressed. -/
def updatePacket (joy1X joy1Y : BitVec 16) (click1 : Bool) (joy2X joy2Y : BitVec 16)
    (click2 : Bool) (p : Packet) : Packet :=
  let p := p.setJoy1X joy1X
  let p := p.setJoy1Y joy1Y
  let p := p.setJoy1SW (if click1 then 0xFF else 0x00)
  let p := p.setJoy2X joy2X
  let p := p.setJoy2Y joy2Y
  p.setJoy2SW (if click2 then 0xFF else 0x00)

/-- What `TXData` sends next is decoded to the positions of the joysticks. -/
theorem ofBuffer_updatePacket (x1 y1 x2 y2 : BitVec 16) (click1 click2 : Bool) :
    ofBuffer (updatePacket x1 y1 click1 x2 y2 click2 (encode fields)).data =
      ofFields x1 y1 (if click1 then 0xFF else 0x00) x2 y2 (if click2 then 0xFF else 0x00) := by
  have hcalls : updatePacket x1 y1 click1 x2 y2 click2 (encode fields) = (encode fields).calls
      [⟨.joy1X, x1⟩, ⟨.joy1Y, y1⟩, ⟨.joy1SW, if click1 then 0xFF else 0x00⟩, ⟨.joy2X, x2⟩,
        ⟨.joy2Y, y2⟩, ⟨.joy2SW, if click2 then 0xFF else 0x00⟩] := rfl
  rw [hcalls, calls_encode, ofBuffer_of_valid valid_encode]
  rfl

end Packet

end RoombaRtos
