import RoombaRtos.Lib.Lockstep
import RoombaRtos.Joystick
import RoombaRtos.Roomba

/-!
# The sketches of project 1

The tasks of `base.ino` that fill and send a packet, the tasks of `remote.ino` that receive it and
drive the robot, and the serial line between them.

* `Packet.data`, `Packet.ofBuffer` — the two views of the union;
* `Sketches` — both sketches and the line, under calls of the tasks in any order;
* `Sketches.received_in_order` — which packets are received, and in how many calls;
* `Sketches.never_made_up` — `getData` does not get rid of what it has fallen behind;
* `Sketches.told_changes` — what the robot is told.

`Serial`, `Serial1`, `Serial2` and `Serial3` are those of the Arduino core: the receive buffer holds
63 bytes and drops what comes when it is full, `available` is the number of bytes in it, `read`
takes one of them, and `readBytes` takes the number it is asked for when so many are there.
-/

namespace RoombaRtos.Project1

open Lockstep

/-- `PACKET_MAGIC`. -/
def packetMagic : Byte := 0xF3

/-- `PACKET_SIZE`: four axes and two switches. -/
abbrev packetSize : ℕ := 10

/-- How many bytes the receive buffer of a serial port holds. -/
abbrev serialBuffer : ℕ := 63

/-- `HIGH`. -/
def high : Byte := 1

structure Packet where
  joy1X : Word
  joy1Y : Word
  joy2X : Word
  joy2Y : Word
  joy1SW : Byte
  joy2SW : Byte
deriving DecidableEq, Repr

namespace Packet

/-- The bytes of the union. -/
def data (p : Packet) : List Byte :=
  [lowByte p.joy1X, highByte p.joy1X, lowByte p.joy1Y, highByte p.joy1Y,
    lowByte p.joy2X, highByte p.joy2X, lowByte p.joy2Y, highByte p.joy2Y, p.joy1SW, p.joy2SW]

/-- The constructor that is given the bytes. -/
def ofBuffer (buffer : List Byte) : Packet where
  joy1X := to16bit (buffer.getD 1 0) (buffer.getD 0 0)
  joy1Y := to16bit (buffer.getD 3 0) (buffer.getD 2 0)
  joy2X := to16bit (buffer.getD 5 0) (buffer.getD 4 0)
  joy2Y := to16bit (buffer.getD 7 0) (buffer.getD 6 0)
  joy1SW := buffer.getD 8 0
  joy2SW := buffer.getD 9 0

/-- `packet(512, 512, 0, 512, 512, 0)`. -/
def initial : Packet := ⟨512, 512, 512, 512, 0, 0⟩

/-- What `sendPacket` writes. -/
def frame (p : Packet) : List Byte := packetMagic :: p.data

theorem length_data (p : Packet) : p.data.length = packetSize := rfl

@[simp] theorem ofBuffer_data (p : Packet) : ofBuffer p.data = p := by
  obtain ⟨x₁, y₁, x₂, y₂, s₁, s₂⟩ := p
  simp [ofBuffer, data]

end Packet

/-! ### The robot -/

/-- What `commandRoomba` chooses. -/
inductive Command
  | stop
  | forward
  | back
  | right
  | left
  | dock
deriving DecidableEq, Repr

namespace Roomba

/-- `DRIVE`, `CONTROL` and `PLAY` are sent. -/
def drive (velocity radius : Word) : List Byte :=
  [137, highByte velocity, lowByte velocity, highByte radius, lowByte radius]

def control : List Byte := [130]

def sing : List Byte := [141]

end Roomba

/-- `drive` takes integers of 16 bits. -/
def Command.sends : Command → List Byte
  | .forward => Roomba.drive 150 32768
  | .back => Roomba.drive (-150) 32768
  | .right => Roomba.drive 50 (-1)
  | .left => Roomba.drive 50 1
  | .stop => Roomba.drive 0 0
  | .dock => Roomba.control ++ Roomba.sing

/-- The command of the robot's interface. -/
def Command.action : Command → RoombaRtos.Roomba.Action
  | .forward => .drive 150 32768
  | .back => .drive (-150) 32768
  | .right => .drive 50 (-1)
  | .left => .drive 50 1
  | .stop => .drive 0 0
  | .dock => .dock

theorem Command.short_action (c : Command) : c.action.Short := by
  cases c <;> exact trivial

/-- What is sent is that command, but where the robot should dock. -/
theorem Command.encode_action {c : Command} (hc : c ≠ .dock) :
    RoombaRtos.Roomba.encode c.action = c.sends := by
  cases c with
  | dock => exact absurd rfl hc
  | _ => rfl

/-- An axis, mapped down to reduce jitter; `map` of the Arduino core is what `map_u` is. -/
def steps (axis : Word) : ℤ := (BitVec.ofInt 8 (mapU axis.toNat 0 1023 (-5) 5)).toInt

def chooseCommand (p : Packet) : Command :=
  let x := steps p.joy2X
  let y := steps p.joy2Y
  let command :=
    if absU x > 2 ∨ absU y > 2 then
      if absU x > absU y then if x > 0 then .right else .left
      else if y > 0 then .forward else .back
    else .stop
  -- overwrite any command if we should be docking
  if p.joy2SW = high then .dock else command

/-! ### The sketches -/

/-- What the joysticks of the base station read: the axes, and if the sticks are pressed. -/
structure Readings where
  x₁ : Word
  y₁ : Word
  pressed₁ : Bool
  x₂ : Word
  y₂ : Word
  pressed₂ : Bool
deriving DecidableEq, Repr

/-- `updatePacket`. -/
def updatePacket (r : Readings) : Packet where
  joy1X := Joystick.reduceRange r.x₁
  joy1Y := Joystick.reduceRange r.y₁
  joy1SW := if r.pressed₁ then 0xFF else 0x00
  joy2X := Joystick.reduceRange r.x₂
  joy2Y := Joystick.reduceRange r.y₂
  joy2SW := if r.pressed₂ then 0xFF else 0x00

structure Sketches where
  /-- `packet` of the base station. -/
  base : Packet := .initial
  /-- The bytes that were sent and have not arrived. -/
  wire : List Byte := []
  /-- The receive buffer of `Serial2`. -/
  rx : List Byte := []
  /-- The receive buffer of `Serial`. -/
  usb : List Byte := []
  /-- `packet` of the remote station. -/
  packet : Packet := .initial
  lastCommand : Command := .stop
  /-- What was written to `Serial3` since `setup`, where `init` has written other commands, and one
  that the decoder does not know, `CONTROL`. -/
  robot : List Byte := []
  /-- The packets that were sent, oldest first. -/
  sent : List Packet := []
  /-- The packets that were received, oldest first. -/
  got : List Packet := []
  /-- How often `getData` found something. -/
  found : ℕ := 0
  /-- How often it found the magic number and not all of a packet. -/
  cut : ℕ := 0
  /-- The commands that were chosen, oldest first. -/
  chosen : List Command := []
  /-- Those of them that the robot was told. -/
  told : List Command := []

namespace Sketches

/-- `sendPacket`, where `Serial1` may have no room. -/
def sendPacket (s : Sketches) (availableForWrite : Bool) : Sketches :=
  if availableForWrite then
    { s with wire := s.wire ++ s.base.frame, sent := s.sent ++ [s.base] }
  else s

def getData (s : Sketches) : Sketches :=
  let bytesAvailable := s.rx.length
  match s.rx with
  | [] => s
  | r :: rx =>
      let s := { s with found := s.found + 1 }
      if r = packetMagic ∧ bytesAvailable ≥ packetSize + 1 then
        let packet := Packet.ofBuffer (rx.take packetSize)
        { s with
          packet := packet
          rx := rx.drop packetSize
          -- what is discarded is read from another port
          usb := s.usb.drop (bytesAvailable - 1 - packetSize)
          got := s.got ++ [packet] }
      else { s with rx := rx, cut := if r = packetMagic then s.cut + 1 else s.cut }

def commandRoomba (s : Sketches) : Sketches :=
  let command := chooseCommand s.packet
  let s := { s with chosen := s.chosen ++ [command] }
  if command = s.lastCommand then s
  else { s with
    lastCommand := command
    robot := s.robot ++ command.sends
    told := s.told ++ [command] }

inductive Event
  | updatePacket (r : Readings)
  | sendPacket (availableForWrite : Bool)
  /-- A byte comes from the line. -/
  | arrive
  /-- A byte comes to the port `Serial`. -/
  | key (b : Byte)
  | getData
  | commandRoomba
deriving DecidableEq, Repr

def advance (s : Sketches) : Event → Option Sketches
  | .updatePacket r => some { s with base := Project1.updatePacket r }
  | .sendPacket availableForWrite => some (s.sendPacket availableForWrite)
  | .arrive =>
      match s.wire with
      | [] => none
      | b :: wire =>
          some { s with
            wire := wire
            rx := if s.rx.length < serialBuffer then s.rx ++ [b] else s.rx }
  | .key b => some { s with usb := if s.usb.length < serialBuffer then s.usb ++ [b] else s.usb }
  | .getData => some s.getData
  | .commandRoomba => some s.commandRoomba

def Step (s : Sketches) (e : Event) (s' : Sketches) : Prop := s.advance e = some s'

/-! ### What is received -/

variable {s s' t : Sketches} {rest : List Byte} {e : Event} {es : List Event}

theorem getData_nil (h : s.rx = []) : s.getData = s := by
  unfold getData
  rw [h]

/-- A packet is there. -/
theorem getData_whole {rx : List Byte} (h : s.rx = packetMagic :: rx)
    (hlen : packetSize ≤ rx.length) : s.getData =
      { s with
        found := s.found + 1
        packet := Packet.ofBuffer (rx.take packetSize)
        rx := rx.drop packetSize
        usb := s.usb.drop (rx.length - packetSize)
        got := s.got ++ [Packet.ofBuffer (rx.take packetSize)] } := by
  have hall : s.rx.length ≥ packetSize + 1 := by
    rw [h, List.length_cons]
    omega
  have hmore : s.rx.length - 1 - packetSize = rx.length - packetSize := by
    rw [h, List.length_cons]
    omega
  unfold getData
  simp only [h] at hall hmore ⊢
  rw [if_pos ⟨trivial, hall⟩, hmore]

/-- One byte is taken, since it is no magic number or not enough comes behind it. -/
theorem getData_byte {r : Byte} {rx : List Byte} (h : s.rx = r :: rx)
    (hnot : r = packetMagic → rx.length < packetSize) : s.getData =
      { s with
        found := s.found + 1
        rx := rx
        cut := if r = packetMagic then s.cut + 1 else s.cut } := by
  have hfew : ¬(r = packetMagic ∧ s.rx.length ≥ packetSize + 1) := by
    rintro ⟨hr, hlen⟩
    have hlt := hnot hr
    rw [h, List.length_cons] at hlen
    omega
  unfold getData
  simp only [h] at hfew ⊢
  rw [if_neg hfew]

/-- What is received is in step with what was sent; `rest` is left of a packet that was cut. -/
structure InStep (s : Sketches) (rest : List Byte) : Prop where
  le : s.got.length + s.cut ≤ s.sent.length
  short : rest.length ≤ packetSize
  clean : packetMagic ∉ rest
  line : s.rx ++ s.wire = rest ++ (s.sent.drop (s.got.length + s.cut)).flatMap Packet.frame
  calls : s.found + rest.length = s.got.length + (packetSize + 1) * s.cut
  got : s.got.Sublist (s.sent.take (s.got.length + s.cut))
  latest : s.packet = s.got.getLastD .initial
  plain : ∀ p ∈ s.base :: s.sent, p.joy2SW = 0x00 ∨ p.joy2SW = 0xFF
  quiet : ∀ p ∈ s.sent, packetMagic ∉ p.data

/-- No byte is dropped, and no packet has the magic number in it. -/
def Orderly (s : Sketches) (e : Event) (s' : Sketches) : Prop :=
  s.Step e s' ∧ (e = .arrive → s.rx.length < serialBuffer) ∧
    (e = .sendPacket true → packetMagic ∉ s.base.data)

theorem of_drop_eq_cons {α : Type} {l l' : List α} {n : ℕ} {x : α} (h : l.drop n = x :: l') :
    n < l.length ∧ l.take (n + 1) = l.take n ++ [x] ∧ l.drop (n + 1) = l' ∧ x ∈ l := by
  have hlt : n < l.length := by
    by_contra hge
    rw [List.drop_eq_nil_of_le (by omega)] at h
    cases h
  rw [List.drop_eq_getElem_cons hlt] at h
  obtain ⟨hx, hl'⟩ := List.cons.inj h
  refine ⟨hlt, ?_, hl', hx ▸ List.getElem_mem hlt⟩
  rw [List.take_add_one, List.getElem?_eq_getElem hlt, hx]
  rfl

/-- A line that is in step starts with a packet. -/
theorem front_frame {ps : List Packet} {r : Byte} {l : List Byte}
    (h : r :: l = ps.flatMap Packet.frame) : ∃ p ps', ps = p :: ps' ∧ r = packetMagic ∧
      l = p.data ++ ps'.flatMap Packet.frame := by
  cases ps with
  | nil => cases h
  | cons p ps =>
    obtain ⟨hr, hl⟩ := List.cons.inj h
    exact ⟨p, ps, rfl, hr, hl⟩

theorem InStep.getData (h : s.InStep rest) : ∃ rest', s.getData.InStep rest' := by
  cases hrx : s.rx with
  | nil =>
    rw [getData_nil hrx]
    exact ⟨rest, h⟩
  | cons r rx =>
    have hline := h.line
    rw [hrx, List.cons_append] at hline
    cases rest with
    | cons b rest =>
      -- still in the packet that was cut
      obtain ⟨hr, htail⟩ := List.cons.inj hline
      subst hr
      obtain ⟨hne, hclean⟩ := not_or.1 (List.mem_cons.not.1 h.clean)
      have hshort := h.short
      have hcalls := h.calls
      rw [List.length_cons] at hshort hcalls
      rw [getData_byte hrx fun hr => absurd hr.symm hne, if_neg (Ne.symm hne)]
      exact ⟨rest, h.le, by omega, hclean, htail, by simp only; omega, h.got, h.latest, h.plain,
        h.quiet⟩
    | nil =>
      obtain ⟨p, ps, hdrop, hr, htail⟩ := front_frame hline
      obtain ⟨hlt, htake, hdrop', hmem⟩ := of_drop_eq_cons hdrop
      subst hr
      have hcalls := h.calls
      rw [List.length_nil] at hcalls
      by_cases hlen : packetSize ≤ rx.length
      · have hpacket : rx.take packetSize = p.data := by
          have hfirst := congrArg (List.take packetSize) htail
          rwa [List.take_append_of_le_length hlen, List.take_left' p.length_data] at hfirst
        have hrest : rx.drop packetSize ++ s.wire = ps.flatMap Packet.frame := by
          have hlast := congrArg (List.drop packetSize) htail
          rwa [List.drop_append_of_le_length hlen, List.drop_left' p.length_data] at hlast
        have hcount : (s.got ++ [p]).length + s.cut = s.got.length + s.cut + 1 := by
          rw [List.length_append, List.length_singleton]
          omega
        rw [getData_whole hrx hlen, hpacket, Packet.ofBuffer_data]
        refine ⟨[], ?_, Nat.zero_le _, List.not_mem_nil, ?_, ?_, ?_, ?_, h.plain, h.quiet⟩
        · simp only [hcount]
          omega
        · simp only [hcount, hdrop']
          exact hrest
        · simp only [List.length_append, List.length_singleton, List.length_nil]
          omega
        · simp only [hcount, htake]
          exact h.got.append (List.Sublist.refl _)
        · simp
      · rw [getData_byte hrx fun _ => by omega, if_pos rfl]
        refine ⟨p.data, ?_, p.length_data.le, h.quiet p hmem, ?_, ?_, ?_, h.latest, h.plain,
          h.quiet⟩
        · show s.got.length + (s.cut + 1) ≤ s.sent.length
          omega
        · show rx ++ s.wire =
            p.data ++ (s.sent.drop (s.got.length + (s.cut + 1))).flatMap Packet.frame
          rw [htail, ← Nat.add_assoc, hdrop']
        · show s.found + 1 + p.data.length = s.got.length + (packetSize + 1) * (s.cut + 1)
          rw [p.length_data, Nat.mul_succ]
          omega
        · show s.got.Sublist (s.sent.take (s.got.length + (s.cut + 1)))
          rw [← Nat.add_assoc, htake]
          exact h.got.trans (List.sublist_append_left _ _)

theorem InStep.initial : InStep {} [] :=
  ⟨Nat.le_refl _, Nat.zero_le _, List.not_mem_nil, rfl, rfl, List.Sublist.refl _, rfl,
    by simp [Packet.initial], by simp⟩

theorem InStep.sendPacket (h : s.InStep rest) (hquiet : packetMagic ∉ s.base.data) :
    (s.sendPacket true).InStep rest := by
  have hdrop : (s.sent ++ [s.base]).drop (s.got.length + s.cut) =
      s.sent.drop (s.got.length + s.cut) ++ [s.base] := List.drop_append_of_le_length h.le
  have htake : (s.sent ++ [s.base]).take (s.got.length + s.cut) =
      s.sent.take (s.got.length + s.cut) := List.take_append_of_le_length h.le
  refine ⟨?_, h.short, h.clean, ?_, h.calls, ?_, h.latest, ?_, ?_⟩
  · show s.got.length + s.cut ≤ (s.sent ++ [s.base]).length
    rw [List.length_append]
    exact Nat.le_add_right_of_le h.le
  · show s.rx ++ (s.wire ++ s.base.frame) =
      rest ++ ((s.sent ++ [s.base]).drop (s.got.length + s.cut)).flatMap Packet.frame
    rw [hdrop, List.flatMap_append, ← List.append_assoc, h.line, List.append_assoc]
    simp
  · show s.got.Sublist ((s.sent ++ [s.base]).take (s.got.length + s.cut))
    rw [htake]
    exact h.got
  · intro p hp
    refine h.plain p ?_
    have hp' : p ∈ s.base :: (s.sent ++ [s.base]) := hp
    simp only [List.mem_cons, List.mem_append] at hp' ⊢
    tauto
  · intro p hp
    rcases List.mem_append.1 hp with hp | hp
    · exact h.quiet p hp
    · rw [List.mem_singleton.1 hp]
      exact hquiet

/-- **One call or one byte.** -/
theorem InStep.step (h : s.InStep rest) (hs : s.Orderly e s') : ∃ rest', s'.InStep rest' := by
  obtain ⟨hstep, hroom, hquiet⟩ := hs
  cases e with
  | updatePacket r =>
    obtain rfl := Option.some.inj hstep
    refine ⟨rest, h.le, h.short, h.clean, h.line, h.calls, h.got, h.latest, ?_, h.quiet⟩
    intro p hp
    rcases List.mem_cons.1 hp with rfl | hp
    · show (if r.pressed₂ then (0xFF : Byte) else 0x00) = 0x00 ∨
        (if r.pressed₂ then (0xFF : Byte) else 0x00) = 0xFF
      cases r.pressed₂ <;> simp
    · exact h.plain p (List.mem_cons_of_mem _ hp)
  | sendPacket availableForWrite =>
    obtain rfl := Option.some.inj hstep
    cases availableForWrite with
    | false => exact ⟨rest, h⟩
    | true => exact ⟨rest, h.sendPacket (hquiet rfl)⟩
  | arrive =>
    have hlt := hroom rfl
    cases hwire : s.wire with
    | nil =>
      simp only [Step, advance, hwire] at hstep
      cases hstep
    | cons b wire =>
      simp only [Step, advance, hwire, if_pos hlt] at hstep
      obtain rfl := Option.some.inj hstep
      refine ⟨rest, h.le, h.short, h.clean, ?_, h.calls, h.got, h.latest, h.plain, h.quiet⟩
      show s.rx ++ [b] ++ wire = _
      rw [List.append_assoc, List.singleton_append, ← hwire]
      exact h.line
  | key b =>
    obtain rfl := Option.some.inj hstep
    exact ⟨rest, h.le, h.short, h.clean, h.line, h.calls, h.got, h.latest, h.plain, h.quiet⟩
  | getData =>
    obtain rfl := Option.some.inj hstep
    exact h.getData
  | commandRoomba =>
    obtain rfl := Option.some.inj hstep
    refine ⟨rest, ?_⟩
    unfold commandRoomba
    dsimp only
    split_ifs
    · exact ⟨h.le, h.short, h.clean, h.line, h.calls, h.got, h.latest, h.plain, h.quiet⟩
    · exact ⟨h.le, h.short, h.clean, h.line, h.calls, h.got, h.latest, h.plain, h.quiet⟩

/-- **Which packets are received.**  In every run from power-on in which the receive buffer does not
overflow and no packet that is sent has a byte `PACKET_MAGIC`: the packets received are some of
those sent, in their order, and the others before the last of them were cut, since `getData` was
called when not all of their bytes were there; a packet is received in one call, and a packet that
is cut costs eleven. -/
theorem received_in_order (hrun : Run Orderly {} es s) :
    s.got.Sublist (s.sent.take (s.got.length + s.cut)) ∧
      s.got.length + s.cut ≤ s.sent.length ∧ s.packet = s.got.getLastD .initial ∧
      (∀ p ∈ s.got, p.joy2SW ≠ high) ∧
      ∃ rest, rest.length ≤ packetSize ∧
        s.found + rest.length = s.got.length + (packetSize + 1) * s.cut ∧
        s.rx ++ s.wire = rest ++ (s.sent.drop (s.got.length + s.cut)).flatMap Packet.frame := by
  obtain ⟨rest, h⟩ := hrun.invariant (P := fun s => ∃ rest, s.InStep rest) ⟨[], .initial⟩
    fun _ _ _ ⟨_, ht⟩ hs => ht.step hs
  refine ⟨h.got, h.le, h.latest, fun p hp => ?_, rest, h.short, h.calls, h.line⟩
  have hsent : p ∈ s.sent := List.mem_of_mem_take (h.got.subset hp)
  rcases h.plain p (List.mem_cons_of_mem _ hsent) with hsw | hsw <;> rw [hsw] <;> decide

def advanceOrderly (s : Sketches) (e : Event) : Option Sketches :=
  if (e = .arrive → s.rx.length < serialBuffer) ∧
      (e = .sendPacket true → packetMagic ∉ s.base.data) then s.advance e else none

theorem orderly_of_advance (h : s.advanceOrderly e = some s') : s.Orderly e s' := by
  unfold advanceOrderly at h
  split_ifs at h with hcond
  exact ⟨h, hcond⟩

/-- A packet is sent and cut, the calls take what is left of it, and the next one is received. -/
def cutAndNext : List Event :=
  [.sendPacket true, .arrive, .getData] ++ List.replicate 10 .arrive ++
    List.replicate 10 .getData ++
    [.updatePacket ⟨1023, 0, true, 512, 1023, true⟩, .sendPacket true] ++
    List.replicate 11 .arrive ++ [.getData, .commandRoomba]

theorem received_in_order_cut : ∃ s ∈ Run.exec advanceOrderly {} cutAndNext,
    (s.got.Sublist (s.sent.take (s.got.length + s.cut)) ∧
      s.got.length + s.cut ≤ s.sent.length ∧ s.packet = s.got.getLastD .initial ∧
      (∀ p ∈ s.got, p.joy2SW ≠ high) ∧
      ∃ rest, rest.length ≤ packetSize ∧
        s.found + rest.length = s.got.length + (packetSize + 1) * s.cut ∧
        s.rx ++ s.wire = rest ++ (s.sent.drop (s.got.length + s.cut)).flatMap Packet.frame) ∧
      s.got.length = 1 ∧ s.cut = 1 := by
  have hends : ∃ s ∈ Run.exec advanceOrderly {} cutAndNext, s.got.length = 1 ∧ s.cut = 1 := by
    decide +kernel
  obtain ⟨s, hs, hcount⟩ := hends
  exact ⟨s, hs, received_in_order ((Run.of_exec hs).mono fun _ _ _ h => orderly_of_advance h),
    hcount⟩

/-! ### What the receiver has fallen behind -/

/-- As many bytes come as a packet has, or more, and `getData` is called. -/
def Round (s s' : Sketches) : Prop :=
  ∃ es t, Run Step s es t ∧ .getData ∉ es ∧ packetSize + 1 ≤ es.count .arrive ∧ s' = t.getData

/-- So it goes on for `n` calls. -/
def Rounds : ℕ → Sketches → Sketches → Prop
  | 0, s, s' => s' = s
  | n + 1, s, s' => ∃ t, Rounds n s t ∧ t.Round s'

theorem Step.wire (hs : s.Step e s') (hget : e ≠ .getData) (harr : e ≠ .arrive) :
    s'.rx = s.rx ∧ ∃ more, s'.wire = s.wire ++ more := by
  cases e with
  | updatePacket r =>
    obtain rfl := Option.some.inj hs
    exact ⟨rfl, [], (List.append_nil _).symm⟩
  | sendPacket availableForWrite =>
    obtain rfl := Option.some.inj hs
    cases availableForWrite with
    | false => exact ⟨rfl, [], (List.append_nil _).symm⟩
    | true => exact ⟨rfl, s.base.frame, rfl⟩
  | arrive => exact absurd rfl harr
  | key b =>
    obtain rfl := Option.some.inj hs
    exact ⟨rfl, [], (List.append_nil _).symm⟩
  | getData => exact absurd rfl hget
  | commandRoomba =>
    obtain rfl := Option.some.inj hs
    refine ⟨?_, [], ?_⟩
    · unfold commandRoomba
      dsimp only
      split_ifs <;> rfl
    · rw [List.append_nil]
      unfold commandRoomba
      dsimp only
      split_ifs <;> rfl

theorem take_push {α : Type} (n : ℕ) (l : List α) (x : α) :
    (if (l.take n).length < n then l.take n ++ [x] else l.take n) = (l ++ [x]).take n := by
  rw [List.length_take]
  split_ifs with hlt
  · have hl : l.length < n := by omega
    rw [List.take_of_length_le hl.le, List.take_of_length_le]
    rw [List.length_append, List.length_singleton]
    exact hl
  · rw [List.take_append_of_le_length (by omega)]

/-- What comes while `getData` is not called goes into the buffer, as far as there is room. -/
theorem fills (hrun : Run Step s es t) (hno : .getData ∉ es) (hle : s.rx.length ≤ serialBuffer) :
    ∃ bs more, bs.length = es.count .arrive ∧ t.rx = (s.rx ++ bs).take serialBuffer ∧
      s.wire ++ more = bs ++ t.wire := by
  induction hrun with
  | nil => exact ⟨[], [], rfl, by rw [List.append_nil, List.take_of_length_le hle], by simp⟩
  | @snoc t u es e _ hstep ih =>
    obtain ⟨hes, he⟩ := not_or.1 (List.mem_append.not.1 hno)
    obtain ⟨bs, more, hlen, hrx, hwire⟩ := ih hes
    have hget : e ≠ .getData := fun heq => he (heq ▸ List.mem_singleton_self _)
    by_cases harr : e = .arrive
    · subst harr
      cases hb : t.wire with
      | nil =>
        simp only [Step, advance, hb] at hstep
        cases hstep
      | cons b wire =>
        simp only [Step, advance, hb] at hstep
        obtain rfl := Option.some.inj hstep
        refine ⟨bs ++ [b], more, ?_, ?_, ?_⟩
        · rw [List.count_append, List.length_append, hlen]
          rfl
        · show (if t.rx.length < serialBuffer then t.rx ++ [b] else t.rx) = _
          rw [hrx, take_push, List.append_assoc]
        · show s.wire ++ more = bs ++ [b] ++ wire
          rw [hwire, hb, List.append_assoc, List.singleton_append]
    · obtain ⟨hrx', more', hwire'⟩ := hstep.wire hget harr
      refine ⟨bs, more ++ more', ?_, hrx'.trans hrx, ?_⟩
      · rw [List.count_append, List.count_singleton, if_neg (by simpa using harr), hlen]
        rfl
      · rw [hwire', ← List.append_assoc, hwire, List.append_assoc]

/-- At most a packet is taken. -/
theorem length_getData (s : Sketches) :
    s.rx.length ≤ s.getData.rx.length + (packetSize + 1) ∧ s.getData.rx.length ≤ s.rx.length := by
  cases hrx : s.rx with
  | nil =>
    rw [getData_nil hrx, hrx]
    simp
  | cons r rx =>
    by_cases hall : r = packetMagic ∧ packetSize ≤ rx.length
    · obtain ⟨rfl, hlen⟩ := hall
      rw [getData_whole hrx hlen]
      simp only [List.length_drop, List.length_cons]
      omega
    · rw [getData_byte hrx fun hr => not_le.1 fun hlen => hall ⟨hr, hlen⟩]
      simp only [List.length_cons]
      omega

theorem Round.length (h : s.Round s') (hle : s.rx.length ≤ serialBuffer) :
    min serialBuffer (s.rx.length + (packetSize + 1)) ≤ s'.rx.length + (packetSize + 1) ∧
      s'.rx.length ≤ serialBuffer := by
  obtain ⟨es, t, hrun, hno, hcount, rfl⟩ := h
  obtain ⟨bs, more, hlen, hrx, -⟩ := fills hrun hno hle
  have ht : t.rx.length = min serialBuffer (s.rx.length + bs.length) := by
    rw [hrx, List.length_take, List.length_append]
  have hget := t.length_getData
  omega

/-- A byte that is left of a packet that was cut. -/
theorem Round.byte {b : Byte} {front more : List Byte} (h : s.Round s')
    (hle : s.rx.length ≤ serialBuffer) (hline : s.rx ++ s.wire = b :: front ++ more)
    (hb : b ≠ packetMagic) (hfront : front.length < packetSize) :
    (∃ more', s'.rx ++ s'.wire = front ++ more') ∧
      min serialBuffer (s.rx.length + (packetSize + 1)) ≤ s'.rx.length + 1 := by
  obtain ⟨es, t, hrun, hno, hcount, rfl⟩ := h
  obtain ⟨bs, more', hlen, hrx, hwire⟩ := fills hrun hno hle
  -- all that is left has come
  have hpre : b :: front <+: s.rx ++ bs := by
    have hfirst : b :: front <+: s.rx ++ bs ++ t.wire := by
      rw [List.append_assoc, ← hwire, ← List.append_assoc, hline, List.append_assoc]
      exact List.prefix_append _ _
    refine List.prefix_of_prefix_length_le hfirst (List.prefix_append _ _) ?_
    rw [List.length_append, List.length_cons]
    omega
  obtain ⟨l, hl⟩ := hpre
  have ht : t.rx = b :: (front ++ l.take (serialBuffer - (front.length + 1))) := by
    rw [hrx, ← hl, List.take_append, List.take_of_length_le (by
      rw [List.length_cons]
      have hcap : packetSize ≤ serialBuffer := by decide
      omega)]
    rfl
  have htlen : t.rx.length = min serialBuffer (s.rx.length + bs.length) := by
    rw [hrx, List.length_take, List.length_append]
  have hget : t.getData.rx = front ++ l.take (serialBuffer - (front.length + 1)) := by
    rw [getData_byte ht fun heq => absurd heq hb]
  refine ⟨⟨l.take (serialBuffer - (front.length + 1)) ++ t.getData.wire, ?_⟩, ?_⟩
  · rw [hget, List.append_assoc]
  · rw [hget]
    rw [ht, List.length_cons] at htlen
    omega

/-- The calls that take the rest of the packet, one byte each. -/
theorem Rounds.bytes {p : Packet} {more : List Byte} (hp : packetMagic ∉ p.data)
    (hle : s.rx.length ≤ serialBuffer) (hline : s.rx ++ s.wire = p.data ++ more) {n : ℕ}
    (hn : n ≤ packetSize) (h : Rounds n s s') :
    (∃ more', s'.rx ++ s'.wire = p.data.drop n ++ more') ∧ s'.rx.length ≤ serialBuffer ∧
      min (serialBuffer - 1) (packetSize * n) ≤ s'.rx.length := by
  induction n generalizing s' with
  | zero =>
    obtain rfl : s' = s := h
    exact ⟨⟨more, hline⟩, hle, by simp⟩
  | succ n ih =>
    obtain ⟨t, ht, hround⟩ := h
    obtain ⟨⟨more', hmore⟩, htle, hlen⟩ := ih (by omega) ht
    have hlt : n < p.data.length := by
      rw [p.length_data]
      omega
    rw [List.drop_eq_getElem_cons hlt] at hmore
    have hb : p.data[n] ≠ packetMagic := fun heq => hp (heq ▸ List.getElem_mem hlt)
    have hfront : (p.data.drop (n + 1)).length < packetSize := by
      rw [List.length_drop, p.length_data]
      omega
    obtain ⟨hline', hmin⟩ := hround.byte htle hmore hb hfront
    refine ⟨hline', (hround.length htle).2, ?_⟩
    rw [Nat.mul_succ]
    omega

/-- **A backlog is never made up.**  If a packet without a byte `PACKET_MAGIC` is cut once, and from
then on the bytes of a packet come between two calls of `getData`, as they do when both tasks have
the same period, then from the sixth call on a whole buffer but one packet is left after each
call. -/
theorem never_made_up {p : Packet} {more : List Byte}
    (hline : s.rx ++ s.wire = p.frame ++ more) (hp : packetMagic ∉ p.data) (hsome : s.rx ≠ [])
    (hcut : s.rx.length ≤ packetSize) {n : ℕ} (hn : 6 ≤ n) (h : Rounds n s.getData s') :
    serialBuffer - (packetSize + 1) ≤ s'.rx.length := by
  obtain ⟨r, rx, hrx⟩ := List.exists_cons_of_ne_nil hsome
  rw [hrx, List.cons_append] at hline
  obtain ⟨rfl, htail⟩ := List.cons.inj hline
  have hshort : rx.length < packetSize := by
    rw [hrx, List.length_cons] at hcut
    omega
  have hget : s.getData.rx = rx ∧ s.getData.wire = s.wire := by
    rw [getData_byte hrx fun _ => hshort]
    exact ⟨rfl, rfl⟩
  have hle : s.getData.rx.length ≤ serialBuffer := by
    have hcap : packetSize ≤ serialBuffer := by decide
    rw [hget.1]
    omega
  have hstart : s.getData.rx ++ s.getData.wire = p.data ++ more := by
    rw [hget.1, hget.2]
    exact htail
  suffices hall : s'.rx.length ≤ serialBuffer ∧
      serialBuffer - (packetSize + 1) ≤ s'.rx.length from hall.2
  induction n, hn using Nat.le_induction generalizing s' with
  | base =>
    obtain ⟨-, hcap, hmin⟩ := Rounds.bytes hp hle hstart (by decide) h
    exact ⟨hcap, le_trans (by decide) hmin⟩
  | succ n _ ih =>
    obtain ⟨t, ht, hround⟩ := h
    obtain ⟨htcap, hbehind⟩ := ih ht
    obtain ⟨hmin, hcap⟩ := hround.length htcap
    exact ⟨hcap, by omega⟩

/-- In each round a packet is sent. -/
def keepUp : List Event := .sendPacket true :: List.replicate (packetSize + 1) .arrive

def rounds : ℕ → Sketches → Option Sketches
  | 0, s => some s
  | n + 1, s => (rounds n s).bind fun t => (Run.exec advance t keepUp).map getData

theorem rounds_of_exec {n : ℕ} (h : rounds n s = some s') : Rounds n s s' := by
  induction n generalizing s' with
  | zero => exact (Option.some.inj h).symm
  | succ n ih =>
    obtain ⟨t, ht, hlast⟩ := Option.bind_eq_some_iff.1 h
    obtain ⟨u, hu, heq⟩ := Option.map_eq_some_iff.1 hlast
    exact ⟨t, ih ht, keepUp, u, Run.of_exec hu, by decide, by decide, heq.symm⟩

/-- The first packet was sent, and its first byte has arrived. -/
def begun : Sketches where
  wire := Packet.initial.data
  rx := [packetMagic]
  sent := [.initial]

theorem begun_line : begun.rx ++ begun.wire = Packet.initial.frame ++ [] := rfl

theorem never_made_up_begun : Run.exec advance {} [.sendPacket true, .arrive] = some begun ∧
    ∃ s ∈ rounds 6 begun.getData, serialBuffer - (packetSize + 1) ≤ s.rx.length :=
  ⟨rfl, exists_mem_of_isSome (by decide +kernel) fun _ hs =>
    never_made_up begun_line (by decide) (List.cons_ne_nil _ _) (by decide) (Nat.le_refl _)
      (rounds_of_exec hs)⟩

/-! ### What the robot is told -/

/-- The elements of a list that differ from the one before. -/
def changes : Command → List Command → List Command
  | _, [] => []
  | c, d :: l => if d = c then changes c l else d :: changes d l

theorem changes_append (c d : Command) (l : List Command) : changes c (l ++ [d]) =
    changes c l ++ if d = l.getLastD c then [] else [d] := by
  induction l generalizing c with
  | nil => rfl
  | cons b l ih =>
    rw [List.cons_append, changes, changes, List.getLastD_cons]
    by_cases hb : b = c
    · rw [if_pos hb, if_pos hb, ih, hb]
    · rw [if_neg hb, if_neg hb, ih, List.cons_append]

theorem changes_subset (c : Command) (l : List Command) : changes c l ⊆ l := by
  induction l generalizing c with
  | nil => exact List.Subset.refl _
  | cons b l ih =>
    rw [changes]
    split_ifs
    · exact List.subset_cons_of_subset b (ih c)
    · exact List.cons_subset_cons b (ih b)

/-- Only a pressed stick makes the robot dock. -/
theorem pressed_of_dock {p : Packet} (h : chooseCommand p = .dock) : p.joy2SW = high := by
  by_contra hne
  simp only [chooseCommand, if_neg hne] at h
  split_ifs at h

/-- What was told and what was received go together. -/
structure Tells (s : Sketches) : Prop where
  last : s.lastCommand = s.chosen.getLastD .stop
  told : s.told = changes .stop s.chosen
  robot : s.robot = s.told.flatMap Command.sends
  latest : s.packet ∈ Packet.initial :: s.got
  chosen : ∀ c ∈ s.chosen, ∃ p ∈ Packet.initial :: s.got, c = chooseCommand p

theorem Tells.initial : Tells {} :=
  ⟨rfl, rfl, rfl, List.mem_singleton_self _, fun _ hc => absurd hc List.not_mem_nil⟩

theorem Tells.getData (h : s.Tells) : s.getData.Tells := by
  cases hrx : s.rx with
  | nil =>
    rw [getData_nil hrx]
    exact h
  | cons r rx =>
    by_cases hall : r = packetMagic ∧ packetSize ≤ rx.length
    · obtain ⟨hr, hlen⟩ := hall
      rw [hr] at hrx
      rw [getData_whole hrx hlen]
      refine ⟨h.last, h.told, h.robot, ?_, fun c hc => ?_⟩
      · exact List.mem_cons_of_mem _ (List.mem_append_right _ (List.mem_singleton_self _))
      · obtain ⟨p, hp, hcp⟩ := h.chosen c hc
        exact ⟨p, List.cons_subset_cons _ (List.subset_append_left _ _) hp, hcp⟩
    · rw [getData_byte hrx fun hr => not_le.1 fun hlen => hall ⟨hr, hlen⟩]
      exact ⟨h.last, h.told, h.robot, h.latest, h.chosen⟩

theorem Tells.commandRoomba (h : s.Tells) : s.commandRoomba.Tells := by
  have hchosen : ∀ c ∈ s.chosen ++ [chooseCommand s.packet],
      ∃ p ∈ Packet.initial :: s.got, c = chooseCommand p := by
    intro c hc
    rcases List.mem_append.1 hc with hc | hc
    · exact h.chosen c hc
    · exact ⟨s.packet, h.latest, List.mem_singleton.1 hc⟩
  have hlast : (s.chosen ++ [chooseCommand s.packet]).getLastD .stop = chooseCommand s.packet :=
    List.getLastD_concat
  unfold Sketches.commandRoomba
  dsimp only
  split_ifs with hsame
  · refine ⟨?_, ?_, h.robot, h.latest, hchosen⟩
    · rw [hlast, ← hsame]
    · rw [changes_append, if_pos (hsame.trans h.last), List.append_nil]
      exact h.told
  · refine ⟨hlast.symm, ?_, ?_, h.latest, hchosen⟩
    · rw [changes_append, if_neg fun heq => hsame (heq.trans h.last.symm), h.told]
    · rw [List.flatMap_append, h.robot, List.flatMap_singleton]

theorem Tells.step (h : s.Tells) (hs : s.Step e s') : s'.Tells := by
  cases e with
  | updatePacket r =>
    obtain rfl := Option.some.inj hs
    exact ⟨h.last, h.told, h.robot, h.latest, h.chosen⟩
  | sendPacket availableForWrite =>
    obtain rfl := Option.some.inj hs
    cases availableForWrite with
    | false => exact h
    | true => exact ⟨h.last, h.told, h.robot, h.latest, h.chosen⟩
  | arrive =>
    cases hwire : s.wire with
    | nil =>
      simp only [Step, advance, hwire] at hs
      cases hs
    | cons b wire =>
      simp only [Step, advance, hwire] at hs
      obtain rfl := Option.some.inj hs
      exact ⟨h.last, h.told, h.robot, h.latest, h.chosen⟩
  | key b =>
    obtain rfl := Option.some.inj hs
    exact ⟨h.last, h.told, h.robot, h.latest, h.chosen⟩
  | getData =>
    obtain rfl := Option.some.inj hs
    exact h.getData
  | commandRoomba =>
    obtain rfl := Option.some.inj hs
    exact h.commandRoomba

/-- **What the robot is told.**  In every run from power-on, whatever bytes are lost, the commands
told are the changes among those chosen, each of which is chosen for a packet that was received or
for the one at the start; as long as no packet says `HIGH` the robot is never told to dock, and
recognizes what it is told, command by command. -/
theorem told_changes (hrun : Run Step {} es s) :
    s.told = changes .stop s.chosen ∧
      (∀ c ∈ s.chosen, ∃ p ∈ Packet.initial :: s.got, c = chooseCommand p) ∧
      ((∀ p ∈ s.got, p.joy2SW ≠ high) → .dock ∉ s.chosen ∧
        Streaming.decode RoombaRtos.Roomba.complete [] s.robot =
          (s.told.map Command.action, [])) := by
  have h : s.Tells := hrun.invariant (P := Tells) Tells.initial fun _ _ _ ht hs => ht.step hs
  refine ⟨h.told, h.chosen, fun hlow => ?_⟩
  have hno : .dock ∉ s.chosen := by
    intro hmem
    obtain ⟨p, hp, hdock⟩ := h.chosen _ hmem
    have hsw := pressed_of_dock hdock.symm
    rcases List.mem_cons.1 hp with rfl | hp
    · exact absurd hsw (by decide)
    · exact hlow p hp hsw
  have hplain : ∀ c ∈ s.told, c ≠ .dock := by
    intro c hc heq
    rw [h.told] at hc
    exact hno (heq ▸ changes_subset _ _ hc)
  have hrobot : s.robot = (s.told.map Command.action).flatMap RoombaRtos.Roomba.encode := by
    rw [h.robot, List.flatMap_map]
    refine List.flatMap_congr fun c hc => ?_
    exact (Command.encode_action (hplain c hc)).symm
  refine ⟨hno, ?_⟩
  rw [hrobot]
  refine Streaming.decode_flatMap fun a ha => ?_
  obtain ⟨c, -, rfl⟩ := List.mem_map.1 ha
  exact RoombaRtos.Roomba.framed _ c.short_action

/-- Both sticks are pressed. -/
theorem told_changes_pressed : ∃ s ∈ Run.exec advance {} cutAndNext,
    s.told = changes .stop s.chosen ∧
      (∀ c ∈ s.chosen, ∃ p ∈ Packet.initial :: s.got, c = chooseCommand p) ∧
      ((∀ p ∈ s.got, p.joy2SW ≠ high) → .dock ∉ s.chosen ∧
        Streaming.decode RoombaRtos.Roomba.complete [] s.robot =
          (s.told.map Command.action, [])) :=
  exists_mem_of_isSome (by decide +kernel) fun _ hs => told_changes (Run.of_exec hs)

end Sketches

end RoombaRtos.Project1
