import RoombaRtos.Lib.Streaming
import RoombaRtos.Packet

/-!
# The serial line of the robot

What the functions of `Roomba/Roomba.cpp` send with `issue_cmd`, and which commands that is.

* `Roomba.init`, `Roomba.directDrive`, `Roomba.setSong`, … — the bytes that each function sends;
* `Roomba.complete` — a command is recognized by its code and the number of its arguments;
* `Roomba.decode_calls` — whatever functions are called, what they send is what was meant.

A function that sends is not interrupted here by another one.
-/

namespace RoombaRtos

namespace Roomba

/-- `OI_COMMAND`, as far as it is used. -/
inductive OiCommand
  | startSci
  | baud
  | safe
  | full
  | power
  | drive
  | leds
  | song
  | play
  | sensors
  | dock
  | directDrive
  | stopSci
deriving DecidableEq, Repr

def OiCommand.code : OiCommand → Byte
  | .startSci => 128
  | .baud => 129
  | .safe => 131
  | .full => 132
  | .power => 133
  | .drive => 137
  | .leds => 139
  | .song => 140
  | .play => 141
  | .sensors => 142
  | .dock => 143
  | .directDrive => 145
  | .stopSci => 173

/-- `OI_SENSOR_ARGS`, as far as it is used. -/
inductive OiSensorArgs
  | bumpers
  | virtualWall
  | batteryCharge
  | batteryCapacity
  | oiMode
  | lightBumper
deriving DecidableEq, Repr

def OiSensorArgs.code : OiSensorArgs → Byte
  | .bumpers => 7
  | .virtualWall => 13
  | .batteryCharge => 25
  | .batteryCapacity => 26
  | .oiMode => 35
  | .lightBumper => 45

/-- `OI_BAUD_ARGS::BPS_57600`. -/
def bps57600 : Byte := 10

/-- `OI_MODE_TYPE`. -/
inductive OiModeType
  | passiveMode
  | safeMode
  | fullMode
deriving DecidableEq, Repr

/-! ### What is sent -/

/-- The request of `check_sensor`. -/
def checkSensor (sensor : OiSensorArgs) : List Byte := [OiCommand.sensors.code, sensor.code]

def checkPower : List Byte := checkSensor .batteryCharge

def checkPowerCapacity : List Byte := checkSensor .batteryCapacity

def checkOiMode : List Byte := checkSensor .oiMode

def checkLightBumper : List Byte := checkSensor .lightBumper

def checkVirtualWall : List Byte := checkSensor .virtualWall

def checkLeftBumper : List Byte := checkSensor .bumpers

def checkRightBumper : List Byte := checkSensor .bumpers

/-- `init`, where the robot answers the first request if `gotMode`, and the second if `gotPower`. -/
def init (gotMode gotPower : Bool) : List Byte :=
  [OiCommand.startSci.code] ++ [OiCommand.baud.code, bps57600] ++ checkOiMode ++
    if gotMode then checkPower ++ if gotPower then checkPowerCapacity else [] else []

def setSong (songNumber songLength : Byte) (song : ℕ → Byte) : List Byte :=
  [OiCommand.song.code, songNumber, songLength] ++
    (List.range songLength.toNat).flatMap fun i => [song (2 * i + 0), song (2 * i + 1)]

def playSong (songNumber : Byte) : List Byte := [OiCommand.play.code, songNumber]

def drive (velocity radius : BitVec 16) : List Byte :=
  [OiCommand.drive.code, highByte velocity, lowByte velocity, highByte radius, lowByte radius]

def directDrive (leftSpeed rightSpeed : BitVec 16) : List Byte :=
  [OiCommand.directDrive.code, highByte rightSpeed, lowByte rightSpeed, highByte leftSpeed,
    lowByte leftSpeed]

def stop : List Byte := drive 0 0

def dock : List Byte := [OiCommand.dock.code]

def sing (songnum : Byte) : List Byte := [OiCommand.play.code, songnum]

def leds (leds powerLedColour powerLedIntensity : Byte) : List Byte :=
  [OiCommand.leds.code, leds, powerLedColour, powerLedIntensity]

def setMode : OiModeType → List Byte
  | .passiveMode => [OiCommand.startSci.code]
  | .safeMode => [OiCommand.safe.code]
  | .fullMode => [OiCommand.full.code]

def powerOff : List Byte := [OiCommand.power.code] ++ [OiCommand.stopSci.code]

/-! ### What is understood -/

/-- The commands with their arguments. -/
inductive Action
  | start
  | baud (rate : Byte)
  | safe
  | full
  | power
  | drive (velocity radius : BitVec 16)
  | leds (mask colour intensity : Byte)
  | song (number : Byte) (notes : List (Byte × Byte))
  | play (number : Byte)
  | sensors (sensor : Byte)
  | dock
  | directDrive (right left : BitVec 16)
  | stop
deriving DecidableEq, Repr

def OiCommand.all : List OiCommand :=
  [.startSci, .baud, .safe, .full, .power, .drive, .leds, .song, .play, .sensors, .dock,
    .directDrive, .stopSci]

def OiCommand.ofCode (b : Byte) : Option OiCommand := OiCommand.all.find? fun c => c.code = b

@[simp] theorem OiCommand.ofCode_code (c : OiCommand) : OiCommand.ofCode c.code = some c := by
  cases c <;> rfl

def pairs : List Byte → List (Byte × Byte)
  | note :: duration :: rest => (note, duration) :: pairs rest
  | _ => []

/-- A command that has got all of its arguments. -/
def OiCommand.action : OiCommand → List Byte → Option Action
  | .startSci, [] => some .start
  | .baud, [rate] => some (.baud rate)
  | .safe, [] => some .safe
  | .full, [] => some .full
  | .power, [] => some .power
  | .drive, [vh, vl, rh, rl] => some (.drive (to16bit vh vl) (to16bit rh rl))
  | .leds, [mask, colour, intensity] => some (.leds mask colour intensity)
  | .song, number :: length :: notes =>
      if notes.length = 2 * length.toNat then some (.song number (pairs notes)) else none
  | .play, [number] => some (.play number)
  | .sensors, [sensor] => some (.sensors sensor)
  | .dock, [] => some .dock
  | .directDrive, [rh, rl, lh, ll] => some (.directDrive (to16bit rh rl) (to16bit lh ll))
  | .stopSci, [] => some .stop
  | _, _ => none

def complete : List Byte → Option Action
  | [] => none
  | b :: args => (OiCommand.ofCode b).bind fun c => c.action args

/-- The bytes of a command. -/
def encode : Action → List Byte
  | .start => [OiCommand.startSci.code]
  | .baud rate => [OiCommand.baud.code, rate]
  | .safe => [OiCommand.safe.code]
  | .full => [OiCommand.full.code]
  | .power => [OiCommand.power.code]
  | .drive velocity radius => Roomba.drive velocity radius
  | .leds mask colour intensity => Roomba.leds mask colour intensity
  | .song number notes => [OiCommand.song.code, number, BitVec.ofNat 8 notes.length] ++
      notes.flatMap fun n => [n.1, n.2]
  | .play number => Roomba.playSong number
  | .sensors sensor => [OiCommand.sensors.code, sensor]
  | .dock => Roomba.dock
  | .directDrive right left => Roomba.directDrive left right
  | .stop => [OiCommand.stopSci.code]

/-- The length of a song is sent as a byte. -/
def Action.Short : Action → Prop
  | .song _ notes => notes.length < 256
  | _ => True

theorem pairs_flatMap (notes : List (Byte × Byte)) :
    pairs (notes.flatMap fun n => [n.1, n.2]) = notes := by
  induction notes with
  | nil => rfl
  | cons n notes ih => simp [pairs, ih]

theorem length_notes (notes : List (Byte × Byte)) :
    (notes.flatMap fun n => [n.1, n.2]).length = 2 * notes.length := by
  induction notes with
  | nil => rfl
  | cons n notes ih =>
    simp only [List.flatMap_cons, List.length_append, ih, List.length_cons, List.length_nil]
    omega

/-- The number of the arguments, apart from songs. -/
def OiCommand.arity : OiCommand → ℕ
  | .baud => 1
  | .drive => 4
  | .leds => 3
  | .play => 1
  | .sensors => 1
  | .directDrive => 4
  | _ => 0

theorem OiCommand.action_eq_none {c : OiCommand} (hc : c ≠ .song) {args : List Byte}
    (h : args.length ≠ c.arity) : c.action args = none := by
  rcases args with _ | ⟨a₁, _ | ⟨a₂, _ | ⟨a₃, _ | ⟨a₄, _ | ⟨a₅, l⟩⟩⟩⟩⟩ <;> cases c <;>
    first | rfl | exact absurd rfl h | exact absurd rfl hc

theorem OiCommand.action_song (number length : Byte) (notes : List Byte) :
    OiCommand.action .song (number :: length :: notes) =
      if notes.length = 2 * length.toNat then some (.song number (pairs notes)) else none := rfl

theorem complete_code (c : OiCommand) (args : List Byte) :
    complete (c.code :: args) = c.action args := by
  rw [complete, OiCommand.ofCode_code, Option.bind_some]

/-- A command is recognized by its last argument if less arguments are not enough. -/
theorem framed_of {a : Action} {c : OiCommand} {args : List Byte}
    (he : encode a = c.code :: args) (hw : c.action args = some a)
    (hearly : ∀ p, p <+: args → p.length < args.length → c.action p = none) :
    Streaming.Framed complete encode a := by
  refine ⟨?_, ?_, fun p hp hne => ?_⟩
  · rw [he]
    exact List.cons_ne_nil _ _
  · rw [he, complete_code, hw]
  · rw [he] at hp hne
    cases p with
    | nil => rfl
    | cons b p =>
      obtain ⟨rfl, hp'⟩ := List.cons_prefix_cons.1 hp
      have hlt : p.length < args.length := by
        refine lt_of_le_of_ne hp'.length_le fun hlen => hne ?_
        rw [hp'.eq_of_length hlen]
      rw [complete_code, hearly p hp' hlt]

/-- Commands with a fixed number of arguments. -/
theorem framed_of_arity {a : Action} {c : OiCommand} {args : List Byte}
    (he : encode a = c.code :: args) (hw : c.action args = some a) (hc : c ≠ .song)
    (hargs : args.length = c.arity) : Streaming.Framed complete encode a :=
  framed_of he hw fun _ _ hlt => OiCommand.action_eq_none hc (hargs ▸ hlt.ne)

/-- **The robot recognizes each command when it is complete.** -/
theorem framed (a : Action) (ha : a.Short) : Streaming.Framed complete encode a := by
  cases a with
  | start => exact framed_of_arity (c := .startSci) rfl rfl (by decide) rfl
  | baud rate => exact framed_of_arity (c := .baud) rfl rfl (by decide) rfl
  | safe => exact framed_of_arity (c := .safe) rfl rfl (by decide) rfl
  | full => exact framed_of_arity (c := .full) rfl rfl (by decide) rfl
  | power => exact framed_of_arity (c := .power) rfl rfl (by decide) rfl
  | drive velocity radius =>
    have he : encode (.drive velocity radius) = OiCommand.drive.code ::
        [highByte velocity, lowByte velocity, highByte radius, lowByte radius] := rfl
    refine framed_of_arity he ?_ (by decide) rfl
    show some (Action.drive (to16bit _ _) (to16bit _ _)) = _
    rw [to16bit_bytes, to16bit_bytes]
  | leds mask colour intensity => exact framed_of_arity (c := .leds) rfl rfl (by decide) rfl
  | play number => exact framed_of_arity (c := .play) rfl rfl (by decide) rfl
  | sensors sensor => exact framed_of_arity (c := .sensors) rfl rfl (by decide) rfl
  | dock => exact framed_of_arity (c := .dock) rfl rfl (by decide) rfl
  | directDrive right left =>
    have he : encode (.directDrive right left) = OiCommand.directDrive.code ::
        [highByte right, lowByte right, highByte left, lowByte left] := rfl
    refine framed_of_arity he ?_ (by decide) rfl
    show some (Action.directDrive (to16bit _ _) (to16bit _ _)) = _
    rw [to16bit_bytes, to16bit_bytes]
  | stop => exact framed_of_arity (c := .stopSci) rfl rfl (by decide) rfl
  | song number notes =>
    have hlen : (BitVec.ofNat 8 notes.length).toNat = notes.length := by
      rw [BitVec.toNat_ofNat]
      exact Nat.mod_eq_of_lt ha
    have he : encode (.song number notes) = OiCommand.song.code :: number ::
        BitVec.ofNat 8 notes.length :: notes.flatMap fun n => [n.1, n.2] := rfl
    refine framed_of he ?_ fun p hp hlt => ?_
    · rw [OiCommand.action_song, if_pos (by rw [length_notes, hlen]), pairs_flatMap]
    · match p with
      | [] => rfl
      | [_] => rfl
      | number' :: length' :: p =>
        -- the length has arrived, and some of the notes have not
        obtain ⟨-, hp⟩ := List.cons_prefix_cons.1 hp
        obtain ⟨rfl, -⟩ := List.cons_prefix_cons.1 hp
        rw [OiCommand.action_song, if_neg]
        rw [hlen, ← length_notes]
        simp only [List.length_cons] at hlt
        omega

/-! ### The functions -/

/-- The functions that send something. -/
inductive Call
  | init (gotMode gotPower : Bool)
  | checkPower
  | checkPowerCapacity
  | checkOiMode
  | checkLightBumper
  | checkVirtualWall
  | checkLeftBumper
  | checkRightBumper
  | setSong (songNumber songLength : Byte) (song : ℕ → Byte)
  | playSong (songNumber : Byte)
  | drive (velocity radius : BitVec 16)
  | directDrive (leftSpeed rightSpeed : BitVec 16)
  | stop
  | dock
  | sing (songnum : Byte)
  | leds (mask powerLedColour powerLedIntensity : Byte)
  | setMode (mode : OiModeType)
  | powerOff

def Call.sends : Call → List Byte
  | .init gotMode gotPower => Roomba.init gotMode gotPower
  | .checkPower => Roomba.checkPower
  | .checkPowerCapacity => Roomba.checkPowerCapacity
  | .checkOiMode => Roomba.checkOiMode
  | .checkLightBumper => Roomba.checkLightBumper
  | .checkVirtualWall => Roomba.checkVirtualWall
  | .checkLeftBumper => Roomba.checkLeftBumper
  | .checkRightBumper => Roomba.checkRightBumper
  | .setSong songNumber songLength song => Roomba.setSong songNumber songLength song
  | .playSong songNumber => Roomba.playSong songNumber
  | .drive velocity radius => Roomba.drive velocity radius
  | .directDrive leftSpeed rightSpeed => Roomba.directDrive leftSpeed rightSpeed
  | .stop => Roomba.stop
  | .dock => Roomba.dock
  | .sing songnum => Roomba.sing songnum
  | .leds mask colour intensity => Roomba.leds mask colour intensity
  | .setMode mode => Roomba.setMode mode
  | .powerOff => Roomba.powerOff

/-- The request for a sensor. -/
def ask (sensor : OiSensorArgs) : Action := .sensors sensor.code

/-- The first notes of a song. -/
def notes (length : ℕ) (song : ℕ → Byte) : List (Byte × Byte) :=
  (List.range length).map fun i => (song (2 * i), song (2 * i + 1))

/-- What each function is for. -/
def Call.means : Call → List Action
  | .init gotMode gotPower => [.start, .baud bps57600, ask .oiMode] ++
      if gotMode then ask .batteryCharge :: if gotPower then [ask .batteryCapacity] else [] else []
  | .checkPower => [ask .batteryCharge]
  | .checkPowerCapacity => [ask .batteryCapacity]
  | .checkOiMode => [ask .oiMode]
  | .checkLightBumper => [ask .lightBumper]
  | .checkVirtualWall => [ask .virtualWall]
  | .checkLeftBumper => [ask .bumpers]
  | .checkRightBumper => [ask .bumpers]
  | .setSong songNumber songLength song => [.song songNumber (notes songLength.toNat song)]
  | .playSong songNumber => [.play songNumber]
  | .drive velocity radius => [.drive velocity radius]
  | .directDrive leftSpeed rightSpeed => [.directDrive rightSpeed leftSpeed]
  | .stop => [.drive 0 0]
  | .dock => [.dock]
  | .sing songnum => [.play songnum]
  | .leds mask colour intensity => [.leds mask colour intensity]
  | .setMode .passiveMode => [.start]
  | .setMode .safeMode => [.safe]
  | .setMode .fullMode => [.full]
  | .powerOff => [.power, .stop]

/-- Only `set_song` sends songs. -/
theorem Call.means_song {c : Call} {number : Byte} {l : List (Byte × Byte)}
    (h : .song number l ∈ c.means) : l.length < 256 := by
  cases c with
  | setSong songNumber songLength song =>
    obtain ⟨-, rfl⟩ := Action.song.inj (List.mem_singleton.1 h)
    rw [notes, List.length_map, List.length_range]
    exact songLength.isLt
  | init gotMode gotPower => cases gotMode <;> cases gotPower <;> simp [means, ask] at h
  | setMode mode => cases mode <;> simp [means] at h
  | _ => simp [means, ask] at h

theorem Call.short (c : Call) : ∀ a ∈ c.means, a.Short := by
  intro a ha
  cases a with
  | song number l => exact means_song ha
  | _ => exact trivial

theorem Call.sends_eq (c : Call) : c.sends = c.means.flatMap encode := by
  cases c with
  | init gotMode gotPower => cases gotMode <;> cases gotPower <;> rfl
  | setSong songNumber songLength song =>
    have hlen : (notes songLength.toNat song).length = songLength.toNat := by
      rw [notes, List.length_map, List.length_range]
    show Roomba.setSong _ _ _ = _
    rw [means, List.flatMap_singleton, encode, hlen, BitVec.ofNat_toNat, BitVec.setWidth_eq, notes,
      List.flatMap_map]
    rfl
  | setMode mode => cases mode <;> rfl
  | _ => rfl

/-- **The robot gets what was meant.**  Whatever functions are called, the bytes they send are, one
after the other, the commands that they stand for. -/
theorem decode_calls (cs : List Call) :
    Streaming.decode complete [] (cs.flatMap Call.sends) = (cs.flatMap Call.means, []) := by
  have hsends : cs.flatMap Call.sends = (cs.flatMap Call.means).flatMap encode := by
    rw [List.flatMap_assoc]
    exact List.flatMap_congr fun c _ => c.sends_eq
  rw [hsends]
  refine Streaming.decode_flatMap fun a ha => framed a ?_
  obtain ⟨c, -, hc⟩ := List.mem_flatMap.1 ha
  exact c.short a hc

end Roomba

end RoombaRtos
