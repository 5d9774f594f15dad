import RoombaRtos.Lib.Interleaving
import RoombaRtos.Answers
import RoombaRtos.Game

/-!
# The tasks of the remote station

The tasks of `remote/user.cpp` as programs that the kernel can preempt anywhere: each byte that is
sent or read, each use of a variable and each call of the kernel is an action by itself.

* `Roomba.Serial` — the serial line of the robot, and programs that use it;
* `Remote` — what the tasks share;
* `Remote.commandRoomba`, `Remote.lightSensorRead`, … — the tasks, from one call of `Task_Next` to
  the next;
* `Remote.system` — the tasks that are alive, in any order, and bytes that arrive at any time;
* `Remote.exec_program` — a task that is not preempted does what it does in the game.

The kernel does not allow all of these orders.  `numLaserTicks`, which has four bytes, is read and
written as a whole.
-/

namespace RoombaRtos

open Lockstep Interleaving

namespace Roomba

/-- The port of the robot, and what was given to `UART_Transmit`, oldest first. -/
structure Serial (τ : Type) where
  port : Port τ
  line : List Byte := []

namespace Serial

variable {τ α : Type} (w : Peer τ) (fuel : ℕ)

/-- A function of the port that is not interrupted. -/
def atPort (f : Port τ → Except Halt (α × Port τ)) : Prog Halt (Serial τ) α :=
  .call fun s => do
    let (a, port) ← f s.port
    return (a, { s with port := port })

def tryRead : Prog Halt (Serial τ) (Option Byte) := atPort fun p => p.tryRead w

def flushData : ℕ → Prog Halt (Serial τ) Unit
  | 0 => .halt .diverges
  | fuel + 1 => do
      let byte ← tryRead w
      if byte.isSome then flushData fuel else pure ()

def issueCmd (val : Byte) : Prog Halt (Serial τ) Unit :=
  .call fun s => do
    let port ← s.port.issueCmd w val
    return ((), ⟨port, s.line ++ [val]⟩)

def issue : List Byte → Prog Halt (Serial τ) Unit
  | [] => pure ()
  | b :: bs => do
      issueCmd w b
      issue bs

def startSerial (baud : BitVec 32) : Prog Halt (Serial τ) Unit :=
  atPort fun p => do
    let uart ← p.uart.uartInit p.uartChannel baud
    return ((), { p with uart := uart })

/-- `_delay_ms(50)`. -/
def delay : Prog Halt (Serial τ) Unit :=
  atPort fun p => do
    let p ← p.arrive (w.wait p.peer)
    return ((), p)

/-- What `check_sensor` makes of what has come in. -/
def answer (nbytes : Byte) : Prog Halt (Serial τ) (Option Word) := do
  let databyteHigh ← tryRead w
  match databyteHigh with
  | none => return none
  | some high =>
      if nbytes > 1 then do
        let databyteLow ← tryRead w
        return databyteLow.map (to16bit high)
      else return some (high.setWidth 16)

def checkSensor (sensor : OiSensorArgs) (nbytes : Byte) : Prog Halt (Serial τ) (Option Word) := do
  flushData w fuel
  issue w (Roomba.checkSensor sensor)
  delay w
  answer w nbytes

end Serial

end Roomba

open Roomba (Serial Query Reading Action Call)

/-- What the tasks of the remote station share. -/
structure Remote (τ : Type) where
  game : Game
  serial : Serial τ
  /-- The commands and requests that were begun, oldest first. -/
  meant : List Action := []
  /-- The tasks that are in the middle of a command or a request. -/
  inside : List TaskFunction := []
  /-- What the functions that read have returned, oldest first. -/
  answers : List (Query × Reading) := []
  /-- How often `lightSensorRead` took one off `health`, since `health` was set. -/
  hits : ℕ := 0
  /-- `start_game` has set `game_on`, and not yet `health`. -/
  resetting : Bool := false

namespace Remote

variable {τ α : Type}

/-- The serial line as a part of the state. -/
def line : Part (Remote τ) (Serial τ) where
  get := Remote.serial
  put x s := { s with serial := x }
  get_put _ _ := rfl
  put_put _ _ _ := rfl
  put_get _ := rfl

abbrev Code (τ α : Type) := Prog Halt (Remote τ) α

section Programs

variable (w : Peer τ) (fuel : ℕ) (me : TaskFunction)

/-- A variable of the game. -/
def get (g : Game → α) : Code τ α := .read fun s => g s.game

def set (f : Game → Game) : Code τ Unit := .write fun s => { s with game := f s.game }

/-! ### The functions of the robot -/

def enter (l : List Action) : Code τ Unit :=
  .write fun s => { s with meant := s.meant ++ l, inside := me :: s.inside }

def leave (l : List (Query × Reading)) : Code τ Unit :=
  .write fun s => { s with inside := s.inside.erase me, answers := s.answers ++ l }

/-- One command or request. -/
def transact (l : List Action) (p : Prog Halt (Serial τ) α) (note : α → List (Query × Reading)) :
    Code τ α := do
  enter me l
  let a ← p.on line
  leave me (note a)
  return a

def command (l : List Action) (bs : List Byte) : Code τ Unit :=
  transact me l (Serial.issue w bs) fun _ => []

def call (c : Call) : Code τ Unit := command w me c.means c.sends

def check (q : Query) : Code τ (Option Word) :=
  transact me [Roomba.ask q.sensor] (Serial.checkSensor w fuel q.sensor q.nbytes) fun data =>
    [(q, q.reading data)]

def checkVirtualWall : Code τ Bool := do
  let data ← check w fuel me .virtualWall
  return data.getD 0 != 0

def checkLeftBumper : Code τ Bool := do
  let data ← check w fuel me .leftBumper
  return data.getD 0 &&& 0x02 != 0

def checkRightBumper : Code τ Bool := do
  let data ← check w fuel me .rightBumper
  return data.getD 0 &&& 0x01 != 0

/-- `init`, without its delays and what it logs; the game does not look at what it returns. -/
def init : Code τ Unit := do
  (Serial.startSerial 19200).on line
  command w me [.start] [Roomba.OiCommand.startSci.code]
  command w me [.baud Roomba.bps57600] [Roomba.OiCommand.baud.code, Roomba.bps57600]
  (Serial.startSerial 57600).on line
  let mode ← check w fuel me .oiMode
  if mode.isSome then
    let power ← check w fuel me .power
    if power.isSome then
      let _ ← check w fuel me .powerCapacity

/-- The function that the game calls to say something. -/
def function : RoombaCommand → Code τ Unit
  | .init => init w fuel me
  | .safeMode => call w me (.setMode .safeMode)
  | .setSong number l => call w me (.setSong number (BitVec.ofNat 8 l.length) fun i =>
      (l.flatMap fun n => [n.1, n.2]).getD i 0)
  | .playSong number => call w me (.playSong number)
  | .leds mask colour intensity => call w me (.leds mask colour intensity)
  | .directDrive left right =>
      call w me (.directDrive (BitVec.ofInt 16 left) (BitVec.ofInt 16 right))

def say (c : RoombaCommand) : Code τ Unit := do
  set fun s => s.tell [c]
  function w fuel me c

def tell : List RoombaCommand → Code τ Unit
  | [] => pure ()
  | c :: cs => do
      say w fuel me c
      tell cs

/-! ### The functions of the game -/

/-- `!game_on || dead`. -/
def canStart : Code τ Bool := do
  let gameOn ← get Game.gameOn
  if gameOn then get Game.dead else return true

def startGame : Code τ Unit := do
  let go ← canStart
  if go then
    tell w fuel me Game.loadSongs
    .write fun s => { s with game := { s.game with gameOn := true }, resetting := true }
    set fun s => { s with dead := false }
    set fun s => { s with numLaserTicks := laserTicks }
    .write fun s => { s with game := { s.game with health := 10 }, hits := 0, resetting := false }
    set fun s => { s with mode := stayMode }
    tell w fuel me [.playSong startSong, .leds 0 0 255]
    let startedBefore ← get Game.startedBefore
    if !startedBefore then
      set fun s => s.taskCreate .modeChange
      set fun s => { s with startedBefore := true }

def die : Code τ Unit := do
  let dead ← get Game.dead
  if !dead then
    set fun s => { s with dead := true }
    tell w fuel me [.leds 0 255 255, .playSong deadSong]

/-- `joy1X` and `joy1Y`, byte by byte. -/
def joy1 : Code τ (BitVec 16 × BitVec 16) := do
  let xh ← get fun s => highByte s.packet.joy1X
  let xl ← get fun s => lowByte s.packet.joy1X
  let yh ← get fun s => highByte s.packet.joy1Y
  let yl ← get fun s => lowByte s.packet.joy1Y
  return (to16bit xh xl, to16bit yh yl)

def userMove : Code τ Unit := do
  let (x, y) ← joy1
  let mode ← get Game.mode
  set fun s => { s with move := chooseUserMove (1023 - x) (1023 - y) mode }
  let move ← get Game.move
  if move.leftSpeed = 0 ∧ move.rightSpeed = 0 then
    let mode ← get Game.mode
    if mode = stayMode ∧ stupid then
      set fun s => { s with move := .forward 8 }

/-- `game_on && dead`. -/
def diedInGame : Code τ Bool := do
  let gameOn ← get Game.gameOn
  if gameOn then get Game.dead else return false

/-- What `choose_move` chooses when no move is continued. -/
def freshMove (r : Sensors) : Code τ Unit := do
  set fun s => { s with continueMove := -1 }
  set fun s => { s with move := .stop }
  -- do not move if dead
  let stop ← diedInGame
  if stop then pure ()
  else if r.virtualWall then set fun s => { s with move := .backward 50 }
  else if r.leftBumper && r.rightBumper then
    set fun s => { s with move := .backward 50 }
    set fun s => { s with continueMove := 4 }
  else if r.leftBumper then set fun s => { s with move := .spinRight 50 }
  else if r.rightBumper then set fun s => { s with move := .spinLeft 50 }
  else userMove

def sensors : Code τ Sensors := do
  let isWall ← checkVirtualWall w fuel me
  let isLeftb ← checkLeftBumper w fuel me
  let isRightb ← checkRightBumper w fuel me
  return ⟨isWall, isLeftb, isRightb⟩

/-- What `choose_move` does when it has asked the sensors. -/
def nextMove (r : Sensors) : Code τ Unit := do
  let continueMove ← get Game.continueMove
  if continueMove > 0 then
    let continueMove ← get Game.continueMove
    set fun s => { s with continueMove := continueMove - 1 }
  else freshMove r

def chooseMove : Code τ Unit := do
  let r ← sensors w fuel me
  nextMove r

/-! ### The tasks -/

def create : Code τ Unit := do
  set fun s => s.taskCreate .updateArm
  set fun s => s.taskCreate .tickArm
  set fun s => s.taskCreate .rxData
  set fun s => s.taskCreate .lightSensorRead
  set fun s => s.taskCreate .setupRoomba
  set fun s => s.taskTerminate .create

def setupRoomba : Code τ Unit := do
  tell w fuel .setupRoomba ([.init, .safeMode] ++ Game.loadSongs ++ [.playSong freeSong])
  set fun s => s.taskCreate .commandRoomba
  set fun s => s.taskTerminate .setupRoomba

/-- `packet.joy1SW() && numLaserTicks > 0`. -/
def fires : Code τ Bool := do
  let joy1SW ← get fun s => s.packet.joy1SW
  if joy1SW ≠ 0 then get fun s => decide (s.numLaserTicks > 0) else return false

/-- `TickArm`, apart from the arm. -/
def tickArm : Code τ Unit := do
  let fire ← fires
  if fire then
    set fun s => { s with laser := true }
    let gameOn ← get Game.gameOn
    if gameOn then
      let numLaserTicks ← get Game.numLaserTicks
      set fun s => { s with numLaserTicks := numLaserTicks - armTickPeriod }
  else set fun s => { s with laser := false }

def copy (p : Packet) : List (Fin packetSize) → Code τ Unit
  | [] => pure ()
  | i :: is => do
      set fun s => { s with packet := ⟨s.packet.data.set i p.data[i]⟩ }
      copy p is

/-- `RXData` accepts a packet. -/
def rxData (p : Packet) : Code τ Unit := copy p (List.finRange packetSize)

/-- `game_on && !dead && val > light_average + LIGHT_THRESHOLD`. -/
def struck (val : BitVec 16) : Code τ Bool := do
  let gameOn ← get Game.gameOn
  if gameOn then
    let dead ← get Game.dead
    if dead then return false
    else get fun s => decide (val > s.lightAverage + lightThreshold)
  else return false

/-- The light sensor was read. -/
def lightSensorRead (val : BitVec 16) : Code τ Unit := do
  let hit ← struck val
  if hit then
    let health ← get Game.health
    .write fun s => { s with game := { s.game with health := health - 1 }, hits := s.hits + 1 }
    let health ← get Game.health
    if health ≤ 0 then die w fuel .lightSensorRead
  else
    let lightAverage ← get Game.lightAverage
    set fun s => { s with
      lightAverage := BitVec.ofNat 16 ((val.toNat + lightAverage.toNat) / 2) }

/-- `commandRoomba` checks if the game should start. -/
def checkButton : Code τ Unit := do
  let joy2SW ← get fun s => s.packet.joy2SW
  if joy2SW ≠ 0 then
    let go ← canStart
    if go then startGame w fuel .commandRoomba

def drive : Code τ Unit := do
  let move ← get Game.move
  say w fuel .commandRoomba
    (.directDrive (roombaSpeed move.leftSpeed) (roombaSpeed move.rightSpeed))

def commandRoomba : Code τ Unit := do
  checkButton w fuel
  chooseMove w fuel .commandRoomba
  drive w fuel

def modeChange : Code τ Unit := do
  let dead ← get Game.dead
  if dead then set fun s => s.taskTerminate .modeChange
  else
    let mode ← get Game.mode
    set fun s => { s with mode := if mode = freeMode then stayMode else freeMode }
    say w fuel .modeChange (.playSong staySong)

end Programs

/-! ### Where the robot is told something -/

/-- Changes that include those that the functions of the robot make. -/
structure Serves (K : Remote τ → Remote τ → Prop) : Prop where
  enter : ∀ (s : Remote τ) l i, K s { s with meant := s.meant ++ l, inside := i }
  serial : ∀ s x, K s { s with serial := x }
  leave : ∀ (s : Remote τ) i l, K s { s with inside := i, answers := s.answers ++ l }

namespace Serves

variable {K : Remote τ → Remote τ → Prop} (h : Serves K) (w : Peer τ) (fuel : ℕ)
  (me : TaskFunction)

include h

theorem transact (l : List Action) (p : Prog Halt (Serial τ) α)
    (note : α → List (Query × Reading)) : (Remote.transact me l p note).Acts K :=
  .bind (.write fun s => h.enter s l _) fun _ =>
    .bind (.on (.any p) fun s x _ => h.serial s x) fun _ =>
    .bind (.write fun s => h.leave s _ _) fun _ => .pure _

theorem command (l : List Action) (bs : List Byte) : (Remote.command w me l bs).Acts K :=
  h.transact me _ _ _

theorem check (q : Query) : (Remote.check w fuel me q).Acts K := h.transact me _ _ _

theorem init : (Remote.init w fuel me).Acts K := by
  have hserial : ∀ baud, ((Serial.startSerial baud).on line).Acts K := fun baud =>
    .on (.any _) fun s x _ => h.serial s x
  refine .bind (hserial _) fun _ => .bind (h.command w me _ _) fun _ =>
    .bind (h.command w me _ _) fun _ => .bind (hserial _) fun _ =>
    .bind (h.check w fuel me _) fun mode => ?_
  split
  · refine .bind (h.check w fuel me _) fun power => ?_
    split
    · exact .bind (h.check w fuel me _) fun _ => .pure _
    · exact .pure _
  · exact .pure _

theorem function (c : RoombaCommand) : (Remote.function w fuel me c).Acts K := by
  cases c with
  | init => exact h.init w fuel me
  | _ => exact h.command w me _ _

theorem sensors : (Remote.sensors w fuel me).Acts K :=
  .bind (.bind (h.check w fuel me _) fun _ => .pure _) fun _ =>
    .bind (.bind (h.check w fuel me _) fun _ => .pure _) fun _ =>
    .bind (.bind (h.check w fuel me _) fun _ => .pure _) fun _ => .pure _

end Serves

/-- Changes that include those that are made while the robot is told something. -/
structure Speaks (K : Remote τ → Remote τ → Prop) : Prop extends Serves K where
  told : ∀ s c, K s { s with game := s.game.tell [c] }

namespace Speaks

variable {K : Remote τ → Remote τ → Prop} (h : Speaks K) (w : Peer τ) (fuel : ℕ)
  (me : TaskFunction)

include h

theorem say (c : RoombaCommand) : (Remote.say w fuel me c).Acts K :=
  .bind (.write fun s => h.told s c) fun _ => h.toServes.function w fuel me c

theorem tell (cs : List RoombaCommand) : (Remote.tell w fuel me cs).Acts K := by
  induction cs with
  | nil => exact .pure _
  | cons c cs ih => exact .bind (h.say w fuel me c) fun _ => ih

end Speaks

/-! ### Where nothing is decided -/

/-- Programs that include those that look at the game, and change the move, the packet and the
laser. -/
structure Moves (C : ∀ α : Type, Code τ α → Prop) : Prop where
  pure : ∀ {α : Type} (a : α), C α (pure a)
  bind : ∀ {α β : Type} {p : Code τ α} {k : α → Code τ β}, C α p → (∀ a, C β (k a)) →
    C β (p >>= k)
  get : ∀ {α : Type} (g : Game → α), C α (get g)
  move : ∀ f : Game → Move, C Unit (set fun s => { s with move := f s })
  continueMove : ∀ n : ℤ, C Unit (set fun s => { s with continueMove := n })
  packet : ∀ f : Game → Packet, C Unit (set fun s => { s with packet := f s })
  laser : ∀ b : Bool, C Unit (set fun s => { s with laser := b })
  numLaserTicks : ∀ n : ℤ, C Unit (set fun s => { s with numLaserTicks := n })

namespace Moves

theorem of_acts {K : Remote τ → Remote τ → Prop} (hrefl : ∀ s, K s s)
    (hset : ∀ (s : Remote τ) m c p l n, K s { s with game := { s.game with
      move := m, continueMove := c, packet := p, laser := l, numLaserTicks := n } }) :
    Moves fun _ (p : Code τ _) => p.Acts K where
  pure a := .pure a
  bind hp hk := .bind hp hk
  get _ := .read hrefl _
  move f := .write fun s => hset s (f s.game) _ _ _ _
  continueMove n := .write fun s => hset s _ n _ _ _
  packet f := .write fun s => hset s _ _ (f s.game) _ _
  laser b := .write fun s => hset s _ _ _ b _
  numLaserTicks n := .write fun s => hset s _ _ _ _ n

variable {C : ∀ α : Type, Code τ α → Prop} (h : Moves C)

include h

theorem canStart : C Bool Remote.canStart := by
  refine h.bind (h.get _) fun gameOn => ?_
  split
  · exact h.get _
  · exact h.pure _

theorem diedInGame : C Bool Remote.diedInGame := by
  refine h.bind (h.get _) fun gameOn => ?_
  split
  · exact h.get _
  · exact h.pure _

theorem fires : C Bool Remote.fires := by
  refine h.bind (h.get _) fun joy1SW => ?_
  split
  · exact h.get _
  · exact h.pure _

theorem tickArm : C Unit Remote.tickArm := by
  refine h.bind h.fires fun fire => ?_
  split
  · refine h.bind (h.laser _) fun _ => h.bind (h.get _) fun gameOn => ?_
    split
    · exact h.bind (h.get _) fun _ => h.numLaserTicks _
    · exact h.pure _
  · exact h.laser _

theorem rxData (p : Packet) : C Unit (Remote.rxData p) := by
  have hcopy : ∀ is, C Unit (copy p is) := by
    intro is
    induction is with
    | nil => exact h.pure _
    | cons i is ih => exact h.bind (h.packet _) fun _ => ih
  exact hcopy _

theorem struck (val : BitVec 16) : C Bool (Remote.struck val) := by
  refine h.bind (h.get _) fun gameOn => ?_
  split
  · refine h.bind (h.get _) fun dead => ?_
    split
    · exact h.pure _
    · exact h.get _
  · exact h.pure _

theorem userMove : C Unit Remote.userMove := by
  have hjoy1 : C _ joy1 := h.bind (h.get _) fun _ => h.bind (h.get _) fun _ =>
    h.bind (h.get _) fun _ => h.bind (h.get _) fun _ => h.pure _
  refine h.bind hjoy1 fun xy => h.bind (h.get _) fun mode => h.bind (h.move _) fun _ =>
    h.bind (h.get _) fun move => ?_
  split
  · refine h.bind (h.get _) fun mode => ?_
    split
    · exact h.move _
    · exact h.pure _
  · exact h.pure _

theorem freshMove (r : Sensors) : C Unit (Remote.freshMove r) := by
  refine h.bind (h.continueMove _) fun _ => h.bind (h.move _) fun _ =>
    h.bind h.diedInGame fun stop => ?_
  split_ifs
  · exact h.pure _
  · exact h.move _
  · exact h.bind (h.move _) fun _ => h.continueMove _
  · exact h.move _
  · exact h.move _
  · exact h.userMove

theorem nextMove (r : Sensors) : C Unit (Remote.nextMove r) := by
  refine h.bind (h.get _) fun continueMove => ?_
  split
  · exact h.bind (h.get _) fun _ => h.continueMove _
  · exact h.freshMove r

end Moves

/-! ### Runs -/

/-- A task that is activated. -/
inductive Activation
  | create
  | setupRoomba
  | tickArm
  | rxData (p : Packet)
  | lightSensorRead (val : BitVec 16)
  | commandRoomba
  | modeChange
deriving DecidableEq, Repr

def Activation.task : Activation → TaskFunction
  | .create => .create
  | .setupRoomba => .setupRoomba
  | .tickArm => .tickArm
  | .rxData _ => .rxData
  | .lightSensorRead _ => .lightSensorRead
  | .commandRoomba => .commandRoomba
  | .modeChange => .modeChange

section Threads

variable (w : Peer τ) (fuel : ℕ)

def program : Activation → Code τ Unit
  | .create => create
  | .setupRoomba => setupRoomba w fuel
  | .tickArm => tickArm
  | .rxData p => rxData p
  | .lightSensorRead val => lightSensorRead w fuel val
  | .commandRoomba => commandRoomba w fuel
  | .modeChange => modeChange w fuel

/-- Bytes arrive at the port, if the receive interrupt is on. -/
def noise (bs : List Byte) (s : Remote τ) : Option (Remote τ) :=
  if s.serial.port.listens then
    match s.serial.port.arrive (bs, s.serial.port.peer) with
    | .ok port => some { s with serial := { s.serial with port := port } }
    | .error _ => none
  else none

/-- The tasks that are alive, and bytes that arrive. -/
def system : Threads TaskFunction Halt (Remote τ) Activation (List Byte) where
  thread := Activation.task
  program := program w fuel
  ready s e := e.task ∈ s.game.tasks
  outside := noise

variable {s t : Remote τ}

theorem noise_eq {bs : List Byte} (h : noise bs s = some t) : s.serial.port.listens = true ∧
    ∃ port, s.serial.port.arrive (bs, s.serial.port.peer) = .ok port ∧
      t = { s with serial := { s.serial with port := port } } := by
  unfold noise at h
  split at h
  · next hlistens =>
    cases harrive : s.serial.port.arrive (bs, s.serial.port.peer) with
    | ok port =>
      rw [harrive] at h
      exact ⟨hlistens, port, rfl, (Option.some.inj h).symm⟩
    | error e =>
      rw [harrive] at h
      cases h
  · cases h

end Threads

/-- The tasks, with what each of them has still to do. -/
abbrev Tasks (τ : Type) := Pool TaskFunction Halt (Remote τ)

abbrev Event := Interleaving.Event TaskFunction Activation (List Byte)

/-- Power-on: the kernel has created the setup task. -/
def initial (move : Move) (peer : τ) : Tasks τ where
  shared := { game := { move := move, tasks := [.create] }, serial := ⟨⟨Uart.reset, 3, peer⟩, []⟩ }
  code _ := .done ()

/-- A command or a request is begun only when no other one is under way. -/
def Alone (s t : Remote τ) : Prop := s.inside.length < t.inside.length → s.inside = []

instance (s t : Remote τ) : Decidable (Alone s t) := inferInstanceAs (Decidable (_ → _))

/-- A task does `n` actions. -/
def activation (a : Activation) (n : ℕ) : List Event :=
  .start a :: List.replicate n (.act a.task)

/-- The station is set up, the button is pressed, and `commandRoomba` does `n` actions. -/
def opening (n : ℕ) : List Event :=
  activation .create 6 ++ activation .setupRoomba 130 ++
    activation (.rxData (.ofFields 512 512 0 512 512 1)) 14 ++ activation .commandRoomba n

/-- A robot that answers what it is asked. -/
def respondent : Peer Roomba.Respondent :=
  Roomba.Respondent.peer (fun _ => ⟨0, 0, 0x0A28, 0x0A8C, 2, 0⟩) fun n => n

/-! ### Without preemption -/

section Exec

variable {w : Peer τ} {fuel : ℕ} {me : TaskFunction} {s t : Remote τ}

@[simp] theorem exec_get (g : Game → α) (s : Remote τ) :
    (get g : Code τ α).exec s = .ok (g s.game, s) := rfl

@[simp] theorem exec_set (f : Game → Game) (s : Remote τ) :
    (set f : Code τ Unit).exec s = .ok ((), { s with game := f s.game }) := rfl

theorem game_of_ok (h : (.ok ((), s) : Except Halt (Unit × Remote τ)) = .ok ((), t)) :
    t.game = s.game := by
  obtain rfl : s = t := congrArg Prod.snd (Except.ok.inj h)
  rfl

/-- The functions of the robot leave the game as it is. -/
theorem game_of_exec {p : Code τ α} (hp : p.Acts fun s t => t.game = s.game) {a : α}
    (h : p.exec s = .ok (a, t)) : t.game = s.game := by
  have hsteps := hp.exec h
  clear h
  induction hsteps with
  | refl => rfl
  | tail _ hstep ih => exact hstep.trans ih

theorem serves_game : Serves fun s t : Remote τ => t.game = s.game :=
  ⟨fun _ _ _ => rfl, fun _ _ => rfl, fun _ _ _ => rfl⟩

theorem exec_say {c : RoombaCommand} (h : (say w fuel me c).exec s = .ok ((), t)) :
    t.game = s.game.tell [c] :=
  game_of_exec (serves_game.function w fuel me c) h

theorem exec_tell {cs : List RoombaCommand} (h : (tell w fuel me cs).exec s = .ok ((), t)) :
    t.game = s.game.tell cs := by
  induction cs generalizing s with
  | nil =>
    obtain rfl : s = t := congrArg Prod.snd (Except.ok.inj h)
    simp [Game.tell]
  | cons c cs ih =>
    obtain ⟨_, u, hu, ht⟩ := Prog.exec_bind_ok h
    rw [ih ht, exec_say hu]
    simp [Game.tell]

theorem exec_canStart (s : Remote τ) :
    (canStart : Code τ Bool).exec s = .ok (!s.game.gameOn || s.game.dead, s) := by
  rw [canStart, Prog.exec_bind, exec_get, ok_bind]
  cases s.game.gameOn <;> rfl

theorem exec_startGame (h : (startGame w fuel me).exec s = .ok ((), t)) :
    t.game = s.game.startGame := by
  rw [startGame, Prog.exec_bind, exec_canStart, ok_bind] at h
  dsimp only at h
  unfold Game.startGame
  cases hgo : (!s.game.gameOn || s.game.dead) with
  | false =>
    rw [hgo] at h
    exact game_of_ok h
  | true =>
    rw [hgo] at h
    obtain ⟨_, u, hu, h⟩ := Prog.exec_bind_ok h
    have hsongs := exec_tell hu
    -- the variables are set
    simp only [Prog.exec_bind, Prog.exec_write, exec_set, ok_bind] at h
    obtain ⟨⟨_, v⟩, hv, h⟩ := bind_ok h
    have hsaid := exec_tell hv
    have hnew : v.game = s.game.newGame := by
      rw [hsaid, hsongs]
      rfl
    simp only [exec_get, ok_bind, hnew] at h
    rw [if_pos rfl, Game.startModeChange]
    cases hst : s.game.newGame.startedBefore with
    | false =>
      rw [hst] at h
      obtain rfl := congrArg Prod.snd (Except.ok.inj h)
      exact congrArg (fun g => { g.taskCreate .modeChange with startedBefore := true }) hnew
    | true =>
      rw [hst] at h
      obtain rfl : v = t := congrArg Prod.snd (Except.ok.inj h)
      exact hnew

theorem exec_die (h : (die w fuel me).exec s = .ok ((), t)) : t.game = s.game.die := by
  rw [die, Prog.exec_bind, exec_get, ok_bind] at h
  unfold Game.die
  cases hdead : s.game.dead with
  | true =>
    simp only [hdead] at h
    exact game_of_ok h
  | false =>
    simp only [hdead, Bool.not_false, if_true, Prog.exec_bind, exec_set, ok_bind] at h
    exact exec_tell h

theorem exec_checkButton (h : (checkButton w fuel).exec s = .ok ((), t)) : t.game =
    if s.game.packet.joy2SW ≠ 0 ∧ (!s.game.gameOn || s.game.dead) then s.game.startGame
    else s.game := by
  rw [checkButton, Prog.exec_bind, exec_get, ok_bind] at h
  dsimp only at h
  by_cases hpressed : s.game.packet.joy2SW ≠ 0
  · rw [if_pos hpressed, Prog.exec_bind, exec_canStart, ok_bind] at h
    cases hgo : (!s.game.gameOn || s.game.dead) with
    | true =>
      simp only [hgo, if_true] at h
      rw [if_pos ⟨hpressed, rfl⟩, exec_startGame h]
    | false =>
      simp only [hgo] at h
      rw [if_neg (by simp)]
      exact game_of_ok h
  · rw [if_neg hpressed] at h
    rw [if_neg fun hand => hpressed hand.1]
    exact game_of_ok h

theorem exec_diedInGame (s : Remote τ) :
    (diedInGame : Code τ Bool).exec s = .ok (s.game.gameOn && s.game.dead, s) := by
  rw [diedInGame, Prog.exec_bind, exec_get, ok_bind]
  cases s.game.gameOn <;> rfl

theorem exec_joy1 (s : Remote τ) :
    (joy1 : Code τ (BitVec 16 × BitVec 16)).exec s =
      .ok ((s.game.packet.joy1X, s.game.packet.joy1Y), s) := by
  simp only [joy1, Prog.exec_bind, Prog.exec_pure, exec_get, ok_bind, to16bit_bytes]

/-- The robot is not `STUPID`. -/
theorem exec_userMove (h : (userMove : Code τ Unit).exec s = .ok ((), t)) :
    t.game = { s.game with
      move := chooseUserMove (1023 - s.game.packet.joy1X) (1023 - s.game.packet.joy1Y)
        s.game.mode } := by
  have hstupid : stupid = false := rfl
  simp only [userMove, Prog.exec_bind, exec_joy1, exec_get, exec_set, ok_bind, hstupid,
    Bool.false_eq_true, and_false, if_false] at h
  split at h <;> exact game_of_ok h

theorem exec_freshMove {r : Sensors} (h : (freshMove r).exec s = .ok ((), t)) :
    t.game = { s.game with
      move := (s.game.freshMove r).1, continueMove := (s.game.freshMove r).2 } := by
  have hstupid : stupid = false := rfl
  simp only [freshMove, Prog.exec_bind, exec_set, exec_diedInGame, ok_bind] at h
  simp only [Game.freshMove, hstupid, Bool.false_eq_true, and_false, if_false]
  split_ifs at h ⊢
  · exact game_of_ok h
  · exact game_of_ok h
  · exact game_of_ok h
  · exact game_of_ok h
  · exact game_of_ok h
  · exact exec_userMove h

/-- `choose_move` chooses by what the sensors said. -/
theorem exec_chooseMove (h : (chooseMove w fuel me).exec s = .ok ((), t)) :
    ∃ r, t.game = s.game.chooseMove r := by
  obtain ⟨r, u, hu, h⟩ := Prog.exec_bind_ok h
  have hgame : u.game = s.game := game_of_exec (serves_game.sensors w fuel me) hu
  refine ⟨r, ?_⟩
  rw [← hgame]
  rw [nextMove, Prog.exec_bind, exec_get, ok_bind] at h
  unfold Game.chooseMove
  dsimp only at h
  split_ifs at h ⊢
  · exact game_of_ok h
  · exact exec_freshMove h

theorem checked_startGame (s : Game) : s.startGame.checked = s.checked := by
  have hmode : s.newGame.startModeChange.checked = s.newGame.checked := by
    unfold Game.startModeChange
    split_ifs
    · obtain ⟨_, h⟩ := s.newGame.taskCreate_eq .modeChange
      rw [h]
    · rfl
  unfold Game.startGame
  split_ifs
  · exact hmode
  · rfl

/-- `commandRoomba` does its two parts in turn. -/
theorem exec_commandRoomba (hchecked : s.game.checked = false)
    (h : (commandRoomba w fuel).exec s = .ok ((), t)) :
    ∃ r, t.game = s.game.checkButton.drive r := by
  obtain ⟨_, u, hu, h⟩ := Prog.exec_bind_ok h
  obtain ⟨_, v, hv, h⟩ := Prog.exec_bind_ok h
  have hbutton := exec_checkButton hu
  obtain ⟨r, hmove⟩ := exec_chooseMove hv
  have hsay : (say w fuel .commandRoomba (.directDrive (roombaSpeed v.game.move.leftSpeed)
      (roombaSpeed v.game.move.rightSpeed))).exec v = .ok ((), t) := h
  have hdrive := exec_say hsay
  have hu : s.game.checkButton = { u.game with checked := true } := by
    rw [hbutton]
    rfl
  have huchecked : u.game.checked = false := by
    rw [hbutton]
    split_ifs
    · exact (checked_startGame _).trans hchecked
    · exact hchecked
  have hchoose : ({ u.game with checked := true } : Game).chooseMove r =
      { v.game with checked := true } := by
    rw [hmove]
    unfold Game.chooseMove
    split_ifs <;> rfl
  have hvchecked : v.game.checked = false := by
    rw [hmove]
    unfold Game.chooseMove
    split_ifs <;> exact huchecked
  have hreset : ∀ (g : Game) c, g.checked = false →
      g.tell c = { ({ g with checked := true } : Game).tell c with checked := false } := by
    intro g c hg
    cases g
    cases hg
    rfl
  refine ⟨r, ?_⟩
  rw [hdrive, hu, Game.drive, hchoose]
  exact hreset v.game _ hvchecked

theorem exec_fires (s : Remote τ) : (fires : Code τ Bool).exec s =
    .ok (decide (s.game.packet.joy1SW ≠ 0 ∧ s.game.numLaserTicks > 0), s) := by
  rw [fires, Prog.exec_bind, exec_get, ok_bind]
  dsimp only
  by_cases hpressed : s.game.packet.joy1SW ≠ 0
  · rw [if_pos hpressed, exec_get, decide_eq_decide.2 (and_iff_right hpressed)]
  · rw [if_neg hpressed, decide_eq_false fun hand => hpressed hand.1]
    rfl

theorem exec_tickArm (h : tickArm.exec s = .ok ((), t)) : t.game = s.game.tickArm := by
  rw [tickArm, Prog.exec_bind, exec_fires, ok_bind] at h
  unfold Game.tickArm
  by_cases hfire : s.game.packet.joy1SW ≠ 0 ∧ s.game.numLaserTicks > 0
  · simp only [decide_eq_true hfire, if_true, Prog.exec_bind, exec_set, exec_get, ok_bind] at h
    rw [if_pos hfire]
    cases hon : s.game.gameOn with
    | true =>
      rw [hon] at h
      exact game_of_ok h
    | false =>
      rw [hon] at h
      exact game_of_ok h
  · simp only [decide_eq_false hfire] at h
    rw [if_neg hfire]
    exact game_of_ok h

/-- Each byte of the packet is copied. -/
theorem exec_copy {p : Packet} {is : List (Fin packetSize)}
    (h : (copy p is).exec s = .ok ((), t)) : ∃ q : Packet, t.game = { s.game with packet := q } ∧
      ∀ i : Fin packetSize, q.data[i] = if i ∈ is then p.data[i] else s.game.packet.data[i] := by
  induction is generalizing s with
  | nil => exact ⟨s.game.packet, game_of_ok h, fun i => by simp⟩
  | cons j is ih =>
    obtain ⟨q, hgame, hq⟩ := ih h
    refine ⟨q, hgame, fun i => ?_⟩
    rw [hq i]
    by_cases hi : i ∈ is
    · simp [hi]
    · by_cases hij : i = j
      · subst hij
        simp [hi]
      · have hne : (j : ℕ) ≠ i := fun h => hij (Fin.ext h.symm)
        simp [hi, hij, hne]

theorem exec_rxData {p : Packet} (h : (rxData p).exec s = .ok ((), t)) :
    t.game = s.game.rxData p := by
  obtain ⟨q, hgame, hq⟩ := exec_copy h
  have hdata : q.data = p.data := by
    refine Vector.ext fun i hi => ?_
    have hi := hq ⟨i, hi⟩
    rwa [if_pos (List.mem_finRange _)] at hi
  obtain rfl : q = p := by
    cases q
    cases p
    exact congrArg Packet.mk hdata
  exact hgame

theorem exec_struck (val : BitVec 16) (s : Remote τ) : (struck val : Code τ Bool).exec s =
    .ok (s.game.gameOn && !s.game.dead && decide (val > s.game.lightAverage + lightThreshold),
      s) := by
  rw [struck, Prog.exec_bind, exec_get, ok_bind]
  cases s.game.gameOn with
  | false => rfl
  | true =>
    show ((get Game.dead : Code τ Bool) >>= _).exec s = _
    rw [Prog.exec_bind, exec_get, ok_bind]
    cases s.game.dead <;> rfl

theorem exec_lightSensorRead {val : BitVec 16}
    (h : (lightSensorRead w fuel val).exec s = .ok ((), t)) :
    t.game = s.game.lightSensorRead val := by
  rw [lightSensorRead, Prog.exec_bind, exec_struck, ok_bind] at h
  unfold Game.lightSensorRead
  dsimp only at h
  split_ifs at h ⊢ with hhit
  · simp only [Prog.exec_bind, exec_get, Prog.exec_write, ok_bind] at h
    dsimp only
    split_ifs at h ⊢
    · exact exec_die h
    · exact game_of_ok h
  · exact game_of_ok h

theorem exec_modeChange (h : (modeChange w fuel).exec s = .ok ((), t)) :
    t.game = s.game.modeChange := by
  rw [modeChange, Prog.exec_bind, exec_get, ok_bind] at h
  unfold Game.modeChange
  dsimp only at h
  by_cases hdead : s.game.dead = true
  · rw [if_pos hdead] at h ⊢
    exact game_of_ok h
  · rw [if_neg hdead] at h ⊢
    simp only [Prog.exec_bind, exec_get, exec_set, ok_bind] at h
    exact exec_say h

theorem exec_create (h : create.exec s = .ok ((), t)) : t.game = s.game.create := by
  simp only [create, Prog.exec_bind, exec_set, ok_bind] at h
  rw [game_of_ok h]
  rfl

theorem exec_setupRoomba (h : (setupRoomba w fuel).exec s = .ok ((), t)) :
    t.game = s.game.setupRoomba := by
  obtain ⟨_, u, hu, h⟩ := Prog.exec_bind_ok h
  have hsaid := exec_tell hu
  have hdone : t.game = (u.game.taskCreate .commandRoomba).taskTerminate .setupRoomba :=
    game_of_ok h
  rw [hdone, hsaid]
  rfl

/-- The activations of the game that an activation of a task is, if nothing comes in between and
the sensors say `r`. -/
def Activation.activations (r : Sensors) : Activation → List Game.Activation
  | .create => [.create]
  | .setupRoomba => [.setupRoomba]
  | .tickArm => [.tickArm]
  | .rxData p => [.rxData p]
  | .lightSensorRead val => [.lightSensorRead val]
  | .commandRoomba => [.checkButton, .drive r]
  | .modeChange => [.modeChange]

/-- **Without preemption** the tasks do what they do in the game. -/
theorem exec_program {a : Activation} (hchecked : s.game.checked = false)
    (h : (program w fuel a).exec s = .ok ((), t)) :
    ∃ r, t.game = (a.activations r).foldl Game.activate s.game := by
  cases a with
  | create => exact ⟨{}, exec_create h⟩
  | setupRoomba => exact ⟨{}, exec_setupRoomba h⟩
  | tickArm => exact ⟨{}, exec_tickArm h⟩
  | rxData p => exact ⟨{}, exec_rxData h⟩
  | lightSensorRead val => exact ⟨{}, exec_lightSensorRead h⟩
  | commandRoomba => exact exec_commandRoomba hchecked h
  | modeChange => exact ⟨{}, exec_modeChange h⟩

end Exec

end Remote

end RoombaRtos
