import RoombaRtos.Lib.Lockstep
import RoombaRtos.Packet
import RoombaRtos.Move

/-!
# The game

The game of the remote station, `remote/user.cpp`: the robot is driven by the packets of the other
station, dies when the light sensor is hit too often, and is restarted with a button.

* `Game` — the variables of the game, and the tasks that are alive;
* `Game.chooseMove`, `Game.startGame`, `Game.die` — the functions of the game;
* `Game.Step` — one activation of one of the tasks, until it calls `Task_Next` or returns;
* `Game.dead_stop_iff` — when a dead robot stands still;
* `Game.Reachable.withinSpeed` — the speeds that the robot is told;
* `Game.mode_switcher_iff` — when there is a task that changes the mode.

An activation is one step here, but for `commandRoomba`, which waits for its sensors between its
two parts; in `Remote` the tasks can be preempted anywhere.  A task function that returns, also
from inside of the `TASK` loop, comes to `Task_Terminate`, which `Kernel_Task_Create_At` has put at
the bottom of its stack.
-/

namespace RoombaRtos

open Lockstep

/-- The functions that run as tasks. -/
inductive TaskFunction
  | create
  | updateArm
  | tickArm
  | rxData
  | lightSensorRead
  | setupRoomba
  | commandRoomba
  | modeChange
deriving DecidableEq, Repr

/-- What the robot is told over its serial line. -/
inductive RoombaCommand
  | init
  | safeMode
  | setSong (number : Byte) (notes : List (Byte × Byte))
  | playSong (number : Byte)
  | leds (leds colour intensity : Byte)
  | directDrive (left right : ℤ)
deriving DecidableEq, Repr

/-- The sensors that `choose_move` asks for. -/
structure Sensors where
  virtualWall : Bool := false
  leftBumper : Bool := false
  rightBumper : Bool := false
deriving DecidableEq, Repr

/-- `DEAD_SONG`, `FREE_SONG`, `STAY_SONG` and `START_SONG`. -/
def deadSong : Byte := 0
def freeSong : Byte := 1
def staySong : Byte := 2
def startSong : Byte := 3

/-- `LIGHT_THRESHOLD`. -/
def lightThreshold : BitVec 16 := 30

/-- `STUPID`. -/
def stupid : Bool := false

/-- `30000 / MSECPERTICK`. -/
def laserTicks : ℤ := 3000

/-- `ARM_TICK_PERIOD`. -/
def armTickPeriod : ℤ := 2

structure Game where
  numLaserTicks : ℤ := laserTicks
  mode : Byte := noMode
  gameOn : Bool := false
  health : Byte := 10
  dead : Bool := false
  lightAverage : BitVec 16 := 0
  startedBefore : Bool := false
  continueMove : ℤ := -1
  packet : Packet := .ofFields 512 512 0 512 512 0
  laser : Bool := false
  /-- The local variable of `commandRoomba`. -/
  move : Move
  /-- `commandRoomba` has looked at the button, and comes to `choose_move`. -/
  checked : Bool := false
  /-- The tasks that were created and have not terminated. -/
  tasks : List TaskFunction
  /-- What the robot was told, oldest first. -/
  sent : List RoombaCommand := []

namespace Game

/-! ### The functions of the game -/

def tell (s : Game) (c : List RoombaCommand) : Game := { s with sent := s.sent ++ c }

/-- A task is created if the process table has room for it; the returned id is ignored. -/
def taskCreate (s : Game) (f : TaskFunction) : Game :=
  if s.tasks.length < maxThread then { s with tasks := s.tasks ++ [f] } else s

/-- A task function returns. -/
def taskTerminate (s : Game) (f : TaskFunction) : Game :=
  { s with tasks := s.tasks.erase f }

def loadSongs : List RoombaCommand :=
  [.setSong deadSong
      [(60, 16), (59, 16), (57, 16), (55, 16), (53, 16), (52, 16), (50, 16), (48, 80)],
    .setSong staySong [(95, 8), (100, 32)],
    .setSong freeSong
      [(79, 8), (83, 8), (86, 8), (91, 8), (95, 8), (80, 6), (84, 8), (87, 6), (92, 6), (96, 8),
        (82, 6), (86, 8), (89, 8), (94, 6), (98, 6)],
    .setSong startSong [(88, 8), (91, 24), (100, 8), (96, 8), (98, 16), (103, 8)]]

/-- What `choose_move` chooses when no move is continued, and the new value of `continue_move`. -/
def freshMove (s : Game) (r : Sensors) : Move × ℤ :=
  -- do not move if dead
  if s.gameOn && s.dead then (.stop, -1)
  else if r.virtualWall then (.backward 50, -1)
  else if r.leftBumper && r.rightBumper then (.backward 50, 4)
  else if r.leftBumper then (.spinRight 50, -1)
  else if r.rightBumper then (.spinLeft 50, -1)
  else
    let move := chooseUserMove (1023 - s.packet.joy1X) (1023 - s.packet.joy1Y) s.mode
    if move.leftSpeed = 0 ∧ move.rightSpeed = 0 ∧ s.mode = stayMode ∧ stupid then
      (.forward 8, -1)
    else (move, -1)

def chooseMove (s : Game) (r : Sensors) : Game :=
  if s.continueMove > 0 then { s with continueMove := s.continueMove - 1 }
  else { s with move := (s.freshMove r).1, continueMove := (s.freshMove r).2 }

/-- The task that changes the mode is created in the first game. -/
def startModeChange (s : Game) : Game :=
  if !s.startedBefore then { s.taskCreate .modeChange with startedBefore := true } else s

/-- What `start_game` does to the variables, and tells the robot. -/
def newGame (s : Game) : Game :=
  let s := { s.tell loadSongs with
    gameOn := true
    dead := false
    numLaserTicks := laserTicks
    health := 10
    mode := stayMode }
  s.tell [.playSong startSong, .leds 0 0 255]

def startGame (s : Game) : Game :=
  if !s.gameOn || s.dead then s.newGame.startModeChange else s

def die (s : Game) : Game :=
  if s.dead then s
  else { s with dead := true }.tell [.leds 0 255 255, .playSong deadSong]

/-! ### The tasks -/

def create (s : Game) : Game :=
  let s := (((s.taskCreate .updateArm).taskCreate .tickArm).taskCreate .rxData).taskCreate
    .lightSensorRead
  (s.taskCreate .setupRoomba).taskTerminate .create

def setupRoomba (s : Game) : Game :=
  let s := s.tell ([.init, .safeMode] ++ loadSongs ++ [.playSong freeSong])
  (s.taskCreate .commandRoomba).taskTerminate .setupRoomba

/-- `TickArm`, apart from the arm. -/
def tickArm (s : Game) : Game :=
  if s.packet.joy1SW ≠ 0 ∧ s.numLaserTicks > 0 then
    { s with
      laser := true
      numLaserTicks := if s.gameOn then s.numLaserTicks - armTickPeriod else s.numLaserTicks }
  else { s with laser := false }

/-- `RXData` accepts a packet. -/
def rxData (s : Game) (p : Packet) : Game := { s with packet := p }

/-- The light sensor was read; the average of the two halves is exact up to the last bit. -/
def lightSensorRead (s : Game) (val : BitVec 16) : Game :=
  if s.gameOn && !s.dead && val > s.lightAverage + lightThreshold then
    let s := { s with health := s.health - 1 }
    if s.health ≤ 0 then s.die else s
  else { s with lightAverage := BitVec.ofNat 16 ((val.toNat + s.lightAverage.toNat) / 2) }

/-- `commandRoomba` checks if the game should start. -/
def checkButton (s : Game) : Game :=
  let s := if s.packet.joy2SW ≠ 0 ∧ (!s.gameOn || s.dead) then s.startGame else s
  { s with checked := true }

/-- `commandRoomba` chooses a move and drives the robot. -/
def drive (s : Game) (r : Sensors) : Game :=
  let s := s.chooseMove r
  let s := s.tell [.directDrive (roombaSpeed s.move.leftSpeed) (roombaSpeed s.move.rightSpeed)]
  { s with checked := false }

def modeChange (s : Game) : Game :=
  if s.dead then s.taskTerminate .modeChange
  else
    { s with mode := if s.mode = freeMode then stayMode else freeMode }.tell [.playSong staySong]

/-! ### Runs -/

/-- An activation of a task. -/
inductive Activation
  | create
  | setupRoomba
  | tickArm
  | rxData (p : Packet)
  | lightSensorRead (val : BitVec 16)
  | checkButton
  | drive (r : Sensors)
  | modeChange
deriving DecidableEq, Repr

/-- The task that is activated. -/
def Activation.task : Activation → TaskFunction
  | .create => .create
  | .setupRoomba => .setupRoomba
  | .tickArm => .tickArm
  | .rxData _ => .rxData
  | .lightSensorRead _ => .lightSensorRead
  | .checkButton => .commandRoomba
  | .drive _ => .commandRoomba
  | .modeChange => .modeChange

/-- `commandRoomba` does its two parts in turn. -/
def inTurn (s : Game) : Activation → Bool
  | .checkButton => !s.checked
  | .drive _ => s.checked
  | _ => true

def activate (s : Game) : Activation → Game
  | .create => s.create
  | .setupRoomba => s.setupRoomba
  | .tickArm => s.tickArm
  | .rxData p => s.rxData p
  | .lightSensorRead val => s.lightSensorRead val
  | .checkButton => s.checkButton
  | .drive r => s.drive r
  | .modeChange => s.modeChange

/-- One activation as a function; `none` when the task is not alive, or is elsewhere. -/
def advance (s : Game) (e : Activation) : Option Game :=
  if e.task ∈ s.tasks ∧ s.inTurn e then some (s.activate e) else none

def Step (s : Game) (e : Activation) (s' : Game) : Prop := s.advance e = some s'

/-- Power-on: the kernel has created the setup task. -/
def Initial (s : Game) : Prop := ∃ move, s = { move := move, tasks := [.create] }

def Reachable (s : Game) : Prop := ∃ s₀ es, s₀.Initial ∧ Run Step s₀ es s

/-- The state after power-on and the given activations. -/
def after (es : List Activation) : Option Game :=
  Run.exec advance { move := .stop, tasks := [.create] } es

theorem run_of_after {s : Game} {es : List Activation} (h : after es = some s) :
    ∃ s₀ : Game, s₀.Initial ∧ Run Step s₀ es s :=
  ⟨_, ⟨.stop, rfl⟩, Run.of_exec h⟩

theorem reachable_of_after {s : Game} {es : List Activation} (h : after es = some s) :
    s.Reachable := by
  obtain ⟨s₀, h₀, hrun⟩ := run_of_after h
  exact ⟨s₀, es, h₀, hrun⟩

theorem step_iff {s s' : Game} {e : Activation} :
    s.Step e s' ↔ e.task ∈ s.tasks ∧ s.inTurn e = true ∧ s' = s.activate e := by
  unfold Step advance
  by_cases h : e.task ∈ s.tasks ∧ s.inTurn e
  · rw [if_pos h, Option.some.injEq, eq_comm]
    simp [h]
  · rw [if_neg h]
    exact iff_of_false (by simp) fun h' => h ⟨h'.1, h'.2.1⟩

/-! ### Reading after an update -/

section Updates

variable (s : Game) (c : List RoombaCommand) (f : TaskFunction)

@[simp] theorem tell_move : (s.tell c).move = s.move := rfl
@[simp] theorem tell_continueMove : (s.tell c).continueMove = s.continueMove := rfl
@[simp] theorem tell_gameOn : (s.tell c).gameOn = s.gameOn := rfl
@[simp] theorem tell_dead : (s.tell c).dead = s.dead := rfl
@[simp] theorem tell_startedBefore : (s.tell c).startedBefore = s.startedBefore := rfl
@[simp] theorem tell_tasks : (s.tell c).tasks = s.tasks := rfl

theorem taskCreate_eq : ∃ tasks, s.taskCreate f = { s with tasks := tasks } := by
  unfold taskCreate
  split
  · exact ⟨_, rfl⟩
  · exact ⟨s.tasks, rfl⟩

@[simp] theorem taskCreate_move : (s.taskCreate f).move = s.move := by
  obtain ⟨_, h⟩ := s.taskCreate_eq f; rw [h]
@[simp] theorem taskCreate_continueMove : (s.taskCreate f).continueMove = s.continueMove := by
  obtain ⟨_, h⟩ := s.taskCreate_eq f; rw [h]
@[simp] theorem taskCreate_gameOn : (s.taskCreate f).gameOn = s.gameOn := by
  obtain ⟨_, h⟩ := s.taskCreate_eq f; rw [h]
@[simp] theorem taskCreate_dead : (s.taskCreate f).dead = s.dead := by
  obtain ⟨_, h⟩ := s.taskCreate_eq f; rw [h]
@[simp] theorem taskCreate_startedBefore : (s.taskCreate f).startedBefore = s.startedBefore := by
  obtain ⟨_, h⟩ := s.taskCreate_eq f; rw [h]

@[simp] theorem taskTerminate_move : (s.taskTerminate f).move = s.move := rfl
@[simp] theorem taskTerminate_continueMove :
    (s.taskTerminate f).continueMove = s.continueMove := rfl
@[simp] theorem taskTerminate_gameOn : (s.taskTerminate f).gameOn = s.gameOn := rfl
@[simp] theorem taskTerminate_dead : (s.taskTerminate f).dead = s.dead := rfl
@[simp] theorem taskTerminate_startedBefore :
    (s.taskTerminate f).startedBefore = s.startedBefore := rfl

end Updates

/-! ### A dead robot -/

variable {s s' s₀ : Game} {e : Activation} {es : List Activation} {r : Sensors}

/-- The moves that are continued are those away from an obstacle. -/
def Continues (s : Game) : Prop := 0 < s.continueMove → s.move = .backward 50

theorem startModeChange_move (s : Game) : s.startModeChange.move = s.move ∧
    s.startModeChange.continueMove = s.continueMove := by
  unfold startModeChange
  split_ifs <;> simp

theorem startGame_move (s : Game) :
    s.startGame.move = s.move ∧ s.startGame.continueMove = s.continueMove := by
  unfold startGame
  split_ifs
  · exact s.newGame.startModeChange_move
  · simp

theorem die_move (s : Game) : s.die.move = s.move ∧ s.die.continueMove = s.continueMove := by
  unfold die
  split_ifs <;> simp

/-- Only `choose_move` chooses moves. -/
theorem activate_move (s : Game) (h : ∀ r, e ≠ .drive r) :
    (s.activate e).move = s.move ∧ (s.activate e).continueMove = s.continueMove := by
  cases e with
  | create => simp [activate, create]
  | setupRoomba => simp [activate, setupRoomba]
  | tickArm =>
    simp only [activate, tickArm]
    split_ifs <;> simp
  | rxData p => simp [activate, rxData]
  | lightSensorRead val =>
    simp only [activate, lightSensorRead]
    split_ifs
    · exact die_move _
    · simp
    · simp
  | checkButton =>
    simp only [activate, checkButton]
    split_ifs
    · exact startGame_move s
    · simp
  | drive r => exact absurd rfl (h r)
  | modeChange =>
    simp only [activate, modeChange]
    split_ifs <;> simp

theorem chooseMove_continues (h : s.Continues) : (s.chooseMove r).Continues := by
  unfold chooseMove
  split_ifs with hgo
  · intro _
    exact h hgo
  · show 0 < (s.freshMove r).2 → (s.freshMove r).1 = .backward 50
    dsimp only [freshMove]
    split_ifs <;> simp

theorem Step.continues (hs : s.Step e s') (h : s.Continues) : s'.Continues := by
  obtain ⟨-, -, rfl⟩ := step_iff.1 hs
  by_cases he : ∃ r, e = .drive r
  · obtain ⟨r, rfl⟩ := he
    have hchosen : (s.chooseMove r).Continues := chooseMove_continues h
    exact hchosen
  · obtain ⟨hmove, hcont⟩ := s.activate_move fun r hr => he ⟨r, hr⟩
    rw [Continues, hmove, hcont]
    exact h

theorem Reachable.continues (h : s.Reachable) : s.Continues := by
  obtain ⟨s₀, es, ⟨move, rfl⟩, hrun⟩ := h
  refine hrun.invariant (P := Continues) ?_ fun _ _ _ h hs => hs.continues h
  intro hgo
  cases hgo

theorem chooseMove_sent (s : Game) (r : Sensors) : (s.chooseMove r).sent = s.sent := by
  unfold chooseMove
  split_ifs <;> rfl

/-- **Dead robots, exactly.**  When `choose_move` is called while the game is on and the robot is
dead, the robot is told to stand still exactly if it is not in the middle of a continued move. -/
theorem dead_stop_iff (h : s.Reachable) (hs : s.Step (.drive r) s') (hon : s.gameOn = true)
    (hdead : s.dead = true) :
    s'.sent = s.sent ++ [.directDrive 0 0] ↔ s.continueMove ≤ 0 := by
  obtain ⟨-, -, rfl⟩ := step_iff.1 hs
  have hsent : (s.activate (.drive r)).sent = s.sent ++
      [.directDrive (roombaSpeed (s.chooseMove r).move.leftSpeed)
        (roombaSpeed (s.chooseMove r).move.rightSpeed)] := by
    rw [← s.chooseMove_sent r]
    rfl
  rw [hsent, List.append_cancel_left_eq, List.cons.injEq, RoombaCommand.directDrive.injEq]
  by_cases hgo : 0 < s.continueMove
  · have hmove : (s.chooseMove r).move = .backward 50 := by
      rw [← h.continues hgo]
      simp [chooseMove, hgo]
    rw [hmove]
    exact iff_of_false (by decide) (by omega)
  · have hmove : (s.chooseMove r).move = .stop := by
      simp [chooseMove, freshMove, hgo, hon, hdead]
    rw [hmove]
    exact iff_of_true (by decide) (by omega)

/-- The station is set up, and the game is started with the button. -/
def opening : List Activation :=
  [.create, .setupRoomba, .rxData (.ofFields 512 512 0 512 512 1), .checkButton]

/-- The button is released, and the robot is hit until it is dead. -/
def hits : List Activation :=
  .rxData (.ofFields 512 512 0 512 512 0) :: List.replicate 10 (.lightSensorRead 100)

/-- The robot has not touched anything before it dies. -/
theorem dead_stop_in_the_open :
    ∃ p ∈ ((after (opening ++ .drive {} :: hits ++ [.checkButton])).bind fun s =>
          (s.advance (.drive { virtualWall := true })).map fun s' => (s, s')).filter fun p =>
        p.1.gameOn = true ∧ p.1.dead = true ∧ p.1.continueMove ≤ 0,
      p.2.sent = p.1.sent ++ [.directDrive 0 0] := by
  refine exists_mem_of_isSome (by decide +kernel) fun p hp => ?_
  obtain ⟨hp, hfacts⟩ := Option.filter_eq_some_iff.1 hp
  obtain ⟨hon, hdead, hstop⟩ := of_decide_eq_true hfacts
  obtain ⟨s, hs, hp⟩ := Option.bind_eq_some_iff.1 hp
  obtain ⟨s', hs', rfl⟩ := Option.map_eq_some_iff.1 hp
  exact (dead_stop_iff (reachable_of_after hs) hs' hon hdead).2 hstop

/-- The robot runs into an obstacle and dies while it backs away: it goes on backing away. -/
theorem dead_robot_backs_away :
    ∃ p ∈ (after (opening ++ .drive { leftBumper := true, rightBumper := true } :: hits ++
          [.checkButton])).bind fun s => (s.advance (.drive {})).map fun s' => (s, s'),
      (p.1.Reachable ∧ p.1.Step (.drive {}) p.2) ∧ (p.1.gameOn = true ∧ p.1.dead = true) ∧
        p.2.sent = p.1.sent ++ [.directDrive (-250) (-250)] := by
  have hex : ∃ p ∈ ((after (opening ++ .drive { leftBumper := true, rightBumper := true } ::
        hits ++ [.checkButton])).bind fun s =>
          (s.advance (.drive {})).map fun s' => (s, s')).filter fun p =>
      (p.1.gameOn = true ∧ p.1.dead = true) ∧
        p.2.sent = p.1.sent ++ [.directDrive (-250) (-250)], True :=
    exists_mem_of_isSome (by decide +kernel) fun _ _ => trivial
  obtain ⟨p, hp, -⟩ := hex
  obtain ⟨hp, hfacts⟩ := Option.filter_eq_some_iff.1 hp
  refine ⟨p, hp, ?_, of_decide_eq_true hfacts⟩
  obtain ⟨s, hs, hp⟩ := Option.bind_eq_some_iff.1 hp
  obtain ⟨s', hs', rfl⟩ := Option.map_eq_some_iff.1 hp
  exact ⟨reachable_of_after hs, hs'⟩

/-! ### The speed of the robot -/

/-- A speed within `MAX_SPEED`, for a command that names speeds. -/
def WithinSpeed : RoombaCommand → Prop
  | .directDrive left right =>
      (-maxSpeed ≤ left ∧ left ≤ maxSpeed) ∧ -maxSpeed ≤ right ∧ right ≤ maxSpeed
  | _ => True

/-- `t` is told what `s` was told, and then only commands within the speed limit. -/
def Tells (s t : Game) : Prop := ∃ c, t.sent = s.sent ++ c ∧ ∀ x ∈ c, WithinSpeed x

theorem Tells.of_eq (h : s'.sent = s.sent) : s.Tells s' := ⟨[], by simp [h], by simp⟩

theorem Tells.trans (h : s₀.Tells s) (h' : s.Tells s') : s₀.Tells s' := by
  obtain ⟨c, hc, hall⟩ := h
  obtain ⟨c', hc', hall'⟩ := h'
  refine ⟨c ++ c', by rw [hc', hc, List.append_assoc], ?_⟩
  intro x hx
  exact (List.mem_append.1 hx).elim (hall x) (hall' x)

theorem taskCreate_sent (s : Game) (f : TaskFunction) : (s.taskCreate f).sent = s.sent := by
  obtain ⟨_, h⟩ := s.taskCreate_eq f; rw [h]

theorem startGame_tells (s : Game) : s.Tells s.startGame := by
  have hsent : s.newGame.sent =
      s.sent ++ (loadSongs ++ [.playSong startSong, .leds 0 0 255]) := by
    rw [← List.append_assoc]
    rfl
  have hnew : s.Tells s.newGame := ⟨_, hsent, by simp [loadSongs, WithinSpeed]⟩
  unfold startGame startModeChange
  split_ifs
  · exact hnew.trans (.of_eq (taskCreate_sent _ _))
  · exact hnew
  · exact .of_eq rfl

theorem die_tells (s : Game) : s.Tells s.die := by
  unfold die
  split_ifs
  · exact .of_eq rfl
  · exact ⟨[.leds 0 255 255, .playSong deadSong], rfl, by simp [WithinSpeed]⟩

/-- No activation tells the robot a higher speed than it has. -/
theorem activate_tells (s : Game) (e : Activation) : s.Tells (s.activate e) := by
  cases e with
  | create =>
    refine .of_eq ?_
    simp [activate, create, taskTerminate, taskCreate_sent]
  | setupRoomba =>
    refine ⟨[.init, .safeMode] ++ loadSongs ++ [.playSong freeSong], ?_, by
      simp [loadSongs, WithinSpeed]⟩
    simp [activate, setupRoomba, taskTerminate, taskCreate_sent, tell]
  | tickArm =>
    simp only [activate, tickArm]
    split_ifs <;> exact .of_eq rfl
  | rxData p => exact .of_eq rfl
  | lightSensorRead val =>
    simp only [activate, lightSensorRead]
    split_ifs
    · exact die_tells _
    · exact .of_eq rfl
    · exact .of_eq rfl
  | checkButton =>
    simp only [activate, checkButton]
    split_ifs
    · exact s.startGame_tells
    · exact .of_eq rfl
  | drive r =>
    refine ⟨_, congrArg (· ++ _) (s.chooseMove_sent r), fun x hx => ?_⟩
    rw [List.mem_singleton.1 hx]
    exact ⟨roombaSpeed_mem _, roombaSpeed_mem _⟩
  | modeChange =>
    simp only [activate, modeChange]
    by_cases hdead : s.dead = true
    · rw [if_pos hdead]
      exact .of_eq rfl
    · rw [if_neg hdead]
      exact ⟨[.playSong staySong], rfl, by simp [WithinSpeed]⟩

/-- **In every run the robot is told speeds within `MAX_SPEED`.** -/
theorem Reachable.withinSpeed (h : s.Reachable) : ∀ x ∈ s.sent, WithinSpeed x := by
  obtain ⟨s₀, es, ⟨move, rfl⟩, hrun⟩ := h
  refine hrun.invariant (P := fun s => ∀ x ∈ s.sent, WithinSpeed x) (by simp) ?_
  intro s e s' hs hstep x hx
  obtain ⟨-, -, rfl⟩ := step_iff.1 hstep
  obtain ⟨c, hc, hall⟩ := s.activate_tells e
  rw [hc] at hx
  exact (List.mem_append.1 hx).elim (hs x) (hall x)

/-! ### The task that changes the mode -/

/-- Which tasks can be alive together. -/
structure Roster (s : Game) : Prop where
  nodup : s.tasks.Nodup
  setup : .create ∈ s.tasks → s.tasks = [.create]
  command : .setupRoomba ∈ s.tasks → .commandRoomba ∉ s.tasks
  started : s.startedBefore = false → .modeChange ∉ s.tasks
  on : s.gameOn = s.startedBefore

/-- There is always room for another task. -/
theorem tasks_length_lt (h : s.tasks.Nodup) : s.tasks.length < maxThread := by
  have hall : s.tasks ⊆ [.create, .updateArm, .tickArm, .rxData, .lightSensorRead, .setupRoomba,
      .commandRoomba, .modeChange] := by
    intro f _
    cases f <;> simp
  have hle := (h.subperm hall).length_le
  exact lt_of_le_of_lt hle (by decide)

theorem taskCreate_tasks (h : s.tasks.Nodup) (f : TaskFunction) :
    (s.taskCreate f).tasks = s.tasks ++ [f] := by
  rw [taskCreate, if_pos (tasks_length_lt h)]

theorem startModeChange_spec (h : s.tasks.Nodup) : s.startModeChange.gameOn = s.gameOn ∧
    s.startModeChange.startedBefore = true ∧ s.startModeChange.tasks =
      if s.startedBefore then s.tasks else s.tasks ++ [.modeChange] := by
  unfold startModeChange
  cases hs : s.startedBefore <;> simp [hs, taskCreate_tasks h]

/-- A started game has been given its mode switcher. -/
theorem Roster.startGame (h : s.Roster) : s.startGame.gameOn = true ∧
    s.startGame.startedBefore = true ∧ s.startGame.tasks =
      if s.startedBefore then s.tasks else s.tasks ++ [.modeChange] := by
  unfold Game.startGame
  split_ifs with hgo hstarted hstarted
  · obtain ⟨hon, hst, htasks⟩ := startModeChange_spec (s := s.newGame) h.nodup
    exact ⟨hon, hst, htasks.trans (if_pos hstarted)⟩
  · obtain ⟨hon, hst, htasks⟩ := startModeChange_spec (s := s.newGame) h.nodup
    exact ⟨hon, hst, htasks.trans (if_neg hstarted)⟩
  · exact ⟨h.on.trans hstarted, hstarted, rfl⟩
  · rw [h.on] at hgo
    simp [hstarted] at hgo

/-- The activations that neither create nor end a task, nor start the game. -/
def Activation.playing : Activation → Bool
  | .tickArm => true
  | .rxData _ => true
  | .lightSensorRead _ => true
  | .drive _ => true
  | _ => false

theorem activate_playing (s : Game) (h : e.playing = true) :
    (s.activate e).tasks = s.tasks ∧ (s.activate e).startedBefore = s.startedBefore ∧
      (s.activate e).gameOn = s.gameOn := by
  cases e with
  | tickArm =>
    simp only [activate, tickArm]
    split_ifs <;> simp
  | rxData p => exact ⟨rfl, rfl, rfl⟩
  | lightSensorRead val =>
    simp only [activate, lightSensorRead, die]
    split_ifs <;> simp
  | drive r =>
    simp only [activate, drive, chooseMove]
    split_ifs <;> exact ⟨rfl, rfl, rfl⟩
  | _ => cases h

theorem Roster.congr (h : s.Roster) (ht : s'.tasks = s.tasks)
    (hs : s'.startedBefore = s.startedBefore) (hg : s'.gameOn = s.gameOn) : s'.Roster := by
  refine ⟨?_, ?_, ?_, ?_, ?_⟩
  · rw [ht]
    exact h.nodup
  · rw [ht]
    exact h.setup
  · rw [ht]
    exact h.command
  · rw [ht, hs]
    exact h.started
  · rw [hs, hg]
    exact h.on

/-- What the other activations do to the tasks. -/
theorem Roster.create_tasks (h : s.Roster) (hmem : .create ∈ s.tasks) :
    s.create.tasks = [.updateArm, .tickArm, .rxData, .lightSensorRead, .setupRoomba] := by
  have hone := h.setup hmem
  simp [create, taskCreate, taskTerminate, hone, maxThread]

theorem Roster.setupRoomba_tasks (h : s.Roster) :
    s.setupRoomba.tasks = (s.tasks ++ [TaskFunction.commandRoomba]).erase .setupRoomba := by
  have htasks := taskCreate_tasks
    (s := s.tell ([.init, .safeMode] ++ loadSongs ++ [.playSong freeSong])) h.nodup .commandRoomba
  exact congrArg (fun l => l.erase TaskFunction.setupRoomba) htasks

theorem Roster.create (h : s.Roster) (hmem : .create ∈ s.tasks) : s.create.Roster := by
  have htasks := h.create_tasks hmem
  have hst : s.create.startedBefore = s.startedBefore := by simp [Game.create]
  have hon : s.create.gameOn = s.gameOn := by simp [Game.create]
  refine ⟨?_, ?_, ?_, ?_, ?_⟩
  · rw [htasks]
    decide
  · rw [htasks]
    simp
  · rw [htasks]
    simp
  · rw [htasks]
    simp
  · rw [hon, hst, h.on]

theorem Roster.setupRoomba (h : s.Roster) (hmem : .setupRoomba ∈ s.tasks) :
    s.setupRoomba.Roster := by
  have htasks := h.setupRoomba_tasks
  have hst : s.setupRoomba.startedBefore = s.startedBefore := by simp [Game.setupRoomba]
  have hon : s.setupRoomba.gameOn = s.gameOn := by simp [Game.setupRoomba]
  have hnd : (s.tasks ++ [TaskFunction.commandRoomba]).Nodup := by
    rw [List.nodup_append]
    refine ⟨h.nodup, by simp, ?_⟩
    rintro f hf g hg rfl
    rw [List.mem_singleton] at hg
    subst hg
    exact h.command hmem hf
  have hother : ∀ f, f ≠ TaskFunction.commandRoomba → f ∈ s.setupRoomba.tasks → f ∈ s.tasks := by
    intro f hne hf
    rw [htasks] at hf
    simpa [hne] using List.mem_of_mem_erase hf
  refine ⟨?_, ?_, ?_, ?_, ?_⟩
  · rw [htasks]
    exact hnd.erase _
  · intro hcreate
    rw [h.setup (hother _ (by simp) hcreate)] at hmem
    simp at hmem
  · intro hsetup
    rw [htasks, hnd.mem_erase_iff] at hsetup
    exact absurd rfl hsetup.1
  · intro hs hmode
    rw [hst] at hs
    exact h.started hs (hother _ (by simp) hmode)
  · rw [hon, hst, h.on]

theorem Roster.start (h : s.Roster) (hmem : .commandRoomba ∈ s.tasks) : s.startGame.Roster := by
  obtain ⟨hon, hst, htasks⟩ := h.startGame
  have hother : ∀ f, f ≠ TaskFunction.modeChange → f ∈ s.startGame.tasks → f ∈ s.tasks := by
    intro f hne hf
    rw [htasks] at hf
    split_ifs at hf
    · exact hf
    · simpa [hne] using hf
  refine ⟨?_, ?_, ?_, ?_, hon.trans hst.symm⟩
  · rw [htasks]
    split_ifs with hs
    · exact h.nodup
    · rw [List.nodup_append]
      refine ⟨h.nodup, by simp, ?_⟩
      rintro f hf g hg rfl
      rw [List.mem_singleton] at hg
      subst hg
      exact h.started (by simpa using hs) hf
  · intro hcreate
    rw [h.setup (hother _ (by simp) hcreate)] at hmem
    simp at hmem
  · intro hsetup
    exact absurd hmem (h.command (hother _ (by simp) hsetup))
  · intro hs
    rw [hst] at hs
    cases hs

theorem Roster.checkButton (h : s.Roster) (hmem : .commandRoomba ∈ s.tasks) :
    s.checkButton.Roster := by
  unfold Game.checkButton
  split_ifs
  · exact (h.start hmem).congr rfl rfl rfl
  · exact h.congr rfl rfl rfl

theorem Roster.modeChange (h : s.Roster) (hmem : .modeChange ∈ s.tasks) :
    s.modeChange.Roster := by
  unfold Game.modeChange
  by_cases hdead : s.dead = true
  · rw [if_pos hdead]
    refine ⟨h.nodup.erase _, ?_, ?_, ?_, h.on⟩
    · intro hcreate
      rw [h.setup (List.mem_of_mem_erase hcreate)] at hmem
      simp at hmem
    · intro hsetup hcommand
      exact h.command (List.mem_of_mem_erase hsetup) (List.mem_of_mem_erase hcommand)
    · intro hs
      exact absurd hmem (h.started hs)
  · rw [if_neg hdead]
    exact h.congr rfl rfl rfl

theorem Step.roster (hs : s.Step e s') (h : s.Roster) : s'.Roster := by
  obtain ⟨hmem, -, rfl⟩ := step_iff.1 hs
  by_cases he : e.playing = true
  · obtain ⟨ht, hst, hg⟩ := s.activate_playing he
    exact h.congr ht hst hg
  · cases e with
    | create => exact h.create hmem
    | setupRoomba => exact h.setupRoomba hmem
    | checkButton => exact h.checkButton hmem
    | modeChange => exact h.modeChange hmem
    | _ => exact absurd rfl he

theorem Initial.roster (h : s.Initial) : s.Roster := by
  obtain ⟨move, rfl⟩ := h
  exact ⟨by simp, fun _ => rfl, by simp, by simp, rfl⟩

/-- The task that changes the mode is activated while the robot is dead, and returns. -/
def EndsSwitcher (s : Game) (e : Activation) (_ : Game) : Prop :=
  e = .modeChange ∧ s.dead = true

/-- The button creates the mode switcher together with the first game. -/
theorem Roster.checkButton_switcher (h : s.Roster) :
    (.modeChange ∈ s.checkButton.tasks ↔ .modeChange ∈ s.tasks ∨
      s.startedBefore = false ∧ s.checkButton.startedBefore = true) ∧
    (s.startedBefore = true → s.checkButton.startedBefore = true) := by
  unfold Game.checkButton
  split_ifs
  · obtain ⟨-, hst, htasks⟩ := h.startGame
    show (_ ∈ s.startGame.tasks ↔ _ ∨ _ ∧ s.startGame.startedBefore = true) ∧
      (_ → s.startGame.startedBefore = true)
    rw [hst, htasks]
    cases s.startedBefore <;> simp
  · cases s.startedBefore <;> simp

/-- The mode switcher ends when it is activated while the robot is dead. -/
theorem Roster.modeChange_switcher (h : s.Roster) :
    (.modeChange ∈ s.modeChange.tasks ↔ .modeChange ∈ s.tasks ∧ s.dead = false) ∧
    s.modeChange.startedBefore = s.startedBefore := by
  unfold Game.modeChange
  by_cases hdead : s.dead = true
  · rw [if_pos hdead]
    have hgone : .modeChange ∉ (s.taskTerminate .modeChange).tasks := h.nodup.not_mem_erase
    exact ⟨by simp [hgone, hdead], rfl⟩
  · rw [if_neg hdead]
    simp [hdead]

/-- **One activation.**  The mode switcher is there afterwards if it was there and has not ended,
or if the first game was started; and the first game is started only once. -/
theorem Step.switcher_iff (hs : s.Step e s') (h : s.Roster) :
    (.modeChange ∈ s'.tasks ↔ .modeChange ∈ s.tasks ∧ ¬ s.EndsSwitcher e s' ∨
      s.startedBefore = false ∧ s'.startedBefore = true) ∧
    (s.startedBefore = true → s'.startedBefore = true) := by
  obtain ⟨hmem, -, rfl⟩ := step_iff.1 hs
  by_cases he : e.playing = true
  · obtain ⟨ht, hst, -⟩ := s.activate_playing he
    have hends : ¬ s.EndsSwitcher e (s.activate e) := by
      rintro ⟨rfl, -⟩
      cases he
    rw [ht, hst]
    refine ⟨⟨fun hm => Or.inl ⟨hm, hends⟩, ?_⟩, fun hx => hx⟩
    rintro (⟨hm, -⟩ | ⟨hf, ht'⟩)
    · exact hm
    · rw [hf] at ht'
      cases ht'
  · cases e with
    | create =>
      have hst : s.create.startedBefore = s.startedBefore := by simp [Game.create]
      have htasks := h.create_tasks hmem
      have hone := h.setup hmem
      show (_ ∈ s.create.tasks ↔ _ ∨ _ ∧ s.create.startedBefore = true) ∧
        (_ → s.create.startedBefore = true)
      rw [htasks, hst, hone]
      simp
    | setupRoomba =>
      have hst : s.setupRoomba.startedBefore = s.startedBefore := by simp [Game.setupRoomba]
      show (_ ∈ s.setupRoomba.tasks ↔ _ ∨ _ ∧ s.setupRoomba.startedBefore = true) ∧
        (_ → s.setupRoomba.startedBefore = true)
      rw [h.setupRoomba_tasks, hst, List.mem_erase_of_ne (by simp)]
      simp [EndsSwitcher]
    | checkButton =>
      have hends : ¬ s.EndsSwitcher .checkButton (s.activate .checkButton) := fun hx => by
        cases hx.1
      rw [and_iff_left hends]
      exact h.checkButton_switcher
    | modeChange =>
      have hends : s.EndsSwitcher .modeChange (s.activate .modeChange) ↔ ¬ s.dead = false := by
        simp [EndsSwitcher]
      obtain ⟨hmode, hst⟩ := h.modeChange_switcher
      show (_ ∈ s.modeChange.tasks ↔ _ ∨ _ ∧ s.modeChange.startedBefore = true) ∧
        (_ → s.modeChange.startedBefore = true)
      rw [hmode, hst, hends, not_not]
      cases s.startedBefore <;> simp
    | _ => exact absurd rfl he

/-- **The mode switcher, exactly.**  Whenever a game is on, there is exactly one task that changes
the mode, unless that task was activated while the robot was dead, in any game since power-on. -/
theorem mode_switcher_iff (h₀ : s₀.Initial) (hrun : Run Step s₀ es s) (hon : s.gameOn = true) :
    s.tasks.count .modeChange = 1 ↔ ¬ Run.Passes Step EndsSwitcher s₀ es s := by
  have hroster : s.Roster := hrun.invariant h₀.roster fun _ _ _ h hs => hs.roster h
  have hcount : s.tasks.count .modeChange = 1 ↔ .modeChange ∈ s.tasks := by
    constructor
    · intro hc
      exact List.count_pos_iff.1 (by omega)
    · intro hm
      exact List.count_eq_one_of_mem hroster.nodup hm
  rw [hcount]
  constructor
  · rintro hm ⟨es₁, e, es₂, s₁, s₂, -, hrun₁, hs, hends, hrun₂, -⟩
    -- once the task has ended it is not created again
    have hroster₁ : s₁.Roster := hrun₁.invariant h₀.roster fun _ _ _ h hs => hs.roster h
    obtain ⟨rfl, hdead⟩ := hends
    have hstarted : s₁.startedBefore = true := by
      have hmem := (step_iff.1 hs).1
      by_contra hne
      exact hroster₁.started (by simpa using hne) hmem
    obtain ⟨hiff, hst⟩ := hs.switcher_iff hroster₁
    have hgone : .modeChange ∉ s₂.tasks := by
      rw [hiff]
      rintro (⟨-, hnot⟩ | ⟨hf, -⟩)
      · exact hnot ⟨rfl, hdead⟩
      · rw [hstarted] at hf
        cases hf
    obtain ⟨-, -, hgone'⟩ := hrun₂.invariant
      (P := fun s => s.Roster ∧ s.startedBefore = true ∧ .modeChange ∉ s.tasks)
      ⟨hs.roster hroster₁, hst hstarted, hgone⟩ fun t e u ⟨h, hst, hno⟩ hs => by
        obtain ⟨hiff, hst'⟩ := hs.switcher_iff h
        refine ⟨hs.roster h, hst' hst, ?_⟩
        rw [hiff]
        rintro (⟨hm, -⟩ | ⟨hf, -⟩)
        · exact hno hm
        · rw [hst] at hf
          cases hf
    exact hgone' hm
  · intro hno
    have hstart : s₀.startedBefore = true → .modeChange ∈ s₀.tasks := by
      obtain ⟨move, rfl⟩ := h₀
      intro hs
      cases hs
    rcases hrun.passes_or
        (P := fun s => s.Roster ∧ (s.startedBefore = true → .modeChange ∈ s.tasks))
        ⟨h₀.roster, hstart⟩ (o := EndsSwitcher) fun t e u ⟨h, hm⟩ hs => by
          by_cases hends : t.EndsSwitcher e u
          · exact Or.inl hends
          · refine Or.inr ⟨hs.roster h, fun hst => (hs.switcher_iff h).1.2 ?_⟩
            cases ht : t.startedBefore with
            | true => exact Or.inl ⟨hm ht, hends⟩
            | false => exact Or.inr ⟨rfl, hst⟩ with hpass | ⟨-, hm⟩
    · exact absurd hpass hno
    · exact hm (hroster.on.symm.trans hon)

/-- The button is pressed again. -/
def restart : List Activation := [.rxData (.ofFields 512 512 0 512 512 1), .checkButton]

/-- The robot dies and is restarted before a minute is over. -/
theorem mode_switcher_after_restart :
    ∃ s ∈ (after (opening ++ .drive {} :: hits ++ restart)).filter fun s =>
        s.gameOn = true ∧ s.dead = false,
      s.tasks.count .modeChange = 1 := by
  refine exists_mem_of_isSome (by decide +kernel) fun s hs => ?_
  obtain ⟨hs, hfacts⟩ := Option.filter_eq_some_iff.1 hs
  obtain ⟨s₀, h₀, hrun⟩ := run_of_after hs
  refine (mode_switcher_iff h₀ hrun (of_decide_eq_true hfacts).1).2 ?_
  rintro ⟨es₁, e, es₂, s₁, s₂, heq, -, -, ⟨rfl, -⟩, -⟩
  have hmem : Activation.modeChange ∈ opening ++ .drive {} :: hits ++ restart := by
    rw [heq]
    simp
  exact absurd hmem (by decide +kernel)

/-- A minute is over while the robot is dead: after the restart nothing changes the mode. -/
theorem mode_switcher_lost :
    ∃ s ∈ after (opening ++ .drive {} :: hits ++ .modeChange :: restart),
      s.Reachable ∧ (s.gameOn = true ∧ s.dead = false) ∧ s.tasks.count .modeChange = 0 := by
  have hex : ∃ s ∈ (after (opening ++ .drive {} :: hits ++ .modeChange :: restart)).filter fun s =>
      (s.gameOn = true ∧ s.dead = false) ∧ s.tasks.count .modeChange = 0, True :=
    exists_mem_of_isSome (by decide +kernel) fun _ _ => trivial
  obtain ⟨s, hs, -⟩ := hex
  obtain ⟨hs, hfacts⟩ := Option.filter_eq_some_iff.1 hs
  exact ⟨s, hs, reachable_of_after hs, of_decide_eq_true hfacts⟩

end Game

end RoombaRtos
