import RoombaRtos.Os

/-!
# The scheduling policy, over lists

What the kernel is for, without pointers: every priority level is a list of tasks in the order
in which they wait for the processor, and the undelivered messages are one list in the order
in which they were sent.

* `Sched.select` — a ready system task goes first; then the periodic task at the head of its
  level if it is due; then a ready round-robin task; then the idle process;
* `Sched.requeue` — before that, the task that ran last moves behind the others of its level;
* `Sched.create`, `Sched.yield`, `Sched.terminate`, `Sched.send`, `Sched.recv`, `Sched.reply`,
  `Sched.asend`, `Sched.tick` — the effect of each request;
* `Sched.enter` — one kernel entry.

The kernel of `Kernel` runs in lockstep with this machine; that is proved in `Refinement`.
-/

namespace RoombaRtos

open ListQueue

structure Sched where
  task : PDPtr → Task PDPtr
  /-- The tasks of each level, first come first. -/
  level : PriorityLevel → List PDPtr
  /-- The messages that were sent and not received yet, oldest first. -/
  mail : List Mail
  current : PDPtr
  sysClock : Tick
  clockState : OverflowState
  info : InfoPtr PDPtr → KernelRequestParams

namespace Sched

/-! ### Updates -/

def setTask (a : Sched) (p : PDPtr) (f : Task PDPtr → Task PDPtr) : Sched :=
  { a with task := Function.update a.task p (f (a.task p)) }

def setState (a : Sched) (p : PDPtr) (state : ProcessState) : Sched :=
  a.setTask p fun t => { t with state := state }

def setInfo (a : Sched) (r : InfoPtr PDPtr) (f : KernelRequestParams → KernelRequestParams) :
    Sched :=
  { a with info := Function.update a.info r (f (a.info r)) }

def setReqParams (a : Sched) (p : PDPtr) (f : KernelRequestParams → KernelRequestParams) :
    Sched :=
  match (a.task p).reqParams with
  | none => a
  | some r => a.setInfo r f

def setLevel (a : Sched) (q : PriorityLevel) (l : List PDPtr) : Sched :=
  { a with level := Function.update a.level q l }

def setMail (a : Sched) (mail : List Mail) : Sched := { a with mail := mail }

/-! ### Choosing the next task -/

def ready (a : Sched) (p : PDPtr) : Bool := (a.task p).state = .ready

def due (a : Sched) (p : PDPtr) : Bool :=
  a.sysClock ≥ (a.task p).tons && a.clockState == (a.task p).clockState

def missedStart (a : Sched) (p : PDPtr) : Bool :=
  (a.task p).ticksRemaining == (a.task p).wcet && a.sysClock > (a.task p).tons &&
    a.clockState == (a.task p).clockState

/-- A periodic task takes its place in the order of start times. -/
def place (a : Sched) (p : PDPtr) (l : List PDPtr) : List PDPtr :=
  placeBehind (fun e => scansPast (a.task p) a.sysClock (a.task e)) p l

/-- The head of a periodic level takes its place anew. -/
def replaceHead (a : Sched) : List PDPtr → List PDPtr
  | [] => []
  | p :: l => a.place p l

/-- The level of the current task moves on by one. -/
def requeue (a : Sched) : Sched :=
  match (a.task a.current).priority with
  | .system => a.setLevel .system ((a.level .system).rotate 1)
  | .periodic => a.setLevel .periodic (a.replaceHead (a.level .periodic))
  | .rr => a.setLevel .rr ((a.level .rr).rotate 1)
  | .unlisted => a

/-- The first ready task of a level comes to its front. -/
def bring (a : Sched) (q : PriorityLevel) : Sched :=
  a.setLevel q (rotateTo a.ready (a.level q))

def run (a : Sched) (p : PDPtr) : Sched := { a.setState p .running with current := p }

/-- The periodic task to run, if any: the head of the level, when it is due. -/
def duePeriodic (a : Sched) : Option PDPtr := (a.level .periodic).head?.filter a.due

def select (a : Sched) : Except Halt Sched :=
  match (a.level .system).find? a.ready with
  | some p => .ok ((a.bring .system).run p)
  | none =>
      match a.duePeriodic with
      | some p =>
          if a.missedStart p then .error (.abort .timingViolation) else .ok (a.run p)
      | none =>
          match (a.level .rr).find? a.ready with
          | some p => .ok ((a.bring .rr).run p)
          | none => .ok (a.run .idleProcess)

def dispatch (a : Sched) : Except Halt Sched := a.requeue.select

/-! ### Requests -/

/-- The process table entry that the next task will use. -/
def freeSlot (a : Sched) : Option Slot :=
  (List.finRange maxThread).find? fun x => (a.task (.process x)).state = .dead

/-- The parameters of a creation request are acceptable. -/
def admissible (q : KernelRequestParams) : Bool :=
  match q.priority with
  | .system => true
  | .rr => true
  | .periodic => q.period > 0 && q.wcet < q.period
  | .unlisted => false

/-- The descriptor of a new task in table entry `x`. -/
def newTask (a : Sched) (x : Slot) (f : BitVec 16) (q : KernelRequestParams) : Task PDPtr :=
  let t : Task PDPtr :=
    { code := some f, state := .ready, processId := pidOf x, priority := q.priority, arg := q.arg }
  match q.priority with
  | .rr => { t with ticksRemaining := 1 }
  | .periodic =>
      { t with
        period := q.period
        wcet := q.wcet
        tons := a.sysClock + q.offset
        ticksRemaining := q.wcet
        clockState := a.clockState }
  | _ => t

/-- A task joins a level: periodic tasks by start time, others at the end. -/
def join (a : Sched) (q : PriorityLevel) (p : PDPtr) : List PDPtr :=
  match q with
  | .periodic => a.place p (a.level .periodic)
  | q => a.level q ++ [p]

/-- A task is created in table entry `x`. -/
def install (a : Sched) (x : Slot) (f : BitVec 16) (q : KernelRequestParams) : Sched :=
  let a := a.setTask (.process x) fun _ => a.newTask x f q
  a.setLevel q.priority (a.join q.priority (.process x))

def create (a : Sched) (r : InfoPtr PDPtr) : Except Halt Sched :=
  match a.freeSlot with
  | none => .ok a
  | some x =>
      match (a.info r).code with
      | none => .error (.abort .nullTaskFunction)
      | some f =>
          if admissible (a.info r) then
            .ok ((a.install x f (a.info r)).setInfo r fun q => { q with outPid := pidOf x })
          else .error (.abort .invalidReqInfo)

/-- The current task leaves its level and its undelivered messages are discarded. -/
def bury (a : Sched) : Sched :=
  let q := (a.task a.current).priority
  let a := a.setLevel q ((a.level q).erase a.current)
  let a := a.setMail (a.mail.filter fun m => !m.admits (a.task a.current).processId anyMask)
  a.setState a.current .dead

def terminate (a : Sched) : Except Halt Sched :=
  if (a.task a.current).priority = .unlisted then .error (.abort .invalidPriority)
  else a.bury.dispatch

/-- The live process a request is addressed to. -/
def target (a : Sched) (r : InfoPtr PDPtr) : Option Slot :=
  (validId (a.info r).msgTo).filter fun x => (a.task (.process x)).state != .dead

/-- The target waits for a message of this type. -/
def awaits (a : Sched) (p : PDPtr) (type : MType) : Bool :=
  (a.task p).state = .recvBlock &&
    ((a.task p).reqParams.map fun r => (a.info r).msgMask).any fun mask => maskTestAny mask type

/-- The message of a send request. -/
def letter (a : Sched) (r : InfoPtr PDPtr) : Mail where
  data := (a.info r).msgPtrData
  mask := (a.info r).msgMask
  sender := (a.task a.current).processId
  receiver := (a.info r).msgTo

/-- A message goes straight to the receiver `x` that waits for it. -/
def handOver (a : Sched) (r : InfoPtr PDPtr) (x : Slot) : Sched :=
  let a' := (a.setState (.process x) .ready).setState a.current .replyBlock
  a'.setReqParams (.process x) fun q =>
    { q with msgPtrData := (a.letter r).data, outPid := (a.letter r).sender }

/-- A message waits for its receiver, and the sender with it. -/
def post (a : Sched) (r : InfoPtr PDPtr) : Sched :=
  (a.setMail (a.mail ++ [a.letter r])).setState a.current .sendBlock

def send (a : Sched) (r : InfoPtr PDPtr) : Except Halt Sched :=
  if (a.task a.current).priority = .periodic then .error (.abort .periodicMsg)
  else
    match a.target r with
    | none => .ok a
    | some x =>
        if a.awaits (.process x) (a.info r).msgMask then (a.handOver r x).dispatch
        else (a.post r).dispatch

/-- The messages that a receive request of the current task admits. -/
def wanted (a : Sched) (r : InfoPtr PDPtr) (m : Mail) : Bool :=
  m.admits (a.task a.current).processId (a.info r).msgMask

/-- The current task takes the message `m` of `sender`, who now waits for the reply. -/
def take (a : Sched) (r : InfoPtr PDPtr) (m : Mail) (sender : Slot) : Sched :=
  let a' := a.setMail (a.mail.eraseP (a.wanted r))
  let a' := a'.setInfo r fun q => { q with msgPtrData := m.data, outPid := m.sender }
  a'.setState (.process sender) .replyBlock

def recv (a : Sched) (r : InfoPtr PDPtr) : Except Halt Sched :=
  if (a.task a.current).priority = .periodic then .error (.abort .periodicMsg)
  else
    match a.mail.find? (a.wanted r) with
    | some m =>
        match validId m.sender with
        | none => .error .undefinedAccess
        | some sender => (a.take r m sender).dispatch
    | none => (a.setState a.current .recvBlock).dispatch

/-- A task that waits for a reply gets it. -/
def answer (a : Sched) (r : InfoPtr PDPtr) (x : Slot) : Sched :=
  (a.setState (.process x) .ready).setReqParams (.process x) fun q =>
    { q with msgData := (a.info r).msgData }

def reply (a : Sched) (r : InfoPtr PDPtr) : Except Halt Sched :=
  if (a.task a.current).priority = .periodic then .error (.abort .periodicMsg)
  else
    match a.target r with
    | none => .ok a
    | some x =>
        if (a.task (.process x)).state = .replyBlock then (a.answer r x).dispatch
        else a.dispatch

/-- An asynchronous message goes to the receiver `x` that waits for it. -/
def notify (a : Sched) (r : InfoPtr PDPtr) (x : Slot) : Sched :=
  (a.setState (.process x) .ready).setReqParams (.process x) fun q =>
    { q with
      msgData := (a.info r).msgData
      msgPtrData := none
      outPid := (a.task a.current).processId }

def asend (a : Sched) (r : InfoPtr PDPtr) : Except Halt Sched :=
  if validId (a.info r).msgTo = none then .error (.abort .invalidReqInfo)
  else
    match a.target r with
    | none => .ok a
    | some x =>
        if a.awaits (.process x) (a.info r).msgMask then (a.notify r x).dispatch
        else .ok a

/-- The current task yields. -/
def yield (a : Sched) : Except Halt Sched := do
  let t ← Kernel.yieldTask (a.task a.current)
  (a.setTask a.current fun _ => t).dispatch

def advanceClock (a : Sched) : Sched :=
  { a with
    sysClock := a.sysClock + 1
    clockState := if a.sysClock + 1 < a.sysClock then a.clockState.flip else a.clockState }

/-- A tick of the clock hits the current task. -/
def tick (a : Sched) : Except Halt Sched := do
  let t ← Kernel.chargeTick a.current (a.task a.current)
  (a.setTask a.current fun _ => t).advanceClock.dispatch

def serve (a : Sched) (r : InfoPtr PDPtr) : KernelRequestType → Except Halt Sched
  | .none => .ok a
  | .timer => a.tick
  | .create => do
      let a ← a.create r
      a.dispatch
  | .next => a.yield
  | .getArg => .ok (a.setInfo r fun q => { q with arg := (a.task a.current).arg })
  | .getPid => .ok (a.setInfo r fun q => { q with outPid := (a.task a.current).processId })
  | .getNow => .ok (a.setInfo r fun q => { q with outNow := a.sysClock })
  | .msgSend => a.send r
  | .msgRecv => a.recv r
  | .msgRply => a.reply r
  | .msgASend => a.asend r
  | .terminate => a.terminate
  | .abort => .error (.abort (a.info r).abortCode)

/-- The current task is interrupted, and its request block is `r`. -/
def suspend (a : Sched) : Entry → Sched × InfoPtr PDPtr
  | .timer =>
      ((a.setInfo .timerIsr fun _ => { request := .timer }).setState a.current .ready, .timerIsr)
  | .call c =>
      let r := InfoPtr.stub a.current
      let a' := a.setInfo r fun _ => c.params
      ((a'.setTask a.current fun t => { t with reqParams := some r }).setState a.current .ready, r)

/-- One kernel entry, until the next return to user mode. -/
def enter (a : Sched) (e : Entry) : Except Halt Sched := do
  let (a, r) := a.suspend e
  let a ← a.serve r (a.info r).request
  return a.setInfo r fun q => { q with request := .none }

end Sched

end RoombaRtos
