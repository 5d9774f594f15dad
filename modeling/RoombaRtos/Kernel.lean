import RoombaRtos.Rotation
import RoombaRtos.Message

/-!
# The kernel

The scheduler and the request handlers of `kernel/kernel.c`, as functions on an explicit
kernel state.  Every function of the C file that decides which task runs, or that moves a
message, keeps its name.  Context switching and the timer hardware are not part of this file:
the stack pointers are left out of the descriptors, and a kernel entry is one application of
`timerInterrupt` or `kernelRequest`, from one `Exit_Kernel` to the next.

* `rotateReady`, `selectNext`, `dispatch` — choice of the next task;
* `kernelTaskCreate`, `kernelRequestCreate`, …, `kernelRequestTerminate` — the handlers;
* `serveRequest` — one turn of the loop of `Next_Kernel_Request`;
* `kernelInit`, `kernelStart` — booting.
-/

namespace RoombaRtos

/-! ### Kernel state -/

/-- A process descriptor of the table `Process`, or `IdleProcess`. -/
inductive PDPtr
  | process (i : Slot)
  | idleProcess
deriving DecidableEq, Repr

/-- The static variables of the kernel, and the parameter blocks on the stacks. -/
structure Kernel where
  /-- The descriptor of the current task; `NULL` until the first `Dispatch`. -/
  cp : Option PDPtr
  requestInfo : Option (InfoPtr PDPtr)
  /-- `Process` and `IdleProcess`. -/
  pd : PDPtr → PD PDPtr
  /-- `system_tasks`, `periodic_tasks` and `rr_tasks`, by the level they hold. -/
  queue : PriorityLevel → TaskQueue PDPtr
  messages : Slot → Msg Slot
  msgQueue : MsgQueue Slot
  tasks : BitVec 16
  kernelActive : Bool
  sysClock : Tick
  clockState : OverflowState
  info : InfoPtr PDPtr → KernelRequestParams

namespace Kernel

/-- Assignment to fields of a descriptor. -/
def setTask (s : Kernel) (p : PDPtr) (f : Task PDPtr → Task PDPtr) : Kernel :=
  { s with pd := Function.update s.pd p { s.pd p with toTask := f (s.pd p).toTask } }

/-- `p->state = state`. -/
def setState (s : Kernel) (p : PDPtr) (state : ProcessState) : Kernel :=
  s.setTask p fun t => { t with state := state }

/-- Assignment to fields of a parameter block. -/
def setInfo (s : Kernel) (r : InfoPtr PDPtr) (f : KernelRequestParams → KernelRequestParams) :
    Kernel :=
  { s with info := Function.update s.info r (f (s.info r)) }

/-- Assignment through `p->req_params`. -/
def setReqParams (s : Kernel) (p : PDPtr) (f : KernelRequestParams → KernelRequestParams) :
    Kernel :=
  match (s.pd p).reqParams with
  | none => s
  | some r => s.setInfo r f

/-- `p->req_params->msg_mask`.  A descriptor whose process never made a request has a null
`req_params`; what is read there is never used, since such a process is not in `RECV_BLOCK`. -/
def recvMask (s : Kernel) (p : PDPtr) : Option Mask :=
  (s.pd p).reqParams.map fun r => (s.info r).msgMask

/-- The target waits for a message of the type being sent. -/
def awaits (s : Kernel) (p : PDPtr) (type : MType) : Bool :=
  (s.pd p).state = .recvBlock && (s.recvMask p).any fun mask => maskTestAny mask type

def setQueue (s : Kernel) (level : PriorityLevel)
    (r : (PDPtr → PD PDPtr) × TaskQueue PDPtr) : Kernel :=
  { s with pd := r.1, queue := Function.update s.queue level r.2 }

/-! ### Dispatching -/

/-- The `switch` of `Dispatch`: the current task moves behind the others of its queue. -/
def requeueCurrent (s : Kernel) (cp : PDPtr) : Except Halt Kernel :=
  match (s.pd cp).priority with
  | .system =>
      if (s.queue .system).length > 1 then do
        let r ← requeueHead s.pd (s.queue .system)
        return s.setQueue .system r
      else .ok s
  | .periodic =>
      if (s.queue .periodic).length > 1 then do
        let r ← reinsertHead s.pd (s.queue .periodic) s.sysClock
        return s.setQueue .periodic r
      else .ok s
  | .rr =>
      if (s.queue .rr).length > 1 then do
        let r ← requeueHead s.pd (s.queue .rr)
        return s.setQueue .rr r
      else .ok s
  | .unlisted =>
      if cp ≠ .idleProcess then .error (.abort .invalidPriority) else .ok s

/-- `Queue_Rotate_Ready` on one of the three queues. -/
def rotateReady (s : Kernel) (level : PriorityLevel) : Except Halt (Option PDPtr × Kernel) := do
  let (newP, pd, queue) ← queueRotateReady s.pd (s.queue level) s.sysClock
  return (newP, s.setQueue level (pd, queue))

/-- `if (queue.length > 0) new_p = Queue_Rotate_Ready(&queue)`, starting from `new_p = NULL`. -/
def firstReady (s : Kernel) (level : PriorityLevel) : Except Halt (Option PDPtr × Kernel) :=
  if (s.queue level).length > 0 then s.rotateReady level else .ok (none, s)

/-- The clock has reached the start time of `p`, in its epoch. -/
def due (s : Kernel) (p : PDPtr) : Bool :=
  s.sysClock ≥ (s.pd p).tons && s.clockState == (s.pd p).clockState

/-- Whether the head of `periodic_tasks` is due. -/
def periodicDue (s : Kernel) : Except Halt Bool :=
  if (s.queue .periodic).length > 0 then
    match peek (s.queue .periodic) with
    | none => .error .undefinedAccess
    | some p => .ok (s.due p)
  else .ok false

/-- A periodic task that has not been charged yet is past its start tick. -/
def missedStart (s : Kernel) (p : PDPtr) : Bool :=
  (s.pd p).ticksRemaining == (s.pd p).wcet && s.sysClock > (s.pd p).tons &&
    s.clockState == (s.pd p).clockState

/-- The search of `Dispatch` for a task to run, by falling priority. -/
def selectNext (s : Kernel) : Except Halt (PDPtr × Kernel) := do
  let (newP, s) ← s.firstReady .system
  match newP with
  | some p => return (p, s)
  | none =>
      if ← s.periodicDue then
        let (newP, s) ← s.rotateReady .periodic
        match newP with
        | some p =>
            if s.missedStart p then .error (.abort .timingViolation) else return (p, s)
        | none => return (.idleProcess, s)
      else
        let (newP, s) ← s.firstReady .rr
        return (newP.getD .idleProcess, s)

/-- `Cp->state == RUNNING`, read at boot through a null `Cp`. -/
def currentRunning (s : Kernel) : Bool :=
  match s.cp with
  | none => false
  | some cp => (s.pd cp).state = .running

def dispatch (s : Kernel) : Except Halt Kernel := do
  let s ←
    match s.cp with
    | none => pure s
    | some cp => s.requeueCurrent cp
  if s.currentRunning then return s
  else
    let (newP, s) ← s.selectNext
    return { s.setState newP .running with cp := some newP }

/-! ### Task creation and termination -/

/-- The fields set by `Kernel_Task_Create_At`. -/
def kernelTaskCreateAt (p : PD PDPtr) (f : BitVec 16) : PD PDPtr :=
  { p with code := some f, state := .ready, next := none, reqParams := none }

/-- The first dead entry of the process table. -/
def findDead (s : Kernel) : Option Slot :=
  (List.finRange maxThread).find? fun x => (s.pd (.process x)).state = .dead

def enqueueAt (s : Kernel) (level : PriorityLevel) (p : PDPtr) : Except Halt Kernel := do
  let r ← enqueue s.pd (s.queue level) p
  return s.setQueue level r

def insertAt (s : Kernel) (p : PDPtr) : Except Halt Kernel := do
  let r ← insert s.pd (s.queue .periodic) p s.sysClock
  return s.setQueue .periodic r

/-- The `if` chain of `Kernel_Task_Create` over the priority of the new process `x`. -/
def linkNewTask (s : Kernel) (x : Slot) (q : KernelRequestParams) : Except Halt Kernel :=
  match q.priority with
  | .system => s.enqueueAt .system (.process x)
  | .rr =>
      (s.setTask (.process x) fun t => { t with ticksRemaining := 1 }).enqueueAt .rr (.process x)
  | .periodic =>
      if q.period > 0 ∧ q.wcet < q.period then
        (s.setTask (.process x) fun t =>
          { t with
            period := q.period
            wcet := q.wcet
            tons := s.sysClock + q.offset
            ticksRemaining := q.wcet
            clockState := s.clockState }).insertAt (.process x)
      else .error (.abort .invalidReqInfo)
  | .unlisted => .error (.abort .invalidReqInfo)

/-- The descriptor that `Kernel_Task_Create` fills in before it links it. -/
def freshPD (f : BitVec 16) (q : KernelRequestParams) : PD PDPtr :=
  { kernelTaskCreateAt {} f with priority := q.priority, arg := q.arg }

/-- `Kernel_Task_Create`, once the free entry `x` has been found. -/
def createTask (s : Kernel) (r : InfoPtr PDPtr) (x : Slot) (f : BitVec 16) :
    Except Halt Kernel := do
  let fresh := { s with pd := Function.update s.pd (.process x) (freshPD f (s.info r)) }
  let s ← fresh.linkNewTask x (s.info r)
  let s := s.setTask (.process x) fun t => { t with processId := pidOf x }
  let s := s.setInfo r fun q => { q with outPid := pidOf x }
  return { s with tasks := s.tasks + 1 }

def kernelTaskCreate (s : Kernel) (r : InfoPtr PDPtr) : Except Halt Kernel :=
  if s.tasks.toNat ≥ maxThread then .ok s
  else
    match (s.info r).code with
    | none => .error (.abort .nullTaskFunction)
    | some f =>
        match s.findDead with
        | none => .error (.abort .noDeadProcess)
        | some x => s.createTask r x f

def kernelRequestCreate (s : Kernel) (r : InfoPtr PDPtr) : Except Halt Kernel := do
  let s ← s.kernelTaskCreate r
  s.dispatch

/-- The `switch` of `Kernel_Request_Next`. -/
def yieldTask (t : Task PDPtr) : Except Halt (Task PDPtr) :=
  match t.priority with
  | .system => .ok t
  | .periodic =>
      let tons := t.tons + t.period
      .ok { t with
        tons := tons
        ticksRemaining := t.wcet
        clockState := if tons < t.tons then t.clockState.flip else t.clockState }
  | .rr => .ok { t with ticksRemaining := 1 }
  | .unlisted => .error (.abort .invalidPriority)

def kernelRequestNext (s : Kernel) (cp : PDPtr) : Except Halt Kernel := do
  let t ← yieldTask (s.pd cp).toTask
  let t :=
    if t.state ≠ .sendBlock ∧ t.state ≠ .replyBlock ∧ t.state ≠ .recvBlock then
      { t with state := .ready }
    else t
  (s.setTask cp fun _ => t).dispatch

def kernelRequestAbort (s : Kernel) (r : InfoPtr PDPtr) : Except Halt Kernel :=
  .error (.abort (s.info r).abortCode)

/-- The loop of `Kernel_Request_Terminate` that removes the messages sent to `receiver`. -/
def purgeLoop (receiver : Pid) :
    ℕ → (Slot → Msg Slot) → MsgQueue Slot → Except Halt ((Slot → Msg Slot) × MsgQueue Slot)
  | 0, _, _ => .error .diverges
  | fuel + 1, msgs, queue => do
      let (msg, msgs, queue) ← msgFindReceiver msgs queue receiver anyMask
      match msg with
      | none => return (msgs, queue)
      | some _ => purgeLoop receiver fuel msgs queue

def kernelRequestTerminate (s : Kernel) (cp : PDPtr) : Except Halt Kernel := do
  let level := (s.pd cp).priority
  if level = .unlisted then .error (.abort .invalidPriority)
  else
    let (killedTask, pd, queue) ← deque s.pd (s.queue level)
    let s := s.setQueue level (pd, queue)
    if killedTask ≠ cp then .error (.abort .wrongTaskOrder)
    else
      let (msgs, msgQueue) ←
        purgeLoop (s.pd cp).processId (s.msgQueue.length.toNat + 1) s.messages s.msgQueue
      let s := { s with messages := msgs, msgQueue := msgQueue }
      let s := s.setState cp .dead
      { s with tasks := s.tasks - 1 }.dispatch

/-! ### Messages -/

def kernelRequestMsgSend (s : Kernel) (cp : PDPtr) (r : InfoPtr PDPtr) : Except Halt Kernel :=
  if (s.pd cp).priority = .periodic then .error (.abort .periodicMsg)
  else
    match validId (s.info r).msgTo with
    | none => .ok s
    | some x =>
        let pRecv := PDPtr.process x
        if (s.pd pRecv).state = .dead then .ok s
        else if s.awaits pRecv (s.info r).msgMask then
          let s := s.setState pRecv .ready
          let s := s.setState cp .replyBlock
          let s := s.setReqParams pRecv fun q =>
            { q with
              msgPtrData := (s.info r).msgPtrData
              outPid := (s.pd cp).processId }
          s.dispatch
        else
          match validId (s.pd cp).processId with
          | none => .error .undefinedAccess
          | some i => do
              let msg : Msg Slot :=
                { s.messages i with
                  data := (s.info r).msgPtrData
                  mask := (s.info r).msgMask
                  receiver := (s.info r).msgTo
                  sender := (s.pd cp).processId }
              let (msgs, queue) ←
                msgEnqueue (Function.update s.messages i msg) s.msgQueue i
              let s := { s with messages := msgs, msgQueue := queue }
              let s := s.setState cp .sendBlock
              s.dispatch

def kernelRequestMsgRecv (s : Kernel) (cp : PDPtr) (r : InfoPtr PDPtr) : Except Halt Kernel :=
  if (s.pd cp).priority = .periodic then .error (.abort .periodicMsg)
  else do
    let (msg, msgs, queue) ←
      msgFindReceiver s.messages s.msgQueue (s.pd cp).processId (s.info r).msgMask
    let s := { s with messages := msgs, msgQueue := queue }
    match msg with
    | some m =>
        let msg := s.messages m
        let s := s.setInfo r fun q => { q with msgPtrData := msg.data, outPid := msg.sender }
        let s := s.setState cp .ready
        match validId msg.sender with
        | none => .error .undefinedAccess
        | some sender =>
            let s := s.setState (.process sender) .replyBlock
            let cleared := { s.messages m with data := none, receiver := -1, sender := -1 }
            { s with messages := Function.update s.messages m cleared }.dispatch
    | none => (s.setState cp .recvBlock).dispatch

def kernelRequestMsgRply (s : Kernel) (cp : PDPtr) (r : InfoPtr PDPtr) : Except Halt Kernel :=
  if (s.pd cp).priority = .periodic then .error (.abort .periodicMsg)
  else
    match validId (s.info r).msgTo with
    | none => .ok s
    | some x =>
        let pRecv := PDPtr.process x
        if (s.pd pRecv).state = .dead then .ok s
        else
          let s :=
            if (s.pd pRecv).state = .replyBlock then
              (s.setState pRecv .ready).setReqParams pRecv fun q =>
                { q with msgData := (s.info r).msgData }
            else s
          (s.setState cp .ready).dispatch

def kernelRequestMsgASend (s : Kernel) (cp : PDPtr) (r : InfoPtr PDPtr) : Except Halt Kernel :=
  match validId (s.info r).msgTo with
  | none => .error (.abort .invalidReqInfo)
  | some x =>
      let pRecv := PDPtr.process x
      if (s.pd pRecv).state = .dead then .ok s
      else if s.awaits pRecv (s.info r).msgMask then
        let s := s.setState pRecv .ready
        let s := s.setReqParams pRecv fun q =>
          { q with
            msgData := (s.info r).msgData
            msgPtrData := none
            outPid := (s.pd cp).processId }
        s.dispatch
      else .ok s

/-! ### The timer and the remaining requests -/

/-- The `switch` of `Kernel_Request_Timer`. -/
def chargeTick (cp : PDPtr) (t : Task PDPtr) : Except Halt (Task PDPtr) :=
  match t.priority with
  | .system => .ok t
  | .periodic =>
      let ticks := t.ticksRemaining - 1
      if ticks ≤ 0 then .error (.abort .timingViolation)
      else .ok { t with ticksRemaining := ticks }
  | .rr =>
      let ticks := t.ticksRemaining - 1
      .ok { t with ticksRemaining := if ticks ≤ 0 then 1 else ticks }
  | .unlisted => if cp ≠ .idleProcess then .error (.abort .invalidPriority) else .ok t

/-- The clock advances one tick, and its epoch flips when it wraps. -/
def advanceClock (s : Kernel) : Kernel :=
  { s with
    sysClock := s.sysClock + 1
    clockState := if s.sysClock + 1 < s.sysClock then s.clockState.flip else s.clockState }

def kernelRequestTimer (s : Kernel) (cp : PDPtr) : Except Halt Kernel := do
  let t ← chargeTick cp (s.pd cp).toTask
  let s := (s.setTask cp fun _ => t).advanceClock
  (s.setState cp .ready).dispatch

def kernelRequestGetArg (s : Kernel) (cp : PDPtr) (r : InfoPtr PDPtr) : Kernel :=
  s.setInfo r fun q => { q with arg := (s.pd cp).arg }

def kernelRequestGetPid (s : Kernel) (cp : PDPtr) (r : InfoPtr PDPtr) : Kernel :=
  s.setInfo r fun q => { q with outPid := (s.pd cp).processId }

def kernelRequestGetNow (s : Kernel) (r : InfoPtr PDPtr) : Kernel :=
  s.setInfo r fun q => { q with outNow := s.sysClock }

/-! ### The request loop -/

/-- The table `request_handlers`. -/
def requestHandler (s : Kernel) (cp : PDPtr) (r : InfoPtr PDPtr) :
    KernelRequestType → Except Halt Kernel
  | .none => .ok s
  | .timer => s.kernelRequestTimer cp
  | .create => s.kernelRequestCreate r
  | .next => s.kernelRequestNext cp
  | .getArg => .ok (s.kernelRequestGetArg cp r)
  | .getPid => .ok (s.kernelRequestGetPid cp r)
  | .getNow => .ok (s.kernelRequestGetNow r)
  | .msgSend => s.kernelRequestMsgSend cp r
  | .msgRecv => s.kernelRequestMsgRecv cp r
  | .msgRply => s.kernelRequestMsgRply cp r
  | .msgASend => s.kernelRequestMsgASend cp r
  | .terminate => s.kernelRequestTerminate cp
  | .abort => s.kernelRequestAbort r

/-- The top of the loop of `Next_Kernel_Request`, up to `Exit_Kernel`. -/
def leaveKernel (s : Kernel) : Except Halt Kernel :=
  match s.requestInfo with
  | some r =>
      .ok { s.setInfo r fun q => { q with request := .none } with
        requestInfo := none, kernelActive := true }
  | none =>
      if s.kernelActive then .error (.abort .noRequestInfo)
      else .ok { s with kernelActive := true }

/-- The rest of the loop, entered from `Exit_Kernel`, and the next turn's top. -/
def serveRequest (s : Kernel) : Except Halt Kernel :=
  match s.requestInfo with
  | none => .error (.abort .noRequestInfo)
  | some r =>
      match s.cp with
      | none => .error .undefinedAccess
      | some cp => do
          let s := s.setState cp .ready
          let s ← s.requestHandler cp r (s.info r).request
          s.leaveKernel

/-- The timer interrupt, taken in user mode. -/
def timerInterrupt (s : Kernel) : Except Halt Kernel :=
  if s.kernelActive then
    if s.requestInfo ≠ none then .error (.abort .invalidReqInfo)
    else
      { s.setInfo .timerIsr fun _ => { request := .timer } with
        requestInfo := some .timerIsr }.serveRequest
  else .ok s

/-- `Kernel_Request(&info)`, called in user mode by the current task. -/
def kernelRequest (s : Kernel) (info : KernelRequestParams) : Except Halt Kernel :=
  if s.kernelActive then
    match s.cp with
    | none => .error .undefinedAccess
    | some cp =>
        let s := { s.setInfo (.stub cp) fun _ => info with requestInfo := some (.stub cp) }
        (s.setTask cp fun t => { t with reqParams := some (.stub cp) }).serveRequest
  else .ok s

/-! ### Booting -/

/-- The state built by `Kernel_Init` before it creates the setup task.  `kernelIdle` is the
address of `Kernel_idle`. -/
def initTables (kernelIdle : BitVec 16) : Kernel where
  cp := none
  requestInfo := none
  pd
    | .process _ => { state := .dead, clockState := .even }
    | .idleProcess => { kernelTaskCreateAt {} kernelIdle with priority := .unlisted }
  queue level := { head := none, tail := none, length := 0, type := level }
  messages _ := { data := none, mask := 0, sender := -1, receiver := -1, next := none }
  msgQueue := msgQueueInit
  tasks := 0
  kernelActive := false
  sysClock := 0
  clockState := .even
  info _ := {}

/-- `Kernel_Init`, with `create` the address of the user's setup task. -/
def kernelInit (create kernelIdle : BitVec 16) : Except Halt Kernel := do
  let s := initTables kernelIdle
  let s := s.setInfo .kernelInit fun _ =>
    { request := .create, priority := .system, code := some create, arg := 0 }
  let s ← { s with requestInfo := some .kernelInit }.kernelTaskCreate .kernelInit
  return { s with requestInfo := none }

/-- `Kernel_Start` up to the first `Exit_Kernel`. -/
def kernelStart (s : Kernel) : Except Halt Kernel :=
  if !s.kernelActive ∧ s.tasks > 0 then do
    let s ← s.dispatch
    s.leaveKernel
  else .error (.abort .failedStart)

/-- `main`: the machine up to the first return to user mode. -/
def boot (create kernelIdle : BitVec 16) : Except Halt Kernel := do
  let s ← kernelInit create kernelIdle
  s.kernelStart

end Kernel

end RoombaRtos
