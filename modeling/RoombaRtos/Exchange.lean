import RoombaRtos.TaskTable

/-!
# The message exchange

What the message calls do, without the scheduler.  Every process is dead, active, or blocked in
one of the three ways; the undelivered messages are a list; and of each parameter block only
the fields count through which a message passes.

* `Exchange.send`, `Exchange.recv`, `Exchange.reply`, `Exchange.asend`, `Exchange.terminate`,
  `Exchange.create` — the effect of each call on the exchange;
* `Exchange.call i c` — the call `c` of the process `i`;
* `Sched.Stubs` — a blocked process can be reached through its parameter block;
* `Step.exchange` — the policy drives the exchange: which process makes the next call is left to
  the scheduler, and the effect of the call is not.
-/

namespace RoombaRtos

open ListQueue Lockstep

/-- What a process is doing, as far as messages are concerned. -/
inductive Phase
  | dead
  | active
  | sendBlock
  | replyBlock
  | recvBlock
deriving DecidableEq, Repr

def ProcessState.phase : ProcessState → Phase
  | .dead => .dead
  | .ready => .active
  | .running => .active
  | .sendBlock => .sendBlock
  | .replyBlock => .replyBlock
  | .recvBlock => .recvBlock

/-- The process waits in one of the message calls. -/
def ProcessState.blocked (st : ProcessState) : Bool :=
  st = .sendBlock || st = .replyBlock || st = .recvBlock

/-- The fields of a parameter block through which messages pass. -/
structure Slip where
  msgMask : Mask
  msgPtrData : Option Addr
  msgData : Word
  outPid : Pid
deriving DecidableEq, Repr

def KernelRequestParams.slip (q : KernelRequestParams) : Slip :=
  { msgMask := q.msgMask, msgPtrData := q.msgPtrData, msgData := q.msgData, outPid := q.outPid }

@[ext] structure Exchange where
  phase : Slot → Phase
  /-- The periodic tasks, which may not use the message calls. -/
  periodic : Slot → Bool
  slip : Slot → Slip
  /-- The messages that were sent and not received yet, oldest first. -/
  mail : List Mail

namespace Exchange

/-! ### Updates -/

def setPhase (x : Exchange) (i : Slot) (ph : Phase) : Exchange :=
  { x with phase := Function.update x.phase i ph }

def setSlip (x : Exchange) (i : Slot) (f : Slip → Slip) : Exchange :=
  { x with slip := Function.update x.slip i (f (x.slip i)) }

def setMail (x : Exchange) (mail : List Mail) : Exchange := { x with mail := mail }

/-! ### Calls -/

/-- The live process that a call names. -/
def target (x : Exchange) (id : Pid) : Option Slot :=
  (validId id).filter fun j => x.phase j != .dead

/-- The process `j` waits for a message of this type. -/
def awaits (x : Exchange) (j : Slot) (t : MType) : Bool :=
  x.phase j = .recvBlock && maskTestAny (x.slip j).msgMask t

/-- A message of `i` goes straight to the receiver `j` that waits for it. -/
def handOver (x : Exchange) (i j : Slot) (v : Option Addr) : Exchange :=
  ((x.setPhase j .active).setPhase i .replyBlock).setSlip j fun q =>
    { q with msgPtrData := v, outPid := pidOf i }

/-- A message waits for its receiver, and its sender `i` with it. -/
def post (x : Exchange) (i : Slot) (m : Mail) : Exchange :=
  (x.setMail (x.mail ++ [m])).setPhase i .sendBlock

/-- The message of a `Msg_Send` by `i`. -/
def letter (i : Slot) (id : Pid) (t : MType) (v : Option Addr) : Mail :=
  { data := v, mask := t, sender := pidOf i, receiver := id }

def send (x : Exchange) (i : Slot) (id : Pid) (t : MType) (v : Option Addr) : Exchange :=
  match x.target id with
  | none => x
  | some j =>
      if x.awaits j t then x.handOver i j v
      else x.post i (letter i id t v)

/-- The messages that `i` asks for with `mask`. -/
def wanted (i : Slot) (mask : Mask) (m : Mail) : Bool := m.admits (pidOf i) mask

/-- The process `i` takes the message `m` of `sender`, who now waits for the reply. -/
def take (x : Exchange) (i : Slot) (mask : Mask) (m : Mail) (sender : Slot) : Exchange :=
  ((x.setMail (x.mail.eraseP (wanted i mask))).setSlip i fun q =>
    { q with msgPtrData := m.data, outPid := m.sender }).setPhase sender .replyBlock

def recv (x : Exchange) (i : Slot) (mask : Mask) : Exchange :=
  match x.mail.find? (wanted i mask) with
  | some m => (validId m.sender).elim x (x.take i mask m)
  | none => x.setPhase i .recvBlock

/-- The process `j` gets the reply `r`. -/
def answer (x : Exchange) (j : Slot) (r : Word) : Exchange :=
  (x.setPhase j .active).setSlip j fun q => { q with msgData := r }

def reply (x : Exchange) (id : Pid) (r : Word) : Exchange :=
  match x.target id with
  | none => x
  | some j => if x.phase j = .replyBlock then x.answer j r else x

/-- An asynchronous message of `i` reaches the receiver `j` that waits for it. -/
def notify (x : Exchange) (i j : Slot) (r : Word) : Exchange :=
  (x.setPhase j .active).setSlip j fun q =>
    { q with msgData := r, msgPtrData := none, outPid := pidOf i }

def asend (x : Exchange) (i : Slot) (id : Pid) (t : MType) (r : Word) : Exchange :=
  match x.target id with
  | none => x
  | some j => if x.awaits j t then x.notify i j r else x

/-- The process `i` ends, and the messages sent to it are discarded. -/
def terminate (x : Exchange) (i : Slot) : Exchange :=
  (x.setMail (x.mail.filter fun m => !wanted i anyMask m)).setPhase i .dead

def freeSlot (x : Exchange) : Option Slot :=
  (List.finRange maxThread).find? fun j => x.phase j = .dead

/-- The process `j` starts, and `i` learns its id. -/
def start (x : Exchange) (i j : Slot) (periodic : Bool) : Exchange :=
  { (x.setPhase j .active).setSlip i fun q => { q with outPid := pidOf j } with
    periodic := Function.update x.periodic j periodic }

def create (x : Exchange) (i : Slot) (periodic : Bool) : Exchange :=
  match x.freeSlot with
  | none => x
  | some j => x.start i j periodic

/-- The stub of `c` is entered: its parameter block is set up. -/
def begin (x : Exchange) (i : Slot) (c : ApiCall) : Exchange :=
  x.setSlip i fun _ => c.params.slip

/-- What the handler of the call `c` of the process `i` does. -/
def serve (x : Exchange) (i : Slot) (c : ApiCall) : Exchange :=
  match c with
  | .taskCreateSystem _ _ => x.create i false
  | .taskCreateRR _ _ => x.create i false
  | .taskCreatePeriod _ _ _ _ _ => x.create i true
  | .taskPid => x.setSlip i fun q => { q with outPid := pidOf i }
  | .taskTerminate => x.terminate i
  | .msgSend id t v => x.send i id t v
  | .msgRecv m _ => x.recv i m
  | .msgRply id r => x.reply id r
  | .msgASend id t r => x.asend i id t r
  | .osAbort _ | .taskNext | .taskGetArg | .now => x

def call (x : Exchange) (i : Slot) (c : ApiCall) : Exchange := (x.begin i c).serve i c

/-! ### What a call can do -/

/-- Every undelivered message is the only one of a process that waits in a send. -/
structure Posted (x : Exchange) : Prop where
  sender : ∀ m ∈ x.mail, ∃ j, m.sender = pidOf j ∧ x.phase j = .sendBlock
  nodup : (x.mail.map Mail.sender).Nodup

section Cases

variable {x : Exchange} {i j : Slot} {id : Pid} {t : MType} {mask : Mask} {v : Option Addr}
  {r : Word} {m : Mail} {ph : Phase}

theorem setPhase_self (x : Exchange) (i : Slot) (ph : Phase) : (x.setPhase i ph).phase i = ph :=
  Function.update_self _ _ _

theorem setPhase_other (h : j ≠ i) (x : Exchange) (ph : Phase) :
    (x.setPhase i ph).phase j = x.phase j :=
  Function.update_of_ne h _ _

/-- A process that comes to the phase `ph` is in no other one. -/
theorem setPhase_eq_iff {ph' : Phase} (hne : ph ≠ ph') :
    (x.setPhase i ph).phase j = ph' ↔ j ≠ i ∧ x.phase j = ph' := by
  by_cases hji : j = i
  · rw [hji, setPhase_self]
    exact iff_of_false hne fun h => h.1 rfl
  · rw [setPhase_other hji]
    exact (and_iff_right hji).symm

/-- Only the phase that it leaves and the one it comes to are concerned. -/
theorem setPhase_iff {ph' : Phase} (hi : x.phase i ≠ ph') (hne : ph ≠ ph') :
    (x.setPhase i ph).phase j = ph' ↔ x.phase j = ph' := by
  rw [setPhase_eq_iff hne, and_iff_right_iff_imp]
  rintro hj rfl
  exact hi hj

theorem ne_of_setPhase_active (h : (x.setPhase i .active).phase j ≠ .active) :
    j ≠ i ∧ x.phase j ≠ .active := by
  have hji : j ≠ i := fun hji => h (by rw [hji, setPhase_self])
  rw [setPhase_other hji] at h
  exact ⟨hji, h⟩

theorem setSlip_self (x : Exchange) (i : Slot) (f : Slip → Slip) :
    (x.setSlip i f).slip i = f (x.slip i) :=
  Function.update_self _ _ _

theorem setSlip_other (h : j ≠ i) (x : Exchange) (f : Slip → Slip) :
    (x.setSlip i f).slip j = x.slip j :=
  Function.update_of_ne h _ _

theorem target_eq_some (h : x.target id = some j) : id = pidOf j ∧ x.phase j ≠ .dead := by
  rw [target, Option.filter_eq_some_iff] at h
  exact ⟨validId_eq_some.1 h.1, by simpa using h.2⟩

theorem awaits_eq_true (h : x.awaits j t = true) :
    x.phase j = .recvBlock ∧ maskTestAny (x.slip j).msgMask t = true := by
  rw [awaits, Bool.and_eq_true] at h
  exact ⟨by simpa using h.1, h.2⟩

theorem wanted_iff : wanted i mask m = true ↔
    m.receiver = pidOf i ∧ maskTestAny mask m.mask = true := by
  rw [wanted, Mail.admits, Bool.and_eq_true, beq_iff_eq]

theorem send_cases (x : Exchange) (i : Slot) (id : Pid) (t : MType) (v : Option Addr) :
    (x.target id = none ∧ x.send i id t v = x) ∨
    (∃ j, x.target id = some j ∧ x.awaits j t = true ∧ x.send i id t v = x.handOver i j v) ∨
    (∃ j, x.target id = some j ∧ x.awaits j t = false ∧
      x.send i id t v = x.post i (letter i id t v)) := by
  cases ht : x.target id with
  | none => exact Or.inl ⟨rfl, by simp only [send, ht]⟩
  | some j =>
    cases hw : x.awaits j t with
    | true => exact Or.inr (Or.inl ⟨j, rfl, hw, by simp [send, ht, hw]⟩)
    | false => exact Or.inr (Or.inr ⟨j, rfl, hw, by simp [send, ht, hw]⟩)

theorem Posted.recv_cases (h : x.Posted) (i : Slot) (mask : Mask) :
    (∃ m j, x.mail.find? (wanted i mask) = some m ∧ m.sender = pidOf j ∧
      x.phase j = .sendBlock ∧ x.recv i mask = x.take i mask m j) ∨
    (x.mail.find? (wanted i mask) = none ∧ x.recv i mask = x.setPhase i .recvBlock) := by
  cases hf : x.mail.find? (wanted i mask) with
  | none => exact Or.inr ⟨rfl, by simp only [recv, hf]⟩
  | some m =>
    obtain ⟨j, hj, hph⟩ := h.sender m (List.mem_of_find?_eq_some hf)
    exact Or.inl ⟨m, j, rfl, hj, hph, by simp [recv, hf, hj]⟩

theorem reply_cases (x : Exchange) (id : Pid) (r : Word) :
    (∃ j, x.target id = some j ∧ x.phase j = .replyBlock ∧ x.reply id r = x.answer j r) ∨
    ((∀ j, x.target id = some j → x.phase j ≠ .replyBlock) ∧ x.reply id r = x) := by
  cases ht : x.target id with
  | none => exact Or.inr ⟨by simp, by simp only [reply, ht]⟩
  | some j =>
    by_cases hp : x.phase j = .replyBlock
    · exact Or.inl ⟨j, rfl, hp, by simp [reply, ht, hp]⟩
    · refine Or.inr ⟨?_, by simp [reply, ht, hp]⟩
      intro k hk
      cases hk
      exact hp

theorem asend_cases (x : Exchange) (i : Slot) (id : Pid) (t : MType) (r : Word) :
    (∃ j, x.target id = some j ∧ x.awaits j t = true ∧ x.asend i id t r = x.notify i j r) ∨
    ((∀ j, x.target id = some j → x.awaits j t = false) ∧ x.asend i id t r = x) := by
  cases ht : x.target id with
  | none => exact Or.inr ⟨by simp, by simp only [asend, ht]⟩
  | some j =>
    cases hw : x.awaits j t with
    | true => exact Or.inl ⟨j, rfl, hw, by simp [asend, ht, hw]⟩
    | false =>
      refine Or.inr ⟨?_, by simp [asend, ht, hw]⟩
      intro k hk
      cases hk
      exact hw

theorem create_cases (x : Exchange) (i : Slot) (periodic : Bool) :
    x.create i periodic = x ∨
      ∃ j, x.phase j = .dead ∧ x.create i periodic = x.start i j periodic := by
  cases hf : x.freeSlot with
  | none => exact Or.inl (by simp only [create, hf])
  | some j =>
    refine Or.inr ⟨j, ?_, by simp only [create, hf]⟩
    simpa using List.find?_some hf

/-- A property that no handler but those of the message calls, of creation and of termination
could break holds after every call once it holds after those. -/
theorem serve_induction {P : Exchange → Prop} (h0 : P x) (c : ApiCall)
    (hpid : ∀ w, P (x.setSlip i fun q => { q with outPid := w }))
    (hcreate : ∀ b, P (x.create i b))
    (hterminate : c = .taskTerminate → P (x.terminate i))
    (hsend : ∀ id t v, c = .msgSend id t v → P (x.send i id t v))
    (hrecv : ∀ m v, c = .msgRecv m v → P (x.recv i m))
    (hreply : ∀ id r, c = .msgRply id r → P (x.reply id r))
    (hasend : ∀ id t r, c = .msgASend id t r → P (x.asend i id t r)) : P (x.serve i c) := by
  cases c with
  | osAbort error => exact h0
  | taskCreateSystem f arg => exact hcreate false
  | taskCreateRR f arg => exact hcreate false
  | taskCreatePeriod f arg period wcet offset => exact hcreate true
  | taskNext => exact h0
  | taskGetArg => exact h0
  | taskPid => exact hpid _
  | taskTerminate => exact hterminate rfl
  | msgSend id t v => exact hsend id t v rfl
  | msgRecv m v => exact hrecv m v rfl
  | msgRply id r => exact hreply id r rfl
  | msgASend id t v => exact hasend id t v rfl
  | now => exact h0

end Cases

end Exchange

/-! ### The exchange of a state of the policy -/

namespace Sched

def exchange (a : Sched) : Exchange where
  phase i := (a.task (.process i)).state.phase
  periodic i := (a.task (.process i)).priority = .periodic
  slip i := (a.info (.stub (.process i))).slip
  mail := a.mail

variable {a a' b : Sched} {p : PDPtr} {i : Slot} {r : InfoPtr PDPtr} {e : Entry} {c : ApiCall}

theorem exchange_setState (a : Sched) (i : Slot) (st : ProcessState) :
    (a.setState (.process i) st).exchange = a.exchange.setPhase i st.phase := by
  have hphase : (a.setState (.process i) st).exchange.phase =
      Function.update a.exchange.phase i st.phase := by
    funext j
    show ((a.setState (.process i) st).task (.process j)).state.phase = _
    by_cases hj : j = i
    · subst hj
      rw [setState_self, Function.update_self]
    · rw [setState_other (by simpa using hj), Function.update_of_ne hj]
      rfl
  have hper : (a.setState (.process i) st).exchange.periodic = a.exchange.periodic := by
    funext j
    show decide (((a.setState (.process i) st).task (.process j)).priority = .periodic) = _
    rw [setState_priority]
    rfl
  exact Exchange.ext hphase hper rfl rfl

theorem exchange_setInfo (a : Sched) (i : Slot) {g : KernelRequestParams → KernelRequestParams}
    {f : Slip → Slip} (hg : ∀ q, (g q).slip = f q.slip) :
    (a.setInfo (.stub (.process i)) g).exchange = a.exchange.setSlip i f := by
  have hslip : (a.setInfo (.stub (.process i)) g).exchange.slip =
      Function.update a.exchange.slip i (f (a.exchange.slip i)) := by
    funext j
    show (Function.update a.info _ _ (.stub (.process j))).slip = _
    by_cases hj : j = i
    · subst hj
      rw [Function.update_self, Function.update_self, hg]
      rfl
    · rw [Function.update_of_ne (by simpa using hj), Function.update_of_ne hj]
      rfl
  exact Exchange.ext rfl rfl hslip rfl

/-- Fields of a block that no message passes through, or blocks of no process. -/
theorem exchange_setInfo_other {g : KernelRequestParams → KernelRequestParams}
    (hg : (∀ q, (g q).slip = q.slip) ∨ ∀ j, r ≠ .stub (.process j)) :
    (a.setInfo r g).exchange = a.exchange := by
  have hslip : (a.setInfo r g).exchange.slip = a.exchange.slip := by
    funext j
    show (Function.update a.info r (g (a.info r)) (.stub (.process j))).slip = _
    by_cases hj : r = .stub (.process j)
    · subst hj
      rw [Function.update_self, hg.resolve_right (fun h => h j rfl)]
      rfl
    · rw [Function.update_of_ne (Ne.symm hj)]
      rfl
  exact Exchange.ext rfl rfl hslip rfl

/-- The exchange sees of a task only its phase and whether it is periodic. -/
theorem exchange_congr (hs : ∀ i, (a'.task (.process i)).state.phase =
      (a.task (.process i)).state.phase)
    (hp : ∀ i, (a'.task (.process i)).priority = (a.task (.process i)).priority)
    (hm : a'.mail = a.mail) (hi : a'.info = a.info) : a'.exchange = a.exchange := by
  have hphase : a'.exchange.phase = a.exchange.phase := funext hs
  have hper : a'.exchange.periodic = a.exchange.periodic := by
    funext i
    show decide ((a'.task (.process i)).priority = .periodic) = _
    rw [hp]
    rfl
  have hslip : a'.exchange.slip = a.exchange.slip := by
    funext i
    show (a'.info (.stub (.process i))).slip = _
    rw [hi]
    rfl
  exact Exchange.ext hphase hper hslip hm

/-- Dispatching does not touch the exchange. -/
theorem Handling.dispatch_exchange (h : a.Handling) (he : a.dispatch = .ok a') :
    a'.exchange = a.exchange := by
  obtain ⟨p, hp, -, ht, hm, hi⟩ := h.dispatch_frame he
  refine exchange_congr (fun i => ?_) (fun i => ?_) hm hi
  · rw [ht]
    by_cases hip : PDPtr.process i = p
    · subst hip
      rcases hp with hp | hp
      · cases hp
      · have hready : (a.task (.process i)).state = .ready := by simpa [Sched.ready] using hp
        rw [setState_self, hready]
        rfl
    · rw [setState_other hip]
  · rw [ht]
    exact setState_priority a p _ .running

/-! ### Blocked processes can be reached -/

/-- The parameter block of a blocked process is the one of the stub it waits in. -/
def Stubs (a : Sched) : Prop :=
  ∀ i, (a.task (.process i)).state.blocked = true →
    (a.task (.process i)).reqParams = some (.stub (.process i))

theorem blocked_congr {st st' : ProcessState} (h : st'.phase = st.phase) :
    st'.blocked = st.blocked := by
  cases st <;> cases st' <;> first | rfl | cases h

theorem Stubs.of_same (h : a.Stubs)
    (hs : ∀ i, (a'.task (.process i)).state.phase = (a.task (.process i)).state.phase)
    (hp : ∀ i, (a'.task (.process i)).reqParams = (a.task (.process i)).reqParams) :
    a'.Stubs := by
  intro i hb
  rw [blocked_congr (hs i)] at hb
  rw [hp i]
  exact h i hb

theorem Stubs.congr (h : a.Stubs) (ht : a'.task = a.task) : a'.Stubs :=
  h.of_same (fun i => by rw [ht]) (fun i => by rw [ht])

theorem Stubs.setTask (h : a.Stubs) (f : Task PDPtr → Task PDPtr)
    (hf : ∀ i, p = .process i → (f (a.task p)).state.blocked = true →
      (f (a.task p)).reqParams = some (.stub (.process i))) : (a.setTask p f).Stubs := by
  intro j hb
  rw [setTask_task] at hb ⊢
  by_cases hj : PDPtr.process j = p
  · subst hj
    rw [Function.update_self] at hb ⊢
    exact hf j rfl hb
  · rw [Function.update_of_ne hj] at hb ⊢
    exact h j hb

/-- A process that does not block, or that can be reached already. -/
theorem Stubs.setState (h : a.Stubs) {st : ProcessState}
    (hst : st.blocked = false ∨ (a.task (.process i)).reqParams = some (.stub (.process i))) :
    (a.setState (.process i) st).Stubs := by
  refine h.setTask _ ?_
  intro j hj hb
  cases hj
  rcases hst with hst | hp
  · exact absurd hb (by simp [hst])
  · exact hp

theorem Stubs.dispatch (h : a.Stubs) (hh : a.Handling) (he : a.dispatch = .ok a') :
    a'.Stubs := by
  obtain ⟨p, -, -, ht, -, -⟩ := hh.dispatch_frame he
  exact (h.setTask (p := p) (fun t => { t with state := .running })
    (fun _ _ hb => by simp [ProcessState.blocked] at hb)).congr ht

/-- Writing through the parameter block of a process that can be reached. -/
theorem exchange_setReqParams (hp : (a.task (.process i)).reqParams = some (.stub (.process i)))
    {g : KernelRequestParams → KernelRequestParams} {f : Slip → Slip}
    (hg : ∀ q, (g q).slip = f q.slip) :
    (a.setReqParams (.process i) g).exchange = a.exchange.setSlip i f := by
  rw [setReqParams, hp]
  exact a.exchange_setInfo i hg

/-! ### The handlers -/

theorem phase_eq_dead {st : ProcessState} : st.phase = .dead ↔ st = .dead := by
  cases st <;> simp [ProcessState.phase]

theorem phase_eq_active {st : ProcessState} :
    st.phase = .active ↔ st = .ready ∨ st = .running := by
  cases st <;> simp [ProcessState.phase]

/-- The state in which the handler of the call `c` of process `i` starts. -/
structure Serving (a : Sched) (i : Slot) (c : ApiCall) : Prop extends a.Entered where
  stubs : a.Stubs
  caller : a.current = .process i
  params : (a.task (.process i)).reqParams = some (.stub (.process i))
  info : a.info (.stub (.process i)) = c.params

/-- What a handler leaves behind. -/
structure Served (a' : Sched) (x : Exchange) : Prop where
  exchange : a'.exchange = x
  stubs : a'.Stubs

theorem Handling.served (h : a.Handling) (hs : a.Stubs) {x : Exchange} (hx : a.exchange = x)
    (he : a.dispatch = .ok a') : a'.Served x :=
  ⟨(h.dispatch_exchange he).trans hx, hs.dispatch h he⟩

/-- Leaving the kernel clears the request code only. -/
theorem Served.leave {x : Exchange} (h : a.Served x) (r : InfoPtr PDPtr) :
    (a.setInfo r fun q => { q with request := .none }).Served x := by
  have hx : (a.setInfo r fun q => { q with request := .none }).exchange = a.exchange :=
    exchange_setInfo_other (Or.inl fun _ => rfl)
  exact ⟨hx.trans h.exchange, h.stubs.congr rfl⟩

namespace Serving

theorem processId (h : a.Serving i c) : (a.task a.current).processId = pidOf i := by
  have hlive : (a.task a.current).state ≠ .dead := by simp [h.ready]
  rw [h.caller] at hlive ⊢
  exact h.levels.pid i hlive

theorem target_eq (a : Sched) (r : InfoPtr PDPtr) :
    a.target r = a.exchange.target (a.info r).msgTo := by
  have hd : ∀ j, ((a.task (.process j)).state != .dead) = (a.exchange.phase j != .dead) := by
    intro j
    show _ = ((a.task (.process j)).state.phase != .dead)
    cases (a.task (.process j)).state <;> rfl
  rw [Sched.target, Exchange.target]
  simp only [hd]

theorem awaits_eq (hs : a.Stubs) (j : Slot) (t : MType) :
    a.awaits (.process j) t = a.exchange.awaits j t := by
  show _ = (decide ((a.task (.process j)).state.phase = .recvBlock) && _)
  by_cases hj : (a.task (.process j)).state = .recvBlock
  · rw [Sched.awaits, hs j (by rw [hj]; rfl), hj]
    rfl
  · have hphase : (a.task (.process j)).state.phase ≠ .recvBlock := by
      intro hp
      cases hst : (a.task (.process j)).state <;> simp [hst, ProcessState.phase] at hp hj
    simp [Sched.awaits, hj, hphase]

theorem handOver (h : a.Serving i c) {j : Slot} {t : MType}
    (hw : a.awaits (.process j) t = true) :
    (a.handOver (.stub (.process i)) j).exchange =
        a.exchange.handOver i j c.params.msgPtrData ∧
      (a.handOver (.stub (.process i)) j).Stubs := by
  obtain ⟨hst, -⟩ := awaits_eq_true hw
  have hjp : (a.task (.process j)).reqParams = some (.stub (.process j)) :=
    h.stubs j (by rw [hst]; rfl)
  have hne : PDPtr.process j ≠ .process i := by
    intro he
    have hready := h.ready
    rw [h.caller, ← he, hst] at hready
    cases hready
  set b := (a.setState (.process j) .ready).setState (.process i) .replyBlock with hb
  have hbj : (b.task (.process j)).reqParams = some (.stub (.process j)) := by
    rw [hb, setState_other hne, setState_task, Function.update_self]
    exact hjp
  have hunfold : a.handOver (.stub (.process i)) j = b.setReqParams (.process j) fun q =>
      { q with msgPtrData := c.params.msgPtrData, outPid := pidOf i } := by
    rw [hb, Sched.handOver, h.caller]
    simp only [letter, h.processId, h.info]
  have hib : ((a.setState (.process j) .ready).task (.process i)).reqParams =
      some (.stub (.process i)) := by
    rw [setState_other (Ne.symm hne)]
    exact h.params
  rw [hunfold]
  constructor
  · rw [exchange_setReqParams hbj (f := fun q =>
      { q with msgPtrData := c.params.msgPtrData, outPid := pidOf i }) (fun _ => rfl), hb,
      exchange_setState, exchange_setState]
    rfl
  · have hready : (a.setState (.process j) .ready).Stubs := h.stubs.setState (Or.inl rfl)
    have hs : b.Stubs := hready.setState (Or.inr hib)
    exact hs.congr (setReqParams_task b _ _)

theorem post (h : a.Serving i c) :
    (a.post (.stub (.process i))).exchange =
        a.exchange.post i
          (Exchange.letter i c.params.msgTo c.params.msgMask c.params.msgPtrData) ∧
      (a.post (.stub (.process i))).Stubs := by
  have hletter : a.letter (.stub (.process i)) =
      Exchange.letter i c.params.msgTo c.params.msgMask c.params.msgPtrData := by
    rw [letter, h.processId, h.info]
    rfl
  have hmail : (a.setMail (a.mail ++ [a.letter (.stub (.process i))])).Stubs :=
    h.stubs.congr rfl
  rw [Sched.post, h.caller, hletter]
  exact ⟨exchange_setState _ _ _, (hletter ▸ hmail).setState (Or.inr h.params)⟩

theorem wanted_eq (h : a.Serving i c) :
    a.wanted (.stub (.process i)) = Exchange.wanted i c.params.msgMask := by
  funext m
  rw [Sched.wanted, h.processId, h.info]
  rfl

theorem take (h : a.Serving i c) {m : Mail} {sender : Slot}
    (hf : a.mail.find? (a.wanted (.stub (.process i))) = some m)
    (hm : m.sender = pidOf sender) :
    (a.take (.stub (.process i)) m sender).exchange =
        a.exchange.take i c.params.msgMask m sender ∧
      (a.take (.stub (.process i)) m sender).Stubs := by
  have hst : (a.task (.process sender)).state = .sendBlock := by
    obtain ⟨j, hj, hst⟩ := h.posted.sender m (List.mem_of_find?_eq_some hf)
    have hsj : sender = j := pidOf_injective (hm.symm.trans hj)
    rw [hsj, hst]
  have hsp : (a.task (.process sender)).reqParams = some (.stub (.process sender)) :=
    h.stubs sender (by rw [hst]; rfl)
  rw [Sched.take, h.wanted_eq]
  set b := a.setMail (a.mail.eraseP (Exchange.wanted i c.params.msgMask)) with hb
  constructor
  · rw [exchange_setState, exchange_setInfo b i (f := fun q =>
      { q with msgPtrData := m.data, outPid := m.sender }) (fun _ => rfl)]
    rfl
  · have hs : (b.setInfo (.stub (.process i)) fun q =>
        { q with msgPtrData := m.data, outPid := m.sender }).Stubs := h.stubs.congr rfl
    exact hs.setState (Or.inr hsp)

/-- A process that waits for a reply or a message becomes active with a filled in block. -/
theorem wake (h : a.Serving i c) {j : Slot} (hj : (a.task (.process j)).state.blocked = true)
    {g : KernelRequestParams → KernelRequestParams} {f : Slip → Slip}
    (hg : ∀ q, (g q).slip = f q.slip) :
    ((a.setState (.process j) .ready).setReqParams (.process j) g).exchange =
        (a.exchange.setPhase j .active).setSlip j f ∧
      ((a.setState (.process j) .ready).setReqParams (.process j) g).Stubs := by
  have hjp : ((a.setState (.process j) .ready).task (.process j)).reqParams =
      some (.stub (.process j)) := by
    rw [setState_task, Function.update_self]
    exact h.stubs j hj
  constructor
  · rw [exchange_setReqParams hjp hg, exchange_setState]
    rfl
  · have hs : (a.setState (.process j) .ready).Stubs := h.stubs.setState (Or.inl rfl)
    exact hs.congr (setReqParams_task _ _ _)

theorem bury (h : a.Serving i c) :
    a.bury.exchange = a.exchange.terminate i ∧ a.bury.Stubs := by
  constructor
  · have hmail : a.bury.mail = a.mail.filter fun m => !Exchange.wanted i anyMask m := by
      rw [bury_mail, h.processId]
      rfl
    have htask : a.bury.task = ((a.setMail a.bury.mail).setState (.process i) .dead).task := by
      rw [bury_task, h.caller]
      rfl
    have hsame : a.bury.exchange =
        ((a.setMail a.bury.mail).setState (.process i) .dead).exchange :=
      exchange_congr (fun j => by rw [htask]) (fun j => by rw [htask]) rfl rfl
    rw [hsame, exchange_setState, hmail]
    rfl
  · have hs : (a.setState (.process i) .dead).Stubs := h.stubs.setState (Or.inl rfl)
    exact hs.congr (by rw [bury_task, h.caller])

theorem freeSlot_eq (a : Sched) : a.freeSlot = a.exchange.freeSlot := by
  have hd : ∀ j, decide ((a.task (.process j)).state = .dead) =
      decide (a.exchange.phase j = .dead) := by
    intro j
    exact decide_eq_decide.2 phase_eq_dead.symm
  rw [Sched.freeSlot, Exchange.freeSlot]
  simp only [hd]

theorem install (h : a.Serving i c) {j : Slot} (f : BitVec 16) :
    ((a.install j f c.params).setInfo (.stub (.process i)) fun q =>
        { q with outPid := pidOf j }).exchange =
        a.exchange.start i j (c.params.priority = .periodic) ∧
      ((a.install j f c.params).setInfo (.stub (.process i)) fun q =>
        { q with outPid := pidOf j }).Stubs := by
  obtain ⟨hst, hprio, -, -⟩ := a.newTask_spec j f c.params
  have hphase : (a.install j f c.params).exchange.phase =
      Function.update a.exchange.phase j .active := by
    funext k
    show (Function.update a.task (.process j) _ (.process k)).state.phase = _
    by_cases hk : k = j
    · subst hk
      rw [Function.update_self, Function.update_self, hst]
      rfl
    · rw [Function.update_of_ne (by simpa using hk), Function.update_of_ne hk]
      rfl
  have hper : (a.install j f c.params).exchange.periodic =
      Function.update a.exchange.periodic j (c.params.priority = .periodic) := by
    funext k
    show decide ((Function.update a.task (.process j) _ (.process k)).priority = .periodic) = _
    by_cases hk : k = j
    · subst hk
      rw [Function.update_self, Function.update_self, hprio]
    · rw [Function.update_of_ne (by simpa using hk), Function.update_of_ne hk]
      rfl
  constructor
  · rw [exchange_setInfo _ i (f := fun q => { q with outPid := pidOf j }) (fun _ => rfl)]
    refine Exchange.ext hphase hper ?_ rfl
    show Function.update (a.install j f c.params).exchange.slip i _ = _
    rfl
  · have hs : (a.setTask (.process j) fun _ => a.newTask j f c.params).Stubs := by
      refine h.stubs.setTask _ ?_
      intro k _ hb
      rw [hst] at hb
      simp [ProcessState.blocked] at hb
    exact hs.congr rfl

theorem served_same (h : a.Serving i c) : a.Served a.exchange := ⟨rfl, h.stubs⟩

theorem create_served (h : a.Serving i c) (hc : c.params.request = .create)
    (he : a.serve (.stub (.process i)) c.params.request = .ok a') :
    a'.Served (a.exchange.create i (c.params.priority = .periodic)) := by
  rw [hc] at he
  obtain ⟨b, hb, hd⟩ := bind_ok he
  have hh := (h.create hb).1
  rw [Exchange.create, ← freeSlot_eq]
  rcases create_cases hb with ⟨hf, rfl⟩ | ⟨j, f, hf, -, -, rfl⟩
  · rw [hf]
    exact hh.served h.stubs rfl hd
  · rw [hf]
    rw [h.info] at hd hh
    exact hh.served (h.install f).2 (h.install f).1 hd

theorem send_served (h : a.Serving i c) (hc : c.params.request = .msgSend)
    (he : a.serve (.stub (.process i)) c.params.request = .ok a') :
    a'.Served (a.exchange.send i c.params.msgTo c.params.msgMask c.params.msgPtrData) := by
  rw [hc] at he
  rw [Exchange.send, ← h.info, ← target_eq, h.info]
  obtain ⟨hp, ⟨ht, rfl⟩ | ⟨j, ht, hw, hd⟩ | ⟨j, ht, hw, hd⟩⟩ := send_cases he
  · rw [ht]
    exact h.served_same
  · have hw' := hw
    rw [h.info, awaits_eq h.stubs] at hw'
    rw [ht]
    simp only [hw', if_true]
    exact (h.toEntered.handOver hp hw).served (h.handOver hw).2 (h.handOver hw).1 hd
  · have hw' := hw
    rw [h.info, awaits_eq h.stubs] at hw'
    rw [ht]
    simp only [hw', Bool.false_eq_true, if_false]
    exact (h.toEntered.post hp h.caller).served h.post.2 h.post.1 hd

theorem recv_served (h : a.Serving i c) (hc : c.params.request = .msgRecv)
    (he : a.serve (.stub (.process i)) c.params.request = .ok a') :
    a'.Served (a.exchange.recv i c.params.msgMask) := by
  rw [hc] at he
  rw [Exchange.recv, ← h.wanted_eq]
  obtain ⟨hp, ⟨m, sender, hf, hm, hd⟩ | ⟨hf, hd⟩⟩ := recv_cases he
  · have hf' : a.exchange.mail.find? (a.wanted (.stub (.process i))) = some m := hf
    simp only [hf', hm, validId_pidOf, Option.elim_some]
    exact (h.toEntered.take hf hm).served (h.take hf hm).2 (h.take hf hm).1 hd
  · have hf' : a.exchange.mail.find? (a.wanted (.stub (.process i))) = none := hf
    simp only [hf']
    have hh := h.toEntered.await hp
    rw [h.caller] at hh hd
    exact hh.served (h.stubs.setState (Or.inr h.params)) (exchange_setState a i _) hd

theorem reply_served (h : a.Serving i c) (hc : c.params.request = .msgRply)
    (he : a.serve (.stub (.process i)) c.params.request = .ok a') :
    a'.Served (a.exchange.reply c.params.msgTo c.params.msgData) := by
  rw [hc] at he
  rw [Exchange.reply, ← h.info, ← target_eq, h.info]
  have hphase : ∀ j, a.exchange.phase j = .replyBlock ↔
      (a.task (.process j)).state = .replyBlock := by
    intro j
    show (a.task (.process j)).state.phase = _ ↔ _
    cases (a.task (.process j)).state <;> simp [ProcessState.phase]
  obtain ⟨-, ⟨ht, rfl⟩ | ⟨j, ht, hst, hd⟩ | ⟨j, ht, hst, hd⟩⟩ := reply_cases he
  · rw [ht]
    exact h.served_same
  · rw [ht]
    simp only [hphase, hst, if_true]
    have hw := h.wake (j := j) (by rw [hst]; rfl)
      (g := fun q => { q with msgData := (a.info (.stub (.process i))).msgData })
      (f := fun q => { q with msgData := c.params.msgData }) (fun q => by rw [h.info]; rfl)
    exact (h.toEntered.answer hst).served hw.2 hw.1 hd
  · rw [ht]
    simp only [hphase, hst, if_false]
    exact h.toHandling.served h.stubs rfl hd

theorem asend_served (h : a.Serving i c) (hc : c.params.request = .msgASend)
    (he : a.serve (.stub (.process i)) c.params.request = .ok a') :
    a'.Served (a.exchange.asend i c.params.msgTo c.params.msgMask c.params.msgData) := by
  rw [hc] at he
  rw [Exchange.asend, ← h.info, ← target_eq, h.info]
  obtain ⟨ht, rfl⟩ | ⟨j, ht, hw, hd⟩ | ⟨j, ht, hw, rfl⟩ := asend_cases he
  · rw [ht]
    exact h.served_same
  · have hw' := hw
    rw [h.info, awaits_eq h.stubs] at hw'
    rw [ht]
    simp only [hw', if_true]
    have hst := (awaits_eq_true hw).1
    have hwake := h.wake (j := j) (by rw [hst]; rfl)
      (g := fun q =>
        { q with
          msgData := (a.info (.stub (.process i))).msgData
          msgPtrData := none
          outPid := (a.task a.current).processId })
      (f := fun q =>
        { q with msgData := c.params.msgData, msgPtrData := none, outPid := pidOf i })
      (fun q => by rw [h.info, h.processId]; rfl)
    exact (h.toEntered.notify hw).served hwake.2 hwake.1 hd
  · have hw' := hw
    rw [h.info, awaits_eq h.stubs] at hw'
    rw [ht]
    simp only [hw', Bool.false_eq_true, if_false]
    exact h.served_same

/-- New times for the caller are not seen by the exchange. -/
theorem times_served (h : a.Serving i c) {t : Task PDPtr}
    (ht : ∃ tons ticks clock, t = { a.task a.current with
      tons := tons, ticksRemaining := ticks, clockState := clock })
    (he : (a.setTask a.current fun _ => t).dispatch = .ok a') : a'.Served a.exchange := by
  have hh := h.setTimes ht
  obtain ⟨tons, ticks, clock, rfl⟩ := ht
  set t : Task PDPtr := { a.task a.current with
    tons := tons, ticksRemaining := ticks, clockState := clock } with ht
  have hsame : ∀ j, ((a.setTask a.current fun _ => t).task (.process j)).state =
        (a.task (.process j)).state ∧
      ((a.setTask a.current fun _ => t).task (.process j)).priority =
        (a.task (.process j)).priority ∧
      ((a.setTask a.current fun _ => t).task (.process j)).reqParams =
        (a.task (.process j)).reqParams := by
    intro j
    rw [setTask_task]
    by_cases hj : PDPtr.process j = a.current
    · rw [hj, Function.update_self, ht]
      exact ⟨rfl, rfl, rfl⟩
    · rw [Function.update_of_ne hj]
      exact ⟨rfl, rfl, rfl⟩
  have hs : (a.setTask a.current fun _ => t).Stubs :=
    h.stubs.of_same (fun j => by rw [(hsame j).1]) (fun j => (hsame j).2.2)
  exact hh.served hs (exchange_congr (fun j => by rw [(hsame j).1]) (fun j => (hsame j).2.1)
    rfl rfl) he

/-- **The handlers act on the exchange as the calls say.** -/
theorem serve (h : a.Serving i c)
    (he : a.serve (.stub (.process i)) c.params.request = .ok a') :
    a'.Served (a.exchange.serve i c) := by
  have hinfo : ∀ g : KernelRequestParams → KernelRequestParams,
      (a.setInfo (.stub (.process i)) g).Stubs := fun g => h.stubs.congr rfl
  cases c with
  | osAbort error => cases he
  | taskCreateSystem f arg => exact h.create_served rfl he
  | taskCreateRR f arg => exact h.create_served rfl he
  | taskCreatePeriod f arg period wcet offset => exact h.create_served rfl he
  | taskNext =>
    obtain ⟨t, ht, hd⟩ := yield_cases he
    exact h.times_served (yieldTask_ok ht) hd
  | taskGetArg =>
    cases he
    exact ⟨exchange_setInfo_other (Or.inl fun _ => rfl), hinfo _⟩
  | taskPid =>
    cases he
    refine ⟨?_, hinfo _⟩
    rw [h.processId]
    exact exchange_setInfo a i (f := fun q => { q with outPid := pidOf i }) (fun _ => rfl)
  | taskTerminate =>
    obtain ⟨-, hd⟩ := terminate_cases he
    exact (h.toEntered.bury h.caller).served h.bury.2 h.bury.1 hd
  | msgSend id t v => exact h.send_served rfl he
  | msgRecv m v => exact h.recv_served rfl he
  | msgRply id r => exact h.reply_served rfl he
  | msgASend id t v => exact h.asend_served rfl he
  | now =>
    cases he
    exact ⟨exchange_setInfo_other (Or.inl fun _ => rfl), hinfo _⟩

end Serving

/-! ### Kernel entries -/

/-- The exchange does not see that the current task is suspended. -/
theorem Inv.exchange_suspend (h : a.Inv) (hi : a.current = .process i) :
    (a.suspend (.call c)).1.exchange = a.exchange.begin i c := by
  have hphase : (a.task (.process i)).state.phase = .active := by
    rw [← hi]
    exact phase_eq_active.2 h.active.symm
  have hset : (a.suspend (.call c)).1 = ((a.setInfo (.stub (.process i)) fun _ =>
      c.params).setTask (.process i) fun t =>
        { t with reqParams := some (.stub (.process i)) }).setState (.process i) .ready := by
    show ((a.setInfo (.stub a.current) fun _ => c.params).setTask a.current fun t =>
      { t with reqParams := some (.stub a.current) }).setState a.current .ready = _
    rw [hi]
  rw [hset, exchange_setState]
  have hsame : ((a.setInfo (.stub (.process i)) fun _ => c.params).setTask (.process i) fun t =>
      { t with reqParams := some (.stub (.process i)) }).exchange = a.exchange.begin i c := by
    rw [Exchange.begin, ← exchange_setInfo a i (f := fun _ => c.params.slip) fun _ => rfl]
    refine exchange_congr (fun j => ?_) (fun j => ?_) rfl rfl
    · by_cases hj : j = i
      · subst hj
        simp [setTask_task]
      · simp [setTask_task, hj]
    · by_cases hj : j = i
      · subst hj
        simp [setTask_task]
      · simp [setTask_task, hj]
  rw [hsame]
  refine Exchange.ext ?_ rfl rfl rfl
  funext j
  show Function.update a.exchange.phase i .active j = a.exchange.phase j
  by_cases hj : j = i
  · subst hj
    rw [Function.update_self]
    exact hphase.symm
  · rw [Function.update_of_ne hj]

theorem Inv.serving (h : a.Inv) (hs : a.Stubs) (hi : a.current = .process i) :
    (a.suspend (.call c)).1.Serving i c := by
  have htask : (a.suspend (.call c)).1.task = Function.update a.task a.current
      { a.task a.current with state := .ready, reqParams := some (.stub a.current) } := by
    simp [Sched.suspend, setState_task, setTask_task]
  refine ⟨h.suspend _, ?_, by rw [suspend_current, hi], ?_, ?_⟩
  · have hs' : (a.setTask a.current fun t =>
        { t with state := .ready, reqParams := some (.stub a.current) }).Stubs :=
      hs.setTask _ fun j _ hb => by simp [ProcessState.blocked] at hb
    exact hs'.congr htask
  · rw [htask, hi, Function.update_self]
  · show Function.update a.info (.stub a.current) _ (.stub (.process i)) = c.params
    rw [hi, Function.update_self]

/-- The clock disturbs neither the exchange nor the blocked processes. -/
theorem Inv.timer_served (h : a.Inv) (hs : a.Stubs) (he : a.enter .timer = .ok a') :
    a'.Served a.exchange := by
  obtain ⟨b, hb, rfl⟩ := enter_cases he
  obtain ⟨t, ht, hd⟩ := tick_cases hb
  set b₀ := (a.suspend .timer).1 with hb₀
  have hentered : b₀.Entered := h.suspend .timer
  obtain ⟨ticks, rfl⟩ := chargeTick_ok ht
  have hh : (b₀.setTask b₀.current fun _ =>
      { b₀.task b₀.current with ticksRemaining := ticks }).advanceClock.Handling :=
    (hentered.setTimes ⟨_, ticks, _, rfl⟩).of_eq rfl rfl rfl
  have hcur : (a.task a.current).state.phase = .active := phase_eq_active.2 h.active.symm
  set b₁ := (b₀.setTask b₀.current fun _ =>
    { b₀.task b₀.current with ticksRemaining := ticks }).advanceClock with hb₁
  -- the current task stays active, and nothing else changes
  have hsame : ∀ p, (b₁.task p).state.phase = (a.task p).state.phase ∧
      (b₁.task p).priority = (a.task p).priority ∧
      (b₁.task p).reqParams = (a.task p).reqParams := by
    intro p
    have htask : b₁.task = Function.update (Function.update a.task a.current
        { a.task a.current with state := .ready }) a.current
        { b₀.task a.current with ticksRemaining := ticks } := rfl
    have hself : b₀.task a.current = { a.task a.current with state := .ready } := by
      show Function.update a.task a.current _ a.current = _
      rw [Function.update_self]
      rfl
    rw [htask]
    by_cases hp : p = a.current
    · subst hp
      rw [Function.update_self, hself]
      exact ⟨hcur.symm, rfl, rfl⟩
    · rw [Function.update_of_ne hp, Function.update_of_ne hp]
      exact ⟨rfl, rfl, rfl⟩
  have hx : b₁.exchange = (a.setInfo .timerIsr fun _ => { request := .timer }).exchange :=
    exchange_congr (fun i => (hsame _).1) (fun i => (hsame _).2.1) rfl rfl
  have hx' : b₁.exchange = a.exchange :=
    hx.trans (exchange_setInfo_other (Or.inr fun j hj => by cases hj))
  exact (hh.served (hs.of_same (fun i => (hsame _).1) (fun i => (hsame _).2.2)) hx' hd).leave _

/-- **A call of a task is a call in the exchange.** -/
theorem Inv.call_served (h : a.Inv) (hs : a.Stubs) (hi : a.current = .process i)
    (he : a.enter (.call c) = .ok a') : a'.Served (a.exchange.call i c) := by
  obtain ⟨b, hb, rfl⟩ := enter_cases he
  have hr : (a.suspend (.call c)).2 = .stub (.process i) := by
    rw [← hi]
    rfl
  rw [hr] at hb ⊢
  have hserved := (h.serving (c := c) hs hi).serve hb
  rw [h.exchange_suspend hi] at hserved
  exact hserved.leave _

theorem Possible.caller (h : a.Possible (.call c)) : ∃ i, a.current = .process i := by
  cases hc : a.current with
  | process i => exact ⟨i, rfl⟩
  | idleProcess => exact absurd hc h

/-- One step of the policy, seen by the exchange. -/
theorem Step.exchange (h : a.Step e a') (ha : a.Inv) (hs : a.Stubs) :
    (e = .timer ∧ a'.exchange = a.exchange) ∨
      ∃ i c, e = .call c ∧ a.current = .process i ∧ a'.exchange = a.exchange.call i c := by
  cases e with
  | timer => exact Or.inl ⟨rfl, (ha.timer_served hs h.2).exchange⟩
  | call c =>
    obtain ⟨i, hi⟩ := Possible.caller h.1
    exact Or.inr ⟨i, c, rfl, hi, (ha.call_served hs hi h.2).exchange⟩

theorem Step.stubs (h : a.Step e a') (ha : a.Inv) (hs : a.Stubs) : a'.Stubs := by
  cases e with
  | timer => exact (ha.timer_served hs h.2).stubs
  | call c =>
    obtain ⟨i, hi⟩ := Possible.caller h.1
    exact (ha.call_served hs hi h.2).stubs

/-- At the first return to user mode the setup task is the only process. -/
theorem bootedSched_other (create kernelIdle : BitVec 16) {i : Slot} (hi : i ≠ 0) :
    (Kernel.bootedSched create kernelIdle).task (.process i) = {} := by
  have hne : PDPtr.process i ≠ .process 0 := by simpa using hi
  rw [Kernel.bootedSched, run_task, setState_other hne]
  exact Function.update_of_ne hne _ _

theorem bootedSched_first (create kernelIdle : BitVec 16) :
    ((Kernel.bootedSched create kernelIdle).task (.process 0)).state = .running :=
  setState_self _ _ _

theorem bootedSched_stubs (create kernelIdle : BitVec 16) :
    (Kernel.bootedSched create kernelIdle).Stubs := by
  intro i hb
  by_cases hi : i = 0
  · rw [hi, bootedSched_first] at hb
    cases hb
  · rw [bootedSched_other _ _ hi] at hb
    cases hb

theorem Reachable.stubs (h : a.Reachable) : a.Stubs :=
  h.induction bootedSched_stubs fun _ _ _ ha hs hstep => hstep.stubs ha hs

/-- The exchange at the first return to user mode. -/
def bootExchange : Exchange where
  phase i := if i = 0 then .active else .dead
  periodic _ := false
  slip _ := KernelRequestParams.slip {}
  mail := []

theorem bootedSched_exchange (create kernelIdle : BitVec 16) :
    (Kernel.bootedSched create kernelIdle).exchange = bootExchange := by
  refine Exchange.ext ?_ ?_ rfl rfl
  · funext i
    show ((Kernel.bootedSched create kernelIdle).task (.process i)).state.phase =
      if i = 0 then _ else _
    by_cases hi : i = 0
    · rw [if_pos hi, hi, bootedSched_first]
      rfl
    · rw [if_neg hi, bootedSched_other _ _ hi]
      rfl
  · funext i
    show decide (((Kernel.bootedSched create kernelIdle).task (.process i)).priority = _) = _
    by_cases hi : i = 0
    · rw [hi, Kernel.bootedSched, run_task, setState_priority]
      rfl
    · rw [bootedSched_other _ _ hi]
      rfl

theorem Inv.exchange_posted (h : a.Inv) : a.exchange.Posted := by
  refine ⟨?_, h.posted.nodup⟩
  intro m hm
  obtain ⟨j, hj, hst⟩ := h.posted.sender m hm
  refine ⟨j, hj, ?_⟩
  show (a.task (.process j)).state.phase = .sendBlock
  rw [hst]
  rfl

theorem Inv.exchange_active (h : a.Inv) (hi : a.current = .process i) :
    a.exchange.phase i = .active := by
  show (a.task (.process i)).state.phase = .active
  rw [← hi]
  exact phase_eq_active.2 h.active.symm

/-- **Invariants of the exchange.**  What holds at boot and is kept by every call of an active
process holds in every reachable state, whatever the scheduler does. -/
theorem Reachable.exchange_induction {P : Exchange → Prop} (h : a.Reachable)
    (hboot : P bootExchange)
    (hcall : ∀ x i c, x.Posted → x.phase i = .active → P x → P (x.call i c)) :
    P a.exchange := by
  refine (h.induction (P := fun a => a.Stubs ∧ P a.exchange) ?_ ?_).2
  · intro create kernelIdle
    exact ⟨bootedSched_stubs create kernelIdle, by rwa [bootedSched_exchange]⟩
  · intro a e a' ha hP hstep
    refine ⟨hstep.stubs ha hP.1, ?_⟩
    rcases hstep.exchange ha hP.1 with ⟨-, hx⟩ | ⟨i, c, -, hi, hx⟩
    · rw [hx]
      exact hP.2
    · rw [hx]
      exact hcall _ i c ha.exchange_posted (ha.exchange_active hi) hP.2

end Sched

end RoombaRtos
