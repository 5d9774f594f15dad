import RoombaRtos.Kernel

/-!
# The system calls and user mode

The stubs of `os/os.c`, and the machine that tasks run on: the kernel of `Kernel`, the memory
of the user variables, and for every process the stub it is inside of.

* `ApiCall` — a call of one of the functions of `os.h`, with its arguments;
* `ApiCall.params` — the parameter block the stub builds before `Kernel_Request`;
* `ApiCall.epilogue` — what the stub does to user memory after `Kernel_Request` returned;
* `Kernel.enter` — one kernel entry from user mode, until the next return to user mode;
* `System.Step` — one step of the machine in user mode: a timer interrupt, a call, the return
  from a call, or a store of the running task to one of its variables.

A task that is inside a stub can be interrupted by the timer before the stub's epilogue runs.
The idle process makes no calls.
-/

namespace RoombaRtos

inductive ApiCall
  | osAbort (error : AbortCode)
  | taskCreateSystem (f : TaskFuncPtr) (arg : Word)
  | taskCreateRR (f : TaskFuncPtr) (arg : Word)
  | taskCreatePeriod (f : TaskFuncPtr) (arg : Word) (period wcet offset : Tick)
  | taskNext
  | taskGetArg
  | taskPid
  | taskTerminate
  | msgSend (id : Pid) (t : MType) (v : Option Addr)
  | msgRecv (m : Mask) (v : Option Addr)
  | msgRply (id : Pid) (r : Word)
  | msgASend (id : Pid) (t : MType) (v : Word)
  | now
deriving DecidableEq, Repr

namespace ApiCall

/-- The designated initializers of the stubs; the other fields are zero. -/
def params : ApiCall → KernelRequestParams
  | .osAbort error => { request := .abort, abortCode := error }
  | .taskCreateSystem f arg => { request := .create, priority := .system, code := f, arg := arg }
  | .taskCreateRR f arg => { request := .create, priority := .rr, code := f, arg := arg }
  | .taskCreatePeriod f arg period wcet offset =>
      { request := .create, priority := .periodic, code := f, arg := arg, period := period,
        wcet := wcet, offset := offset }
  | .taskNext => { request := .next }
  | .taskGetArg => { request := .getArg }
  | .taskPid => { request := .getPid }
  | .taskTerminate => { request := .terminate }
  | .msgSend id t v => { request := .msgSend, msgPtrData := v, msgMask := t, msgTo := id }
  | .msgRecv m _ => { request := .msgRecv, msgMask := m }
  | .msgRply id r => { request := .msgRply, msgTo := id, msgData := r }
  | .msgASend id t v => { request := .msgASend, msgMask := t, msgTo := id, msgData := v }
  | .now => { request := .getNow }

/-- `*v = x`, without effect through a null pointer. -/
def store (mem : Addr → Word) (v : Option Addr) (x : Word) : Addr → Word :=
  match v with
  | none => mem
  | some a => Function.update mem a x

/-- The value `Msg_Recv` stores, from the parameter block the kernel filled in. -/
def received (info : KernelRequestParams) (mem : Addr → Word) : Word :=
  match info.msgPtrData with
  | some p => mem p
  | none => info.msgData

/-- What a stub does to the user variables after `Kernel_Request` returned. -/
def epilogue (c : ApiCall) (info : KernelRequestParams) (mem : Addr → Word) : Addr → Word :=
  match c with
  | .msgSend _ _ v => store mem v info.msgData
  | .msgRecv _ v => store mem v (received info mem)
  | _ => mem

/-- The variable that a stub writes. -/
def out : ApiCall → Option Addr
  | .msgSend _ _ v => v
  | .msgRecv _ v => v
  | _ => none

theorem store_other {v : Option Addr} {a : Addr} (h : v ≠ some a) (mem : Addr → Word)
    (x : Word) : store mem v x a = mem a := by
  cases v with
  | none => rfl
  | some b =>
    have hne : a ≠ b := by
      intro he
      exact h (by rw [he])
    exact Function.update_of_ne hne _ _

/-- A stub writes no other variable. -/
theorem epilogue_other {c : ApiCall} {a : Addr} (h : c.out ≠ some a)
    (info : KernelRequestParams) (mem : Addr → Word) : c.epilogue info mem a = mem a := by
  cases c with
  | msgSend id t v => exact store_other h mem _
  | msgRecv m v => exact store_other h mem _
  | _ => rfl

end ApiCall

/-! ### Kernel entries -/

/-- A way into the kernel from user mode. -/
inductive Entry
  | timer
  | call (c : ApiCall)
deriving DecidableEq, Repr

namespace Kernel

/-- One kernel entry, until the next return to user mode. -/
def enter (s : Kernel) : Entry → Except Halt Kernel
  | .timer => s.timerInterrupt
  | .call c => s.kernelRequest c.params

/-- The entries that can happen: the idle process does not call the kernel. -/
def Possible (s : Kernel) : Entry → Prop
  | .timer => True
  | .call _ => s.cp ≠ some .idleProcess

instance (s : Kernel) (e : Entry) : Decidable (s.Possible e) :=
  match e with
  | .timer => inferInstanceAs (Decidable True)
  | .call _ => inferInstanceAs (Decidable (s.cp ≠ some .idleProcess))

/-- From one return to user mode to the next. -/
def Step (s : Kernel) (e : Entry) (s' : Kernel) : Prop :=
  s.Possible e ∧ s.enter e = .ok s'

/-- The states in which the kernel returns to user mode, in any run since power-on. -/
def Reachable (s : Kernel) : Prop :=
  ∃ create kernelIdle s₀ es, boot create kernelIdle = .ok s₀ ∧ Lockstep.Run Step s₀ es s

/-- One step as a function; `none` when the entry cannot happen, does not pass `guard`, or
stops the kernel. -/
def advance (guard : Kernel → Entry → Bool) (s : Kernel) (e : Entry) : Option Kernel :=
  if s.Possible e ∧ guard s e then (s.enter e).toOption else none

/-- The state after power-on and the given entries. -/
def after (guard : Kernel → Entry → Bool) (create kernelIdle : BitVec 16) (es : List Entry) :
    Option Kernel :=
  (boot create kernelIdle).toOption.bind fun s => Lockstep.Run.exec (advance guard) s es

theorem advance_step {guard : Kernel → Entry → Bool} {s s' : Kernel} {e : Entry}
    (h : s.advance guard e = some s') : s.Step e s' ∧ guard s e = true := by
  unfold advance at h
  by_cases hp : s.Possible e ∧ guard s e
  · rw [if_pos hp, Lockstep.toOption_eq_some] at h
    exact ⟨⟨hp.1, h⟩, hp.2⟩
  · rw [if_neg hp] at h
    cases h

theorem run_of_after {guard : Kernel → Entry → Bool} {create kernelIdle : BitVec 16}
    {es : List Entry} {s : Kernel} (h : after guard create kernelIdle es = some s) :
    ∃ s₀, boot create kernelIdle = .ok s₀ ∧
      Lockstep.Run (fun s e s' => s.Step e s' ∧ guard s e = true) s₀ es s := by
  obtain ⟨s₀, hs₀, hrun⟩ := Option.bind_eq_some_iff.1 h
  rw [Lockstep.toOption_eq_some] at hs₀
  exact ⟨s₀, hs₀, (Lockstep.Run.of_exec hrun).mono fun _ _ _ hs => advance_step hs⟩

theorem reachable_of_after {guard : Kernel → Entry → Bool} {create kernelIdle : BitVec 16}
    {es : List Entry} {s : Kernel} (h : after guard create kernelIdle es = some s) :
    s.Reachable := by
  obtain ⟨s₀, hb, hrun⟩ := run_of_after h
  exact ⟨create, kernelIdle, s₀, es, hb, hrun.mono fun _ _ _ hs => hs.1⟩

end Kernel

/-! ### The machine in user mode -/

structure System where
  kernel : Kernel
  /-- The stub each process is inside of. -/
  call : PDPtr → Option ApiCall
  /-- The user variables. -/
  mem : Addr → Word

inductive Event
  | timer
  /-- The running task calls the kernel. -/
  | call (c : ApiCall)
  /-- The stub that the running task is inside of finishes. -/
  | ret
  /-- The running task assigns to one of its variables. -/
  | store (v : Addr) (x : Word)
deriving DecidableEq, Repr

namespace System

/-- One step in user mode; `none` when the running task cannot do it. -/
def step (s : System) (e : Event) : Option (Except Halt System) :=
  match s.kernel.cp with
  | none => none
  | some cp =>
      match e with
      | .timer => some do
          let kernel ← s.kernel.enter .timer
          return { s with kernel := kernel }
      | .call c =>
          if cp ≠ .idleProcess ∧ s.call cp = none then some do
            let kernel ← s.kernel.enter (.call c)
            -- a terminated task never comes back to its stub
            let inside := if c = .taskTerminate then none else some c
            return { s with kernel := kernel, call := Function.update s.call cp inside }
          else none
      | .ret =>
          (s.call cp).map fun c =>
            .ok { s with
              call := Function.update s.call cp none
              mem := c.epilogue (s.kernel.info (.stub cp)) s.mem }
      | .store v x =>
          if cp ≠ .idleProcess ∧ s.call cp = none then
            some (.ok { s with mem := Function.update s.mem v x })
          else none

def Step (s : System) (e : Event) (s' : System) : Prop :=
  s.step e = some (.ok s')

/-- What a step does, event by event. -/
theorem step_cases {s s' : System} {e : Event} (h : s.Step e s') : ∃ cp, s.kernel.cp = some cp ∧
    ((e = .timer ∧ ∃ k, s.kernel.enter .timer = .ok k ∧ s' = { s with kernel := k }) ∨
    (∃ c k, e = .call c ∧ cp ≠ .idleProcess ∧ s.call cp = none ∧
      s.kernel.enter (.call c) = .ok k ∧
      s' = { s with
        kernel := k
        call := Function.update s.call cp (if c = .taskTerminate then none else some c) }) ∨
    (∃ c, e = .ret ∧ s.call cp = some c ∧
      s' = { s with
        call := Function.update s.call cp none
        mem := c.epilogue (s.kernel.info (.stub cp)) s.mem }) ∨
    (∃ v x, e = .store v x ∧ cp ≠ .idleProcess ∧ s.call cp = none ∧
      s' = { s with mem := Function.update s.mem v x })) := by
  unfold Step step at h
  cases hcp : s.kernel.cp with
  | none =>
    rw [hcp] at h
    cases h
  | some cp =>
    rw [hcp] at h
    refine ⟨cp, rfl, ?_⟩
    cases e with
    | timer =>
      obtain ⟨k, hk, hs⟩ := Lockstep.bind_ok (Option.some.inj h)
      exact Or.inl ⟨rfl, k, hk, (Except.ok.inj hs).symm⟩
    | call c =>
      by_cases hc : cp ≠ .idleProcess ∧ s.call cp = none
      · simp only [if_pos hc, Option.some.injEq] at h
        obtain ⟨k, hk, hs⟩ := Lockstep.bind_ok h
        exact Or.inr (Or.inl ⟨c, k, rfl, hc.1, hc.2, hk, (Except.ok.inj hs).symm⟩)
      · simp [hc] at h
    | ret =>
      cases hc : s.call cp with
      | none => simp [hc] at h
      | some c =>
        simp only [hc, Option.map_some, Option.some.injEq, Except.ok.injEq] at h
        exact Or.inr (Or.inr (Or.inl ⟨c, rfl, rfl, h.symm⟩))
    | store v x =>
      by_cases hc : cp ≠ .idleProcess ∧ s.call cp = none
      · simp only [if_pos hc, Option.some.injEq, Except.ok.injEq] at h
        exact Or.inr (Or.inr (Or.inr ⟨v, x, rfl, hc.1, hc.2, h.symm⟩))
      · simp [hc] at h

/-- Nobody but the process `i` writes the variable `v`. -/
def spares (s : System) (i : Slot) (v : Addr) (e : Event) : Bool :=
  match s.kernel.cp with
  | none => true
  | some cp =>
      cp = .process i ||
        match e with
        | .ret => (s.call cp).bind ApiCall.out ≠ some v
        | .store a _ => a ≠ v
        | _ => true

/-- A variable keeps its value while its owner does not run. -/
theorem mem_of_spares {s s' : System} {e : Event} {i : Slot} {v : Addr} (h : s.Step e s')
    (hv : s.spares i v e = true) (hi : s.kernel.cp ≠ some (.process i)) : s'.mem v = s.mem v := by
  obtain ⟨cp, hcp, ⟨rfl, k, -, he⟩ | ⟨c, k, rfl, -, -, -, he⟩ | ⟨c, rfl, hc, he⟩ |
    ⟨a, x, rfl, -, -, he⟩⟩ := step_cases h
  · rw [he]
  · rw [he]
  · have hne : cp ≠ .process i := fun hcpi => hi (by rw [hcp, hcpi])
    have hout : c.out ≠ some v := by
      simpa [spares, hcp, hne, hc] using hv
    rw [he]
    exact ApiCall.epilogue_other hout _ _
  · have hne : cp ≠ .process i := fun hcpi => hi (by rw [hcp, hcpi])
    have hav : a ≠ v := by
      simpa [spares, hcp, hne] using hv
    rw [he]
    exact Function.update_of_ne (Ne.symm hav) _ _

/-- And it keeps its value while its owner is inside of a stub. -/
theorem mem_of_inside {s s' : System} {e : Event} {i : Slot} {v : Addr} (h : s.Step e s')
    (hv : s.spares i v e = true) (hin : s.call (.process i) ≠ none)
    (hin' : s'.call (.process i) ≠ none) : s'.mem v = s.mem v := by
  by_cases hi : s.kernel.cp = some (.process i)
  · obtain ⟨cp, hcp, ⟨-, k, -, he⟩ | ⟨c, k, -, -, hnone, -⟩ | ⟨c, -, -, he⟩ |
      ⟨a, x, -, -, hnone, -⟩⟩ := step_cases h
    · rw [he]
    · obtain rfl : PDPtr.process i = cp := Option.some.inj (hi.symm.trans hcp)
      exact absurd hnone hin
    · obtain rfl : PDPtr.process i = cp := Option.some.inj (hi.symm.trans hcp)
      rw [he] at hin'
      exact absurd (Function.update_self _ _ _) hin'
    · obtain rfl : PDPtr.process i = cp := Option.some.inj (hi.symm.trans hcp)
      exact absurd hnone hin
  · exact mem_of_spares h hv hi

/-- Power-on: the first return to user mode, with any contents of the user variables. -/
def Initial (s : System) : Prop :=
  (∃ create kernelIdle, Kernel.boot create kernelIdle = .ok s.kernel) ∧ ∀ p, s.call p = none

/-- Power-on as a function, with `mem` in the user variables. -/
def powerOn (create kernelIdle : BitVec 16) (mem : Addr → Word) : Option System :=
  (Kernel.boot create kernelIdle).toOption.map fun kernel =>
    { kernel := kernel, call := fun _ => none, mem := mem }

/-- One step as a function; `none` when it cannot happen or stops the machine. -/
def advance (s : System) (e : Event) : Option System := (s.step e).bind Except.toOption

/-- The state after power-on and the given events. -/
def after (create kernelIdle : BitVec 16) (mem : Addr → Word) (es : List Event) :
    Option System :=
  (powerOn create kernelIdle mem).bind fun s => Lockstep.Run.exec advance s es

theorem powerOn_initial {create kernelIdle : BitVec 16} {mem : Addr → Word} {s : System}
    (h : powerOn create kernelIdle mem = some s) : s.Initial := by
  obtain ⟨k, hk, rfl⟩ := Option.map_eq_some_iff.1 h
  exact ⟨⟨create, kernelIdle, Lockstep.toOption_eq_some.1 hk⟩, fun _ => rfl⟩

theorem advance_step {s s' : System} {e : Event} (h : s.advance e = some s') : s.Step e s' := by
  obtain ⟨x, hx, hs⟩ := Option.bind_eq_some_iff.1 h
  rw [Lockstep.toOption_eq_some] at hs
  rw [Step, hx, hs]

theorem run_of_after {create kernelIdle : BitVec 16} {mem : Addr → Word} {es : List Event}
    {s : System} (h : after create kernelIdle mem es = some s) :
    ∃ s₀ : System, s₀.Initial ∧ Lockstep.Run Step s₀ es s := by
  obtain ⟨s₀, hs₀, hrun⟩ := Option.bind_eq_some_iff.1 h
  exact ⟨s₀, powerOn_initial hs₀,
    (Lockstep.Run.of_exec hrun).mono fun _ _ _ hs => advance_step hs⟩

end System

end RoombaRtos
