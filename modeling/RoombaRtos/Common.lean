import Mathlib.Algebra.GroupWithZero.Nat
import Mathlib.Data.Fintype.Basic
import Mathlib.Logic.Function.Basic

/-!
# Types shared by the kernel and its users

The definitions of `os/common.h`: scalar types, priority levels, process states, kernel
request codes, abort codes and the parameter block of a kernel request.  Fixed-width C
integers are `BitVec`s, so additions wrap as they do on the board; a pointer is an `Option`,
with `none` for `NULL`.
-/

namespace RoombaRtos

/-- Maximum supported threads. -/
abbrev maxThread : ℕ := 16

instance : NeZero maxThread := ⟨by decide⟩

/-- Index into the process table and the outgoing mailboxes. -/
abbrev Slot := Fin maxThread

abbrev Pid := BitVec 16
abbrev Tick := BitVec 16
abbrev MType := BitVec 8
abbrev Mask := BitVec 8

abbrev Byte := BitVec 8

/-- A word of user data, the `uint16_t` payload of a message. -/
abbrev Word := BitVec 16

/-- The address of a user variable. -/
abbrev Addr := BitVec 16

/-- Pointer to a task function; `none` is `NULL`. -/
abbrev TaskFuncPtr := Option (BitVec 16)

/-- An entry that was taken out of a table holds nothing; the others are as before. -/
theorem update_none_eq_some {α β : Type*} [DecidableEq α] {f : α → Option β} {a b : α} {x : β} :
    Function.update f a none b = some x ↔ b ≠ a ∧ f b = some x := by
  by_cases h : b = a
  · subst h
    simp
  · rw [Function.update_of_ne h]
    exact ⟨fun hb => ⟨h, hb⟩, fun hb => hb.2⟩

/-- The mask for all message types, `ANY`. -/
def anyMask : Mask := 0xFF

/-- `MASK_TEST_ANY`: some bit of `mask` is also set in `port`. -/
def maskTestAny (port mask : Mask) : Bool := port &&& mask != 0

/-- The mask `ANY` admits every type but `0`. -/
theorem maskTestAny_any {type : MType} : maskTestAny anyMask type = true ↔ type ≠ 0 := by
  have h : anyMask &&& type = type := BitVec.allOnes_and
  rw [maskTestAny, h]
  exact bne_iff_ne

/-- Type `0` passes no mask. -/
theorem ne_zero_of_maskTestAny {mask : Mask} {type : MType}
    (h : maskTestAny mask type = true) : type ≠ 0 := by
  intro h0
  have hand : mask &&& type = 0 := by
    rw [h0]
    exact BitVec.and_zero
  rw [maskTestAny, hand] at h
  cases h

theorem maskTestAny_any_of {mask : Mask} {type : MType} (h : maskTestAny mask type = true) :
    maskTestAny anyMask type = true :=
  maskTestAny_any.2 (ne_zero_of_maskTestAny h)

/-- `VALID_ID`, together with the table index a valid id selects. -/
def validId (id : Pid) : Option Slot :=
  if h : id.toNat < maxThread then some ⟨id.toNat, h⟩ else none

/-- The process id stored in table entry `i`. -/
def pidOf (i : Slot) : Pid := BitVec.ofNat 16 i.val

theorem pidOf_toNat (i : Slot) : (pidOf i).toNat = i.val := by
  have : i.val < 16 := i.isLt
  simp only [pidOf, BitVec.toNat_ofNat]
  omega

@[simp] theorem validId_pidOf (i : Slot) : validId (pidOf i) = some i := by
  simp [validId, pidOf_toNat, i.isLt]

theorem validId_eq_some {id : Pid} {i : Slot} : validId id = some i ↔ id = pidOf i := by
  constructor
  · intro h
    unfold validId at h
    split at h
    · rename_i hlt
      have hi : i.val = id.toNat := by rw [← Option.some.inj h]
      rw [pidOf, hi, BitVec.ofNat_toNat, BitVec.setWidth_eq]
    · cases h
  · intro heq
    subst heq
    exact validId_pidOf i

theorem pidOf_injective : Function.Injective pidOf := by
  intro i j h
  have := congrArg validId h
  simpa using this

/-- An 8-bit counter below its limit counts up without wrapping. -/
theorem toNat_add_one {n : BitVec 8} (h : n.toNat < 255) : (n + 1).toNat = n.toNat + 1 := by
  bv_omega

/-- A nonzero 8-bit counter counts down without wrapping. -/
theorem toNat_sub_one {n : BitVec 8} (h : 0 < n.toNat) : (n - 1).toNat = n.toNat - 1 := by
  bv_omega

/-- A list whose length is kept in 8 bits is empty if that is zero. -/
theorem count_eq_zero {α : Type} {n : BitVec 8} {l : List α} (h : n.toNat = l.length) :
    n = 0 ↔ l = [] := by
  rw [← List.length_eq_zero_iff, ← h]
  exact ⟨fun e => by simp [e], fun e => BitVec.eq_of_toNat_eq (by simpa using e)⟩

inductive PriorityLevel
  | system
  | periodic
  | rr
  /-- The value `-1` that `Kernel_Init` stores in the idle process. -/
  | unlisted
deriving DecidableEq, Repr

inductive ProcessState
  | dead
  | ready
  | running
  | sendBlock
  | replyBlock
  | recvBlock
deriving DecidableEq, Repr

inductive OverflowState
  | even
  | odd
deriving DecidableEq, Repr

/-- The other epoch, `clock_state == EVEN ? ODD : EVEN`. -/
def OverflowState.flip : OverflowState → OverflowState
  | .even => .odd
  | .odd => .even

inductive KernelRequestType
  | none
  | timer
  | create
  | next
  | getArg
  | getPid
  | getNow
  | msgSend
  | msgRecv
  | msgRply
  | msgASend
  | terminate
  | abort
deriving DecidableEq, Repr

inductive AbortCode
  /-- The value `0` of a parameter block that carries no code. -/
  | unset
  | timingViolation
  | noDeadProcess
  | invalidReqInfo
  | failedStart
  | noRequestInfo
  | wrongTaskOrder
  | invalidPriority
  | periodicMsg
  | queueingError
  | nullTaskFunction
  | uartError
  | pwmError
deriving DecidableEq, Repr

/-- How kernel code can stop short of returning. -/
inductive Halt
  /-- `utils_abort(code)`: the LED blinks `code` and no task runs again. -/
  | abort (code : AbortCode)
  /-- An access through `NULL` or outside a table, where C gives no meaning. -/
  | undefinedAccess
  /-- A pointer walk that does not end. -/
  | diverges
deriving DecidableEq, Repr

/-- `KERNEL_REQUEST_PARAMS`: information passed within a kernel request. -/
structure KernelRequestParams where
  outPid : Pid := 0
  outNow : Tick := 0
  code : TaskFuncPtr := none
  arg : Word := 0
  request : KernelRequestType := .none
  priority : PriorityLevel := .system
  period : Tick := 0
  wcet : Tick := 0
  offset : Tick := 0
  msgPtrData : Option Addr := none
  msgData : Word := 0
  msgMask : MType := 0
  msgTo : Pid := 0
  abortCode : AbortCode := .unset
deriving DecidableEq, Repr

end RoombaRtos
