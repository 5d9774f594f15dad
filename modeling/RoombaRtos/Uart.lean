import Mathlib.Data.Vector.Basic
import RoombaRtos.Lib.Lockstep
import RoombaRtos.Lib.RingBuffer
import RoombaRtos.Common

/-!
# The receive side of the UART

The receive buffers of `uart/uart.c`: four channels, each a ring buffer of `RX_BUFFER_SIZE`
bytes that the interrupt handler fills and the tasks empty.

* `Channel` — the variables of one channel, and what each function does to them while
  interrupts are off;
* `Uart` — the four channels, and the functions of `uart.h` with their checks.  `OS_Abort` does
  not return;
* `Fifo` — what the functions are for: a queue of at most `RX_BUFFER_SIZE` bytes for each
  channel;
* `ring_refines_fifo` — the calls, in any order and on any channels, have the results of the
  queues.

`UART_ISR` is entered with one byte in the data register of the channel, and takes it from there
in either branch.  Messages to the log are compiled out (`DEBUG` is `0`).
-/

namespace RoombaRtos

open Lockstep RingBuffer

/-- `RX_BUFFER_SIZE`. -/
abbrev rxBufferSize : ℕ := 32

/-- The receive variables of a channel. -/
structure Channel where
  /-- Where the next byte is written. -/
  rxIn : BitVec 16
  /-- Where the next byte is read. -/
  rxRn : BitVec 16
  /-- Ring buffer wrapped. -/
  rxWn : Bool
  rxBuf : Vector Byte rxBufferSize
  initialized : Bool
  currentBaud : BitVec 32

namespace Channel

/-! ### With interrupts off -/

def available (c : Channel) : Bool := c.rxWn || c.rxRn < c.rxIn

def bytesAvailable (c : Channel) (num : BitVec 16) : Bool :=
  if !c.rxWn then num ≤ c.rxIn - c.rxRn
  else num ≤ BitVec.ofNat 16 rxBufferSize - c.rxRn + c.rxIn

def flush (c : Channel) : Channel := { c with rxRn := c.rxIn, rxWn := false }

/-- What `UART_Async_Receive` does when a byte is available. -/
def readByte (c : Channel) : Except Halt (Byte × Channel) :=
  match c.rxBuf[c.rxRn.toNat]? with
  | none => throw .undefinedAccess
  | some byte =>
      let rn := (c.rxRn + 1) % BitVec.ofNat 16 rxBufferSize
      if rn = 0 then
        if c.rxWn then return (byte, { c with rxRn := rn, rxWn := false })
        -- the read index is ahead of the write index
        else throw (.abort .uartError)
      else return (byte, { c with rxRn := rn })

/-- `UART_ISR` with the byte `udr`: whether it was stored, and the channel after it. -/
def isr (c : Channel) (udr : Byte) : Except Halt (Bool × Channel) :=
  if c.rxWn && c.rxRn == c.rxIn then return (false, c)
  else if h : c.rxIn.toNat < rxBufferSize then
    let buf := c.rxBuf.set c.rxIn.toNat udr h
    let rxIn := (c.rxIn + 1) % BitVec.ofNat 16 rxBufferSize
    if rxIn = 0 then
      -- wrapped again
      if c.rxWn then throw (.abort .uartError)
      else return (true, { c with rxBuf := buf, rxIn := rxIn, rxWn := true })
    else return (true, { c with rxBuf := buf, rxIn := rxIn })
  else throw .undefinedAccess

/-! ### The ring buffer of a channel -/

def ring (c : Channel) : Circular Byte where
  read := c.rxRn.toNat
  write := c.rxIn.toNat
  wrapped := c.rxWn
  cell i := (c.rxBuf[i]?).getD 0

/-- The unread bytes of the channel are `l`. -/
def Holds (c : Channel) (l : List Byte) : Prop := c.ring.Holds rxBufferSize l

variable {c : Channel} {l : List Byte} {b : Byte}

theorem toNat_next {x : BitVec 16} (h : x.toNat < rxBufferSize) :
    ((x + 1) % BitVec.ofNat 16 rxBufferSize).toNat = next rxBufferSize x.toNat := by
  have hx : x.toNat < 32 := h
  have hsucc : (x + 1).toNat = x.toNat + 1 := by
    rw [BitVec.toNat_add]
    show (x.toNat + 1) % 2 ^ 16 = _
    omega
  rw [BitVec.toNat_umod, hsucc]
  show (x.toNat + 1) % 32 = if x.toNat + 1 < 32 then x.toNat + 1 else 0
  split <;> omega

theorem eq_zero_iff (x : BitVec 16) : x = 0 ↔ x.toNat = 0 := by
  constructor
  · intro h
    rw [h]
    rfl
  · intro h
    exact BitVec.eq_of_toNat_eq h

theorem available_eq (h : c.Holds l) : c.available = decide (l ≠ []) := by
  rw [Bool.eq_iff_iff, decide_eq_true_iff, ← Circular.Holds.unread_iff h, available,
    Bool.or_eq_true, decide_eq_true_iff, BitVec.lt_def]
  rfl

/-- The subtractions do not wrap, and the sums fit into 16 bits. -/
theorem bytesAvailable_eq (h : c.Holds l) (num : BitVec 16) :
    c.bytesAvailable num = decide (num.toNat ≤ l.length) := by
  have hr : c.rxRn.toNat < 32 := h.read_lt
  have hw : c.rxIn.toNat < 32 := h.write_lt
  have hlen := h.length
  cases hf : c.rxWn with
  | false =>
    have ha : c.rxRn.toNat ≤ c.rxIn.toNat := h.ahead hf
    rw [Circular.count_straight hf] at hlen
    have hsub : (c.rxIn - c.rxRn).toNat = c.rxIn.toNat - c.rxRn.toNat := by
      bv_omega
    simp only [bytesAvailable, hf, Bool.not_false, if_true, BitVec.le_def, hsub, hlen]
    rfl
  | true =>
    have hb : c.rxIn.toNat ≤ c.rxRn.toNat := h.behind hf
    rw [Circular.count_wrapped hf] at hlen
    have hsub : (BitVec.ofNat 16 rxBufferSize - c.rxRn + c.rxIn).toNat =
        32 - c.rxRn.toNat + c.rxIn.toNat := by
      show (32#16 - c.rxRn + c.rxIn).toNat = _
      bv_omega
    simp only [bytesAvailable, hf, Bool.not_true, Bool.false_eq_true, if_false, BitVec.le_def,
      hsub, hlen]
    rfl

theorem flush_holds (h : c.Holds l) : c.flush.Holds [] := h.clear

/-- **A read takes the oldest byte.**  The reader is never ahead of the writer. -/
theorem readByte_holds (h : c.Holds (b :: l)) :
    ∃ c', c.readByte = .ok (b, c') ∧ c'.Holds l ∧ c'.initialized = c.initialized := by
  have hr : c.rxRn.toNat < rxBufferSize := h.read_lt
  have hone := h.wrapped_of_pop
  have hnext := toNat_next hr
  have hbyte : c.rxBuf[c.rxRn.toNat]? = some b := by
    have hcell : (c.rxBuf[c.rxRn.toNat]?).getD 0 = b := h.head
    rw [Vector.getElem?_eq_getElem hr] at hcell ⊢
    rw [← hcell]
    rfl
  set rn := (c.rxRn + 1) % BitVec.ofNat 16 rxBufferSize with hrn
  -- in both branches the indices move as those of the ring do
  have hpop : ∀ w, w = (c.rxWn && next rxBufferSize c.rxRn.toNat != 0) →
      ({ c with rxRn := rn, rxWn := w } : Channel).Holds l := by
    intro w hw
    have he : ({ c with rxRn := rn, rxWn := w } : Channel).ring = c.ring.pop rxBufferSize := by
      simp only [ring, Circular.pop, hnext, hw]
    unfold Holds
    rw [he]
    exact h.pop
  by_cases hz : rn = 0
  · have hzero : next rxBufferSize c.rxRn.toNat = 0 := by
      rw [← hnext]
      exact (eq_zero_iff _).1 hz
    have hf : c.rxWn = true := hone hzero
    refine ⟨{ c with rxRn := rn, rxWn := false }, ?_, hpop false (by simp [hzero]), rfl⟩
    simp only [readByte, hbyte, ← hrn, hz, hf, if_true]
    rfl
  · have hne : next rxBufferSize c.rxRn.toNat ≠ 0 := by
      rw [← hnext]
      exact fun h0 => hz ((eq_zero_iff _).2 h0)
    refine ⟨{ c with rxRn := rn }, ?_, hpop c.rxWn (by simp [hne]), rfl⟩
    simp only [readByte, hbyte, ← hrn, hz, if_false]
    rfl

/-- **A byte is dropped when the buffer is full, and only then.**  The writer never wraps a
second time. -/
theorem isr_holds (h : c.Holds l) (b : Byte) :
    ∃ c', c.isr b = .ok (decide (l.length < rxBufferSize), c') ∧
      c'.Holds (if l.length < rxBufferSize then l ++ [b] else l) ∧
      c'.initialized = c.initialized := by
  have hw : c.rxIn.toNat < rxBufferSize := h.write_lt
  have hle := h.length_le
  have hfull : (c.rxWn && c.rxRn == c.rxIn) = true ↔ l.length = rxBufferSize := by
    rw [← Circular.Holds.full_iff h, Bool.and_eq_true, beq_iff_eq, BitVec.toNat_eq]
    rfl
  by_cases hl : l.length < rxBufferSize
  · have hnot : (c.rxWn && c.rxRn == c.rxIn) = false := by
      rw [← Bool.not_eq_true, hfull]
      omega
    have hone := h.not_wrapped_of_push hl
    have hnext := toNat_next hw
    set rxIn := (c.rxIn + 1) % BitVec.ofNat 16 rxBufferSize with hin
    set buf := c.rxBuf.set c.rxIn.toNat b hw with hbuf
    have hcell : (fun i => (buf[i]?).getD 0) = Function.update c.ring.cell c.rxIn.toNat b := by
      funext i
      by_cases hi : i = c.rxIn.toNat
      · subst hi
        rw [Function.update_self, hbuf, Vector.getElem?_set_self]
        rfl
      · rw [Function.update_of_ne hi, hbuf, Vector.getElem?_set_ne _ (Ne.symm hi)]
        rfl
    have hpush : ∀ w, w = (c.rxWn || next rxBufferSize c.rxIn.toNat == 0) →
        ({ c with rxBuf := buf, rxIn := rxIn, rxWn := w } : Channel).Holds (l ++ [b]) := by
      intro w hw
      have he : ({ c with rxBuf := buf, rxIn := rxIn, rxWn := w } : Channel).ring =
          c.ring.push rxBufferSize b := by
        simp only [ring, Circular.push, hnext, hw, hcell]
      unfold Holds
      rw [he]
      exact h.push hl b
    simp only [hl, decide_true, if_true]
    by_cases hz : rxIn = 0
    · have hzero : next rxBufferSize c.rxIn.toNat = 0 := by
        rw [← hnext]
        exact (eq_zero_iff _).1 hz
      have hf : c.rxWn = false := hone hzero
      refine ⟨{ c with rxBuf := buf, rxIn := rxIn, rxWn := true }, ?_,
        hpush true (by simp [hzero]), rfl⟩
      simp only [isr, Bool.false_eq_true, if_false, hw, dite_true, ← hin, hz, if_true, hf]
      rfl
    · have hne : next rxBufferSize c.rxIn.toNat ≠ 0 := by
        rw [← hnext]
        exact fun h0 => hz ((eq_zero_iff _).2 h0)
      refine ⟨{ c with rxBuf := buf, rxIn := rxIn }, ?_, hpush c.rxWn (by simp [hne]), rfl⟩
      simp only [isr, hnot, Bool.false_eq_true, if_false, hw, dite_true, ← hin, hz]
      rfl
  · refine ⟨c, ?_, ?_, rfl⟩
    · have hyes : (c.rxWn && c.rxRn == c.rxIn) = true := hfull.2 (by omega)
      simp only [isr, hyes, if_true, hl, decide_false]
      rfl
    · rwa [if_neg hl]

end Channel

/-! ### The four channels -/

abbrev Uart := Fin 4 → Channel

/-- `CHAN_OK`. -/
def chanOk (chan : BitVec 8) : Option (Fin 4) :=
  if h : chan.toNat < 4 then some ⟨chan.toNat, h⟩ else none

/-- The number of a channel. -/
def chanOf (k : Fin 4) : BitVec 8 := BitVec.ofNat 8 k

theorem chanOk_chanOf (k : Fin 4) : chanOk (chanOf k) = some k := by
  have hk : (chanOf k).toNat = k := by
    show (k : ℕ) % 2 ^ 8 = k
    omega
  have hlt : (chanOf k).toNat < 4 := by omega
  rw [chanOk, dif_pos hlt]
  exact congrArg some (Fin.ext hk)

namespace Uart

/-- The static initializers. -/
def reset : Uart := fun _ =>
  { rxIn := 0, rxRn := 0, rxWn := false, rxBuf := Vector.replicate rxBufferSize 0,
    initialized := false, currentBaud := 0 }

/-- The test at the head of the functions: a good channel that was initialized. -/
def checked (u : Uart) (chan : BitVec 8) : Except Halt (Fin 4) :=
  match chanOk chan with
  | none => throw (.abort .uartError)
  | some k => if (u k).initialized then return k else throw (.abort .uartError)

def uartInit (u : Uart) (chan : BitVec 8) (baudRate : BitVec 32) : Except Halt Uart :=
  match chanOk chan with
  | none => throw (.abort .uartError)
  | some k =>
      if baudRate = (u k).currentBaud then return u
      else return Function.update u k { u k with initialized := true, currentBaud := baudRate }

def uartAvailable (u : Uart) (chan : BitVec 8) : Except Halt Bool := do
  let k ← u.checked chan
  return (u k).available

def uartBytesAvailable (u : Uart) (chan : BitVec 8) (num : BitVec 16) : Except Halt Bool := do
  let k ← u.checked chan
  return (u k).bytesAvailable num

def uartFlush (u : Uart) (chan : BitVec 8) : Except Halt Uart := do
  let k ← u.checked chan
  return Function.update u k (u k).flush

/-- `UART_ISR`, and whether the byte was stored. -/
def uartIsr (u : Uart) (chan : BitVec 8) (udr : Byte) : Except Halt (Bool × Uart) := do
  let k ← u.checked chan
  let (stored, c) ← (u k).isr udr
  return (stored, Function.update u k c)

/-- Bytes arrive one after the other. -/
def arrivals (u : Uart) (chan : BitVec 8) : List Byte → Except Halt (List Bool × Uart)
  | [] => return ([], u)
  | b :: bs => do
      let (stored, u) ← u.uartIsr chan b
      let (rest, u) ← arrivals u chan bs
      return (stored :: rest, u)

/-- `UART_Async_Receive`.  The bytes `meanwhile` arrive after its call of `UART_Available`, and
before it turns interrupts off to read. -/
def uartAsyncReceive (u : Uart) (chan : BitVec 8) (meanwhile : List Byte) :
    Except Halt ((List Bool × Option Byte) × Uart) := do
  let k ← u.checked chan
  let avail ← u.uartAvailable chan
  let (stored, u) ← u.arrivals chan meanwhile
  if avail then
    let (byte, c) ← (u k).readByte
    return ((stored, some byte), Function.update u k c)
  else return ((stored, none), u)

end Uart

/-! ### Calls and their results -/

inductive UartCall
  | init (baudRate : BitVec 32)
  /-- A byte arrives. -/
  | isr (udr : Byte)
  | asyncReceive (meanwhile : List Byte)
  | available
  | bytesAvailable (num : BitVec 16)
  | flush
deriving DecidableEq, Repr

inductive UartResult
  | done
  | stored (b : Bool)
  /-- Which of the bytes that arrived meanwhile were stored, and the byte that was read. -/
  | received (stored : List Bool) (byte : Option Byte)
  | answer (b : Bool)
deriving DecidableEq, Repr

namespace Uart

def call (u : Uart) (chan : BitVec 8) : UartCall → Except Halt (UartResult × Uart)
  | .init baudRate => do
      let u ← u.uartInit chan baudRate
      return (.done, u)
  | .isr udr => do
      let (stored, u) ← u.uartIsr chan udr
      return (.stored stored, u)
  | .asyncReceive meanwhile => do
      let ((stored, byte), u) ← u.uartAsyncReceive chan meanwhile
      return (.received stored byte, u)
  | .available => do
      let b ← u.uartAvailable chan
      return (.answer b, u)
  | .bytesAvailable num => do
      let b ← u.uartBytesAvailable chan num
      return (.answer b, u)
  | .flush => do
      let u ← u.uartFlush chan
      return (.done, u)

/-- Calls on any channels, one after the other. -/
def run (u : Uart) : List (BitVec 8 × UartCall) → Except Halt (List UartResult × Uart)
  | [] => return ([], u)
  | (chan, c) :: es => do
      let (r, u) ← u.call chan c
      let (rs, u) ← run u es
      return (r :: rs, u)

end Uart

/-! ### The queues -/

namespace Fifo

/-- Bytes arrive at a queue, which stores them while it has room. -/
def arrivals (q : Tape Byte) : List Byte → List Bool × Tape Byte
  | [] => ([], q)
  | b :: bs =>
      let rest := arrivals (q.arrive rxBufferSize b) bs
      (decide (q.unread.length < rxBufferSize) :: rest.1, rest.2)

/-- The oldest byte is taken, if there was one before the bytes `meanwhile` arrived. -/
def receive (q : Tape Byte) (meanwhile : List Byte) : (List Bool × Option Byte) × Tape Byte :=
  let r := arrivals q meanwhile
  match q.unread with
  | [] => ((r.1, none), r.2)
  | b :: _ => ((r.1, some b), r.2.take)

/-- What the calls mean for a queue of bytes. -/
def call (q : Tape Byte) : UartCall → UartResult × Tape Byte
  | .init _ => (.done, q)
  | .isr b => (.stored (decide (q.unread.length < rxBufferSize)), q.arrive rxBufferSize b)
  | .asyncReceive meanwhile =>
      let r := receive q meanwhile
      (.received r.1.1 r.1.2, r.2)
  | .available => (.answer (decide (q.unread ≠ [])), q)
  | .bytesAvailable num => (.answer (decide (num.toNat ≤ q.unread.length)), q)
  | .flush => (.done, q.discard)

def run (qs : Fin 4 → Tape Byte) :
    List (Fin 4 × UartCall) → List UartResult × (Fin 4 → Tape Byte)
  | [] => ([], qs)
  | (k, c) :: es =>
      let r := call (qs k) c
      let rest := run (Function.update qs k r.2) es
      (r.1 :: rest.1, rest.2)

/-- Of the bytes that arrived, those that were stored. -/
def kept (bs : List Byte) (flags : List Bool) : List Byte :=
  ((bs.zip flags).filter Prod.snd).map Prod.fst

/-- The bytes that the call `c` with result `r` let into the buffer. -/
def stored (c : UartCall) (r : UartResult) : List Byte :=
  match c, r with
  | .isr b, .stored true => [b]
  | .asyncReceive bs, .received flags _ => kept bs flags
  | _, _ => []

/-- The byte that the call `c` with result `r` returned. -/
def returned (c : UartCall) (r : UartResult) : List Byte :=
  match c, r with
  | .asyncReceive _, .received _ (some b) => [b]
  | _, _ => []

/-- What the calls on the channel `k` contribute, one after the other. -/
def onChannel (k : Fin 4) (f : UartCall → UartResult → List Byte) :
    List (Fin 4 × UartCall) → List UartResult → List Byte
  | (k', c) :: es, r :: rs => (if k' = k then f c r else []) ++ onChannel k f es rs
  | _, _ => []

variable {q : Tape Byte} {bs : List Byte}

theorem reads_arrivals (q : Tape Byte) (bs : List Byte) : q.Reads [] (arrivals q bs).2 := by
  induction bs generalizing q with
  | nil => exact Tape.Reads.refl q
  | cons b bs ih => exact (Tape.Reads.arrive rxBufferSize q b).trans (ih _)

theorem accepted_arrivals (q : Tape Byte) (bs : List Byte) :
    (arrivals q bs).2.accepted = q.accepted ++ kept bs (arrivals q bs).1 := by
  induction bs generalizing q with
  | nil => simp [arrivals, kept]
  | cons b bs ih =>
    simp only [arrivals, ih, kept, List.zip_cons_cons]
    by_cases hq : q.unread.length < rxBufferSize
    · rw [Tape.arrive, if_pos hq, Tape.accepted_push]
      simp [hq]
    · rw [Tape.arrive, if_neg hq]
      simp [hq]

/-- The buffer takes the first bytes, until it is full. -/
theorem arrivals_unread (h : q.unread.length ≤ rxBufferSize) (bs : List Byte) :
    (arrivals q bs).2.unread = (q.unread ++ bs).take rxBufferSize := by
  induction bs generalizing q with
  | nil =>
    rw [List.append_nil, List.take_of_length_le h]
    rfl
  | cons b bs ih =>
    show (arrivals (q.arrive rxBufferSize b) bs).2.unread = _
    by_cases hq : q.unread.length < rxBufferSize
    · have hpush : (q.push b).unread = q.unread ++ [b] := rfl
      rw [Tape.arrive, if_pos hq, ih (by rw [hpush, List.length_append]; exact hq), hpush,
        List.append_assoc]
      rfl
    · have hfull : q.unread.length = rxBufferSize := by omega
      rw [Tape.arrive, if_neg hq, ih h, ← hfull, List.take_left, List.take_left]

theorem receive_nil (h : q.unread = []) :
    receive q bs = (((arrivals q bs).1, none), (arrivals q bs).2) := by
  simp only [receive, h]

theorem receive_cons {b : Byte} {l : List Byte} (h : q.unread = b :: l) :
    receive q bs = (((arrivals q bs).1, some b), (arrivals q bs).2.take) := by
  simp only [receive, h]

/-- What arrives meanwhile comes behind the byte that is read. -/
theorem arrivals_cons {b : Byte} {l : List Byte} (h : q.unread = b :: l) (bs : List Byte) :
    ∃ new, (arrivals q bs).2.unread = b :: (l ++ new) := by
  obtain ⟨-, new, hnew⟩ := reads_arrivals q bs
  rw [h] at hnew
  exact ⟨new, hnew.symm⟩

theorem reads_receive (q : Tape Byte) (bs : List Byte) :
    q.Reads (receive q bs).1.2.toList (receive q bs).2 := by
  have hreads := reads_arrivals q bs
  cases hq : q.unread with
  | nil =>
    rw [receive_nil hq]
    exact hreads
  | cons b l =>
    obtain ⟨new, hnew⟩ := arrivals_cons hq bs
    rw [receive_cons hq]
    exact hreads.trans (Tape.Reads.take hnew)

theorem accepted_receive (q : Tape Byte) (bs : List Byte) :
    (receive q bs).2.accepted = q.accepted ++ kept bs (receive q bs).1.1 := by
  cases hq : q.unread with
  | nil =>
    rw [receive_nil hq]
    exact accepted_arrivals q bs
  | cons b l =>
    rw [receive_cons hq]
    exact (Tape.accepted_take _).trans (accepted_arrivals q bs)

/-- **Nothing gets in unseen.** -/
theorem accepted_call (q : Tape Byte) (c : UartCall) :
    (call q c).2.accepted = q.accepted ++ stored c (call q c).1 := by
  cases c with
  | isr b =>
    show (q.arrive rxBufferSize b).accepted = _
    by_cases hq : q.unread.length < rxBufferSize
    · rw [Tape.arrive, if_pos hq, Tape.accepted_push]
      simp [call, stored, hq]
    · rw [Tape.arrive, if_neg hq]
      simp [call, stored, hq]
  | asyncReceive bs => exact accepted_receive q bs
  | flush => simp [call, stored, Tape.accepted_discard]
  | init baudRate => simp [call, stored]
  | available => simp [call, stored]
  | bytesAvailable num => simp [call, stored]

/-- **What is taken is what is returned.** -/
theorem taken_call (q : Tape Byte) (c : UartCall) :
    (call q c).2.taken = q.taken ++ returned c (call q c).1 := by
  cases c with
  | isr b =>
    show (q.arrive rxBufferSize b).taken = _
    rw [(Tape.Reads.arrive rxBufferSize q b).taken]
    simp [returned]
  | asyncReceive bs =>
    show (receive q bs).2.taken = _
    rw [(reads_receive q bs).taken]
    congr 1
    show _ = returned (.asyncReceive bs) (.received (receive q bs).1.1 (receive q bs).1.2)
    cases (receive q bs).1.2 <;> rfl
  | flush => simp [call, returned, Tape.taken_discard]
  | init baudRate => simp [call, returned]
  | available => simp [call, returned]
  | bytesAvailable num => simp [call, returned]

/-- A quantity that grows with every call grows by all of them. -/
theorem run_onChannel {measure : Tape Byte → List Byte} {f : UartCall → UartResult → List Byte}
    (hf : ∀ q c, measure (call q c).2 = measure q ++ f c (call q c).1)
    (qs : Fin 4 → Tape Byte) (es : List (Fin 4 × UartCall)) (k : Fin 4) :
    measure ((run qs es).2 k) = measure (qs k) ++ onChannel k f es (run qs es).1 := by
  induction es generalizing qs with
  | nil => simp [run, onChannel]
  | cons e es ih =>
    obtain ⟨k', c⟩ := e
    simp only [run, onChannel, ih]
    by_cases hk : k' = k
    · subst hk
      rw [Function.update_self, hf, if_pos rfl, List.append_assoc]
    · rw [Function.update_of_ne (Ne.symm hk), if_neg hk, List.nil_append]

/-- Nothing but `UART_Flush` throws bytes away. -/
theorem fate_call (h : ∀ x ∈ q.gone, x.2 = .taken) {c : UartCall} (hc : c ≠ .flush) :
    ∀ x ∈ (call q c).2.gone, x.2 = .taken := by
  cases c with
  | isr b => exact (Tape.Reads.arrive rxBufferSize q b).fate h
  | asyncReceive bs => exact (reads_receive q bs).fate h
  | flush => exact absurd rfl hc
  | init baudRate => exact h
  | available => exact h
  | bytesAvailable num => exact h

theorem run_fate {qs : Fin 4 → Tape Byte} {k : Fin 4} (h : ∀ x ∈ (qs k).gone, x.2 = .taken)
    (es : List (Fin 4 × UartCall)) (hes : ∀ e ∈ es, e ≠ (k, .flush)) :
    ∀ x ∈ ((run qs es).2 k).gone, x.2 = .taken := by
  induction es generalizing qs with
  | nil => exact h
  | cons e es ih =>
    obtain ⟨k', c⟩ := e
    apply ih _ fun e he => hes e (List.mem_cons_of_mem _ he)
    by_cases hk : k' = k
    · subst hk
      rw [Function.update_self]
      apply fate_call h
      intro heq
      subst heq
      exact hes _ (List.mem_cons_self ..) rfl
    · rwa [Function.update_of_ne (Ne.symm hk)]

theorem accepted_of_fate {q : Tape Byte} (h : ∀ x ∈ q.gone, x.2 = .taken) :
    q.accepted = q.taken ++ q.unread := by
  have hall : q.gone.filter (fun x => x.2 = .taken) = q.gone := by
    rw [List.filter_eq_self]
    simpa using h
  rw [Tape.accepted, Tape.taken, hall]

end Fifo

namespace Uart

/-- The channels in `on` can be used, and every channel keeps its queue. -/
structure Keeps (u : Uart) (on : Set (Fin 4)) (qs : Fin 4 → Tape Byte) : Prop where
  ready : ∀ k ∈ on, (u k).initialized = true
  holds : ∀ k, (u k).Holds (qs k).unread

/-- No byte has arrived yet. -/
def Fresh (u : Uart) : Prop := ∀ k, (u k).rxIn = 0 ∧ (u k).rxRn = 0 ∧ (u k).rxWn = false

theorem reset_fresh : reset.Fresh := fun _ => ⟨rfl, rfl, rfl⟩

theorem Fresh.uartInit {u u' : Uart} (h : u.Fresh) {chan : BitVec 8} {baudRate : BitVec 32}
    (hu : u.uartInit chan baudRate = .ok u') : u'.Fresh := by
  unfold Uart.uartInit at hu
  cases hk : chanOk chan with
  | none =>
    rw [hk] at hu
    cases hu
  | some k =>
    simp only [hk] at hu
    split at hu
    · obtain rfl := Except.ok.inj hu
      exact h
    · obtain rfl := Except.ok.inj hu
      intro l
      by_cases hl : l = k
      · subst hl
        rw [Function.update_self]
        exact h l
      · rw [Function.update_of_ne hl]
        exact h l

theorem Fresh.keeps {u : Uart} (h : u.Fresh) :
    u.Keeps { k | (u k).initialized = true } fun _ => Tape.empty := by
  refine ⟨fun _ hk => hk, fun k => ?_⟩
  obtain ⟨hin, hrn, hwn⟩ := h k
  have hring : (u k).ring = ⟨0, 0, false, (u k).ring.cell⟩ := by
    simp [Channel.ring, hin, hrn, hwn]
  unfold Channel.Holds
  rw [hring]
  exact Circular.Holds.empty (by decide) _

namespace Keeps

variable {u : Uart} {on : Set (Fin 4)} {qs : Fin 4 → Tape Byte} {chan : BitVec 8} {k : Fin 4}

theorem checked (h : u.Keeps on qs) (hk : chanOk chan = some k) (hon : k ∈ on) :
    u.checked chan = .ok k := by
  simp only [Uart.checked, hk, h.ready k hon, if_true]
  rfl

theorem update (h : u.Keeps on qs) {c : Channel} {q : Tape Byte} (hc : c.Holds q.unread)
    (hi : c.initialized = (u k).initialized) :
    Keeps (Function.update u k c) on (Function.update qs k q) := by
  refine ⟨fun l hl => ?_, fun l => ?_⟩
  · by_cases hlk : l = k
    · subst hlk
      rw [Function.update_self, hi]
      exact h.ready l hl
    · rw [Function.update_of_ne hlk]
      exact h.ready l hl
  · by_cases hlk : l = k
    · subst hlk
      rw [Function.update_self, Function.update_self]
      exact hc
    · rw [Function.update_of_ne hlk, Function.update_of_ne hlk]
      exact h.holds l

theorem uartAvailable (h : u.Keeps on qs) (hk : chanOk chan = some k) (hon : k ∈ on) :
    u.uartAvailable chan = .ok (decide ((qs k).unread ≠ [])) := by
  rw [Uart.uartAvailable, h.checked hk hon, ← Channel.available_eq (h.holds k)]
  rfl

theorem uartBytesAvailable (h : u.Keeps on qs) (hk : chanOk chan = some k) (hon : k ∈ on)
    (num : BitVec 16) :
    u.uartBytesAvailable chan num = .ok (decide (num.toNat ≤ (qs k).unread.length)) := by
  rw [Uart.uartBytesAvailable, h.checked hk hon, ← Channel.bytesAvailable_eq (h.holds k)]
  rfl

theorem uartFlush (h : u.Keeps on qs) (hk : chanOk chan = some k) (hon : k ∈ on) :
    ∃ u', u.uartFlush chan = .ok u' ∧ u'.Keeps on (Function.update qs k (qs k).discard) := by
  refine ⟨Function.update u k (u k).flush, ?_, h.update (Channel.flush_holds (h.holds k)) rfl⟩
  rw [Uart.uartFlush, h.checked hk hon]
  rfl

theorem uartIsr (h : u.Keeps on qs) (hk : chanOk chan = some k) (hon : k ∈ on) (b : Byte) :
    ∃ u', u.uartIsr chan b = .ok (decide ((qs k).unread.length < rxBufferSize), u') ∧
      u'.Keeps on (Function.update qs k ((qs k).arrive rxBufferSize b)) := by
  obtain ⟨c, hc, hholds, hinit⟩ := Channel.isr_holds (h.holds k) b
  refine ⟨Function.update u k c, ?_, h.update ?_ hinit⟩
  · rw [Uart.uartIsr, h.checked hk hon, ok_bind, hc]
    rfl
  · unfold Tape.arrive
    split at hholds
    · rwa [if_pos ‹_›]
    · rwa [if_neg ‹_›]

theorem arrivals (h : u.Keeps on qs) (hk : chanOk chan = some k) (hon : k ∈ on)
    (bs : List Byte) :
    ∃ u', u.arrivals chan bs = .ok ((Fifo.arrivals (qs k) bs).1, u') ∧
      u'.Keeps on (Function.update qs k (Fifo.arrivals (qs k) bs).2) := by
  induction bs generalizing u qs with
  | nil =>
    refine ⟨u, rfl, ?_⟩
    show u.Keeps on (Function.update qs k (qs k))
    rwa [Function.update_eq_self]
  | cons b bs ih =>
    obtain ⟨u₁, hu₁, h₁⟩ := h.uartIsr hk hon b
    obtain ⟨u₂, hu₂, h₂⟩ := ih h₁
    rw [Function.update_self] at hu₂ h₂
    rw [Function.update_idem] at h₂
    refine ⟨u₂, ?_, h₂⟩
    simp only [Uart.arrivals, hu₁, hu₂, ok_bind]
    rfl

theorem uartAsyncReceive (h : u.Keeps on qs) (hk : chanOk chan = some k) (hon : k ∈ on)
    (bs : List Byte) :
    ∃ u', u.uartAsyncReceive chan bs = .ok ((Fifo.receive (qs k) bs).1, u') ∧
      u'.Keeps on (Function.update qs k (Fifo.receive (qs k) bs).2) := by
  obtain ⟨u₁, hu₁, h₁⟩ := h.arrivals hk hon bs
  have havail := h.uartAvailable hk hon
  cases hq : (qs k).unread with
  | nil =>
    rw [Fifo.receive_nil hq]
    rw [hq] at havail
    refine ⟨u₁, ?_, h₁⟩
    simp only [Uart.uartAsyncReceive, h.checked hk hon, havail, hu₁, ok_bind]
    rfl
  | cons b l =>
    rw [Fifo.receive_cons hq]
    rw [hq] at havail
    obtain ⟨new, hnew⟩ := Fifo.arrivals_cons hq bs
    have hholds := h₁.holds k
    rw [Function.update_self, hnew] at hholds
    obtain ⟨c, hc, hcl, hci⟩ := Channel.readByte_holds hholds
    have htake : (Fifo.arrivals (qs k) bs).2.take.unread = l ++ new := by
      simp only [Tape.take, hnew]
    have h₂ := h₁.update (k := k) (q := (Fifo.arrivals (qs k) bs).2.take)
      (by rw [htake]; exact hcl) hci
    rw [Function.update_idem] at h₂
    refine ⟨Function.update u₁ k c, ?_, h₂⟩
    simp only [Uart.uartAsyncReceive, h.checked hk hon, havail, hu₁, hc, ok_bind]
    rfl

/-- **Every call has the result of the queue.** -/
theorem call (h : u.Keeps on qs) (hk : chanOk chan = some k) (hon : k ∈ on) (c : UartCall) :
    ∃ u', u.call chan c = .ok ((Fifo.call (qs k) c).1, u') ∧
      u'.Keeps on (Function.update qs k (Fifo.call (qs k) c).2) := by
  have hsame : Function.update qs k (qs k) = qs := Function.update_eq_self k qs
  cases c with
  | init baudRate =>
    by_cases hb : baudRate = (u k).currentBaud
    · refine ⟨u, ?_, ?_⟩
      · simp only [Uart.call, Uart.uartInit, hk, hb, if_true]
        rfl
      · show u.Keeps on (Function.update qs k (qs k))
        rwa [hsame]
    · refine ⟨Function.update u k { u k with initialized := true, currentBaud := baudRate }, ?_,
        h.update (h.holds k) (h.ready k hon).symm⟩
      simp only [Uart.call, Uart.uartInit, hk, hb, if_false]
      rfl
  | isr b =>
    obtain ⟨u', hu', h'⟩ := h.uartIsr hk hon b
    refine ⟨u', ?_, h'⟩
    simp only [Uart.call, hu', ok_bind]
    rfl
  | asyncReceive bs =>
    obtain ⟨u', hu', h'⟩ := h.uartAsyncReceive hk hon bs
    refine ⟨u', ?_, h'⟩
    simp only [Uart.call, hu', ok_bind]
    rfl
  | available =>
    refine ⟨u, ?_, ?_⟩
    · simp only [Uart.call, h.uartAvailable hk hon, ok_bind]
      rfl
    · show u.Keeps on (Function.update qs k (qs k))
      rwa [hsame]
  | bytesAvailable num =>
    refine ⟨u, ?_, ?_⟩
    · simp only [Uart.call, h.uartBytesAvailable hk hon, ok_bind]
      rfl
    · show u.Keeps on (Function.update qs k (qs k))
      rwa [hsame]
  | flush =>
    obtain ⟨u', hu', h'⟩ := h.uartFlush hk hon
    refine ⟨u', ?_, h'⟩
    simp only [Uart.call, hu', ok_bind]
    rfl

/-- **So has every run.** -/
theorem run (h : u.Keeps on qs) (es : List (Fin 4 × UartCall)) (hes : ∀ e ∈ es, e.1 ∈ on) :
    ∃ u', u.run (es.map fun e => (chanOf e.1, e.2)) = .ok ((Fifo.run qs es).1, u') ∧
      u'.Keeps on (Fifo.run qs es).2 := by
  induction es generalizing u qs with
  | nil => exact ⟨u, rfl, h⟩
  | cons e es ih =>
    obtain ⟨k, c⟩ := e
    obtain ⟨u₁, hu₁, h₁⟩ := h.call (chanOk_chanOf k) (hes _ (List.mem_cons_self ..)) c
    obtain ⟨u₂, hu₂, h₂⟩ := ih h₁ fun e he => hes e (List.mem_cons_of_mem _ he)
    refine ⟨u₂, ?_, h₂⟩
    simp only [List.map_cons, Uart.run, hu₁, hu₂, ok_bind]
    rfl

end Keeps

/-! ### The result -/

/-- **The ring buffers are bounded queues.**  From power-on, calls on initialized channels never
abort and have the results of the queues.  The bytes returned are those that were let in, in
their order, but for those thrown away by `UART_Flush`. -/
theorem ring_refines_fifo {u : Uart} (hu : u.Fresh) (es : List (Fin 4 × UartCall))
    (hes : ∀ e ∈ es, (u e.1).initialized = true) :
    ∃ rs qs u', Fifo.run (fun _ => Tape.empty) es = (rs, qs) ∧
      u.run (es.map fun e => (chanOf e.1, e.2)) = .ok (rs, u') ∧
      ∀ k, (u' k).Holds (qs k).unread ∧ (qs k).unread.length ≤ rxBufferSize ∧
        (qs k).accepted = Fifo.onChannel k Fifo.stored es rs ∧
        (qs k).taken = Fifo.onChannel k Fifo.returned es rs ∧
        ((∀ e ∈ es, e ≠ (k, .flush)) → (qs k).accepted = (qs k).taken ++ (qs k).unread) := by
  obtain ⟨u', hrun, h'⟩ := hu.keeps.run es hes
  refine ⟨_, _, u', rfl, hrun, fun k => ⟨h'.holds k, (h'.holds k).length_le, ?_, ?_, ?_⟩⟩
  · rw [Fifo.run_onChannel Fifo.accepted_call]
    rfl
  · rw [Fifo.run_onChannel Fifo.taken_call]
    rfl
  · intro hnone
    apply Fifo.accepted_of_fate
    exact Fifo.run_fate (by simp [Tape.empty]) es hnone

/-- A byte arrives while another one is read, and is thrown away. -/
theorem ring_refines_fifo_flushed :
    ∃ u ∈ (reset.uartInit 2 38400).toOption, ∃ u',
      u.run ([(2, .isr 0xFE), (2, .available), (2, .asyncReceive [0xED]),
        (2, .bytesAvailable 1), (2, .flush), (2, .available)].map fun e => (chanOf e.1, e.2)) =
        .ok ([.stored true, .answer true, .received [true] (some 0xFE), .answer true, .done,
          .answer false], u') := by
  apply exists_mem_of_isSome (by decide)
  intro u hu
  rw [toOption_eq_some] at hu
  have hinit : (u 2).initialized = true := by
    obtain rfl := Except.ok.inj hu
    rfl
  obtain ⟨rs, qs, u', hf, hr, -⟩ := ring_refines_fifo (reset_fresh.uartInit hu)
    [(2, .isr 0xFE), (2, .available), (2, .asyncReceive [0xED]), (2, .bytesAvailable 1),
      (2, .flush), (2, .available)] (by simpa using hinit)
  refine ⟨u', hr.trans ?_⟩
  have hrs : rs = [.stored true, .answer true, .received [true] (some 0xFE), .answer true, .done,
      .answer false] := (congrArg Prod.fst hf).symm.trans (by decide)
  rw [hrs]

end Uart

end RoombaRtos
