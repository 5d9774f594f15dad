import RoombaRtos.Uart

/-!
# Formatted output

`UART_print` of `uart/uart.c`, and of the `uart.c` of `project2`.  Both format into a buffer of
`TX_BUFFER_SIZE` bytes, and send as many bytes as `vsnprintf` returns.

* `vsnprintf` — stores what fits, with a terminator, and returns the length of the whole text;
* `sendLoop` — the loop over the bytes, whose index is a `uint8_t` in both;
* `Prints` — the text is sent as far as it was stored, and nothing else is read;
* `prints_exactly` — the lengths for which it is so.

The sizes are those of the board, where `int` and `size_t` have two bytes.  The transmit buffer of
the hardware becomes empty again after every byte.
-/

namespace RoombaRtos

/-- `TX_BUFFER_SIZE`. -/
abbrev txBufferSize : ℕ := 64

/-- `vsnprintf` into the first `size` bytes of `memory`, where `text` is the whole result. -/
def vsnprintf (memory : ℕ → Byte) (size : ℕ) (text : List Byte) : (ℕ → Byte) × BitVec 16 :=
  let stored := text.take (size - 1)
  (fun i => if i < stored.length then text.getD i 0 else if i = stored.length then 0 else memory i,
    BitVec.ofNat 16 text.length)

/-- A byte that was sent, and where in the buffer it was read. -/
structure Sent where
  place : ℕ
  byte : Byte
deriving DecidableEq, Repr

/-- The bytes from the index `i` on are read and sent.  The loop may take `fuel` steps. -/
def sendLoop (send : Byte → Except Halt Byte) (data : ℕ → Byte) (size : ℕ) :
    ℕ → BitVec 8 → Except Halt (List Sent)
  | 0, i => if i.toNat < size then .error .diverges else .ok []
  | fuel + 1, i =>
      if i.toNat < size then do
        let byte ← send (data i.toNat)
        let rest ← sendLoop send data size fuel (i + 1)
        return { place := i.toNat, byte := byte } :: rest
      else .ok []

namespace Uart

/-- `UART_Transmit`, and the byte that the data register gets. -/
def uartTransmit (u : Uart) (chan : BitVec 8) (byte : Byte) : Except Halt Byte := do
  let _ ← u.checked chan
  return byte

def uartSendRawBytes (u : Uart) (chan : BitVec 8) (numBytes : BitVec 8) (data : ℕ → Byte)
    (fuel : ℕ) : Except Halt (List Sent) := do
  let _ ← u.checked chan
  sendLoop (u.uartTransmit chan) data numBytes.toNat fuel 0

def uartPrint (u : Uart) (chan : BitVec 8) (memory : ℕ → Byte) (text : List Byte) (fuel : ℕ) :
    Except Halt (List Sent) := do
  let _ ← u.checked chan
  let (buffer, size) := vsnprintf memory txBufferSize text
  u.uartSendRawBytes chan (size.setWidth 8) buffer fuel

end Uart

/-- `UART_print` of the second project.  Its test for a negative size is never met. -/
def Project2.uartPrint (memory : ℕ → Byte) (text : List Byte) (fuel : ℕ) :
    Except Halt (List Sent) :=
  let (buffer, size) := vsnprintf memory txBufferSize text
  sendLoop .ok buffer size.toNat fuel 0

/-- The loop ends, what it sends is the text as far as there is room for it, and it reads nothing
behind that. -/
def Prints (print : ℕ → Except Halt (List Sent)) (text : List Byte) : Prop :=
  ∃ fuel sent, print fuel = .ok sent ∧ sent.map Sent.byte = text.take (txBufferSize - 1) ∧
    ∀ s ∈ sent, s.place < (text.take (txBufferSize - 1)).length

/-! ### The loop -/

variable {send : Byte → Except Halt Byte} {memory : ℕ → Byte} {size : ℕ} {text : List Byte}

/-- With a size of one byte the loop sends all of it, if it may take that many steps. -/
theorem sendLoop_byte (hsend : ∀ b, send b = .ok b) (data : ℕ → Byte) (hsize : size < 256)
    (fuel : ℕ) {i : BitVec 8} (hi : i.toNat ≤ size) :
    sendLoop send data size fuel i =
        .ok ((List.range' i.toNat (size - i.toNat)).map fun k => ⟨k, data k⟩) ∨
      sendLoop send data size fuel i = .error .diverges ∧ fuel < size - i.toNat := by
  induction fuel generalizing i with
  | zero =>
    rw [sendLoop]
    by_cases hlt : i.toNat < size
    · right
      rw [if_pos hlt]
      exact ⟨rfl, by omega⟩
    · left
      have h0 : size - i.toNat = 0 := by omega
      rw [if_neg hlt, h0]
      rfl
  | succ fuel ih =>
    rw [sendLoop]
    by_cases hlt : i.toNat < size
    · have hnext : (i + 1).toNat = i.toNat + 1 := toNat_add_one (by omega)
      have hcount : size - i.toNat = size - (i + 1).toNat + 1 := by omega
      rw [if_pos hlt, hsend]
      rcases ih (i := i + 1) (by omega) with hok | ⟨herr, hfuel⟩
      · left
        rw [hok, hcount, List.range'_succ, hnext]
        rfl
      · right
        rw [herr]
        exact ⟨rfl, by omega⟩
    · left
      have h0 : size - i.toNat = 0 := by omega
      rw [if_neg hlt, h0]
      rfl

/-- The index never reaches a larger size. -/
theorem sendLoop_diverges (hsend : ∀ b, send b = .ok b) (data : ℕ → Byte) (hsize : 256 ≤ size)
    (fuel : ℕ) (i : BitVec 8) :
    sendLoop send data size fuel i = .error .diverges := by
  have hlt : i.toNat < size := i.isLt.trans_le hsize
  induction fuel generalizing i with
  | zero => rw [sendLoop, if_pos hlt]
  | succ fuel ih =>
    rw [sendLoop, if_pos hlt, hsend, Lockstep.ok_bind, ih (i + 1) ((i + 1).isLt.trans_le hsize)]
    rfl

/-! ### What is printed -/

theorem vsnprintf_stored {i : ℕ} (h : i < (text.take (txBufferSize - 1)).length) :
    (vsnprintf memory txBufferSize text).1 i = (text.take (txBufferSize - 1))[i] := by
  have hi : i < text.length := by
    rw [List.length_take] at h
    omega
  show (if i < (text.take (txBufferSize - 1)).length then text.getD i 0 else _) = _
  rw [if_pos h, List.getElem_take, List.getD_eq_getElem?_getD, List.getElem?_eq_getElem hi,
    Option.getD_some]

/-- The stored text is printed exactly if its length is what the loop is given. -/
theorem prints_iff (hsend : ∀ b, send b = .ok b) :
    Prints (fun fuel => sendLoop send (vsnprintf memory txBufferSize text).1 size fuel 0) text ↔
      size = min text.length 63 := by
  have hlen : (text.take (txBufferSize - 1)).length = min text.length 63 := by
    rw [List.length_take]
    exact Nat.min_comm _ _
  constructor
  · rintro ⟨fuel, sent, hok, hbytes, -⟩
    have hsize : size < 256 := by
      by_contra hge
      have hdiv := sendLoop_diverges hsend (vsnprintf memory txBufferSize text).1
        (Nat.le_of_not_lt hge) fuel 0
      exact absurd (hok.symm.trans hdiv) (by simp)
    rcases sendLoop_byte hsend (vsnprintf memory txBufferSize text).1 hsize fuel (i := 0)
      (Nat.zero_le _) with hall | ⟨herr, -⟩
    · obtain rfl := Except.ok.inj (hok.symm.trans hall)
      rw [← hlen, ← hbytes]
      simp
    · exact absurd (hok.symm.trans herr) (by simp)
  · intro hsize
    have hlt : size < 256 := by omega
    rcases sendLoop_byte hsend (vsnprintf memory txBufferSize text).1 hlt size (i := 0)
      (Nat.zero_le _) with hall | ⟨-, hfuel⟩
    · refine ⟨size, _, hall, ?_, ?_⟩
      · apply List.ext_getElem
        · rw [hlen, List.length_map, List.length_map, List.length_range']
          exact hsize
        · intro i hi hi'
          rw [List.getElem_map, List.getElem_map, List.getElem_range']
          simpa using vsnprintf_stored hi'
      · intro s hs
        obtain ⟨k, hk, rfl⟩ := List.mem_map.1 hs
        rw [List.mem_range'_1] at hk
        rw [hlen, ← hsize]
        simpa using hk.2
    · exact absurd hfuel (by simp)

section

variable {u : Uart} {chan : BitVec 8} {k : Fin 4}

theorem Uart.uartTransmit_eq (hk : u.checked chan = .ok k) (b : Byte) :
    u.uartTransmit chan b = .ok b := by
  rw [uartTransmit, hk]
  rfl

/-- The length is passed on as a byte. -/
theorem Uart.uartPrint_eq (hk : u.checked chan = .ok k) (memory : ℕ → Byte) (text : List Byte) :
    u.uartPrint chan memory text = fun fuel => sendLoop (u.uartTransmit chan)
      (vsnprintf memory txBufferSize text).1 (text.length % 256) fuel 0 := by
  have hbyte : ((BitVec.ofNat 16 text.length).setWidth 8).toNat = text.length % 256 := by
    rw [BitVec.toNat_setWidth, BitVec.toNat_ofNat]
    omega
  funext fuel
  simp only [uartPrint, uartSendRawBytes, hk]
  rw [← hbyte]
  rfl

/-- The length is compared as a word. -/
theorem Project2.uartPrint_eq (memory : ℕ → Byte) (text : List Byte) :
    Project2.uartPrint memory text = fun fuel =>
      sendLoop .ok (vsnprintf memory txBufferSize text).1 (text.length % 65536) fuel 0 := by
  rw [← BitVec.toNat_ofNat text.length 16]
  rfl

/-- **Formatted output, exactly.**  On a channel that was initialized, `UART_print` prints the texts
of at most 63 bytes, and those whose length is 63 modulo 256; that of the second project prints the
texts of at most 63 bytes, and those whose length is 63 modulo 65536. -/
theorem prints_exactly (hk : u.checked chan = .ok k) (memory : ℕ → Byte) (text : List Byte) :
    (Prints (u.uartPrint chan memory text) text ↔ text.length ≤ 63 ∨ text.length % 256 = 63) ∧
      (Prints (Project2.uartPrint memory text) text ↔
        text.length ≤ 63 ∨ text.length % 65536 = 63) := by
  constructor
  · rw [Uart.uartPrint_eq hk, prints_iff (Uart.uartTransmit_eq hk)]
    omega
  · rw [Project2.uartPrint_eq, prints_iff fun _ => rfl]
    omega

end

/-- A short text on the third channel. -/
theorem prints_greeting :
    Prints (Uart.uartPrint (fun k => { Uart.reset k with initialized := true }) 2 (fun _ => 0)
      [72, 105]) [72, 105] :=
  (prints_exactly (k := 2) rfl _ _).1.2 (Or.inl (by decide))

/-- With 64 bytes the terminator is sent as well.  With 256 bytes nothing is sent, and the second
project sends without end. -/
theorem long_texts_not_printed :
    (∀ text : List Byte, text.length = 64 ∨ text.length = 256 → ¬ Prints (Uart.uartPrint
      (fun k => { Uart.reset k with initialized := true }) 2 (fun _ => 0) text) text) ∧
    ∀ fuel, Project2.uartPrint (fun _ => 0) (List.replicate 256 88) fuel = .error .diverges := by
  constructor
  · intro text hlen
    have hk : Uart.checked (fun k => { Uart.reset k with initialized := true }) 2 = .ok 2 := rfl
    rw [Uart.uartPrint_eq hk, prints_iff (Uart.uartTransmit_eq hk)]
    omega
  · intro fuel
    rw [Project2.uartPrint_eq, List.length_replicate]
    exact sendLoop_diverges (fun _ => rfl) _ (by decide) fuel 0

end RoombaRtos
