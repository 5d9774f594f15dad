import RoombaRtos.Uart
import RoombaRtos.Roomba

/-!
# The answers of the robot

How `Roomba/Roomba.cpp` reads the sensors of the robot: what is in the receive buffer is thrown
away, the request is sent, and what has arrived 50 ms later is taken for the answer.

* `Peer` — the other side of the serial line, which hears what is sent, and speaks at any time;
* `Port.checkSensor`, `Port.checkPower`, `Port.checkLeftBumper`, … — the functions that read;
* `Peer.ask` — a conversation without a receive buffer;
* `Port.as_if_unbuffered` — the results are those of such conversations;
* `Port.answers_right` — with a robot that answers in time, they are what its sensors said;
* `Port.flush_ends`, `Port.flush_endless` — when the buffer can be thrown away.
-/

namespace RoombaRtos

open Lockstep RingBuffer

/-- The other side of a serial line. -/
structure Peer (σ : Type) where
  /-- It is sent a byte. -/
  hear : σ → Byte → σ
  /-- What arrives before the next section that runs with interrupts off. -/
  speak : σ → List Byte × σ
  /-- What arrives during `_delay_ms(50)`. -/
  wait : σ → List Byte × σ

namespace Roomba

/-- The functions that read a sensor. -/
inductive Query
  | power
  | powerCapacity
  | oiMode
  | lightBumper
  | virtualWall
  | leftBumper
  | rightBumper
deriving DecidableEq, Repr

/-- What the functions return; without `data` they fail, and leave `*data` as it was. -/
inductive Reading
  | word (data : Option Word)
  | flag (b : Bool)
deriving DecidableEq, Repr

/-- The UART that the robot is connected to, and the other side of the line. -/
structure Port (σ : Type) where
  uart : Uart
  uartChannel : BitVec 8
  peer : σ

namespace Port

variable {σ : Type} (w : Peer σ) (fuel : ℕ) (s : Port σ)

/-! ### The functions -/

/-- Bytes arrive from the other side. -/
def arrive (r : List Byte × σ) : Except Halt (Port σ) := do
  let (_, uart) ← s.uart.arrivals s.uartChannel r.1
  return { s with uart := uart, peer := r.2 }

/-- `try_read`; more can arrive between the two sections of `UART_Async_Receive`. -/
def tryRead : Except Halt (Option Byte × Port σ) := do
  let s ← s.arrive (w.speak s.peer)
  let (meanwhile, peer) := w.speak s.peer
  let ((_, byte), uart) ← s.uart.uartAsyncReceive s.uartChannel meanwhile
  return (byte, { s with uart := uart, peer := peer })

/-- `flush_data`, if its loop ends before it has called `try_read` for the `fuel`-th time. -/
def flushData : ℕ → Port σ → Except Halt (Port σ)
  | 0, _ => throw .diverges
  | fuel + 1, s => do
      let (byte, s) ← s.tryRead w
      if byte.isSome then flushData fuel s else return s

def issueCmd (val : Byte) : Except Halt (Port σ) := do
  let _ ← s.uart.checked s.uartChannel
  return { s with peer := w.hear s.peer val }

def checkSensor (sensor : OiSensorArgs) (nbytes : Byte) :
    Except Halt (Option Word × Port σ) := do
  let s ← s.flushData w fuel
  let s ← s.issueCmd w OiCommand.sensors.code
  let s ← s.issueCmd w sensor.code
  let s ← s.arrive (w.wait s.peer)
  let (databyteHigh, s) ← s.tryRead w
  match databyteHigh with
  | none => return (none, s)
  | some high =>
      if nbytes > 1 then
        let (databyteLow, s) ← s.tryRead w
        return (databyteLow.map (to16bit high), s)
      else return (some (high.setWidth 16), s)

def checkPower : Except Halt (Option Word × Port σ) := s.checkSensor w fuel .batteryCharge 2

def checkPowerCapacity : Except Halt (Option Word × Port σ) :=
  s.checkSensor w fuel .batteryCapacity 2

def checkOiMode : Except Halt (Option Word × Port σ) := s.checkSensor w fuel .oiMode 1

def checkLightBumper : Except Halt (Option Word × Port σ) := s.checkSensor w fuel .lightBumper 1

def checkVirtualWall : Except Halt (Bool × Port σ) := do
  let (data, s) ← s.checkSensor w fuel .virtualWall 1
  return (data.getD 0 != 0, s)

def checkLeftBumper : Except Halt (Bool × Port σ) := do
  let (data, s) ← s.checkSensor w fuel .bumpers 1
  return (data.getD 0 &&& 0x02 != 0, s)

def checkRightBumper : Except Halt (Bool × Port σ) := do
  let (data, s) ← s.checkSensor w fuel .bumpers 1
  return (data.getD 0 &&& 0x01 != 0, s)

def check : Query → Except Halt (Reading × Port σ)
  | .power => do
      let (data, s) ← s.checkPower w fuel
      return (.word data, s)
  | .powerCapacity => do
      let (data, s) ← s.checkPowerCapacity w fuel
      return (.word data, s)
  | .oiMode => do
      let (data, s) ← s.checkOiMode w fuel
      return (.word data, s)
  | .lightBumper => do
      let (data, s) ← s.checkLightBumper w fuel
      return (.word data, s)
  | .virtualWall => do
      let (b, s) ← s.checkVirtualWall w fuel
      return (.flag b, s)
  | .leftBumper => do
      let (b, s) ← s.checkLeftBumper w fuel
      return (.flag b, s)
  | .rightBumper => do
      let (b, s) ← s.checkRightBumper w fuel
      return (.flag b, s)

/-- `UART_Init` turns the receive interrupt on. -/
def listens : Bool :=
  match chanOk s.uartChannel with
  | some k => (s.uart k).initialized
  | none => false

/-! ### Runs -/

/-- What happens at the port. -/
inductive Event
  /-- Bytes arrive while nobody reads. -/
  | noise (bs : List Byte)
  /-- One of the other functions sends a command. -/
  | issue (bs : List Byte)
  | check (q : Query)
deriving DecidableEq, Repr

def issue (s : Port σ) : List Byte → Except Halt (Port σ)
  | [] => return s
  | b :: bs => do
      let s ← s.issueCmd w b
      issue s bs

def run (s : Port σ) : List Event → Except Halt (List Reading × Port σ)
  | [] => return ([], s)
  | .noise bs :: es => do
      let s ← s.arrive (bs, s.peer)
      run s es
  | .issue bs :: es => do
      let s ← s.issue w bs
      run s es
  | .check q :: es => do
      let (r, s) ← s.check w fuel q
      let (rs, s) ← run s es
      return (r :: rs, s)

end Port

/-! ### Conversations -/

/-- The sensor that a function asks for. -/
def Query.sensor : Query → OiSensorArgs
  | .power => .batteryCharge
  | .powerCapacity => .batteryCapacity
  | .oiMode => .oiMode
  | .lightBumper => .lightBumper
  | .virtualWall => .virtualWall
  | .leftBumper => .bumpers
  | .rightBumper => .bumpers

/-- The number of bytes that it wants. -/
def Query.nbytes : Query → Byte
  | .power => 2
  | .powerCapacity => 2
  | _ => 1

/-- What it makes of them. -/
def Query.reading : Query → Option Word → Reading
  | .virtualWall, data => .flag (data.getD 0 != 0)
  | .leftBumper, data => .flag (data.getD 0 &&& 0x02 != 0)
  | .rightBumper, data => .flag (data.getD 0 &&& 0x01 != 0)
  | _, data => .word data

end Roomba

namespace Peer

open Roomba

variable {σ : Type} (w : Peer σ)

/-- Nobody listens to what it says. -/
def pass (p : σ) : σ := (w.speak p).2

/-- What it says before the next `n` sections. -/
def spoken : ℕ → σ → List Byte
  | 0, _ => []
  | n + 1, p => (w.speak p).1 ++ spoken n (w.pass p)

/-- A request is made, and what is said next is taken for the answer. -/
def ask (request : List Byte) (nbytes : Byte) (p : σ) : Option Word × σ :=
  let (early, p) := w.speak p
  let (bs, p) := w.wait (request.foldl w.hear p)
  let (late, p) := w.speak p
  let (more, p) := w.speak p
  match early ++ bs ++ late with
  | [] => (none, p)
  | high :: rest =>
      if nbytes > 1 then
        let (later, p) := w.speak p
        ((rest ++ more ++ later).head?.map (to16bit high), w.pass p)
      else (some (high.setWidth 16), p)

/-- Each function goes with the number of bytes that it throws away before it asks. -/
def converse : List (ℕ × Port.Event) → σ → List Reading × σ
  | [], p => ([], p)
  | (_, .noise _) :: es, p => converse es p
  | (_, .issue bs) :: es, p => converse es (bs.foldl w.hear p)
  | (n, .check q) :: es, p =>
      let (data, p) := w.ask (Roomba.checkSensor q.sensor) q.nbytes (w.pass^[2 * n + 1] p)
      let (rs, p) := converse es p
      (q.reading data :: rs, p)

theorem spoken_add (m n : ℕ) (p : σ) :
    w.spoken (m + n) p = w.spoken m p ++ w.spoken n (w.pass^[m] p) := by
  induction m generalizing p with
  | zero => rw [Nat.zero_add]; rfl
  | succ m ih =>
    rw [Nat.succ_add, spoken, ih, spoken, List.append_assoc]
    rfl

variable {w} {request bs : List Byte} {nbytes : Byte} {p q : σ}

theorem ask_nil (hr : w.wait (request.foldl w.hear (w.pass p)) = (bs, q))
    (h : (w.speak p).1 ++ bs ++ (w.speak q).1 = []) :
    w.ask request nbytes p = (none, w.pass^[2] q) := by
  have hr' : w.wait (request.foldl w.hear (w.speak p).2) = (bs, q) := hr
  simp only [ask, hr', h]
  rfl

theorem ask_cons (hr : w.wait (request.foldl w.hear (w.pass p)) = (bs, q)) {high : Byte}
    {rest : List Byte} (h : (w.speak p).1 ++ bs ++ (w.speak q).1 = high :: rest) :
    w.ask request nbytes p = if nbytes > 1 then
      ((rest ++ (w.speak (w.pass q)).1 ++ (w.speak (w.pass^[2] q)).1).head?.map (to16bit high),
        w.pass^[4] q)
    else (some (high.setWidth 16), w.pass^[2] q) := by
  have hr' : w.wait (request.foldl w.hear (w.speak p).2) = (bs, q) := hr
  simp only [ask, hr', h]
  rfl

end Peer

namespace Roomba

namespace Port

variable {σ : Type} {w : Peer σ} {fuel : ℕ} {s : Port σ} {l : List Byte}

/-- The port can be used, and the unread bytes are `l`. -/
structure Holds (s : Port σ) (l : List Byte) : Prop where
  keeps : ∃ k qs, chanOk s.uartChannel = some k ∧ s.uart.Keeps {k} qs ∧ (qs k).unread = l

/-- What does not fit into the buffer does not count. -/
theorem take_append_take {α : Type} (n : ℕ) (xs ys : List α) :
    (xs.take n ++ ys).take n = (xs ++ ys).take n := by
  have hroom : n - min n xs.length = n - xs.length := by omega
  rw [List.take_append, List.take_append, List.take_take, Nat.min_self, List.length_take, hroom]

namespace Holds

theorem length_le (h : s.Holds l) : l.length ≤ rxBufferSize := by
  obtain ⟨k, qs, -, hkeeps, rfl⟩ := h.keeps
  exact (hkeeps.holds k).length_le

theorem arrive (h : s.Holds l) (r : List Byte × σ) : ∃ s', s.arrive r = .ok s' ∧
    s'.Holds ((l ++ r.1).take rxBufferSize) ∧ s'.peer = r.2 := by
  have hle := h.length_le
  obtain ⟨k, qs, hk, hkeeps, rfl⟩ := h.keeps
  obtain ⟨u', hu', h'⟩ := hkeeps.arrivals hk rfl r.1
  refine ⟨{ s with uart := u', peer := r.2 }, ?_, ⟨k, _, hk, h', ?_⟩, rfl⟩
  · simp only [Port.arrive, hu', ok_bind]
    rfl
  · rw [Function.update_self, Fifo.arrivals_unread hle]

/-- The two sections of `UART_Async_Receive`. -/
theorem asyncReceive (h : s.Holds l) (bs : List Byte) : ∃ flags u',
    s.uart.uartAsyncReceive s.uartChannel bs = .ok ((flags, l.head?), u') ∧
      ∀ p : σ, Holds { s with uart := u', peer := p }
        (((l ++ bs).take rxBufferSize).drop l.head?.toList.length) := by
  have hle := h.length_le
  obtain ⟨k, qs, hk, hkeeps, rfl⟩ := h.keeps
  obtain ⟨u', hu', h'⟩ := hkeeps.uartAsyncReceive hk rfl bs
  have hunread := Fifo.arrivals_unread hle bs
  cases hq : (qs k).unread with
  | nil =>
    rw [Fifo.receive_nil hq] at hu' h'
    refine ⟨_, u', hu', fun p => ⟨k, _, hk, h', ?_⟩⟩
    rw [Function.update_self, hunread, hq]
    rfl
  | cons b l =>
    rw [Fifo.receive_cons hq] at hu' h'
    refine ⟨_, u', hu', fun p => ⟨k, _, hk, h', ?_⟩⟩
    obtain ⟨new, hnew⟩ := Fifo.arrivals_cons hq bs
    have htake : (Fifo.arrivals (qs k) bs).2.take.unread = l ++ new := by
      simp only [Tape.take, hnew]
    rw [hnew, hq] at hunread
    rw [Function.update_self, htake, ← hunread]
    rfl

/-- **One try.**  The first byte of those that were there and those that came is read. -/
theorem tryRead (h : s.Holds l) : ∃ s', s.tryRead w =
      .ok ((l ++ (w.speak s.peer).1).head?, s') ∧ s'.peer = w.pass (w.pass s.peer) ∧
      s'.Holds (((l ++ (w.speak s.peer).1 ++ (w.speak (w.pass s.peer)).1).take rxBufferSize).drop
        (l ++ (w.speak s.peer).1).head?.toList.length) := by
  obtain ⟨s₁, hs₁, h₁, hp₁⟩ := h.arrive (w.speak s.peer)
  have hpass : s₁.peer = w.pass s.peer := hp₁
  obtain ⟨flags, u', hu', h'⟩ := h₁.asyncReceive (w.speak s₁.peer).1
  have hhead : ((l ++ (w.speak s.peer).1).take rxBufferSize).head? =
      (l ++ (w.speak s.peer).1).head? := by
    rw [List.head?_take, if_neg (by decide)]
  refine ⟨{ s₁ with uart := u', peer := w.pass s₁.peer }, ?_, ?_, ?_⟩
  · simp only [Port.tryRead, hs₁, hu', ok_bind, hhead]
    rfl
  · rw [hpass]
  · have hkeep := h' (w.pass s₁.peer)
    rw [hhead, take_append_take] at hkeep
    rwa [← hpass]

/-- The loop ends when there is nothing; what comes after that stays in the buffer. -/
theorem flushData_nil (h : s.Holds l) (hnone : l ++ (w.speak s.peer).1 = []) (fuel : ℕ) :
    ∃ s', s.flushData w (fuel + 1) = .ok s' ∧ s'.peer = w.pass (w.pass s.peer) ∧
      s'.Holds ((w.speak (w.pass s.peer)).1.take rxBufferSize) := by
  obtain ⟨s', hs', hp', h'⟩ := h.tryRead (w := w)
  rw [hnone] at hs' h'
  refine ⟨s', ?_, hp', h'⟩
  simp only [Port.flushData, hs', ok_bind]
  rfl

/-- Otherwise a byte is thrown away. -/
theorem flushData_cons (h : s.Holds l) (hsome : l ++ (w.speak s.peer).1 ≠ []) :
    ∃ (s₁ : Port σ) (l₁ : List Byte),
      (∀ fuel, s.flushData w (fuel + 1) = s₁.flushData w fuel) ∧
      s₁.peer = w.pass^[2] s.peer ∧ s₁.Holds l₁ ∧
      l₁.length + 1 = min rxBufferSize (l.length + (w.spoken 2 s.peer).length) := by
  obtain ⟨s₁, hs₁, hp₁, h₁⟩ := h.tryRead (w := w)
  obtain ⟨b, rest, hb⟩ := List.exists_cons_of_ne_nil hsome
  rw [hb] at hs₁ h₁
  refine ⟨s₁, _, fun fuel => ?_, hp₁, h₁, ?_⟩
  · simp only [Port.flushData, hs₁, ok_bind]
    rfl
  · have hlen := congrArg List.length hb
    have hcap : rxBufferSize = 32 := rfl
    rw [List.length_append, List.length_cons] at hlen
    simp only [Peer.spoken, List.length_drop, List.length_take, List.length_append,
      List.length_cons, List.head?_cons, Option.toList_some, List.length_nil]
    omega

variable (w fuel) in
theorem flushData (h : s.Holds l) : s.flushData w fuel = .error .diverges ∨ ∃ n < fuel, ∃ s',
    s.flushData w fuel = .ok s' ∧ s'.peer = w.pass (w.pass^[2 * n + 1] s.peer) ∧
      s'.Holds ((w.speak (w.pass^[2 * n + 1] s.peer)).1.take rxBufferSize) := by
  induction fuel generalizing s l with
  | zero => exact Or.inl rfl
  | succ fuel ih =>
    by_cases hnone : l ++ (w.speak s.peer).1 = []
    · obtain ⟨s', hs', hp', h'⟩ := h.flushData_nil hnone fuel
      exact Or.inr ⟨0, Nat.succ_pos _, s', hs', hp', h'⟩
    · obtain ⟨s₁, l₁, hnext, hp₁, h₁, -⟩ := h.flushData_cons hnone
      rw [hnext]
      rcases ih h₁ with hdiv | ⟨n, hn, s', hs', hp', h'⟩
      · exact Or.inl hdiv
      · have hpeer : w.pass^[2 * n + 1] s₁.peer = w.pass^[2 * (n + 1) + 1] s.peer := by
          rw [hp₁]
          rfl
        rw [hpeer] at hp' h'
        exact Or.inr ⟨n + 1, Nat.succ_lt_succ hn, s', hs', hp', h'⟩

/-- Two more sections, and then those of the rest of the loop. -/
theorem length_spoken_try (w : Peer σ) (m n : ℕ) (p : σ) :
    (w.spoken (2 * (n + 1) + m) p).length =
      (w.spoken 2 p).length + (w.spoken (2 * n + m) (w.pass^[2] p)).length := by
  rw [← List.length_append, ← Peer.spoken_add]
  congr 2
  omega

/-- The loop catches up with what was there and what comes. -/
theorem flushData_ends (h : s.Holds l) {n : ℕ} (hn : n < fuel)
    (hle : l.length + (w.spoken (2 * n + 1) s.peer).length ≤ n) :
    s.flushData w fuel ≠ .error .diverges := by
  induction n generalizing s l fuel with
  | zero =>
    obtain ⟨fuel, rfl⟩ : ∃ f, fuel = f + 1 := ⟨fuel - 1, by omega⟩
    have hnone : l ++ (w.speak s.peer).1 = [] := by
      apply List.eq_nil_of_length_eq_zero
      simp only [Peer.spoken, List.append_nil] at hle
      rw [List.length_append]
      omega
    obtain ⟨s', hs', -⟩ := h.flushData_nil hnone fuel
    rw [hs']
    simp
  | succ n ih =>
    obtain ⟨fuel, rfl⟩ : ∃ f, fuel = f + 1 := ⟨fuel - 1, by omega⟩
    by_cases hnone : l ++ (w.speak s.peer).1 = []
    · obtain ⟨s', hs', -⟩ := h.flushData_nil hnone fuel
      rw [hs']
      simp
    · obtain ⟨s₁, l₁, hnext, hp₁, h₁, hlen⟩ := h.flushData_cons hnone
      rw [hnext]
      refine ih h₁ (by omega) ?_
      rw [length_spoken_try, ← hp₁] at hle
      omega

/-- If the buffer never overflows, the loop has thrown away all that was there and came. -/
theorem flushData_counts (h : s.Holds l) (hroom : ∀ n < fuel,
      l.length + (w.spoken (2 * n + 2) s.peer).length ≤ rxBufferSize + n) {s' : Port σ}
    (hs' : s.flushData w fuel = .ok s') :
    ∃ n < fuel, l.length + (w.spoken (2 * n + 1) s.peer).length = n := by
  induction fuel generalizing s l with
  | zero => cases hs'
  | succ fuel ih =>
    by_cases hnone : l ++ (w.speak s.peer).1 = []
    · refine ⟨0, Nat.succ_pos _, ?_⟩
      obtain ⟨rfl, hquiet⟩ := List.append_eq_nil_iff.1 hnone
      simp [Peer.spoken, hquiet]
    · obtain ⟨s₁, l₁, hnext, hp₁, h₁, hlen⟩ := h.flushData_cons hnone
      have hfirst := hroom 0 (Nat.succ_pos _)
      rw [Nat.min_eq_right (by simpa using hfirst)] at hlen
      rw [hnext] at hs'
      obtain ⟨n, hn, heq⟩ : ∃ n < fuel,
          l₁.length + (w.spoken (2 * n + 1) s₁.peer).length = n := by
        refine ih h₁ (fun n hn => ?_) hs'
        have hmore := hroom (n + 1) (Nat.succ_lt_succ hn)
        rw [length_spoken_try, ← hp₁] at hmore
        omega
      refine ⟨n + 1, Nat.succ_lt_succ hn, ?_⟩
      rw [length_spoken_try, ← hp₁]
      omega

theorem issueCmd (h : s.Holds l) (val : Byte) : ∃ s', s.issueCmd w val = .ok s' ∧ s'.Holds l ∧
    s'.peer = w.hear s.peer val := by
  obtain ⟨k, qs, hk, hkeeps, rfl⟩ := h.keeps
  refine ⟨{ s with peer := w.hear s.peer val }, ?_, ⟨k, qs, hk, hkeeps, rfl⟩, rfl⟩
  rw [Port.issueCmd, hkeeps.checked hk rfl]
  rfl

theorem issue (h : s.Holds l) (bs : List Byte) : ∃ s', s.issue w bs = .ok s' ∧ s'.Holds l ∧
    s'.peer = bs.foldl w.hear s.peer := by
  induction bs generalizing s with
  | nil => exact ⟨s, rfl, h, rfl⟩
  | cons b bs ih =>
    obtain ⟨s₁, hs₁, h₁, hp₁⟩ := h.issueCmd (w := w) b
    obtain ⟨s', hs', h', hp'⟩ := ih h₁
    refine ⟨s', ?_, h', ?_⟩
    · simp only [Port.issue, hs₁, ok_bind]
      exact hs'
    · rw [hp', hp₁]
      rfl

theorem head?_take_append {α : Type} {n : ℕ} (hn : 0 < n) (xs ys : List α) :
    (xs.take n ++ ys).head? = (xs ++ ys).head? := by
  rw [List.head?_append, List.head?_append, List.head?_take, if_neg (by omega)]

/-- When one item was read of those that fit, the next one is the next of all of them. -/
theorem head?_drop_append {α : Type} {n : ℕ} (hn : 1 < n) (x : α) (xs ys : List α) :
    (((x :: xs).take n).drop 1 ++ ys).head? = (xs ++ ys).head? := by
  obtain ⟨m, rfl⟩ : ∃ m, n = m + 1 := ⟨n - 1, by omega⟩
  rw [List.take_succ_cons, List.drop_one, List.tail_cons, head?_take_append (by omega)]

/-- **A check is a conversation**, from the last try on that found nothing. -/
theorem checkSensor_of_flush {s₁ : Port σ} {p : σ} (hs₁ : s.flushData w fuel = .ok s₁)
    (hp₁ : s₁.peer = w.pass p) (h₁ : s₁.Holds ((w.speak p).1.take rxBufferSize))
    (sensor : OiSensorArgs) (nbytes : Byte) : ∃ s' l', s.checkSensor w fuel sensor nbytes =
        .ok ((w.ask (Roomba.checkSensor sensor) nbytes p).1, s') ∧
      s'.peer = (w.ask (Roomba.checkSensor sensor) nbytes p).2 ∧ s'.Holds l' := by
  obtain ⟨s₂, hs₂, h₂, hp₂⟩ := h₁.issueCmd (w := w) OiCommand.sensors.code
  obtain ⟨s₃, hs₃, h₃, hp₃⟩ := h₂.issueCmd (w := w) sensor.code
  have hreq : s₃.peer = (Roomba.checkSensor sensor).foldl w.hear (w.pass p) := by
    rw [hp₃, hp₂, hp₁]
    rfl
  obtain ⟨s₄, hs₄, h₄, hp₄⟩ := h₃.arrive (w.wait s₃.peer)
  rw [take_append_take] at h₄
  have hwait : w.wait ((Roomba.checkSensor sensor).foldl w.hear (w.pass p)) =
      ((w.wait s₃.peer).1, s₄.peer) := by
    rw [hp₄, hreq]
  obtain ⟨s₅, hs₅, hp₅, h₅⟩ := h₄.tryRead (w := w)
  rw [List.append_assoc (List.take _ _), take_append_take, ← List.append_assoc,
    head?_take_append (by decide)] at h₅
  rw [head?_take_append (by decide)] at hs₅
  cases hfirst : (w.speak p).1 ++ (w.wait s₃.peer).1 ++ (w.speak s₄.peer).1 with
  | nil =>
    rw [hfirst] at hs₅
    rw [Peer.ask_nil hwait hfirst]
    refine ⟨s₅, _, ?_, hp₅, h₅⟩
    simp only [Port.checkSensor, hs₁, hs₂, hs₃, hs₄, hs₅, ok_bind]
    rfl
  | cons high rest =>
    rw [hfirst] at hs₅ h₅
    rw [Peer.ask_cons hwait hfirst]
    by_cases htwo : nbytes > 1
    · obtain ⟨s₆, hs₆, hp₆, h₆⟩ := h₅.tryRead (w := w)
      have hlow : (((high :: rest ++ (w.speak (w.pass s₄.peer)).1).take rxBufferSize).drop 1 ++
          (w.speak s₅.peer).1).head? =
          (rest ++ (w.speak (w.pass s₄.peer)).1 ++ (w.speak (w.pass^[2] s₄.peer)).1).head? := by
        rw [List.cons_append, head?_drop_append (by decide), hp₅]
        rfl
      rw [if_pos htwo, ← hlow]
      refine ⟨s₆, _, ?_, ?_, h₆⟩
      · simp only [Port.checkSensor, hs₁, hs₂, hs₃, hs₄, hs₅, ok_bind, List.head?_cons, htwo,
          if_true]
        rw [hs₆]
        rfl
      · rw [hp₆, hp₅]
        rfl
    · rw [if_neg htwo]
      refine ⟨s₅, _, ?_, hp₅, h₅⟩
      simp only [Port.checkSensor, hs₁, hs₂, hs₃, hs₄, hs₅, ok_bind, List.head?_cons, htwo,
        if_false]
      rfl

/-- The functions that read differ in what they ask for, and in what they make of it. -/
theorem check_eq (s : Port σ) (q : Query) : s.check w fuel q =
    (s.checkSensor w fuel q.sensor q.nbytes >>= fun r => pure (q.reading r.1, r.2)) := by
  cases q <;> simp only [check, checkPower, checkPowerCapacity, checkOiMode, checkLightBumper,
    checkVirtualWall, checkLeftBumper, checkRightBumper, bind_assoc, pure_bind] <;> rfl

theorem check_of_flush {s₁ : Port σ} {p : σ} (hs₁ : s.flushData w fuel = .ok s₁)
    (hp₁ : s₁.peer = w.pass p) (h₁ : s₁.Holds ((w.speak p).1.take rxBufferSize)) (q : Query)
    {data : Option Word} {p' : σ}
    (hask : w.ask (Roomba.checkSensor q.sensor) q.nbytes p = (data, p')) :
    ∃ s' l', s.check w fuel q = .ok (q.reading data, s') ∧ s'.peer = p' ∧ s'.Holds l' := by
  obtain ⟨s', l', hs', hp', h'⟩ := checkSensor_of_flush hs₁ hp₁ h₁ q.sensor q.nbytes
  rw [hask] at hs' hp'
  refine ⟨s', l', ?_, hp', h'⟩
  rw [check_eq, hs']
  rfl

theorem check_diverges (hdiv : s.flushData w fuel = .error .diverges) (q : Query) :
    s.check w fuel q = .error .diverges := by
  rw [check_eq, Port.checkSensor, hdiv]
  rfl

/-- The rest of a run when the first of its events is none of the functions that read. -/
theorem run_cons {s₁ : Port σ} {e : Event} {es : List Event}
    (hrun : s.run w fuel (e :: es) = s₁.run w fuel es)
    (hconv : ∀ ls, w.converse ((0, e) :: ls) s.peer = w.converse ls s₁.peer)
    (ih : s₁.run w fuel es = .error .diverges ∨
      ∃ ns : List ℕ, ns.length = es.length ∧ (∀ n ∈ ns, n ≤ fuel) ∧ ∃ rs s',
        s₁.run w fuel es = .ok (rs, s') ∧ w.converse (ns.zip es) s₁.peer = (rs, s'.peer)) :
    s.run w fuel (e :: es) = .error .diverges ∨
      ∃ ns : List ℕ, ns.length = (e :: es).length ∧ (∀ n ∈ ns, n ≤ fuel) ∧ ∃ rs s',
        s.run w fuel (e :: es) = .ok (rs, s') ∧
          w.converse (ns.zip (e :: es)) s.peer = (rs, s'.peer) := by
  rw [hrun]
  rcases ih with hdiv | ⟨ns, hlen, hle, rs, s', hs', hc⟩
  · exact Or.inl hdiv
  · refine Or.inr ⟨0 :: ns, congrArg (· + 1) hlen,
      List.forall_mem_cons.2 ⟨Nat.zero_le _, hle⟩, rs, s', hs', ?_⟩
    rw [List.zip_cons_cons, hconv, hc]

/-- **Runs are conversations.**  The induction is on the events. -/
theorem run (h : s.Holds l) (es : List Event) : s.run w fuel es = .error .diverges ∨
    ∃ ns : List ℕ, ns.length = es.length ∧ (∀ n ∈ ns, n ≤ fuel) ∧ ∃ rs s',
      s.run w fuel es = .ok (rs, s') ∧ w.converse (ns.zip es) s.peer = (rs, s'.peer) := by
  induction es generalizing s l with
  | nil => exact Or.inr ⟨[], rfl, by simp, [], s, rfl, rfl⟩
  | cons e es ih =>
    cases e with
    | noise bs =>
      obtain ⟨s₁, hs₁, h₁, hp₁⟩ := h.arrive (bs, s.peer)
      refine run_cons ?_ (fun ls => ?_) (ih h₁)
      · rw [Port.run, hs₁, ok_bind]
      · rw [Peer.converse, hp₁]
    | issue bs =>
      obtain ⟨s₁, hs₁, h₁, hp₁⟩ := h.issue (w := w) bs
      refine run_cons ?_ (fun ls => ?_) (ih h₁)
      · rw [Port.run, hs₁, ok_bind]
      · rw [Peer.converse, hp₁]
    | check q =>
      rcases h.flushData w fuel with hdiv | ⟨n, hn, s₀, hs₀, hp₀, h₀⟩
      · left
        rw [Port.run, check_diverges hdiv]
        rfl
      · obtain ⟨⟨data, p⟩, hask⟩ : ∃ r, w.ask (Roomba.checkSensor q.sensor) q.nbytes
            (w.pass^[2 * n + 1] s.peer) = r := ⟨_, rfl⟩
        obtain ⟨s₁, l₁, hs₁, rfl, h₁⟩ := check_of_flush hs₀ hp₀ h₀ q hask
        rcases ih h₁ with hdiv | ⟨ns, hlen, hle, rs, s', hs', hc⟩
        · left
          rw [Port.run, hs₁, ok_bind]
          dsimp only
          rw [hdiv]
          rfl
        · right
          refine ⟨n :: ns, congrArg (· + 1) hlen, List.forall_mem_cons.2 ⟨hn.le, hle⟩,
            q.reading data :: rs, s', ?_, ?_⟩
          · rw [Port.run, hs₁, ok_bind]
            dsimp only
            rw [hs']
            rfl
          · rw [List.zip_cons_cons, Peer.converse]
            simp only [hask, hc]

end Holds

/-- The port after `UART_Init`. -/
theorem holds_of_fresh {k : Fin 4} (hu : s.uart.Fresh) (hk : chanOk s.uartChannel = some k)
    (hi : (s.uart k).initialized = true) : s.Holds [] := by
  obtain ⟨-, hholds⟩ := hu.keeps
  refine ⟨k, fun _ => Tape.empty, hk, ⟨fun l hl => ?_, hholds⟩, rfl⟩
  obtain rfl := Set.mem_singleton_iff.1 hl
  exact hi

/-- **When the buffer can be thrown away.**  Whatever arrives, and when: if there is always room
for it, the loop of `flush_data` ends exactly if there is a time when the bytes that were in the
buffer and those that have come are not more than the bytes that it has read. -/
theorem flush_ends_iff (h : s.Holds l) (hroom : ∀ n < fuel,
      l.length + (w.spoken (2 * n + 2) s.peer).length ≤ rxBufferSize + n) :
    (∃ s', s.flushData w fuel = .ok s') ↔
      ∃ n < fuel, l.length + (w.spoken (2 * n + 1) s.peer).length ≤ n := by
  constructor
  · rintro ⟨s', hs'⟩
    obtain ⟨n, hn, heq⟩ := h.flushData_counts hroom hs'
    exact ⟨n, hn, heq.le⟩
  · rintro ⟨n, hn, hle⟩
    rcases h.flushData w fuel with hdiv | ⟨-, -, s', hs', -⟩
    · exact absurd hdiv (h.flushData_ends hn hle)
    · exact ⟨s', hs'⟩

/-- Three bytes come one after the other. -/
theorem flush_ends_iff_three : ∃ u ∈ (Uart.reset.uartInit 3 57600).toOption,
    let w : Peer ℕ := ⟨fun n _ => n, fun n => (List.replicate (min n 1) 7, n - 1), fun n => ([], n)⟩
    (∃ s', Port.flushData w 4 ⟨u, 3, 3⟩ = .ok s') ↔
      ∃ n < 4, 0 + (w.spoken (2 * n + 1) 3).length ≤ n := by
  apply exists_mem_of_isSome (by decide)
  intro u hu
  rw [toOption_eq_some] at hu
  have hinit : (u 3).initialized = true := by
    obtain rfl := Except.ok.inj hu
    rfl
  refine flush_ends_iff (holds_of_fresh (k := 3) (Uart.reset_fresh.uartInit hu) rfl hinit) ?_
  show ∀ n < 4, 0 + (Peer.spoken _ (2 * n + 2) 3).length ≤ rxBufferSize + n
  decide

/-- **As if there were no buffer.**  From power-on, in every run, with any other side and whatever
arrives at any time, the functions that read never abort, and their results are those of a
conversation without a receive buffer: each answer is made of what came after its own
`flush_data` had found the buffer empty, and nothing that came before counts. -/
theorem as_if_unbuffered {k : Fin 4} (hu : s.uart.Fresh) (hk : chanOk s.uartChannel = some k)
    (hi : (s.uart k).initialized = true) (w : Peer σ) (fuel : ℕ) (es : List Event) :
    s.run w fuel es = .error .diverges ∨
    ∃ ns : List ℕ, ns.length = es.length ∧ (∀ n ∈ ns, n ≤ fuel) ∧ ∃ rs s',
      s.run w fuel es = .ok (rs, s') ∧ w.converse (ns.zip es) s.peer = (rs, s'.peer) :=
  (holds_of_fresh hu hk hi).run es

/-- There are stale bytes in the buffer, and more of them come in while it is thrown away; the
answer comes after the request. -/
theorem as_if_unbuffered_stale : ∃ u ∈ (Uart.reset.uartInit 3 57600).toOption,
    let w : Peer (ℕ × ℕ) := ⟨fun p _ => (p.1, p.2 + 1),
      fun p => (if p.1 < 3 then [0] else [], (p.1 + 1, p.2)),
      fun p => (if p.2 = 2 then [1] else [], p)⟩
    let es : List Event := [.noise [0, 0], .check .virtualWall]
    let s : Port (ℕ × ℕ) := ⟨u, 3, (0, 0)⟩
    (s.run w 8 es).toOption.map Prod.fst = some [.flag true] ∧
      (s.run w 8 es = .error .diverges ∨
        ∃ ns : List ℕ, ns.length = es.length ∧ (∀ n ∈ ns, n ≤ 8) ∧ ∃ rs s',
          s.run w 8 es = .ok (rs, s') ∧ w.converse (ns.zip es) s.peer = (rs, s'.peer)) := by
  apply exists_mem_of_isSome (by decide)
  intro u hu
  rw [toOption_eq_some] at hu
  have hfresh : u.Fresh := Uart.reset_fresh.uartInit hu
  obtain rfl := Except.ok.inj hu
  exact ⟨by decide +kernel, as_if_unbuffered (k := 3) hfresh rfl rfl _ 8 _⟩

end Port

/-! ### A robot that answers in time -/

def OiSensorArgs.all : List OiSensorArgs :=
  [.bumpers, .virtualWall, .batteryCharge, .batteryCapacity, .oiMode, .lightBumper]

def OiSensorArgs.ofCode (b : Byte) : Option OiSensorArgs :=
  OiSensorArgs.all.find? fun a => a.code = b

@[simp] theorem OiSensorArgs.ofCode_code (a : OiSensorArgs) :
    OiSensorArgs.ofCode a.code = some a := by
  cases a <;> rfl

/-- What the sensors of the robot say. -/
structure Readings where
  bumps : Byte
  virtualWall : Byte
  charge : Word
  capacity : Word
  oiMode : Byte
  lightBumper : Byte

/-- What the robot sends when it is asked for a sensor; the high byte of a word comes first. -/
def Readings.packet (r : Readings) : OiSensorArgs → List Byte
  | .bumpers => [r.bumps]
  | .virtualWall => [r.virtualWall]
  | .batteryCharge => [highByte r.charge, lowByte r.charge]
  | .batteryCapacity => [highByte r.capacity, lowByte r.capacity]
  | .oiMode => [r.oiMode]
  | .lightBumper => [r.lightBumper]

/-- What a function is to return. -/
def Query.truth (q : Query) (r : Readings) : Reading :=
  match q with
  | .power => .word (some r.charge)
  | .powerCapacity => .word (some r.capacity)
  | .oiMode => .word (some (r.oiMode.setWidth 16))
  | .lightBumper => .word (some (r.lightBumper.setWidth 16))
  | .virtualWall => .flag (r.virtualWall != 0)
  | .leftBumper => .flag (r.bumps.getLsbD 1)
  | .rightBumper => .flag (r.bumps.getLsbD 0)

/-- A robot that answers in time, and speaks only when it is asked.  `Idle n` says that it has
answered `n` requests, and that all of its answers have arrived. -/
structure InTime {σ : Type} (w : Peer σ) (readings : ℕ → Readings) (Idle : ℕ → σ → Prop) :
    Prop where
  silent : ∀ n p, Idle n p → (w.speak p).1 = []
  pass : ∀ n p, Idle n p → Idle n (w.pass p)
  /-- Commands are not answered. -/
  hear : ∀ n p bs l, Idle n p → Streaming.decode complete [] bs = (l, []) →
    (∀ code, .sensors code ∉ l) → Idle n (bs.foldl w.hear p)
  /-- A request is answered within 50 ms. -/
  request : ∀ n p a, Idle n p → ∃ p', w.wait ((Roomba.checkSensor a).foldl w.hear p) =
    ((readings n).packet a, p') ∧ Idle (n + 1) p'

namespace InTime

variable {σ : Type} {w : Peer σ} {readings : ℕ → Readings} {Idle : ℕ → σ → Prop} {n : ℕ} {p : σ}

theorem iterate (h : InTime w readings Idle) (hp : Idle n p) (m : ℕ) :
    Idle n (w.pass^[m] p) := by
  induction m generalizing p with
  | zero => exact hp
  | succ m ih => exact ih (h.pass n p hp)

theorem spoken (h : InTime w readings Idle) (hp : Idle n p) (m : ℕ) : w.spoken m p = [] := by
  induction m generalizing p with
  | zero => rfl
  | succ m ih => rw [Peer.spoken, h.silent n p hp, ih (h.pass n p hp), List.append_nil]

theorem command (h : InTime w readings Idle) (hp : Idle n p) {c : Call}
    (hc : ∀ code, .sensors code ∉ c.means) : Idle n (c.sends.foldl w.hear p) := by
  have hdecode := decode_calls [c]
  simp only [List.flatMap_singleton] at hdecode
  exact h.hear n p _ _ hp hdecode hc

theorem bne_zero_setWidth (b : Byte) : (b.setWidth 16 != 0) = (b != 0) := by
  rw [Bool.eq_iff_iff, bne_iff_ne, bne_iff_ne]
  bv_omega

/-- The test of one bit. -/
theorem and_bit (b : Byte) {i : ℕ} (hi : i < 16) :
    (b.setWidth 16 &&& BitVec.twoPow 16 i != 0) = b.getLsbD i := by
  rw [BitVec.and_twoPow, BitVec.getLsbD_setWidth, decide_eq_true hi, Bool.true_and]
  cases b.getLsbD i with
  | false => rfl
  | true =>
    rw [if_pos rfl, bne_iff_ne]
    intro hzero
    have hbit := congrArg (BitVec.getLsbD · i) hzero
    simp [hi] at hbit

/-- **An answer in time is the right one.** -/
theorem ask (h : InTime w readings Idle) (hp : Idle n p) (q : Query) : ∃ data p',
    w.ask (Roomba.checkSensor q.sensor) q.nbytes p = (data, p') ∧
      q.reading data = q.truth (readings n) ∧ Idle (n + 1) p' := by
  obtain ⟨p', hwait, hp'⟩ := h.request n _ q.sensor (h.pass n p hp)
  have hfirst : (w.speak p).1 ++ (readings n).packet q.sensor ++ (w.speak p').1 =
      (readings n).packet q.sensor := by
    rw [h.silent n p hp, h.silent _ p' hp', List.nil_append, List.append_nil]
  have hword : ∀ x : Word, (some (to16bit (highByte x) (lowByte x))) = some x := fun x => by
    rw [to16bit_bytes]
  cases q with
  | power =>
    rw [Peer.ask_cons hwait hfirst, if_pos (by decide)]
    exact ⟨_, _, rfl, congrArg Reading.word (hword _), h.iterate hp' 4⟩
  | powerCapacity =>
    rw [Peer.ask_cons hwait hfirst, if_pos (by decide)]
    exact ⟨_, _, rfl, congrArg Reading.word (hword _), h.iterate hp' 4⟩
  | oiMode =>
    rw [Peer.ask_cons hwait hfirst, if_neg (by decide)]
    exact ⟨_, _, rfl, rfl, h.iterate hp' 2⟩
  | lightBumper =>
    rw [Peer.ask_cons hwait hfirst, if_neg (by decide)]
    exact ⟨_, _, rfl, rfl, h.iterate hp' 2⟩
  | virtualWall =>
    rw [Peer.ask_cons hwait hfirst, if_neg (by decide)]
    exact ⟨_, _, rfl, congrArg Reading.flag (bne_zero_setWidth _), h.iterate hp' 2⟩
  | leftBumper =>
    rw [Peer.ask_cons hwait hfirst, if_neg (by decide)]
    exact ⟨_, _, rfl, congrArg Reading.flag (and_bit _ (i := 1) (by decide)), h.iterate hp' 2⟩
  | rightBumper =>
    rw [Peer.ask_cons hwait hfirst, if_neg (by decide)]
    exact ⟨_, _, rfl, congrArg Reading.flag (and_bit _ (i := 0) (by decide)), h.iterate hp' 2⟩

end InTime

/-- The robot at its end of the line. -/
structure Respondent where
  /-- The command that has not come to its end. -/
  got : List Byte := []
  /-- What the robot has sent, and what has not arrived. -/
  pipe : List Byte := []
  /-- How often it was asked. -/
  asked : ℕ := 0
  now : ℕ := 0

namespace Respondent

variable (readings : ℕ → Readings) (arrives : ℕ → ℕ) (p : Respondent)

/-- The robot answers requests at once. -/
def answer (p : Respondent) : Action → Respondent
  | .sensors code =>
      match OiSensorArgs.ofCode code with
      | some a => { p with
          pipe := p.pipe ++ (readings p.asked).packet a
          asked := p.asked + 1 }
      | none => p
  | _ => p

/-- What it sends arrives bit by bit; 50 ms later all of it has arrived. -/
def peer : Peer Respondent where
  hear p b :=
    let (a, got) := Streaming.feed complete p.got b
    { a.elim p (p.answer readings) with got := got }
  speak p := (p.pipe.take (arrives p.now),
    { p with pipe := p.pipe.drop (arrives p.now), now := p.now + 1 })
  wait p := (p.pipe, { p with pipe := [] })

/-- The robot has answered `n` requests, and everything has arrived. -/
structure Idle (n : ℕ) : Prop where
  got : p.got = []
  pipe : p.pipe = []
  asked : p.asked = n

theorem answer_with (a : Action) (got : List Byte) :
    answer readings { p with got := got } a = { p.answer readings a with got := got } := by
  cases a with
  | sensors code =>
    simp only [answer]
    split <;> rfl
  | _ => rfl

theorem foldl_answer_with (l : List Action) (got : List Byte) :
    l.foldl (answer readings) { p with got := got } =
      { l.foldl (answer readings) p with got := got } := by
  induction l generalizing p with
  | nil => rfl
  | cons a l ih => rw [List.foldl_cons, answer_with, ih, List.foldl_cons]

/-- The robot answers what it recognizes. -/
theorem foldl_hear (bs : List Byte) : bs.foldl (peer readings arrives).hear p =
    { (Streaming.decode complete p.got bs).1.foldl (answer readings) p with
      got := (Streaming.decode complete p.got bs).2 } := by
  induction bs generalizing p with
  | nil => rfl
  | cons b bs ih =>
    have hhear : (peer readings arrives).hear p b =
        { (Streaming.feed complete p.got b).1.toList.foldl (answer readings) p with
          got := (Streaming.feed complete p.got b).2 } := by
      cases hfeed : Streaming.feed complete p.got b with
      | mk a got =>
        simp only [peer, hfeed]
        cases a <;> rfl
    rw [List.foldl_cons, ih, hhear]
    simp only [Streaming.decode, foldl_answer_with, List.foldl_append]

theorem foldl_answer_silent {l : List Action} (hl : ∀ code, .sensors code ∉ l) :
    l.foldl (answer readings) p = p := by
  induction l with
  | nil => rfl
  | cons a l ih =>
    have ha : p.answer readings a = p := by
      cases a with
      | sensors code => exact absurd (List.mem_cons_self ..) (hl code)
      | _ => rfl
    rw [List.foldl_cons, ha]
    exact ih fun code hmem => hl code (List.mem_cons_of_mem _ hmem)

variable {readings arrives p} {n : ℕ}

/-- The robot is asked for a sensor. -/
theorem Idle.request (h : p.Idle n) (a : OiSensorArgs) : ∃ p', (peer readings arrives).wait
    ((Roomba.checkSensor a).foldl (peer readings arrives).hear p) =
      ((readings n).packet a, p') ∧ p'.Idle (n + 1) := by
  have hdecode : Streaming.decode complete p.got (Roomba.checkSensor a) =
      ([.sensors a.code], []) := by
    rw [h.got]
    have hone : ∀ m ∈ [Action.sensors a.code], Streaming.Framed complete encode m := by
      intro m hm
      rw [List.mem_singleton.1 hm]
      exact framed _ trivial
    exact Streaming.decode_flatMap hone
  have hanswer : p.answer readings (.sensors a.code) =
      { p with pipe := (readings n).packet a, asked := n + 1 } := by
    simp only [answer, OiSensorArgs.ofCode_code, h.pipe, h.asked, List.nil_append]
  rw [foldl_hear, hdecode, List.foldl_cons, List.foldl_nil, hanswer]
  exact ⟨_, rfl, rfl, rfl, rfl⟩

variable (readings arrives) in
/-- **The robot answers in time.** -/
theorem inTime : InTime (peer readings arrives) readings fun n p => p.Idle n where
  silent n p h := by
    show p.pipe.take (arrives p.now) = []
    rw [h.pipe, List.take_nil]
  pass n p h := by
    refine ⟨h.got, ?_, h.asked⟩
    show p.pipe.drop (arrives p.now) = []
    rw [h.pipe, List.drop_nil]
  hear n p bs l h hbs hl := by
    rw [foldl_hear, h.got, hbs, foldl_answer_silent readings p hl]
    exact ⟨rfl, h.pipe, h.asked⟩
  request n p a h := h.request a

end Respondent

namespace Port

/-- What the functions are to return, when the robot was asked `n` times before. -/
def truths (readings : ℕ → Readings) : ℕ → List Event → List Reading
  | _, [] => []
  | n, .noise _ :: es => truths readings n es
  | n, .issue _ :: es => truths readings n es
  | n, .check q :: es => q.truth (readings n) :: truths readings (n + 1) es

/-- What is sent are commands that the robot does not answer. -/
def Unanswered (es : List Event) : Prop :=
  ∀ bs, .issue bs ∈ es → ∃ c : Call, c.sends = bs ∧ ∀ code, .sensors code ∉ c.means

theorem Unanswered.tail {e : Event} {es : List Event} (h : Unanswered (e :: es)) :
    Unanswered es := fun bs hbs => h bs (List.mem_cons_of_mem _ hbs)

variable {σ : Type} {w : Peer σ} {readings : ℕ → Readings} {Idle : ℕ → σ → Prop} {s : Port σ}
  {fuel n : ℕ} {l : List Byte}

/-- The buffer is thrown away, since nothing arrives meanwhile. -/
theorem Holds.flush_idle (h : s.Holds l) (ht : InTime w readings Idle) (hidle : Idle n s.peer)
    (hfuel : rxBufferSize < fuel) : ∃ p s', s.flushData w fuel = .ok s' ∧
      s'.peer = w.pass p ∧ Idle n p ∧ s'.Holds ((w.speak p).1.take rxBufferSize) := by
  have hle := h.length_le
  have hends : s.flushData w fuel ≠ .error .diverges := by
    refine h.flushData_ends (n := l.length) (by omega) ?_
    rw [ht.spoken hidle]
    exact le_rfl
  rcases h.flushData w fuel with hdiv | ⟨m, -, s', hs', hp', h'⟩
  · exact absurd hdiv hends
  · exact ⟨_, s', hs', hp', ht.iterate hidle _, h'⟩

/-- A check by itself. -/
theorem Holds.checkSensor_idle (h : s.Holds l) (ht : InTime w readings Idle)
    (hidle : Idle n s.peer) (hfuel : rxBufferSize < fuel) (q : Query) : ∃ data s' l',
    s.checkSensor w fuel q.sensor q.nbytes = .ok (data, s') ∧
      q.reading data = q.truth (readings n) ∧ Idle (n + 1) s'.peer ∧ s'.Holds l' := by
  obtain ⟨p, s₀, hs₀, hp₀, hidle₀, h₀⟩ := h.flush_idle ht hidle hfuel
  obtain ⟨data, p', hask, htruth, hidle'⟩ := ht.ask hidle₀ q
  obtain ⟨s', l', hs', hp', h'⟩ := Holds.checkSensor_of_flush hs₀ hp₀ h₀ q.sensor q.nbytes
  rw [hask] at hs' hp'
  exact ⟨data, s', l', hs', htruth, hp' ▸ hidle', h'⟩

theorem Holds.run_idle (h : s.Holds l) (ht : InTime w readings Idle) (hidle : Idle n s.peer)
    (hfuel : rxBufferSize < fuel) {es : List Event} (hes : Unanswered es) :
    ∃ s', s.run w fuel es = .ok (truths readings n es, s') := by
  induction es generalizing s l n with
  | nil => exact ⟨s, rfl⟩
  | cons e es ih =>
    cases e with
    | noise bs =>
      obtain ⟨s₁, hs₁, h₁, hp₁⟩ := h.arrive (bs, s.peer)
      have hidle₁ : Idle n s₁.peer := by
        rw [hp₁]
        exact hidle
      obtain ⟨s', hs'⟩ := ih h₁ hidle₁ hes.tail
      refine ⟨s', ?_⟩
      rw [Port.run, hs₁, ok_bind]
      exact hs'
    | issue bs =>
      obtain ⟨c, rfl, hc⟩ := hes _ (List.mem_cons_self ..)
      obtain ⟨s₁, hs₁, h₁, hp₁⟩ := h.issue (w := w) c.sends
      obtain ⟨s', hs'⟩ := ih h₁ (hp₁ ▸ ht.command hidle hc) hes.tail
      refine ⟨s', ?_⟩
      rw [Port.run, hs₁, ok_bind]
      exact hs'
    | check q =>
      obtain ⟨data, s₁, l₁, hs₁, htruth, hidle₁, h₁⟩ := h.checkSensor_idle ht hidle hfuel q
      obtain ⟨s', hs'⟩ := ih h₁ hidle₁ hes.tail
      refine ⟨s', ?_⟩
      rw [Port.run, Holds.check_eq, hs₁, truths, ← htruth, ok_bind]
      show (s₁.run w fuel es >>= _) = _
      rw [hs']
      rfl

/-- **Answers in time are right.**  From power-on, with any robot that has answered whatever it is
asked 50 ms later, however the bytes of its answers come in: in every run, whatever noise comes
between the functions and whatever commands are sent, each function that reads returns what the
sensors said when it asked. -/
theorem answers_right {k : Fin 4} (hu : s.uart.Fresh) (hk : chanOk s.uartChannel = some k)
    (hi : (s.uart k).initialized = true) (ht : InTime w readings Idle) (hp : Idle 0 s.peer)
    (hfuel : rxBufferSize < fuel) {es : List Event} (hes : Unanswered es) :
    ∃ s', s.run w fuel es = .ok (truths readings 0 es, s') :=
  (holds_of_fresh hu hk hi).run_idle ht hp hfuel hes

/-- Noise comes before a question, and a song is played after it. -/
theorem answers_right_noise : ∃ u ∈ (Uart.reset.uartInit 3 57600).toOption, ∃ s',
    Port.run (Respondent.peer (fun n => ⟨2, 0, 0x0A28, 0x0A8C, 2, BitVec.ofNat 8 n⟩) fun n => n) 33
      ⟨u, 3, {}⟩ [.noise [1, 2, 3], .check .leftBumper, .issue [141, 0], .check .power,
        .check .lightBumper] =
        .ok ([.flag true, .word (some 0x0A28), .word (some 2)], s') := by
  apply exists_mem_of_isSome (by decide)
  intro u hu
  rw [toOption_eq_some] at hu
  have hinit : (u 3).initialized = true := by
    obtain rfl := Except.ok.inj hu
    rfl
  refine answers_right (k := 3) (Uart.reset_fresh.uartInit hu) rfl hinit
    (Respondent.inTime _ _) ⟨rfl, rfl, rfl⟩ (by decide) ?_
  intro bs hbs
  have hplay : bs = [141, 0] := by simpa using hbs
  exact ⟨.playSong 0, hplay.symm, by simp [Call.means]⟩

end Port

end Roomba

end RoombaRtos
