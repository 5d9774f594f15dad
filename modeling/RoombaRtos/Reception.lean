import RoombaRtos.Uart
import RoombaRtos.Packet

/-!
# The reception of packets

The task `RXData` of the remote station: it looks for a packet at the front of the receive
buffer of the data channel, and throws the buffer away when there is none.

* `Line` — the UART with the bytes that arrive while the task runs: between any two sections
  that run with interrupts off, any number of bytes;
* `RxData.body` — the body of the loop;
* `Station` — the UART and the task, under arrivals and activations in any order;
* `packet_reception` — the packet is always the initial one or a valid stretch of what arrived,
  and a packet at the front of the buffer is received.
-/

namespace RoombaRtos

open Lockstep RingBuffer

/-- `data_channel`. -/
def dataChannel : BitVec 8 := 2

/-- The UART while the task runs. -/
structure Line where
  uart : Uart
  /-- The bytes that arrive before the next section with interrupts off, before the one after
  that, and so on. -/
  coming : List (List Byte)
  /-- The bytes that the ring buffer has accepted. -/
  accepted : List Byte

namespace Line

/-- The bytes `bs` arrive. -/
def arrive (s : Line) (bs : List Byte) : Except Halt Line := do
  let (flags, uart) ← s.uart.arrivals dataChannel bs
  return { s with uart := uart, accepted := s.accepted ++ Fifo.kept bs flags }

/-- Time passes until interrupts are off again. -/
def interrupts (s : Line) : Except Halt Line := do
  let s ← s.arrive (s.coming.headD [])
  return { s with coming := s.coming.tail }

def available (s : Line) : Except Halt (Bool × Line) := do
  let s ← s.interrupts
  let b ← s.uart.uartAvailable dataChannel
  return (b, s)

def bytesAvailable (s : Line) (num : BitVec 16) : Except Halt (Bool × Line) := do
  let s ← s.interrupts
  let b ← s.uart.uartBytesAvailable dataChannel num
  return (b, s)

def flush (s : Line) : Except Halt Line := do
  let s ← s.interrupts
  let uart ← s.uart.uartFlush dataChannel
  return { s with uart := uart }

def asyncReceive (s : Line) : Except Halt (Option Byte × Line) := do
  let s ← s.interrupts
  let meanwhile := s.coming.headD []
  let ((flags, byte), uart) ← s.uart.uartAsyncReceive dataChannel meanwhile
  return (byte, { uart := uart, coming := s.coming.tail,
                  accepted := s.accepted ++ Fifo.kept meanwhile flags })

end Line

/-- The variables of the task, and the global `packet`. -/
structure RxData where
  packet : Packet
  rxPacket : Packet
  buffer : Vector Byte packetSize

namespace RxData

/-- The loop that reads the rest of a packet: `n` bytes, from index `i` on. -/
def readRest (n i : ℕ) (buffer : Vector Byte packetSize) (s : Line) :
    Except Halt (Vector Byte packetSize × Line) :=
  match n with
  | 0 => return (buffer, s)
  | n + 1 => do
      let (byte, s) ← s.asyncReceive
      readRest n (i + 1) (buffer.setIfInBounds i (byte.getD 0)) s

/-- The magic number and the checksum lie in the buffer. -/
theorem packetSize_pos : 0 < packetSize := by decide

theorem one_lt_packetSize : 1 < packetSize := by decide

instance : NeZero packetSize := ⟨packetSize_pos.ne'⟩

/-- The buffer is decoded, and stored if its magic number and its checksum are what came in. -/
def storeBuffer (r : RxData) : RxData :=
  let rxPacket := Packet.ofBuffer r.buffer
  let magicOk := rxPacket.magic == packetMagic &&
    rxPacket.magic == to16bit (r.buffer.get 0) (r.buffer.get 1)
  let checksumOk := rxPacket.checksum == to16bit (r.buffer.get 12) (r.buffer.get 13)
  { r with
    rxPacket := rxPacket
    packet := if magicOk && checksumOk then Packet.ofBuffer r.buffer else r.packet }

/-- A packet is read; `true` when the code reaches its `continue`. -/
def readPacket (r : RxData) (s : Line) : Except Halt (Bool × RxData × Line) := do
  let (byte, s) ← s.asyncReceive
  if byte = some (highByte packetMagic) then
    let r := { r with buffer := r.buffer.set 0 (highByte packetMagic) packetSize_pos }
    let (byte, s) ← s.asyncReceive
    if byte = some (lowByte packetMagic) then
      let r := { r with buffer := r.buffer.set 1 (lowByte packetMagic) one_lt_packetSize }
      let (rest, s) ← s.bytesAvailable (BitVec.ofNat 16 (packetSize - 2))
      if rest then
        let (buffer, s) ← readRest (packetSize - 2) 2 r.buffer s
        return (true, { r with buffer := buffer }.storeBuffer, s)
      else return (false, r, s)
    else return (false, r, s)
  else return (false, r, s)

/-- The body of the loop. -/
def body (r : RxData) (s : Line) : Except Halt (RxData × Line) := do
  let (avail, s) ← s.available
  if avail then
    let (gotPacket, r, s) ← r.readPacket s
    -- what was not a packet is thrown away, with everything behind it
    if gotPacket then return (r, s)
    else
      let s ← s.flush
      return (r, s)
  else return (r, s)

end RxData

namespace Line

/-- The channel keeps the queue `q`, into which everything accepted went. -/
structure Feeds (s : Line) (q : Tape Byte) : Prop where
  keeps : ∃ qs, s.uart.Keeps {2} qs ∧ qs 2 = q
  accepted : q.accepted = s.accepted

theorem chanOk_dataChannel : chanOk dataChannel = some 2 := by decide

namespace Feeds

variable {s : Line} {q : Tape Byte}

theorem congr {s' : Line} (h : s.Feeds q) (hu : s'.uart = s.uart)
    (ha : s'.accepted = s.accepted) : s'.Feeds q := by
  refine ⟨?_, ?_⟩
  · rw [hu]
    exact h.keeps
  · rw [ha]
    exact h.accepted

theorem arrive (h : s.Feeds q) (bs : List Byte) : ∃ s', s.arrive bs = .ok s' ∧
    s'.Feeds (Fifo.arrivals q bs).2 ∧ s'.coming = s.coming := by
  obtain ⟨qs, hk, rfl⟩ := h.keeps
  obtain ⟨u', hu', h'⟩ := hk.arrivals chanOk_dataChannel rfl bs
  refine ⟨{ s with
    uart := u'
    accepted := s.accepted ++ Fifo.kept bs (Fifo.arrivals (qs 2) bs).1 }, ?_,
    ⟨⟨_, h', Function.update_self _ _ _⟩, ?_⟩, rfl⟩
  · simp only [Line.arrive, hu', ok_bind]
    rfl
  · rw [Fifo.accepted_arrivals, h.accepted]

theorem interrupts (h : s.Feeds q) :
    ∃ s' q', s.interrupts = .ok s' ∧ s'.Feeds q' ∧ q.Reads [] q' := by
  obtain ⟨s₁, hs₁, h₁, -⟩ := h.arrive (s.coming.headD [])
  refine ⟨{ s₁ with coming := s₁.coming.tail }, _, ?_, h₁.congr rfl rfl,
    Fifo.reads_arrivals q _⟩
  simp only [Line.interrupts, hs₁, ok_bind]
  rfl

theorem available (h : s.Feeds q) : ∃ s' q', s.available = .ok (decide (q'.unread ≠ []), s') ∧
    s'.Feeds q' ∧ q.Reads [] q' := by
  obtain ⟨s₁, q₁, hs₁, h₁, hq₁⟩ := h.interrupts
  obtain ⟨qs, hk, rfl⟩ := h₁.keeps
  refine ⟨s₁, qs 2, ?_, h₁, hq₁⟩
  simp only [Line.available, hs₁, hk.uartAvailable chanOk_dataChannel rfl, ok_bind]
  rfl

theorem bytesAvailable (h : s.Feeds q) (num : BitVec 16) :
    ∃ s' q', s.bytesAvailable num = .ok (decide (num.toNat ≤ q'.unread.length), s') ∧
      s'.Feeds q' ∧ q.Reads [] q' := by
  obtain ⟨s₁, q₁, hs₁, h₁, hq₁⟩ := h.interrupts
  obtain ⟨qs, hk, rfl⟩ := h₁.keeps
  refine ⟨s₁, qs 2, ?_, h₁, hq₁⟩
  simp only [Line.bytesAvailable, hs₁, hk.uartBytesAvailable chanOk_dataChannel rfl, ok_bind]
  rfl

theorem flush (h : s.Feeds q) :
    ∃ s' q', s.flush = .ok s' ∧ s'.Feeds q'.discard ∧ q.Reads [] q' := by
  obtain ⟨s₁, q₁, hs₁, h₁, hq₁⟩ := h.interrupts
  obtain ⟨qs, hk, rfl⟩ := h₁.keeps
  obtain ⟨u', hu', h'⟩ := hk.uartFlush chanOk_dataChannel rfl
  refine ⟨{ s₁ with uart := u' }, qs 2, ?_, ⟨⟨_, h', Function.update_self _ _ _⟩, ?_⟩, hq₁⟩
  · simp only [Line.flush, hs₁, hu', ok_bind]
    rfl
  · rw [Tape.accepted_discard]
    exact h₁.accepted

/-- A byte is read if there is one at the front. -/
theorem asyncReceive (h : s.Feeds q) : ∃ byte s' q', s.asyncReceive = .ok (byte, s') ∧
    s'.Feeds q' ∧ q.Reads byte.toList q' ∧ (q.unread ≠ [] → byte ≠ none) := by
  obtain ⟨s₁, q₁, hs₁, h₁, hq₁⟩ := h.interrupts
  obtain ⟨qs, hk, rfl⟩ := h₁.keeps
  obtain ⟨u', hu', h'⟩ := hk.uartAsyncReceive chanOk_dataChannel rfl (s₁.coming.headD [])
  set r := Fifo.receive (qs 2) (s₁.coming.headD []) with hr
  refine ⟨r.1.2, {
    uart := u'
    coming := s₁.coming.tail
    accepted := s₁.accepted ++ Fifo.kept (s₁.coming.headD []) r.1.1 }, r.2, ?_,
    ⟨⟨_, h', Function.update_self _ _ _⟩, ?_⟩, hq₁.trans (Fifo.reads_receive _ _), ?_⟩
  · simp only [Line.asyncReceive, hs₁, hu', ok_bind]
    rfl
  · rw [hr, Fifo.accepted_receive, h₁.accepted]
  · intro hq hnone
    obtain ⟨new, hnew⟩ := hq₁.2
    cases hu : (qs 2).unread with
    | nil =>
      rw [hu] at hnew
      exact hq (List.append_eq_nil_iff.1 hnew).1
    | cons b l =>
      rw [hr, Fifo.receive_cons hu] at hnone
      cases hnone

/-- A byte at the front of the queue is read. -/
theorem asyncReceive_cons (h : s.Feeds q) {b : Byte} {l : List Byte} (hq : q.unread = b :: l) :
    ∃ s' q' new, s.asyncReceive = .ok (some b, s') ∧ s'.Feeds q' ∧ q.Reads [b] q' ∧
      q'.unread = l ++ new := by
  obtain ⟨byte, s', q', hs', h', hreads, hsome⟩ := h.asyncReceive
  have hne : q.unread ≠ [] := by
    rw [hq]
    exact List.cons_ne_nil b l
  cases hb : byte with
  | none => exact absurd hb (hsome hne)
  | some b' =>
    rw [hb] at hs' hreads
    obtain ⟨new, hnew⟩ := hreads.2
    rw [hq] at hnew
    obtain ⟨rfl, hl⟩ := List.cons.inj hnew
    exact ⟨s', q', new, hs', h', hreads, hl.symm⟩

end Feeds

end Line

/-! ### One activation -/

namespace RxData

variable {s : Line} {q : Tape Byte} {r : RxData}

/-- **The loop reads as many bytes as were available.** -/
theorem readRest_feeds (h : s.Feeds q) (n i : ℕ) (buffer : Vector Byte packetSize)
    (hi : i + n ≤ packetSize) (hn : n ≤ q.unread.length) :
    ∃ buffer' bytes s' q', readRest n i buffer s = .ok (buffer', s') ∧ s'.Feeds q' ∧
      q.Reads bytes q' ∧ bytes.length = n ∧
      buffer'.toList = buffer.toList.take i ++ bytes ++ buffer.toList.drop (i + n) := by
  induction n generalizing s q i buffer with
  | zero =>
    refine ⟨buffer, [], s, q, rfl, h, Tape.Reads.refl q, rfl, ?_⟩
    simp
  | succ n ih =>
    cases hq : q.unread with
    | nil =>
      rw [hq] at hn
      simp at hn
    | cons b l =>
      obtain ⟨s₁, q₁, new, hs₁, h₁, hreads₁, hu₁⟩ := h.asyncReceive_cons hq
      have hn₁ : n ≤ q₁.unread.length := by
        rw [hq, List.length_cons] at hn
        rw [hu₁, List.length_append]
        omega
      obtain ⟨buffer', bytes, s', q', hs', h', hreads, hlen, hbuf⟩ :=
        ih h₁ (i + 1) (buffer.setIfInBounds i b) (by omega) hn₁
      refine ⟨buffer', b :: bytes, s', q', ?_, h', hreads₁.trans hreads, by simp [hlen], ?_⟩
      · simp only [readRest, hs₁, ok_bind]
        exact hs'
      · have hi' : i < buffer.toList.length := by
          rw [Vector.length_toList]
          omega
        have htake : (buffer.setIfInBounds i b).toList.take (i + 1) =
            buffer.toList.take i ++ [b] := by
          have hlen : (buffer.toList.take i).length = i := List.length_take_of_le (by omega)
          rw [Vector.toList_setIfInBounds, List.set_eq_take_append_cons_drop, if_pos hi']
          nth_rewrite 1 [← hlen]
          rw [List.take_length_add_append]
          rfl
        have hdrop : (buffer.setIfInBounds i b).toList.drop (i + 1 + n) =
            buffer.toList.drop (i + (n + 1)) := by
          rw [Vector.toList_setIfInBounds, List.drop_set_of_lt (by omega)]
          congr 1
          omega
        rw [hbuf, htake, hdrop]
        simp

/-- **Only a valid buffer is stored.** -/
theorem storeBuffer_packet (r : RxData) : r.storeBuffer.packet =
    if Packet.Valid r.buffer then ⟨r.buffer⟩ else r.packet := by
  by_cases hv : Packet.Valid r.buffer
  · have hread : Packet.magic ⟨r.buffer⟩ = to16bit (r.buffer.get 0) (r.buffer.get 1) := rfl
    have hsum : Packet.checksum ⟨r.buffer⟩ = to16bit (r.buffer.get 12) (r.buffer.get 13) := rfl
    have hmagic : to16bit (r.buffer.get 0) (r.buffer.get 1) = packetMagic := by
      show to16bit r.buffer[0] r.buffer[1] = packetMagic
      rw [to16bit_eq_magic, hv.1, hv.2.1]
      decide
    rw [if_pos hv]
    simp only [storeBuffer, Packet.ofBuffer_of_valid hv, hread, hsum, hmagic, beq_self_eq_true,
      Bool.and_self, if_true]
  · have hmagic : (Packet.zero.magic == packetMagic) = false :=
      beq_eq_false_iff_ne.2 Packet.zero_magic
    rw [if_neg hv]
    simp only [storeBuffer, Packet.ofBuffer_of_not_valid hv, hmagic, Bool.false_and,
      Bool.false_eq_true, if_false]

/-- The buffer once the magic number was written. -/
theorem buffer_magic {buffer buffer' : Vector Byte packetSize} {bytes : List Byte}
    (h : buffer'.toList = ((buffer.set 0 (highByte packetMagic)).set 1
      (lowByte packetMagic)).toList.take 2 ++ bytes ++ ((buffer.set 0 (highByte packetMagic)).set 1
      (lowByte packetMagic)).toList.drop (2 + (packetSize - 2))) :
    buffer'.toList = highByte packetMagic :: lowByte packetMagic :: bytes := by
  have htake : ((buffer.set 0 (highByte packetMagic)).set 1
      (lowByte packetMagic)).toList.take 2 = [highByte packetMagic, lowByte packetMagic] := by
    apply List.ext_getElem
    · simp
    · intro k hk hk'
      have hk2 : k < 2 := hk'
      rcases Nat.lt_succ_iff_lt_or_eq.1 hk2 with hk1 | rfl
      · obtain rfl : k = 0 := by omega
        simp
      · simp
  rw [h, htake, List.drop_of_length_le (by simp)]
  simp

/-- What the reading of a packet does: either it gives up, or the bytes taken from the queue
are a packet, which is stored if it is valid. -/
theorem readPacket_feeds (h : s.Feeds q) (r : RxData) :
    ∃ gotPacket r' s' q' bytes, r.readPacket s = .ok (gotPacket, r', s') ∧ s'.Feeds q' ∧
      q.Reads bytes q' ∧
      ((gotPacket = false ∧ r'.packet = r.packet) ∨
        (gotPacket = true ∧ bytes = r'.buffer.toList ∧
          r'.packet = if Packet.Valid r'.buffer then ⟨r'.buffer⟩ else r.packet)) := by
  obtain ⟨byte₁, s₁, q₁, hs₁, h₁, hreads₁, -⟩ := h.asyncReceive
  by_cases hb₁ : byte₁ = some (highByte packetMagic)
  · obtain ⟨byte₂, s₂, q₂, hs₂, h₂, hreads₂, -⟩ := h₁.asyncReceive
    by_cases hb₂ : byte₂ = some (lowByte packetMagic)
    · rw [hb₁] at hreads₁
      rw [hb₂] at hreads₂
      obtain ⟨s₃, q₃, hs₃, h₃, hreads₃⟩ :=
        h₂.bytesAvailable (BitVec.ofNat 16 (packetSize - 2))
      have hreads := (hreads₁.trans hreads₂).trans hreads₃
      by_cases hrest : (BitVec.ofNat 16 (packetSize - 2)).toNat ≤ q₃.unread.length
      · -- the rest is there
        obtain ⟨buffer, bytes, s₄, q₄, hs₄, h₄, hreads₄, -, hbuf⟩ :=
          readRest_feeds h₃ (packetSize - 2) 2 ((r.buffer.set 0 (highByte packetMagic)).set 1
            (lowByte packetMagic)) (by decide) hrest
        refine ⟨true, { r with buffer := buffer }.storeBuffer, s₄, q₄, _, ?_, h₄,
          hreads.trans hreads₄, Or.inr ⟨rfl, ?_, storeBuffer_packet _⟩⟩
        · simp only [readPacket, hs₁, hs₂, hs₃, hs₄, hb₁, hb₂, hrest, decide_true, if_true,
            ok_bind]
          rfl
        · exact (buffer_magic hbuf).symm
      · refine ⟨false, { r with
          buffer := (r.buffer.set 0 (highByte packetMagic)).set 1 (lowByte packetMagic) },
          s₃, q₃, _, ?_, h₃, hreads, Or.inl ⟨rfl, rfl⟩⟩
        simp only [readPacket, hs₁, hs₂, hs₃, hb₁, hb₂, hrest, decide_false, if_true, ok_bind]
        rfl
    · refine ⟨false, { r with buffer := r.buffer.set 0 (highByte packetMagic) }, s₂, q₂, _, ?_,
        h₂, hreads₁.trans hreads₂, Or.inl ⟨rfl, rfl⟩⟩
      simp only [readPacket, hs₁, hs₂, hb₁, hb₂, if_true, if_false, ok_bind]
      rfl
  · refine ⟨false, r, s₁, q₁, _, ?_, h₁, hreads₁, Or.inl ⟨rfl, rfl⟩⟩
    simp only [readPacket, hs₁, hb₁, if_false, ok_bind]
    rfl

/-- The first two bytes of a valid packet. -/
theorem valid_toList {v : Vector Byte packetSize} (hv : Packet.Valid v) :
    v.toList = highByte packetMagic :: lowByte packetMagic :: v.toList.drop 2 := by
  have hlen : v.toList.length = 14 := Vector.length_toList
  have h0 := List.drop_eq_getElem_cons (l := v.toList) (i := 0) (by omega)
  have h1 := List.drop_eq_getElem_cons (l := v.toList) (i := 1) (by omega)
  have hhigh : v.toList[0] = highByte packetMagic := by
    rw [Vector.getElem_toList, hv.1]
    decide
  have hlow : v.toList[1] = lowByte packetMagic := by
    rw [Vector.getElem_toList, hv.2.1]
    decide
  rw [hhigh, List.drop_zero] at h0
  rw [hlow] at h1
  exact h0.trans (congrArg (List.cons _) h1)

/-- **A valid packet at the front is read.** -/
theorem readPacket_front (h : s.Feeds q) (r : RxData) {v : Vector Byte packetSize}
    {rest : List Byte} (hv : Packet.Valid v) (hq : q.unread = v.toList ++ rest) :
    ∃ r' s' q', r.readPacket s = .ok (true, r', s') ∧ s'.Feeds q' ∧ r'.packet = ⟨v⟩ ∧
      q.Reads v.toList q' := by
  have htail : (v.toList.drop 2).length = packetSize - 2 := by
    rw [List.length_drop, Vector.length_toList]
  rw [valid_toList hv, List.cons_append, List.cons_append] at hq
  obtain ⟨s₁, q₁, new₁, hs₁, h₁, hreads₁, hu₁⟩ := h.asyncReceive_cons hq
  rw [List.cons_append] at hu₁
  obtain ⟨s₂, q₂, new₂, hs₂, h₂, hreads₂, hu₂⟩ := h₁.asyncReceive_cons hu₁
  obtain ⟨s₃, q₃, hs₃, h₃, hreads₃⟩ := h₂.bytesAvailable (BitVec.ofNat 16 (packetSize - 2))
  obtain ⟨-, new₃, hu₃⟩ := id hreads₃
  rw [hu₂, List.nil_append] at hu₃
  have hrest : (BitVec.ofNat 16 (packetSize - 2)).toNat ≤ q₃.unread.length := by
    rw [← hu₃]
    simp only [List.length_append, htail]
    show 12 ≤ 12 + _ + _ + _ + _
    omega
  obtain ⟨buffer, bytes, s₄, q₄, hs₄, h₄, hreads₄, hlen, hbuf⟩ :=
    readRest_feeds h₃ (packetSize - 2) 2 ((r.buffer.set 0 (highByte packetMagic)).set 1
      (lowByte packetMagic)) (by decide) hrest
  -- the bytes read are those at the front
  have hbytes : bytes = v.toList.drop 2 := by
    obtain ⟨-, new₄, hu₄⟩ := hreads₄
    rw [← hu₃] at hu₄
    simp only [List.append_assoc] at hu₄
    exact (List.append_inj hu₄ (htail.trans hlen.symm)).1.symm
  have hbuffer : buffer = v := by
    rw [← Vector.toList_inj, buffer_magic hbuf, hbytes]
    exact (valid_toList hv).symm
  refine ⟨{ r with buffer := buffer }.storeBuffer, s₄, q₄, ?_, h₄, ?_, ?_⟩
  · simp only [readPacket, hs₁, hs₂, hs₃, hs₄, hrest, decide_true, if_true, ok_bind]
    rfl
  · rw [storeBuffer_packet, hbuffer, if_pos hv]
  · rw [valid_toList hv, ← hbytes]
    exact ((hreads₁.trans hreads₂).trans hreads₃).trans hreads₄

/-- The packet is the one it was, or a valid stretch of what was accepted. -/
def Sound (p₀ : Packet) (accepted : List Byte) (p : Packet) : Prop :=
  p = p₀ ∨ ∃ v, Packet.Valid v ∧ p = ⟨v⟩ ∧ v.toList <:+: accepted

theorem Sound.mono {p₀ p : Packet} {accepted accepted' : List Byte}
    (h : Sound p₀ accepted p) (ha : accepted <+: accepted') : Sound p₀ accepted' p := by
  rcases h with h | ⟨v, hv, hp, hin⟩
  · exact Or.inl h
  · exact Or.inr ⟨v, hv, hp, hin.trans ha.isInfix⟩

/-- **An activation keeps the packet sound.** -/
theorem body_feeds {p₀ : Packet} (h : s.Feeds q) (r : RxData)
    (hp : Sound p₀ s.accepted r.packet) :
    ∃ r' s' q', r.body s = .ok (r', s') ∧ s'.Feeds q' ∧ Sound p₀ s'.accepted r'.packet := by
  obtain ⟨s₁, q₁, hs₁, h₁, hreads₁⟩ := h.available
  have hp₁ : Sound p₀ q₁.accepted r.packet := by
    rw [← h.accepted] at hp
    exact hp.mono hreads₁.accepted_mono
  by_cases havail : q₁.unread ≠ []
  · rw [decide_eq_true havail] at hs₁
    obtain ⟨gotPacket, r₂, s₂, q₂, bytes, hs₂, h₂, hreads₂, hcase⟩ := readPacket_feeds h₁ r
    have hp₂ : Sound p₀ q₂.accepted r.packet := hp₁.mono hreads₂.accepted_mono
    rcases hcase with ⟨rfl, hpacket⟩ | ⟨rfl, rfl, hpacket⟩
    · -- the buffer is flushed
      obtain ⟨s₃, q₃, hs₃, h₃, hreads₃⟩ := h₂.flush
      refine ⟨r₂, s₃, q₃.discard, ?_, h₃, ?_⟩
      · simp only [body, hs₁, hs₂, hs₃, if_true, ok_bind]
        rfl
      · rw [← h₃.accepted, Tape.accepted_discard, hpacket]
        exact hp₂.mono hreads₃.accepted_mono
    · refine ⟨r₂, s₂, q₂, ?_, h₂, ?_⟩
      · simp only [body, hs₁, hs₂, if_true, ok_bind]
        rfl
      · rw [← h₂.accepted, hpacket]
        by_cases hv : Packet.Valid r₂.buffer
        · rw [if_pos hv]
          refine Or.inr ⟨r₂.buffer, hv, rfl, q₁.gone.map Prod.fst, q₂.unread, ?_⟩
          exact hreads₂.accepted.symm
        · rw [if_neg hv]
          exact hp₂
  · refine ⟨r, s₁, q₁, ?_, h₁, ?_⟩
    · rw [decide_eq_false havail] at hs₁
      simp only [body, hs₁, ok_bind]
      rfl
    · rw [← h₁.accepted]
      exact hp₁

/-- **An activation receives a packet at the front, and leaves what is behind it.** -/
theorem body_front (h : s.Feeds q) (r : RxData) {v : Vector Byte packetSize} {rest : List Byte}
    (hv : Packet.Valid v) (hq : q.unread = v.toList ++ rest) :
    ∃ r' s' q', r.body s = .ok (r', s') ∧ s'.Feeds q' ∧ r'.packet = ⟨v⟩ ∧
      q.Reads v.toList q' := by
  obtain ⟨s₁, q₁, hs₁, h₁, hreads₁⟩ := h.available
  obtain ⟨-, new, hu₁⟩ := id hreads₁
  rw [hq, List.nil_append, List.append_assoc] at hu₁
  have havail : q₁.unread ≠ [] := by
    rw [← hu₁, valid_toList hv]
    simp
  obtain ⟨r₂, s₂, q₂, hs₂, h₂, hp, hreads₂⟩ := readPacket_front h₁ r hv hu₁.symm
  refine ⟨r₂, s₂, q₂, ?_, h₂, hp, hreads₁.trans hreads₂⟩
  rw [decide_eq_true havail] at hs₁
  simp only [body, hs₁, hs₂, if_true, ok_bind]
  rfl

end RxData

/-! ### Arrivals and activations in any order -/

structure Station where
  uart : Uart
  rx : RxData
  /-- The bytes that the ring buffer of the data channel has accepted. -/
  accepted : List Byte

inductive RxEvent
  /-- A byte arrives between activations. -/
  | arrive (b : Byte)
  /-- The body of the loop runs, and the bytes `coming` arrive meanwhile. -/
  | activate (coming : List (List Byte))
deriving DecidableEq, Repr

namespace Station

def line (s : Station) (coming : List (List Byte)) : Line :=
  { uart := s.uart, coming := coming, accepted := s.accepted }

def handle (s : Station) : RxEvent → Except Halt Station
  | .arrive b => do
      let line ← (s.line []).arrive [b]
      return { s with uart := line.uart, accepted := line.accepted }
  | .activate coming => do
      let (rx, line) ← s.rx.body (s.line coming)
      return { uart := line.uart, rx := rx, accepted := line.accepted }

def run (s : Station) : List RxEvent → Except Halt Station
  | [] => return s
  | e :: es => do
      let s ← s.handle e
      run s es

/-- The station with the queue of its data channel. -/
def Feeds (s : Station) (q : Tape Byte) : Prop := (s.line []).Feeds q

variable {s : Station} {q : Tape Byte} {p₀ : Packet}

theorem Feeds.handle (h : s.Feeds q) (hp : RxData.Sound p₀ s.accepted s.rx.packet)
    (e : RxEvent) : ∃ s' q', s.handle e = .ok s' ∧ s'.Feeds q' ∧
      RxData.Sound p₀ s'.accepted s'.rx.packet := by
  cases e with
  | arrive b =>
    obtain ⟨l, hl, h', -⟩ := h.arrive [b]
    refine ⟨{ s with uart := l.uart, accepted := l.accepted }, _, ?_, h'.congr rfl rfl, ?_⟩
    · simp only [Station.handle, hl, ok_bind]
      rfl
    · show RxData.Sound p₀ l.accepted s.rx.packet
      rw [← h'.accepted]
      apply hp.mono
      show (s.line []).accepted <+: _
      rw [← h.accepted]
      exact (Fifo.reads_arrivals q [b]).accepted_mono
  | activate coming =>
    obtain ⟨r, l, q', hl, h', hp'⟩ :=
      RxData.body_feeds (s := s.line coming) (h.congr rfl rfl) s.rx hp
    refine ⟨{ uart := l.uart, rx := r, accepted := l.accepted }, q', ?_, h'.congr rfl rfl, hp'⟩
    simp only [Station.handle, hl, ok_bind]
    rfl

theorem Feeds.run (h : s.Feeds q) (hp : RxData.Sound p₀ s.accepted s.rx.packet)
    (es : List RxEvent) : ∃ s' q', s.run es = .ok s' ∧ s'.Feeds q' ∧
      RxData.Sound p₀ s'.accepted s'.rx.packet := by
  induction es generalizing s q with
  | nil => exact ⟨s, q, rfl, h, hp⟩
  | cons e es ih =>
    obtain ⟨s₁, q₁, hs₁, h₁, hp₁⟩ := h.handle hp e
    obtain ⟨s₂, q₂, hs₂, h₂, hp₂⟩ := ih h₁ hp₁
    refine ⟨s₂, q₂, ?_, h₂, hp₂⟩
    simp only [Station.run, hs₁, hs₂, ok_bind]

/-- The queue of a channel is the one it keeps. -/
theorem Feeds.holds (h : s.Feeds q) : (s.uart 2).Holds q.unread := by
  obtain ⟨qs, hk, rfl⟩ := h.keeps
  exact hk.holds 2

/-- The station when the task has started: `packet` has its initial value, and `UART_Init` was
called for the data channel. -/
def start : Except Halt Station := do
  let uart ← Uart.reset.uartInit dataChannel 38400
  let packet := Packet.ofFields 512 512 0 512 512 0
  return {
    uart := uart
    rx := { packet := packet, rxPacket := packet, buffer := Vector.replicate packetSize 0 }
    accepted := [] }

/-- No byte has arrived yet on the data channel, which is initialized. -/
def Ready (s : Station) : Prop :=
  s.uart.Fresh ∧ (s.uart 2).initialized = true ∧ s.accepted = []

theorem start_ready (h : start = .ok s) : s.Ready := by
  obtain ⟨u, hu, hs⟩ := bind_ok h
  obtain rfl := Except.ok.inj hs
  refine ⟨Uart.reset_fresh.uartInit hu, ?_, rfl⟩
  obtain rfl := Except.ok.inj hu
  rfl

theorem Ready.feeds (h : s.Ready) : s.Feeds Tape.empty := by
  obtain ⟨hfresh, hinit, hacc⟩ := h
  have hkeeps := hfresh.keeps
  refine ⟨⟨fun _ => Tape.empty, ⟨fun k hk => ?_, hkeeps.holds⟩, rfl⟩, hacc.symm⟩
  obtain rfl : k = 2 := hk
  exact hinit

/-- **Packets are received soundly and completely.**  Whatever arrives, and whenever: the packet
is the initial one or a valid stretch of the bytes accepted, and an activation that finds a valid
packet at the front of the unread bytes stores it and leaves the bytes behind it. -/
theorem packet_reception (h : s.Ready) (es : List RxEvent) :
    ∃ s', s.run es = .ok s' ∧ RxData.Sound s.rx.packet s'.accepted s'.rx.packet ∧
      ∀ (v : Vector Byte packetSize) rest coming, Packet.Valid v →
        (s'.uart 2).Holds (v.toList ++ rest) →
        ∃ s'' new, s'.handle (.activate coming) = .ok s'' ∧ s''.rx.packet = ⟨v⟩ ∧
          s''.accepted = s'.accepted ++ new ∧ (s''.uart 2).Holds (rest ++ new) := by
  have hsame : RxData.Sound s.rx.packet s.accepted s.rx.packet := Or.inl rfl
  obtain ⟨s', q, hrun, h', hp⟩ := h.feeds.run hsame es
  refine ⟨s', hrun, hp, fun v rest coming hv hunread => ?_⟩
  have hq : q.unread = v.toList ++ rest := Circular.Holds.unique h'.holds hunread
  obtain ⟨r, l, q', hl, h'', hpacket, hreads⟩ :=
    RxData.body_front (s := s'.line coming) (h'.congr rfl rfl) s'.rx hv hq
  obtain ⟨new, hnew⟩ := hreads.2
  rw [hq, List.append_assoc] at hnew
  have hbehind : q'.unread = rest ++ new := (List.append_cancel_left hnew).symm
  refine ⟨{ uart := l.uart, rx := r, accepted := l.accepted }, new, ?_, hpacket, ?_, ?_⟩
  · simp only [Station.handle, hl, ok_bind]
    rfl
  · show l.accepted = _
    have hacc : q.accepted = s'.accepted := h'.accepted
    rw [← h''.accepted, ← hacc, hreads.accepted, hbehind, Tape.accepted, hq]
    simp only [List.append_assoc]
  · have hfeeds : Feeds { uart := l.uart, rx := r, accepted := l.accepted } q' :=
      h''.congr rfl rfl
    rw [← hbehind]
    exact hfeeds.holds

/-- A packet behind a stray byte, and bytes that arrive while it is read. -/
theorem packet_reception_after_flush :
    ∃ s ∈ start.toOption, ∃ s', s.run ([.arrive 7, .activate []] ++
        (Packet.ofFields 1 2 0 3 4 1).data.toList.map RxEvent.arrive ++
        [.activate [[], [0xFE], [0xED, 0xFE]]]) = .ok s' ∧
      RxData.Sound s.rx.packet s'.accepted s'.rx.packet ∧
      s'.rx.packet = Packet.ofFields 1 2 0 3 4 1 := by
  apply exists_mem_of_isSome (by decide)
  intro s hs
  rw [toOption_eq_some] at hs
  obtain ⟨s', hrun, hp, -⟩ := packet_reception (start_ready hs) ([.arrive 7, .activate []] ++
    (Packet.ofFields 1 2 0 3 4 1).data.toList.map RxEvent.arrive ++
    [.activate [[], [0xFE], [0xED, 0xFE]]])
  refine ⟨s', hrun, hp, ?_⟩
  have hpacket : (start.toOption.bind fun s => (s.run ([.arrive 7, .activate []] ++
      (Packet.ofFields 1 2 0 3 4 1).data.toList.map RxEvent.arrive ++
      [.activate [[], [0xFE], [0xED, 0xFE]]])).toOption.map fun s' => s'.rx.packet) =
      some (Packet.ofFields 1 2 0 3 4 1) := by decide +kernel
  rw [hs] at hpacket
  simp only [Except.toOption, Option.bind_some, hrun, Option.map_some,
    Option.some.injEq] at hpacket
  exact hpacket

end Station

end RoombaRtos
