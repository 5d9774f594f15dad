import RoombaRtos.Lib.Frames
import RoombaRtos.Joystick
import RoombaRtos.Printing
import RoombaRtos.Reception

/-!
# The link

The two stations: `updatePacket` and `TXData` of the base station, the wire, and `RXData` of the
remote station, one step after the other in any order.

* `Packet.magic_aligned` — in a stream of packets, where the magic number can be found;
* `Line.Carries` — no byte is lost while there is room for all that arrive;
* `Link` — the two stations with the bytes on the way between them;
* `in_order` — what the remote station has is what the base station had, and it never goes back;
* `resync` — after a pause, what was sent last is received.
-/

namespace RoombaRtos

open Lockstep RingBuffer RxData

/-! ### Streams of packets -/

namespace Packet

/-- What `TXData` sends. -/
def bytes (p : Packet) : List Byte := p.data.toList

theorem length_bytes (p : Packet) : p.bytes.length = packetSize := Vector.length_toList

theorem getElem?_bytes (p : Packet) {r : ℕ} (hr : r < packetSize) :
    p.bytes[r]? = some p.data[r] := by
  rw [bytes, List.getElem?_eq_getElem (by rw [Vector.length_toList]; exact hr),
    Vector.getElem_toList]

/-- Where the bytes of the magic number do not occur. -/
structure Ranged.Apart (p : Packet) : Prop where
  high : p.data[0] = highByte packetMagic
  low : p.data[1] = lowByte packetMagic
  axes : p.data[2].toNat ≤ 3 ∧ p.data[4].toNat ≤ 3 ∧ p.data[6].toNat ≤ 3 ∧ p.data[8].toNat ≤ 3
  switches : (p.data[10] = 0x00 ∨ p.data[10] = 0xFF) ∧ (p.data[11] = 0x00 ∨ p.data[11] = 0xFF)

theorem high_le {h l : Byte} (hw : (to16bit h l).toNat ≤ 1023) : h.toNat ≤ 3 := by
  rw [toNat_to16bit] at hw
  omega

theorem Ranged.apart {p : Packet} (h : p.Ranged) : Ranged.Apart p := by
  obtain ⟨fields, rfl, h1X, h1Y, h2X, h2Y, h1SW, h2SW⟩ := h
  rw [← @get_encode fields .joy1X] at h1X
  rw [← @get_encode fields .joy1Y] at h1Y
  rw [← @get_encode fields .joy2X] at h2X
  rw [← @get_encode fields .joy2Y] at h2Y
  rw [← @get_encode fields .joy1SW] at h1SW
  rw [← @get_encode fields .joy2SW] at h2SW
  exact ⟨valid_encode.1, valid_encode.2.1, ⟨high_le h1X, high_le h1Y, high_le h2X, high_le h2Y⟩,
    h1SW, h2SW⟩

theorem Ranged.valid {p : Packet} (h : p.Ranged) : Valid p.data := by
  obtain ⟨fields, rfl, -⟩ := h
  exact valid_encode

theorem ne_magic_of_le {b : Byte} (h : b.toNat ≤ 3) :
    b ≠ highByte packetMagic ∧ b ≠ lowByte packetMagic := by
  have hhigh : (highByte packetMagic).toNat = 0xFE := by decide
  have hlow : (lowByte packetMagic).toNat = 0xED := by decide
  constructor
  · rintro rfl
    omega
  · rintro rfl
    omega

theorem ne_magic_of_switch {b : Byte} (h : b = 0x00 ∨ b = 0xFF) :
    b ≠ highByte packetMagic ∧ b ≠ lowByte packetMagic := by
  rcases h with rfl | rfl <;> decide

/-- **The magic number inside of a packet.**  It is at the start, or in the checksum. -/
theorem Ranged.magic_inside {p : Packet} (h : p.Ranged) (hsum : p.checksum ≠ packetMagic) {r : ℕ}
    (hr : r + 1 < packetSize) (hhigh : p.data[r] = highByte packetMagic)
    (hlow : p.data[r + 1] = lowByte packetMagic) : r = 0 := by
  obtain ⟨-, hl, ⟨h2, h4, h6, h8⟩, h10, h11⟩ := h.apart
  have hr' : r + 1 < 14 := hr
  have hne : lowByte packetMagic ≠ highByte packetMagic := by decide
  by_contra h0
  obtain rfl | rfl | rfl | rfl | rfl | rfl | rfl | rfl | rfl | rfl | rfl | rfl :
      r = 1 ∨ r = 2 ∨ r = 3 ∨ r = 4 ∨ r = 5 ∨ r = 6 ∨ r = 7 ∨ r = 8 ∨ r = 9 ∨ r = 10 ∨ r = 11 ∨
        r = 12 := by omega
  · exact hne (hl.symm.trans hhigh)
  · exact (ne_magic_of_le h2).1 hhigh
  · exact (ne_magic_of_le h4).2 hlow
  · exact (ne_magic_of_le h4).1 hhigh
  · exact (ne_magic_of_le h6).2 hlow
  · exact (ne_magic_of_le h6).1 hhigh
  · exact (ne_magic_of_le h8).2 hlow
  · exact (ne_magic_of_le h8).1 hhigh
  · exact (ne_magic_of_switch h10).2 hlow
  · exact (ne_magic_of_switch h10).1 hhigh
  · exact (ne_magic_of_switch h11).1 hhigh
  · exact hsum (to16bit_eq_magic.2 ⟨hhigh, hlow⟩)

/-- **The magic number in a stream of packets.**  If it is no packet's checksum, it is only where
a packet starts. -/
theorem magic_aligned {sent : List Packet} (h : ∀ p ∈ sent, p.Ranged ∧ p.checksum ≠ packetMagic)
    {i r : ℕ} (hr : r < packetSize)
    (hhigh : (sent.flatMap bytes)[packetSize * i + r]? = some (highByte packetMagic))
    (hlow : (sent.flatMap bytes)[packetSize * i + r + 1]? = some (lowByte packetMagic)) :
    r = 0 := by
  rw [Frames.getElem?_flatMap length_bytes sent i hr] at hhigh
  obtain ⟨p, hp, hhigh⟩ := Option.bind_eq_some_iff.1 hhigh
  obtain ⟨hranged, hsum⟩ := h p (List.mem_of_getElem? hp)
  rw [getElem?_bytes p hr] at hhigh
  by_cases hnext : r + 1 < packetSize
  · rw [Nat.add_assoc, Frames.getElem?_flatMap length_bytes sent i hnext, hp, Option.bind_some,
      getElem?_bytes p hnext] at hlow
    exact hranged.magic_inside hsum hnext (Option.some.inj hhigh) (Option.some.inj hlow)
  · -- the second byte is the first one of the next packet
    have hlast : packetSize * i + r + 1 = packetSize * (i + 1) + 0 := by
      rw [Nat.mul_succ]
      omega
    rw [hlast, Frames.getElem?_flatMap length_bytes sent (i + 1) packetSize_pos] at hlow
    obtain ⟨p', hp', hlow⟩ := Option.bind_eq_some_iff.1 hlow
    rw [getElem?_bytes p' packetSize_pos] at hlow
    have hfirst := (h p' (List.mem_of_getElem? hp')).1.apart.high
    have hne : highByte packetMagic ≠ lowByte packetMagic := by decide
    exact absurd (hfirst.symm.trans (Option.some.inj hlow)) hne

/-- **A valid stretch of a stream of packets is one of them.** -/
theorem mem_of_stretch {sent : List Packet} (h : ∀ p ∈ sent, p.Ranged ∧ p.checksum ≠ packetMagic)
    {v : Vector Byte packetSize} (hv : Valid v) {k : ℕ}
    (hk : ∀ r, r < packetSize → (sent.flatMap bytes)[k + r]? = v.toList[r]?) :
    ∃ i, k = packetSize * i ∧ sent[i]? = some ⟨v⟩ := by
  have hbyte : ∀ r (hr : r < packetSize), v.toList[r]? = some v[r] :=
    fun r hr => getElem?_bytes ⟨v⟩ hr
  have hhigh := hk 0 packetSize_pos
  have hlow := hk 1 one_lt_packetSize
  rw [hbyte 0 packetSize_pos, hv.1] at hhigh
  rw [hbyte 1 one_lt_packetSize, hv.2.1] at hlow
  have hsplit : k = packetSize * (k / packetSize) + k % packetSize := (Nat.div_add_mod _ _).symm
  have hr : k % packetSize = 0 := by
    refine magic_aligned h (i := k / packetSize) (Nat.mod_lt _ packetSize_pos) ?_ ?_
    · rw [← hsplit]
      exact hhigh
    · rw [← hsplit]
      exact hlow
  rw [hr, Nat.add_zero] at hsplit
  rw [hsplit] at hk
  obtain ⟨p, hp, hvp⟩ := Frames.eq_of_aligned length_bytes (Vector.length_toList) packetSize_pos hk
  refine ⟨k / packetSize, hsplit, ?_⟩
  rw [hp]
  exact congrArg (fun d => some (Packet.mk d)) (Vector.toList_inj.1 hvp).symm

end Packet

/-! ### Room for what arrives -/

namespace Fifo

variable {q : Tape Byte} {bs : List Byte}

theorem arrivals_room (h : q.unread.length + bs.length ≤ rxBufferSize) :
    (arrivals q bs).2 = { q with unread := q.unread ++ bs } := by
  induction bs generalizing q with
  | nil => simp [arrivals]
  | cons b bs ih =>
    rw [List.length_cons] at h
    have hpush : q.arrive rxBufferSize b = q.push b := if_pos (by omega)
    have hlen : (q.push b).unread.length = q.unread.length + 1 := by simp [Tape.push]
    show (arrivals (q.arrive rxBufferSize b) bs).2 = _
    rw [hpush, ih (by omega)]
    simp [Tape.push]

/-- All that arrives while a byte is read is accepted. -/
theorem receive_room (h : q.unread.length + bs.length ≤ rxBufferSize) :
    (receive q bs).2.accepted = q.accepted ++ bs ∧
      (receive q bs).2.unread.length ≤ q.unread.length + bs.length := by
  have hacc : (arrivals q bs).2.accepted = q.accepted ++ bs := by
    rw [arrivals_room h]
    exact (List.append_assoc _ _ _).symm
  have hlen : (arrivals q bs).2.unread.length = q.unread.length + bs.length := by
    rw [arrivals_room h]
    exact List.length_append
  cases hq : q.unread with
  | nil =>
    rw [receive_nil hq]
    exact ⟨hacc, by rw [hlen, hq]⟩
  | cons b l =>
    obtain ⟨new, hnew⟩ := arrivals_cons hq bs
    have htake : (arrivals q bs).2.take.unread = l ++ new := by simp only [Tape.take, hnew]
    rw [receive_cons hq, Tape.accepted_take, htake]
    rw [hnew, List.length_cons, hq] at hlen
    exact ⟨hacc, by omega⟩

end Fifo

namespace Line

variable {s s₁ s' : Line} {q : Tape Byte}

/-- The bytes that have not arrived yet. -/
def left (s : Line) : ℕ := s.coming.flatten.length

/-- If there was room for what arrived in the meantime, all of it was accepted. -/
def Carries (s s' : Line) : Prop :=
  s'.left ≤ s.left ∧ ∀ q, s.Feeds q → q.unread.length + s.left ≤ rxBufferSize + s'.left →
    ∃ q', s'.Feeds q' ∧ q'.unread.length + s'.left ≤ q.unread.length + s.left ∧
      s'.accepted ++ s'.coming.flatten = s.accepted ++ s.coming.flatten

theorem Carries.refl (s : Line) : s.Carries s :=
  ⟨le_rfl, fun q h _ => ⟨q, h, le_rfl, rfl⟩⟩

theorem Carries.trans (h : s.Carries s₁) (h' : s₁.Carries s') : s.Carries s' := by
  refine ⟨h'.1.trans h.1, fun q hq hroom => ?_⟩
  have hle := h'.1
  obtain ⟨q₁, hq₁, hlen₁, heq₁⟩ := h.2 q hq (by omega)
  obtain ⟨q', hq', hlen', heq'⟩ := h'.2 q₁ hq₁ (by omega)
  exact ⟨q', hq', hlen'.trans hlen₁, heq'.trans heq₁⟩

theorem flatten_coming (s : Line) :
    s.coming.flatten = s.coming.headD [] ++ s.coming.tail.flatten := by
  cases s.coming with
  | nil => rfl
  | cons bs l => rfl

theorem left_eq (s : Line) :
    s.left = (s.coming.headD []).length + s.coming.tail.flatten.length := by
  rw [left, flatten_coming, List.length_append]

/-- The queue when the bytes `bs` have arrived, for which there was room. -/
theorem Feeds.arrive_room (h : s.Feeds q) {bs : List Byte}
    (hbs : q.unread.length + bs.length ≤ rxBufferSize) (hs : s.arrive bs = .ok s') :
    s'.Feeds { q with unread := q.unread ++ bs } ∧ s'.coming = s.coming ∧
      s'.accepted = s.accepted ++ bs := by
  obtain ⟨s₁, hs₁, h₁, hc₁⟩ := h.arrive bs
  obtain rfl := Except.ok.inj (hs₁.symm.trans hs)
  rw [Fifo.arrivals_room hbs] at h₁
  refine ⟨h₁, hc₁, ?_⟩
  rw [← h₁.accepted, ← h.accepted]
  exact (List.append_assoc _ _ _).symm

theorem carries_interrupts (hs : s.interrupts = .ok s') : s.Carries s' := by
  obtain ⟨s₁, hs₁, hs'⟩ := bind_ok hs
  obtain rfl := Except.ok.inj hs'
  have hleft := s.left_eq
  have hcoming : s₁.coming = s.coming := by
    obtain ⟨⟨flags, uart⟩, -, hs'⟩ := bind_ok hs₁
    obtain rfl := Except.ok.inj hs'
    rfl
  have hleft' : left { s₁ with coming := s₁.coming.tail } = s.coming.tail.flatten.length := by
    rw [← hcoming]
    rfl
  refine ⟨by omega, fun q h hroom => ?_⟩
  obtain ⟨h₁, -, ha₁⟩ := h.arrive_room (by omega) hs₁
  refine ⟨_, h₁.congr rfl rfl, ?_, ?_⟩
  · show (q.unread ++ s.coming.headD []).length + _ ≤ _
    rw [List.length_append]
    omega
  · show s₁.accepted ++ s₁.coming.tail.flatten = _
    rw [ha₁, hcoming, flatten_coming s, List.append_assoc]

/-- A call that first lets time pass, and then leaves the line as it is. -/
theorem carries_of_bind {α : Type} {g : Line → Except Halt (α × Line)} {a : α}
    (hs : (s.interrupts >>= g) = .ok (a, s'))
    (hg : ∀ s₁, g s₁ = .ok (a, s') → s₁.Carries s') : s.Carries s' := by
  obtain ⟨s₁, hs₁, hs'⟩ := bind_ok hs
  exact (carries_interrupts hs₁).trans (hg s₁ hs')

theorem carries_available {b : Bool} (hs : s.available = .ok (b, s')) : s.Carries s' := by
  refine carries_of_bind hs fun s₁ hs₁ => ?_
  obtain ⟨b', -, hs'⟩ := bind_ok hs₁
  obtain rfl : s₁ = s' := congrArg Prod.snd (Except.ok.inj hs')
  exact Carries.refl s₁

theorem carries_bytesAvailable {num : BitVec 16} {b : Bool}
    (hs : s.bytesAvailable num = .ok (b, s')) : s.Carries s' := by
  refine carries_of_bind hs fun s₁ hs₁ => ?_
  obtain ⟨b', -, hs'⟩ := bind_ok hs₁
  obtain rfl : s₁ = s' := congrArg Prod.snd (Except.ok.inj hs')
  exact Carries.refl s₁

theorem carries_flush (hs : s.flush = .ok s') : s.Carries s' := by
  obtain ⟨s₁, hs₁, hs'⟩ := bind_ok hs
  refine (carries_interrupts hs₁).trans ?_
  obtain ⟨u, hu, hs'⟩ := bind_ok hs'
  obtain rfl := Except.ok.inj hs'
  refine ⟨le_rfl, fun q h hroom => ?_⟩
  obtain ⟨qs, hk, rfl⟩ := h.keeps
  obtain ⟨u', hu', h'⟩ := hk.uartFlush chanOk_dataChannel rfl
  obtain rfl := Except.ok.inj (hu'.symm.trans hu)
  refine ⟨(qs 2).discard, ⟨⟨_, h', Function.update_self _ _ _⟩, ?_⟩, ?_, rfl⟩
  · rw [Tape.accepted_discard]
    exact h.accepted
  · exact Nat.add_le_add_right (Nat.zero_le _) _

theorem carries_asyncReceive {byte : Option Byte} (hs : s.asyncReceive = .ok (byte, s')) :
    s.Carries s' := by
  refine carries_of_bind hs fun s₁ hs₁ => ?_
  obtain ⟨⟨⟨flags, byte'⟩, u⟩, hu, hs'⟩ := bind_ok hs₁
  obtain rfl := congrArg Prod.snd (Except.ok.inj hs')
  have hleft := s₁.left_eq
  refine ⟨hleft ▸ Nat.le_add_left _ _, fun q h hroom => ?_⟩
  have hroom : q.unread.length + s₁.left ≤ rxBufferSize + s₁.coming.tail.flatten.length := hroom
  obtain ⟨qs, hk, rfl⟩ := h.keeps
  obtain ⟨u', hu', h'⟩ := hk.uartAsyncReceive chanOk_dataChannel rfl (s₁.coming.headD [])
  obtain ⟨hr, rfl⟩ := Prod.mk.inj (Except.ok.inj (hu'.symm.trans hu))
  obtain ⟨hacc, hlen⟩ := @Fifo.receive_room (qs 2) (s₁.coming.headD []) (by omega)
  have hkept := Fifo.accepted_receive (qs 2) (s₁.coming.headD [])
  rw [hr] at hkept
  refine ⟨_, ⟨⟨_, h', Function.update_self _ _ _⟩, ?_⟩, ?_, ?_⟩
  · rw [hkept, h.accepted]
  · show (Fifo.receive (qs 2) (s₁.coming.headD [])).2.unread.length +
      s₁.coming.tail.flatten.length ≤ _
    omega
  · show s₁.accepted ++ Fifo.kept (s₁.coming.headD []) flags ++ s₁.coming.tail.flatten = _
    rw [← h.accepted, ← hkept, hacc, List.append_assoc, flatten_coming s₁]

end Line

namespace RxData

variable {s s' : Line} {q : Tape Byte} {r r' : RxData}

theorem carries_readRest {n i : ℕ} {buffer buffer' : Vector Byte packetSize}
    (hs : readRest n i buffer s = .ok (buffer', s')) : s.Carries s' := by
  induction n generalizing i buffer s with
  | zero =>
    obtain rfl : s = s' := congrArg Prod.snd (Except.ok.inj hs)
    exact Line.Carries.refl s
  | succ n ih =>
    obtain ⟨⟨byte, s₁⟩, hs₁, hs'⟩ := bind_ok hs
    exact (Line.carries_asyncReceive hs₁).trans (ih hs')

theorem carries_readPacket {gotPacket : Bool} (hs : r.readPacket s = .ok (gotPacket, r', s')) :
    s.Carries s' := by
  obtain ⟨⟨byte₁, s₁⟩, hs₁, hs⟩ := bind_ok hs
  refine (Line.carries_asyncReceive hs₁).trans ?_
  dsimp only at hs
  split_ifs at hs with h₁
  · obtain ⟨⟨byte₂, s₂⟩, hs₂, hs⟩ := bind_ok hs
    refine (Line.carries_asyncReceive hs₂).trans ?_
    dsimp only at hs
    split_ifs at hs with h₂
    · obtain ⟨⟨rest, s₃⟩, hs₃, hs⟩ := bind_ok hs
      refine (Line.carries_bytesAvailable hs₃).trans ?_
      dsimp only at hs
      split_ifs at hs with h₃
      · obtain ⟨⟨buffer, s₄⟩, hs₄, hs⟩ := bind_ok hs
        obtain rfl := congrArg (fun x => x.2.2) (Except.ok.inj hs)
        exact carries_readRest hs₄
      · obtain rfl := congrArg (fun x => x.2.2) (Except.ok.inj hs)
        exact Line.Carries.refl _
    · obtain rfl := congrArg (fun x => x.2.2) (Except.ok.inj hs)
      exact Line.Carries.refl _
  · obtain rfl := congrArg (fun x => x.2.2) (Except.ok.inj hs)
    exact Line.Carries.refl _

/-- **An activation loses no byte for which there is room.** -/
theorem carries_body (hs : r.body s = .ok (r', s')) : s.Carries s' := by
  obtain ⟨⟨avail, s₁⟩, hs₁, hs⟩ := bind_ok hs
  refine (Line.carries_available hs₁).trans ?_
  dsimp only at hs
  split_ifs at hs with havail
  · obtain ⟨⟨gotPacket, r₂, s₂⟩, hs₂, hs⟩ := bind_ok hs
    refine (carries_readPacket hs₂).trans ?_
    dsimp only at hs
    split_ifs at hs with hgot
    · obtain rfl := congrArg Prod.snd (Except.ok.inj hs)
      exact Line.Carries.refl _
    · obtain ⟨s₃, hs₃, hs⟩ := bind_ok hs
      obtain rfl := congrArg Prod.snd (Except.ok.inj hs)
      exact Line.carries_flush hs₃
  · obtain rfl := congrArg Prod.snd (Except.ok.inj hs)
    exact Line.Carries.refl _

/-- What an activation does to the queue: it is empty afterwards and the packet is the same, or the
first bytes of it were read, and stored if they are valid. -/
def Took (q : Tape Byte) (r : RxData) (q' : Tape Byte) (r' : RxData) : Prop :=
  q.accepted <+: q'.accepted ∧
    ((q'.unread = [] ∧ r'.packet = r.packet) ∨
      ∃ v : Vector Byte packetSize, q.Reads v.toList q' ∧
        r'.packet = if Packet.Valid v then ⟨v⟩ else r.packet)

theorem body_took (h : s.Feeds q) (r : RxData) :
    ∃ r' s' q', r.body s = .ok (r', s') ∧ s'.Feeds q' ∧ Took q r q' r' := by
  obtain ⟨s₁, q₁, hs₁, h₁, hreads₁⟩ := h.available
  by_cases havail : q₁.unread ≠ []
  · rw [decide_eq_true havail] at hs₁
    obtain ⟨gotPacket, r₂, s₂, q₂, bytes, hs₂, h₂, hreads₂, hcase⟩ := readPacket_feeds h₁ r
    have hreads : q.Reads bytes q₂ := hreads₁.trans hreads₂
    rcases hcase with ⟨rfl, hpacket⟩ | ⟨rfl, rfl, hpacket⟩
    · obtain ⟨s₃, q₃, hs₃, h₃, hreads₃⟩ := h₂.flush
      refine ⟨r₂, s₃, q₃.discard, ?_, h₃, ?_, Or.inl ⟨rfl, hpacket⟩⟩
      · simp only [body, hs₁, hs₂, hs₃, if_true, ok_bind]
        rfl
      · rw [Tape.accepted_discard]
        exact hreads.accepted_mono.trans hreads₃.accepted_mono
    · refine ⟨r₂, s₂, q₂, ?_, h₂, hreads.accepted_mono, Or.inr ⟨r₂.buffer, hreads, hpacket⟩⟩
      simp only [body, hs₁, hs₂, if_true, ok_bind]
      rfl
  · refine ⟨r, s₁, q₁, ?_, h₁, hreads₁.accepted_mono, Or.inl ⟨not_not.1 havail, rfl⟩⟩
    rw [decide_eq_false havail] at hs₁
    simp only [body, hs₁, ok_bind]
    rfl

end RxData

/-! ### The two stations -/

structure Link where
  /-- The UART of the base station. -/
  base : Uart
  /-- `packet` of the base station. -/
  packet : Packet
  /-- The packets that were sent, the first one first. -/
  sent : List Packet
  /-- The bytes on the way. -/
  wire : List Byte
  station : Station
  /-- The number of bytes that have arrived since `RXData` last started an activation. -/
  arrived : ℕ

inductive LinkEvent
  | updatePacket (joystick1 joystick2 : Joystick.Reading)
  /-- `UART_Writable` answers `writable`. -/
  | txData (writable : Bool)
  /-- The next byte arrives, between two activations of `RXData`. -/
  | deliver
  /-- `RXData` runs, and as many bytes arrive between its sections. -/
  | rxData (times : List ℕ)
deriving DecidableEq, Repr

namespace Link

def updatePacket (s : Link) (joystick1 joystick2 : Joystick.Reading) : Except Halt Link := do
  let avail ← s.base.uartAvailable dataChannel
  let base ← if avail then s.base.uartFlush dataChannel else pure s.base
  return { s with base := base, packet := s.packet.update joystick1 joystick2 }

def txData (s : Link) (writable : Bool) : Except Halt Link := do
  if writable then
    let out ← s.base.uartSendRawBytes dataChannel (BitVec.ofNat 8 packetSize)
      (fun i => s.packet.bytes.getD i 0) packetSize
    return { s with sent := s.sent ++ [s.packet], wire := s.wire ++ out.map Sent.byte }
  else return s

def deliver (s : Link) : Except Halt Link :=
  match s.wire with
  | [] => return s
  | b :: wire => do
      let station ← s.station.handle (.arrive b)
      return { s with station := station, wire := wire, arrived := s.arrived + 1 }

def rxData (s : Link) (times : List ℕ) : Except Halt Link := do
  let (rx, line) ← s.station.rx.body (s.station.line (times.splitLengths s.wire))
  -- what has not arrived when the activation ends is still on the way
  let wire := line.coming.flatten ++ s.wire.drop times.sum
  return { s with
    station := { uart := line.uart, rx := rx, accepted := line.accepted }
    wire := wire
    arrived := s.wire.length - wire.length }

def handle (s : Link) : LinkEvent → Except Halt Link
  | .updatePacket joystick1 joystick2 => s.updatePacket joystick1 joystick2
  | .txData writable => s.txData writable
  | .deliver => s.deliver
  | .rxData times => s.rxData times

/-- The states after each of the events. -/
def trace (s : Link) : List LinkEvent → Except Halt (List Link)
  | [] => return []
  | e :: es => do
      let t ← s.handle e
      let ts ← t.trace es
      return t :: ts

/-- Both stations have started. -/
def start : Except Halt Link := do
  let base ← Uart.reset.uartInit dataChannel 38400
  let station ← Station.start
  return {
    base := base
    packet := Packet.ofFields 512 512 0 512 512 0
    sent := []
    wire := []
    station := station
    arrived := 0 }

/-! ### Every step -/

variable {s s' : Link} {q : Tape Byte} {e : LinkEvent}

/-- The stations work, and the packets have fields that joysticks can have. -/
structure Inv (s : Link) : Prop where
  base : ∃ qs, s.base.Keeps {2} qs
  packet : s.packet.Ranged
  sent : ∀ p ∈ s.sent, p.Ranged

theorem updatePacket_eq (h : s.Inv) (joystick1 joystick2 : Joystick.Reading) :
    ∃ base, s.updatePacket joystick1 joystick2 =
        .ok { s with base := base, packet := s.packet.update joystick1 joystick2 } ∧
      Inv { s with base := base, packet := s.packet.update joystick1 joystick2 } := by
  obtain ⟨qs, hk⟩ := h.base
  have havail := hk.uartAvailable Line.chanOk_dataChannel rfl
  have hranged := Packet.ranged_update h.packet joystick1 joystick2
  by_cases hu : (qs 2).unread = []
  · refine ⟨s.base, ?_, ⟨⟨qs, hk⟩, hranged, h.sent⟩⟩
    simp only [updatePacket, havail, hu, ok_bind]
    rfl
  · obtain ⟨u, hu', hk'⟩ := hk.uartFlush Line.chanOk_dataChannel rfl
    refine ⟨u, ?_, ⟨⟨_, hk'⟩, hranged, h.sent⟩⟩
    rw [decide_eq_true hu] at havail
    simp only [updatePacket, havail, hu', if_true, ok_bind]
    rfl

theorem txData_eq (h : s.Inv) : s.txData true =
    .ok { s with sent := s.sent ++ [s.packet], wire := s.wire ++ s.packet.bytes } := by
  obtain ⟨qs, hk⟩ := h.base
  have hchan := hk.checked Line.chanOk_dataChannel (Set.mem_singleton 2)
  have hlen : s.packet.bytes.length = 14 := s.packet.length_bytes
  obtain hloop | ⟨-, hfuel⟩ := sendLoop_byte (Uart.uartTransmit_eq hchan)
    (fun i => s.packet.bytes.getD i 0) (by decide : packetSize < 256) packetSize (i := 0)
    (Nat.zero_le _)
  · have hsend : s.base.uartSendRawBytes dataChannel (BitVec.ofNat 8 packetSize)
        (fun i => s.packet.bytes.getD i 0) packetSize =
        .ok ((List.range' 0 packetSize).map fun k => ⟨k, s.packet.bytes.getD k 0⟩) := by
      rw [Uart.uartSendRawBytes, hchan]
      exact hloop
    have hbytes : ((List.range' 0 packetSize).map fun k =>
        (⟨k, s.packet.bytes.getD k 0⟩ : Sent)).map Sent.byte = s.packet.bytes := by
      apply List.ext_getElem
      · simp [hlen]
      · intro i hi hi'
        simp [List.getD_eq_getElem?_getD, List.getElem?_eq_getElem hi']
    rw [txData, if_pos rfl, hsend, ok_bind, hbytes]
    rfl
  · exact absurd hfuel (by decide)

/-- What one step does to the station that receives: nothing is read, or a packet from the front of
the queue. -/
def Advances (q : Tape Byte) (r : RxData) (q' : Tape Byte) (r' : RxData) : Prop :=
  q.gone.length ≤ q'.gone.length ∧ (r'.packet = r.packet ∨
    ∃ v, Packet.Valid v ∧ r'.packet = ⟨v⟩ ∧ q.gone.length + packetSize ≤ q'.gone.length ∧
      ∀ i, i < packetSize → q'.accepted[q.gone.length + i]? = v.toList[i]?)

theorem Advances.of_reads {q' : Tape Byte} {r : RxData} (h : q.Reads [] q') :
    Advances q r q' r := by
  refine ⟨?_, Or.inl rfl⟩
  rw [h.1]
  simp

theorem Advances.of_took {q' : Tape Byte} {r r' : RxData} (h : RxData.Took q r q' r') :
    Advances q r q' r' := by
  obtain ⟨hpre, ⟨hempty, hpacket⟩ | ⟨v, hreads, hpacket⟩⟩ := h
  · refine ⟨?_, Or.inl hpacket⟩
    have hle := hpre.length_le
    rw [Tape.accepted, Tape.accepted, hempty, List.append_nil, List.length_append,
      List.length_map, List.length_map] at hle
    omega
  · have hlen : v.toList.length = packetSize := Vector.length_toList
    have hgone : q'.gone.length = q.gone.length + packetSize := by
      rw [hreads.1, List.length_append, List.length_map, hlen]
    refine ⟨by omega, ?_⟩
    by_cases hv : Packet.Valid v
    · rw [if_pos hv] at hpacket
      refine Or.inr ⟨v, hv, hpacket, hgone.ge, fun i hi => ?_⟩
      have hfront : (q.gone.map Prod.fst).length = q.gone.length := List.length_map _
      rw [hreads.accepted, List.append_assoc, ← hfront, List.getElem?_append_right (by omega),
        Nat.add_sub_cancel_left, List.getElem?_append_left (by omega)]
    · rw [if_neg hv] at hpacket
      exact Or.inl hpacket

/-- A step of the receiving side: bytes leave the wire, and come in if there is room for them. -/
structure Receives (s : Link) (q : Tape Byte) (s' : Link) (q' : Tape Byte) : Prop where
  feeds : s'.station.Feeds q'
  sent : s'.sent = s.sent
  advances : Advances q s.station.rx q' s'.station.rx
  stream : q.unread.length + (s.wire.length - s'.wire.length) ≤ rxBufferSize →
    s'.station.accepted ++ s'.wire = s.station.accepted ++ s.wire

theorem deliver_receives (h : s.Inv) (hq : s.station.Feeds q) :
    ∃ s' q', s.deliver = .ok s' ∧ s'.Inv ∧ s.Receives q s' q' ∧ q.Reads [] q' ∧
      s'.station.rx = s.station.rx := by
  cases hw : s.wire with
  | nil =>
    have hreads := Tape.Reads.refl q
    refine ⟨s, q, ?_, h, ⟨hq, rfl, Advances.of_reads hreads, fun _ => rfl⟩, hreads, rfl⟩
    simp only [deliver, hw]
    rfl
  | cons b wire =>
    obtain ⟨l, hl, h', -⟩ := Line.Feeds.arrive hq [b]
    have hreads := Fifo.reads_arrivals q [b]
    refine ⟨{ s with
      station := { s.station with uart := l.uart, accepted := l.accepted }
      wire := wire
      arrived := s.arrived + 1 }, _, ?_, ⟨h.base, h.packet, h.sent⟩,
      ⟨h'.congr rfl rfl, rfl, Advances.of_reads hreads, fun hroom => ?_⟩, hreads, rfl⟩
    · simp only [deliver, hw, Station.handle, hl, ok_bind]
      rfl
    · have hone : q.unread.length + [b].length ≤ rxBufferSize := by
        rw [hw] at hroom
        simp only [List.length_cons, List.length_nil] at hroom ⊢
        omega
      obtain ⟨-, -, hacc⟩ := Line.Feeds.arrive_room hq hone hl
      show l.accepted ++ wire = s.station.accepted ++ s.wire
      rw [hacc, hw, List.append_assoc]
      rfl

theorem rxData_receives (h : s.Inv) (hq : s.station.Feeds q) (times : List ℕ) :
    ∃ s' q', s.rxData times = .ok s' ∧ s'.Inv ∧ s.Receives q s' q' ∧
      RxData.Took q s.station.rx q' s'.station.rx := by
  have hq' : (s.station.line (times.splitLengths s.wire)).Feeds q := hq.congr rfl rfl
  obtain ⟨r, l, q', hl, hfeeds, htook⟩ := RxData.body_took hq' s.station.rx
  have hcarries := RxData.carries_body hl
  have hcoming : (times.splitLengths s.wire).flatten = s.wire.take times.sum :=
    Frames.flatten_splitLengths times s.wire
  have hleft : (s.station.line (times.splitLengths s.wire)).left = (s.wire.take times.sum).length :=
    congrArg List.length hcoming
  have hwire : s.wire.length = (s.wire.take times.sum).length + (s.wire.drop times.sum).length := by
    rw [← List.length_append, List.take_append_drop]
  refine ⟨{ s with
    station := { uart := l.uart, rx := r, accepted := l.accepted }
    wire := l.coming.flatten ++ s.wire.drop times.sum
    arrived := s.wire.length - (l.coming.flatten ++ s.wire.drop times.sum).length }, q', ?_,
    ⟨h.base, h.packet, h.sent⟩, ⟨hfeeds.congr rfl rfl, rfl, Advances.of_took htook, ?_⟩, htook⟩
  · simp only [rxData, hl, ok_bind]
    rfl
  · intro hroom
    have hroom : q.unread.length + (s.wire.length -
        (l.coming.flatten ++ s.wire.drop times.sum).length) ≤ rxBufferSize := hroom
    have hle : l.left ≤ (s.wire.take times.sum).length := hleft ▸ hcarries.1
    have hl' : l.left = l.coming.flatten.length := rfl
    rw [List.length_append] at hroom
    obtain ⟨-, -, -, heq⟩ := hcarries.2 q hq' (by omega)
    show l.accepted ++ (l.coming.flatten ++ s.wire.drop times.sum) = s.station.accepted ++ s.wire
    have heq : l.accepted ++ l.coming.flatten =
        s.station.accepted ++ (times.splitLengths s.wire).flatten := heq
    rw [← List.append_assoc, heq, hcoming, List.append_assoc, List.take_append_drop]

/-! ### In order -/

variable {p₀ : Packet} {i : ℕ}

/-- Everything sent was accepted or is on the way, and the packet of the remote station is the one
that was sent as number `i`, or the initial one if `i` is zero. -/
structure Follows (p₀ : Packet) (s : Link) (q : Tape Byte) (i : ℕ) : Prop where
  feeds : s.station.Feeds q
  stream : s.station.accepted ++ s.wire = s.sent.flatMap Packet.bytes
  backlog : q.unread.length ≤ s.arrived
  shown : (p₀ :: s.sent)[i]? = some s.station.rx.packet
  passed : packetSize * i ≤ q.gone.length

theorem getElem?_append_of_some {α : Type} {l l' : List α} {i : ℕ} {a : α} (h : l[i]? = some a) :
    (l ++ l')[i]? = some a := by
  rw [List.getElem?_append_left (List.getElem?_eq_some_iff.1 h).1]
  exact h

/-- The queue holds what was accepted and has not been read. -/
theorem unread_length (h : s.station.Feeds q) :
    q.unread.length + q.gone.length = s.station.accepted.length := by
  have hacc : q.accepted = s.station.accepted := h.accepted
  rw [← hacc, Tape.accepted, List.length_append, List.length_map, Nat.add_comm]

/-- **A step of the receiving side stays in order.** -/
theorem Follows.receives {q' : Tape Byte} (h : Follows p₀ s q i) (hr : s.Receives q s' q')
    (hroom : q.unread.length + (s.wire.length - s'.wire.length) ≤ rxBufferSize)
    (hsent : ∀ p ∈ s.sent, p.Ranged ∧ p.checksum ≠ packetMagic)
    (hbacklog : q'.unread.length ≤ s'.arrived) : ∃ j, i ≤ j ∧ Follows p₀ s' q' j := by
  have hstream := hr.stream hroom
  have hstream' : s'.station.accepted ++ s'.wire = s'.sent.flatMap Packet.bytes := by
    rw [hstream, h.stream, hr.sent]
  obtain ⟨hgone, hsame | ⟨v, hv, hpacket, htaken, hbytes⟩⟩ := hr.advances
  · refine ⟨i, le_rfl, hr.feeds, hstream', hbacklog, ?_, h.passed.trans hgone⟩
    rw [hr.sent, hsame]
    exact h.shown
  · -- what was read is a packet behind the one shown
    have hk : ∀ r, r < packetSize →
        (s.sent.flatMap Packet.bytes)[q.gone.length + r]? = v.toList[r]? := by
      intro r hr'
      have hv' : v.toList[r]? = some v[r] := Packet.getElem?_bytes ⟨v⟩ hr'
      have hacc : q'.accepted = s'.station.accepted := hr.feeds.accepted
      rw [← hr.sent, ← hstream', ← hacc, hv']
      exact getElem?_append_of_some ((hbytes r hr').trans hv')
    obtain ⟨j, hj, hp⟩ := Packet.mem_of_stretch hsent hv hk
    have hpassed := h.passed
    have hij : i ≤ j := by
      rw [hj] at hpassed
      exact Nat.le_of_mul_le_mul_left hpassed RxData.packetSize_pos
    refine ⟨j + 1, by omega, hr.feeds, hstream', hbacklog, ?_, ?_⟩
    · rw [List.getElem?_cons_succ, hr.sent, hp, hpacket]
    · rw [Nat.mul_succ]
      omega

/-- The arrivals since an activation started are those during it. -/
theorem rxData_arrived {times : List ℕ} (hs : s.rxData times = .ok s') :
    s'.arrived = s.wire.length - s'.wire.length := by
  obtain ⟨⟨rx, line⟩, -, hs'⟩ := bind_ok hs
  obtain rfl := Except.ok.inj hs'
  rfl

theorem deliver_arrived (hs : s.deliver = .ok s') :
    s'.wire = s.wire.tail ∧ s'.arrived + s'.wire.length = s.arrived + s.wire.length := by
  cases hw : s.wire with
  | nil =>
    simp only [deliver, hw] at hs
    obtain rfl := Except.ok.inj hs
    exact ⟨hw, by rw [hw]⟩
  | cons b wire =>
    simp only [deliver, hw] at hs
    obtain ⟨station, -, hs'⟩ := bind_ok hs
    obtain rfl := Except.ok.inj hs'
    refine ⟨rfl, ?_⟩
    simp only [List.length_cons]
    omega

/-- The packets that were sent so far have fields of joysticks, and no checksum that looks like the
start of a packet. -/
def Clear (s : Link) : Prop := ∀ p ∈ s.sent, p.checksum ≠ packetMagic

/-- **One step.**  If at most as many bytes arrive as a packet has, from the start of one activation
to the start of the next, then the remote station stays in order. -/
theorem Follows.handle (h : Follows p₀ s q i) (hinv : s.Inv) (hpace : s.arrived ≤ packetSize)
    (hs : s.handle e = .ok s') (hpace' : s'.arrived ≤ packetSize) (hclear : s'.Clear) :
    s'.Inv ∧ ∃ j q', i ≤ j ∧ Follows p₀ s' q' j := by
  have hback := h.backlog
  have hsize : packetSize = 14 := rfl
  have hbuffer : rxBufferSize = 32 := rfl
  cases e with
  | updatePacket joystick1 joystick2 =>
    obtain ⟨base, hs₁, hinv₁⟩ := updatePacket_eq hinv joystick1 joystick2
    obtain rfl := Except.ok.inj (hs₁.symm.trans hs)
    exact ⟨hinv₁, i, q, le_rfl, h.feeds, h.stream, h.backlog, h.shown, h.passed⟩
  | txData writable =>
    cases writable with
    | false =>
      obtain rfl := Except.ok.inj hs
      exact ⟨hinv, i, q, le_rfl, h⟩
    | true =>
      obtain rfl := Except.ok.inj ((txData_eq hinv).symm.trans hs)
      refine ⟨⟨hinv.base, hinv.packet, ?_⟩, i, q, le_rfl, h.feeds, ?_, h.backlog,
        getElem?_append_of_some h.shown, h.passed⟩
      · intro p hp
        rcases List.mem_append.1 hp with hp | hp
        · exact hinv.sent p hp
        · rw [List.mem_singleton.1 hp]
          exact hinv.packet
      · rw [← List.append_assoc, h.stream, List.flatMap_append, List.flatMap_singleton]
  | deliver =>
    obtain ⟨s₁, q', hs₁, hinv', hr, -⟩ := deliver_receives hinv h.feeds
    obtain rfl := Except.ok.inj (hs₁.symm.trans hs)
    obtain ⟨hwire, harrived⟩ := deliver_arrived hs
    have hroom : q.unread.length + (s.wire.length - s₁.wire.length) ≤ rxBufferSize := by
      rw [hwire, List.length_tail]
      omega
    have hclear' : ∀ p ∈ s.sent, p.Ranged ∧ p.checksum ≠ packetMagic :=
      fun p hp => ⟨hinv.sent p hp, hclear p (hr.sent.symm ▸ hp)⟩
    have hlen := congrArg List.length (hr.stream hroom)
    have hunread := unread_length h.feeds
    have hunread' := unread_length hr.feeds
    have hgone := hr.advances.1
    rw [List.length_append, List.length_append] at hlen
    obtain ⟨j, hij, h'⟩ := h.receives hr hroom hclear' (by omega)
    exact ⟨hinv', j, q', hij, h'⟩
  | rxData times =>
    obtain ⟨s₁, q', hs₁, hinv', hr, htook⟩ := rxData_receives hinv h.feeds times
    obtain rfl := Except.ok.inj (hs₁.symm.trans hs)
    have harrived := rxData_arrived hs
    have hroom : q.unread.length + (s.wire.length - s₁.wire.length) ≤ rxBufferSize := by omega
    have hclear' : ∀ p ∈ s.sent, p.Ranged ∧ p.checksum ≠ packetMagic :=
      fun p hp => ⟨hinv.sent p hp, hclear p (hr.sent.symm ▸ hp)⟩
    have hbacklog : q'.unread.length ≤ s₁.arrived := by
      obtain ⟨hempty, -⟩ | ⟨v, hreads, -⟩ := htook.2
      · rw [hempty]
        exact Nat.zero_le _
      · have hlen := congrArg List.length (hr.stream hroom)
        have hunread := unread_length h.feeds
        have hunread' := unread_length hr.feeds
        have hgone : q'.gone.length = q.gone.length + packetSize := by
          rw [hreads.1, List.length_append, List.length_map, Vector.length_toList]
        rw [List.length_append, List.length_append] at hlen
        omega
    obtain ⟨j, hij, h'⟩ := h.receives hr hroom hclear' hbacklog
    exact ⟨hinv', j, q', hij, h'⟩

/-! ### Runs -/

theorem handle_ok (h : s.Inv) (hq : s.station.Feeds q) (e : LinkEvent) :
    ∃ s' q', s.handle e = .ok s' ∧ s'.Inv ∧ s'.station.Feeds q' := by
  cases e with
  | updatePacket joystick1 joystick2 =>
    obtain ⟨base, hs, hinv⟩ := updatePacket_eq h joystick1 joystick2
    exact ⟨_, q, hs, hinv, hq⟩
  | txData writable =>
    cases writable with
    | false => exact ⟨s, q, rfl, h, hq⟩
    | true =>
      refine ⟨_, q, txData_eq h, ⟨h.base, h.packet, fun p hp => ?_⟩, hq⟩
      rcases List.mem_append.1 hp with hp | hp
      · exact h.sent p hp
      · rw [List.mem_singleton.1 hp]
        exact h.packet
  | deliver =>
    obtain ⟨s', q', hs, hinv, hr, -⟩ := deliver_receives h hq
    exact ⟨s', q', hs, hinv, hr.feeds⟩
  | rxData times =>
    obtain ⟨s', q', hs, hinv, hr, -⟩ := rxData_receives h hq times
    exact ⟨s', q', hs, hinv, hr.feeds⟩

theorem trace_ok (h : s.Inv) (hq : s.station.Feeds q) (es : List LinkEvent) :
    ∃ ts, s.trace es = .ok ts := by
  induction es generalizing s q with
  | nil => exact ⟨[], rfl⟩
  | cons e es ih =>
    obtain ⟨t, q', ht, hinv, hq'⟩ := handle_ok h hq e
    obtain ⟨ts, hts⟩ := ih hinv hq'
    refine ⟨t :: ts, ?_⟩
    simp only [trace, ht, hts, ok_bind]
    rfl

/-- The states of a trace follow from each other. -/
theorem trace_chain {P : Link → Prop} {es : List LinkEvent} {ts : List Link}
    (h : s.trace es = .ok ts) (hP : ∀ t ∈ ts, P t) :
    (s :: ts).IsChain fun s t => (∃ e, s.handle e = .ok t) ∧ P t := by
  induction es generalizing s ts with
  | nil =>
    obtain rfl := Except.ok.inj h
    exact List.isChain_singleton s
  | cons e es ih =>
    obtain ⟨t, ht, h⟩ := bind_ok h
    obtain ⟨ts', hts', h⟩ := bind_ok h
    obtain rfl := Except.ok.inj h
    obtain ⟨hPt, hPts⟩ := List.forall_mem_cons.1 hP
    exact List.isChain_cons_cons.2 ⟨⟨⟨e, ht⟩, hPt⟩, ih hts' hPts⟩

/-- What the two stations start with. -/
theorem start_follows (h : start = .ok s) :
    s.Inv ∧ s.arrived = 0 ∧ s.wire = [] ∧ Follows s.packet s Tape.empty 0 := by
  obtain ⟨base, hbase, h⟩ := bind_ok h
  obtain ⟨station, hstation, h⟩ := bind_ok h
  obtain rfl := Except.ok.inj h
  have hready := Station.start_ready hstation
  have hpacket : station.rx.packet = Packet.ofFields 512 512 0 512 512 0 := by
    obtain ⟨uart, -, hst⟩ := bind_ok hstation
    obtain rfl := Except.ok.inj hst
    rfl
  obtain rfl := Except.ok.inj hbase
  have hkeeps := (Uart.reset_fresh.uartInit hbase).keeps
  refine ⟨⟨⟨_, fun k hk => ?_, hkeeps.holds⟩, ?_, fun p hp => ?_⟩, rfl, rfl, hready.feeds, ?_, ?_,
    ?_, le_rfl⟩
  · obtain rfl : k = 2 := hk
    rfl
  · exact Packet.ranged_ofFields (by decide) (by decide) (by decide) (by decide) (Or.inl rfl)
      (Or.inl rfl)
  · cases hp
  · rw [hready.2.2]
    rfl
  · exact Nat.zero_le _
  · rw [List.getElem?_cons_zero, hpacket]

/-- **In order.**  Whatever the two stations do, and whenever the bytes arrive, no call halts.  If
from the start of one activation of `RXData` to the start of the next at most as many bytes arrive
as a packet has, no byte is lost; and if moreover no packet has the magic number for its checksum,
the remote station always has a packet that was sent, or the initial one, and never an older one
than it had before. -/
theorem in_order (h : start = .ok s) (es : List LinkEvent) :
    ∃ ts, s.trace es = .ok ts ∧ ((∀ t ∈ ts, t.arrived ≤ packetSize ∧ t.Clear) →
      ∃ idx : List ℕ, idx.Pairwise (· ≤ ·) ∧ List.Forall₂ (fun t i =>
        t.station.accepted ++ t.wire = t.sent.flatMap Packet.bytes ∧
          (s.packet :: t.sent)[i]? = some t.station.rx.packet) ts idx) := by
  obtain ⟨hinv, harrived, -, hfollows⟩ := start_follows h
  obtain ⟨ts, hts⟩ := trace_ok hinv hfollows.feeds es
  refine ⟨ts, hts, fun hpaced => ?_⟩
  have hstep : ∀ t t' i, (t.Inv ∧ t.arrived ≤ packetSize ∧ ∃ q, Follows s.packet t q i) →
      ((∃ e, t.handle e = .ok t') ∧ t'.arrived ≤ packetSize ∧ t'.Clear) →
      ∃ j, i ≤ j ∧ t'.Inv ∧ t'.arrived ≤ packetSize ∧ ∃ q, Follows s.packet t' q j := by
    intro t t' i ⟨hinvt, hpacet, q, hf⟩ ⟨⟨e, he⟩, hpace', hclear⟩
    obtain ⟨hinv', j, q', hij, hf'⟩ := hf.handle hinvt hpacet he hpace' hclear
    exact ⟨j, hij, hinv', hpace', q', hf'⟩
  have hplace : s.Inv ∧ s.arrived ≤ packetSize ∧ ∃ q, Follows s.packet s q 0 :=
    ⟨hinv, by rw [harrived]; exact Nat.zero_le _, Tape.empty, hfollows⟩
  obtain ⟨idx, hidx, hsorted⟩ := Frames.exists_indices hstep (trace_chain hts hpaced) hplace
  refine ⟨idx, (List.pairwise_cons.1 hsorted).2, hidx.imp fun t i ht => ?_⟩
  obtain ⟨-, -, q, hf⟩ := ht
  exact ⟨hf.stream, hf.shown⟩

/-- One packet for each activation, the second one while the first one is read. -/
def exchange : List LinkEvent :=
  [.updatePacket ⟨0, 128, 64, 200, 255⟩ ⟨64, 35, 192, 100, 254⟩, .txData true] ++
    List.replicate packetSize .deliver ++ [.txData true, .rxData [3, 0, 4]] ++
    List.replicate 7 .deliver ++ [.rxData []]

theorem in_order_exchange : ∃ s ∈ start.toOption, ∃ ts, s.trace exchange = .ok ts ∧
    ∃ idx : List ℕ, idx.Pairwise (· ≤ ·) ∧ List.Forall₂ (fun t i =>
      t.station.accepted ++ t.wire = t.sent.flatMap Packet.bytes ∧
        (s.packet :: t.sent)[i]? = some t.station.rx.packet) ts idx := by
  apply exists_mem_of_isSome (by decide)
  intro s hs
  rw [toOption_eq_some] at hs
  obtain ⟨ts, hts, hidx⟩ := in_order hs exchange
  refine ⟨ts, hts, hidx fun t ht => ?_⟩
  have hpaced : (start.toOption.bind fun s => (s.trace exchange).toOption.map fun ts =>
      ts.all fun t => t.arrived ≤ packetSize && t.sent.all fun p => p.checksum ≠ packetMagic) =
      some true := by decide +kernel
  rw [hs] at hpaced
  simp only [Except.toOption, Option.bind_some, hts, Option.map_some, Option.some.injEq,
    List.all_eq_true, Bool.and_eq_true, decide_eq_true_eq] at hpaced
  exact hpaced t ht

/-- The first packet has the magic number for its checksum, which arrives when the bytes in front of
it were thrown away. -/
def splitting : List LinkEvent :=
  [.updatePacket ⟨192, 1, 64, 247, 255⟩ ⟨64, 35, 192, 100, 255⟩, .txData true] ++
    List.replicate 12 .deliver ++ [.rxData [],
      .updatePacket ⟨64, 6, 0, 165, 255⟩ ⟨0, 151, 0, 136, 255⟩, .txData true] ++
    List.replicate packetSize .deliver ++ [.rxData []]

/-- **A packet that was never sent.**  With what follows it, the checksum is a valid packet. -/
theorem in_order_phantom : ∃ s ∈ start.toOption, ∃ ts, s.trace splitting = .ok ts ∧
    (∀ t ∈ ts, t.arrived ≤ packetSize) ∧ ∃ t ∈ ts, t.station.rx.packet.joy1X = 0xFEED ∧
      t.station.rx.packet ∉ s.packet :: t.sent := by
  apply exists_mem_of_isSome (by decide)
  intro s hs
  rw [toOption_eq_some] at hs
  obtain ⟨hinv, -, -, hfollows⟩ := start_follows hs
  obtain ⟨ts, hts⟩ := trace_ok hinv hfollows.feeds splitting
  refine ⟨ts, hts, ?_⟩
  have hphantom : (start.toOption.bind fun s => (s.trace splitting).toOption.map fun ts =>
      ts.all (fun t => t.arrived ≤ packetSize) && ts.any fun t =>
        t.station.rx.packet.joy1X = 0xFEED && !(s.packet :: t.sent).contains t.station.rx.packet) =
      some true := by decide +kernel
  rw [hs] at hphantom
  simp only [Except.toOption, Option.bind_some, hts, Option.map_some, Option.some.injEq,
    Bool.and_eq_true, List.all_eq_true, List.any_eq_true, decide_eq_true_eq, Bool.not_eq_true',
    List.contains_eq_mem, decide_eq_false_iff_not] at hphantom
  exact hphantom

/-! ### Back in step -/

def Step (s : Link) (e : LinkEvent) (s' : Link) : Prop := s.handle e = .ok s'

/-- Nothing is sent. -/
def Quiet (s : Link) (e : LinkEvent) (s' : Link) : Prop := s.Step e s' ∧ e ≠ .txData true

/-- An activation finds nothing on the way, and not too many bytes arrive between two of them. -/
def Whole (s : Link) (e : LinkEvent) (s' : Link) : Prop :=
  s.Step e s' ∧ (∀ times, e = .rxData times → s.wire = []) ∧ s'.arrived ≤ packetSize

def isActivation : LinkEvent → Bool
  | .rxData _ => true
  | _ => false

theorem Step.inv (h : s.Inv) (hq : s.station.Feeds q) (hs : s.Step e s') :
    s'.Inv ∧ ∃ q', s'.station.Feeds q' := by
  obtain ⟨s₁, q', hs₁, hinv, hq'⟩ := handle_ok h hq e
  obtain rfl := Except.ok.inj (hs₁.symm.trans hs)
  exact ⟨hinv, q', hq'⟩

/-- Nothing is on the way, and at most `k` bytes have not been read. -/
structure Behind (s : Link) (k : ℕ) : Prop where
  inv : s.Inv
  wire : s.wire = []
  queue : ∃ q, s.station.Feeds q ∧ q.unread.length ≤ k

/-- An activation without arrivals. -/
theorem rxData_quiet (h : s.Inv) (hq : s.station.Feeds q) (hw : s.wire = []) {times : List ℕ}
    (hs : s.rxData times = .ok s') : s'.Inv ∧ s'.wire = [] ∧ s'.sent = s.sent ∧
      ∃ q', s'.station.Feeds q' ∧ (q'.unread = [] ∧ s'.station.rx.packet = s.station.rx.packet ∨
        ∃ v : Vector Byte packetSize, q.unread = v.toList ++ q'.unread ∧
          s'.station.rx.packet = if Packet.Valid v then ⟨v⟩ else s.station.rx.packet) := by
  obtain ⟨s₁, q', hs₁, hinv, hr, hpre, htook⟩ := rxData_receives h hq times
  obtain rfl := Except.ok.inj (hs₁.symm.trans hs)
  have hacc : q.accepted = s.station.accepted := hq.accepted
  have hacc' : q'.accepted = s₁.station.accepted := hr.feeds.accepted
  have hroom : q.unread.length + (s.wire.length - s₁.wire.length) ≤ rxBufferSize := by
    have hle := RingBuffer.Circular.Holds.length_le hq.holds
    rw [hw, List.length_nil, Nat.zero_sub]
    exact hle
  have hstream := hr.stream hroom
  rw [hw, List.append_nil, ← hacc, ← hacc'] at hstream
  obtain ⟨new, hnew⟩ := hpre
  rw [← hnew, List.append_assoc] at hstream
  obtain ⟨hnew', hwire⟩ := List.append_eq_nil_iff.1
    (List.append_cancel_left (hstream.trans (List.append_nil _).symm))
  rw [hnew', List.append_nil] at hnew
  refine ⟨hinv, hwire, hr.sent, q', hr.feeds, htook.imp_right fun ⟨v, hreads, hpacket⟩ => ?_⟩
  refine ⟨v, ?_, hpacket⟩
  rw [hreads.accepted, Tape.accepted, List.append_assoc] at hnew
  exact List.append_cancel_left hnew

/-- Quiet steps leave the queue as it is, or take a packet's length from it, or empty it. -/
theorem Behind.step {k : ℕ} (h : s.Behind k) (hs : s.Quiet e s') :
    s'.Behind (if isActivation e then k - packetSize else k) := by
  obtain ⟨hinv, hw, q, hq, hk⟩ := h
  cases e with
  | updatePacket joystick1 joystick2 =>
    obtain ⟨base, hs₁, hinv₁⟩ := updatePacket_eq hinv joystick1 joystick2
    obtain rfl := Except.ok.inj (hs₁.symm.trans hs.1)
    exact ⟨hinv₁, hw, q, hq, hk⟩
  | txData writable =>
    cases writable with
    | false =>
      obtain rfl := Except.ok.inj hs.1
      exact ⟨hinv, hw, q, hq, hk⟩
    | true => exact absurd rfl hs.2
  | deliver =>
    have hsame : s.handle .deliver = .ok s := by simp only [handle, deliver, hw]; rfl
    obtain rfl := Except.ok.inj (hsame.symm.trans hs.1)
    exact ⟨hinv, hw, q, hq, hk⟩
  | rxData times =>
    obtain ⟨hinv', hw', -, q', hq', ⟨hempty, -⟩ | ⟨v, hread, -⟩⟩ := rxData_quiet hinv hq hw hs.1
    · refine ⟨hinv', hw', q', hq', ?_⟩
      rw [hempty]
      exact Nat.zero_le _
    · have hlen := congrArg List.length hread
      rw [List.length_append, Vector.length_toList] at hlen
      refine ⟨hinv', hw', q', hq', ?_⟩
      show q'.unread.length ≤ k - packetSize
      omega

theorem Behind.run {k : ℕ} {es : List LinkEvent} (h : s.Behind k) (hr : Run Quiet s es s') :
    s'.Behind (k - packetSize * es.countP isActivation) := by
  induction hr with
  | nil => exact h
  | @snoc t u es e _ hs ih =>
    have hstep := ih.step hs
    rw [List.countP_append, List.countP_singleton]
    cases hact : isActivation e with
    | false =>
      rw [hact] at hstep
      exact hstep
    | true =>
      rw [hact] at hstep
      rw [if_pos rfl, Nat.mul_add, Nat.mul_one, ← Nat.sub_sub]
      exact hstep

/-- **Three activations without arrivals empty the queue.** -/
theorem Behind.empty {es : List LinkEvent} (hinv : s.Inv) (hq : s.station.Feeds q)
    (hw : s.wire = []) (hr : Run Quiet s es s') (hes : 3 ≤ es.countP isActivation) :
    s'.Behind 0 := by
  have hle : q.unread.length ≤ rxBufferSize := RingBuffer.Circular.Holds.length_le hq.holds
  obtain ⟨hinv', hw', q', hq', hk⟩ := Behind.run ⟨hinv, hw, q, hq, hle⟩ hr
  have hk : q'.unread.length ≤ 32 - 14 * es.countP isActivation := hk
  exact ⟨hinv', hw', q', hq', by omega⟩

/-- Since `n` packets were sent, all have come whole: those in `pending` have not been read yet, and
the last one before them is the packet of the remote station. -/
structure Current (n : ℕ) (s : Link) (q : Tape Byte) (before pending : List Packet) : Prop where
  inv : s.Inv
  feeds : s.station.Feeds q
  room : q.unread.length ≤ packetSize
  backlog : q.unread.length ≤ s.arrived
  sent : s.sent = before ++ pending
  stream : q.unread ++ s.wire = pending.flatMap Packet.bytes
  since : n ≤ before.length
  shown : n < before.length → before.getLast? = some s.station.rx.packet

variable {n : ℕ} {before pending : List Packet}

/-- An activation that finds a valid packet stores it. -/
theorem rxData_front (hq : s.station.Feeds q) {v : Vector Byte packetSize} {rest : List Byte}
    (hv : Packet.Valid v) (hu : q.unread = v.toList ++ rest) {times : List ℕ}
    (hs : s.rxData times = .ok s') : s'.station.rx.packet = ⟨v⟩ := by
  have hq' : (s.station.line (times.splitLengths s.wire)).Feeds q := hq.congr rfl rfl
  obtain ⟨r, l, q', hl, -, hpacket, -⟩ := RxData.body_front hq' s.station.rx hv hu
  obtain ⟨⟨rx, line⟩, hbody, hs'⟩ := bind_ok hs
  obtain ⟨rfl, rfl⟩ := Prod.mk.inj (Except.ok.inj (hl.symm.trans hbody))
  obtain rfl := Except.ok.inj hs'
  exact hpacket

/-- **Activations catch up.**  What is read is the last packet that was sent. -/
theorem Current.rxData (h : Current n s q before pending) (hw : s.wire = []) {times : List ℕ}
    (hs : s.rxData times = .ok s') : ∃ q', Current n s' q' s.sent [] := by
  obtain ⟨hinv', hw', hsent, q', hq', hcase⟩ := rxData_quiet h.inv h.feeds hw hs
  have hstream := h.stream
  rw [hw, List.append_nil] at hstream
  have hlen := Frames.length_flatMap Packet.length_bytes pending
  have hroom := h.room
  have hsize : packetSize = 14 := rfl
  rw [hstream, hlen, hsize] at hroom
  have hsince : n ≤ s.sent.length := by
    rw [h.sent, List.length_append]
    exact h.since.trans (Nat.le_add_right _ _)
  -- at most one packet can be there, and nothing is left of it
  have hempty : q'.unread = [] := by
    obtain ⟨hempty, -⟩ | ⟨v, hread, -⟩ := hcase
    · exact hempty
    · have hread := congrArg List.length hread
      rw [hstream, hlen, List.length_append, Vector.length_toList] at hread
      have hread : 14 * pending.length = 14 + q'.unread.length := hread
      exact List.eq_nil_of_length_eq_zero (by omega)
  have hlast : n < s.sent.length → s.sent.getLast? = some s'.station.rx.packet := by
    intro hn
    match pending, h with
    | [], h =>
      obtain ⟨-, hpacket⟩ | ⟨v, hread, -⟩ := hcase
      · have hbefore : s.sent = before := by rw [h.sent, List.append_nil]
        rw [hpacket, hbefore]
        exact h.shown (hbefore ▸ hn)
      · have hread := congrArg List.length hread
        rw [hstream, List.flatMap_nil, List.length_append, Vector.length_toList] at hread
        exact absurd hread (by rw [List.length_nil]; omega)
    | [p], h =>
      have hp : p.Ranged := h.inv.sent p (by rw [h.sent]; simp)
      have hfront : q.unread = p.data.toList ++ [] := by
        rw [hstream, List.flatMap_singleton, List.append_nil]
        rfl
      rw [rxData_front h.feeds hp.valid hfront hs, h.sent, List.getLast?_concat]
    | p :: p' :: l, h =>
      simp only [List.length_cons] at hroom
      omega
  refine ⟨q', hinv', hq', ?_, ?_, ?_, ?_, hsince, hlast⟩
  · rw [hempty]
    exact Nat.zero_le _
  · rw [hempty]
    exact Nat.zero_le _
  · rw [hsent, List.append_nil]
  · rw [hempty, hw']
    rfl

theorem Current.step (h : Current n s q before pending) (hs : s.Whole e s') :
    ∃ q' before' pending', Current n s' q' before' pending' := by
  obtain ⟨hs, hwire, hpace⟩ := hs
  cases e with
  | updatePacket joystick1 joystick2 =>
    obtain ⟨base, hs₁, hinv₁⟩ := updatePacket_eq h.inv joystick1 joystick2
    obtain rfl := Except.ok.inj (hs₁.symm.trans hs)
    exact ⟨q, before, pending, hinv₁, h.feeds, h.room, h.backlog, h.sent, h.stream, h.since,
      h.shown⟩
  | txData writable =>
    have hinv' := (Step.inv h.inv h.feeds hs).1
    cases writable with
    | false =>
      obtain rfl := Except.ok.inj hs
      exact ⟨q, before, pending, h⟩
    | true =>
      obtain rfl := Except.ok.inj ((txData_eq h.inv).symm.trans hs)
      refine ⟨q, before, pending ++ [s.packet], hinv', h.feeds, h.room, h.backlog, ?_, ?_, h.since,
        h.shown⟩
      · rw [h.sent, List.append_assoc]
      · rw [← List.append_assoc, h.stream, List.flatMap_append, List.flatMap_singleton]
  | deliver =>
    obtain ⟨s₁, q', hs₁, hinv', hr, hreads, hrx⟩ := deliver_receives h.inv h.feeds
    obtain rfl := Except.ok.inj (hs₁.symm.trans hs)
    obtain ⟨hwire', harrived⟩ := deliver_arrived hs
    have hback := h.backlog
    have hroom := h.room
    have hlen' : s₁.wire.length = s.wire.length - 1 := by rw [hwire', List.length_tail]
    have hsize : packetSize = 14 := rfl
    have hbuffer : rxBufferSize = 32 := rfl
    have hstream := hr.stream (by omega)
    have hacc : q.accepted = s.station.accepted := h.feeds.accepted
    have hacc' : q'.accepted = s₁.station.accepted := hr.feeds.accepted
    have hgone : q'.gone = q.gone := by rw [hreads.1, List.map_nil, List.append_nil]
    rw [← hacc, ← hacc', Tape.accepted, Tape.accepted, hgone, List.append_assoc,
      List.append_assoc] at hstream
    have hunread := List.append_cancel_left hstream
    have hcount := congrArg List.length hunread
    rw [List.length_append, List.length_append] at hcount
    refine ⟨q', before, pending, hinv', hr.feeds, by omega, by omega, ?_, ?_, h.since, ?_⟩
    · rw [hr.sent, h.sent]
    · rw [hunread, h.stream]
    · rw [hrx]
      exact h.shown
  | rxData times =>
    obtain ⟨q', h'⟩ := h.rxData (hwire times rfl) hs
    exact ⟨q', s.sent, [], h'⟩

/-- **Back in step.**  Whatever has happened before, and whatever was lost: after three activations
of `RXData` without anything on the way, and as long as each packet comes whole between two
activations, an activation leaves the packet that was sent last. -/
theorem resync {s₀ s₁ s₂ s₃ : Link} {es₀ es₁ es₂ : List LinkEvent} {times : List ℕ}
    (h₀ : start = .ok s₀) (hr₀ : Run Step s₀ es₀ s) (hw : s.wire = [])
    (hr₁ : Run Quiet s es₁ s₁) (hes : 3 ≤ es₁.countP isActivation)
    (hr₂ : Run Whole s₁ es₂ s₂) (hs : s₂.Whole (.rxData times) s₃)
    (hsent : s₁.sent.length < s₃.sent.length) :
    s₃.sent.getLast? = some s₃.station.rx.packet := by
  obtain ⟨hinv₀, -, -, hfollows⟩ := start_follows h₀
  obtain ⟨hinv, q, hq⟩ := hr₀.invariant (P := fun t => t.Inv ∧ ∃ q, t.station.Feeds q)
    ⟨hinv₀, Tape.empty, hfollows.feeds⟩ fun t e u ⟨hinv, q, hq⟩ hstep => hstep.inv hinv hq
  obtain ⟨hinv₁, hw₁, q₁, hq₁, hempty⟩ := Behind.empty hinv hq hw hr₁ hes
  have hnil : q₁.unread = [] := List.eq_nil_of_length_eq_zero (Nat.le_zero.1 hempty)
  have hcur : Current s₁.sent.length s₁ q₁ s₁.sent [] := by
    refine ⟨hinv₁, hq₁, ?_, ?_, (List.append_nil _).symm, ?_, le_rfl,
      fun hn => absurd hn (lt_irrefl _)⟩
    · rw [hnil]
      exact Nat.zero_le _
    · rw [hnil]
      exact Nat.zero_le _
    · rw [hnil, hw₁]
      rfl
  obtain ⟨q₂, before, pending, hcur₂⟩ := hr₂.invariant
    (P := fun t => ∃ q before pending, Current s₁.sent.length t q before pending)
    ⟨q₁, s₁.sent, [], hcur⟩ fun t e u ⟨q, before, pending, hcur⟩ hstep => hcur.step hstep
  obtain ⟨q₃, hcur₃⟩ := hcur₂.rxData (hs.2.1 times rfl) hs.1
  have hsame : s₃.sent = s₂.sent := by rw [hcur₃.sent, List.append_nil]
  rw [hsame] at hsent ⊢
  exact hcur₃.shown hsent

/-- A step that keeps to a condition. -/
def guarded (g : Link → LinkEvent → Link → Bool) (s : Link) (e : LinkEvent) : Option Link :=
  (s.handle e).toOption.filter fun s' => g s e s'

theorem run_guarded {g : Link → LinkEvent → Link → Bool} {es : List LinkEvent}
    {P : Link → LinkEvent → Link → Prop} (h : Run.exec (guarded g) s es = some s')
    (hg : ∀ t e u, t.Step e u → g t e u = true → P t e u) : Run P s es s' := by
  refine (Run.of_exec h).mono fun t e u hstep => ?_
  obtain ⟨hs, hgu⟩ := Option.filter_eq_some_iff.1 hstep
  exact hg t e u (toOption_eq_some.1 hs) hgu

/-- A packet is torn apart, and the next one comes through. -/
theorem resync_torn : ∃ s₀ s s₁ s₂ s₃ es₀, start = .ok s₀ ∧ Run Step s₀ es₀ s ∧
    Run Quiet s (List.replicate 3 (.rxData [])) s₁ ∧
    Run Whole s₁ ([.updatePacket ⟨0, 128, 64, 200, 255⟩ ⟨64, 35, 192, 100, 254⟩, .txData true] ++
      List.replicate packetSize .deliver) s₂ ∧ s₂.Whole (.rxData []) s₃ ∧
    s₃.sent.getLast? = some s₃.station.rx.packet := by
  have hex : (start.toOption.bind fun s₀ =>
      (Run.exec (guarded fun _ _ _ => true) s₀ ([.txData true] ++ List.replicate 9 .deliver ++
        [.rxData []] ++ List.replicate 5 .deliver)).bind fun s =>
      (Run.exec (guarded fun _ e _ => e ≠ .txData true) s (List.replicate 3 (.rxData []))).bind
        fun s₁ => (Run.exec (guarded fun _ e u => !isActivation e && u.arrived ≤ packetSize) s₁
          ([.updatePacket ⟨0, 128, 64, 200, 255⟩ ⟨64, 35, 192, 100, 254⟩, .txData true] ++
            List.replicate packetSize .deliver)).bind fun s₂ =>
          (guarded (fun t _ u => t.wire.isEmpty && u.arrived ≤ packetSize) s₂ (.rxData [])).filter
            fun s₃ => s.wire.isEmpty && s₁.sent.length < s₃.sent.length).isSome = true := by
    decide +kernel
  obtain ⟨s₃, h⟩ := Option.isSome_iff_exists.1 hex
  obtain ⟨s₀, h₀, h⟩ := Option.bind_eq_some_iff.1 h
  obtain ⟨s, hs, h⟩ := Option.bind_eq_some_iff.1 h
  obtain ⟨s₁, hs₁, h⟩ := Option.bind_eq_some_iff.1 h
  obtain ⟨s₂, hs₂, h⟩ := Option.bind_eq_some_iff.1 h
  obtain ⟨hs₃, hfacts⟩ := Option.filter_eq_some_iff.1 h
  obtain ⟨hstep, hguard⟩ := Option.filter_eq_some_iff.1 hs₃
  simp only [Bool.and_eq_true, List.isEmpty_iff, decide_eq_true_eq] at hfacts hguard
  have hr₀ := run_guarded (P := Step) hs fun t e u ht _ => ht
  have hr₁ := run_guarded (P := Quiet) hs₁ fun t e u ht hg => ⟨ht, of_decide_eq_true hg⟩
  have hr₂ := run_guarded (P := Whole) hs₂ fun t e u ht hg => by
    rw [Bool.and_eq_true, decide_eq_true_eq] at hg
    refine ⟨ht, fun times he => ?_, hg.2⟩
    rw [he] at hg
    exact absurd hg.1 Bool.false_ne_true
  have hwhole : s₂.Whole (.rxData []) s₃ :=
    ⟨toOption_eq_some.1 hstep, fun _ _ => hguard.1, hguard.2⟩
  exact ⟨s₀, s, s₁, s₂, s₃, _, toOption_eq_some.1 h₀, hr₀, hr₁, hr₂, hwhole,
    resync (toOption_eq_some.1 h₀) hr₀ hfacts.1 hr₁ (by decide) hr₂ hwhole hfacts.2⟩

end Link

end RoombaRtos
