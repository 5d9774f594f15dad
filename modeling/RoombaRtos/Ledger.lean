import RoombaRtos.Os

/-!
# The ledger of synchronous messages

What the users of the message calls are promised, stated without the kernel.  The ledger
watches the calls that the tasks make, and from them alone decides what becomes of every
`Msg_Send`.

* `Ledger.receive` — a receiver takes the earliest letter for it that its mask admits, or waits;
* `Ledger.send`, `Ledger.notify`, `Ledger.reply`, `Ledger.terminate` — the other calls;
* `Ledger.observe` — a call of a task, as the ledger sees it;
* `Ledger.ExactlyOnce` — every letter is pending, delivered or dropped, and only one of these;
  deliveries go to the addressee, through a mask that admits the letter, and in the order of
  sending; and a letter is dropped only when its addressee ends;
* `ExactlyOnce.observe` — this is kept by every call.

That the kernel does what the ledger says is proved in `Delivery`.
-/

namespace RoombaRtos

open ListQueue

/-- A message, from the call of `Msg_Send` on. -/
structure Letter where
  /-- The number of letters sent before. -/
  serial : ℕ
  sender : Slot
  receiver : Slot
  /-- How many processes had used the table entry of the receiver before this one. -/
  life : ℕ
  type : MType
  data : Option Addr
  /-- What the variable held when it was sent. -/
  value : Option Word
deriving DecidableEq, Repr

/-- A letter in the hands of a receiver, and the mask it was received with. -/
structure Delivery where
  letter : Letter
  receiver : Slot
  life : ℕ
  mask : Mask
deriving DecidableEq, Repr

/-- What a `Msg_Recv` completed with. -/
inductive Receipt
  | letter (d : Delivery)
  /-- An asynchronous message. -/
  | notice (sender : Slot) (r : Word)
deriving DecidableEq, Repr

/-- A `Msg_Rply` to the sender of a delivered letter. -/
structure Answer where
  delivery : Delivery
  replier : Slot
  life : ℕ
  value : Word
deriving DecidableEq, Repr

structure Ledger where
  /-- All letters, in the order of sending. -/
  sent : List Letter
  pending : List Letter
  delivered : List Delivery
  dropped : List Letter
  life : Slot → ℕ
  /-- The mask of a `Msg_Recv` that has not completed. -/
  wants : Slot → Option Mask
  /-- What the last call of a process received. -/
  got : Slot → Option Receipt
  /-- What the last call of a process sent. -/
  sending : Slot → Option Letter
  /-- The delivered letter that its sender waits for the reply to. -/
  awaiting : Slot → Option Delivery
  /-- The reply to the last call of a process. -/
  replied : Slot → Option Answer
  /-- The process has received a letter of the other and not replied to it since. -/
  owes : Slot → Slot → Bool

namespace Ledger

def empty : Ledger where
  sent := []
  pending := []
  delivered := []
  dropped := []
  life _ := 0
  wants _ := none
  got _ := none
  sending _ := none
  awaiting _ := none
  replied _ := none
  owes _ _ := false

/-! ### What becomes of a letter -/

/-- The letter is for `j`, and `m` admits its type. -/
def meets (j : Slot) (m : Mask) (k : Letter) : Bool :=
  k.receiver == j && maskTestAny m k.type

/-- The process `j` receives the letter `k`, and its sender waits for the reply. -/
def deliver (L : Ledger) (j : Slot) (m : Mask) (k : Letter) : Ledger :=
  let d : Delivery := { letter := k, receiver := j, life := L.life j, mask := m }
  { L with
    pending := L.pending.eraseP (meets j m)
    delivered := L.delivered ++ [d]
    wants := Function.update L.wants j none
    got := Function.update L.got j (some (.letter d))
    awaiting := Function.update L.awaiting k.sender (some d)
    owes := Function.update L.owes j (Function.update (L.owes j) k.sender true) }

/-- A `Msg_Recv`: the earliest pending letter that the mask admits, or a wait for one. -/
def receive (L : Ledger) (j : Slot) (m : Mask) : Ledger :=
  match L.pending.find? (meets j m) with
  | some k => L.deliver j m k
  | none => { L with wants := Function.update L.wants j (some m) }

/-- A `Msg_Recv` that waits is tried again. -/
def settle (L : Ledger) (j : Slot) : Ledger :=
  match L.wants j with
  | some m => L.receive j m
  | none => L

theorem receive_found {L : Ledger} {j : Slot} {m : Mask} {k : Letter}
    (hf : L.pending.find? (meets j m) = some k) : L.receive j m = L.deliver j m k := by
  simp only [receive, hf]

theorem receive_none {L : Ledger} {j : Slot} {m : Mask}
    (hf : L.pending.find? (meets j m) = none) :
    L.receive j m = { L with wants := Function.update L.wants j (some m) } := by
  simp only [receive, hf]

theorem settle_waiting {L : Ledger} {j : Slot} {m : Mask} (hw : L.wants j = some m) :
    L.settle j = L.receive j m := by
  simp only [settle, hw]

theorem settle_idle {L : Ledger} {j : Slot} (hw : L.wants j = none) : L.settle j = L := by
  simp only [settle, hw]

/-- The next letter. -/
def letter (L : Ledger) (i j : Slot) (t : MType) (v : Option Addr) (w : Option Word) : Letter :=
  { serial := L.sent.length, sender := i, receiver := j, life := L.life j, type := t, data := v,
    value := w }

def record (L : Ledger) (k : Letter) : Ledger :=
  { L with
    sent := L.sent ++ [k]
    pending := L.pending ++ [k]
    sending := Function.update L.sending k.sender (some k) }

def send (L : Ledger) (i j : Slot) (t : MType) (v : Option Addr) (w : Option Word) : Ledger :=
  (L.record (L.letter i j t v w)).settle j

/-- An asynchronous message reaches a `Msg_Recv` that waits, and nobody else. -/
def notify (L : Ledger) (i j : Slot) (t : MType) (r : Word) : Ledger :=
  match L.wants j with
  | some m =>
      if maskTestAny m t then
        { L with
          wants := Function.update L.wants j none
          got := Function.update L.got j (some (.notice i r)) }
      else L
  | none => L

/-- The message reaches the process that waits for it, or nothing happens. -/
theorem notify_cases (L : Ledger) (i j : Slot) (t : MType) (r : Word) :
    L.notify i j t r = L ∨ L.notify i j t r = { L with
      wants := Function.update L.wants j none
      got := Function.update L.got j (some (.notice i r)) } := by
  rw [notify]
  cases L.wants j with
  | none => exact Or.inl rfl
  | some m =>
    cases ht : maskTestAny m t with
    | true => exact Or.inr (by simp only [ht, if_true])
    | false => exact Or.inl (by simp [ht])

/-- Only who waits for what, and what the receiver got, can change. -/
theorem notify_frame (L : Ledger) (i j : Slot) (t : MType) (r : Word) :
    ∃ w g, L.notify i j t r = { L with wants := w, got := g } := by
  rcases L.notify_cases i j t r with he | he
  · exact ⟨L.wants, L.got, he⟩
  · exact ⟨_, _, he⟩

/-- The process `i` no longer owes `j` a reply. -/
def clear (L : Ledger) (i j : Slot) : Ledger :=
  { L with owes := Function.update L.owes i (Function.update (L.owes i) j false) }

/-- The process `j`, if it waits for a reply, gets that of `i`. -/
def reply (L : Ledger) (i j : Slot) (r : Word) : Ledger :=
  match L.awaiting j with
  | some d =>
      { L.clear i j with
        awaiting := Function.update L.awaiting j none
        replied := Function.update L.replied j
          (some { delivery := d, replier := i, life := L.life i, value := r }) }
  | none => L.clear i j

/-- The process `i` ends, and the letters to it are dropped. -/
def terminate (L : Ledger) (i : Slot) : Ledger :=
  { L with
    pending := L.pending.filter fun k => k.receiver != i
    dropped := L.dropped ++ L.pending.filter fun k => k.receiver == i
    life := Function.update L.life i (L.life i + 1)
    owes := Function.update L.owes i fun _ => false }

theorem terminate_perm (L : Ledger) (i : Slot) :
    ((L.terminate i).pending ++ (L.terminate i).dropped).Perm (L.pending ++ L.dropped) := by
  have hsplit : (L.pending.filter (fun k => k.receiver == i) ++
      L.pending.filter fun k => k.receiver != i).Perm L.pending :=
    List.filter_append_perm _ _
  show (L.pending.filter (fun k => k.receiver != i) ++
    (L.dropped ++ L.pending.filter fun k => k.receiver == i)).Perm _
  apply (List.perm_append_comm.append_left _).trans
  rw [← List.append_assoc]
  exact (List.perm_append_comm.trans hsplit).append_right _

/-! ### Watching the calls -/

/-- A new call: what the last one brought is over. -/
def begin (L : Ledger) (i : Slot) : Ledger :=
  { L with
    got := Function.update L.got i none
    sending := Function.update L.sending i none
    replied := Function.update L.replied i none }

/-- The process `i` makes the call `c` while the processes in `live` exist and the user
variables hold `mem`. -/
def observe (L : Ledger) (i : Slot) (live : Slot → Bool) (mem : Addr → Word) (c : ApiCall) :
    Ledger :=
  match c with
  | .msgSend id t v =>
      match (validId id).filter live with
      | some j => (L.begin i).send i j t v (v.map mem)
      | none => L.begin i
  | .msgRecv m _ => (L.begin i).receive i m
  | .msgRply id r =>
      match (validId id).filter live with
      | some j => (L.begin i).reply i j r
      | none => L.begin i
  | .msgASend id t r =>
      match (validId id).filter live with
      | some j => (L.begin i).notify i j t r
      | none => L.begin i
  | .taskTerminate => (L.begin i).terminate i
  | _ => L.begin i

section Addressed

variable (L : Ledger) (i : Slot) (live : Slot → Bool) (mem : Addr → Word) (id : Pid) (t : MType)
  (r : Word) (v : Option Addr)

/-- What a call to another process does depends on whether this one is alive. -/
theorem observe_msgSend : L.observe i live mem (.msgSend id t v) =
    ((validId id).filter live).elim (L.begin i) fun j => (L.begin i).send i j t v (v.map mem) := by
  show (match (validId id).filter live with
    | some j => (L.begin i).send i j t v (v.map mem)
    | none => L.begin i) = _
  cases (validId id).filter live <;> rfl

theorem observe_msgRply : L.observe i live mem (.msgRply id r) =
    ((validId id).filter live).elim (L.begin i) fun j => (L.begin i).reply i j r := by
  show (match (validId id).filter live with
    | some j => (L.begin i).reply i j r
    | none => L.begin i) = _
  cases (validId id).filter live <;> rfl

theorem observe_msgASend : L.observe i live mem (.msgASend id t r) =
    ((validId id).filter live).elim (L.begin i) fun j => (L.begin i).notify i j t r := by
  show (match (validId id).filter live with
    | some j => (L.begin i).notify i j t r
    | none => L.begin i) = _
  cases (validId id).filter live <;> rfl

end Addressed

/-- What holds before every call and after every record, receipt and termination holds after
the call. -/
theorem observe_induction {P : Ledger → Prop} {L : Ledger} (i : Slot) (live : Slot → Bool)
    (mem : Addr → Word) (c : ApiCall) (hbegin : P (L.begin i))
    (hsend : ∀ id t v j, c = .msgSend id t v → (validId id).filter live = some j →
      P ((L.begin i).send i j t v (v.map mem)))
    (hrecv : ∀ m v, c = .msgRecv m v → P ((L.begin i).receive i m))
    (hreply : ∀ id r j, c = .msgRply id r → (validId id).filter live = some j →
      P ((L.begin i).reply i j r))
    (hasend : ∀ id t r j, c = .msgASend id t r → (validId id).filter live = some j →
      P ((L.begin i).notify i j t r))
    (hterminate : c = .taskTerminate → P ((L.begin i).terminate i)) :
    P (L.observe i live mem c) := by
  cases c with
  | osAbort error => exact hbegin
  | taskCreateSystem f arg => exact hbegin
  | taskCreateRR f arg => exact hbegin
  | taskCreatePeriod f arg period wcet offset => exact hbegin
  | taskNext => exact hbegin
  | taskGetArg => exact hbegin
  | taskPid => exact hbegin
  | taskTerminate => exact hterminate rfl
  | msgSend id t v =>
    rw [observe_msgSend]
    cases hj : (validId id).filter live with
    | none => exact hbegin
    | some j => exact hsend id t v j rfl hj
  | msgRecv m v => exact hrecv m v rfl
  | msgRply id r =>
    rw [observe_msgRply]
    cases hj : (validId id).filter live with
    | none => exact hbegin
    | some j => exact hreply id r j rfl hj
  | msgASend id t r =>
    rw [observe_msgASend]
    cases hj : (validId id).filter live with
    | none => exact hbegin
    | some j => exact hasend id t r j rfl hj
  | now => exact hbegin

/-! ### Exactly once, in the order of sending -/

structure ExactlyOnce (L : Ledger) : Prop where
  /-- Letters are numbered in the order of sending. -/
  serial : L.sent.map Letter.serial = List.range L.sent.length
  /-- A letter is pending, delivered or dropped, and only once one of these. -/
  once : (L.pending ++ L.delivered.map Delivery.letter ++ L.dropped).Perm L.sent
  order : L.pending.Pairwise fun k k' => k.serial < k'.serial
  /-- The addressee of a pending letter has not ended. -/
  pending : ∀ k ∈ L.pending, k.life = L.life k.receiver
  /-- The addressee of a dropped letter has ended. -/
  dropped : ∀ k ∈ L.dropped, k.life < L.life k.receiver
  /-- A letter is received by its addressee, with a mask that admits its type. -/
  addressee : ∀ d ∈ L.delivered, d.letter.receiver = d.receiver ∧ d.letter.life = d.life ∧
    maskTestAny d.mask d.letter.type = true
  /-- When a letter was received, every earlier one that its receiver could have taken with
  the same mask had been received before. -/
  fifo : ∀ l₁ d l₂, L.delivered = l₁ ++ d :: l₂ → ∀ k ∈ L.sent, k.serial < d.letter.serial →
    k.receiver = d.receiver → k.life = d.life → maskTestAny d.mask k.type = true →
    k ∈ l₁.map Delivery.letter

namespace ExactlyOnce

variable {L L' : Ledger} {i j : Slot} {m : Mask} {k : Letter} {c : ApiCall}

theorem empty : Ledger.empty.ExactlyOnce :=
  ⟨rfl, List.Perm.refl _, List.Pairwise.nil, by simp [Ledger.empty], by simp [Ledger.empty],
    by simp [Ledger.empty], by simp [Ledger.empty]⟩

/-- Only the letters and the lives matter. -/
theorem congr (h : L.ExactlyOnce) (hs : L'.sent = L.sent) (hp : L'.pending = L.pending)
    (hd : L'.delivered = L.delivered) (hx : L'.dropped = L.dropped) (hl : L'.life = L.life) :
    L'.ExactlyOnce := by
  refine ⟨?_, ?_, ?_, ?_, ?_, ?_, ?_⟩
  · rw [hs]; exact h.serial
  · rw [hs, hp, hd, hx]; exact h.once
  · rw [hp]; exact h.order
  · rw [hp, hl]; exact h.pending
  · rw [hx, hl]; exact h.dropped
  · rw [hd]; exact h.addressee
  · rw [hs, hd]; exact h.fifo

theorem mem_sent (h : L.ExactlyOnce) : k ∈ L.sent ↔
    k ∈ L.pending ∨ k ∈ L.delivered.map Delivery.letter ∨ k ∈ L.dropped := by
  rw [← h.once.mem_iff, List.mem_append, List.mem_append, or_assoc]

theorem serial_lt (h : L.ExactlyOnce) (hk : k ∈ L.sent) : k.serial < L.sent.length := by
  have hmem : k.serial ∈ List.range L.sent.length := by
    rw [← h.serial]
    exact List.mem_map_of_mem hk
  exact List.mem_range.1 hmem

/-- A new letter comes behind all others. -/
theorem record (h : L.ExactlyOnce) (hs : k.serial = L.sent.length)
    (hl : k.life = L.life k.receiver) : (L.record k).ExactlyOnce := by
  refine ⟨?_, ?_, ?_, ?_, h.dropped, h.addressee, ?_⟩
  · show (L.sent ++ [k]).map Letter.serial = List.range (L.sent ++ [k]).length
    rw [List.map_append, h.serial, List.length_append, List.length_singleton, List.range_succ,
      List.map_singleton, hs]
  · show (L.pending ++ [k] ++ L.delivered.map Delivery.letter ++ L.dropped).Perm (L.sent ++ [k])
    have hmove : (L.pending ++ [k] ++ L.delivered.map Delivery.letter ++ L.dropped).Perm
        (k :: (L.pending ++ L.delivered.map Delivery.letter ++ L.dropped)) := by
      simp only [List.append_assoc, List.singleton_append]
      exact List.perm_middle
    exact (hmove.trans (h.once.cons k)).trans (List.perm_append_singleton k L.sent).symm
  · show (L.pending ++ [k]).Pairwise _
    refine List.pairwise_append.2 ⟨h.order, List.pairwise_singleton _ k, ?_⟩
    intro k₁ hk₁ k₂ hk₂
    rw [List.mem_singleton.1 hk₂, hs]
    exact h.serial_lt (h.mem_sent.2 (Or.inl hk₁))
  · intro k' hk'
    rcases List.mem_append.1 hk' with hk' | hk'
    · exact h.pending k' hk'
    · rw [List.mem_singleton.1 hk']
      exact hl
  · intro l₁ d l₂ hd k' hk' hlt
    rcases List.mem_append.1 hk' with hk' | hk'
    · exact h.fifo l₁ d l₂ hd k' hk' hlt
    · -- the new letter is not earlier than a delivered one
      have hmem : d.letter ∈ L.sent := by
        have hdel : d ∈ L.delivered := by
          rw [show L.delivered = l₁ ++ d :: l₂ from hd]
          simp
        exact h.mem_sent.2 (Or.inr (Or.inl (List.mem_map_of_mem hdel)))
      have hbound := h.serial_lt hmem
      rw [List.mem_singleton.1 hk', hs] at hlt
      omega

/-- **The earliest letter is delivered.** -/
theorem deliver (h : L.ExactlyOnce) (hf : L.pending.find? (meets j m) = some k) :
    (L.deliver j m k).ExactlyOnce := by
  obtain ⟨hk, l₁, l₂, hp, hl₁⟩ := List.find?_eq_some_iff_append.1 hf
  have herase : L.pending.eraseP (meets j m) = l₁ ++ l₂ := by
    rw [hp, List.eraseP_append_right _ (by simpa using hl₁), List.eraseP_cons_of_pos hk]
  have hmem : k ∈ L.pending := List.mem_of_find?_eq_some hf
  obtain ⟨hrecv, hmask⟩ : k.receiver = j ∧ maskTestAny m k.type = true := by
    rw [meets, Bool.and_eq_true, beq_iff_eq] at hk
    exact hk
  have hlife : k.life = L.life j := by
    rw [h.pending k hmem, hrecv]
  set d : Delivery := { letter := k, receiver := j, life := L.life j, mask := m } with hd
  have hdelivered : (L.deliver j m k).delivered = L.delivered ++ [d] := rfl
  have hpending : (L.deliver j m k).pending = l₁ ++ l₂ := herase
  have hsub : (l₁ ++ l₂).Sublist L.pending := by
    rw [hp]
    exact (List.Sublist.refl l₁).append (List.sublist_cons_self k l₂)
  refine ⟨h.serial, ?_, ?_, ?_, h.dropped, ?_, ?_⟩
  · rw [hdelivered, hpending]
    have hmove : (l₁ ++ l₂ ++ (L.delivered ++ [d]).map Delivery.letter ++ L.dropped).Perm
        (L.pending ++ L.delivered.map Delivery.letter ++ L.dropped) := by
      rw [hp, List.map_append, List.map_singleton]
      refine List.Perm.append_right _ ?_
      calc (l₁ ++ l₂ ++ (L.delivered.map Delivery.letter ++ [k])).Perm
            (k :: (l₁ ++ l₂ ++ L.delivered.map Delivery.letter)) := by
              rw [← List.append_assoc]
              exact List.perm_append_singleton k _
        _ = k :: (l₁ ++ (l₂ ++ L.delivered.map Delivery.letter)) := by rw [List.append_assoc]
        List.Perm _ (l₁ ++ k :: (l₂ ++ L.delivered.map Delivery.letter)) := List.perm_middle.symm
        _ = l₁ ++ k :: l₂ ++ L.delivered.map Delivery.letter := by simp
    exact hmove.trans h.once
  · rw [hpending]
    exact h.order.sublist hsub
  · intro k' hk'
    rw [hpending] at hk'
    exact h.pending k' (hsub.subset hk')
  · intro d' hd'
    rw [hdelivered] at hd'
    rcases List.mem_append.1 hd' with hd' | hd'
    · exact h.addressee d' hd'
    · rw [List.mem_singleton.1 hd']
      exact ⟨hrecv, hlife, hmask⟩
  · intro r₁ d' r₂ hr k' hk' hlt hrecv' hlife' hmask'
    rw [hdelivered] at hr
    rcases List.eq_nil_or_concat r₂ with rfl | ⟨r, x, rfl⟩
    · -- the letter just delivered: an earlier one would have been found first
      have hlast := List.append_inj' hr rfl
      obtain ⟨rfl, hdd⟩ := hlast
      have hdd' : d = d' := by simpa using hdd
      subst hdd'
      rcases h.mem_sent.1 hk' with hpend | hdel | hdrop
      · exfalso
        have hmeets : meets j m k' = true := by
          rw [meets, Bool.and_eq_true, beq_iff_eq]
          exact ⟨hrecv', hmask'⟩
        have horder := h.order
        rw [hp] at hpend horder
        rcases List.mem_append.1 hpend with hin | hin
        · exact absurd hmeets (by simpa using hl₁ k' hin)
        · rcases List.mem_cons.1 hin with rfl | hin
          · exact lt_irrefl _ hlt
          · have hlt' := (List.pairwise_cons.1 (List.pairwise_append.1 horder).2.1).1 k' hin
            exact lt_asymm hlt hlt'
      · exact hdel
      · exfalso
        have hend := h.dropped k' hdrop
        rw [hrecv', hlife'] at hend
        exact lt_irrefl _ hend
    · -- an earlier delivery
      rw [List.concat_eq_append, ← List.cons_append, ← List.append_assoc] at hr
      obtain ⟨hinit, -⟩ := List.append_inj' hr rfl
      exact h.fifo r₁ d' r hinit k' hk' hlt hrecv' hlife' hmask'

theorem receive (h : L.ExactlyOnce) (j : Slot) (m : Mask) : (L.receive j m).ExactlyOnce := by
  rw [Ledger.receive]
  cases hf : L.pending.find? (meets j m) with
  | some k => exact h.deliver hf
  | none => exact h.congr rfl rfl rfl rfl rfl

theorem settle (h : L.ExactlyOnce) (j : Slot) : (L.settle j).ExactlyOnce := by
  rw [Ledger.settle]
  cases L.wants j with
  | some m => exact h.receive j m
  | none => exact h

theorem send (h : L.ExactlyOnce) (i j : Slot) (t : MType) (v : Option Addr) (w : Option Word) :
    (L.send i j t v w).ExactlyOnce :=
  (h.record rfl rfl).settle j

theorem terminate (h : L.ExactlyOnce) (i : Slot) : (L.terminate i).ExactlyOnce := by
  have hlife : ∀ k : Letter, k.receiver ≠ i →
      (L.terminate i).life k.receiver = L.life k.receiver :=
    fun k hk => Function.update_of_ne hk _ _
  have hlife' : (L.terminate i).life i = L.life i + 1 := Function.update_self _ _ _
  refine ⟨h.serial, ?_, h.order.filter _, ?_, ?_, h.addressee, h.fifo⟩
  · have hmove : ∀ p d x : List Letter, (p ++ d ++ x).Perm (d ++ (p ++ x)) := by
      intro p d x
      rw [← List.append_assoc]
      exact List.perm_append_comm.append_right x
    exact ((hmove _ _ _).trans ((L.terminate_perm i).append_left _)).trans
      ((hmove _ _ _).symm.trans h.once)
  · intro k hk
    obtain ⟨hmem, hne⟩ := List.mem_filter.1 hk
    rw [hlife k (by simpa using hne)]
    exact h.pending k hmem
  · intro k hk
    by_cases hki : k.receiver = i
    · rw [hki, hlife']
      rcases List.mem_append.1 hk with hk | hk
      · have hlt := h.dropped k hk
        rw [hki] at hlt
        omega
      · have heq := h.pending k (List.mem_filter.1 hk).1
        rw [hki] at heq
        omega
    · rw [hlife k hki]
      rcases List.mem_append.1 hk with hk | hk
      · exact h.dropped k hk
      · exact absurd (by simpa using (List.mem_filter.1 hk).2) hki

/-- **Every call keeps the promise.** -/
theorem observe (h : L.ExactlyOnce) (i : Slot) (live : Slot → Bool) (mem : Addr → Word)
    (c : ApiCall) : (L.observe i live mem c).ExactlyOnce := by
  have hb : (L.begin i).ExactlyOnce := h.congr rfl rfl rfl rfl rfl
  apply observe_induction i live mem c hb
  · exact fun _ t v j _ _ => hb.send i j t v _
  · exact fun m _ _ => hb.receive i m
  · intro id r j _ _
    rw [Ledger.reply]
    cases (L.begin i).awaiting j with
    | some d => exact hb.congr rfl rfl rfl rfl rfl
    | none => exact hb.congr rfl rfl rfl rfl rfl
  · intro id t r j _ _
    obtain ⟨w, g, he⟩ := (L.begin i).notify_frame i j t r
    rw [he]
    exact hb.congr rfl rfl rfl rfl rfl
  · exact fun _ => hb.terminate i

end ExactlyOnce

/-! ### A `Msg_Recv` until it returns -/

/-- The receipt is one of the process `i` for a `Msg_Recv` with mask `m`. -/
def Came (L : Ledger) (i : Slot) (m : Mask) : Receipt → Prop
  | .letter d => d ∈ L.delivered ∧ d.receiver = i ∧ d.life = L.life i ∧ d.mask = m
  | .notice _ _ => True

/-- The process `i` is inside a `Msg_Recv` with mask `m`: it waits, or it has its receipt. -/
def Receiving (L : Ledger) (i : Slot) (m : Mask) : Prop :=
  L.wants i = some m ∨ L.wants i = none ∧ ∃ q, L.got i = some q ∧ L.Came i m q

namespace Receiving

variable {L L' : Ledger} {i j l : Slot} {m m' : Mask} {k : Letter}

theorem congr (h : L.Receiving l m) (hw : L'.wants l = L.wants l) (hg : L'.got l = L.got l)
    (hd : ∀ d ∈ L.delivered, d ∈ L'.delivered) (hl : L'.life l = L.life l) :
    L'.Receiving l m := by
  rcases h with h | ⟨hnone, q, hq, hc⟩
  · exact Or.inl (hw.trans h)
  · refine Or.inr ⟨hw.trans hnone, q, hg.trans hq, ?_⟩
    cases q with
    | notice j r => trivial
    | letter d =>
      obtain ⟨hmem, hrecv, hlife, hmask⟩ := hc
      exact ⟨hd d hmem, hrecv, hlife.trans hl.symm, hmask⟩

/-- The receiver of a delivery has its receipt. -/
theorem deliver (L : Ledger) (j : Slot) (m : Mask) (k : Letter) :
    (L.deliver j m k).Receiving j m := by
  refine Or.inr ⟨Function.update_self _ _ _, _, Function.update_self _ _ _, ?_⟩
  exact ⟨List.mem_append_right _ (List.mem_singleton_self _), rfl, rfl, rfl⟩

theorem receive (L : Ledger) (j : Slot) (m : Mask) : (L.receive j m).Receiving j m := by
  cases hf : L.pending.find? (meets j m) with
  | some k =>
    rw [receive_found hf]
    exact deliver L j m k
  | none =>
    rw [receive_none hf]
    exact Or.inl (Function.update_self _ _ _)

theorem receive_other (h : L.Receiving l m) (hl : l ≠ j) : (L.receive j m').Receiving l m := by
  cases hf : L.pending.find? (meets j m') with
  | some k =>
    rw [receive_found hf]
    exact h.congr (Function.update_of_ne hl _ _) (Function.update_of_ne hl _ _)
      (fun d hd => List.mem_append_left _ hd) rfl
  | none =>
    rw [receive_none hf]
    exact h.congr (Function.update_of_ne hl _ _) rfl (fun _ hd => hd) rfl

theorem settle (h : L.Receiving l m) (j : Slot) : (L.settle j).Receiving l m := by
  cases hw : L.wants j with
  | none =>
    rw [settle_idle hw]
    exact h
  | some m' =>
    rw [settle_waiting hw]
    by_cases hlj : l = j
    · subst hlj
      rcases h with h | ⟨hnone, -⟩
      · obtain rfl : m' = m := Option.some.inj (hw.symm.trans h)
        exact receive L l m'
      · rw [hw] at hnone
        cases hnone
    · exact h.receive_other hlj

theorem notify (h : L.Receiving l m) (i j : Slot) (t : MType) (r : Word) :
    (L.notify i j t r).Receiving l m := by
  rcases L.notify_cases i j t r with he | he
  · rw [he]
    exact h
  · rw [he]
    by_cases hlj : l = j
    · subst hlj
      exact Or.inr ⟨Function.update_self _ _ _, _, Function.update_self _ _ _, trivial⟩
    · exact h.congr (Function.update_of_ne hlj _ _) (Function.update_of_ne hlj _ _)
        (fun _ hd => hd) rfl

theorem reply (h : L.Receiving l m) (i j : Slot) (r : Word) :
    (L.reply i j r).Receiving l m := by
  rw [Ledger.reply]
  cases L.awaiting j with
  | some d => exact h.congr rfl rfl (fun _ hd => hd) rfl
  | none => exact h.congr rfl rfl (fun _ hd => hd) rfl

/-- Calls of others never take a receipt away. -/
theorem observe_other (h : L.Receiving l m) (hl : l ≠ i) (live : Slot → Bool)
    (mem : Addr → Word) (c : ApiCall) : (L.observe i live mem c).Receiving l m := by
  have hb : (L.begin i).Receiving l m :=
    h.congr rfl (Function.update_of_ne hl _ _) (fun _ hd => hd) rfl
  refine observe_induction (P := fun L => L.Receiving l m) i live mem c hb ?_ ?_ ?_ ?_ ?_
  · intro id t v j _ _
    have hr : ((L.begin i).record ((L.begin i).letter i j t v (v.map mem))).Receiving l m :=
      hb.congr rfl rfl (fun _ hd => hd) rfl
    exact hr.settle j
  · exact fun m' _ _ => hb.receive_other hl
  · exact fun _ r j _ _ => hb.reply i j r
  · exact fun _ t r j _ _ => hb.notify i j t r
  · exact fun _ => hb.congr rfl rfl (fun _ hd => hd) (Function.update_of_ne hl _ _)

end Receiving

end Ledger

end RoombaRtos
