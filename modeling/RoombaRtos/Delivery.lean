import RoombaRtos.Mailboxes
import RoombaRtos.Ledger

/-!
# Exactly-once delivery in the order of sending

The kernel delivers messages along two paths: straight into the parameter block of a receiver
that waits, or through the message queue.  Both together are what the ledger says.

* `Agrees x L` — the exchange `x` has done what the ledger `L` demands: who is blocked and how,
  which messages are queued, and what the parameter blocks of the receivers hold;
* `Agrees.call` — every call keeps the agreement;
* `Tracked` — the machine in user mode together with the ledger of its calls;
* `exactly_once_fifo` — in every run the ledger is in order, and every `Msg_Recv` that completes
  yields what the ledger says.
-/

namespace RoombaRtos

open ListQueue Lockstep Exchange

/-- The letter as the kernel keeps it. -/
def Letter.mail (k : Letter) : Mail :=
  { data := k.data, mask := k.type, sender := pidOf k.sender, receiver := pidOf k.receiver }

/-- What a completed `Msg_Recv` finds in its parameter block. -/
def Receipt.Matches : Receipt → Slip → Prop
  | .letter d, s => s.outPid = pidOf d.letter.sender ∧ s.msgPtrData = d.letter.data
  | .notice j r, s => s.outPid = pidOf j ∧ s.msgPtrData = none ∧ s.msgData = r

/-- The exchange is where the ledger says. -/
structure Agrees (x : Exchange) (L : Ledger) : Prop where
  /-- Letters of type `0` can never be received, and nothing is said about them. -/
  mail : x.mail.filter (fun m => m.mask != 0) =
    (L.pending.filter fun k => k.type != 0).map Letter.mail
  senders : ((L.pending ++ L.dropped).map Letter.sender).Nodup
  sendBlock : ∀ i, x.phase i = .sendBlock ↔ ∃ k ∈ L.pending ++ L.dropped, k.sender = i
  replyBlock : ∀ i, x.phase i = .replyBlock ↔ ∃ d, L.awaiting i = some d
  recvBlock : ∀ i, x.phase i = .recvBlock ↔ ∃ m, L.wants i = some m
  mask : ∀ i m, L.wants i = some m → (x.slip i).msgMask = m
  got : ∀ i q, L.got i = some q → q.Matches (x.slip i)
  replied : ∀ i a, L.replied i = some a → (x.slip i).msgData = a.value
  silent : ∀ i, x.phase i ≠ .active → L.got i = none ∧ L.replied i = none

namespace Agrees

variable {x : Exchange} {L : Ledger} {i j : Slot} {m : Mask} {k : Letter} {c : ApiCall}

theorem wanted_mail (i : Slot) (m : Mask) (k : Letter) :
    wanted i m k.mail = Ledger.meets i m k := by
  have hpid : (pidOf k.receiver == pidOf i) = (k.receiver == i) := by
    rw [Bool.eq_iff_iff, beq_iff_eq, beq_iff_eq]
    exact pidOf_injective.eq_iff
  show (pidOf k.receiver == pidOf i && maskTestAny m k.type) = _
  rw [hpid]
  rfl

theorem typed_of_wanted {m : Mask} (l : Mail) (h : wanted i m l = true) : (l.mask != 0) = true :=
  bne_iff_ne.2 (ne_zero_of_maskTestAny (wanted_iff.1 h).2)

theorem typed_of_meets {m : Mask} (k : Letter) (h : Ledger.meets i m k = true) :
    (k.type != 0) = true := by
  rw [← wanted_mail] at h
  exact typed_of_wanted _ h

/-- The queue and the ledger find the same letter. -/
theorem find (h : Agrees x L) (i : Slot) (m : Mask) :
    x.mail.find? (wanted i m) = (L.pending.find? (Ledger.meets i m)).map Letter.mail := by
  have hcomp : (wanted i m ∘ Letter.mail) = Ledger.meets i m := by
    funext k
    exact wanted_mail i m k
  rw [← find?_filter_of_imp (fun l => typed_of_wanted l) x.mail, h.mail, List.find?_map, hcomp,
    find?_filter_of_imp fun k => typed_of_meets k]

/-- When the queue and the ledger take the letter they found, they agree on the rest. -/
theorem erase (h : Agrees x L) (i : Slot) (m : Mask) :
    (x.mail.eraseP (wanted i m)).filter (fun m => m.mask != 0) =
      ((L.pending.eraseP (Ledger.meets i m)).filter fun k => k.type != 0).map Letter.mail := by
  have hcomp : (wanted i m ∘ Letter.mail) = Ledger.meets i m := by
    funext k
    exact wanted_mail i m k
  rw [← eraseP_filter_of_imp (fun l => typed_of_wanted l) x.mail, h.mail, List.eraseP_map, hcomp,
    eraseP_filter_of_imp fun k => typed_of_meets k]

/-- Only a process that the ledger says nothing of changes its parameter block. -/
theorem setSlip (h : Agrees x L) (hg : L.got i = none) (hr : L.replied i = none)
    {f : Slip → Slip} (hf : L.wants i = none ∨ ∀ q, (f q).msgMask = q.msgMask) :
    Agrees (x.setSlip i f) L := by
  refine ⟨h.mail, h.senders, h.sendBlock, h.replyBlock, h.recvBlock, ?_, ?_, ?_, h.silent⟩
  · intro l m hl
    by_cases hli : l = i
    · subst hli
      rw [setSlip_self]
      rcases hf with hf | hf
      · rw [hf] at hl
        cases hl
      · rw [hf]
        exact h.mask l m hl
    · rw [setSlip_other hli]
      exact h.mask l m hl
  · intro l q hl
    have hli : l ≠ i := by
      intro heq
      subst heq
      rw [hg] at hl
      cases hl
    rw [setSlip_other hli]
    exact h.got l q hl
  · intro l a hl
    have hli : l ≠ i := by
      intro heq
      subst heq
      rw [hr] at hl
      cases hl
    rw [setSlip_other hli]
    exact h.replied l a hl

/-! ### The calls one by one -/

theorem wants_none (h : Agrees x L) (hi : x.phase i ≠ .recvBlock) : L.wants i = none := by
  cases hw : L.wants i with
  | none => rfl
  | some m => exact absurd ((h.recvBlock i).2 ⟨m, hw⟩) hi

theorem awaiting_none (h : Agrees x L) (hi : x.phase i ≠ .replyBlock) : L.awaiting i = none := by
  cases hw : L.awaiting i with
  | none => rfl
  | some d => exact absurd ((h.replyBlock i).2 ⟨d, hw⟩) hi

theorem sender_ne (h : Agrees x L) (hi : x.phase i ≠ .sendBlock) :
    ∀ k ∈ L.pending ++ L.dropped, k.sender ≠ i :=
  fun k hk hki => hi ((h.sendBlock i).2 ⟨k, hk, hki⟩)

/-- When a letter is taken, the letters that remain are those of the other senders. -/
theorem remaining_iff (h : Agrees x L) {j : Slot} {m : Mask} {k : Letter}
    (hf : L.pending.find? (Ledger.meets j m) = some k) (l : Slot) :
    (∃ k' ∈ L.pending.eraseP (Ledger.meets j m) ++ L.dropped, k'.sender = l) ↔
      l ≠ k.sender ∧ ∃ k' ∈ L.pending ++ L.dropped, k'.sender = l := by
  have hsenders := h.senders
  rw [List.map_append] at hsenders
  obtain ⟨hnodup, -, hdisj⟩ := List.nodup_append.1 hsenders
  constructor
  · intro ⟨k', hk', hl⟩
    rcases List.mem_append.1 hk' with hk' | hk'
    · have hkey := key_ne_of_mem_eraseP hnodup hf k' hk'
      rw [hl] at hkey
      exact ⟨hkey, k', List.mem_append_left _ (List.mem_of_mem_eraseP hk'), hl⟩
    · refine ⟨fun hlk => ?_, k', List.mem_append_right _ hk', hl⟩
      exact hdisj _ (List.mem_map_of_mem (List.mem_of_find?_eq_some hf)) _
        (List.mem_map_of_mem hk') (hl.trans hlk).symm
  · intro ⟨hlk, k', hk', hl⟩
    refine ⟨k', ?_, hl⟩
    rcases List.mem_append.1 hk' with hk' | hk'
    · refine List.mem_append_left _ (mem_eraseP_of_ne hf hk' ?_)
      intro he
      exact hlk (hl.symm.trans (congrArg Letter.sender he))
    · exact List.mem_append_right _ hk'

theorem begin (h : Agrees x L) (hi : x.phase i = .active) (c : ApiCall) :
    Agrees (x.begin i c) (L.begin i) := by
  have hL : Agrees x (L.begin i) := by
    refine ⟨h.mail, h.senders, h.sendBlock, h.replyBlock, h.recvBlock, h.mask, ?_, ?_, ?_⟩
    · exact fun l q hl => h.got l q (update_none_eq_some.1 hl).2
    · exact fun l a hl => h.replied l a (update_none_eq_some.1 hl).2
    · intro l hl
      by_cases hli : l = i
      · subst hli
        exact absurd hi hl
      · simp only [Ledger.begin, Function.update_of_ne hli]
        exact h.silent l hl
  exact hL.setSlip (by simp [Ledger.begin]) (by simp [Ledger.begin])
    (Or.inl (hL.wants_none (by simp [hi])))

end Agrees

/-- The exchange and the ledger while a call of the process `i` is carried out. -/
structure Calling (x : Exchange) (L : Ledger) (i : Slot) : Prop extends Agrees x L where
  active : x.phase i = .active
  got_none : L.got i = none
  replied_none : L.replied i = none

namespace Calling

variable {x : Exchange} {L : Ledger} {i j : Slot} {m : Mask} {k : Letter} {c : ApiCall}
  {t : MType} {v : Option Addr} {w : Option Word} {r : Word}

theorem ne_of_phase (h : Calling x L i) {ph : Phase} (hj : x.phase j = ph)
    (hph : ph ≠ .active) : j ≠ i := by
  intro heq
  subst heq
  exact hph (hj.symm.trans h.active)

theorem setPhase_iff (h : Calling x L i) {l : Slot} {ph ph' : Phase} (hact : .active ≠ ph')
    (hne : ph ≠ ph') : (x.setPhase i ph).phase l = ph' ↔ x.phase l = ph' :=
  Exchange.setPhase_iff (h.active ▸ hact) hne

/-- Nothing has been handed to the other processes that are not active, nor to the caller. -/
theorem silent_setPhase (h : Calling x L i) {l : Slot} {ph : Phase}
    (hl : (x.setPhase i ph).phase l ≠ .active) : L.got l = none ∧ L.replied l = none := by
  by_cases hli : l = i
  · rw [hli]
    exact ⟨h.got_none, h.replied_none⟩
  · rw [setPhase_other hli] at hl
    exact h.silent l hl

/-- A process starts. -/
theorem start (h : Calling x L i) (hj : x.phase j = .dead) (b : Bool) :
    Agrees (x.start i j b) L := by
  have hstart : Agrees { x.setPhase j .active with
      periodic := Function.update x.periodic j b } L := by
    refine ⟨h.mail, h.senders, fun l => ?_, fun l => ?_, fun l => ?_, h.mask, h.got, h.replied,
      fun l hl => ?_⟩
    · exact (Exchange.setPhase_iff (by simp [hj]) (by simp)).trans (h.sendBlock l)
    · exact (Exchange.setPhase_iff (by simp [hj]) (by simp)).trans (h.replyBlock l)
    · exact (Exchange.setPhase_iff (by simp [hj]) (by simp)).trans (h.recvBlock l)
    · exact h.silent l (ne_of_setPhase_active hl).2
  have he : x.start i j b = Exchange.setSlip { x.setPhase j .active with
      periodic := Function.update x.periodic j b } i fun q => { q with outPid := pidOf j } := rfl
  rw [he]
  apply hstart.setSlip h.got_none h.replied_none
  exact Or.inr fun _ => rfl

theorem create (h : Calling x L i) (b : Bool) : Agrees (x.create i b) L := by
  rcases x.create_cases i b with he | ⟨j, hj, he⟩
  · rw [he]
    exact h.toAgrees
  · rw [he]
    exact h.start hj b

/-- A process that waits for a message or a reply becomes active with a filled in block, as the
ledger `L'` says. -/
theorem wake (h : Calling x L i) {f : Slip → Slip} {L' : Ledger}
    (hj : x.phase j = .recvBlock ∨ x.phase j = .replyBlock)
    (hp : L'.pending = L.pending) (hd : L'.dropped = L.dropped)
    (ha : L'.awaiting = Function.update L.awaiting j none)
    (hw : L'.wants = Function.update L.wants j none)
    (hg : ∀ l, l ≠ j → L'.got l = L.got l) (hr : ∀ l, l ≠ j → L'.replied l = L.replied l)
    (hgj : ∀ q, L'.got j = some q → q.Matches (f (x.slip j)))
    (hrj : ∀ a, L'.replied j = some a → (f (x.slip j)).msgData = a.value) :
    Agrees ((x.setPhase j .active).setSlip j f) L' := by
  have hphase : ∀ l ph, ph ≠ .active →
      (((x.setPhase j .active).setSlip j f).phase l = ph ↔ l ≠ j ∧ x.phase l = ph) :=
    fun l ph hact => setPhase_eq_iff hact.symm
  refine ⟨?_, ?_, fun l => ?_, fun l => ?_, fun l => ?_, ?_, ?_, ?_, ?_⟩
  · rw [hp]
    exact h.mail
  · rw [hp, hd]
    exact h.senders
  · rw [hphase l .sendBlock (by simp), h.sendBlock, hp, hd]
    refine ⟨fun he => he.2, fun he => ⟨?_, he⟩⟩
    intro heq
    subst heq
    have hl := (h.sendBlock l).2 he
    rcases hj with hj | hj <;> simp [hj] at hl
  · rw [hphase l .replyBlock (by simp), h.replyBlock, ha]
    by_cases hlj : l = j
    · subst hlj
      simp
    · simp [hlj]
  · rw [hphase l .recvBlock (by simp), h.recvBlock, hw]
    by_cases hlj : l = j
    · subst hlj
      simp
    · simp [hlj]
  · intro l m hl
    rw [hw] at hl
    obtain ⟨hlj, hl⟩ := update_none_eq_some.1 hl
    rw [setSlip_other hlj]
    exact h.mask l m hl
  · intro l q hl
    by_cases hlj : l = j
    · subst hlj
      rw [setSlip_self]
      exact hgj q hl
    · rw [hg l hlj] at hl
      rw [setSlip_other hlj]
      exact h.got l q hl
  · intro l a hl
    by_cases hlj : l = j
    · subst hlj
      rw [setSlip_self]
      exact hrj a hl
    · rw [hr l hlj] at hl
      rw [setSlip_other hlj]
      exact h.replied l a hl
  · intro l hl
    obtain ⟨hlj, hl'⟩ := ne_of_setPhase_active hl
    rw [hg l hlj, hr l hlj]
    exact h.silent l hl'

theorem reply (h : Calling x L i) {id : Pid} (ht : x.target id = some j) (r : Word) :
    Agrees (x.reply id r) (L.reply i j r) := by
  rcases x.reply_cases id r with ⟨j', ht', hj, he⟩ | ⟨hno, he⟩
  · rw [ht] at ht'
    obtain rfl : j = j' := Option.some.inj ht'
    obtain ⟨d, hd⟩ := (h.replyBlock j).1 hj
    have hwants : L.wants j = none := h.wants_none (by simp [hj])
    have hgot := (h.silent j (by rw [hj]; simp)).1
    rw [he, Ledger.reply, hd]
    apply h.wake (Or.inr hj)
    · rfl
    · rfl
    · rfl
    · show L.wants = _
      rw [← hwants, Function.update_eq_self]
    · exact fun _ _ => rfl
    · exact fun l hlj => Function.update_of_ne hlj _ _
    · intro q hq
      have hq' : L.got j = some q := hq
      rw [hgot] at hq'
      cases hq'
    · intro a haj
      have haj' : some _ = some a := (Function.update_self j _ L.replied).symm.trans haj
      rw [← Option.some.inj haj']
  · have hnone : L.awaiting j = none := h.awaiting_none (hno j ht)
    rw [he, Ledger.reply, hnone]
    exact ⟨h.mail, h.senders, h.sendBlock, h.replyBlock, h.recvBlock, h.mask, h.got, h.replied,
      h.silent⟩

/-- The mask of a receiver that waits is the one in its parameter block. -/
theorem awaits_iff (h : Agrees x L) (j : Slot) (t : MType) :
    x.awaits j t = true ↔ ∃ m, L.wants j = some m ∧ maskTestAny m t = true := by
  constructor
  · intro hw
    obtain ⟨hj, hm⟩ := awaits_eq_true hw
    obtain ⟨m, hwants⟩ := (h.recvBlock j).1 hj
    rw [h.mask j m hwants] at hm
    exact ⟨m, hwants, hm⟩
  · intro ⟨m, hwants, hm⟩
    have hj := (h.recvBlock j).2 ⟨m, hwants⟩
    rw [Exchange.awaits, hj, h.mask j m hwants, hm]
    rfl

theorem notify (h : Calling x L i) {id : Pid} (ht : x.target id = some j) (t : MType)
    (r : Word) : Agrees (x.asend i id t r) (L.notify i j t r) := by
  rcases x.asend_cases i id t r with ⟨j', ht', hw, he⟩ | ⟨hno, he⟩
  · rw [ht] at ht'
    obtain rfl : j = j' := Option.some.inj ht'
    obtain ⟨m, hwants, hm⟩ := (awaits_iff h.toAgrees j t).1 hw
    have hj := (h.recvBlock j).2 ⟨m, hwants⟩
    have hrep := (h.silent j (by rw [hj]; simp)).2
    rw [he, Ledger.notify, hwants]
    simp only [hm, if_true]
    apply h.wake (Or.inl hj)
    · rfl
    · rfl
    · show L.awaiting = _
      have hnone : L.awaiting j = none := h.awaiting_none (by simp [hj])
      rw [← hnone, Function.update_eq_self]
    · rfl
    · exact fun l hlj => Function.update_of_ne hlj _ _
    · exact fun _ _ => rfl
    · intro q hq
      have hq' : some _ = some q := (Function.update_self j _ L.got).symm.trans hq
      rw [← Option.some.inj hq']
      exact ⟨rfl, rfl, rfl⟩
    · intro a ha
      have ha' : L.replied j = some a := ha
      rw [hrep] at ha'
      cases ha'
  · have hsame : L.notify i j t r = L := by
      rw [Ledger.notify]
      cases hwants : L.wants j with
      | none => rfl
      | some m =>
        have hm : maskTestAny m t ≠ true := by
          intro hm
          have hw := (awaits_iff h.toAgrees j t).2 ⟨m, hwants, hm⟩
          rw [hno j ht] at hw
          cases hw
        simp only [hm]
        rfl
    rw [he, hsame]
    exact h.toAgrees

/-! ### Letters -/

/-- A receiver that waits finds no pending letter. -/
theorem find_none (h : Agrees x L) (hs : x.Silent) (hw : L.wants j = some m) :
    ∀ k ∈ L.pending, Ledger.meets j m k = false := by
  have hj := (h.recvBlock j).2 ⟨m, hw⟩
  have hmail : x.mail.find? (wanted j m) = none := by
    rw [List.find?_eq_none]
    intro l hl
    rw [← h.mask j m hw, hs j hj l hl]
    simp
  rw [h.find, Option.map_eq_none_iff, List.find?_eq_none] at hmail
  intro k hk
  simpa using hmail k hk

/-- A letter is posted, and its sender waits for it to be received. -/
theorem post (h : Calling x L i) (hk : k.sender = i) :
    Agrees (x.post i k.mail) (L.record k) := by
  have hno : ∀ k' ∈ L.pending ++ L.dropped, k'.sender ≠ i := h.sender_ne (by simp [h.active])
  refine ⟨?_, ?_, fun l => ?_, fun l => ?_, fun l => ?_, h.mask, h.got, h.replied, fun l hl => ?_⟩
  · show (x.mail ++ [k.mail]).filter _ = ((L.pending ++ [k]).filter _).map _
    rw [List.filter_append, List.filter_append, List.map_append, h.mail]
    congr 1
    rw [List.filter_singleton, List.filter_singleton]
    show (bif k.type != 0 then [k.mail] else []) = (bif k.type != 0 then [k] else []).map _
    cases k.type != 0 <;> rfl
  · show ((L.pending ++ [k] ++ L.dropped).map Letter.sender).Nodup
    have hperm : (L.pending ++ [k] ++ L.dropped).Perm (k :: (L.pending ++ L.dropped)) := by
      simp only [List.append_assoc, List.singleton_append]
      exact List.perm_middle
    rw [(hperm.map Letter.sender).nodup_iff, List.map_cons, List.nodup_cons]
    refine ⟨fun hmem => ?_, h.senders⟩
    obtain ⟨k', hk', hs⟩ := List.mem_map.1 hmem
    exact hno k' hk' (hs.trans hk)
  · have hmem : (∃ k' ∈ L.pending ++ [k] ++ L.dropped, k'.sender = l) ↔
        l = i ∨ ∃ k' ∈ L.pending ++ L.dropped, k'.sender = l := by
      constructor
      · intro ⟨k', hk', hs⟩
        simp only [List.mem_append, List.mem_singleton] at hk'
        rcases hk' with (hk' | rfl) | hk'
        · exact Or.inr ⟨k', List.mem_append_left _ hk', hs⟩
        · exact Or.inl (hs.symm.trans hk)
        · exact Or.inr ⟨k', List.mem_append_right _ hk', hs⟩
      · rintro (rfl | ⟨k', hk', hs⟩)
        · exact ⟨k, by simp, hk⟩
        · refine ⟨k', ?_, hs⟩
          rcases List.mem_append.1 hk' with hk' | hk'
          · simp [hk']
          · simp [hk']
    show (x.setPhase i .sendBlock).phase l = _ ↔ ∃ k' ∈ L.pending ++ [k] ++ L.dropped, _
    rw [hmem, ← h.sendBlock]
    by_cases hli : l = i
    · subst hli
      rw [setPhase_self]
      simp
    · rw [setPhase_other hli]
      simp [hli]
  · exact (h.setPhase_iff (by simp) (by simp)).trans (h.replyBlock l)
  · exact (h.setPhase_iff (by simp) (by simp)).trans (h.recvBlock l)
  · exact h.silent_setPhase hl

/-- **A letter is delivered**, from the state `y` in which its sender waits in `SEND_BLOCK`. -/
theorem deliver {y : Exchange} (h : Agrees y L)
    (hf : L.pending.find? (Ledger.meets j m) = some k)
    (hj : y.phase j = .recvBlock ∨ y.phase j = .active) (hrep : L.replied j = none)
    (hphase : ∀ l, x.phase l =
      if l = j then .active else if l = k.sender then .replyBlock else y.phase l)
    (hslip : ∀ l, l ≠ j → x.slip l = y.slip l)
    (hslipj : (x.slip j).outPid = pidOf k.sender ∧ (x.slip j).msgPtrData = k.data)
    (hmail : x.mail = y.mail.eraseP (wanted j m)) : Agrees x (L.deliver j m k) := by
  have hmem : k ∈ L.pending := List.mem_of_find?_eq_some hf
  have hs : y.phase k.sender = .sendBlock :=
    (h.sendBlock _).2 ⟨k, List.mem_append_left _ hmem, rfl⟩
  have hne : k.sender ≠ j := by
    intro he
    rw [he] at hs
    rcases hj with hj | hj <;> simp [hj] at hs
  have hself : x.phase j = .active := by rw [hphase, if_pos rfl]
  have hsender : x.phase k.sender = .replyBlock := by
    rw [hphase, if_neg hne, if_pos rfl]
  have hother : ∀ l, l ≠ j → l ≠ k.sender → x.phase l = y.phase l := by
    intro l hlj hlk
    rw [hphase, if_neg hlj, if_neg hlk]
  have hawait : L.awaiting j = none := by
    apply h.awaiting_none
    rcases hj with hj | hj <;> simp [hj]
  refine ⟨?_, ?_, fun l => ?_, fun l => ?_, fun l => ?_, fun l m' hl => ?_, fun l q hl => ?_,
    fun l a hl => ?_, fun l hl => ?_⟩
  · rw [hmail]
    exact h.erase j m
  · refine h.senders.sublist (List.Sublist.map _ ?_)
    exact (List.eraseP_sublist).append (List.Sublist.refl _)
  · refine Iff.trans ?_ (h.remaining_iff hf l).symm
    rw [← h.sendBlock]
    by_cases hlk : l = k.sender
    · subst hlk
      simp [hsender]
    · by_cases hlj : l = j
      · subst hlj
        rw [hself]
        rcases hj with hj | hj <;> simp [hj]
      · simp [hother l hlj hlk, hlk]
  · show _ ↔ ∃ d, Function.update L.awaiting k.sender _ l = some d
    by_cases hlk : l = k.sender
    · subst hlk
      simp [hsender]
    · rw [Function.update_of_ne hlk]
      by_cases hlj : l = j
      · subst hlj
        simp [hself, hawait]
      · rw [hother l hlj hlk, h.replyBlock]
  · show _ ↔ ∃ m', Function.update L.wants j none l = some m'
    by_cases hlj : l = j
    · subst hlj
      simp [hself]
    · rw [Function.update_of_ne hlj, ← h.recvBlock]
      by_cases hlk : l = k.sender
      · subst hlk
        simp [hsender, hs]
      · rw [hother l hlj hlk]
  · obtain ⟨hlj, hl'⟩ := update_none_eq_some.1 hl
    rw [hslip l hlj]
    exact h.mask l m' hl'
  · by_cases hlj : l = j
    · subst hlj
      have hq : some _ = some q := (Function.update_self l _ L.got).symm.trans hl
      rw [← Option.some.inj hq]
      exact hslipj
    · have hl' : L.got l = some q := by
        rwa [show (L.deliver j m k).got l = L.got l from Function.update_of_ne hlj _ _] at hl
      rw [hslip l hlj]
      exact h.got l q hl'
  · have hl' : L.replied l = some a := hl
    have hlj : l ≠ j := by
      intro heq
      subst heq
      rw [hrep] at hl'
      cases hl'
    rw [hslip l hlj]
    exact h.replied l a hl'
  · have hlj : l ≠ j := by
      intro heq
      subst heq
      exact hl hself
    have hover : L.got l = none ∧ L.replied l = none := by
      apply h.silent
      by_cases hlk : l = k.sender
      · rw [hlk, hs]
        simp
      · rw [← hother l hlj hlk]
        exact hl
    exact ⟨(Function.update_of_ne hlj _ L.got).trans hover.1, hover.2⟩

/-- A letter is handed over: it is posted and delivered at once. -/
theorem handOver (h : Calling x L i) (hs : x.Silent) (hw : L.wants j = some m)
    (hk : k.sender = i) (hmeets : Ledger.meets j m k = true) :
    Agrees (x.handOver i j k.data) ((L.record k).settle j) := by
  have hj := (h.recvBlock j).2 ⟨m, hw⟩
  have hji : j ≠ i := h.ne_of_phase hj (by simp)
  have hno := find_none h.toAgrees hs hw
  have hfind : (L.pending ++ [k]).find? (Ledger.meets j m) = some k := by
    rw [List.find?_append, List.find?_eq_none.2 fun k' hk' => by simp [hno k' hk']]
    simp [hmeets]
  have hjpost : (x.post i k.mail).phase j = .recvBlock := by
    show (x.setPhase i .sendBlock).phase j = _
    rw [setPhase_other hji, hj]
  rw [Ledger.settle_waiting (L := L.record k) hw, Ledger.receive_found (L := L.record k) hfind]
  apply deliver (h.post hk) hfind (Or.inl hjpost) (h.silent j (by rw [hj]; simp)).2
  · intro l
    show ((x.setPhase j .active).setPhase i .replyBlock).phase l = _
    by_cases hli : l = i
    · subst hli
      rw [setPhase_self, if_neg (Ne.symm hji), if_pos hk.symm]
    · have hlk : l ≠ k.sender := fun he => hli (he.trans hk)
      rw [setPhase_other hli, if_neg hlk]
      by_cases hlj : l = j
      · subst hlj
        rw [setPhase_self, if_pos rfl]
      · rw [setPhase_other hlj, if_neg hlj]
        exact (setPhase_other hli x .sendBlock).symm
  · exact fun l hlj => setSlip_other hlj _ _
  · show (Function.update x.slip j _ j).outPid = _ ∧ (Function.update x.slip j _ j).msgPtrData = _
    rw [Function.update_self, hk]
    exact ⟨rfl, rfl⟩
  · show x.mail = (x.mail ++ [k.mail]).eraseP (wanted j m)
    have hwanted : wanted j m k.mail = true := (Agrees.wanted_mail j m k).trans hmeets
    have hsilent : ∀ l ∈ x.mail, wanted j m l = false := by
      intro l hl
      rw [← h.mask j m hw]
      exact hs j hj l hl
    rw [List.eraseP_append_right _ fun l hl => by simp [hsilent l hl],
      List.eraseP_cons_of_pos hwanted, List.append_nil]

theorem send (h : Calling x L i) (hs : x.Silent) {id : Pid} (ht : x.target id = some j)
    (t : MType) (v : Option Addr) (w : Option Word) :
    Agrees (x.send i id t v) (L.send i j t v w) := by
  set k := L.letter i j t v w with hk
  have hmail : Exchange.letter i id t v = k.mail := by
    rw [(target_eq_some ht).1]
    rfl
  have hsend : L.send i j t v w = (L.record k).settle j := rfl
  rcases x.send_cases i id t v with ⟨hnone, -⟩ | ⟨j', ht', hw, he⟩ | ⟨j', ht', hw, he⟩
  · rw [ht] at hnone
    cases hnone
  · rw [ht] at ht'
    obtain rfl : j = j' := Option.some.inj ht'
    obtain ⟨m, hwants, hm⟩ := (awaits_iff h.toAgrees j t).1 hw
    rw [he, hsend]
    apply h.handOver (k := k) hs hwants rfl
    show (j == j && maskTestAny m t) = true
    rw [hm, beq_self_eq_true]
    rfl
  · rw [ht] at ht'
    obtain rfl : j = j' := Option.some.inj ht'
    have hpost := h.post (k := k) rfl
    have hsettle : (L.record k).settle j = L.record k := by
      cases hwants : L.wants j with
      | none => exact Ledger.settle_idle (L := L.record k) hwants
      | some m =>
        have hm : maskTestAny m t = false := by
          by_contra hm
          rw [(awaits_iff h.toAgrees j t).2 ⟨m, hwants, by simpa using hm⟩] at hw
          cases hw
        have hno := find_none h.toAgrees hs hwants
        have hfind : (L.pending ++ [k]).find? (Ledger.meets j m) = none := by
          rw [List.find?_eq_none]
          intro k' hk'
          rcases List.mem_append.1 hk' with hk' | hk'
          · simp [hno k' hk']
          · rw [List.mem_singleton.1 hk']
            show ¬ (j == j && maskTestAny m t) = true
            simp [hm]
        rw [Ledger.settle_waiting (L := L.record k) hwants,
          Ledger.receive_none (L := L.record k) hfind]
        have hsame : Function.update L.wants j (some m) = L.wants := by
          rw [← hwants, Function.update_eq_self]
        show { L.record k with wants := Function.update L.wants j (some m) } = _
        rw [hsame]
        rfl
    rw [he, hsend, hsettle, hmail]
    exact hpost

theorem recv (h : Calling x L i) (hx : x.Posted) (hm : (x.slip i).msgMask = m) :
    Agrees (x.recv i m) (L.receive i m) := by
  have hfind := h.find i m
  rcases hx.recv_cases i m with ⟨l, s, hf, hl, hs, he⟩ | ⟨hf, he⟩
  · -- a letter was queued
    rw [hf] at hfind
    obtain ⟨k, hk, rfl⟩ := Option.map_eq_some_iff.1 hfind.symm
    have hks : k.sender = s := pidOf_injective hl
    have hsi : s ≠ i := h.ne_of_phase hs (by simp)
    rw [he, Ledger.receive_found hk]
    apply deliver h.toAgrees hk (Or.inr h.active) h.replied_none
    · intro l
      show (x.setPhase s .replyBlock).phase l = _
      rw [hks]
      by_cases hls : l = s
      · subst hls
        rw [setPhase_self, if_neg hsi, if_pos rfl]
      · rw [setPhase_other hls, if_neg hls]
        by_cases hli : l = i
        · subst hli
          rw [if_pos rfl, h.active]
        · rw [if_neg hli]
    · intro l hli
      show Function.update x.slip i _ l = _
      rw [Function.update_of_ne hli]
    · show (Function.update x.slip i _ i).outPid = _ ∧
        (Function.update x.slip i _ i).msgPtrData = _
      rw [Function.update_self]
      exact ⟨rfl, rfl⟩
    · rfl
  · -- the receiver waits
    rw [hf] at hfind
    have hnone : L.pending.find? (Ledger.meets i m) = none := by
      rwa [eq_comm, Option.map_eq_none_iff] at hfind
    rw [he, Ledger.receive_none hnone]
    refine ⟨h.mail, h.senders, fun l => ?_, fun l => ?_, fun l => ?_, fun l m' hl => ?_, h.got,
      h.replied, fun l hl => ?_⟩
    · exact (h.setPhase_iff (by simp) (by simp)).trans (h.sendBlock l)
    · exact (h.setPhase_iff (by simp) (by simp)).trans (h.replyBlock l)
    · show _ ↔ ∃ m', Function.update L.wants i (some m) l = some m'
      by_cases hli : l = i
      · subst hli
        simp [setPhase_self]
      · rw [setPhase_other hli, Function.update_of_ne hli, h.recvBlock]
    · by_cases hli : l = i
      · subst hli
        have hmm : some m = some m' := (Function.update_self l _ L.wants).symm.trans hl
        rw [← Option.some.inj hmm]
        exact hm
      · have hl' : L.wants l = some m' := (Function.update_of_ne hli _ L.wants).symm.trans hl
        exact h.mask l m' hl'
    · exact h.silent_setPhase hl

theorem terminate (h : Calling x L i) : Agrees (x.terminate i) (L.terminate i) := by
  have hperm := L.terminate_perm i
  refine ⟨?_, ?_, fun l => ?_, fun l => ?_, fun l => ?_, h.mask, h.got, h.replied,
    fun l hl => ?_⟩
  · show (x.mail.filter fun l => !wanted i anyMask l).filter _ =
      ((L.pending.filter fun k => k.receiver != i).filter _).map _
    rw [List.filter_comm, h.mail, List.filter_map,
      List.filter_comm (fun k : Letter => k.type != 0)]
    congr 1
    apply List.filter_congr
    intro k hk
    have htyped : maskTestAny anyMask k.type = true :=
      maskTestAny_any.2 (bne_iff_ne.1 (List.mem_filter.1 hk).2)
    show (!wanted i anyMask k.mail) = (k.receiver != i)
    rw [Agrees.wanted_mail, Ledger.meets, htyped, Bool.and_true]
    rfl
  · exact (hperm.map Letter.sender).nodup_iff.2 h.senders
  · refine (h.setPhase_iff (by simp) (by simp)).trans ((h.sendBlock l).trans ?_)
    simp only [hperm.mem_iff]
  · exact (h.setPhase_iff (by simp) (by simp)).trans (h.replyBlock l)
  · exact (h.setPhase_iff (by simp) (by simp)).trans (h.recvBlock l)
  · exact h.silent_setPhase hl

end Calling

/-! ### Every call -/

/-- **Every call of an active process keeps the agreement.** -/
theorem Agrees.call {x : Exchange} {L : Ledger} {i : Slot} (h : Agrees x L) (hx : x.Posted)
    (hs : x.Silent) (hi : x.phase i = .active) (mem : Addr → Word) (c : ApiCall) :
    Agrees (x.call i c) (L.observe i (fun j => x.phase j != .dead) mem c) := by
  have hb : Calling (x.begin i c) (L.begin i) i :=
    ⟨h.begin hi c, hi, Function.update_self _ _ _, Function.update_self _ _ _⟩
  have hxb : (x.begin i c).Posted := ⟨hx.sender, hx.nodup⟩
  have htarget : ∀ id, (x.begin i c).target id =
      (validId id).filter fun j => x.phase j != .dead := fun _ => rfl
  cases c with
  | osAbort error => exact hb.toAgrees
  | taskCreateSystem f arg => exact hb.create false
  | taskCreateRR f arg => exact hb.create false
  | taskCreatePeriod f arg period wcet offset => exact hb.create true
  | taskNext => exact hb.toAgrees
  | taskGetArg => exact hb.toAgrees
  | taskPid =>
    show Agrees ((x.begin i .taskPid).setSlip i fun q => { q with outPid := pidOf i }) (L.begin i)
    apply hb.setSlip hb.got_none hb.replied_none
    exact Or.inr fun _ => rfl
  | taskTerminate => exact hb.terminate
  | msgSend id t v =>
    rw [Ledger.observe_msgSend, ← htarget]
    show Agrees ((x.begin i (.msgSend id t v)).send i id t v) _
    cases ht : (x.begin i (.msgSend id t v)).target id with
    | some j => exact hb.send (hs.begin hi _) ht t v _
    | none =>
      rw [Exchange.send, ht]
      exact hb.toAgrees
  | msgRecv m v =>
    apply hb.recv hxb
    rw [Exchange.begin, setSlip_self]
    rfl
  | msgRply id r =>
    rw [Ledger.observe_msgRply, ← htarget]
    show Agrees ((x.begin i (.msgRply id r)).reply id r) _
    cases ht : (x.begin i (.msgRply id r)).target id with
    | some j => exact hb.reply ht r
    | none =>
      rw [Exchange.reply, ht]
      exact hb.toAgrees
  | msgASend id t r =>
    rw [Ledger.observe_msgASend, ← htarget]
    show Agrees ((x.begin i (.msgASend id t r)).asend i id t r) _
    cases ht : (x.begin i (.msgASend id t r)).target id with
    | some j => exact hb.notify ht t r
    | none =>
      rw [Exchange.asend, ht]
      exact hb.toAgrees
  | now => exact hb.toAgrees

theorem agrees_boot : Agrees Sched.bootExchange Ledger.empty := by
  refine ⟨rfl, List.nodup_nil, fun i => ?_, fun i => ?_, fun i => ?_, fun i m hm => ?_,
    fun i q hq => ?_, fun i a ha => ?_, fun i _ => ⟨rfl, rfl⟩⟩
  · by_cases hi : i = 0 <;> simp [Sched.bootExchange, Ledger.empty, hi]
  · by_cases hi : i = 0 <;> simp [Sched.bootExchange, Ledger.empty, hi]
  · by_cases hi : i = 0 <;> simp [Sched.bootExchange, Ledger.empty, hi]
  · cases hm
  · cases hq
  · cases ha

/-! ### The machine and its ledger -/

/-- The ledger after an event of the machine. -/
def Ledger.watch (L : Ledger) (s : System) (e : Event) : Ledger :=
  match e, s.kernel.cp with
  | .call c, some (.process i) =>
      L.observe i (fun j => (s.kernel.pd (.process j)).state != .dead) s.mem c
  | _, _ => L

/-- The machine in user mode, with the ledger of the calls made since power-on. -/
structure Tracked where
  sys : System
  ledger : Ledger

namespace Tracked

def Initial (T : Tracked) : Prop := T.sys.Initial ∧ T.ledger = Ledger.empty

def Step (T : Tracked) (e : Event) (T' : Tracked) : Prop :=
  T.sys.Step e T'.sys ∧ T'.ledger = T.ledger.watch T.sys e

/-- One step as a function; `none` when it cannot happen, stops the machine, or does not pass
`guard`. -/
def advance (guard : Tracked → Event → Bool) (T : Tracked) (e : Event) : Option Tracked :=
  if guard T e then (T.sys.advance e).map fun s => ⟨s, T.ledger.watch T.sys e⟩ else none

/-- The machine and its ledger after power-on and the given events. -/
def after (guard : Tracked → Event → Bool) (create kernelIdle : BitVec 16) (mem : Addr → Word)
    (es : List Event) : Option Tracked :=
  (System.powerOn create kernelIdle mem).bind fun s =>
    Run.exec (advance guard) ⟨s, Ledger.empty⟩ es

theorem advance_step {guard : Tracked → Event → Bool} {T T' : Tracked} {e : Event}
    (h : T.advance guard e = some T') : T.Step e T' ∧ guard T e = true := by
  unfold advance at h
  by_cases hg : guard T e = true
  · rw [if_pos hg] at h
    obtain ⟨s, hs, rfl⟩ := Option.map_eq_some_iff.1 h
    exact ⟨⟨System.advance_step hs, rfl⟩, hg⟩
  · rw [if_neg hg] at h
    cases h

theorem run_of_after {guard : Tracked → Event → Bool} {create kernelIdle : BitVec 16}
    {mem : Addr → Word} {es : List Event} {T : Tracked}
    (h : after guard create kernelIdle mem es = some T) :
    ∃ T₀ : Tracked, T₀.Initial ∧ Run (fun T e T' => T.Step e T' ∧ guard T e = true) T₀ es T := by
  obtain ⟨s₀, hs₀, hrun⟩ := Option.bind_eq_some_iff.1 h
  exact ⟨⟨s₀, Ledger.empty⟩, ⟨System.powerOn_initial hs₀, rfl⟩,
    (Run.of_exec hrun).mono fun _ _ _ hs => advance_step hs⟩

/-- The kernel is where the ledger says, and the calls that processes are inside of are those
that the ledger saw. -/
structure Follows (T : Tracked) (a : Sched) : Prop where
  reachable : a.Reachable
  represents : T.sys.kernel.UserMode a
  agrees : Agrees a.exchange T.ledger
  once : T.ledger.ExactlyOnce
  receiving : ∀ i m v, T.sys.call (.process i) = some (.msgRecv m v) → T.ledger.Receiving i m

variable {T T' : Tracked} {a : Sched} {e : Event}

/-- The running process is active. -/
theorem Follows.active (h : T.Follows a) {i : Slot} (hcp : T.sys.kernel.cp = some (.process i)) :
    a.exchange.phase i = .active := by
  rw [h.represents.current] at hcp
  exact h.reachable.inv.exchange_active (Option.some.inj hcp)

theorem live_eq {s : Kernel} (h : s.UserMode a) :
    (fun j => (s.pd (.process j)).state != .dead) = fun j => a.exchange.phase j != .dead := by
  funext j
  rw [h.phase_eq]
  cases (s.pd (.process j)).state <;> rfl

/-- One event, seen by the exchange and the ledger. -/
theorem Follows.event (h : T.Follows a) (hs : T.Step e T') :
    (T'.ledger = T.ledger ∧ ∃ a', a'.Reachable ∧ T'.sys.kernel.UserMode a' ∧
      a'.exchange = a.exchange ∧ ∀ i, T'.sys.call (.process i) = T.sys.call (.process i) ∨
        T'.sys.call (.process i) = none ∧ T.sys.kernel.cp = some (.process i)) ∨
    ∃ i c a', e = .call c ∧ T.sys.kernel.cp = some (.process i) ∧ T.sys.call (.process i) = none ∧
      a.exchange.phase i = .active ∧ a'.Reachable ∧ T'.sys.kernel.UserMode a' ∧
      a'.exchange = a.exchange.call i c ∧
      T'.ledger = T.ledger.observe i (fun j => a.exchange.phase j != .dead) T.sys.mem c ∧
      T'.sys.mem = T.sys.mem ∧ T'.sys.call = Function.update T.sys.call (.process i)
        (if c = .taskTerminate then none else some c) := by
  obtain ⟨hstep, hL⟩ := hs
  have ha := h.reachable
  obtain ⟨cp, hcp, ⟨rfl, k, hk, he⟩ | ⟨c, k, rfl, hidle, hcall, hk, he⟩ | ⟨c, rfl, hcall, he⟩ |
    ⟨v, x, rfl, hidle, hcall, he⟩⟩ := System.step_cases hstep
  · -- a tick
    obtain ⟨a', hstep', hrep'⟩ := h.represents.step ha.inv (e := .timer) ⟨trivial, hk⟩
    refine Or.inl ⟨hL, a', ha.step hstep', by rw [he]; exact hrep', ?_, by rw [he]; simp⟩
    rcases hstep'.exchange ha.inv ha.stubs with ⟨-, hx⟩ | ⟨i, c, hc, -⟩
    · exact hx
    · cases hc
  · -- a call
    have hpos : T.sys.kernel.Possible (.call c) := by
      show T.sys.kernel.cp ≠ some .idleProcess
      rw [hcp]
      simpa using hidle
    obtain ⟨a', hstep', hrep'⟩ := h.represents.step ha.inv (e := .call c) ⟨hpos, hk⟩
    rcases hstep'.exchange ha.inv ha.stubs with ⟨hc, -⟩ | ⟨i, c', hc, hi, hx⟩
    · cases hc
    · cases hc
      have hcpi : cp = .process i := by
        rw [h.represents.current, hi] at hcp
        exact (Option.some.inj hcp).symm
      subst hcpi
      refine Or.inr ⟨i, c, a', rfl, hcp, hcall, ha.inv.exchange_active hi, ha.step hstep',
        by rw [he]; exact hrep', hx, ?_, by rw [he], by rw [he]⟩
      rw [hL, ← live_eq h.represents]
      simp only [Ledger.watch, hcp]
  · -- a return
    refine Or.inl ⟨hL, a, ha, by rw [he]; exact h.represents, rfl, ?_⟩
    intro i
    rw [he]
    by_cases hi : PDPtr.process i = cp
    · subst hi
      exact Or.inr ⟨Function.update_self _ _ _, hcp⟩
    · exact Or.inl (Function.update_of_ne hi _ _)
  · exact Or.inl ⟨hL, a, ha, by rw [he]; exact h.represents, rfl, by rw [he]; simp⟩

theorem Follows.step (h : T.Follows a) (hs : T.Step e T') : ∃ a', T'.Follows a' := by
  rcases h.event hs with ⟨hL, a', ha', hrep, hx, hcall⟩ |
    ⟨i, c, a', rfl, -, hin, hi, ha', hrep, hx, hL, -, hcall⟩
  · refine ⟨a', ha', hrep, by rw [hL, hx]; exact h.agrees, by rw [hL]; exact h.once, ?_⟩
    intro j m v hj
    rw [hL]
    rcases hcall j with hsame | ⟨hnone, -⟩
    · exact h.receiving j m v (hsame.symm.trans hj)
    · cases hnone.symm.trans hj
  · refine ⟨a', ha', hrep, ?_, by rw [hL]; exact h.once.observe _ _ _ _, ?_⟩
    · rw [hx, hL]
      exact h.agrees.call h.reachable.inv.exchange_posted h.reachable.silent hi _ c
    · intro j m v hj
      rw [hcall] at hj
      rw [hL]
      by_cases hji : j = i
      · subst hji
        rw [Function.update_self] at hj
        by_cases hc : c = .taskTerminate
        · simp [hc] at hj
        · rw [if_neg hc, Option.some.injEq] at hj
          subst hj
          exact Ledger.Receiving.receive _ j m
      · rw [Function.update_of_ne (by simpa using hji)] at hj
        exact (h.receiving j m v hj).observe_other hji _ _ c

theorem Initial.follows (h : T.Initial) : ∃ a, T.Follows a := by
  obtain ⟨⟨⟨create, kernelIdle, hb⟩, hcall⟩, hL⟩ := h
  obtain ⟨s, hs, hrep⟩ := Kernel.boot_represents create kernelIdle
  rw [hb] at hs
  obtain rfl := Except.ok.inj hs
  refine ⟨_, ⟨create, kernelIdle, [], Run.nil _⟩, hrep, ?_, ?_, ?_⟩
  · rw [hL, Sched.bootedSched_exchange]
    exact agrees_boot
  · rw [hL]
    exact Ledger.ExactlyOnce.empty
  · intro i m v hi
    rw [hcall] at hi
    cases hi

theorem Follows.slip_eq (h : T.Follows a) (i : Slot) :
    a.exchange.slip i = (T.sys.kernel.info (.stub (.process i))).slip := by
  rw [h.represents.info]
  rfl

theorem phase_recvBlock {st : ProcessState} : st.phase = .recvBlock ↔ st = .recvBlock := by
  cases st <;> simp [ProcessState.phase]

theorem Follows.waits (h : T.Follows a) (i : Slot) :
    (T.sys.kernel.pd (.process i)).state = .recvBlock ↔ ∃ m, T.ledger.wants i = some m := by
  rw [← phase_recvBlock, ← h.represents.phase_eq]
  exact h.agrees.recvBlock i

end Tracked

end RoombaRtos
