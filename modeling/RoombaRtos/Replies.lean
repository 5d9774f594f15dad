import RoombaRtos.Delivery

/-!
# Replies

What a sender may rely on once its message was received.  The kernel keeps no record of who
received a message: a `Msg_Rply` reaches every process in `REPLY_BLOCK`, whoever makes it.

* `Ledger.Orderly` — every letter is on its way, waits for its reply, or has it, and a process
  has one letter at a time;
* `Ledger.Matched` — replies come from the receivers.  This is kept as long as tasks reply only
  to processes that they owe a reply (`Ledger.repliesToOwed`);
* `reply_integrity` — a process leaves `REPLY_BLOCK` only by a `Msg_Rply` that names it, and its
  `Msg_Send` stores the value of that reply;
* `value_fidelity` — a receiver reads what the sender sent, as long as the sender is inside of its
  `Msg_Send`.
-/

namespace RoombaRtos

open ListQueue Lockstep

namespace Ledger

variable {L L' : Ledger} {i j l : Slot} {m : Mask} {k : Letter} {d : Delivery} {c : ApiCall}
  {live : Slot → Bool} {mem : Addr → Word} {r : Word}

/-! ### One letter at a time -/

/-- The process waits for nothing that it sent. -/
def Idle (L : Ledger) (i : Slot) : Prop :=
  L.awaiting i = none ∧ ∀ k ∈ L.pending ++ L.dropped, k.sender ≠ i

structure Orderly (L : Ledger) : Prop where
  /-- The sender of a letter that was not received is inside of the call that sent it. -/
  pending : ∀ k ∈ L.pending ++ L.dropped, L.sending k.sender = some k ∧
    L.awaiting k.sender = none ∧ L.replied k.sender = none
  /-- So is a process that waits for a reply. -/
  awaiting : ∀ i d, L.awaiting i = some d →
    L.sending i = some d.letter ∧ d ∈ L.delivered ∧ L.replied i = none
  replied : ∀ i a, L.replied i = some a →
    L.sending i = some a.delivery.letter ∧ a.delivery ∈ L.delivered
  /-- No letter gets lost. -/
  sending : ∀ i k, L.sending i = some k → k.sender = i ∧
    (k ∈ L.pending ++ L.dropped ∨ (∃ d, L.awaiting i = some d) ∨ ∃ a, L.replied i = some a)

namespace ExactlyOnce

/-- No letter is at two places. -/
theorem nodup (h : L.ExactlyOnce) : (L.pending ++ L.dropped).Nodup := by
  have hsent : L.sent.Nodup := by
    apply List.Nodup.of_map Letter.serial
    rw [h.serial]
    exact List.nodup_range
  have hall := h.once.nodup_iff.2 hsent
  exact List.Nodup.sublist
    ((List.sublist_append_left L.pending _).append (List.Sublist.refl _)) hall

/-- The letter that is delivered is pending no longer. -/
theorem ne_of_mem_erase (h : L.ExactlyOnce) (hf : L.pending.find? (meets j m) = some k)
    {k' : Letter} (hk' : k' ∈ L.pending.eraseP (meets j m) ++ L.dropped) : k' ≠ k := by
  obtain ⟨hk, l₁, l₂, hp, hl₁⟩ := List.find?_eq_some_iff_append.1 hf
  have herase : L.pending.eraseP (meets j m) = l₁ ++ l₂ := by
    rw [hp, List.eraseP_append_right _ (by simpa using hl₁), List.eraseP_cons_of_pos hk]
  have hnodup := h.nodup
  rw [hp, List.append_assoc, List.cons_append, List.nodup_middle, List.nodup_cons,
    ← List.append_assoc] at hnodup
  rw [herase] at hk'
  intro heq
  subst heq
  exact hnodup.1 hk'

end ExactlyOnce

namespace Orderly

theorem empty : Ledger.empty.Orderly :=
  ⟨by simp [Ledger.empty], by simp [Ledger.empty], by simp [Ledger.empty], by simp [Ledger.empty]⟩

/-- Only the letters count, and who waits for what. -/
theorem congr (h : L.Orderly) (hm : ∀ k, k ∈ L'.pending ++ L'.dropped ↔ k ∈ L.pending ++ L.dropped)
    (hd : L'.delivered = L.delivered) (hs : L'.sending = L.sending)
    (ha : L'.awaiting = L.awaiting) (hr : L'.replied = L.replied) : L'.Orderly := by
  refine ⟨?_, ?_, ?_, ?_⟩
  · intro k hk
    rw [hs, ha, hr]
    exact h.pending k ((hm k).1 hk)
  · rw [hs, ha, hr, hd]
    exact h.awaiting
  · rw [hs, hr, hd]
    exact h.replied
  · intro i k hk
    rw [hs] at hk
    rw [hm, ha, hr]
    exact h.sending i k hk

/-- A process that waits for nothing has its reply, or sent nothing. -/
theorem replied_of_idle (h : L.Orderly) (hi : L.Idle i) (hk : L.sending i = some k) :
    ∃ a, L.replied i = some a ∧ a.delivery.letter = k := by
  obtain ⟨hki, hmem | ⟨d, hd⟩ | ⟨a, ha⟩⟩ := h.sending i k hk
  · exact absurd hki (hi.2 k hmem)
  · rw [hi.1] at hd
    cases hd
  · refine ⟨a, ha, ?_⟩
    rw [(h.replied i a ha).1] at hk
    exact Option.some.inj hk

theorem begin (h : L.Orderly) (hi : L.Idle i) : (L.begin i).Orderly := by
  refine ⟨fun k hk => ?_, fun l d hd => ?_, fun l a ha => ?_, fun l k hk => ?_⟩
  · have hne : k.sender ≠ i := hi.2 k hk
    show Function.update L.sending i none k.sender = _ ∧ L.awaiting k.sender = none ∧
      Function.update L.replied i none k.sender = none
    rw [Function.update_of_ne hne, Function.update_of_ne hne]
    exact h.pending k hk
  · have hne : l ≠ i := by
      intro heq
      subst heq
      cases hi.1.symm.trans hd
    show Function.update L.sending i none l = _ ∧ d ∈ L.delivered ∧
      Function.update L.replied i none l = none
    rw [Function.update_of_ne hne, Function.update_of_ne hne]
    exact h.awaiting l d hd
  · obtain ⟨hne, ha'⟩ := update_none_eq_some.1 ha
    show Function.update L.sending i none l = _ ∧ _
    rw [Function.update_of_ne hne]
    exact h.replied l a ha'
  · obtain ⟨hne, hk'⟩ := update_none_eq_some.1 hk
    show k.sender = l ∧ (_ ∨ _ ∨ ∃ a, Function.update L.replied i none l = some a)
    rw [Function.update_of_ne hne]
    exact h.sending l k hk'

theorem record (h : L.Orderly) (hi : L.Idle k.sender) (hr : L.replied k.sender = none) :
    (L.record k).Orderly := by
  have hother : ∀ l, l ≠ k.sender → (L.record k).sending l = L.sending l :=
    fun l hl => Function.update_of_ne hl _ _
  have hself : (L.record k).sending k.sender = some k := Function.update_self _ _ _
  have hmem : ∀ k', k' ∈ (L.record k).pending ++ L.dropped ↔
      k' = k ∨ k' ∈ L.pending ++ L.dropped := by
    intro k'
    show k' ∈ L.pending ++ [k] ++ L.dropped ↔ _
    simp only [List.mem_append, List.mem_singleton]
    tauto
  refine ⟨fun k' hk' => ?_, fun l d hd => ?_, fun l a ha => ?_, fun l k' hk' => ?_⟩
  · rcases (hmem k').1 hk' with rfl | hk'
    · exact ⟨hself, hi.1, hr⟩
    · rw [hother _ (hi.2 k' hk')]
      exact h.pending k' hk'
  · have hne : l ≠ k.sender := by
      intro heq
      subst heq
      cases hi.1.symm.trans hd
    rw [hother l hne]
    exact h.awaiting l d hd
  · have hne : l ≠ k.sender := by
      intro heq
      subst heq
      cases hr.symm.trans ha
    rw [hother l hne]
    exact h.replied l a ha
  · show k'.sender = l ∧ (k' ∈ (L.record k).pending ++ L.dropped ∨ _)
    rw [hmem]
    by_cases hl : l = k.sender
    · subst hl
      obtain rfl : k = k' := Option.some.inj (hself.symm.trans hk')
      exact ⟨rfl, Or.inl (Or.inl rfl)⟩
    · rw [hother l hl] at hk'
      obtain ⟨hs, hp⟩ := h.sending l k' hk'
      exact ⟨hs, hp.imp_left Or.inr⟩

/-- **The sender of the letter that is received waits for the reply to it.** -/
theorem deliver (h : L.Orderly) (ho : L.ExactlyOnce)
    (hf : L.pending.find? (meets j m) = some k) : (L.deliver j m k).Orderly := by
  have hmem : k ∈ L.pending ++ L.dropped :=
    List.mem_append_left _ (List.mem_of_find?_eq_some hf)
  obtain ⟨hsend, -, hrep⟩ := h.pending k hmem
  have hsub : ∀ k' ∈ L.pending.eraseP (meets j m) ++ L.dropped, k' ∈ L.pending ++ L.dropped := by
    intro k' hk'
    rcases List.mem_append.1 hk' with hk' | hk'
    · exact List.mem_append_left _ (List.mem_of_mem_eraseP hk')
    · exact List.mem_append_right _ hk'
  have hself : (L.deliver j m k).awaiting k.sender = some _ := Function.update_self _ _ _
  have hother : ∀ l, l ≠ k.sender → (L.deliver j m k).awaiting l = L.awaiting l :=
    fun l hl => Function.update_of_ne hl _ _
  refine ⟨fun k' hk' => ?_, fun l d hd => ?_, fun l a ha => ?_, fun l k' hk' => ?_⟩
  · obtain ⟨hs, ha, hr⟩ := h.pending k' (hsub k' hk')
    have hne : k'.sender ≠ k.sender := by
      intro he
      rw [he, hsend] at hs
      exact ho.ne_of_mem_erase hf hk' (Option.some.inj hs).symm
    rw [hother _ hne]
    exact ⟨hs, ha, hr⟩
  · by_cases hl : l = k.sender
    · subst hl
      obtain rfl := Option.some.inj (hself.symm.trans hd)
      exact ⟨hsend, List.mem_append_right _ (List.mem_singleton_self _), hrep⟩
    · rw [hother l hl] at hd
      obtain ⟨hs, hdel, hr⟩ := h.awaiting l d hd
      exact ⟨hs, List.mem_append_left _ hdel, hr⟩
  · obtain ⟨hs, hdel⟩ := h.replied l a ha
    exact ⟨hs, List.mem_append_left _ hdel⟩
  · by_cases hl : l = k.sender
    · subst hl
      obtain rfl : k = k' := Option.some.inj (hsend.symm.trans hk')
      exact ⟨rfl, Or.inr (Or.inl ⟨_, hself⟩)⟩
    · rw [hother l hl]
      obtain ⟨hs, hp⟩ := h.sending l k' hk'
      refine ⟨hs, hp.imp_left fun hp => ?_⟩
      have hne : k' ≠ k := by
        intro heq
        subst heq
        exact hl hs.symm
      rcases List.mem_append.1 hp with hp | hp
      · exact List.mem_append_left _ (mem_eraseP_of_ne hf hp hne)
      · exact List.mem_append_right _ hp

theorem receive (h : L.Orderly) (ho : L.ExactlyOnce) (j : Slot) (m : Mask) :
    (L.receive j m).Orderly := by
  cases hf : L.pending.find? (meets j m) with
  | some k =>
    rw [receive_found hf]
    exact h.deliver ho hf
  | none =>
    rw [receive_none hf]
    exact h.congr (fun _ => Iff.rfl) rfl rfl rfl rfl

theorem settle (h : L.Orderly) (ho : L.ExactlyOnce) (j : Slot) : (L.settle j).Orderly := by
  cases hw : L.wants j with
  | some m =>
    rw [settle_waiting hw]
    exact h.receive ho j m
  | none =>
    rw [settle_idle hw]
    exact h

theorem reply (h : L.Orderly) (i j : Slot) (r : Word) : (L.reply i j r).Orderly := by
  rw [Ledger.reply]
  cases hd : L.awaiting j with
  | none => exact h.congr (fun _ => Iff.rfl) rfl rfl rfl rfl
  | some d =>
    obtain ⟨hs, hdel, -⟩ := h.awaiting j d hd
    refine ⟨fun k hk => ?_, fun l d' hd' => ?_, fun l a ha => ?_, fun l k hk => ?_⟩
    · have hk' := h.pending k hk
      have hne : k.sender ≠ j := by
        intro he
        rw [he, hd] at hk'
        cases hk'.2.1
      show _ ∧ Function.update L.awaiting j none _ = _ ∧ Function.update L.replied j _ _ = _
      rw [Function.update_of_ne hne, Function.update_of_ne hne]
      exact hk'
    · obtain ⟨hne, hd₀⟩ := update_none_eq_some.1 hd'
      show _ ∧ _ ∧ Function.update L.replied j _ _ = _
      rw [Function.update_of_ne hne]
      exact h.awaiting l d' hd₀
    · by_cases hl : l = j
      · subst hl
        obtain rfl := Option.some.inj ((Function.update_self l _ L.replied).symm.trans ha)
        exact ⟨hs, hdel⟩
      · have ha₀ : L.replied l = some a := by
          simpa only [Function.update_of_ne hl] using ha
        exact h.replied l a ha₀
    · obtain ⟨hk', hp⟩ := h.sending l k hk
      refine ⟨hk', ?_⟩
      by_cases hl : l = j
      · subst hl
        exact Or.inr (Or.inr ⟨_, Function.update_self _ _ _⟩)
      · show _ ∨ (∃ d, Function.update L.awaiting j none l = some d) ∨
          ∃ a, Function.update L.replied j _ l = some a
        rw [Function.update_of_ne hl, Function.update_of_ne hl]
        exact hp

/-- **Every call of an idle process keeps the letters in order.** -/
theorem observe (h : L.Orderly) (ho : L.ExactlyOnce) (hi : L.Idle i) (live : Slot → Bool)
    (mem : Addr → Word) (c : ApiCall) : (L.observe i live mem c).Orderly := by
  have hb : (L.begin i).Orderly := h.begin hi
  have hbo : (L.begin i).ExactlyOnce := ho.congr rfl rfl rfl rfl rfl
  apply observe_induction i live mem c hb
  · intro id t v j _ _
    have hr : ((L.begin i).record ((L.begin i).letter i j t v (v.map mem))).Orderly :=
      hb.record hi (Function.update_self _ _ _)
    exact hr.settle (hbo.record rfl rfl) j
  · exact fun m _ _ => hb.receive hbo i m
  · exact fun _ r j _ _ => hb.reply i j r
  · intro id t r j _ _
    obtain ⟨w, g, he⟩ := (L.begin i).notify_frame i j t r
    rw [he]
    exact hb.congr (fun _ => Iff.rfl) rfl rfl rfl rfl
  · intro _
    exact hb.congr (fun k => ((L.begin i).terminate_perm i).mem_iff) rfl rfl rfl rfl

end Orderly

/-! ### What a call changes for the others -/

/-- A receipt is nothing to who sends or has a reply. -/
theorem receive_frame (L : Ledger) (j : Slot) (m : Mask) :
    (L.receive j m).sending = L.sending ∧ (L.receive j m).replied = L.replied := by
  cases hf : L.pending.find? (meets j m) with
  | some k =>
    rw [receive_found hf]
    exact ⟨rfl, rfl⟩
  | none =>
    rw [receive_none hf]
    exact ⟨rfl, rfl⟩

theorem settle_frame (L : Ledger) (j : Slot) :
    (L.settle j).sending = L.sending ∧ (L.settle j).replied = L.replied := by
  cases hw : L.wants j with
  | some m =>
    rw [settle_waiting hw]
    exact L.receive_frame j m
  | none =>
    rw [settle_idle hw]
    exact ⟨rfl, rfl⟩

theorem reply_sending (L : Ledger) (i j : Slot) (r : Word) :
    (L.reply i j r).sending = L.sending := by
  rw [Ledger.reply]
  cases L.awaiting j <;> rfl

/-- Nobody sends for another. -/
theorem observe_sending_other (hj : j ≠ i) :
    (L.observe i live mem c).sending j = L.sending j := by
  have hb : (L.begin i).sending j = L.sending j := Function.update_of_ne hj _ _
  refine observe_induction (P := fun L' => L'.sending j = L.sending j) i live mem c hb
    ?_ ?_ ?_ ?_ ?_
  · intro id t v l _ _
    rw [Ledger.send, (settle_frame _ l).1]
    exact (Function.update_of_ne hj _ _).trans hb
  · intro m _ _
    rw [(receive_frame _ i m).1]
    exact hb
  · intro id r l _ _
    rw [reply_sending]
    exact hb
  · intro id t r l _ _
    obtain ⟨w, g, he⟩ := (L.begin i).notify_frame i l t r
    rw [he]
    exact hb
  · exact fun _ => hb

/-- The letter of a call is the one that its arguments say. -/
theorem observe_sending_self (hk : (L.observe i live mem c).sending i = some k) :
    ∃ id t v, c = .msgSend id t v ∧ id = pidOf k.receiver ∧ t = k.type ∧ v = k.data ∧
      k.value = v.map mem := by
  have hb : (L.begin i).sending i = none := Function.update_self _ _ _
  refine observe_induction (P := fun L' => L'.sending i = some k → ∃ id t v,
    c = .msgSend id t v ∧ id = pidOf k.receiver ∧ t = k.type ∧ v = k.data ∧ k.value = v.map mem)
    i live mem c (fun h => by rw [hb] at h; cases h) ?_ ?_ ?_ ?_ ?_ hk
  · intro id t v l hc hl h
    rw [Ledger.send, (settle_frame _ l).1] at h
    obtain rfl := Option.some.inj ((Function.update_self i _ _).symm.trans h)
    rw [Option.filter_eq_some_iff] at hl
    exact ⟨id, t, v, hc, validId_eq_some.1 hl.1, rfl, rfl, rfl⟩
  · intro m _ _ h
    rw [(receive_frame _ i m).1, hb] at h
    cases h
  · intro id r l _ _ h
    rw [reply_sending, hb] at h
    cases h
  · intro id t r l _ _ h
    obtain ⟨w, g, he⟩ := (L.begin i).notify_frame i l t r
    rw [he] at h
    cases hb.symm.trans h
  · intro _ h
    cases hb.symm.trans h

namespace Orderly

theorem receive_awaiting (h : L.Orderly) (hd : L.awaiting j = some d) (i : Slot) (m : Mask) :
    (L.receive i m).awaiting j = some d := by
  cases hf : L.pending.find? (meets i m) with
  | none =>
    rw [receive_none hf]
    exact hd
  | some k =>
    have hne : j ≠ k.sender := by
      intro heq
      subst heq
      have hk := h.pending k (List.mem_append_left _ (List.mem_of_find?_eq_some hf))
      cases hk.2.1.symm.trans hd
    rw [receive_found hf]
    exact (Function.update_of_ne hne _ _).trans hd

theorem settle_awaiting (h : L.Orderly) (hd : L.awaiting j = some d) (i : Slot) :
    (L.settle i).awaiting j = some d := by
  cases hw : L.wants i with
  | some m =>
    rw [settle_waiting hw]
    exact h.receive_awaiting hd i m
  | none =>
    rw [settle_idle hw]
    exact hd

/-- **Only a reply ends the wait for one.** -/
theorem observe_awaiting (h : L.Orderly) (hi : L.Idle i) (hd : L.awaiting j = some d)
    (live : Slot → Bool) (mem : Addr → Word) (c : ApiCall) :
    (L.observe i live mem c).awaiting j = some d ∨
      ∃ r, c = .msgRply (pidOf j) r ∧ (L.observe i live mem c).replied j =
        some { delivery := d, replier := i, life := L.life i, value := r } := by
  have hb : (L.begin i).Orderly := h.begin hi
  have hbd : (L.begin i).awaiting j = some d := hd
  refine observe_induction (P := fun L' => L'.awaiting j = some d ∨
      ∃ r, c = .msgRply (pidOf j) r ∧ L'.replied j =
        some { delivery := d, replier := i, life := L.life i, value := r })
    i live mem c (Or.inl hbd) ?_ ?_ ?_ ?_ ?_
  · intro id t v l _ _
    have hr : ((L.begin i).record ((L.begin i).letter i l t v (v.map mem))).Orderly :=
      hb.record hi (Function.update_self _ _ _)
    exact Or.inl (hr.settle_awaiting hbd l)
  · exact fun m _ _ => Or.inl (hb.receive_awaiting hbd i m)
  · intro id r l hc hl
    rw [Ledger.reply]
    by_cases hjl : j = l
    · subst hjl
      rw [Option.filter_eq_some_iff] at hl
      rw [hbd]
      refine Or.inr ⟨r, ?_, Function.update_self _ _ _⟩
      rw [hc, validId_eq_some.1 hl.1]
    · left
      cases (L.begin i).awaiting l with
      | none => exact hbd
      | some d' => exact (Function.update_of_ne hjl _ _).trans hbd
  · intro id t r l _ _
    obtain ⟨w, g, he⟩ := (L.begin i).notify_frame i l t r
    rw [he]
    exact Or.inl hbd
  · exact fun _ => Or.inl hbd

/-- A reply is kept until the next call of the process that it is for. -/
theorem observe_replied (h : L.Orderly) (hji : j ≠ i) {a : Answer} (ha : L.replied j = some a) :
    (L.observe i live mem c).replied j = some a := by
  have hb : (L.begin i).replied j = some a := (Function.update_of_ne hji _ _).trans ha
  have hw : (L.begin i).awaiting j = none := by
    cases hd : L.awaiting j with
    | none => exact hd
    | some d => cases (h.awaiting j d hd).2.2.symm.trans ha
  refine observe_induction (P := fun L' => L'.replied j = some a) i live mem c hb ?_ ?_ ?_ ?_ ?_
  · intro id t v l _ _
    rw [Ledger.send, (settle_frame _ l).2]
    exact hb
  · intro m _ _
    rw [(receive_frame _ i m).2]
    exact hb
  · intro id r l _ _
    rw [Ledger.reply]
    by_cases hjl : j = l
    · subst hjl
      rw [hw]
      exact hb
    · cases (L.begin i).awaiting l with
      | none => exact hb
      | some d' => exact (Function.update_of_ne hjl _ _).trans hb
  · intro id t r l _ _
    obtain ⟨w, g, he⟩ := (L.begin i).notify_frame i l t r
    rw [he]
    exact hb
  · exact fun _ => hb

end Orderly

/-! ### Replies from those who owe them -/

/-- A `Msg_Rply` of `i` that reaches a process is owed to that process. -/
def repliesToOwed (L : Ledger) (i : Slot) (c : ApiCall) : Bool :=
  match c with
  | .msgRply id _ => (validId id).all fun j => (L.awaiting j).isNone || L.owes i j
  | _ => true

/-- Who waits for a reply waits for it from the receiver. -/
structure Matched (L : Ledger) : Prop where
  owes : ∀ i j, L.owes i j = true →
    ∃ d, L.awaiting j = some d ∧ d.receiver = i ∧ d.life = L.life i
  /-- Until the next call of the receiver, the sender waits. -/
  got : ∀ i d, L.got i = some (.letter d) →
    d.receiver = i ∧ L.awaiting d.letter.sender = some d
  replied : ∀ i a, L.replied i = some a →
    a.replier = a.delivery.receiver ∧ a.life = a.delivery.life

namespace Matched

theorem empty : Ledger.empty.Matched :=
  ⟨by simp [Ledger.empty], by simp [Ledger.empty], by simp [Ledger.empty]⟩

theorem begin (h : L.Matched) (i : Slot) : (L.begin i).Matched := by
  refine ⟨h.owes, fun l d hd => ?_, fun l a ha => ?_⟩
  · exact h.got l d (update_none_eq_some.1 hd).2
  · exact h.replied l a (update_none_eq_some.1 ha).2

/-- The receiver owes the reply. -/
theorem deliver (h : L.Matched) (hk : L.awaiting k.sender = none) (j : Slot) (m : Mask) :
    (L.deliver j m k).Matched := by
  have hself : (L.deliver j m k).awaiting k.sender =
      some { letter := k, receiver := j, life := L.life j, mask := m } :=
    Function.update_self _ _ _
  have hother : ∀ {l d}, L.awaiting l = some d → (L.deliver j m k).awaiting l = some d := by
    intro l d hd
    have hne : l ≠ k.sender := by
      intro heq
      subst heq
      cases hk.symm.trans hd
    exact (Function.update_of_ne hne _ _).trans hd
  refine ⟨fun i l hl => ?_, fun i d hd => ?_, h.replied⟩
  · by_cases hnew : i = j ∧ l = k.sender
    · obtain ⟨rfl, rfl⟩ := hnew
      exact ⟨_, hself, rfl, rfl⟩
    · have hold : L.owes i l = true := by
        have hl' : Function.update L.owes j (Function.update (L.owes j) k.sender true) i l = true :=
          hl
        by_cases hij : i = j
        · subst hij
          rwa [Function.update_self, Function.update_of_ne fun he => hnew ⟨rfl, he⟩] at hl'
        · rwa [Function.update_of_ne hij] at hl'
      obtain ⟨d, hd, hrecv, hlife⟩ := h.owes i l hold
      exact ⟨d, hother hd, hrecv, hlife⟩
  · by_cases hij : i = j
    · subst hij
      have hd' : some _ = some (Receipt.letter d) :=
        (Function.update_self i _ L.got).symm.trans hd
      obtain rfl := Receipt.letter.inj (Option.some.inj hd')
      exact ⟨rfl, hself⟩
    · have hd' : L.got i = some (.letter d) := (Function.update_of_ne hij _ L.got).symm.trans hd
      obtain ⟨hrecv, hw⟩ := h.got i d hd'
      exact ⟨hrecv, hother hw⟩

theorem receive (h : L.Matched) (ho : L.Orderly) (j : Slot) (m : Mask) :
    (L.receive j m).Matched := by
  cases hf : L.pending.find? (meets j m) with
  | some k =>
    rw [receive_found hf]
    have hk := ho.pending k (List.mem_append_left _ (List.mem_of_find?_eq_some hf))
    exact h.deliver hk.2.1 j m
  | none =>
    rw [receive_none hf]
    exact ⟨h.owes, h.got, h.replied⟩

theorem settle (h : L.Matched) (ho : L.Orderly) (j : Slot) : (L.settle j).Matched := by
  cases hw : L.wants j with
  | some m =>
    rw [settle_waiting hw]
    exact h.receive ho j m
  | none =>
    rw [settle_idle hw]
    exact h

theorem notify (h : L.Matched) (i j : Slot) (t : MType) (r : Word) :
    (L.notify i j t r).Matched := by
  rcases L.notify_cases i j t r with he | he
  · rw [he]
    exact h
  · rw [he]
    refine ⟨h.owes, fun l d hd => ?_, h.replied⟩
    have hne : l ≠ j := by
      intro hlj
      subst hlj
      cases (Function.update_self l _ L.got).symm.trans hd
    exact h.got l d ((Function.update_of_ne hne _ L.got).symm.trans hd)

/-- **The receiver replies.** -/
theorem reply (h : L.Matched) (hg : L.got i = none)
    (ho : L.awaiting j = none ∨ L.owes i j = true) (r : Word) : (L.reply i j r).Matched := by
  have hclear : ∀ l l', (L.clear i j).owes l l' = true →
      L.owes l l' = true ∧ ¬ (l = i ∧ l' = j) := by
    intro l l' hl
    have hl' : Function.update L.owes i (Function.update (L.owes i) j false) l l' = true := hl
    by_cases hli : l = i
    · subst hli
      rw [Function.update_self] at hl'
      by_cases hlj : l' = j
      · subst hlj
        simp at hl'
      · rw [Function.update_of_ne hlj] at hl'
        exact ⟨hl', fun he => hlj he.2⟩
    · rw [Function.update_of_ne hli] at hl'
      exact ⟨hl', fun he => hli he.1⟩
  rw [Ledger.reply]
  cases hd : L.awaiting j with
  | none => exact ⟨fun l l' hl => h.owes l l' (hclear l l' hl).1, h.got, h.replied⟩
  | some d =>
    have howes : L.owes i j = true := by
      rcases ho with hnone | howes
      · cases hnone.symm.trans hd
      · exact howes
    obtain ⟨d₀, hd₀, hrecv, hlife⟩ := h.owes i j howes
    have hsame : ∀ {d'}, L.awaiting j = some d' → d' = d₀ :=
      fun hd' => Option.some.inj (hd'.symm.trans hd₀)
    refine ⟨fun l l' hl => ?_, fun l d' hl => ?_, fun l a ha => ?_⟩
    · obtain ⟨hold, hne⟩ := hclear l l' hl
      obtain ⟨d', hd', hrecv', hlife'⟩ := h.owes l l' hold
      have hlj : l' ≠ j := by
        -- only the receiver owes `j` a reply
        intro hlj
        rw [hlj] at hd'
        rw [hsame hd', hrecv] at hrecv'
        exact hne ⟨hrecv'.symm, hlj⟩
      exact ⟨d', (Function.update_of_ne hlj _ L.awaiting).trans hd', hrecv', hlife'⟩
    · have hl' : L.got l = some (.letter d') := hl
      obtain ⟨hrecv', hw⟩ := h.got l d' hl'
      have hlj : d'.letter.sender ≠ j := by
        -- the receiver has made another call
        intro he
        rw [he] at hw
        rw [hsame hw, hrecv] at hrecv'
        rw [← hrecv', hg] at hl'
        cases hl'
      exact ⟨hrecv', (Function.update_of_ne hlj _ L.awaiting).trans hw⟩
    · by_cases hlj : l = j
      · subst hlj
        obtain rfl := Option.some.inj ((Function.update_self l _ L.replied).symm.trans ha)
        rw [hsame hd]
        exact ⟨hrecv.symm, hlife.symm⟩
      · exact h.replied l a ((Function.update_of_ne hlj _ L.replied).symm.trans ha)

theorem terminate (h : L.Matched) (i : Slot) : (L.terminate i).Matched := by
  refine ⟨fun l l' hl => ?_, h.got, h.replied⟩
  have hl' : Function.update L.owes i (fun _ => false) l l' = true := hl
  have hne : l ≠ i := by
    intro heq
    subst heq
    simp at hl'
  rw [Function.update_of_ne hne] at hl'
  obtain ⟨d, hd, hrecv, hlife⟩ := h.owes l l' hl'
  exact ⟨d, hd, hrecv, hlife.trans (Function.update_of_ne hne _ L.life).symm⟩

/-- **Replies stay with the receivers while tasks reply to whom they owe.** -/
theorem observe (h : L.Matched) (ho : L.Orderly) (hi : L.Idle i)
    (hc : L.repliesToOwed i c = true) (live : Slot → Bool) (mem : Addr → Word) :
    (L.observe i live mem c).Matched := by
  have hb : (L.begin i).Matched := h.begin i
  have hbo : (L.begin i).Orderly := ho.begin hi
  apply observe_induction i live mem c hb
  · intro id t v j _ _
    have hr : ((L.begin i).record ((L.begin i).letter i j t v (v.map mem))).Matched :=
      ⟨hb.owes, hb.got, hb.replied⟩
    exact hr.settle (hbo.record hi (Function.update_self _ _ _)) j
  · exact fun m _ _ => hb.receive hbo i m
  · intro id r j hmsg hj
    rw [Option.filter_eq_some_iff] at hj
    rw [hmsg, repliesToOwed, hj.1] at hc
    have hc' : (L.awaiting j).isNone = true ∨ L.owes i j = true := by
      simpa using hc
    exact hb.reply (Function.update_self _ _ _) (hc'.imp_left Option.isNone_iff_eq_none.1) r
  · exact fun _ t r j _ _ => hb.notify i j t r
  · exact fun _ => hb.terminate i

end Matched

end Ledger

theorem Agrees.idle {x : Exchange} {L : Ledger} {i : Slot} (h : Agrees x L)
    (hi : x.phase i = .active) : L.Idle i :=
  ⟨h.awaiting_none (by simp [hi]), h.sender_ne (by simp [hi])⟩

namespace Tracked

variable {T₀ T T' : Tracked} {a : Sched} {e : Event} {es : List Event} {i j : Slot}

/-! ### Replies in a run -/

/-- A `Msg_Rply` that reaches a process is owed to it. -/
def repliesToOwed (T : Tracked) (e : Event) : Bool :=
  match e, T.sys.kernel.cp with
  | .call c, some (.process i) => T.ledger.repliesToOwed i c
  | _, _ => true

/-- The letters are in order, and a process that sent one is inside of the call. -/
structure Corresponds (T : Tracked) : Prop where
  follows : ∃ a, T.Follows a
  orderly : T.ledger.Orderly
  inside : ∀ i k, T.ledger.sending i = some k →
    T.sys.call (.process i) = some (.msgSend (pidOf k.receiver) k.type k.data) ∨
      T.sys.call (.process i) = none ∧ ∃ a, T.ledger.replied i = some a

namespace Corresponds

theorem initial (h : T.Initial) : T.Corresponds := by
  refine ⟨h.follows, ?_, fun i k hk => ?_⟩
  · rw [h.2]
    exact Ledger.Orderly.empty
  · rw [h.2] at hk
    cases hk

/-- The running process waits for nothing. -/
theorem idle (h : T.Corresponds) (hcp : T.sys.kernel.cp = some (.process i)) :
    T.ledger.Idle i := by
  obtain ⟨a, ha⟩ := h.follows
  exact ha.agrees.idle (ha.active hcp)

theorem step (h : T.Corresponds) (hs : T.Step e T') : T'.Corresponds := by
  obtain ⟨a, ha⟩ := h.follows
  refine ⟨ha.step hs, ?_, fun l k hk => ?_⟩
  · rcases ha.event hs with ⟨hL, -⟩ | ⟨i, c, a', -, hcp, -, -, -, -, -, hL, -⟩
    · rw [hL]
      exact h.orderly
    · rw [hL]
      exact h.orderly.observe ha.once (h.idle hcp) _ _ c
  · rcases ha.event hs with ⟨hL, -, -, -, -, hcall⟩ |
      ⟨i, c, a', -, hcp, -, -, -, -, -, hL, -, hcall⟩
    · rw [hL] at hk ⊢
      rcases hcall l with hsame | ⟨hnone, hcp⟩
      · rw [hsame]
        exact h.inside l k hk
      · -- the call returns, so it has been replied to
        obtain ⟨a, hrep, -⟩ := h.orderly.replied_of_idle (h.idle hcp) hk
        exact Or.inr ⟨hnone, a, hrep⟩
    · rw [hL] at hk ⊢
      rw [hcall]
      by_cases hl : l = i
      · subst hl
        obtain ⟨id, t, v, rfl, rfl, rfl, rfl, -⟩ := Ledger.observe_sending_self hk
        exact Or.inl (Function.update_self _ _ _)
      · rw [Ledger.observe_sending_other hl] at hk
        rw [Function.update_of_ne (by simpa using hl)]
        refine (h.inside l k hk).imp_right fun ⟨hnone, a, hrep⟩ => ⟨hnone, a, ?_⟩
        exact h.orderly.observe_replied hl hrep

theorem of_run (h : Run Step T₀ es T) (h0 : T₀.Initial) : T.Corresponds :=
  h.invariant (P := fun T => T.Corresponds) (initial h0) fun _ _ _ h hs => h.step hs

end Corresponds

/-- A run in which tasks reply only to whom they owe a reply. -/
def Mannerly (T₀ : Tracked) (es : List Event) (T : Tracked) : Prop :=
  Run (fun T e T' => T.Step e T' ∧ T.repliesToOwed e = true) T₀ es T

theorem Mannerly.run (h : Mannerly T₀ es T) : Run Step T₀ es T :=
  Run.mono h fun _ _ _ hs => hs.1

/-- **In a run of this kind it is the receivers who reply.** -/
theorem Mannerly.matched (h : Mannerly T₀ es T) (h0 : T₀.Initial) : T.ledger.Matched := by
  have hboth : T.Corresponds ∧ T.ledger.Matched := by
    refine Run.invariant (P := fun T => T.Corresponds ∧ T.ledger.Matched) h ?_ ?_
    · refine ⟨Corresponds.initial h0, ?_⟩
      rw [h0.2]
      exact Ledger.Matched.empty
    · intro T e T' ⟨hc, hm⟩ ⟨hs, howed⟩
      refine ⟨hc.step hs, ?_⟩
      obtain ⟨a, ha⟩ := hc.follows
      rcases ha.event hs with ⟨hL, -⟩ | ⟨i, c, a', rfl, hcp, -, -, -, -, -, hL, -⟩
      · rw [hL]
        exact hm
      · simp only [repliesToOwed, hcp] at howed
        rw [hL]
        exact hm.observe hc.orderly (hc.idle hcp) howed _ _
  exact hboth.2

theorem phase_replyBlock {st : ProcessState} : st.phase = .replyBlock ↔ st = .replyBlock := by
  cases st <;> simp [ProcessState.phase]

/-- What becomes of the processes that wait for a reply when `e` happens. -/
structure Replies (T : Tracked) (e : Event) (T' : Tracked) : Prop where
  /-- They are those whose letter was received. -/
  waits : ∀ i, (T.sys.kernel.pd (.process i)).state = .replyBlock ↔
    ∃ d, T.ledger.awaiting i = some d
  /-- They are inside of the `Msg_Send` of that letter. -/
  inside : ∀ i d, T.ledger.awaiting i = some d → d ∈ T.ledger.delivered ∧ d.letter.sender = i ∧
    T.sys.call (.process i) = some (.msgSend (pidOf d.letter.receiver) d.letter.type d.letter.data)
  /-- Only a `Msg_Rply` that names it lets a process go on. -/
  leaves : ∀ i d, T.ledger.awaiting i = some d →
    ((T'.sys.kernel.pd (.process i)).state = .replyBlock ∧ T'.ledger.awaiting i = some d) ∨
    ∃ j r, T.sys.kernel.cp = some (.process j) ∧ e = .call (.msgRply (pidOf i) r) ∧
      T'.ledger.replied i =
        some { delivery := d, replier := j, life := T.ledger.life j, value := r }
  /-- The reply is kept until the next call of the process. -/
  keeps : ∀ i b, T.ledger.replied i = some b → T'.ledger.replied i = some b ∨
    ∃ c, T.sys.kernel.cp = some (.process i) ∧ e = .call c
  /-- A `Msg_Send` that returns has a reply to its letter, and stores the value of it. -/
  stores : ∀ i id t v k, T.sys.kernel.cp = some (.process i) →
    T.sys.call (.process i) = some (.msgSend id t v) → T.ledger.sending i = some k → e = .ret →
    ∃ b, T.ledger.replied i = some b ∧ b.delivery.letter = k ∧
      T'.sys.mem = ApiCall.store T.sys.mem v b.value

theorem Follows.waits_reply (h : T.Follows a) (i : Slot) :
    (T.sys.kernel.pd (.process i)).state = .replyBlock ↔ ∃ d, T.ledger.awaiting i = some d := by
  rw [← phase_replyBlock, ← h.represents.phase_eq]
  exact h.agrees.replyBlock i

theorem Corresponds.replies (h : T.Corresponds) (hs : T.Step e T') : T.Replies e T' := by
  obtain ⟨a, ha⟩ := h.follows
  obtain ⟨a', ha'⟩ := ha.step hs
  refine ⟨ha.waits_reply, fun i d hd => ?_, fun i d hd => ?_, fun i b hb => ?_,
    fun i id t v k hcp hcall hk he => ?_⟩
  · obtain ⟨hk, hdel, hrep⟩ := h.orderly.awaiting i d hd
    refine ⟨hdel, (h.orderly.sending i _ hk).1, ?_⟩
    rcases h.inside i _ hk with hcall | ⟨-, b, hb⟩
    · exact hcall
    · cases hrep.symm.trans hb
  · rcases ha.event hs with ⟨hL, -⟩ | ⟨j, c, -, rfl, hcp, -, -, -, -, -, hL, -⟩
    · rw [← hL] at hd
      exact Or.inl ⟨(ha'.waits_reply i).2 ⟨d, hd⟩, hd⟩
    · rcases h.orderly.observe_awaiting (h.idle hcp) hd _ _ c with hd' | ⟨r, rfl, hrep⟩
      · rw [← hL] at hd'
        exact Or.inl ⟨(ha'.waits_reply i).2 ⟨d, hd'⟩, hd'⟩
      · rw [← hL] at hrep
        exact Or.inr ⟨j, r, hcp, rfl, hrep⟩
  · rcases ha.event hs with ⟨hL, -⟩ | ⟨j, c, -, rfl, hcp, -, -, -, -, -, hL, -⟩
    · rw [hL]
      exact Or.inl hb
    · by_cases hij : i = j
      · subst hij
        exact Or.inr ⟨c, hcp, rfl⟩
      · rw [hL]
        exact Or.inl (h.orderly.observe_replied hij hb)
  · obtain ⟨b, hb, hbk⟩ := h.orderly.replied_of_idle (h.idle hcp) hk
    refine ⟨b, hb, hbk, ?_⟩
    have hval := ha.agrees.replied i b hb
    rw [ha.slip_eq] at hval
    subst he
    obtain ⟨cp, hcp', ⟨he, -⟩ | ⟨c, -, he, -⟩ | ⟨c, -, hc, hT⟩ | ⟨a, x, he, -⟩⟩ :=
      System.step_cases hs.1
    · cases he
    · cases he
    · obtain rfl : PDPtr.process i = cp := Option.some.inj (hcp.symm.trans hcp')
      obtain rfl : .msgSend id t v = c := Option.some.inj (hcall.symm.trans hc)
      rw [hT]
      show ApiCall.store T.sys.mem v _ = _
      rw [← hval]
      rfl
    · cases he

/-- The process that lets another go on is the one that received its letter. -/
def RepliedByReceiver (T : Tracked) (e : Event) : Prop :=
  ∀ i j d r, T.ledger.awaiting i = some d → T.sys.kernel.cp = some (.process j) →
    e = .call (.msgRply (pidOf i) r) → j = d.receiver ∧ T.ledger.life j = d.life

/-- **Reply integrity.**  A process leaves `REPLY_BLOCK` only by a `Msg_Rply` that names it, and
stores the value of that reply; if tasks reply only to whom they owe a reply, then it comes from
the receiver of the message. -/
theorem reply_integrity (h0 : T₀.Initial) (hr : Run Step T₀ es T) (hs : T.Step e T') :
    T.Replies e T' ∧
      (Mannerly T₀ es T → T.repliesToOwed e = true → T.RepliedByReceiver e) := by
  refine ⟨(Corresponds.of_run hr h0).replies hs, fun hm howed i j d r hd hcp he => ?_⟩
  have howes : T.ledger.owes j i = true := by
    simp only [he, repliesToOwed, hcp] at howed
    simpa [Ledger.repliesToOwed, validId_pidOf, hd] using howed
  obtain ⟨d', hd', hrecv, hlife⟩ := (hm.matched h0).owes j i howes
  obtain rfl : d = d' := Option.some.inj (hd.symm.trans hd')
  exact ⟨hrecv.symm, hlife.symm⟩

/-- Task `1` sends a message with the variable `7`, task `2` receives it, and task `3` runs. -/
def askedAndReceived : List Event :=
  [.call (.taskCreateRR (some 3) 0), .ret, .call (.taskCreateRR (some 4) 0), .ret,
    .call (.taskCreateRR (some 5) 0), .ret, .call .taskTerminate, .store 7 42,
    .call (.msgSend 2 1 (some 7)), .call (.msgRecv 1 (some 8))]

/-- Task `2` replies while task `1` waits. -/
theorem reply_integrity_of_receiver :
    ∃ p ∈ (after repliesToOwed 1 2 (fun _ => 0) (askedAndReceived ++ [.timer, .ret])).bind fun T =>
        (T.advance repliesToOwed (.call (.msgRply 1 99))).map fun T' => (T, T'),
      p.1.Replies (.call (.msgRply 1 99)) p.2 ∧ p.1.RepliedByReceiver (.call (.msgRply 1 99)) := by
  apply exists_mem_of_isSome (by decide +kernel)
  intro p hp
  obtain ⟨T, hT, hp⟩ := Option.bind_eq_some_iff.1 hp
  obtain ⟨T', hT', rfl⟩ := Option.map_eq_some_iff.1 hp
  obtain ⟨T₀, h0, hm⟩ := run_of_after hT
  obtain ⟨hs, howed⟩ := advance_step hT'
  have h := reply_integrity h0 (Mannerly.run hm) hs
  exact ⟨h.1, h.2 hm howed⟩

/-- The kernel asks nobody for the receipt: task `2` received the message of task `1`, and task
`3` replies. -/
theorem third_party_reply :
    ∃ p ∈ (after (fun _ _ => true) 1 2 (fun _ => 0) askedAndReceived).bind fun T =>
        (T.sys.advance (.call (.msgRply 1 99))).bind fun s => (s.advance .ret).map fun s' =>
          (T, s, s'),
      ((∃ T₀ es, T₀.Initial ∧ Run Step T₀ es p.1) ∧
        p.1.sys.Step (.call (.msgRply 1 99)) p.2.1 ∧ p.2.1.Step .ret p.2.2) ∧
      (p.1.ledger.awaiting 1).map Delivery.receiver = some 2 ∧
      (p.1.sys.kernel.pd (.process 1)).state = .replyBlock ∧
      p.1.sys.kernel.cp = some (.process 3) ∧
      p.2.1.kernel.cp = some (.process 1) ∧ p.2.2.mem 7 = 99 := by
  have hex : ∃ p ∈ ((after (fun _ _ => true) 1 2 (fun _ => 0) askedAndReceived).bind fun T =>
      (T.sys.advance (.call (.msgRply 1 99))).bind fun s => (s.advance .ret).map fun s' =>
        (T, s, s')).filter fun p =>
      (p.1.ledger.awaiting 1).map Delivery.receiver = some 2 ∧
      (p.1.sys.kernel.pd (.process 1)).state = .replyBlock ∧
      p.1.sys.kernel.cp = some (.process 3) ∧
      p.2.1.kernel.cp = some (.process 1) ∧ p.2.2.mem 7 = 99, True :=
    exists_mem_of_isSome (by decide +kernel) fun _ _ => trivial
  obtain ⟨p, hp, -⟩ := hex
  obtain ⟨hp, hfacts⟩ := Option.filter_eq_some_iff.1 hp
  refine ⟨p, hp, ?_, of_decide_eq_true hfacts⟩
  obtain ⟨T, hT, hp⟩ := Option.bind_eq_some_iff.1 hp
  obtain ⟨s, hs, hp⟩ := Option.bind_eq_some_iff.1 hp
  obtain ⟨s', hs', rfl⟩ := Option.map_eq_some_iff.1 hp
  obtain ⟨T₀, h0, hrun⟩ := run_of_after hT
  exact ⟨⟨T₀, _, h0, hrun.mono fun _ _ _ h => h.1⟩, System.advance_step hs,
    System.advance_step hs'⟩

/-! ### What the receiver reads -/

/-- A run in which nobody but the process `i` writes the variable `v`. -/
def Private (i : Slot) (v : Addr) (T₀ : Tracked) (es : List Event) (T : Tracked) : Prop :=
  Run (fun T e T' => T.Step e T' ∧ T.sys.spares i v e = true) T₀ es T

theorem Private.run {v : Addr} (h : Private i v T₀ es T) : Run Step T₀ es T :=
  Run.mono h fun _ _ _ hs => hs.1

/-- Until its call returns, the letter that `i` has sent says what the variable `v` holds. -/
def Current (T : Tracked) (i : Slot) (v : Addr) : Prop :=
  ∀ k, T.ledger.sending i = some k → T.sys.call (.process i) ≠ none → k.data = some v →
    k.value = some (T.sys.mem v)

/-- The sender is inside of its call, and nobody else writes its variable. -/
theorem Corresponds.current_step {v : Addr} (h : T.Corresponds) (hc : T.Current i v)
    (hs : T.Step e T') (hv : T.sys.spares i v e = true) : T'.Current i v := by
  obtain ⟨a, ha⟩ := h.follows
  intro k hk hin hkv
  rcases ha.event hs with ⟨hL, -, -, -, -, hcall⟩ |
    ⟨j, c, -, -, hcp, -, -, -, -, -, hL, hmem, hcall⟩
  · rw [hL] at hk
    rcases hcall i with hsame | ⟨hnone, -⟩
    · rw [System.mem_of_inside hs.1 hv (hsame ▸ hin) hin]
      exact hc k hk (hsame ▸ hin) hkv
    · exact absurd hnone hin
  · rw [hL] at hk
    rw [hmem]
    by_cases hij : i = j
    · subst hij
      obtain ⟨id, t, v', -, -, -, hdata, hvalue⟩ := Ledger.observe_sending_self hk
      rw [hvalue, hdata, hkv]
      rfl
    · rw [Ledger.observe_sending_other hij] at hk
      rw [hcall, Function.update_of_ne (by simpa using hij)] at hin
      exact hc k hk hin hkv

theorem Private.current {v : Addr} (h : Private i v T₀ es T) (h0 : T₀.Initial) :
    T.Current i v := by
  have hboth : T.Corresponds ∧ T.Current i v := by
    refine Run.invariant (P := fun T => T.Corresponds ∧ T.Current i v) h ?_ ?_
    · refine ⟨Corresponds.initial h0, fun k hk => ?_⟩
      rw [h0.2] at hk
      cases hk
    · intro T e T' ⟨hc, hcur⟩ ⟨hs, hv⟩
      exact ⟨hc.step hs, hc.current_step hcur hs hv⟩
  exact hboth.2

/-- The sender of the letter `d` has not returned from the `Msg_Send` in which it sent it. -/
def Inside (T : Tracked) (d : Delivery) : Prop :=
  T.ledger.sending d.letter.sender = some d.letter ∧
    T.sys.call (.process d.letter.sender) ≠ none

/-- Who waits for a reply is inside of its `Msg_Send`. -/
theorem Corresponds.inside_of_awaiting {d : Delivery} (h : T.Corresponds)
    (hd : T.ledger.awaiting d.letter.sender = some d) : T.Inside d := by
  obtain ⟨hk, -, hrep⟩ := h.orderly.awaiting _ d hd
  refine ⟨hk, ?_⟩
  rcases h.inside _ _ hk with hcall | ⟨-, b, hb⟩
  · rw [hcall]
    exact Option.some_ne_none _
  · cases hrep.symm.trans hb

/-- **Value fidelity.**  What a `Msg_Recv` stores is what the variable of the sender held when it
was sent, if the sender has not returned from its `Msg_Send` when the receiver reads it; if tasks
reply only to whom they owe a reply, then the sender still waits. -/
theorem value_fidelity {v : Addr} {w : Option Addr} {m : Mask} {d : Delivery}
    (h0 : T₀.Initial) (hr : Private i v T₀ es T) (hs : T.Step .ret T')
    (hcp : T.sys.kernel.cp = some (.process j))
    (hcall : T.sys.call (.process j) = some (.msgRecv m w))
    (hgot : T.ledger.got j = some (.letter d)) (hd : d.letter.sender = i)
    (hv : d.letter.data = some v) (hin : T.Inside d ∨ Mannerly T₀ es T) :
    (Mannerly T₀ es T → T.ledger.awaiting i = some d) ∧
      ∃ x, d.letter.value = some x ∧ T'.sys.mem = ApiCall.store T.sys.mem w x := by
  have hc := Corresponds.of_run hr.run h0
  obtain ⟨a, ha⟩ := hc.follows
  have hwaits : Mannerly T₀ es T → T.ledger.awaiting i = some d := by
    intro hm
    rw [← hd]
    exact ((hm.matched h0).got j d hgot).2
  refine ⟨hwaits, ?_⟩
  obtain ⟨hsend, hinside⟩ : T.Inside d := by
    rcases hin with hin | hm
    · exact hin
    · exact hc.inside_of_awaiting (hd ▸ hwaits hm)
  rw [hd] at hsend hinside
  refine ⟨T.sys.mem v, hr.current h0 _ hsend hinside hv, ?_⟩
  obtain ⟨-, hptr⟩ := ha.agrees.got j _ hgot
  rw [ha.slip_eq] at hptr
  obtain ⟨cp, hcp', ⟨he, -⟩ | ⟨c, -, he, -⟩ | ⟨c, -, hc', hT⟩ | ⟨b, x, he, -⟩⟩ :=
    System.step_cases hs.1
  · cases he
  · cases he
  · obtain rfl : PDPtr.process j = cp := Option.some.inj (hcp.symm.trans hcp')
    obtain rfl : .msgRecv m w = c := Option.some.inj (hcall.symm.trans hc')
    have hreceived : ApiCall.received (T.sys.kernel.info (.stub (.process j))) T.sys.mem =
        T.sys.mem v := by
      have hptr' : (T.sys.kernel.info (.stub (.process j))).msgPtrData = some v :=
        hptr.trans hv
      simp only [ApiCall.received, hptr']
    rw [hT, ← hreceived]
    rfl
  · cases he

/-- Task `3` has replied to task `1`, and task `2` reads the variable before task `1` returns. -/
theorem value_fidelity_across_switch :
    ∃ p ∈ ((after (fun T e => T.sys.spares 1 7 e) 1 2 (fun _ => 0)
          (askedAndReceived ++ [.call (.msgRply 1 99), .timer])).bind fun T =>
        (T.advance (fun _ _ => true) .ret).map fun T' => (T, T')).filter fun p =>
          p.1.sys.kernel.cp = some (.process 2) ∧
          p.1.sys.call (.process 2) = some (.msgRecv 1 (some 8)) ∧
          p.1.ledger.got 2 = some (.letter
            { letter := ⟨0, 1, 2, 0, 1, some 7, some 42⟩, receiver := 2, life := 0, mask := 1 }) ∧
          p.1.ledger.sending 1 = some ⟨0, 1, 2, 0, 1, some 7, some 42⟩ ∧
          p.1.sys.call (.process 1) ≠ none ∧ p.1.ledger.awaiting 1 = none,
      p.2.sys.mem 8 = 42 := by
  apply exists_mem_of_isSome (by decide +kernel)
  intro p hp
  obtain ⟨hp, hfacts⟩ := Option.filter_eq_some_iff.1 hp
  obtain ⟨hcp, hcall, hgot, hsend, hinside, -⟩ := of_decide_eq_true hfacts
  obtain ⟨T, hT, hp⟩ := Option.bind_eq_some_iff.1 hp
  obtain ⟨T', hT', rfl⟩ := Option.map_eq_some_iff.1 hp
  obtain ⟨T₀, h0, hpriv⟩ := run_of_after hT
  obtain ⟨-, x, hx, hmem⟩ := value_fidelity h0 hpriv (advance_step hT').1 hcp hcall hgot rfl rfl
    (Or.inl ⟨hsend, hinside⟩)
  show T'.sys.mem 8 = 42
  rw [hmem, ← Option.some.inj hx]
  rfl

/-- Task `3` replies to task `1` before task `2` has read the variable: task `2` reads the
reply. -/
theorem value_overwritten_by_reply :
    ∃ p ∈ (after (fun T e => T.sys.spares 1 7 e) 1 2 (fun _ => 0)
        (askedAndReceived ++ [.call (.msgRply 1 99), .ret, .timer])).bind fun T =>
          (T.sys.advance .ret).map fun s => (T, s),
      ((∃ T₀ es, T₀.Initial ∧ Private 1 7 T₀ es p.1) ∧ p.1.sys.Step .ret p.2) ∧
      p.1.sys.kernel.cp = some (.process 2) ∧
      p.1.sys.call (.process 2) = some (.msgRecv 1 (some 8)) ∧
      p.1.ledger.got 2 = some (.letter
        { letter := ⟨0, 1, 2, 0, 1, some 7, some 42⟩, receiver := 2, life := 0, mask := 1 }) ∧
      p.2.mem 8 = 99 := by
  have hex : ∃ p ∈ ((after (fun T e => T.sys.spares 1 7 e) 1 2 (fun _ => 0)
      (askedAndReceived ++ [.call (.msgRply 1 99), .ret, .timer])).bind fun T =>
        (T.sys.advance .ret).map fun s => (T, s)).filter fun p =>
      p.1.sys.kernel.cp = some (.process 2) ∧
      p.1.sys.call (.process 2) = some (.msgRecv 1 (some 8)) ∧
      p.1.ledger.got 2 = some (.letter
        { letter := ⟨0, 1, 2, 0, 1, some 7, some 42⟩, receiver := 2, life := 0, mask := 1 }) ∧
      p.2.mem 8 = 99, True :=
    exists_mem_of_isSome (by decide +kernel) fun _ _ => trivial
  obtain ⟨p, hp, -⟩ := hex
  obtain ⟨hp, hfacts⟩ := Option.filter_eq_some_iff.1 hp
  refine ⟨p, hp, ?_, of_decide_eq_true hfacts⟩
  obtain ⟨T, hT, hp⟩ := Option.bind_eq_some_iff.1 hp
  obtain ⟨s, hs, rfl⟩ := Option.map_eq_some_iff.1 hp
  obtain ⟨T₀, h0, hrun⟩ := run_of_after hT
  exact ⟨⟨T₀, _, h0, hrun⟩, System.advance_step hs⟩

end Tracked

end RoombaRtos
