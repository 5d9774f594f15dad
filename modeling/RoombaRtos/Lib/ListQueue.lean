import Mathlib.Data.List.Basic
import Mathlib.Data.List.Find
import Mathlib.Data.List.Perm.Basic
import Mathlib.Data.List.Rotate
import Mathlib.Data.List.TakeWhile

/-!
# Queues as lists

The list counterparts of the queue operations of a scheduler and of a mailbox.

* `rotateTo p l` — the rotation of `l` that brings its first element satisfying `p` to the
  front (`l` itself when there is none); `sublist_rotateTo` says what keeps its place,
  `rotateTo_eq_self_iff` when everything does;
* `placeBehind keep x l` — `x` inserted behind the longest prefix of `l` satisfying `keep`;
  `placeBehind_pairwise` says when this preserves an order, `placeBehind_sorted_iff` exactly when
  it preserves the order of a key; `search_sorted` says where the search for the place stops;
* `filter_not_eraseP`, `key_ne_of_mem_eraseP` — what remains when the first match is taken;
* `Within p q k l` — a `p` stands behind at most `k` elements with `q`; `Within.eraseP` says that
  taking first matches lets it move up, and `Within.take` by one if the match is for `q`.
-/

namespace ListQueue

variable {α : Type*}

/-! ### Rotation to the first match -/

/-- Rotate so that the first element satisfying `p` comes first. -/
def rotateTo (p : α → Bool) (l : List α) : List α :=
  l.dropWhile (fun a => !p a) ++ l.takeWhile (fun a => !p a)

theorem rotateTo_perm (p : α → Bool) (l : List α) : (rotateTo p l).Perm l := by
  rw [rotateTo]
  exact List.perm_append_comm.trans (by rw [List.takeWhile_append_dropWhile])

theorem rotateTo_isRotated (p : α → Bool) (l : List α) : (rotateTo p l).IsRotated l := by
  rw [rotateTo]
  exact List.isRotated_append.trans (by rw [List.takeWhile_append_dropWhile])

@[simp] theorem mem_rotateTo {p : α → Bool} {l : List α} {a : α} : a ∈ rotateTo p l ↔ a ∈ l :=
  (rotateTo_perm p l).mem_iff

theorem rotateTo_eq_self {p : α → Bool} {l : List α} (h : ∀ a ∈ l, p a = false) :
    rotateTo p l = l := by
  have hd : l.dropWhile (fun a => !p a) = [] := by
    rw [List.dropWhile_eq_nil_iff]
    intro a ha
    simp [h a ha]
  have ht : l.takeWhile (fun a => !p a) = l := by
    rw [List.takeWhile_eq_self_iff]
    intro a ha
    simp [h a ha]
  rw [rotateTo, hd, ht, List.nil_append]

/-- Nothing moves when the head already satisfies `p`. -/
theorem rotateTo_cons_self {p : α → Bool} {a : α} {l : List α} (h : p a = true) :
    rotateTo p (a :: l) = a :: l := by
  simp [rotateTo, h]

/-- The rotation passes over a prefix in which nothing satisfies `p`. -/
theorem rotateTo_append_cons {p : α → Bool} {a : α} {l r : List α}
    (hl : ∀ b ∈ l, p b = false) (h : p a = true) :
    rotateTo p (l ++ a :: r) = a :: r ++ l := by
  have hpos : ∀ b ∈ l, (!p b) = true := fun b hb => by simp [hl b hb]
  rw [rotateTo, List.dropWhile_append_of_pos hpos, List.takeWhile_append_of_pos hpos]
  simp [h]

theorem rotateTo_head? (p : α → Bool) (l : List α) (h : ∃ b ∈ l, p b = true) :
    (rotateTo p l).head? = l.find? p := by
  induction l with
  | nil => simp at h
  | cons a l ih =>
    by_cases ha : p a = true
    · simp [rotateTo_cons_self ha, ha]
    · have hl : ∃ b ∈ l, p b = true := by
        obtain ⟨b, hb, hpb⟩ := h
        rcases List.mem_cons.1 hb with rfl | hb
        · exact absurd hpb ha
        · exact ⟨b, hb, hpb⟩
      have ha' : p a = false := by simpa using ha
      have hne : l.dropWhile (fun a => !p a) ≠ [] := by
        rw [ne_eq, List.dropWhile_eq_nil_iff]
        obtain ⟨b, hb, hpb⟩ := hl
        intro hall
        simpa [hpb] using hall b hb
      rw [List.find?_cons_of_neg (by simp [ha'])]
      rw [← ih hl]
      simp only [rotateTo, List.dropWhile_cons, ha', Bool.not_false, if_true]
      rw [List.head?_append_of_ne_nil _ hne, List.head?_append_of_ne_nil _ hne]

/-- If the first match is `b`, the rotation starts with `b`. -/
theorem rotateTo_of_find? {p : α → Bool} {l : List α} {b : α} (h : l.find? p = some b) :
    ∃ r, rotateTo p l = b :: r := by
  have hb : ∃ b ∈ l, p b = true := ⟨b, List.mem_of_find?_eq_some h, List.find?_some h⟩
  have hh := rotateTo_head? p l hb
  rw [h] at hh
  cases hr : rotateTo p l with
  | nil => simp [hr] at hh
  | cons c r =>
    rw [hr] at hh
    exact ⟨r, by simpa using hh⟩

/-- What stands behind a match is still behind it after a rotation to another match. -/
theorem sublist_rotateTo {p : α → Bool} {l : List α} {x y z : α} (h : [x, y].Sublist l)
    (hx : p x = true) (hz : l.find? p = some z) (hne : z ≠ x) :
    ∃ r, rotateTo p l = z :: r ∧ [x, y].Sublist r := by
  obtain ⟨hpz, l₁, l₂, rfl, hl₁⟩ := List.find?_eq_some_iff_append.1 hz
  have hnot : ∀ b ∈ l₁, p b = false := fun b hb => by simpa using hl₁ b hb
  have hx₁ : x ∉ l₁ := by
    intro hm
    rw [hnot x hm] at hx
    cases hx
  refine ⟨l₂ ++ l₁, rotateTo_append_cons hnot hpz, ?_⟩
  obtain ⟨s₁, s₂, hs, hs₁, hs₂⟩ := List.sublist_append_iff.1 h
  cases s₁ with
  | cons b s₁ =>
    have hb : x = b := (List.cons.inj hs).1
    exact absurd (hs₁.subset (by simp [hb])) hx₁
  | nil =>
    rw [List.nil_append] at hs
    subst hs
    rcases List.sublist_cons_iff.1 hs₂ with hs | ⟨r, hr, -⟩
    · exact hs.trans (List.sublist_append_left l₂ l₁)
    · exact absurd (List.cons.inj hr).1.symm hne

/-- Moving the head to the end changes the first match exactly if the head is a match, and not
the only one. -/
theorem find?_rotate_one_iff {p : α → Bool} {l : List α} (hl : l.Nodup) :
    (l.rotate 1).find? p = l.find? p ↔
      ¬ ∃ a r, l = a :: r ∧ p a = true ∧ ∃ b ∈ r, p b = true := by
  cases l with
  | nil => simp
  | cons a r =>
    have hrot : (a :: r).rotate 1 = r ++ [a] := by simp [List.rotate_cons_succ]
    rw [hrot, List.find?_append]
    cases ha : p a with
    | false => simp [ha]
    | true =>
      rw [List.find?_cons_of_pos ha, List.find?_cons_of_pos ha]
      cases hr : r.find? p with
      | none =>
        simp only [Option.none_or, true_iff]
        rintro ⟨b, r', heq, -, c, hc, hpc⟩
        obtain ⟨rfl, rfl⟩ := List.cons.inj heq
        exact List.find?_eq_none.1 hr c hc hpc
      | some b =>
        have hb := List.mem_of_find?_eq_some hr
        have hne : b ≠ a := fun heq => (List.nodup_cons.1 hl).1 (heq ▸ hb)
        simp only [Option.some_or, Option.some.injEq, hne, false_iff, not_not]
        exact ⟨a, r, rfl, ha, b, hb, List.find?_some hr⟩

/-- A rotation to the first match moves something exactly if the head is not a match, and another
element is. -/
theorem rotateTo_eq_self_iff {p : α → Bool} {l : List α} (hl : l.Nodup) :
    rotateTo p l = l ↔ ((∃ a ∈ l, p a = true) → ∃ a ∈ l.head?, p a = true) := by
  constructor
  · rintro h ⟨b, hb, hpb⟩
    obtain ⟨a, ha⟩ := Option.isSome_iff_exists.1 (List.find?_isSome.2 ⟨b, hb, hpb⟩)
    have hhead := rotateTo_head? p l ⟨b, hb, hpb⟩
    rw [h, ha] at hhead
    exact ⟨a, hhead, List.find?_some ha⟩
  · intro h
    by_cases hany : ∃ a ∈ l, p a = true
    · obtain ⟨a, ha, hpa⟩ := h hany
      obtain ⟨r, rfl⟩ := List.head?_eq_some_iff.1 ha
      exact rotateTo_cons_self hpa
    · exact rotateTo_eq_self fun a ha => by simpa using fun hpa => hany ⟨a, ha, hpa⟩

/-- With a match at the end of the list, the others are rotated as if it was not there. -/
theorem rotateTo_concat_erase [DecidableEq α] {p : α → Bool} {x : α} {l : List α}
    (hx : p x = true) (hl : x ∉ l) : (rotateTo p (l ++ [x])).erase x = rotateTo p l := by
  cases hf : l.find? p with
  | none =>
    have hnone : ∀ a ∈ l, p a = false := fun a ha => by simpa using List.find?_eq_none.1 hf a ha
    rw [rotateTo_append_cons hnone hx, rotateTo_eq_self hnone]
    simp
  | some y =>
    obtain ⟨hy, l₁, l₂, rfl, hl₁⟩ := List.find?_eq_some_iff_append.1 hf
    have hnone : ∀ a ∈ l₁, p a = false := fun a ha => by simpa using hl₁ a ha
    have hfront : x ∉ y :: l₂ := fun hm => hl (List.mem_append_right _ hm)
    rw [List.append_assoc, List.cons_append, rotateTo_append_cons hnone hy,
      rotateTo_append_cons hnone hy, ← List.cons_append, List.append_assoc,
      List.erase_append_right _ hfront]
    simp

/-! ### Insertion behind a prefix -/

/-- Insert `x` behind the longest prefix whose elements satisfy `keep`. -/
def placeBehind (keep : α → Bool) (x : α) (l : List α) : List α :=
  l.takeWhile keep ++ x :: l.dropWhile keep

theorem placeBehind_perm (keep : α → Bool) (x : α) (l : List α) :
    (placeBehind keep x l).Perm (x :: l) := by
  rw [placeBehind]
  refine List.perm_middle.trans (List.Perm.cons x ?_)
  rw [List.takeWhile_append_dropWhile]

@[simp] theorem mem_placeBehind {keep : α → Bool} {x a : α} {l : List α} :
    a ∈ placeBehind keep x l ↔ a = x ∨ a ∈ l := by
  rw [(placeBehind_perm keep x l).mem_iff, List.mem_cons]

@[simp] theorem placeBehind_nil (keep : α → Bool) (x : α) : placeBehind keep x [] = [x] := rfl

theorem placeBehind_cons_keep {keep : α → Bool} {x a : α} {l : List α} (h : keep a = true) :
    placeBehind keep x (a :: l) = a :: placeBehind keep x l := by
  simp [placeBehind, h]

theorem placeBehind_cons_stop {keep : α → Bool} {x a : α} {l : List α} (h : keep a = false) :
    placeBehind keep x (a :: l) = x :: a :: l := by
  simp [placeBehind, h]

/-- Taking the inserted element out again leaves the others as they were. -/
theorem placeBehind_erase [DecidableEq α] {keep : α → Bool} {x : α} {l : List α} (hx : x ∉ l) :
    (placeBehind keep x l).erase x = l := by
  have hfront : x ∉ l.takeWhile keep := fun hm => hx (List.takeWhile_subset _ hm)
  rw [placeBehind, List.erase_append_right _ hfront, List.erase_cons_head,
    List.takeWhile_append_dropWhile]

/-- The first element after an insertion: the old one if it is kept in front. -/
theorem placeBehind_head? (keep : α → Bool) (x : α) (l : List α) :
    (placeBehind keep x l).head? = some ((l.head?.filter keep).getD x) := by
  cases l with
  | nil => rfl
  | cons a l => cases h : keep a <;> simp [placeBehind, Option.filter, h]

/-- **Ordered insertion.**  Insertion preserves `R`-order when kept elements may precede `x`,
and whatever follows an element that was not kept may follow `x`. -/
theorem placeBehind_pairwise {R : α → α → Prop} {keep : α → Bool} {x : α} {l : List α}
    (hl : l.Pairwise R) (hbefore : ∀ a ∈ l, keep a = true → R a x)
    (hafter : ∀ a ∈ l, ∀ b ∈ l, keep a = false → (b = a ∨ R a b) → R x b) :
    (placeBehind keep x l).Pairwise R := by
  induction l with
  | nil => simp
  | cons a l ih =>
    rw [List.pairwise_cons] at hl
    by_cases ha : keep a = true
    · rw [placeBehind_cons_keep ha, List.pairwise_cons]
      refine ⟨?_, ih hl.2 (fun b hb => hbefore b (by simp [hb]))
        (fun b hb c hc => hafter b (by simp [hb]) c (by simp [hc]))⟩
      intro b hb
      rcases mem_placeBehind.1 hb with rfl | hb
      · exact hbefore a (by simp) ha
      · exact hl.1 b hb
    · have ha' : keep a = false := by simpa using ha
      rw [placeBehind_cons_stop ha', List.pairwise_cons]
      refine ⟨?_, List.pairwise_cons.2 hl⟩
      intro b hb
      refine hafter a (by simp) b hb ha' ?_
      rcases List.mem_cons.1 hb with rfl | hb
      · exact Or.inl rfl
      · exact Or.inr (hl.1 b hb)

/-- **Where a search by a key stops.**  In an ordered list a search that moves past smaller keys
stops at once, at the end, or between a smaller key and one that is not smaller. -/
theorem search_sorted {β : Type*} [LinearOrder β] {key : α → β} {k : β} {past : α → Bool}
    {l : List α} (hl : l.Pairwise fun a b => key a ≤ key b)
    (hpast : ∀ a ∈ l, past a = true ↔ key a < k) :
    (l.takeWhile past = [] ∧ l.dropWhile past = l ∧ ∀ a ∈ l, k ≤ key a) ∨
      (l.takeWhile past = l ∧ l.dropWhile past = [] ∧ ∀ a ∈ l, key a < k) ∨
      ∃ p e, (l.takeWhile past).getLast? = some p ∧ (l.dropWhile past).head? = some e ∧
        p ∈ l ∧ key p < k ∧ e ∈ l ∧ k ≤ key e := by
  have hsplit : l.takeWhile past ++ l.dropWhile past = l := List.takeWhile_append_dropWhile
  cases htake : (l.takeWhile past).getLast? with
  | none =>
    have hnone : l.takeWhile past = [] := List.getLast?_eq_none_iff.1 htake
    rw [hnone, List.nil_append] at hsplit
    refine Or.inl ⟨hnone, hsplit, ?_⟩
    cases l with
    | nil => simp
    | cons a l =>
      -- the first key is not smaller, and no other one is smaller than that
      have hfirst : k ≤ key a := by
        have hstop := List.takeWhile_eq_nil_iff.1 hnone (by simp)
        exact not_lt.1 fun hlt => hstop ((hpast a List.mem_cons_self).2 hlt)
      intro b hb
      rcases List.mem_cons.1 hb with rfl | hb
      · exact hfirst
      · exact hfirst.trans ((List.pairwise_cons.1 hl).1 b hb)
  | some p =>
    have hp : p ∈ l.takeWhile past := List.mem_of_getLast? htake
    have hpl : p ∈ l := hsplit ▸ List.mem_append_left _ hp
    cases hdrop : l.dropWhile past with
    | nil =>
      rw [hdrop, List.append_nil] at hsplit
      exact Or.inr (Or.inl ⟨hsplit, rfl, fun a ha =>
        (hpast a ha).1 (List.dropWhile_eq_nil_iff.1 hdrop a ha)⟩)
    | cons e m =>
      have hel : e ∈ l := by
        rw [← hsplit, hdrop]
        simp
      have hstop : past e = false := by
        have hhead := List.head?_dropWhile_not past l
        rwa [hdrop] at hhead
      refine Or.inr (Or.inr ⟨p, e, rfl, rfl, hpl, (hpast p hpl).1 (List.mem_takeWhile_imp hp), hel,
        ?_⟩)
      apply not_lt.1
      intro hlt
      rw [(hpast e hel).2 hlt] at hstop
      cases hstop

/-- **Insertion by a key.**  The order of the keys is kept exactly if `x` may precede all that
stops the search, and the search is stopped before it comes to what `x` must precede. -/
theorem placeBehind_sorted_iff {β : Type*} [LinearOrder β] {key : α → β} {keep : α → Bool}
    {x : α} {l : List α} (hl : l.Pairwise fun a b => key a ≤ key b)
    (hkeep : ∀ a ∈ l, ∀ b ∈ l, key x < key a → key a = key b → keep a = keep b) :
    ((placeBehind keep x l).Pairwise fun a b => key a ≤ key b) ↔
      (∀ d ∈ l, keep d = false → key x ≤ key d) ∧
        ∀ e ∈ l, key x < key e → ∃ d ∈ l, keep d = false ∧ key d ≤ key e := by
  induction l with
  | nil => simp
  | cons a l ih =>
    rw [List.pairwise_cons] at hl
    have ih' := ih hl.2 fun b hb c hc => hkeep b (by simp [hb]) c (by simp [hc])
    by_cases ha : keep a = true
    · -- what is passed over must not belong behind `x`
      have htail : ∀ {d}, d ∈ a :: l → keep d = false → d ∈ l := by
        intro d hd hk
        rcases List.mem_cons.1 hd with rfl | hd
        · rw [ha] at hk
          cases hk
        · exact hd
      have hpass : (∀ b ∈ placeBehind keep x l, key a ≤ key b) ↔ key a ≤ key x := by
        constructor
        · intro h
          exact h x (by simp)
        · intro h b hb
          rcases mem_placeBehind.1 hb with rfl | hb
          · exact h
          · exact hl.1 b hb
      rw [placeBehind_cons_keep ha, List.pairwise_cons, hpass, ih']
      constructor
      · rintro ⟨hax, hstop, hbefore⟩
        refine ⟨fun d hd hk => hstop d (htail hd hk) hk, fun e he hxe => ?_⟩
        rcases List.mem_cons.1 he with rfl | he
        · exact absurd hax (not_le.2 hxe)
        · obtain ⟨d, hd, hk, hde⟩ := hbefore e he hxe
          exact ⟨d, by simp [hd], hk, hde⟩
      · rintro ⟨hstop, hbefore⟩
        refine ⟨?_, fun d hd => hstop d (by simp [hd]), ?_⟩
        · by_contra hax
          obtain ⟨d, hd, hk, hda⟩ := hbefore a (by simp) (not_le.1 hax)
          have heq : key a = key d := le_antisymm (hl.1 d (htail hd hk)) hda
          rw [← hkeep a (by simp) d hd (not_le.1 hax) heq, ha] at hk
          cases hk
        · intro e he hxe
          obtain ⟨d, hd, hk, hde⟩ := hbefore e (by simp [he]) hxe
          exact ⟨d, htail hd hk, hk, hde⟩
    · -- the search stops at the head
      have ha' : keep a = false := by simpa using ha
      rw [placeBehind_cons_stop ha', List.pairwise_cons]
      constructor
      · rintro ⟨hx, -⟩
        refine ⟨fun d hd _ => hx d hd, fun e he _ => ⟨a, by simp, ha', ?_⟩⟩
        rcases List.mem_cons.1 he with rfl | he
        · exact le_rfl
        · exact hl.1 e he
      · rintro ⟨hstop, -⟩
        refine ⟨?_, List.pairwise_cons.2 hl⟩
        intro b hb
        have hxa := hstop a (by simp) ha'
        rcases List.mem_cons.1 hb with rfl | hb
        · exact hxa
        · exact hxa.trans (hl.1 b hb)

/-! ### Taking the first match -/

/-- Taking the first match leaves the elements that do not match. -/
theorem filter_not_eraseP (p : α → Bool) (l : List α) :
    (l.eraseP p).filter (fun a => !p a) = l.filter fun a => !p a := by
  induction l with
  | nil => rfl
  | cons a l ih =>
    by_cases ha : p a = true
    · rw [List.eraseP_cons_of_pos ha, List.filter_cons_of_neg (by simp [ha])]
    · rw [List.eraseP_cons_of_neg ha, List.filter_cons, List.filter_cons, ih]

/-- Two filters agree on a list exactly if they keep the same of its elements. -/
theorem filter_eq_filter_iff {p q : α → Bool} {l : List α} :
    l.filter p = l.filter q ↔ ∀ a ∈ l, p a = q a := by
  refine ⟨fun h a ha => ?_, fun h => List.filter_congr h⟩
  have hmem : a ∈ l.filter p ↔ a ∈ l.filter q := by rw [h]
  rw [List.mem_filter, List.mem_filter, and_iff_right ha, and_iff_right ha] at hmem
  exact Bool.eq_iff_iff.2 hmem

/-- A search is not disturbed by removing what it does not look for. -/
theorem find?_filter_of_imp {p q : α → Bool} (h : ∀ a, q a = true → p a = true) (l : List α) :
    (l.filter p).find? q = l.find? q := by
  have hpq : (fun a => decide (p a = true ∧ q a = true)) = q := by
    funext a
    cases hq : q a with
    | true => simp [h a hq]
    | false => simp
  rw [List.find?_filter, hpq]

theorem eraseP_filter_of_imp {p q : α → Bool} (h : ∀ a, q a = true → p a = true)
    (l : List α) : (l.filter p).eraseP q = (l.eraseP q).filter p := by
  have hpq : (fun a => q a && p a) = q := by
    funext a
    cases hq : q a with
    | true => simp [h a hq]
    | false => simp
  rw [List.eraseP_filter, hpq]

/-- Taking the first match leaves every other element. -/
theorem mem_eraseP_of_ne {p : α → Bool} {l : List α} {a m : α} (hm : l.find? p = some m)
    (ha : a ∈ l) (hne : a ≠ m) : a ∈ l.eraseP p := by
  obtain ⟨hpm, l₁, l₂, rfl, hl₁⟩ := List.find?_eq_some_iff_append.1 hm
  rw [List.eraseP_append_right _ (by simpa using hl₁), List.eraseP_cons_of_pos hpm]
  simp only [List.mem_append, List.mem_cons] at ha ⊢
  tauto

/-- Where keys are unique, taking an element leaves no element with its key. -/
theorem key_ne_of_mem_eraseP {β : Type*} {f : α → β} {p : α → Bool} {l : List α} {m : α}
    (hl : (l.map f).Nodup) (hm : l.find? p = some m) : ∀ b ∈ l.eraseP p, f b ≠ f m := by
  induction l with
  | nil => simp at hm
  | cons a l ih =>
    rw [List.map_cons, List.nodup_cons] at hl
    by_cases ha : p a = true
    · rw [List.find?_cons_of_pos ha, Option.some.injEq] at hm
      subst hm
      rw [List.eraseP_cons_of_pos ha]
      intro b hb hba
      exact hl.1 (hba ▸ List.mem_map_of_mem hb)
    · rw [List.find?_cons_of_neg ha] at hm
      rw [List.eraseP_cons_of_neg ha]
      intro b hb
      rcases List.mem_cons.1 hb with rfl | hb
      · intro hbm
        exact hl.1 (hbm ▸ List.mem_map_of_mem (List.mem_of_find?_eq_some hm))
      · exact ih hl.2 hm b hb

/-! ### The place in a queue -/

/-- Some element with `p` stands behind at most `k` elements with `q`. -/
def Within (p : α → Prop) (q : α → Bool) (k : ℕ) (l : List α) : Prop :=
  ∃ l₁ a l₂, l = l₁ ++ a :: l₂ ∧ p a ∧ l₁.countP q ≤ k

namespace Within

variable {p : α → Prop} {q s : α → Bool} {k : ℕ} {l : List α}

theorem map {β : Type*} {f : β → α} {l : List β}
    (h : Within (fun b => p (f b)) (fun b => q (f b)) k l) : Within p q k (l.map f) := by
  obtain ⟨l₁, b, l₂, rfl, hb, hk⟩ := h
  refine ⟨l₁.map f, f b, l₂.map f, by rw [List.map_append, List.map_cons], hb, ?_⟩
  rw [List.countP_map]
  exact hk

/-- Who comes later stands behind. -/
theorem append (h : Within p q k l) (l' : List α) : Within p q k (l ++ l') := by
  obtain ⟨l₁, a, l₂, rfl, ha, hk⟩ := h
  exact ⟨l₁, a, l₂ ++ l', by rw [List.append_assoc, List.cons_append], ha, hk⟩

/-- Others may leave. -/
theorem filter (h : Within p q k l) (hs : ∀ a, p a → s a = true) :
    Within p q k (l.filter s) := by
  obtain ⟨l₁, a, l₂, rfl, ha, hk⟩ := h
  refine ⟨l₁.filter s, a, l₂.filter s, ?_, ha, ?_⟩
  · rw [List.filter_append, List.filter_cons_of_pos (hs a ha)]
  · exact (List.filter_sublist.countP_le).trans hk

/-- Taking a first match takes the element itself, or lets it keep its place or move up. -/
theorem eraseP (h : Within p q k l) (s : α → Bool) :
    (∃ a, l.find? s = some a ∧ p a) ∨ Within p q k (l.eraseP s) := by
  obtain ⟨l₁, a, l₂, rfl, ha, hk⟩ := h
  by_cases h₁ : ∃ b ∈ l₁, s b = true
  · obtain ⟨b, hb, hsb⟩ := h₁
    rw [List.eraseP_append_left hsb _ hb]
    exact Or.inr ⟨_, a, l₂, rfl, ha, (List.eraseP_sublist.countP_le).trans hk⟩
  · have hnone : ∀ b ∈ l₁, ¬ s b = true := fun b hb hsb => h₁ ⟨b, hb, hsb⟩
    by_cases hsa : s a = true
    · left
      refine ⟨a, ?_, ha⟩
      rw [List.find?_append, List.find?_eq_none.2 hnone, List.find?_cons_of_pos hsa]
      rfl
    · rw [List.eraseP_append_right _ hnone, List.eraseP_cons_of_neg hsa]
      exact Or.inr ⟨l₁, a, _, rfl, ha, hk⟩

/-- Taking the first of those that are counted takes the element, or lets it move up. -/
theorem take (h : Within p q k l) (hpq : ∀ a, p a → q a = true) :
    (∃ a, l.find? q = some a ∧ p a) ∨ ∃ k', k = k' + 1 ∧ Within p q k' (l.eraseP q) := by
  obtain ⟨l₁, a, l₂, rfl, ha, hk⟩ := h
  by_cases h₁ : ∃ b ∈ l₁, q b = true
  · obtain ⟨b, hb, hqb⟩ := h₁
    obtain ⟨c, m₁, m₂, hm₁, hqc, hl₁, herase⟩ := List.exists_of_eraseP hb hqb
    have hcount : (l₁.eraseP q).countP q + 1 = l₁.countP q := by
      rw [herase, hl₁, List.countP_append, List.countP_append, List.countP_cons_of_pos hqc]
      omega
    rw [List.eraseP_append_left hqb _ hb]
    exact Or.inr ⟨k - 1, by omega, _, a, l₂, rfl, ha, by omega⟩
  · have hnone : ∀ b ∈ l₁, ¬ q b = true := fun b hb hqb => h₁ ⟨b, hb, hqb⟩
    left
    refine ⟨a, ?_, ha⟩
    rw [List.find?_append, List.find?_eq_none.2 hnone, List.find?_cons_of_pos (hpq a ha)]
    rfl

end Within

end ListQueue
