import Mathlib.Logic.Basic

/-!
# Lockstep relations and runs

Two general notions used to connect levels of one design.

* `Lockstep R x y` — two fallible computations either both succeed, with results related by
  `R`, or both fail with the same error.  It is closed under sequencing (`Lockstep.bind`), so
  a simulation between two programs is assembled from simulations of their parts.
* `attempt s x` — the outcome of a call on the state `s` that may fail.
* `Run step s es s'` — the labelled transitions `step` lead from `s` to `s'` along the labels
  `es`.  `Run.invariant` is the induction rule for safety properties, and `Run.simulate`
  carries a run of one system over to a run of another.  `Run.exec` computes runs of a step
  that is a function.
-/

namespace Lockstep

universe u v

variable {ε : Type u} {α β γ δ : Type v}

/-- Both computations succeed with related results, or both fail with the same error. -/
def Rel (R : α → β → Prop) : Except ε α → Except ε β → Prop
  | .ok a, .ok b => R a b
  | .error e, .error e' => e = e'
  | _, _ => False

theorem Rel.error {R : α → β → Prop} (e : ε) : Rel R (.error e) (.error e) := rfl

/-- Sequencing, where the continuations only have to agree on what the first parts returned. -/
theorem Rel.bind_of_ok {R : α → β → Prop} {S : γ → δ → Prop} {x : Except ε α} {y : Except ε β}
    {f : α → Except ε γ} {g : β → Except ε δ} (h : Rel R x y)
    (hfg : ∀ a b, x = .ok a → y = .ok b → R a b → Rel S (f a) (g b)) :
    Rel S (x >>= f) (y >>= g) := by
  cases x with
  | error e =>
    cases y with
    | error e' => exact h
    | ok b => exact h.elim
  | ok a =>
    cases y with
    | error e' => exact h.elim
    | ok b => exact hfg a b rfl rfl h

theorem Rel.bind {R : α → β → Prop} {S : γ → δ → Prop} {x : Except ε α} {y : Except ε β}
    {f : α → Except ε γ} {g : β → Except ε δ} (h : Rel R x y)
    (hfg : ∀ a b, R a b → Rel S (f a) (g b)) : Rel S (x >>= f) (y >>= g) :=
  h.bind_of_ok fun a b _ _ => hfg a b

/-- A success on the left is matched by a related success on the right. -/
theorem Rel.ok_left {R : α → β → Prop} {a : α} {y : Except ε β} (h : Rel R (.ok a) y) :
    ∃ b, y = .ok b ∧ R a b := by
  cases y with
  | error e => exact h.elim
  | ok b => exact ⟨b, rfl, h⟩

/-- A success on the right is matched by a related success on the left. -/
theorem Rel.ok_right {R : α → β → Prop} {x : Except ε α} {b : β} (h : Rel R x (.ok b)) :
    ∃ a, x = .ok a ∧ R a b := by
  cases x with
  | error e => exact h.elim
  | ok a => exact ⟨a, rfl, h⟩

/-- A failure on the left is the same failure on the right. -/
theorem Rel.error_left {R : α → β → Prop} {e : ε} {y : Except ε β}
    (h : Rel R (.error e) y) : y = .error e := by
  cases y with
  | error e' => exact congrArg Except.error (Eq.symm h)
  | ok b => exact h.elim

/-- A failure on the right is the same failure on the left. -/
theorem Rel.error_right {R : α → β → Prop} {x : Except ε α} {e : ε}
    (h : Rel R x (.error e)) : x = .error e := by
  cases x with
  | error e' => exact congrArg Except.error h
  | ok a => exact h.elim

/-! ### Sequencing of fallible computations -/

/-- A successful sequence succeeded at its first computation. -/
theorem bind_ok {x : Except ε α} {f : α → Except ε β} {b : β} (h : x >>= f = .ok b) :
    ∃ a, x = .ok a ∧ f a = .ok b := by
  cases x with
  | error e => cases h
  | ok a => exact ⟨a, rfl, h⟩

theorem map_ok {x : Except ε α} {f : α → β} {b : β} (h : x.map f = .ok b) :
    ∃ a, x = .ok a ∧ f a = b := by
  cases x with
  | error e => cases h
  | ok a => exact ⟨a, rfl, Except.ok.inj h⟩

/-- A sequence that failed did so in its first computation or in the continuation. -/
theorem bind_error {x : Except ε α} {f : α → Except ε β} {e : ε} (h : x >>= f = .error e) :
    x = .error e ∨ ∃ a, x = .ok a ∧ f a = .error e := by
  cases x with
  | error e' =>
    have he : e' = e := by cases h; rfl
    exact Or.inl (congrArg Except.error he)
  | ok a => exact Or.inr ⟨a, rfl, h⟩

theorem bind_error_iff {x : Except ε α} {f : α → Except ε β} {e : ε} :
    x >>= f = .error e ↔ x = .error e ∨ ∃ a, x = .ok a ∧ f a = .error e := by
  refine ⟨bind_error, ?_⟩
  rintro (rfl | ⟨a, rfl, hf⟩)
  · rfl
  · exact hf

theorem toOption_eq_some {x : Except ε α} {a : α} : x.toOption = some a ↔ x = .ok a := by
  cases x with
  | error e => exact ⟨fun h => (by cases h), fun h => (by cases h)⟩
  | ok b => exact ⟨fun h => congrArg Except.ok (Option.some.inj h), fun h => (by cases h; rfl)⟩

/-- A computation that is known to succeed. -/
theorem exists_mem_of_isSome {x : Option α} {P : α → Prop} (hx : x.isSome = true)
    (h : ∀ a, x = some a → P a) : ∃ a ∈ x, P a := by
  obtain ⟨a, ha⟩ := Option.isSome_iff_exists.1 hx
  exact ⟨a, ha, h a ha⟩

@[simp] theorem ok_bind (a : α) (f : α → Except ε β) : (Except.ok a >>= f) = f a := rfl

/-- A call on a state, with the state that it leaves.  Calls that fail leave it as it was, by this
definition: it stands for calls that check everything before they write. -/
def attempt (s : γ) : Except ε (α × γ) → Except ε α × γ
  | .ok (r, s') => (.ok r, s')
  | .error e => (.error e, s)

/-- Two calls in lockstep both have an effect, or both fail with the same error and have none. -/
theorem Rel.attempt_cases {R : α × γ → β × δ → Prop} {x : Except ε (α × γ)}
    {y : Except ε (β × δ)} (h : Rel R x y) (s : γ) (t : δ) :
    (∃ a b, attempt s x = (.ok a.1, a.2) ∧ attempt t y = (.ok b.1, b.2) ∧ R a b) ∨
      ∃ e, attempt s x = (.error e, s) ∧ attempt t y = (.error e, t) := by
  cases x with
  | ok a =>
    obtain ⟨b, rfl, hab⟩ := h.ok_left
    exact Or.inl ⟨a, b, rfl, rfl, hab⟩
  | error e =>
    rw [h.error_left]
    exact Or.inr ⟨e, rfl, rfl⟩

/-! ### Runs of a labelled transition system -/

variable {σ τ ℓ : Type*}

/-- `es` are the labels of a run of `step` from the first state to the last. -/
inductive Run (step : σ → ℓ → σ → Prop) : σ → List ℓ → σ → Prop
  | nil (s : σ) : Run step s [] s
  | snoc {s t u : σ} {es : List ℓ} {e : ℓ} :
      Run step s es t → step t e u → Run step s (es ++ [e]) u

namespace Run

variable {step : σ → ℓ → σ → Prop}

theorem single {s t : σ} {e : ℓ} (h : step s e t) : Run step s [e] t :=
  Run.snoc (Run.nil s) h

theorem append {s t u : σ} {es es' : List ℓ} (h : Run step s es t) (h' : Run step t es' u) :
    Run step s (es ++ es') u := by
  induction h' with
  | nil => simpa using h
  | snoc _ hs ih =>
    rw [← List.append_assoc]
    exact Run.snoc ih hs

theorem mono {step' : σ → ℓ → σ → Prop} {s t : σ} {es : List ℓ} (h : Run step s es t)
    (hstep : ∀ t e u, step t e u → step' t e u) : Run step' s es t := by
  induction h with
  | nil => exact Run.nil s
  | snoc _ hs ih => exact Run.snoc ih (hstep _ _ _ hs)

/-- What holds of all labels of a run holds at each of its steps. -/
theorem restrict {P : ℓ → Prop} {s t : σ} {es : List ℓ} (h : Run step s es t)
    (hes : ∀ e ∈ es, P e) : Run (fun t e u => step t e u ∧ P e) s es t := by
  induction h with
  | nil => exact Run.nil s
  | snoc _ hs ih =>
    obtain ⟨hes', he⟩ := List.forall_mem_append.1 hes
    exact Run.snoc (ih hes') ⟨hs, he _ (List.mem_singleton_self _)⟩

/-- **Safety by induction.**  What holds initially and is preserved by every step holds at
the end of every run. -/
theorem invariant {P : σ → Prop} {s t : σ} {es : List ℓ} (h : Run step s es t) (h0 : P s)
    (hstep : ∀ t e u, P t → step t e u → P u) : P t := by
  induction h with
  | nil => exact h0
  | snoc _ hs ih => exact hstep _ _ _ ih hs

/-- **What the steps do.**  Where each step from a state with `P` does `Q` and keeps `P`, all steps
of a run do `Q`. -/
theorem strengthen {P : σ → Prop} {Q : σ → ℓ → σ → Prop} {s t : σ} {es : List ℓ}
    (h : Run step s es t) (h0 : P s) (hstep : ∀ t e u, P t → step t e u → Q t e u ∧ P u) :
    Run (fun t e u => step t e u ∧ Q t e u) s es t := by
  have hboth : Run (fun t e u => step t e u ∧ Q t e u) s es t ∧ P t := by
    induction h with
    | nil => exact ⟨Run.nil s, h0⟩
    | snoc _ hs ih =>
      obtain ⟨hrun, hP⟩ := ih
      obtain ⟨hQ, hP'⟩ := hstep _ _ _ hP hs
      exact ⟨Run.snoc hrun ⟨hs, hQ⟩, hP'⟩
  exact hboth.1

/-- **An exact condition for steps.**  Where a step does what is asked, `Q`, exactly if it meets
`G`, and then keeps `P`, the runs all of whose steps do what is asked are the runs all of whose
steps meet `G`. -/
theorem does_iff {I P : σ → Prop} {Q : σ → ℓ → σ → Prop} {G : σ → ℓ → Prop} {s t : σ} {es : List ℓ}
    (hI : ∀ t e u, I t → step t e u → I u) (hQ : ∀ t e u, Q t e u → P u)
    (hG : ∀ t e u, I t → P t → step t e u → (Q t e u ↔ G t e)) (h0 : I s) (hP : P s) :
    Run (fun t e u => step t e u ∧ Q t e u) s es t ↔
      Run (fun t e u => step t e u ∧ G t e) s es t := by
  constructor
  · intro h
    have hboth : Run (fun t e u => step t e u ∧ G t e) s es t ∧ I t ∧ P t := by
      induction h with
      | nil => exact ⟨Run.nil s, h0, hP⟩
      | snoc _ hs ih =>
        obtain ⟨hrun, hIt, hPt⟩ := ih
        have hg := (hG _ _ _ hIt hPt hs.1).1 hs.2
        exact ⟨Run.snoc hrun ⟨hs.1, hg⟩, hI _ _ _ hIt hs.1, hQ _ _ _ hs.2⟩
    exact hboth.1
  · intro h
    have hboth : Run (fun t e u => step t e u ∧ Q t e u) s es t ∧ I t ∧ P t := by
      induction h with
      | nil => exact ⟨Run.nil s, h0, hP⟩
      | snoc _ hs ih =>
        obtain ⟨hrun, hIt, hPt⟩ := ih
        have hq := (hG _ _ _ hIt hPt hs.1).2 hs.2
        exact ⟨Run.snoc hrun ⟨hs.1, hq⟩, hI _ _ _ hIt hs.1, hQ _ _ _ hq⟩
    exact hboth.1

/-- **An exact condition.**  Where a step keeps `P` exactly if it meets `G`, the runs all of
whose states have `P` are the runs all of whose steps meet `G`. -/
theorem keeps_iff {I P : σ → Prop} {G : σ → ℓ → Prop} {s t : σ} {es : List ℓ}
    (hI : ∀ t e u, I t → step t e u → I u)
    (hG : ∀ t e u, I t → P t → step t e u → (P u ↔ G t e)) (h0 : I s) (hP : P s) :
    Run (fun t e u => step t e u ∧ P u) s es t ↔ Run (fun t e u => step t e u ∧ G t e) s es t :=
  does_iff hI (fun _ _ _ hu => hu) hG h0 hP

/-- **Blame.**  Where `P` holds after a step exactly if it held before and the step meets `G`, it
holds at the end of the runs all of whose steps meet `G`, and of no others. -/
theorem blame {I P : σ → Prop} {G : σ → ℓ → Prop} {s t : σ} {es : List ℓ}
    (hI : ∀ t e u, I t → step t e u → I u)
    (hG : ∀ t e u, I t → step t e u → (P u ↔ P t ∧ G t e)) (h0 : I s) (hP : P s) :
    Run (fun t e u => step t e u ∧ G t e) s es t ↔ Run step s es t ∧ P t := by
  constructor
  · intro h
    have hboth : Run step s es t ∧ I t ∧ P t := by
      induction h with
      | nil => exact ⟨Run.nil s, h0, hP⟩
      | snoc _ hs ih =>
        obtain ⟨hrun, hIt, hPt⟩ := ih
        exact ⟨Run.snoc hrun hs.1, hI _ _ _ hIt hs.1, (hG _ _ _ hIt hs.1).2 ⟨hPt, hs.2⟩⟩
    exact ⟨hboth.1, hboth.2.2⟩
  · intro ⟨h, hPt⟩
    induction h with
    | nil => exact Run.nil s
    | snoc hrun hs ih =>
      obtain ⟨hPt', hg⟩ := (hG _ _ _ (hrun.invariant h0 hI) hs).1 hPt
      exact Run.snoc (ih hPt') ⟨hs, hg⟩

/-- **Forward simulation.**  A relation that holds initially and is carried along every step
is carried along every run. -/
theorem simulate {step' : τ → ℓ → τ → Prop} {R : σ → τ → Prop} {s t : σ} {es : List ℓ}
    (h : Run step s es t) {s' : τ} (h0 : R s s')
    (hstep : ∀ t e u t', R t t' → step t e u → ∃ u', step' t' e u' ∧ R u u') :
    ∃ t', Run step' s' es t' ∧ R t t' := by
  induction h with
  | nil => exact ⟨s', Run.nil s', h0⟩
  | snoc _ hs ih =>
    obtain ⟨t', hrun, hR⟩ := ih
    obtain ⟨u', hs', hR'⟩ := hstep _ _ _ _ hR hs
    exact ⟨u', Run.snoc hrun hs', hR'⟩

/-- A run of a deterministic system is determined by its labels. -/
theorem functional {s t u : σ} {es : List ℓ}
    (hf : ∀ s e t u, step s e t → step s e u → t = u) (h : Run step s es t)
    (h' : Run step s es u) : t = u := by
  induction h generalizing u with
  | nil =>
    generalize hes : ([] : List ℓ) = es at h'
    cases h' with
    | nil => rfl
    | snoc hr hs => simp at hes
  | @snoc t v es e hr hs ih =>
    generalize hes : es ++ [e] = es' at h'
    cases h' with
    | nil => simp at hes
    | snoc hr' hs' =>
      obtain ⟨rfl, he⟩ := List.append_inj' hes rfl
      obtain ⟨rfl, -⟩ := List.cons.inj he
      rw [← ih hr'] at hs'
      exact hf _ _ _ _ hs hs'

/-- The run has a step `o`, and no label of `loud` since. -/
def Since (step : σ → ℓ → σ → Prop) (o : σ → ℓ → σ → Prop) (loud : ℓ → Prop) (s : σ)
    (es : List ℓ) (t : σ) : Prop :=
  ∃ es₁ e es₂ s₁ s₂, es = es₁ ++ e :: es₂ ∧ Run step s es₁ s₁ ∧ step s₁ e s₂ ∧ o s₁ e s₂ ∧
    Run step s₂ es₂ t ∧ ∀ e ∈ es₂, ¬ loud e

theorem Since.now {o : σ → ℓ → σ → Prop} {loud : ℓ → Prop} {s t u : σ} {es : List ℓ} {e : ℓ}
    (h : Run step s es t) (hs : step t e u) (ho : o t e u) :
    Since step o loud s (es ++ [e]) u :=
  ⟨es, e, [], t, u, rfl, h, hs, ho, Run.nil u, by simp⟩

theorem Since.snoc {o : σ → ℓ → σ → Prop} {loud : ℓ → Prop} {s t u : σ} {es : List ℓ} {e : ℓ}
    (h : Since step o loud s es t) (hs : step t e u) (he : ¬ loud e) :
    Since step o loud s (es ++ [e]) u := by
  obtain ⟨es₁, e₀, es₂, s₁, s₂, rfl, hrun, hs₁, ho, hrun', hquiet⟩ := h
  refine ⟨es₁, e₀, es₂ ++ [e], s₁, s₂, by simp, hrun, hs₁, ho, hrun'.snoc hs, ?_⟩
  intro e' he'
  rcases List.mem_append.1 he' with he' | he'
  · exact hquiet e' he'
  · rw [List.mem_singleton.1 he']
    exact he

/-- The run has a step `o`. -/
def Passes (step : σ → ℓ → σ → Prop) (o : σ → ℓ → σ → Prop) (s : σ) (es : List ℓ) (t : σ) : Prop :=
  Since step o (fun _ => False) s es t

theorem Since.mono {step' : σ → ℓ → σ → Prop} {o : σ → ℓ → σ → Prop} {loud : ℓ → Prop} {s t : σ}
    {es : List ℓ} (h : Since step o loud s es t)
    (hstep : ∀ t e u, step t e u → step' t e u) : Since step' o loud s es t := by
  obtain ⟨es₁, e, es₂, s₁, s₂, rfl, hrun, hs, ho, hrun', hquiet⟩ := h
  exact ⟨es₁, e, es₂, s₁, s₂, rfl, hrun.mono hstep, hstep _ _ _ hs, ho, hrun'.mono hstep, hquiet⟩

/-- **Until.**  What every step keeps unless it is a step `o` holds at the end of a run that has
no step `o`. -/
theorem passes_or {o : σ → ℓ → σ → Prop} {P : σ → Prop} {s t : σ} {es : List ℓ}
    (h : Run step s es t) (h0 : P s) (hstep : ∀ t e u, P t → step t e u → o t e u ∨ P u) :
    Passes step o s es t ∨ P t := by
  induction h with
  | nil => exact Or.inr h0
  | snoc hr hs ih =>
    rcases ih with hpass | hP
    · exact Or.inl (Since.snoc hpass hs (fun hf => hf))
    · rcases hstep _ _ _ hP hs with ho | hP'
      · exact Or.inl (Since.now hr hs ho)
      · exact Or.inr hP'

/-- The run has a step `o`, and no step `o'` since. -/
def Unbroken (step : σ → ℓ → σ → Prop) (o o' : σ → ℓ → σ → Prop) (s : σ) (es : List ℓ) (t : σ) :
    Prop :=
  ∃ es₁ e es₂ s₁ s₂, es = es₁ ++ e :: es₂ ∧ Run step s es₁ s₁ ∧ step s₁ e s₂ ∧ o s₁ e s₂ ∧
    Run (fun t e u => step t e u ∧ ¬ o' t e u) s₂ es₂ t

/-- **The last change.**  What the steps `o` bring about, and the steps `o'` undo, holds at the end
of a run exactly if the run has a step `o` and no step `o'` since. -/
theorem unbroken_iff {o o' : σ → ℓ → σ → Prop} {I P : σ → Prop} {s t : σ} {es : List ℓ}
    (h : Run step s es t) (hI : ∀ t e u, I t → step t e u → I u)
    (hP : ∀ t e u, I t → step t e u → (P u ↔ o t e u ∨ P t ∧ ¬ o' t e u)) (h0 : I s)
    (hs : ¬ P s) : P t ↔ Unbroken step o o' s es t := by
  constructor
  · induction h with
    | nil => exact fun hP' => absurd hP' hs
    | @snoc t u es e hr hstep ih =>
      intro hPu
      have hIt : I t := hr.invariant h0 hI
      rcases (hP _ _ _ hIt hstep).1 hPu with ho | ⟨hPt, ho'⟩
      · exact ⟨es, e, [], t, u, rfl, hr, hstep, ho, Run.nil u⟩
      · obtain ⟨es₁, e₀, es₂, s₁, s₂, rfl, hr₁, hs₁, ho, hr₂⟩ := ih hPt
        exact ⟨es₁, e₀, es₂ ++ [e], s₁, s₂, by simp, hr₁, hs₁, ho, hr₂.snoc ⟨hstep, ho'⟩⟩
  · rintro ⟨es₁, e, es₂, s₁, s₂, -, hr₁, hs₁, ho, hr₂⟩
    have hI₁ : I s₁ := hr₁.invariant h0 hI
    have hI₂ : I s₂ := hI _ _ _ hI₁ hs₁
    have hP₂ : P s₂ := (hP _ _ _ hI₁ hs₁).2 (Or.inl ho)
    have hboth := hr₂.invariant (P := fun t => I t ∧ P t) ⟨hI₂, hP₂⟩
      fun t e u ht hstep => ⟨hI _ _ _ ht.1 hstep.1,
        (hP _ _ _ ht.1 hstep.1).2 (Or.inr ⟨ht.2, hstep.2⟩)⟩
    exact hboth.2

/-- A step that is a function, executed along a list of labels. -/
def exec (f : σ → ℓ → Option σ) : σ → List ℓ → Option σ
  | s, [] => some s
  | s, e :: es => (f s e).bind fun t => exec f t es

theorem of_exec {f : σ → ℓ → Option σ} {s s' : σ} {es : List ℓ} (h : exec f s es = some s') :
    Run (fun s e s' => f s e = some s') s es s' := by
  induction es generalizing s with
  | nil =>
    rw [← Option.some.inj h]
    exact Run.nil s
  | cons e es ih =>
    obtain ⟨t, ht, hes⟩ := Option.bind_eq_some_iff.1 h
    exact (Run.single ht).append (ih hes)

end Run

end Lockstep
