import Mathlib.Logic.Relation
import Mathlib.Logic.Function.Basic
import RoombaRtos.Lib.Lockstep

/-!
# Interleaved programs

Threads that share a state and can be preempted between any two actions.

* `Prog` — a program: actions, each of which runs without interruption, and what comes after them;
* `Prog.exec` — the program as it runs when nothing comes in between;
* `Prog.on` — a program on a part of the state;
* `Terms.Safe` — what a program does, and what it leaves, while others act as it relies on;
* `Terms.Safe.read`, `Terms.Safe.write`, `Terms.Safe.call`, `Terms.Safe.bind` — the rules;
* `Threads.advance` — one thread is started, or acts, or something happens outside;
* `Threads.Keeps.holds` — what each program guarantees by itself holds in every interleaving.
-/

namespace Interleaving

open Lockstep

/-- A program with actions on a shared state.  What comes next can depend on the state in which an
action was taken, as on something that was read. -/
inductive Prog (ε σ α : Type) where
  | done (a : α)
  | halt (e : ε)
  | act (f : σ → σ) (next : σ → Prog ε σ α)

namespace Prog

variable {ε σ α β : Type}

def bind : Prog ε σ α → (α → Prog ε σ β) → Prog ε σ β
  | .done a, k => k a
  | .halt e, _ => .halt e
  | .act f next, k => .act f fun s => (next s).bind k

instance : Monad (Prog ε σ) where
  pure := .done
  bind := bind

def read (g : σ → α) : Prog ε σ α := .act id fun s => .done (g s)

def write (f : σ → σ) : Prog ε σ Unit := .act f fun _ => .done ()

/-- A function that is not interrupted. -/
def call (g : σ → Except ε (α × σ)) : Prog ε σ α :=
  .act
    (fun s => match g s with
      | .ok (_, t) => t
      | .error _ => s)
    fun s => match g s with
      | .ok (a, _) => .done a
      | .error e => .halt e

/-! ### Without interruption -/

def exec : Prog ε σ α → σ → Except ε (α × σ)
  | .done a, s => .ok (a, s)
  | .halt e, _ => .error e
  | .act f next, s => (next s).exec (f s)

@[simp] theorem exec_pure (a : α) (s : σ) : (pure a : Prog ε σ α).exec s = .ok (a, s) := rfl

@[simp] theorem exec_bind (p : Prog ε σ α) (k : α → Prog ε σ β) (s : σ) :
    (p >>= k).exec s = p.exec s >>= fun r => (k r.1).exec r.2 := by
  induction p generalizing s with
  | done a => rfl
  | halt e => rfl
  | act f next ih => exact ih s (f s)

@[simp] theorem exec_read (g : σ → α) (s : σ) : (read g : Prog ε σ α).exec s = .ok (g s, s) := rfl

@[simp] theorem exec_write (f : σ → σ) (s : σ) :
    (write f : Prog ε σ Unit).exec s = .ok ((), f s) := rfl

@[simp] theorem exec_call (g : σ → Except ε (α × σ)) (s : σ) : (call g).exec s = g s := by
  cases h : g s with
  | ok r => simp [call, exec, h]
  | error e => simp [call, exec, h]

/-- A program that came to its end did so with each of its parts. -/
theorem exec_bind_ok {p : Prog ε σ α} {k : α → Prog ε σ β} {s t : σ} {b : β}
    (h : (p >>= k).exec s = .ok (b, t)) :
    ∃ a u, p.exec s = .ok (a, u) ∧ (k a).exec u = .ok (b, t) := by
  rw [exec_bind] at h
  obtain ⟨r, hr, hk⟩ := bind_ok h
  exact ⟨r.1, r.2, hr, hk⟩

/-! ### On a part of the state -/

end Prog

/-- A part of the state. -/
structure Part (σ π : Type) where
  get : σ → π
  put : π → σ → σ
  get_put : ∀ x s, get (put x s) = x
  put_put : ∀ x y s, put y (put x s) = put y s
  put_get : ∀ s, put (get s) s = s

namespace Prog

variable {ε σ α β π : Type}

def on (L : Part σ π) : Prog ε π α → Prog ε σ α
  | .done a => .done a
  | .halt e => .halt e
  | .act f next => .act (fun s => L.put (f (L.get s)) s) fun s => (next (L.get s)).on L

theorem on_bind (L : Part σ π) (p : Prog ε π α) (k : α → Prog ε π β) :
    (p >>= k).on L = p.on L >>= fun a => (k a).on L := by
  induction p with
  | done a => rfl
  | halt e => rfl
  | act f next ih => exact congrArg (Prog.act _) (funext fun s => ih (L.get s))

theorem on_call (L : Part σ π) (g : π → Except ε (α × π)) : (call g).on L =
    call fun s => (g (L.get s)).map fun r => (r.1, L.put r.2 s) := by
  refine congrArg₂ Prog.act (funext fun s => ?_) (funext fun s => ?_)
  · cases h : g (L.get s) with
    | ok r => simp only [h, Except.map]
    | error e => simp only [h, Except.map, L.put_get]
  · cases h : g (L.get s) with
    | ok r => simp [h, Except.map, on]
    | error e => simp [h, Except.map, on]

/-! ### Actions of one kind -/

/-- Every action does `K`, in whatever state it is taken. -/
def Acts (K : σ → σ → Prop) : Prog ε σ α → Prop
  | .done _ => True
  | .halt _ => True
  | .act f next => ∀ s, K s (f s) ∧ (next s).Acts K

namespace Acts

variable {K : σ → σ → Prop}

theorem pure (a : α) : Acts K (Pure.pure a : Prog ε σ α) := trivial

theorem bind {p : Prog ε σ α} {k : α → Prog ε σ β} (hp : p.Acts K) (hk : ∀ a, (k a).Acts K) :
    (p >>= k).Acts K := by
  induction p with
  | done a => exact hk a
  | halt e => exact trivial
  | act f next ih => exact fun s => ⟨(hp s).1, ih s (hp s).2⟩

theorem read (hK : ∀ s, K s s) (g : σ → α) : Acts K (Prog.read g : Prog ε σ α) :=
  fun s => ⟨hK s, trivial⟩

theorem write {f : σ → σ} (hf : ∀ s, K s (f s)) : Acts K (Prog.write f : Prog ε σ Unit) :=
  fun s => ⟨hf s, trivial⟩

theorem any (p : Prog ε σ α) : p.Acts fun _ _ => True := by
  induction p with
  | done a => exact trivial
  | halt e => exact trivial
  | act f next ih => exact fun s => ⟨trivial, ih s⟩

theorem on {L : Part σ π} {K' : π → π → Prop} {p : Prog ε π α} (hp : p.Acts K')
    (hK : ∀ s x, K' (L.get s) x → K s (L.put x s)) : (p.on L).Acts K := by
  induction p with
  | done a => exact trivial
  | halt e => exact trivial
  | act f next ih => exact fun s => ⟨hK s _ (hp (L.get s)).1, ih (L.get s) (hp (L.get s)).2⟩

/-- What all actions do, the program does when it runs to its end. -/
theorem exec {p : Prog ε σ α} (hp : p.Acts K) {s t : σ} {a : α} (h : p.exec s = .ok (a, t)) :
    Relation.ReflTransGen K s t := by
  induction p generalizing s with
  | done b =>
    obtain rfl : s = t := congrArg Prod.snd (Except.ok.inj h)
    exact .refl
  | halt e => cases h
  | act f next ih => exact .head (hp s).1 (ih s (hp s).2 h)

theorem call {g : σ → Except ε (α × σ)} (hK : ∀ s, K s s)
    (hg : ∀ s a t, g s = .ok (a, t) → K s t) : Acts K (Prog.call g) := by
  intro s
  cases h : g s with
  | ok r =>
    simp only [h]
    exact ⟨hg s r.1 r.2 h, trivial⟩
  | error e =>
    simp only [h]
    exact ⟨hK s, trivial⟩

end Acts

end Prog

/-! ### One thread among others -/

/-- The terms on which a thread runs: what always holds, what others do between its actions, what
its own actions do, in which cases they are taken at all, and with what it can halt. -/
structure Terms (ε σ : Type) where
  inv : σ → Prop
  rely : σ → σ → Prop
  guar : σ → σ → Prop
  may : σ → σ → Prop
  halts : ε → Prop

namespace Terms

variable {ε σ α β : Type} (T : Terms ε σ)

/-- What others do, in any number of steps. -/
def Env : σ → σ → Prop := Relation.ReflTransGen fun s t => T.inv s ∧ T.rely s t ∧ T.inv t

/-- Others do not make it false. -/
def Stable (P : σ → Prop) : Prop := ∀ s t, T.inv s → T.rely s t → T.inv t → P s → P t

/-- From `s` on, whatever others do, the program acts on the terms, and if it ends, with `Q`. -/
def Safe (Q : α → σ → Prop) : Prog ε σ α → σ → Prop
  | .done a, s => ∀ t, T.Env s t → Q a t
  | .halt e, _ => T.halts e
  | .act f next, s => ∀ t, T.Env s t → T.inv t → T.may t (f t) →
      T.inv (f t) ∧ T.guar t (f t) ∧ Safe Q (next t) (f t)

variable {T} {P : σ → Prop} {Q Q' : α → σ → Prop} {R : β → σ → Prop} {p : Prog ε σ α}
  {k : α → Prog ε σ β} {s t : σ}

theorem Stable.env (h : T.Stable P) (hst : T.Env s t) (hs : P s) : P t := by
  induction hst with
  | refl => exact hs
  | tail _ hstep ih => exact h _ _ hstep.1 hstep.2.1 hstep.2.2 ih

theorem Stable.and {P' : σ → Prop} (h : T.Stable P) (h' : T.Stable P') :
    T.Stable fun s => P s ∧ P' s :=
  fun s t hs hst ht hP => ⟨h s t hs hst ht hP.1, h' s t hs hst ht hP.2⟩

namespace Safe

/-- Others act first. -/
theorem env (h : T.Safe Q p s) (hst : T.Env s t) : T.Safe Q p t := by
  cases p with
  | done a => exact fun u hu => h u (hst.trans hu)
  | halt e => exact h
  | act f next => exact fun u hu => h u (hst.trans hu)

theorem mono (h : T.Safe Q p s) (hQ : ∀ a t, Q a t → Q' a t) : T.Safe Q' p s := by
  induction p generalizing s with
  | done a => exact fun t ht => hQ a t (h t ht)
  | halt e => exact h
  | act f next ih =>
    intro t ht hinv hmay
    obtain ⟨hinv', hguar, hnext⟩ := h t ht hinv hmay
    exact ⟨hinv', hguar, ih t hnext⟩

theorem pure {a : α} (hQ : T.Stable (Q a)) (hs : Q a s) : T.Safe Q (Pure.pure a) s :=
  fun _ ht => hQ.env ht hs

/-- **Sequencing.** -/
theorem bind (h : T.Safe (fun a t => T.Safe R (k a) t) p s) : T.Safe R (p >>= k) s := by
  induction p generalizing s with
  | done a => exact h s .refl
  | halt e => exact h
  | act f next ih =>
    intro t ht hinv hmay
    obtain ⟨hinv', hguar, hnext⟩ := h t ht hinv hmay
    exact ⟨hinv', hguar, ih t hnext⟩

/-- **Reading.** -/
theorem read {g : σ → α} (hP : T.Stable P) (hs : P s)
    (h : ∀ t, T.inv t → P t → T.may t t → T.guar t t ∧ T.Safe R (k (g t)) t) :
    T.Safe R (Prog.read g >>= k) s := by
  intro t ht hinv hmay
  exact ⟨hinv, h t hinv (hP.env ht hs) hmay⟩

/-- **Writing.** -/
theorem write {f : σ → σ} {k : Unit → Prog ε σ β} (hP : T.Stable P) (hs : P s)
    (h : ∀ t, T.inv t → P t → T.may t (f t) →
      T.inv (f t) ∧ T.guar t (f t) ∧ T.Safe R (k ()) (f t)) :
    T.Safe R (Prog.write f >>= k) s := by
  intro t ht hinv hmay
  exact h t hinv (hP.env ht hs) hmay

/-- **A function that is not interrupted.** -/
theorem call {g : σ → Except ε (α × σ)} (hP : T.Stable P) (hs : P s)
    (hok : ∀ t a t', T.inv t → P t → g t = .ok (a, t') → T.may t t' →
      T.inv t' ∧ T.guar t t' ∧ T.Safe R (k a) t')
    (herror : ∀ t e, T.inv t → P t → g t = .error e → T.guar t t ∧ T.halts e) :
    T.Safe R (Prog.call g >>= k) s := by
  intro t ht hinv hmay
  have hP' := hP.env ht hs
  cases hg : g t with
  | ok r =>
    simp only [hg] at hmay ⊢
    exact hok t r.1 r.2 hinv hP' hg hmay
  | error e =>
    simp only [hg]
    obtain ⟨hguar, hhalt⟩ := herror t e hinv hP' hg
    exact ⟨hinv, hguar, hhalt⟩

/-- **Actions of one kind** that keep an assertion. -/
theorem of_acts {K : σ → σ → Prop} (hp : p.Acts K) (hP : T.Stable P) (hhalt : ∀ e, T.halts e)
    (hK : ∀ t u, T.inv t → P t → T.may t u → K t u → T.inv u ∧ T.guar t u ∧ P u) (hs : P s) :
    T.Safe (fun _ => P) p s := by
  induction p generalizing s with
  | done a => exact fun t ht => hP.env ht hs
  | halt e => exact hhalt e
  | act f next ih =>
    intro t ht hinv hmay
    obtain ⟨hkind, hnext⟩ := hp t
    obtain ⟨hinv', hguar, hP'⟩ := hK t (f t) hinv (hP.env ht hs) hmay hkind
    exact ⟨hinv', hguar, ih t hnext hP'⟩

/-- **A part that nobody else changes.**  With `A x` for the part that has the value `x` and is the
thread's own, a program on the part does what it does without interruption. -/
theorem on {π : Type} {L : Part σ π} {A : π → σ → Prop} (hA : ∀ x, T.Stable (A x))
    (hget : ∀ x t, A x t → L.get t = x)
    (hput : ∀ x y t, T.inv t → A x t → T.may t (L.put y t) →
      T.inv (L.put y t) ∧ T.guar t (L.put y t) ∧ A y (L.put y t)) {q : Prog ε π α} {x : π}
    (hhalt : ∀ e, q.exec x = .error e → T.halts e) (hs : A x s) :
    T.Safe (fun a t => ∃ y, q.exec x = .ok (a, y) ∧ A y t) (q.on L) s := by
  induction q generalizing x s with
  | done a => exact fun t ht => ⟨x, rfl, (hA x).env ht hs⟩
  | halt e => exact hhalt e rfl
  | act f next ih =>
    intro t ht hinv hmay
    have hx := (hA x).env ht hs
    obtain rfl := hget x t hx
    obtain ⟨hinv', hguar, hA'⟩ := hput _ _ t hinv hx hmay
    exact ⟨hinv', hguar, ih _ hhalt hA'⟩

end Safe

end Terms

/-! ### Threads -/

/-- The shared state, and what each thread has still to do. -/
structure Pool (ι ε σ : Type) where
  shared : σ
  code : ι → Prog ε σ Unit

/-- What happens to the threads. -/
inductive Event (ι A N : Type)
  | start (a : A)
  | act (i : ι)
  | outside (n : N)
deriving DecidableEq, Repr

/-- The programs with which threads are started, and what happens outside of them. -/
structure Threads (ι ε σ A N : Type) where
  thread : A → ι
  program : A → Prog ε σ Unit
  ready : σ → A → Bool
  outside : N → σ → Option σ

namespace Threads

variable {ι ε σ A N : Type} [DecidableEq ι] (S : Threads ι ε σ A N)

/-- A thread is started when it has nothing to do; a thread that has halted stays where it is. -/
def advance (u : Pool ι ε σ) : Event ι A N → Option (Pool ι ε σ)
  | .start a =>
      match u.code (S.thread a) with
      | .done _ =>
          if S.ready u.shared a then
            some { u with code := Function.update u.code (S.thread a) (S.program a) }
          else none
      | _ => none
  | .act i =>
      match u.code i with
      | .act f next => some ⟨f u.shared, Function.update u.code i (next u.shared)⟩
      | _ => none
  | .outside n => (S.outside n u.shared).map fun s => { u with shared := s }

def Step (u : Pool ι ε σ) (e : Event ι A N) (u' : Pool ι ε σ) : Prop := S.advance u e = some u'

end Threads

/-- The terms on which threads run together: those of each of them, where it relies on what the
others guarantee, and what holds while it has nothing to do. -/
structure Accord (ι ε σ A : Type) where
  inv : σ → Prop
  guar : ι → σ → σ → Prop
  may : ι → σ → σ → Prop
  outside : σ → σ → Prop
  idle : ι → σ → Prop
  starts : A → σ → Prop
  halts : ε → Prop

namespace Accord

variable {ι ε σ A N : Type} (C : Accord ι ε σ A)

def terms (i : ι) : Terms ε σ where
  inv := C.inv
  rely := fun s t => (∃ j, j ≠ i ∧ C.guar j s t) ∨ C.outside s t
  guar := C.guar i
  may := C.may i
  halts := C.halts

/-- The steps that runs are restricted to. -/
def Allows (u : Pool ι ε σ) (e : Event ι A N) (u' : Pool ι ε σ) : Prop :=
  match e with
  | .start a => C.starts a u.shared
  | .act i => C.may i u.shared u'.shared
  | .outside _ => C.outside u.shared u'.shared ∧ C.inv u'.shared

/-- All threads are on these terms. -/
structure Holds (u : Pool ι ε σ) : Prop where
  inv : C.inv u.shared
  safe : ∀ i, (C.terms i).Safe (fun _ => C.idle i) (u.code i) u.shared

variable {C} {u : Pool ι ε σ} {i : ι}

theorem Holds.idle (h : C.Holds u) (hi : u.code i = .done ()) : C.idle i u.shared := by
  have hsafe := h.safe i
  rw [hi] at hsafe
  exact hsafe u.shared .refl

theorem Holds.halts (h : C.Holds u) {e : ε} (hi : u.code i = .halt e) : C.halts e := by
  have hsafe := h.safe i
  rw [hi] at hsafe
  exact hsafe

end Accord

namespace Threads

variable {ι ε σ A N : Type} [DecidableEq ι] {S : Threads ι ε σ A N} {C : Accord ι ε σ A}
  {u u' : Pool ι ε σ} {e : Event ι A N}

/-- What is to be shown of each program by itself. -/
structure Keeps (S : Threads ι ε σ A N) (C : Accord ι ε σ A) : Prop where
  stable : ∀ i, (C.terms i).Stable (C.idle i)
  start : ∀ a s, C.starts a s → C.inv s → S.ready s a = true → C.idle (S.thread a) s →
    (C.terms (S.thread a)).Safe (fun _ => C.idle (S.thread a)) (S.program a) s

omit [DecidableEq ι] in
/-- At first no thread has anything to do. -/
theorem Keeps.initial (hS : S.Keeps C) {s : σ} (hinv : C.inv s) (hidle : ∀ i, C.idle i s) :
    C.Holds ⟨s, fun _ => .done ()⟩ :=
  ⟨hinv, fun i _ ht => (hS.stable i).env ht (hidle i)⟩

/-- A thread is started when it has nothing to do. -/
theorem start_spec {a : A} (hs : S.Step u (.start a : Event ι A N) u') :
    u.code (S.thread a) = .done () ∧ S.ready u.shared a = true ∧
      u' = { u with code := Function.update u.code (S.thread a) (S.program a) } := by
  simp only [Step, advance] at hs
  cases hcode : u.code (S.thread a) with
  | done r =>
    rw [hcode] at hs
    obtain ⟨hready, heq⟩ := Option.ite_none_right_eq_some.1 hs
    exact ⟨rfl, hready, (Option.some.inj heq).symm⟩
  | halt e =>
    rw [hcode] at hs
    cases hs
  | act f next =>
    rw [hcode] at hs
    cases hs

/-- An action does what its thread guarantees, and what comes after it is on the terms again. -/
theorem act_spec (h : C.Holds u) {i : ι} (hs : S.Step u (.act i) u')
    (hmay : C.may i u.shared u'.shared) : C.inv u'.shared ∧ C.guar i u.shared u'.shared ∧
      (C.terms i).Safe (fun _ => C.idle i) (u'.code i) u'.shared ∧
      ∀ j, j ≠ i → u'.code j = u.code j := by
  simp only [Step, advance] at hs
  cases hcode : u.code i with
  | done r =>
    rw [hcode] at hs
    cases hs
  | halt e =>
    rw [hcode] at hs
    cases hs
  | act f next =>
    rw [hcode] at hs
    obtain rfl := Option.some.inj hs
    have hsafe := h.safe i
    rw [hcode] at hsafe
    obtain ⟨hinv', hguar, hnext⟩ := hsafe u.shared .refl h.inv hmay
    refine ⟨hinv', hguar, ?_, fun j hj => Function.update_of_ne hj _ _⟩
    show (C.terms i).Safe _ (Function.update u.code _ _ i) (f u.shared)
    rw [Function.update_self]
    exact hnext

/-- **One step.** -/
theorem Keeps.step (hS : S.Keeps C) (h : C.Holds u) (hs : S.Step u e u')
    (hallows : C.Allows u e u') : C.Holds u' := by
  have hinv := h.inv
  cases e with
  | start a =>
    obtain ⟨hcode, hready, rfl⟩ := start_spec hs
    refine ⟨hinv, fun i => ?_⟩
    by_cases hi : i = S.thread a
    · subst hi
      show (C.terms (S.thread a)).Safe _ (Function.update u.code _ _ (S.thread a)) u.shared
      rw [Function.update_self]
      exact hS.start a u.shared hallows hinv hready (h.idle hcode)
    · show (C.terms i).Safe _ (Function.update u.code _ _ i) u.shared
      rw [Function.update_of_ne hi]
      exact h.safe i
  | act i =>
    obtain ⟨hinv', hguar, hnext, hothers⟩ := act_spec h hs hallows
    refine ⟨hinv', fun j => ?_⟩
    by_cases hj : j = i
    · subst hj
      exact hnext
    · -- the others relied on this
      have hrely : (C.terms j).Env u.shared u'.shared :=
        .single ⟨hinv, Or.inl ⟨i, Ne.symm hj, hguar⟩, hinv'⟩
      rw [hothers j hj]
      exact (h.safe j).env hrely
  | outside n =>
    obtain ⟨s, -, rfl⟩ := Option.map_eq_some_iff.1 hs
    obtain ⟨hout, hinv'⟩ := hallows
    exact ⟨hinv', fun i => (h.safe i).env (.single ⟨hinv, Or.inr hout, hinv'⟩)⟩

/-- **Every interleaving** whose steps are allowed. -/
theorem Keeps.holds (hS : S.Keeps C) (h : C.Holds u)
    {R : Pool ι ε σ → Event ι A N → Pool ι ε σ → Prop}
    (hR : ∀ v e v', C.Holds v → R v e v' → S.Step v e v' ∧ C.Allows v e v')
    {es : List (Event ι A N)} (hrun : Run R u es u') : C.Holds u' :=
  hrun.invariant h fun v e v' hv hs => hS.step hv (hR v e v' hv hs).1 (hR v e v' hv hs).2

end Threads

end Interleaving
