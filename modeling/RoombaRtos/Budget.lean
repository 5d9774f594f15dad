import RoombaRtos.StartTimes

/-!
# Execution budgets

The counter `ticks_remaining` of a periodic task against the ticks that hit it.

* `Watched.Charged` — the counter as a function of the hits, wrapped for a budget of zero;
* `Watched.accounting_iff` — the accounts are right in the runs in which no tick hits a task with
  a budget of zero, and in no others.
-/

namespace RoombaRtos

open Lockstep

namespace Watched

variable {w w' w₀ : Watched} {es : List Entry} {e : Entry} {i : Slot} {n : ℕ} {t : Timing}
  {l : Life}

/-! ### The counter and the hits -/

/-- The counter of a periodic task is its budget less the hits.  With a budget of zero the first
hit wraps it. -/
structure Charged (_ : ℕ) (t : Timing) (l : Life) : Prop where
  positive : t.wcet ≠ 0 → t.ticksRemaining.toNat + l.hits = t.wcet.toNat ∧ l.hits < t.wcet.toNat
  zero : t.wcet = 0 → (l.hits = 0 ∧ t.ticksRemaining = 0) ∨
    (0 < l.hits ∧ t.ticksRemaining.toNat + l.hits = 65536 ∧ l.hits < 65536)

theorem Charged.observe (h : Charged n t l) (r : Bool) : Charged n t (l.observe n r) := by
  unfold Life.observe
  cases r with
  | false => exact h
  | true => exact ⟨h.positive, h.zero⟩

/-- A full budget. -/
theorem Charged.full (ht : t.ticksRemaining = t.wcet) (hl : l.hits = 0) : Charged n t l := by
  refine ⟨fun h0 => ?_, fun h0 => Or.inl ⟨hl, ht.trans h0⟩⟩
  have hpos : 0 < t.wcet.toNat := by
    rw [Nat.pos_iff_ne_zero]
    exact fun h => h0 (BitVec.eq_of_toNat_eq h)
  rw [ht, hl]
  exact ⟨rfl, hpos⟩

/-- A hit that does not end the task takes one tick off its budget. -/
theorem Charged.hit {n' : ℕ} (h : Charged n t l) (hne : t.ticksRemaining - 1 ≠ 0) :
    Charged n' t.charge { l with hits := l.hits + 1 } := by
  have hticks : (t.ticksRemaining - 1).toNat ≠ 0 := fun h0 => hne (BitVec.eq_of_toNat_eq h0)
  refine ⟨fun h0 => ?_, fun h0 => Or.inr ?_⟩
  · obtain ⟨hsum, hlt⟩ := h.positive h0
    show (t.ticksRemaining - 1).toNat + (l.hits + 1) = t.wcet.toNat ∧ l.hits + 1 < t.wcet.toNat
    have hpos : 0 < t.ticksRemaining.toNat := by omega
    have hsub : (t.ticksRemaining - 1).toNat = t.ticksRemaining.toNat - 1 := by bv_omega
    omega
  · show 0 < l.hits + 1 ∧ (t.ticksRemaining - 1).toNat + (l.hits + 1) = 65536 ∧ l.hits + 1 < 65536
    rcases h.zero h0 with ⟨hl, ht⟩ | ⟨hpos, hsum, hlt⟩
    · rw [hl, ht]
      decide
    · have hpos' : 0 < t.ticksRemaining.toNat := by omega
      have hsub : (t.ticksRemaining - 1).toNat = t.ticksRemaining.toNat - 1 := by bv_omega
      omega

theorem Charged.course {a : Sched} {n' : ℕ} {l' : Life} (hc : Sched.Course a e i n' l t l')
    (hp : t.priority = .periodic)
    (h : (a.task (.process i)).state ≠ .dead → (a.task (.process i)).priority = .periodic →
      Charged n (a.task (.process i)).timing l) : Charged n' t l' := by
  cases hc with
  | born hd he ht hr =>
    subst ht hr
    exact .full rfl rfl
  | kept hl hm ht hr =>
    subst ht hr
    have hold := h hl hp
    exact ⟨hold.positive, hold.zero⟩
  | charged hl he hcur hne ht hr =>
    subst ht hr
    exact (h hl hp).hit hne
  | yielded hl he hcur ht hr =>
    subst ht hr
    exact .full rfl rfl

theorem Keeps.charged (h : w.Keeps Charged) (hs : w.Step e w') : w'.Keeps Charged :=
  h.step hs fun _ _ _ _ r _ hc hp hold => (Charged.course hc hp hold).observe r

/-! ### Accounting -/

/-- The accounts of all periodic tasks are right: `ticks_remaining` is at most the budget, what is
missing is the number of hits, and no task has survived more hits than its budget, or one. -/
def Accounted (w : Watched) : Prop :=
  ∀ i, (w.kernel.pd (.process i)).state ≠ .dead →
    (w.kernel.pd (.process i)).priority = .periodic →
    (w.kernel.pd (.process i)).ticksRemaining ≤ (w.kernel.pd (.process i)).wcet ∧
    (w.kernel.pd (.process i)).wcet.toNat - (w.kernel.pd (.process i)).ticksRemaining.toNat =
      (w.life i).hits ∧
    (w.life i).hits ≤ max (w.kernel.pd (.process i)).wcet.toNat 1

/-- A tick hits a running periodic task with a budget of zero. -/
def HitsZeroBudget (w : Watched) (e : Entry) : Prop :=
  e = .timer ∧ ∃ i, w.kernel.cp = some (.process i) ∧
    (w.kernel.pd (.process i)).priority = .periodic ∧ (w.kernel.pd (.process i)).wcet = 0

instance (w : Watched) (e : Entry) : Decidable (w.HitsZeroBudget e) :=
  inferInstanceAs (Decidable (_ ∧ _))

/-- With a positive budget the accounts are right. -/
theorem Charged.accounted (h : Charged n t l) (h0 : t.wcet ≠ 0 ∨ l.hits = 0) :
    t.ticksRemaining ≤ t.wcet ∧ t.wcet.toNat - t.ticksRemaining.toNat = l.hits ∧
      l.hits ≤ max t.wcet.toNat 1 := by
  rw [BitVec.le_def]
  by_cases hw : t.wcet = 0
  · have hl := h0.resolve_left (not_not_intro hw)
    rcases h.zero hw with ⟨-, ht⟩ | ⟨hpos, -, -⟩
    · rw [hl, ht, hw]
      simp
    · omega
  · obtain ⟨hsum, hlt⟩ := h.positive hw
    omega

/-- With a budget of zero they are right until the first hit. -/
theorem Charged.not_accounted (h : Charged n t l) (h0 : t.wcet = 0) (hl : l.hits ≠ 0) :
    ¬ t.ticksRemaining ≤ t.wcet := by
  rcases h.zero h0 with ⟨hl', -⟩ | ⟨-, hsum, hlt⟩
  · exact absurd hl' hl
  · rw [BitVec.le_def, h0]
    simp
    omega

/-- The accounts are right where no task with a budget of zero has been hit. -/
theorem Keeps.accounted_iff (h : w.Keeps Charged) : w.Accounted ↔
    ∀ i, (w.kernel.pd (.process i)).state ≠ .dead →
      (w.kernel.pd (.process i)).priority = .periodic →
      (w.kernel.pd (.process i)).wcet ≠ 0 ∨ (w.life i).hits = 0 := by
  refine forall_congr' fun i => forall_congr' fun hi => forall_congr' fun hp => ?_
  have hc := h.periodic hi hp
  constructor
  · intro hacc
    by_contra hnot
    rw [not_or, not_not] at hnot
    exact hc.not_accounted hnot.1 hnot.2 hacc.1
  · exact hc.accounted

/-- One step keeps the accounts right exactly if no tick hits a budget of zero. -/
theorem Keeps.accounted_step_iff (h : w.Keeps Charged) (hacc : w.Accounted) (hs : w.Step e w') :
    w'.Accounted ↔ ¬ w.HitsZeroBudget e := by
  rw [h.accounted_iff] at hacc
  rw [(h.charged hs).accounted_iff]
  obtain ⟨a, hf, -⟩ := h
  obtain ⟨a', hstep, hf', -, hlife⟩ := hf.step hs
  simp only [hf.represents.task, hf'.represents.task] at hacc ⊢
  constructor
  · rintro hacc' ⟨rfl, i, hcp, hp, hw⟩
    rw [hf.represents.task] at hp hw
    have hcur : a.current = .process i :=
      Option.some.inj (hf.represents.current.symm.trans hcp)
    have hlive : (a.task (.process i)).state ≠ .dead := hcur ▸ hf.inv.current_live
    obtain ⟨hi', htime⟩ := hstep.charged hf.inv hcur hp
    have hp' : (a'.task (.process i)).priority = .periodic :=
      (congrArg Timing.priority htime).trans hp
    have hw' : (a'.task (.process i)).wcet = 0 := (congrArg Timing.wcet htime).trans hw
    obtain ⟨r, hr⟩ := Follows.life_eq hlife hi'
    rcases hacc' i hi' hp' with hne | hhits
    · exact hne hw'
    · rw [hr, Life.observe_hits, Sched.record_current hlive hcur] at hhits
      cases hhits
  · intro hno i hi hp
    obtain ⟨r, hr⟩ := Follows.life_eq hlife hi
    rw [hr, Life.observe_hits]
    cases hstep.course hf.inv hi hp with
    | born hd he ht hr => exact Or.inr (by rw [hr])
    | kept hl hm ht hr =>
      have hw : (a'.task (.process i)).wcet = (a.task (.process i)).wcet :=
        congrArg Timing.wcet ht
      rw [hr, hw]
      exact hacc i hl ((congrArg Timing.priority ht).symm.trans hp)
    | charged hl he hcur hne ht hr =>
      have hp₀ : (a.task (.process i)).priority = .periodic :=
        (congrArg Timing.priority ht).symm.trans hp
      refine Or.inl fun hw => hno ⟨he, i, ?_, ?_, ?_⟩
      · rw [hf.represents.current, hcur]
      · rw [hf.represents.task, hp₀]
      · rw [hf.represents.task]
        exact (congrArg Timing.wcet ht).symm.trans hw
    | yielded hl he hcur ht hr => exact Or.inr (by rw [hr])

/-- **Accounting of execution time.**  The runs since power-on in all of whose states the accounts
are right are the runs in which no tick hits a running periodic task with a budget of zero. -/
theorem accounting_iff (hinit : w₀.Initial) :
    Run (fun w e w' => w.Step e w' ∧ w'.Accounted) w₀ es w ↔
      Run (fun w e w' => w.Step e w' ∧ ¬ w.HitsZeroBudget e) w₀ es w := by
  have hboot : w₀.Accounted := by
    obtain ⟨create, kernelIdle, hf, -⟩ := hinit.follows
    intro i hi hp
    rw [hf.represents.state] at hi
    rw [hf.represents.priority] at hp
    exact False.elim (EachPeriodic.boot (fun _ _ _ => False) create kernelIdle w₀.life i hi hp)
  exact Run.keeps_iff (I := fun w => w.Keeps Charged) (fun _ _ _ hk hs => hk.charged hs)
    (fun _ _ _ hk hacc hs => hk.accounted_step_iff hacc hs) hinit.keeps hboot

/-- A task with a budget of three ticks has been hit twice. -/
theorem accounting_two_hits :
    ∃ w ∈ after (fun w e => decide (¬ w.HitsZeroBudget e)) 1 2
        [.call (.taskCreatePeriod (some 3) 0 9 3 0), .call .taskTerminate, .timer, .timer],
      ∃ w₀, w₀.Initial ∧ Run (fun w e w' => w.Step e w' ∧ w'.Accounted) w₀
        [.call (.taskCreatePeriod (some 3) 0 9 3 0), .call .taskTerminate, .timer, .timer] w := by
  refine exists_mem_of_isSome (by decide +kernel) fun w hw => ?_
  obtain ⟨w₀, hinit, hr⟩ := run_of_after hw
  exact ⟨w₀, hinit, (accounting_iff hinit).2
    (hr.mono fun _ _ _ h => ⟨h.1, of_decide_eq_true h.2⟩)⟩

/-- The first tick that hits a task with a budget of zero wraps its counter. -/
theorem zero_budget_wraps :
    ∃ w ∈ (after (fun _ _ => true) 1 2 [.call (.taskCreatePeriod (some 3) 0 2 0 0),
        .call .taskTerminate, .timer]).filter fun w =>
          (w.kernel.pd (.process 1)).priority = .periodic ∧
          (w.kernel.pd (.process 1)).wcet = 0 ∧
          (w.kernel.pd (.process 1)).ticksRemaining = 65535,
      (∃ w₀ es, w₀.Initial ∧ Run Step w₀ es w) ∧ ¬ w.Accounted := by
  have hex : ∃ w ∈ (after (fun _ _ => true) 1 2 [.call (.taskCreatePeriod (some 3) 0 2 0 0),
      .call .taskTerminate, .timer]).filter fun w =>
        ((w.kernel.pd (.process 1)).priority = .periodic ∧
          (w.kernel.pd (.process 1)).wcet = 0 ∧
          (w.kernel.pd (.process 1)).ticksRemaining = 65535) ∧
        (w.kernel.pd (.process 1)).state ≠ .dead, True :=
    exists_mem_of_isSome (by decide +kernel) fun _ _ => trivial
  obtain ⟨w, hw, -⟩ := hex
  obtain ⟨hw, hfacts⟩ := Option.filter_eq_some_iff.1 hw
  obtain ⟨htask, hi⟩ := of_decide_eq_true hfacts
  obtain ⟨w₀, hinit, hr⟩ := run_of_after hw
  refine ⟨w, Option.filter_eq_some_iff.2 ⟨hw, decide_eq_true htask⟩,
    ⟨w₀, _, hinit, hr.mono fun _ _ _ h => h.1⟩, fun hacc => ?_⟩
  have hle := (hacc 1 hi htask.1).1
  rw [htask.2.1, htask.2.2] at hle
  exact absurd hle (by decide)

end Watched

end RoombaRtos
