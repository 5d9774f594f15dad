import RoombaRtos.Timeline

/-!
# Start times

`Kernel_Task_Create` and `Kernel_Request_Next` compute the next start of a periodic task, as a
16-bit time and an epoch.

* `Life.start` — the start time that the record gives;
* `Watched.start_time_mod` — the 16-bit time is right for ever;
* `Watched.start_times_iff` — the epoch is right for ever exactly if the offset did not carry the
  time of creation across a wrap of the clock.
-/

namespace RoombaRtos

open Lockstep

/-- The start time of a periodic task after its last call of `Task_Next`. -/
def Life.start (l : Life) : ℕ := l.born + l.params.offset.toNat + l.nexts * l.params.period.toNat

/-- The first start time lies beyond the wrap that follows the creation. -/
def Life.Carries (l : Life) : Prop := 65536 ≤ l.born % 65536 + l.params.offset.toNat

instance (l : Life) : Decidable l.Carries := inferInstanceAs (Decidable (_ ≤ _))

@[simp] theorem OverflowState.flip_flip (s : OverflowState) : s.flip.flip = s := by cases s <;> rfl

theorem OverflowState.flip_ne (s : OverflowState) : s.flip ≠ s := by cases s <;> simp [flip]

namespace Watched

variable {w w₀ : Watched} {es : List Entry} {i : Slot}

/-- The times against the record: the epoch is the wrong one if the offset had a carry. -/
structure Punctual (_ : ℕ) (t : Timing) (l : Life) : Prop where
  period : t.period = l.params.period
  encodes : Encodes t.tons (if l.Carries then t.clockState.flip else t.clockState) l.start

theorem Punctual.observe {n : ℕ} {t : Timing} {l : Life} (h : Punctual n t l) (r : Bool) :
    Punctual n t (l.observe n r) := by
  unfold Life.observe
  cases r with
  | false => exact h
  | true => exact ⟨h.period, h.encodes⟩

/-- `Task_Next` moves the start time on by one period. -/
theorem Punctual.next {n n' : ℕ} {t : Timing} {l : Life} (h : Punctual n t l) :
    Punctual n' t.next { l with nexts := l.nexts + 1, hits := 0 } := by
  refine ⟨h.period, ?_⟩
  have hadd := h.encodes.add t.period
  have hstart : ({ l with nexts := l.nexts + 1, hits := 0 } : Life).start =
      l.start + t.period.toNat := by
    show l.born + l.params.offset.toNat + (l.nexts + 1) * l.params.period.toNat = _
    rw [h.period, Life.start, Nat.add_mul, Nat.one_mul, Nat.add_assoc _ (l.nexts * _)]
  rw [hstart]
  show Encodes (t.tons + t.period)
    (if l.Carries then t.next.clockState.flip else t.next.clockState) _
  have hflip : (if l.Carries then t.next.clockState.flip else t.next.clockState) =
      if t.tons + t.period < t.tons then
        (if l.Carries then t.clockState.flip else t.clockState).flip
      else if l.Carries then t.clockState.flip else t.clockState := by
    unfold Timing.next
    by_cases hc : l.Carries <;> by_cases hw : t.tons + t.period < t.tons <;> simp [hc, hw]
  rw [hflip]
  exact hadd

/-- A new task starts after its offset. -/
theorem Punctual.fresh {n : ℕ} {clock : Tick} {state : OverflowState} (h : Encodes clock state n)
    (q : KernelRequestParams) : Punctual n (.fresh q clock state) { params := q, born := n } := by
  refine ⟨rfl, ?_⟩
  have hadd := h.add q.offset
  have hstart : ({ params := q, born := n } : Life).start = n + q.offset.toNat := by
    simp [Life.start]
  have hcarry : ({ params := q, born := n } : Life).Carries ↔ clock + q.offset < clock :=
    (h.wraps_iff q.offset).symm
  rw [hstart]
  simp only [hcarry]
  exact hadd

theorem Punctual.course {a : Sched} {e : Entry} {l l' : Life} {t : Timing} (hf : w.Follows a)
    (hc : Sched.Course a e i (w.ticksAfter e) l t l') (hp : t.priority = .periodic)
    (h : (a.task (.process i)).state ≠ .dead → (a.task (.process i)).priority = .periodic →
      Punctual w.ticks (a.task (.process i)).timing l) (r : Bool) :
    Punctual (w.ticksAfter e) t (l'.observe (w.ticksAfter e) r) := by
  refine Punctual.observe ?_ r
  cases hc with
  | born hd he ht hr =>
    have hticks : w.ticksAfter e = w.ticks := by
      rw [ticksAfter, List.count_eq_zero.2 (by simp [Ne.symm he]), Nat.add_zero]
    rw [ht, hr, hticks]
    exact Punctual.fresh hf.reads _
  | kept hl hm ht hr =>
    subst ht hr
    have hold := h hl hp
    exact ⟨hold.period, hold.encodes⟩
  | charged hl he hcur hne ht hr =>
    subst ht hr
    have hold := h hl hp
    exact ⟨hold.period, hold.encodes⟩
  | yielded hl he hcur ht hr =>
    subst ht hr
    exact (h hl hp).next

theorem run_punctual (hinit : w₀.Initial) (hr : Run Step w₀ es w) : w.Keeps Punctual :=
  hr.invariant hinit.keeps fun _ _ _ hk hs => hk.step hs fun _ _ _ _ r hf hc hp hold =>
    Punctual.course hf hc hp hold r

/-- The 16-bit start time of a periodic task is right for ever. -/
theorem start_time_mod (hinit : w₀.Initial) (hr : Run Step w₀ es w)
    (hi : (w.kernel.pd (.process i)).state ≠ .dead)
    (hp : (w.kernel.pd (.process i)).priority = .periodic) :
    (w.kernel.pd (.process i)).tons.toNat = (w.life i).start % 65536 :=
  ((run_punctual hinit hr).periodic hi hp).encodes.clock

/-- **Start times.**  In every run, after any number of calls of `Task_Next`, the time and the
epoch of a periodic task are those of its start time if and only if adding the offset to the time
of creation had no carry: `Kernel_Task_Create` takes the epoch of the clock in any case. -/
theorem start_times_iff (hinit : w₀.Initial) (hr : Run Step w₀ es w)
    (hi : (w.kernel.pd (.process i)).state ≠ .dead)
    (hp : (w.kernel.pd (.process i)).priority = .periodic) :
    Encodes (w.kernel.pd (.process i)).tons (w.kernel.pd (.process i)).clockState
        (w.life i).start ↔
      (w.life i).born % 65536 + (w.life i).params.offset.toNat < 65536 := by
  obtain ⟨-, henc⟩ := (run_punctual hinit hr).periodic hi hp
  by_cases hc : (w.life i).Carries
  · rw [if_pos hc] at henc
    have hnot : ¬ (w.life i).born % 65536 + (w.life i).params.offset.toNat < 65536 :=
      Nat.not_lt.2 hc
    refine ⟨fun h => ?_, fun h => absurd h hnot⟩
    exact absurd (henc.state.trans h.state.symm) (OverflowState.flip_ne _)
  · rw [if_neg hc] at henc
    exact ⟨fun _ => Nat.not_le.1 hc, fun _ => henc⟩

/-- After two periods. -/
theorem start_times_two_periods :
    ∃ w ∈ (after (fun _ _ => true) 1 2 [.call (.taskCreatePeriod (some 3) 0 2 1 1),
        .call .taskTerminate, .timer, .call .taskNext, .timer, .timer, .call .taskNext]).filter
          fun w => (w.kernel.pd (.process 1)).state ≠ .dead ∧
            (w.kernel.pd (.process 1)).priority = .periodic ∧
            (w.life 1).born % 65536 + (w.life 1).params.offset.toNat < 65536 ∧
            (w.life 1).start = 5,
      Encodes (w.kernel.pd (.process 1)).tons (w.kernel.pd (.process 1)).clockState 5 := by
  apply exists_mem_of_isSome (by decide +kernel)
  intro w hw
  obtain ⟨hw, hfacts⟩ := Option.filter_eq_some_iff.1 hw
  obtain ⟨hi, hp, hlt, hstart⟩ := of_decide_eq_true hfacts
  obtain ⟨w₀, hinit, hr⟩ := run_of_after hw
  rw [← hstart]
  exact (start_times_iff hinit (hr.mono fun _ _ _ h => h.1) hi hp).2 hlt

/-- A task that is created at the first tick with the greatest offset starts at tick 65536, but
is entered for the first epoch. -/
theorem start_in_wrong_epoch :
    ∃ w ∈ after (fun _ _ => true) 1 2 [.timer, .call (.taskCreatePeriod (some 3) 0 2 1 65535)],
      (∃ w₀, w₀.Initial ∧ Run Step w₀ [.timer, .call (.taskCreatePeriod (some 3) 0 2 1 65535)] w) ∧
      ((w.kernel.pd (.process 1)).state ≠ .dead ∧
        (w.kernel.pd (.process 1)).priority = .periodic ∧ (w.life 1).start = 65536) ∧
      ¬ Encodes (w.kernel.pd (.process 1)).tons (w.kernel.pd (.process 1)).clockState 65536 := by
  have hex : ∃ w ∈ (after (fun _ _ => true) 1 2
      [.timer, .call (.taskCreatePeriod (some 3) 0 2 1 65535)]).filter fun w =>
        ((w.kernel.pd (.process 1)).state ≠ .dead ∧
          (w.kernel.pd (.process 1)).priority = .periodic ∧ (w.life 1).start = 65536) ∧
        ¬ Encodes (w.kernel.pd (.process 1)).tons (w.kernel.pd (.process 1)).clockState 65536,
      True := exists_mem_of_isSome (by decide +kernel) fun _ _ => trivial
  obtain ⟨w, hw, -⟩ := hex
  obtain ⟨hw, hfacts⟩ := Option.filter_eq_some_iff.1 hw
  obtain ⟨htask, henc⟩ := of_decide_eq_true hfacts
  obtain ⟨w₀, hinit, hr⟩ := run_of_after hw
  exact ⟨w, hw, ⟨w₀, hinit, hr.mono fun _ _ _ h => h.1⟩, htask, henc⟩

end Watched

end RoombaRtos
