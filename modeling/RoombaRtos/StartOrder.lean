import RoombaRtos.Clock

/-!
# The order of the periodic queue across a wrap

`Dispatch` looks at the head of `periodic_tasks` only.  This relies on an order: due and started
tasks first, then the others by their start times.  The start times are numbers of ticks since
boot here, of which the descriptors hold the 16-bit readings.

* `InStartOrder` — the order, and `rank` — the key it sorts by;
* `Readings` — the numbers behind the clock and the descriptors;
* `later_compares_start_times` — `later` compares these numbers, across a wrap as well;
* `Stops` — what ends the search of `insert`, in terms of them;
* `insert_order_iff` — when exactly `insert` keeps the order.
-/

namespace RoombaRtos

open ListQueue

variable {pd pd' : PDPtr → PD PDPtr} {q : TaskQueue PDPtr} {clock : Tick} {state : OverflowState}
  {now : ℕ} {start : PDPtr → ℕ} {l : List PDPtr} {x d e p : PDPtr}

/-! ### The order -/

section Order

variable (pd : PDPtr → PD PDPtr) (now : ℕ) (start : PDPtr → ℕ)

/-- `p` is due or has started. -/
def Early (p : PDPtr) : Prop := start p ≤ now ∨ (pd p).ticksRemaining < (pd p).wcet

instance : DecidablePred (Early pd now start) := fun _ => inferInstanceAs (Decidable (_ ∨ _))

/-- Due and started tasks come first, the others are sorted by their start times. -/
structure InStartOrder (l : List PDPtr) : Prop where
  early : l.Pairwise fun a b => Early pd now start b → Early pd now start a
  waiting : l.Pairwise fun a b =>
    ¬ Early pd now start a → ¬ Early pd now start b → start a ≤ start b

/-- The place of a task in that order. -/
def rank (p : PDPtr) : WithBot ℕ := if Early pd now start p then ⊥ else WithBot.some (start p)

/-- The search of `insert` for the place of `x` stops at `d`: a task that has not started, is not
earlier than `x`, and has been due since before the last wrap or waits for a start before the next
one.  At a distance of a whole epoch no task counts as the later one. -/
def Stops (x d : PDPtr) : Prop :=
  ¬ (pd d).ticksRemaining < (pd d).wcet ∧ (start x ≤ start d ∨ start d + 65536 ≤ start x) ∧
    (start d ≤ now ∧ start d / 65536 < now / 65536 ∨
      now < start d ∧ start d / 65536 = now / 65536)

instance : DecidableRel (Stops pd now start) := fun _ _ =>
  inferInstanceAs (Decidable (_ ∧ _ ∧ _))

end Order

theorem rank_le_iff : rank pd now start d ≤ rank pd now start e ↔
    Early pd now start d ∨ ¬ Early pd now start e ∧ start d ≤ start e := by
  unfold rank
  by_cases hd : Early pd now start d
  · simp [hd]
  · by_cases he : Early pd now start e
    · simp [hd, he]
    · rw [if_neg hd, if_neg he, WithBot.coe_le_coe]
      simp [hd, he]

theorem inStartOrder_iff : InStartOrder pd now start l ↔
    l.Pairwise fun a b => rank pd now start a ≤ rank pd now start b := by
  have hrank : (l.Pairwise fun a b => rank pd now start a ≤ rank pd now start b) ↔
      l.Pairwise fun a b => (Early pd now start b → Early pd now start a) ∧
        (¬ Early pd now start a → ¬ Early pd now start b → start a ≤ start b) := by
    refine List.Pairwise.iff fun a b => ?_
    rw [rank_le_iff]
    by_cases ha : Early pd now start a
    · simp [ha]
    · by_cases hb : Early pd now start b
      · simp [ha, hb]
      · simp [ha, hb]
  rw [hrank, List.pairwise_and_iff]
  exact ⟨fun h => ⟨h.early, h.waiting⟩, fun h => ⟨h.1, h.2⟩⟩

/-- The order only depends on what the descriptors hold besides their links. -/
theorem InStartOrder.congr_task (h : ∀ p, (pd' p).toTask = (pd p).toTask) :
    InStartOrder pd' now start l ↔ InStartOrder pd now start l := by
  have hearly : Early pd' now start = Early pd now start := by
    funext p
    rw [Early, Early, h p]
  rw [inStartOrder_iff, inStartOrder_iff]
  unfold rank
  simp only [hearly]

/-! ### Comparing start times -/

section Later

variable {α : Type} {t u : Task α} {n k : ℕ}

/-- `later` compares the readings of two numbers. -/
theorem Encodes.later_iff_later (ht : Encodes t.tons t.clockState n)
    (hu : Encodes u.tons u.clockState k) : later t u = true ↔ Epoch.Later 65536 n k := by
  have hstate : t.clockState = u.clockState ↔ Epoch.epoch 65536 n = Epoch.epoch 65536 k := by
    rw [ht.state, hu.state, epochOf_eq_iff]
  have hlt : t.tons < u.tons ↔ n % 65536 < k % 65536 := by
    rw [BitVec.lt_def, ht.clock, hu.clock]
  have hgt : u.tons < t.tons ↔ k % 65536 < n % 65536 := by
    rw [BitVec.lt_def, ht.clock, hu.clock]
  rw [Epoch.Later, ← hlt, ← hgt, ne_eq, ← hstate]
  simp [later]

/-- It compares the numbers, unless they are a whole epoch apart. -/
theorem Encodes.later_iff (ht : Encodes t.tons t.clockState n)
    (hu : Encodes u.tons u.clockState k) (h : n ≤ k + 65536) (h' : k ≤ n + 65536) :
    later t u = true ↔ k < n ∧ n < k + 65536 :=
  (ht.later_iff_later hu).trans (Epoch.later_iff_of_le (by decide) h h')

/-- **Start times are compared across a wrap.**  Of two tasks that start less than 65536 ticks apart
`later` says which one starts later, and it is a strict weak order on the tasks that start within
65536 ticks. -/
theorem later_compares_start_times {S : Set α} {pd : α → PD α} {start : α → ℕ}
    (hS : ∀ p ∈ S, Encodes (pd p).tons (pd p).clockState (start p)) :
    (∀ p ∈ S, ∀ q ∈ S, ((start p : ℤ) - start q).natAbs < 2 ^ 16 →
      (later (pd p).toTask (pd q).toTask = true ↔ start q < start p)) ∧
    ∀ lo, (∀ p ∈ S, lo ≤ start p ∧ start p < lo + 2 ^ 16) →
      IsStrictWeakOrder S fun p q => later (pd p).toTask (pd q).toTask = true := by
  constructor
  · intro p hp q hq hnear
    rw [(hS p hp).later_iff_later (hS q hq)]
    exact Epoch.later_iff (by decide) (by omega) (by omega)
  · intro lo hwindow
    have hlater : ∀ p q : S, later (pd p).toTask (pd q).toTask = true ↔
        Epoch.Later 65536 (start p) (start q) := fun p q =>
      (hS p p.2).later_iff_later (hS q q.2)
    simp only [hlater]
    exact Epoch.isStrictWeakOrder (by decide) hwindow

/-- Tasks that start at the times that are their names. -/
def startsAt (p : ℕ) : PD ℕ :=
  { priority := .periodic, tons := BitVec.ofNat 16 p, clockState := epochOf p }

/-- The task that starts at the wrap is later than one that starts before it, and three tasks around
the wrap are ordered. -/
theorem later_at_wrap :
    later (startsAt 65536).toTask (startsAt 65530).toTask = true ∧
      IsStrictWeakOrder ({65530, 65536, 65540} : Set ℕ) fun p q =>
        later (startsAt p).toTask (startsAt q).toTask = true := by
  have hS : ∀ p ∈ ({65530, 65536, 65540} : Set ℕ),
      Encodes (startsAt p).tons (startsAt p).clockState p := by
    rintro p (rfl | rfl | rfl) <;> decide
  obtain ⟨hlater, hwindow⟩ := later_compares_start_times hS
  refine ⟨(hlater 65536 (by simp) 65530 (by simp) (by decide)).2 (by decide), ?_⟩
  apply hwindow 65530
  rintro p (rfl | rfl | rfl) <;> decide

/-- **Beyond 65536 ticks it is no order.**  The last one of three tasks is not later than the first
one if it starts so long after it, although each is later than the one before it. -/
theorem later_not_trans {v : Task α} {i : ℕ} (ht : Encodes t.tons t.clockState n)
    (hu : Encodes u.tons u.clockState k) (hv : Encodes v.tons v.clockState i) (hnk : n < k)
    (hkn : k < n + 65536) (hki : k < i) (hik : i < k + 65536) (hni : n + 65536 ≤ i) :
    later u t = true ∧ later v u = true ∧ later v t = false := by
  rw [← Bool.not_eq_true, hu.later_iff_later ht, hv.later_iff_later hu, hv.later_iff_later ht]
  exact Epoch.later_not_trans (by decide) hnk hkn hki hik hni

end Later

/-! ### The search of `insert` -/

/-- The numbers behind the readings: the clock stands for `now`, and each task of `l` for a start
time at most half an epoch away from it. -/
structure Readings (pd : PDPtr → PD PDPtr) (clock : Tick) (state : OverflowState) (now : ℕ)
    (start : PDPtr → ℕ) (l : List PDPtr) : Prop where
  now_clock : Encodes clock state now
  start_tons : ∀ p ∈ l, Encodes (pd p).tons (pd p).clockState (start p)
  near : ∀ p ∈ l, start p ≤ now + 2 ^ 15 ∧ now ≤ start p + 2 ^ 15

/-- The raw comparison of `insert` is right only within the epoch of the clock. -/
theorem Encodes.tons_le_iff {tons : Tick} {state' : OverflowState} {k : ℕ}
    (hc : Encodes clock state now) (ht : Encodes tons state' k) (h : now < k + 65536)
    (h' : k < now + 65536) : tons ≤ clock ↔ (k ≤ now ↔ k / 65536 = now / 65536) := by
  rw [BitVec.le_def, ht.clock, hc.clock, Epoch.mod_le_mod_iff (by omega) h h']

theorem Readings.scansPast_eq_false_iff (h : Readings pd clock state now start l) (hx : x ∈ l)
    (hd : d ∈ l) :
    scansPast (pd x).toTask clock (pd d).toTask = false ↔ Stops pd now start x d := by
  have hnx := h.near x hx
  have hnd := h.near d hd
  have hlater := (h.start_tons x hx).later_iff (h.start_tons d hd) (by omega) (by omega)
  have hraw := h.now_clock.tons_le_iff (h.start_tons d hd) (by omega) (by omega)
  have hdiv : start d ≤ now → start d / 65536 ≤ now / 65536 := fun hle =>
    Nat.div_le_div_right hle
  rw [scansPast, Bool.or_eq_false_iff, Bool.or_eq_false_iff, ← Bool.not_eq_true, hlater,
    decide_eq_false_iff_not, decide_eq_false_iff_not, hraw, Stops]
  -- the numbers of `d` and of `x` compare in one of two ways, and `d` is due or not
  constructor
  · rintro ⟨⟨hnot, hstarted⟩, hclock⟩
    exact ⟨hstarted, by omega, by omega⟩
  · rintro ⟨hstarted, hstart, hepoch⟩
    exact ⟨⟨by omega, hstarted⟩, by omega⟩

/-- Tasks of one rank behind `x` are treated alike by the search. -/
theorem Readings.scansPast_congr (h : Readings pd clock state now start l) (hx : x ∈ l)
    (hd : d ∈ l) (he : e ∈ l) (hxd : rank pd now start x < rank pd now start d)
    (hde : rank pd now start d = rank pd now start e) :
    scansPast (pd x).toTask clock (pd d).toTask = scansPast (pd x).toTask clock (pd e).toTask := by
  have hde' := rank_le_iff.1 hde.le
  have hed' := rank_le_iff.1 hde.ge
  have hnot : ¬ Early pd now start d := fun hed => (not_le.2 hxd) (rank_le_iff.2 (Or.inl hed))
  have hnot' : ¬ Early pd now start e := fun hee => by
    rcases hde' with h | h
    · exact hnot h
    · exact h.1 hee
  have hstart : start d = start e := by
    have h1 := hde'.resolve_left hnot
    have h2 := hed'.resolve_left hnot'
    omega
  have hd' : ¬ (pd d).ticksRemaining < (pd d).wcet := fun h => hnot (Or.inr h)
  have he' : ¬ (pd e).ticksRemaining < (pd e).wcet := fun h => hnot' (Or.inr h)
  have hiff : scansPast (pd x).toTask clock (pd d).toTask = false ↔
      scansPast (pd x).toTask clock (pd e).toTask = false := by
    rw [h.scansPast_eq_false_iff hx hd, h.scansPast_eq_false_iff hx he, Stops, Stops, hstart]
    simp only [hd', he']
  cases hs : scansPast (pd x).toTask clock (pd e).toTask with
  | false => exact hiff.2 hs
  | true =>
    rw [← Bool.not_eq_false, hiff, hs]
    simp

/-! ### Insertion -/

/-- A periodic queue, and a periodic task that can be inserted into it. -/
structure Insertable (pd : PDPtr → PD PDPtr) (q : TaskQueue PDPtr) (l : List PDPtr)
    (x : PDPtr) : Prop where
  holds : q.Holds pd l
  type : q.type = .periodic
  priority : (pd x).priority = .periodic
  notMem : x ∉ l
  unlinked : (pd x).next = none

/-- A queue never holds more tasks than there are descriptors. -/
theorem TaskQueue.Holds.length_le (h : q.Holds pd l) : l.length ≤ maxThread + 1 := by
  have hsub : l ⊆ .idleProcess :: (List.finRange maxThread).map .process := by
    intro p _
    cases p with
    | process i => simp
    | idleProcess => simp
  have := (h.linked.nodup.subperm hsub).length_le
  simpa using this

/-- **When the order is kept.**  `insert` always adds the task and keeps the others.  It keeps the
order exactly if the search only stops at tasks that `x` may precede, and stops before it comes
to a task that `x` has to precede. -/
theorem insert_order_iff (hi : Insertable pd q l x)
    (hr : Readings pd clock state now start (x :: l)) (hl : InStartOrder pd now start l) :
    ∃ pd' q' l', insert pd q x clock = .ok (pd', q') ∧ q'.Holds pd' l' ∧ l'.Perm (x :: l) ∧
      (∀ p, (pd' p).toTask = (pd p).toTask) ∧
      (InStartOrder pd' now start l' ↔
        (∀ d ∈ l, Stops pd now start x d → rank pd now start x ≤ rank pd now start d) ∧
        ∀ e ∈ l, rank pd now start x < rank pd now start e →
          ∃ d ∈ l, Stops pd now start x d ∧ rank pd now start d ≤ rank pd now start e) := by
  have hlen := hi.holds.length_le
  obtain ⟨pd', q', hins, hq', -, hrel⟩ := insert_place hi.holds hi.type hi.priority hi.notMem
    hi.unlinked (hlen.trans_lt (by decide)) clock
  refine ⟨pd', q', _, hins, hq', placeBehind_perm _ _ _, hrel.task, ?_⟩
  have hstop : ∀ d ∈ l, scansPast (pd x).toTask clock (pd d).toTask = false ↔
      Stops pd now start x d := fun d hd =>
    hr.scansPast_eq_false_iff (by simp) (by simp [hd])
  rw [InStartOrder.congr_task hrel.task, inStartOrder_iff,
    placeBehind_sorted_iff (inStartOrder_iff.1 hl) ?_]
  · constructor
    · rintro ⟨hafter, hbefore⟩
      refine ⟨fun d hd hs => hafter d hd ((hstop d hd).2 hs), fun e he hxe => ?_⟩
      obtain ⟨d, hd, hk, hde⟩ := hbefore e he hxe
      exact ⟨d, hd, (hstop d hd).1 hk, hde⟩
    · rintro ⟨hafter, hbefore⟩
      refine ⟨fun d hd hk => hafter d hd ((hstop d hd).1 hk), fun e he hxe => ?_⟩
      obtain ⟨d, hd, hs, hde⟩ := hbefore e he hxe
      exact ⟨d, hd, (hstop d hd).2 hs, hde⟩
  · intro d hd e he hxd hde
    exact hr.scansPast_congr (by simp) (by simp [hd]) (by simp [he]) hxd hde

/-- Start times on both sides of the first wrap, seen from tick 65530. -/
def wrapStart : PDPtr → ℕ
  | .process 0 => 65531
  | .process 1 => 65529
  | .process 2 => 65532
  | _ => 65540

/-- Four periodic tasks with these start times, none of which has started. -/
def wrapTable (p : PDPtr) : PD PDPtr where
  state := .ready
  priority := .periodic
  period := 10
  wcet := 1
  ticksRemaining := 1
  tons := BitVec.ofNat 16 (wrapStart p)
  clockState := epochOf (wrapStart p)
  next :=
    match p with
    | .process 1 => some (.process 2)
    | .process 2 => some (.process 3)
    | _ => none

/-- The waiting task before the wrap stops the search. -/
theorem insert_order_at_wrap : ∃ pd' q' l',
    insert wrapTable ⟨some (.process 1), some (.process 3), 3, .periodic⟩ (.process 0) 65530 =
      .ok (pd', q') ∧ q'.Holds pd' l' ∧
    l'.Perm [.process 0, .process 1, .process 2, .process 3] ∧
    InStartOrder pd' 65530 wrapStart l' := by
  have hi : Insertable wrapTable ⟨some (.process 1), some (.process 3), 3, .periodic⟩
      [.process 1, .process 2, .process 3] (.process 0) :=
    ⟨by decide, rfl, rfl, by decide, rfl⟩
  have hr : Readings wrapTable 65530 .even 65530 wrapStart
      [.process 0, .process 1, .process 2, .process 3] :=
    ⟨by decide, by decide, by decide⟩
  have hl : InStartOrder wrapTable 65530 wrapStart [.process 1, .process 2, .process 3] :=
    ⟨by decide, by decide⟩
  obtain ⟨pd', q', l', hins, hq', hperm, -, horder⟩ := insert_order_iff hi hr hl
  refine ⟨pd', q', l', hins, hq', hperm, horder.2 ⟨?_, ?_⟩⟩
  · simp only [rank_le_iff]
    decide
  · simp only [← not_le, rank_le_iff]
    decide

/-- A task is put behind one that starts after it, beyond the wrap. -/
theorem insert_behind_wrap :
    Insertable wrapTable ⟨some (.process 3), some (.process 3), 1, .periodic⟩ [.process 3]
      (.process 0) ∧
    Readings wrapTable 65530 .even 65530 wrapStart [.process 0, .process 3] ∧
    InStartOrder wrapTable 65530 wrapStart [.process 3] ∧
    ¬ ∃ pd' q' l',
      insert wrapTable ⟨some (.process 3), some (.process 3), 1, .periodic⟩ (.process 0) 65530 =
        .ok (pd', q') ∧ q'.Holds pd' l' ∧ l'.Perm [.process 0, .process 3] ∧
      InStartOrder pd' 65530 wrapStart l' := by
  have hi : Insertable wrapTable ⟨some (.process 3), some (.process 3), 1, .periodic⟩
      [.process 3] (.process 0) :=
    ⟨by decide, rfl, rfl, by decide, rfl⟩
  refine ⟨hi, ⟨by decide, by decide, by decide⟩, ⟨by decide, by decide⟩, ?_⟩
  rintro ⟨pd', q', l', hins, hq', -, horder⟩
  obtain ⟨pd'', q'', hins', hq'', -, hrel⟩ := insert_place hi.holds hi.type hi.priority hi.notMem
    hi.unlinked (by decide) 65530
  obtain ⟨rfl, rfl⟩ : pd' = pd'' ∧ q' = q'' := by
    rw [hins] at hins'
    simpa using hins'
  have hplace : placeBehind
      (fun e => scansPast (wrapTable (.process 0)).toTask 65530 (wrapTable e).toTask)
      (.process 0) [.process 3] = [.process 3, .process 0] := by decide
  rw [hq'.linked.unique hq''.linked, hplace, InStartOrder.congr_task hrel.task] at horder
  exact absurd horder.waiting (by decide)

end RoombaRtos
