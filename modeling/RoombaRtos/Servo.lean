import RoombaRtos.Arm

/-!
# The pace of the servos

A joint is to be moved by one degree after more than `100 / |speed|` ticks.  `Arm::tick` subtracts
two readings of `Now`, which wraps after 65536 ticks, in 32 bits.

* `Observed` — the arm, with the true times of the last tick and of the last update of a joint;
* `Observed.Step` — one call of `Arm::tick`, labelled with its true time;
* `Observed.RateLimited` — what a step does that keeps the pace;
* `Observed.rate_limit_iff` — the runs that keep the pace.
-/

namespace RoombaRtos

open Lockstep

/-! ### One joint -/

/-- The number of ticks that are to pass between two updates. -/
def Joint.pace (joint : Joint) : ℕ := 100 / joint.speed.toInt.natAbs

/-- A tick at the time `now` updates the joint. -/
def Joint.Updates (joint : Joint) (now : Tick) : Prop :=
  joint.thresh.toNat < (now.setWidth 32 - joint.lastRun).toNat

instance (joint : Joint) (now : Tick) : Decidable (joint.Updates now) :=
  inferInstanceAs (Decidable (_ < _))

theorem Joint.thresh_toNat (joint : Joint) : joint.thresh.toNat = joint.pace := by
  have habs : absU joint.speed.toInt = (joint.speed.toInt.natAbs : ℤ) := by
    unfold absU
    split_ifs <;> omega
  have hle : joint.pace ≤ 100 := Nat.div_le_self _ _
  have hdiv : (100 : ℤ).tdiv (absU joint.speed.toInt) = (joint.pace : ℤ) := by
    rw [Int.tdiv_eq_ediv_of_nonneg (by decide), habs]
    rfl
  rw [Joint.thresh, hdiv, BitVec.ofInt_natCast, BitVec.toNat_ofNat]
  omega

/-- The position stays in range, from wherever it starts. -/
theorem Joint.update_pos (joint : Joint) (now : BitVec 32) :
    1 ≤ (joint.update now).pos.toNat ∧ (joint.update now).pos.toNat ≤ 179 := by
  have hmem : ∀ p : ℤ, 1 ≤ (BitVec.ofInt 8 (constrainU p degMin degMax)).toNat ∧
      (BitVec.ofInt 8 (constrainU p degMin degMax)).toNat ≤ 179 := by
    intro p
    obtain ⟨hlo, hhi⟩ : degMin ≤ constrainU p degMin degMax ∧ constrainU p degMin degMax ≤ degMax :=
      constrainU_mem (by decide)
    unfold degMin degMax at hlo hhi ⊢
    rw [BitVec.toNat_ofInt]
    omega
  exact hmem _

/-- A reading of the clock that was taken at the true time `u`, and one that is taken now. -/
theorem Joint.updates_iff {joint : Joint} {t u : ℕ} (hlast : joint.lastRun.toNat = u % 65536)
    (hle : u ≤ t) (hsoon : t ≤ u + joint.pace) :
    joint.Updates (BitVec.ofNat 16 t) ↔ u / 65536 < t / 65536 := by
  have hpace : joint.pace ≤ 100 := Nat.div_le_self _ _
  have hnow : ((BitVec.ofNat 16 t).setWidth 32).toNat = t % 65536 := by
    rw [BitVec.toNat_setWidth, BitVec.toNat_ofNat]
    omega
  rw [Joint.Updates, Joint.thresh_toNat, BitVec.toNat_sub, hnow, hlast]
  omega

/-! ### Runs -/

/-- The joints of the arm. -/
inductive JointName
  | x
  | y
deriving DecidableEq, Repr

def Arm.joint (arm : Arm) : JointName → Joint
  | .x => arm.x
  | .y => arm.y

/-- The arm, and what a clock that does not wrap shows. -/
structure Observed where
  arm : Arm
  /-- When the arm was ticked last. -/
  clock : ℕ
  /-- When the joint was updated last. -/
  updated : Option ℕ
deriving DecidableEq, Repr

namespace Observed

variable {k : JointName} {s s' : Observed} {t : ℕ} {ts : List ℕ}

/-- No update of the joint has been seen yet. -/
def start (arm : Arm) (clock : ℕ) : Observed := { arm := arm, clock := clock, updated := none }

/-- `Arm::tick` at the true time `t`, of which `Now` returns 16 bits. -/
def advance (k : JointName) (s : Observed) (t : ℕ) : Option Observed :=
  if s.clock ≤ t then
    (s.arm.tick (BitVec.ofNat 16 t)).map fun arm =>
      { arm := arm
        clock := t
        updated := if (s.arm.joint k).Updates (BitVec.ofNat 16 t) then some t else s.updated }
  else none

def Step (k : JointName) (s : Observed) (t : ℕ) (s' : Observed) : Prop := s.advance k t = some s'

/-- An update comes late enough after the last one, and leaves the joint in range. -/
def RateLimited (k : JointName) (s : Observed) (t : ℕ) (s' : Observed) : Prop :=
  (s.arm.joint k).Updates (BitVec.ofNat 16 t) →
    (∀ u, s.updated = some u → (s.arm.joint k).pace < t - u) ∧
      1 ≤ (s'.arm.joint k).pos.toNat ∧ (s'.arm.joint k).pos.toNat ≤ 179

/-- The clock has wrapped since the joint was updated, and it is not time for the next update. -/
def WrapsEarly (k : JointName) (s : Observed) (t : ℕ) : Prop :=
  ∃ u, s.updated = some u ∧ t ≤ u + (s.arm.joint k).pace ∧ u / 65536 < t / 65536

theorem Step.joint (h : Step k s t s') : s.clock ≤ t ∧ s'.clock = t ∧
    (s.arm.joint k).tick ((BitVec.ofNat 16 t).setWidth 32)
      ((BitVec.ofNat 16 t).setWidth 32 - (s.arm.joint k).lastRun) = some (s'.arm.joint k) ∧
    s'.updated = if (s.arm.joint k).Updates (BitVec.ofNat 16 t) then some t else s.updated := by
  unfold Step advance at h
  by_cases hle : s.clock ≤ t
  swap
  · rw [if_neg hle] at h
    cases h
  rw [if_pos hle] at h
  obtain ⟨arm, harm, rfl⟩ := Option.map_eq_some_iff.1 h
  obtain ⟨hx, hy⟩ := Arm.tick_parts harm
  refine ⟨hle, rfl, ?_, rfl⟩
  cases k with
  | x => exact hx
  | y => exact hy

/-- The joint remembers the time of its last update, as far as 16 bits tell. -/
def Remembers (k : JointName) (s : Observed) : Prop :=
  ∀ u, s.updated = some u → u ≤ s.clock ∧ (s.arm.joint k).lastRun.toNat = u % 65536

theorem Step.remembers (h : Step k s t s') (hs : s.Remembers k) : s'.Remembers k := by
  obtain ⟨hle, hclock, htick, hupdated⟩ := h.joint
  intro u hu
  rw [hupdated] at hu
  rcases (Joint.tick_cases htick).2 with ⟨hlt, hjoint⟩ | ⟨hge, hjoint⟩
  · have hup : (s.arm.joint k).Updates (BitVec.ofNat 16 t) := hlt
    rw [if_pos hup] at hu
    obtain rfl : t = u := Option.some.inj hu
    refine ⟨hclock.ge, ?_⟩
    rw [hjoint]
    show ((BitVec.ofNat 16 t).setWidth 32).toNat = _
    rw [BitVec.toNat_setWidth, BitVec.toNat_ofNat]
    omega
  · have hup : ¬ (s.arm.joint k).Updates (BitVec.ofNat 16 t) := not_lt.2 hge
    rw [if_neg hup] at hu
    obtain ⟨hu, hlast⟩ := hs u hu
    rw [hjoint, hclock]
    exact ⟨hu.trans hle, hlast⟩

/-- **One tick.**  It keeps the pace unless the clock wraps too early. -/
theorem Step.rateLimited_iff (h : Step k s t s') (hs : s.Remembers k) :
    RateLimited k s t s' ↔ ¬ s.WrapsEarly k t := by
  obtain ⟨hle, -, htick, -⟩ := h.joint
  have hcases := (Joint.tick_cases htick).2
  constructor
  · rintro hlim ⟨u, hu, hsoon, hwrap⟩
    obtain ⟨hut, hlast⟩ := hs u hu
    have hup := (Joint.updates_iff hlast (hut.trans hle) hsoon).2 hwrap
    have hgap := (hlim hup).1 u hu
    omega
  · intro hno hup
    refine ⟨fun u hu => ?_, ?_⟩
    · obtain ⟨hut, hlast⟩ := hs u hu
      by_contra hgap
      have hsoon : t ≤ u + (s.arm.joint k).pace := by omega
      exact hno ⟨u, hu, hsoon, (Joint.updates_iff hlast (hut.trans hle) hsoon).1 hup⟩
    · rcases hcases with ⟨-, hjoint⟩ | ⟨hge, -⟩
      · rw [hjoint]
        exact Joint.update_pos _ _
      · exact absurd hup (not_lt.2 hge)

/-- **The pace of a joint, exactly.**  Whatever the arm is doing at first, and for every sequence of
ticks, the runs all of whose updates come late enough are those in which the clock never wraps
between an update and a tick that is too early for the next one. -/
theorem rate_limit_iff (k : JointName) (arm : Arm) (clock : ℕ) (ts : List ℕ) (s : Observed) :
    Run (fun s t s' => Step k s t s' ∧ RateLimited k s t s') (start arm clock) ts s ↔
      Run (fun s t s' => Step k s t s' ∧ ¬ s.WrapsEarly k t) (start arm clock) ts s :=
  Run.does_iff (I := Remembers k) (P := fun _ => True) (fun _ _ _ hs h => h.remembers hs)
    (fun _ _ _ _ => trivial) (fun _ _ _ hs _ h => h.rateLimited_iff hs)
    (fun _ hu => by cases hu) trivial

/-- At full speed the joint is moved twice within 6 ticks when the clock wraps in between. -/
theorem moved_too_early :
    ∃ arm ∈ Run.exec Arm.call Arm.init [.setSpeedX 1003, .setSpeedY 1003],
      (arm.joint .x).pace = 6 ∧
        ∃ s ∈ advance .x (start arm 0) 65530, ∃ s' ∈ advance .x s 65536,
          s.updated = some 65530 ∧ s'.updated = some 65536 ∧ ¬ RateLimited .x s 65536 s' := by
  refine ⟨_, rfl, by decide, _, rfl, _, rfl, by decide, by decide, fun h => ?_⟩
  have hgap := (h (by decide)).1 65530 (by decide)
  revert hgap
  decide

end Observed

end RoombaRtos
