import RoombaRtos.Remote

/-!
# Health and the laser

What the game counts: how often the robot can be hit, and how long it can use its laser.

* `Remote.dies_at_ten` — whatever the tasks do to each other, the robot is dead from its tenth hit
  on until the next game, if it is not hit while a game begins;
* `Remote.hit_at_zero` — a robot that is hit while a game begins;
* `Game.Counts` — a step with a counter of some of the activations, which a new game sets to zero;
* `Game.laser_budget` — the laser can be used in as many activations as a game has ticks for.
-/

namespace RoombaRtos

open Lockstep Interleaving

namespace Remote

variable {τ : Type} {w : Peer τ} {fuel : ℕ} {s t : Remote τ}

/-! ### Health -/

/-- What hits depend on and change. -/
def vitals (s : Remote τ) : Byte × Bool × Bool × BitVec 16 × ℕ × Bool :=
  (s.game.health, s.game.dead, s.game.gameOn, s.game.lightAverage, s.hits, s.resetting)

/-- Nothing about the hits changes. -/
def Idles (s t : Remote τ) : Prop := t.vitals = s.vitals

/-- The health that is left.  While a game begins it is not known. -/
structure Hurt (s : Remote τ) : Prop where
  health : s.resetting = false → s.game.health.toNat + s.hits = 10
  dead : s.resetting = false → s.game.dead = true → s.hits = 10
  off : s.game.gameOn = false → s.hits = 0
  light : s.game.lightAverage.toNat ≤ 1023

/-- `commandRoomba` begins a game only if none is on, or the robot is dead. -/
structure Begins (s t : Remote τ) : Prop where
  light : t.game.lightAverage = s.game.lightAverage
  on : s.game.gameOn = true → t.game.gameOn = true
  same : s.resetting = false → t.resetting = false → s.Idles t
  opens : s.resetting = false → t.resetting = true → s.game.gameOn = true → s.game.dead = true
  closes : s.resetting = true → t.resetting = false → t.hits = 0

/-- `lightSensorRead` only kills, and is not there while a game begins. -/
structure Hits (s t : Remote τ) : Prop where
  before : s.resetting = false
  after : t.resetting = false
  on : t.game.gameOn = s.game.gameOn
  dead : s.game.dead = true → t.game.dead = true

/-- What each task does. -/
def Wounds : TaskFunction → Remote τ → Remote τ → Prop
  | .lightSensorRead => Hits
  | .commandRoomba => Begins
  | _ => Idles

/-- The light sensor is read with ten bits. -/
def Readable : Activation → Prop
  | .lightSensorRead val => val.toNat ≤ 1023
  | _ => True

/-- `lightSensorRead` does nothing between `game_on = true` and `health = 10` of a new game. -/
def Spared : TaskFunction → Remote τ → Remote τ → Prop
  | .lightSensorRead, s, _ => s.resetting = false
  | _, _, _ => True

/-- The terms on which the tasks count the hits. -/
def wounding : Accord TaskFunction Halt (Remote τ) Activation where
  inv := Hurt
  guar := Wounds
  may := Spared
  outside := Idles
  idle
    | .lightSensorRead, s => s.resetting = false → s.hits = 10 → s.game.dead = true
    | .commandRoomba, s => s.resetting = false
    | _, _ => True
  starts a _ := Readable a
  halts _ := True

section Idles

theorem Idles.eqs (h : s.Idles t) : t.game.health = s.game.health ∧ t.game.dead = s.game.dead ∧
    t.game.gameOn = s.game.gameOn ∧ t.game.lightAverage = s.game.lightAverage ∧
    t.hits = s.hits ∧ t.resetting = s.resetting := by
  simpa only [Idles, vitals, Prod.mk.injEq] using h

theorem Idles.hurt (h : s.Idles t) (hs : s.Hurt) : t.Hurt := by
  obtain ⟨hhealth, hdead, hon, hlight, hhits, hres⟩ := h.eqs
  refine ⟨?_, ?_, ?_, ?_⟩
  · rw [hres, hhealth, hhits]
    exact hs.health
  · rw [hres, hdead, hhits]
    exact hs.dead
  · rw [hon, hhits]
    exact hs.off
  · rw [hlight]
    exact hs.light

theorem Idles.begins (h : s.Idles t) : s.Begins t := by
  obtain ⟨-, -, hon, hlight, -, hres⟩ := h.eqs
  refine ⟨hlight, fun hs => hon.trans hs, fun _ _ => h, fun hs ht => ?_, fun hs ht => ?_⟩
  · rw [hres, hs] at ht
    cases ht
  · rw [hres, hs] at ht
    cases ht

theorem idles_get {α : Type} (g : Game → α) : (get g : Code τ α).Acts Idles :=
  .read (show ∀ s : Remote τ, s.Idles s from fun _ => rfl) _

theorem idles_taskCreate (f : TaskFunction) :
    (set fun s => s.taskCreate f : Code τ Unit).Acts Idles := by
  refine .write fun s => ?_
  obtain ⟨_, h⟩ := s.game.taskCreate_eq f
  simp only [Idles, vitals, h]

/-- While the robot is told something nothing changes. -/
theorem speaks_idles : Speaks (Idles : Remote τ → Remote τ → Prop) :=
  ⟨⟨fun _ _ _ => rfl, fun _ _ => rfl, fun _ _ _ => rfl⟩, fun _ _ => rfl⟩

theorem moves_idles : Moves fun _ (p : Code τ _) => p.Acts Idles :=
  .of_acts (fun _ => rfl) fun _ _ _ _ _ _ => rfl

end Idles

/-! ### What a task can rely on -/

/-- `lightSensorRead` relies on what `commandRoomba` does. -/
theorem rely_lightSensorRead (h : (wounding.terms .lightSensorRead).rely s t) : s.Begins t := by
  rcases h with ⟨j, hj, h⟩ | h
  · cases j with
    | lightSensorRead => exact absurd rfl hj
    | commandRoomba => exact h
    | _ => exact Idles.begins h
  · exact Idles.begins h

/-- While a game begins nothing happens to `commandRoomba`, and otherwise the robot may die. -/
theorem rely_commandRoomba (h : (wounding.terms .commandRoomba).rely s t) :
    s.Idles t ∨ s.Hits t := by
  rcases h with ⟨j, hj, h⟩ | h
  · cases j with
    | lightSensorRead => exact Or.inr h
    | commandRoomba => exact absurd rfl hj
    | _ => exact Or.inl h
  · exact Or.inl h

/-- The robot is alive in a game that has begun. -/
structure Alive (s : Remote τ) : Prop where
  settled : s.resetting = false
  on : s.game.gameOn = true
  alive : s.game.dead = false

theorem Begins.alive (h : s.Begins t) (hs : s.Alive) : s.Idles t ∧ t.Alive := by
  have hres : t.resetting = false := by
    cases ht : t.resetting with
    | false => rfl
    | true =>
      have hdead := h.opens hs.settled ht hs.on
      rw [hs.alive] at hdead
      cases hdead
  have hidles : s.Idles t := h.same hs.settled hres
  obtain ⟨-, hdead, hon, -, -, -⟩ := hidles.eqs
  exact ⟨hidles, hres, hon.trans hs.on, hdead.trans hs.alive⟩

/-- What `lightSensorRead` knows of a robot that is alive stays true until it acts. -/
theorem stable_alive {P : Byte → ℕ → Prop} : (wounding.terms .lightSensorRead).Stable
    fun s : Remote τ => s.Alive ∧ P s.game.health s.hits := by
  intro s t _ hrely _ ⟨halive, hP⟩
  obtain ⟨hidles, halive'⟩ := (rely_lightSensorRead hrely).alive halive
  obtain ⟨hhealth, -, -, -, hhits, -⟩ := hidles.eqs
  refine ⟨halive', ?_⟩
  rw [hhealth, hhits]
  exact hP

theorem stable_idle (i : TaskFunction) :
    (wounding.terms i).Stable fun s : Remote τ => wounding.idle i s := by
  intro s t _ hrely _ hs
  cases i with
  | lightSensorRead =>
    have hbegins := rely_lightSensorRead hrely
    intro hres hten
    cases hsres : s.resetting with
    | false =>
      obtain ⟨-, hdead, -, -, hhits, -⟩ := (hbegins.same hsres hres).eqs
      rw [hdead]
      exact hs hsres (hhits ▸ hten)
    | true =>
      rw [hbegins.closes hsres hres] at hten
      cases hten
  | commandRoomba =>
    rcases rely_commandRoomba hrely with h | h
    · exact h.eqs.2.2.2.2.2.trans hs
    · exact h.after
  | _ => exact trivial

/-! ### The tasks, one by one -/

theorem Idles.wounds {i : TaskFunction} (h : s.Idles t) (hmay : Spared i s t) : Wounds i s t := by
  cases i with
  | lightSensorRead =>
    obtain ⟨-, hdead, hon, -, -, hres⟩ := h.eqs
    exact ⟨hmay, hres.trans hmay, hon, fun hs => hdead.trans hs⟩
  | commandRoomba => exact h.begins
  | _ => exact h

theorem Idles.idle {i : TaskFunction} (h : s.Idles t) (hs : wounding.idle i s) :
    wounding.idle i t := by
  obtain ⟨-, hdead, -, -, hhits, hres⟩ := h.eqs
  cases i with
  | lightSensorRead =>
    intro ht hten
    rw [hdead]
    exact hs (hres ▸ ht) (hhits ▸ hten)
  | commandRoomba => exact hres.trans hs
  | _ => exact trivial

/-- A program that does nothing about the hits. -/
theorem safe_of_idles {i : TaskFunction} {p : Code τ Unit} (hp : p.Acts Idles)
    (hs : wounding.idle i s) : (wounding.terms i).Safe (fun _ => wounding.idle i) p s :=
  .of_acts hp (stable_idle i) (fun _ => trivial)
    (fun _ _ hinv ht hmay h => ⟨h.hurt hinv, h.wounds hmay, h.idle ht⟩) hs

/-- The last hit is followed by `die`. -/
theorem safe_die (hs : s.Alive ∧ s.hits = 10) : (wounding.terms .lightSensorRead).Safe
    (fun _ => wounding.idle .lightSensorRead) (die w fuel .lightSensorRead) s := by
  have hstable : (wounding.terms .lightSensorRead).Stable
      fun s : Remote τ => s.Alive ∧ s.hits = 10 := stable_alive (P := fun _ n => n = 10)
  refine .read hstable hs fun t _ ht hmay => ⟨⟨hmay, hmay, rfl, id⟩, ?_⟩
  rw [ht.1.alive]
  refine .write hstable ht fun t hinv ht hmay => ⟨?_, ⟨hmay, hmay, rfl, fun _ => rfl⟩, ?_⟩
  · exact ⟨hinv.health, fun _ _ => ht.2, hinv.off, hinv.light⟩
  · exact safe_of_idles (speaks_idles.tell w fuel _ _) fun _ _ => rfl

/-- What `lightSensorRead` knows when it has looked at `game_on`, `dead` and `light_average`. -/
def Struck (hit : Bool) (s : Remote τ) : Prop :=
  if hit then s.Alive ∧ s.hits ≠ 10 else wounding.idle .lightSensorRead s

theorem stable_struck (hit : Bool) :
    (wounding.terms .lightSensorRead).Stable fun s : Remote τ => Struck hit s := by
  cases hit with
  | true => exact stable_alive (P := fun _ n => n ≠ 10)
  | false => exact stable_idle .lightSensorRead

theorem safe_struck (val : BitVec 16) (hs : wounding.idle .lightSensorRead s) :
    (wounding.terms .lightSensorRead).Safe Struck (struck val) s := by
  refine .read (stable_idle .lightSensorRead) hs fun t _ ht hmay => ⟨⟨hmay, hmay, rfl, id⟩, ?_⟩
  cases hon : t.game.gameOn with
  | false => exact .pure (stable_struck false) ht
  | true =>
    -- once a game is on, it stays on
    have hstable : (wounding.terms .lightSensorRead).Stable fun s : Remote τ =>
        wounding.idle .lightSensorRead s ∧ s.game.gameOn = true :=
      (stable_idle _).and fun s t _ hrely _ hs => (rely_lightSensorRead hrely).on hs
    refine .read hstable ⟨ht, hon⟩ fun u _ hu hmay' => ⟨⟨hmay', hmay', rfl, id⟩, ?_⟩
    cases hdead : u.game.dead with
    | true => exact .pure (stable_struck false) hu.1
    | false =>
      have halive : u.Alive ∧ u.hits ≠ 10 := by
        refine ⟨⟨hmay', hu.2, hdead⟩, fun hten => ?_⟩
        have hkilled := hu.1 hmay' hten
        rw [hdead] at hkilled
        cases hkilled
      refine .read (k := pure) (stable_alive (P := fun _ n => n ≠ 10)) halive
        fun v _ hv hmay => ⟨⟨hmay, hmay, rfl, id⟩, .pure (stable_struck _) ?_⟩
      unfold Struck
      split
      · exact hv
      · intro _ hten
        exact absurd hten hv.2

/-- After a hit, the robot dies if no health is left. -/
theorem safe_checkHealth (hs : s.Alive) : (wounding.terms .lightSensorRead).Safe
    (fun _ => wounding.idle .lightSensorRead)
    (do let health ← get Game.health
        if health ≤ 0 then die w fuel .lightSensorRead) s := by
  refine .read (stable_alive (P := fun _ _ => True)) ⟨hs, trivial⟩
    fun t hinv ht hmay => ⟨⟨hmay, hmay, rfl, id⟩, ?_⟩
  have hleft := hinv.health ht.1.settled
  split
  · next hzero =>
    have hten : t.hits = 10 := by
      rw [BitVec.le_def] at hzero
      have hzero : t.game.health.toNat ≤ 0 := hzero
      omega
    exact safe_die ⟨ht.1, hten⟩
  · next hpos =>
    refine .pure (stable_idle .lightSensorRead) fun _ hten => absurd ?_ hpos
    rw [BitVec.le_def]
    show t.game.health.toNat ≤ 0
    omega

theorem safe_hit (hs : s.Alive ∧ s.hits ≠ 10) : (wounding.terms .lightSensorRead).Safe
    (fun _ => wounding.idle .lightSensorRead)
    (do let health ← get Game.health
        .write fun s => { s with game := { s.game with health := health - 1 }, hits := s.hits + 1 }
        let health ← get Game.health
        if health ≤ 0 then die w fuel .lightSensorRead) s := by
  refine .read (stable_alive (P := fun _ n => n ≠ 10)) hs
    fun t _ ht hmay => ⟨⟨hmay, hmay, rfl, id⟩, ?_⟩
  -- nobody else writes `health` before it is written here
  have hread : t.Alive ∧ t.game.health = t.game.health ∧ t.hits ≠ 10 := ⟨ht.1, rfl, ht.2⟩
  refine .write (stable_alive (P := fun h n => h = t.game.health ∧ n ≠ 10)) hread
    fun u hinv hu hmay => ?_
  obtain ⟨halive, hhealth, hhits⟩ := hu
  have hleft := hinv.health halive.settled
  rw [hhealth] at hleft
  have hsub : (t.game.health - 1).toNat = t.game.health.toNat - 1 := by
    rw [BitVec.toNat_sub_of_le (by rw [BitVec.le_def]; show 1 ≤ _; omega)]
    rfl
  refine ⟨⟨fun _ => ?_, fun _ hdead => ?_, fun hoff => ?_, hinv.light⟩,
    ⟨hmay, hmay, rfl, id⟩, safe_checkHealth ⟨halive.settled, halive.on, halive.alive⟩⟩
  · show (t.game.health - 1).toNat + (u.hits + 1) = 10
    omega
  · exact absurd (halive.alive.symm.trans hdead) Bool.false_ne_true
  · exact absurd (hoff.symm.trans halive.on) Bool.false_ne_true

theorem safe_average {val : BitVec 16} (hval : val.toNat ≤ 1023)
    (hs : wounding.idle .lightSensorRead s) : (wounding.terms .lightSensorRead).Safe
      (fun _ => wounding.idle .lightSensorRead)
      (do let lightAverage ← get Game.lightAverage
          set fun s => { s with
            lightAverage := BitVec.ofNat 16 ((val.toNat + lightAverage.toNat) / 2) }) s := by
  refine .read (stable_idle _) hs fun t hinv ht hmay => ⟨⟨hmay, hmay, rfl, id⟩, ?_⟩
  refine .write (k := pure) (stable_idle .lightSensorRead) ht fun u hinv' hu hmay =>
    ⟨⟨hinv'.health, hinv'.dead, hinv'.off, ?_⟩, ⟨hmay, hmay, rfl, id⟩,
      .pure (stable_idle .lightSensorRead) hu⟩
  have hlight := hinv.light
  show (BitVec.ofNat 16 ((val.toNat + t.game.lightAverage.toNat) / 2)).toNat ≤ 1023
  rw [BitVec.toNat_ofNat]
  omega

/-- **The light sensor.**  A hit takes one unit of health, and the last one kills. -/
theorem safe_lightSensorRead {val : BitVec 16} (hval : val.toNat ≤ 1023)
    (hs : wounding.idle .lightSensorRead s) : (wounding.terms .lightSensorRead).Safe
      (fun _ => wounding.idle .lightSensorRead) (lightSensorRead w fuel val) s := by
  refine .bind ((safe_struck val hs).mono fun hit t ht => ?_)
  cases hit with
  | true => exact safe_hit ht
  | false => exact safe_average hval ht

/-! ### `commandRoomba` -/

/-- What `commandRoomba` knows stays true, if it stays true when the robot dies. -/
theorem stable_commandRoomba {P : Remote τ → Prop} (hidles : ∀ s t, s.Idles t → P s → P t)
    (hhits : ∀ s t, s.Hits t → P s → P t) : (wounding.terms .commandRoomba).Stable P := by
  intro s t _ hrely _ hs
  rcases rely_commandRoomba hrely with h | h
  · exact hidles s t h hs
  · exact hhits s t h hs

/-- A game can begin: none is on, or the robot is dead. -/
structure CanStart (s : Remote τ) : Prop where
  settled : s.resetting = false
  ended : s.game.gameOn = true → s.game.dead = true

theorem Idles.canStart (h : s.Idles t) (hs : s.CanStart) : t.CanStart := by
  obtain ⟨-, hdead, hon, -, -, hres⟩ := h.eqs
  refine ⟨hres.trans hs.settled, ?_⟩
  rw [hdead, hon]
  exact hs.ended

theorem stable_canStart :
    (wounding.terms .commandRoomba).Stable fun s : Remote τ => s.CanStart :=
  stable_commandRoomba (fun _ _ h hs => h.canStart hs) fun _ _ h hs =>
    ⟨h.after, fun ht => h.dead (hs.ended (h.on.symm.trans ht))⟩

/-- A game begins: `health` is not yet what it was set to. -/
structure Resetting (s : Remote τ) : Prop where
  resetting : s.resetting = true
  on : s.game.gameOn = true

/-- Nothing happens to the robot meanwhile. -/
theorem stable_resetting {P : Bool → Prop} : (wounding.terms .commandRoomba).Stable
    fun s : Remote τ => s.Resetting ∧ P s.game.dead := by
  refine stable_commandRoomba (fun s t h hs => ?_) fun s t h hs => ?_
  · obtain ⟨-, hdead, hon, -, -, hres⟩ := h.eqs
    refine ⟨⟨hres.trans hs.1.resetting, hon.trans hs.1.on⟩, ?_⟩
    rw [hdead]
    exact hs.2
  · exact absurd (h.before.symm.trans hs.1.resetting) Bool.false_ne_true

theorem Resetting.begins (hs : s.Resetting) (ht : t.Resetting)
    (hlight : t.game.lightAverage = s.game.lightAverage) : s.Begins t where
  light := hlight
  on _ := ht.on
  same hres := absurd (hres.symm.trans hs.resetting) Bool.false_ne_true
  opens hres := absurd (hres.symm.trans hs.resetting) Bool.false_ne_true
  closes _ hres := absurd (hres.symm.trans ht.resetting) Bool.false_ne_true

theorem Resetting.hurt (ht : t.Resetting) (hlight : t.game.lightAverage.toNat ≤ 1023) :
    t.Hurt where
  health hres := absurd (hres.symm.trans ht.resetting) Bool.false_ne_true
  dead hres := absurd (hres.symm.trans ht.resetting) Bool.false_ne_true
  off hoff := absurd (hoff.symm.trans ht.on) Bool.false_ne_true
  light := hlight

/-- Nothing is written when something is read. -/
theorem begins_self (s : Remote τ) : s.Begins s := Idles.begins rfl

theorem safe_canStart (hs : s.resetting = false) : (wounding.terms .commandRoomba).Safe
    (fun go t => if go then CanStart t else t.resetting = false) canStart s := by
  refine .read (stable_idle .commandRoomba) hs fun t _ ht _ => ⟨t.begins_self, ?_⟩
  cases hon : t.game.gameOn with
  | false =>
    have hover : t.CanStart := ⟨ht, fun h => absurd (hon.symm.trans h) Bool.false_ne_true⟩
    exact .pure stable_canStart hover
  | true =>
    refine .read (k := pure) (stable_idle .commandRoomba) ht fun u _ hu _ => ⟨u.begins_self, ?_⟩
    cases hdead : u.game.dead with
    | true => exact .pure stable_canStart ⟨hu, fun _ => hdead⟩
    | false => exact .pure (stable_idle .commandRoomba) hu

/-- What `start_game` does when the variables of the game are set. -/
theorem acts_opened (w : Peer τ) (fuel : ℕ) : (do
    set fun s => { s with mode := stayMode }
    tell w fuel .commandRoomba [.playSong startSong, .leds 0 0 255]
    let startedBefore ← get Game.startedBefore
    if !startedBefore then
      set fun s => s.taskCreate .modeChange
      set fun s => { s with startedBefore := true } : Code τ Unit).Acts Idles := by
  refine .bind (.write fun _ => rfl) fun _ => .bind (speaks_idles.tell w fuel _ _) fun _ =>
    .bind (idles_get _) fun startedBefore => ?_
  split
  · exact .bind (idles_taskCreate _) fun _ => .write fun _ => rfl
  · exact .pure _

/-- **A game begins**, with all of its health. -/
theorem safe_startGame (hs : s.resetting = false) : (wounding.terms .commandRoomba).Safe
    (fun _ => wounding.idle .commandRoomba) (startGame w fuel .commandRoomba) s := by
  refine .bind ((safe_canStart hs).mono fun go t ht => ?_)
  cases go with
  | false => exact .pure (stable_idle .commandRoomba) ht
  | true =>
    have hsongs : (wounding.terms .commandRoomba).Safe (fun _ (u : Remote τ) => u.CanStart)
        (tell w fuel .commandRoomba Game.loadSongs) t :=
      .of_acts (speaks_idles.tell w fuel _ _) stable_canStart (fun _ => trivial)
        (fun _ _ hinv hu _ h => ⟨h.hurt hinv, h.begins, h.canStart hu⟩) ht
    refine .bind (hsongs.mono fun _ u hu => ?_)
    refine .write stable_canStart hu fun v hinv hv _ => ?_
    have hopened : Resetting { v with game := { v.game with gameOn := true }, resetting := true } :=
      ⟨rfl, rfl⟩
    refine ⟨hopened.hurt hinv.light, ⟨rfl, fun _ => rfl, fun _ h => absurd h (by simp),
      fun _ _ hon => hv.ended hon, fun h => absurd (hv.settled.symm.trans h) (by simp)⟩, ?_⟩
    refine .write (stable_resetting (P := fun _ => True)) ⟨hopened, trivial⟩ fun x hinv hx _ => ?_
    have halive : Resetting { x with game := { x.game with dead := false } } := ⟨hx.1.1, hx.1.2⟩
    refine ⟨halive.hurt hinv.light, hx.1.begins halive rfl, ?_⟩
    refine .write (stable_resetting (P := fun b => b = false)) ⟨halive, rfl⟩ fun y hinv hy _ => ?_
    have hticks : Resetting { y with game := { y.game with numLaserTicks := laserTicks } } :=
      ⟨hy.1.1, hy.1.2⟩
    refine ⟨hticks.hurt hinv.light, hy.1.begins hticks rfl, ?_⟩
    refine .write (stable_resetting (P := fun b => b = false)) ⟨hticks, hy.2⟩ fun z hinv hz _ => ?_
    refine ⟨⟨fun _ => rfl, fun _ hdead => ?_, fun _ => rfl, hinv.light⟩, ⟨rfl, fun h => h,
      fun h => absurd (h.symm.trans hz.1.resetting) (by simp), fun _ h => absurd h (by simp),
      fun _ _ => rfl⟩, safe_of_idles (acts_opened w fuel) rfl⟩
    exact absurd (hz.2.symm.trans hdead) Bool.false_ne_true

/-- Where `commandRoomba` does not begin a game it does nothing about the hits. -/
theorem idles_chooseMove (w : Peer τ) (fuel : ℕ) :
    (chooseMove w fuel .commandRoomba).Acts Idles :=
  .bind (speaks_idles.toServes.sensors w fuel _) fun r => moves_idles.nextMove r

theorem safe_commandRoomba (hs : s.resetting = false) : (wounding.terms .commandRoomba).Safe
    (fun _ => wounding.idle .commandRoomba) (commandRoomba w fuel) s := by
  have hrest : ∀ t : Remote τ, t.resetting = false → (wounding.terms .commandRoomba).Safe
      (fun _ => wounding.idle .commandRoomba) (do
        chooseMove w fuel .commandRoomba
        drive w fuel) t := fun t ht =>
    safe_of_idles (.bind (idles_chooseMove w fuel) fun _ => .bind (idles_get _) fun _ =>
      speaks_idles.say w fuel _ _) ht
  refine .bind (.mono (Q := fun _ => wounding.idle .commandRoomba) ?_ fun _ => hrest)
  refine .read (stable_idle .commandRoomba) hs fun t _ ht _ => ⟨t.begins_self, ?_⟩
  split
  · refine .bind ((safe_canStart ht).mono fun go u hu => ?_)
    cases go with
    | true => exact safe_startGame hu.settled
    | false => exact .pure (stable_idle .commandRoomba) hu
  · exact .pure (stable_idle .commandRoomba) ht

/-! ### Every interleaving -/

theorem keeps_wounding (w : Peer τ) (fuel : ℕ) : (system w fuel).Keeps wounding where
  stable := stable_idle
  start a s ha _ _ hs := by
    cases a with
    | create =>
      exact safe_of_idles (.bind (idles_taskCreate _) fun _ => .bind (idles_taskCreate _) fun _ =>
        .bind (idles_taskCreate _) fun _ => .bind (idles_taskCreate _) fun _ =>
        .bind (idles_taskCreate _) fun _ => .write fun _ => rfl) hs
    | setupRoomba =>
      exact safe_of_idles (.bind (speaks_idles.tell w fuel _ _) fun _ =>
        .bind (idles_taskCreate _) fun _ => .write fun _ => rfl) hs
    | tickArm => exact safe_of_idles moves_idles.tickArm hs
    | rxData p => exact safe_of_idles (moves_idles.rxData p) hs
    | lightSensorRead val => exact safe_lightSensorRead ha hs
    | commandRoomba => exact safe_commandRoomba hs
    | modeChange =>
      refine safe_of_idles (.bind (idles_get _) fun _ => ?_) hs
      split
      · exact .write fun _ => rfl
      · exact .bind (idles_get _) fun _ => .bind (.write fun _ => rfl) fun _ =>
          speaks_idles.say w fuel _ _

/-- `lightSensorRead` is activated with ten bits, and does nothing between `game_on = true` and
`health = 10` of a new game. -/
def spares (u : Tasks τ) : Event → Bool
  | .act .lightSensorRead => !u.shared.resetting
  | .start (.lightSensorRead val) => val.toNat ≤ 1023
  | _ => true

/-- A step of the tasks in which a game that begins is left alone. -/
def Sparing (w : Peer τ) (fuel : ℕ) (u : Tasks τ) (e : Event) (u' : Tasks τ) : Prop :=
  (system w fuel).Step u e u' ∧ spares u e = true

/-- Bytes that arrive at the port do not change anything else. -/
theorem Sparing.allows {u u' : Tasks τ} {e : Event} (h : Sparing w fuel u e u')
    (hinv : u.shared.Hurt) : wounding.Allows u e u' := by
  obtain ⟨hstep, hspares⟩ := h
  cases e with
  | start a =>
    cases a with
    | lightSensorRead val =>
      have hval : val.toNat ≤ 1023 := of_decide_eq_true hspares
      exact hval
    | _ => exact trivial
  | act i =>
    cases i with
    | lightSensorRead => exact (Bool.not_eq_true' _).mp hspares
    | _ => exact trivial
  | outside bs =>
    obtain ⟨t, ht, rfl⟩ := Option.map_eq_some_iff.1 hstep
    obtain ⟨-, port, -, rfl⟩ := noise_eq ht
    have hidles : u.shared.Idles { u.shared with serial := ⟨port, u.shared.serial.line⟩ } := rfl
    exact ⟨hidles, hidles.hurt hinv⟩

/-- **Ten hits.**  However the tasks are preempted, if `lightSensorRead` does nothing between
`game_on = true` and `health = 10` of a new game: everywhere else the robot's health is ten less
its hits in this game, it is never hit more than ten times, it is dead only after the tenth hit,
and then as soon as `lightSensorRead` is done. -/
theorem dies_at_ten {move : Move} {peer : τ} {es : List Event} {u : Tasks τ}
    (hrun : Run (Sparing w fuel) (initial move peer) es u) :
    (u.shared.resetting = false → u.shared.hits ≤ 10 ∧
      u.shared.game.health.toNat = 10 - u.shared.hits ∧
      (u.shared.game.dead = true → u.shared.hits = 10) ∧
      (u.code .lightSensorRead = .done () → u.shared.hits = 10 → u.shared.game.dead = true)) ∧
    (u.shared.game.gameOn = false → u.shared.hits = 0) ∧
    u.shared.game.lightAverage.toNat ≤ 1023 := by
  have hstart : wounding.Holds (initial move peer) := by
    refine (keeps_wounding w fuel).initial ?_ fun i => ?_
    · exact ⟨fun _ => rfl, fun _ hdead => absurd hdead Bool.false_ne_true, fun _ => rfl,
        Nat.zero_le _⟩
    · cases i with
      | lightSensorRead => exact fun _ hten => absurd hten (by show ¬ 0 = 10; decide)
      | commandRoomba => rfl
      | _ => exact trivial
  have hholds : wounding.Holds u := (keeps_wounding w fuel).holds hstart
    (fun v e v' hv hs => ⟨hs.1, hs.allows hv.inv⟩) hrun
  obtain ⟨hhealth, hdead, hoff, hlight⟩ := hholds.inv
  refine ⟨fun hres => ?_, hoff, hlight⟩
  have hleft := hhealth hres
  exact ⟨by omega, by omega, hdead hres, fun hdone => hholds.idle hdone hres⟩

/-- The robot is hit ten times, and dies. -/
def shots : List Event :=
  (List.replicate 9 (activation (.lightSensorRead 100) 6)).flatten ++
    activation (.lightSensorRead 100) 20

/-- The robot is hit ten times before `commandRoomba` has said that the game has begun. -/
theorem dies_at_ten_preempting :
    ∃ u, Run (Sparing respondent 33) (initial .stop {}) (opening 94 ++ shots) u ∧
    (u.shared.resetting = false ∧ u.shared.hits = 10) ∧
    (u.shared.resetting = false → u.shared.hits ≤ 10 ∧
      u.shared.game.health.toNat = 10 - u.shared.hits ∧
      (u.shared.game.dead = true → u.shared.hits = 10) ∧
      (u.code .lightSensorRead = .done () → u.shared.hits = 10 → u.shared.game.dead = true)) ∧
    (u.shared.game.gameOn = false → u.shared.hits = 0) ∧
    u.shared.game.lightAverage.toNat ≤ 1023 := by
  have hex : ((Run.exec (fun u e => if spares u e then (system respondent 33).advance u e else none)
      (initial .stop {}) (opening 94 ++ shots)).filter fun u =>
        u.shared.resetting = false ∧ u.shared.hits = 10).isSome = true := by decide +kernel
  obtain ⟨u, hu⟩ := Option.isSome_iff_exists.1 hex
  obtain ⟨hrun, hfacts⟩ := Option.filter_eq_some_iff.1 hu
  have hrun : Run (Sparing respondent 33) (initial .stop {}) (opening 94 ++ shots) u :=
    (Run.of_exec hrun).mono fun v e v' hstep => (Option.ite_none_right_eq_some.1 hstep).symm
  exact ⟨u, hrun, of_decide_eq_true hfacts, dies_at_ten hrun⟩

/-- A robot that is hit while its second game begins, between `dead = false` and `health = 10`,
has less than no health. -/
theorem hit_at_zero : ∃ u ∈ Run.exec (system respondent 33).advance (initial .stop {})
      (opening 152 ++ shots ++ activation .commandRoomba 93 ++
        activation (.lightSensorRead 100) 6),
    u.shared.resetting = true ∧ u.shared.game.health = 255 := by
  decide +kernel

end Remote

namespace Game

variable {s s' s₀ : Game} {e : Activation} {es : List Activation} {n : ℕ}

/-! ### The laser -/

/-- The button starts a game. -/
def begins (s : Game) : Activation → Bool
  | .checkButton => s.packet.joy2SW ≠ 0 && (!s.gameOn || s.dead)
  | _ => false

/-- The laser is used in a game. -/
def shoots (s : Game) : Activation → Bool
  | .tickArm => s.gameOn && decide (s.packet.joy1SW ≠ 0 ∧ s.numLaserTicks > 0)
  | _ => false

/-- A step, with a counter of the activations for which `g` holds, since the game began. -/
def Counts (g : Game → Activation → Bool) (u : Game × ℕ) (e : Activation) (u' : Game × ℕ) : Prop :=
  u.1.Step e u'.1 ∧ u'.2 = if u.1.begins e then 0 else u.2 + (g u.1 e).toNat

theorem taskCreate_ticks (s : Game) (f : TaskFunction) :
    (s.taskCreate f).numLaserTicks = s.numLaserTicks := by
  obtain ⟨_, h⟩ := s.taskCreate_eq f
  rw [h]

theorem startModeChange_ticks (s : Game) : s.startModeChange.numLaserTicks = s.numLaserTicks := by
  unfold startModeChange
  split_ifs
  · exact s.taskCreate_ticks .modeChange
  · rfl

theorem taskTerminate_ticks (s : Game) (f : TaskFunction) :
    (s.taskTerminate f).numLaserTicks = s.numLaserTicks := rfl

theorem tell_ticks (s : Game) (c : List RoombaCommand) :
    (s.tell c).numLaserTicks = s.numLaserTicks := rfl

theorem create_ticks (s : Game) : s.create.numLaserTicks = s.numLaserTicks := by
  simp only [create, taskTerminate_ticks, taskCreate_ticks]

theorem setupRoomba_ticks (s : Game) : s.setupRoomba.numLaserTicks = s.numLaserTicks := by
  simp only [setupRoomba, taskTerminate_ticks, taskCreate_ticks, tell_ticks]

theorem lightSensorRead_ticks (s : Game) (val : BitVec 16) :
    (s.lightSensorRead val).numLaserTicks = s.numLaserTicks := by
  simp only [lightSensorRead, die]
  split_ifs <;> rfl

theorem drive_ticks (s : Game) (r : Sensors) : (s.drive r).numLaserTicks = s.numLaserTicks := by
  show (s.chooseMove r).numLaserTicks = s.numLaserTicks
  unfold chooseMove
  split_ifs <;> rfl

theorem modeChange_ticks (s : Game) : s.modeChange.numLaserTicks = s.numLaserTicks := by
  unfold modeChange
  by_cases hdead : s.dead = true
  · rw [if_pos hdead]
    rfl
  · rw [if_neg hdead]
    rfl

/-- A new game begins with all ticks. -/
theorem checkButton_ticks (s : Game) : s.checkButton.numLaserTicks =
    if s.begins .checkButton then laserTicks else s.numLaserTicks := by
  have hbegins : s.begins .checkButton = true ↔
      s.packet.joy2SW ≠ 0 ∧ (!s.gameOn || s.dead) = true := by
    simp only [begins, Bool.and_eq_true, decide_eq_true_eq]
  by_cases hb : s.begins .checkButton = true
  · obtain ⟨hpressed, hready⟩ := hbegins.1 hb
    rw [if_pos hb]
    show (if _ then s.startGame else s).numLaserTicks = _
    rw [if_pos ⟨hpressed, hready⟩, startGame, if_pos hready, startModeChange_ticks]
    rfl
  · rw [if_neg hb]
    show (if _ then s.startGame else s).numLaserTicks = _
    rw [if_neg fun h => hb (hbegins.2 h)]

/-- The ticks that are left after `n` shots. -/
structure Fired (s : Game) (n : ℕ) : Prop where
  ticks : s.numLaserTicks = laserTicks - armTickPeriod * n
  le : n ≤ 1500

theorem Fired.congr (h : s.Fired n) (hs : s'.numLaserTicks = s.numLaserTicks) : s'.Fired n :=
  ⟨hs.trans h.ticks, h.le⟩

/-- There are ticks left as long as this was not the last shot. -/
theorem Fired.pos_iff (h : s.Fired n) : s.numLaserTicks > 0 ↔ n < 1500 := by
  rw [h.ticks]
  show (3000 - 2 * (n : ℤ) > 0) ↔ _
  omega

theorem Fired.tickArm (h : s.Fired n) : s.tickArm.Fired (n + (s.shoots .tickArm).toNat) ∧
    (s.tickArm.laser = true ↔ s.packet.joy1SW ≠ 0 ∧ n < 1500) := by
  rw [← h.pos_iff]
  by_cases hfire : s.packet.joy1SW ≠ 0 ∧ s.numLaserTicks > 0
  · have hlt := h.pos_iff.1 hfire.2
    have hticks := h.ticks
    rw [Game.tickArm, if_pos hfire]
    refine ⟨?_, iff_of_true rfl hfire⟩
    cases hon : s.gameOn with
    | true =>
      have hshoots : s.shoots .tickArm = true := by
        rw [shoots, hon, decide_eq_true hfire]
        rfl
      rw [hshoots]
      refine ⟨?_, hlt⟩
      show s.numLaserTicks - 2 = 3000 - 2 * ((n + 1 : ℕ) : ℤ)
      have hticks : s.numLaserTicks = 3000 - 2 * (n : ℤ) := hticks
      omega
    | false =>
      have hshoots : s.shoots .tickArm = false := by simp [shoots, hon]
      rw [hshoots]
      exact ⟨hticks, h.le⟩
  · have hshoots : s.shoots .tickArm = false := by
      rw [shoots, decide_eq_false hfire, Bool.and_false]
    rw [Game.tickArm, if_neg hfire, hshoots]
    exact ⟨⟨h.ticks, h.le⟩, iff_of_false Bool.false_ne_true hfire⟩

theorem Fired.step {u' : Game × ℕ} (h : s.Fired n) (hs : Counts shoots (s, n) e u') :
    u'.1.Fired u'.2 := by
  obtain ⟨t, n'⟩ := u'
  obtain ⟨hstep, rfl⟩ := hs
  obtain ⟨-, -, rfl⟩ := step_iff.1 hstep
  cases e with
  | create => exact h.congr s.create_ticks
  | setupRoomba => exact h.congr s.setupRoomba_ticks
  | tickArm => exact h.tickArm.1
  | rxData p => exact ⟨h.ticks, h.le⟩
  | lightSensorRead val => exact h.congr (s.lightSensorRead_ticks val)
  | checkButton =>
    have hticks := s.checkButton_ticks
    show (s.checkButton).Fired (if s.begins .checkButton then 0 else n)
    cases hb : s.begins .checkButton with
    | true =>
      rw [hb] at hticks
      exact ⟨hticks, Nat.zero_le _⟩
    | false =>
      rw [hb] at hticks
      exact h.congr hticks
  | drive r => exact h.congr (s.drive_ticks r)
  | modeChange => exact h.congr s.modeChange_ticks

end Game

end RoombaRtos
