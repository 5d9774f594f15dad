import RoombaRtos.Remote

/-!
# What the robot is told

The commands that the tasks of the remote station send to the robot, however they are preempted.

* `Roomba.Provided` — each command comes after those that it needs;
* `Remote.Does` — what the actions of a task do to the tasks that are alive, and to the line;
* `Remote.Says.transact` — one command, byte by byte;
* `Remote.told_in_order` — as long as no command is begun in the middle of another one, what was
  sent are commands, each of them comes after those that it needs, and the robot is driven as the
  game chose;
* `Remote.torn` — otherwise the bytes of a command can become part of another one.
-/

namespace RoombaRtos

open Lockstep Interleaving

namespace Roomba

/-- What has to be sent before a command, and what its arguments can be.  The other commands are
not used by the game. -/
def Action.After (l : List Action) : Action → Prop
  | .start => l = []
  | .baud _ => l = [.start]
  | .safe => .start ∈ l
  | .sensors _ => .start ∈ l
  | .song _ _ => .safe ∈ l
  | .play number => .safe ∈ l ∧ ∃ notes, .song number notes ∈ l
  | .leds _ _ _ => .safe ∈ l
  | .directDrive right left => .safe ∈ l ∧
      (-maxSpeed ≤ right.toInt ∧ right.toInt ≤ maxSpeed) ∧
      -maxSpeed ≤ left.toInt ∧ left.toInt ≤ maxSpeed
  | _ => False

/-- Each command comes after those that it needs. -/
def Provided (l : List Action) : Prop := ∀ l₁ a l₂, l = l₁ ++ a :: l₂ → a.After l₁

theorem Provided.nil : Provided [] := fun l₁ a l₂ h => by simp at h

theorem Provided.snoc {l : List Action} {a : Action} (h : Provided l) (ha : a.After l) :
    Provided (l ++ [a]) := by
  intro l₁ b l₂ heq
  rcases List.eq_nil_or_concat l₂ with rfl | ⟨l₃, c, rfl⟩
  · obtain ⟨rfl, hb⟩ := List.append_inj' heq rfl
    obtain rfl : a = b := by simpa using hb
    exact ha
  · rw [List.concat_eq_append, ← List.cons_append, ← List.append_assoc] at heq
    exact h l₁ b l₃ (List.append_inj' heq rfl).1

/-- The robot is in safe mode and has the songs with these numbers. -/
structure Loaded (ns : List Byte) (l : List Action) : Prop where
  start : .start ∈ l
  safe : .safe ∈ l
  songs : ∀ n ∈ ns, ∃ notes, .song n notes ∈ l

/-- The robot is in safe mode and has all songs. -/
def Prepared (l : List Action) : Prop := Loaded [deadSong, freeSong, staySong, startSong] l

theorem Loaded.append {ns : List Byte} {l : List Action} (h : Loaded ns l) (l' : List Action) :
    Loaded ns (l ++ l') := by
  refine ⟨List.mem_append_left _ h.start, List.mem_append_left _ h.safe, fun n hn => ?_⟩
  obtain ⟨notes, hnotes⟩ := h.songs n hn
  exact ⟨notes, List.mem_append_left _ hnotes⟩

theorem Loaded.song {ns : List Byte} {l : List Action} (h : Loaded ns l) (n : Byte)
    (notes : List (Byte × Byte)) : Loaded (n :: ns) (l ++ [.song n notes]) := by
  have h' := h.append [.song n notes]
  refine ⟨h'.start, h'.safe, fun m hm => ?_⟩
  rcases List.mem_cons.1 hm with rfl | hm
  · exact ⟨notes, List.mem_append_right _ (List.mem_singleton_self _)⟩
  · exact h'.songs m hm

theorem Loaded.mono {ns ns' : List Byte} {l : List Action} (h : Loaded ns l)
    (hns : ∀ n ∈ ns', n ∈ ns) : Loaded ns' l :=
  ⟨h.start, h.safe, fun n hn => h.songs n (hns n hn)⟩

end Roomba

/-- The speeds, left and right, of the drive commands that are sent. -/
def Roomba.speeds (l : List Roomba.Action) : List (ℤ × ℤ) :=
  l.filterMap fun
    | .directDrive right left => some (left.toInt, right.toInt)
    | _ => none

/-- The speeds that the game chose. -/
def RoombaCommand.speeds (c : List RoombaCommand) : List (ℤ × ℤ) :=
  c.filterMap fun
    | .directDrive left right => some (left, right)
    | _ => none

/-- What all tasks but the setup task tell the robot, apart from its speeds. -/
def RoombaCommand.Fits : RoombaCommand → Prop
  | .init => False
  | .safeMode => False
  | .playSong number => number ∈ [deadSong, freeSong, staySong, startSong]
  | .directDrive _ _ => False
  | _ => True

/-- Speeds fit into the words in which they are sent. -/
theorem toInt_speed {v : ℤ} (h : -maxSpeed ≤ v ∧ v ≤ maxSpeed) : (BitVec.ofInt 16 v).toInt = v := by
  have hmax : maxSpeed = 500 := rfl
  rw [BitVec.toInt_ofInt, Int.bmod_eq_of_le] <;> omega

open Roomba (Serial Query Reading Action Call Provided Loaded Prepared)

namespace Remote

variable {τ α : Type} {w : Peer τ} {fuel : ℕ} {i : TaskFunction} {s t : Remote τ}

/-- Some task can tell the robot what to do, after it was set up. -/
def Talks (s : Remote τ) : Prop :=
  s.game.gameOn = true ∨ .commandRoomba ∈ s.game.tasks ∨ .modeChange ∈ s.game.tasks

/-- The drive commands are those that the game chose, in this order, but for `l`. -/
def Driven (s : Remote τ) (l : List (ℤ × ℤ)) : Prop :=
  RoombaCommand.speeds s.game.sent = Roomba.speeds s.meant ++ l

/-- Nothing was said, and only the setup task can say something. -/
structure Quiet (s : Remote τ) : Prop where
  talks : ¬ s.Talks
  meant : s.meant = []
  inside : s.inside = []

/-- What holds of the line. -/
structure Orderly (s : Remote τ) : Prop where
  /-- Some bytes of the last command have still to be sent. -/
  decoded : ∃ bs, Streaming.decode Roomba.complete [] (s.serial.line ++ bs) = (s.meant, []) ∧
    (s.inside = [] → bs = [])
  provided : Provided s.meant
  prepared : s.Talks → Prepared s.meant
  driven : ∃ l, s.Driven l ∧ l.length ≤ 1

/-- What the actions of a task do. -/
structure Does (i : TaskFunction) (s t : Remote τ) : Prop where
  alive : i ∈ s.game.tasks
  stays : ∀ f, f ≠ i → f ∈ s.game.tasks → f ∈ t.game.tasks
  on : s.game.gameOn = true → t.game.gameOn = true
  /-- Only `create` ends itself, and it creates `setupRoomba` before anything is said. -/
  create : i ≠ .create → t.game.tasks.count .create = s.game.tasks.count .create
  setup : i ≠ .setupRoomba → t.game.tasks.count .setupRoomba = s.game.tasks.count .setupRoomba ∨
    t.game.tasks.count .setupRoomba = 1 ∧ s.Quiet ∧ i = .create
  quiet : i ≠ .setupRoomba → ¬ s.Talks →
    ¬ t.Talks ∧ t.serial = s.serial ∧ t.meant = s.meant ∧ t.inside = s.inside
  /-- Nothing is said in the middle of what another task says. -/
  foreign : i ∉ s.inside → s.inside ≠ [] →
    t.serial = s.serial ∧ t.meant = s.meant ∧ t.inside = s.inside
  /-- Only `commandRoomba` drives the robot. -/
  driven : i ≠ .commandRoomba → ∀ l, s.Driven l → t.Driven l

/-- Bytes arrive. -/
def Hears (s t : Remote τ) : Prop :=
  ∃ port, t = { s with serial := { s.serial with port := port } }

/-- The terms on which the tasks talk to the robot. -/
def telling : Accord TaskFunction Halt (Remote τ) Activation where
  inv := Orderly
  guar := Does
  may _ := Alone
  outside := Hears
  idle
    | .create, s => .create ∈ s.game.tasks →
        s.game.tasks.count .create = 1 ∧ .setupRoomba ∉ s.game.tasks ∧ s.Quiet
    | .setupRoomba, s => .setupRoomba ∈ s.game.tasks →
        s.game.tasks.count .setupRoomba = 1 ∧ s.Quiet
    | .commandRoomba, s => s.Driven []
    | _, _ => True
  starts _ _ := True
  halts _ := True

theorem Hears.orderly (h : s.Hears t) (hs : s.Orderly) : t.Orderly := by
  obtain ⟨port, rfl⟩ := h
  exact ⟨hs.decoded, hs.provided, hs.prepared, hs.driven⟩

theorem Does.keeps_quiet (h : Does i s t) (hi : i ≠ .setupRoomba) (hs : s.Quiet) : t.Quiet := by
  obtain ⟨htalks, -, hmeant, hinside⟩ := h.quiet hi hs.talks
  exact ⟨htalks, hmeant.trans hs.meant, hinside.trans hs.inside⟩

/-! ### What a task can rely on -/

/-- What others do not change stays true. -/
theorem stable_of {P : Remote τ → Prop}
    (hdoes : ∀ s t j, j ≠ i → Does j s t → P s → P t) (hhears : ∀ s t, s.Hears t → P s → P t) :
    (telling.terms i).Stable P := by
  intro s t _ hrely _ hs
  rcases hrely with ⟨j, hj, h⟩ | h
  · exact hdoes s t j hj h hs
  · exact hhears s t h hs

/-- A task that is alive stays alive until it ends itself. -/
theorem stable_present (i : TaskFunction) :
    (telling.terms i).Stable fun s : Remote τ => i ∈ s.game.tasks := by
  refine stable_of (fun s t j hj h hs => h.stays i (Ne.symm hj) hs) fun s t h hs => ?_
  obtain ⟨port, rfl⟩ := h
  exact hs

theorem stable_idle_telling (i : TaskFunction) :
    (telling.terms i).Stable fun s : Remote τ => telling.idle i s := by
  refine stable_of (fun s t j hj h hs => ?_) fun s t h hs => ?_
  · cases i with
    | create =>
      intro hmem
      have hcount := h.create hj
      have hmem' : .create ∈ s.game.tasks := by
        rw [← List.count_pos_iff, ← hcount]
        exact List.count_pos_iff.2 hmem
      obtain ⟨hone, hno, hquiet⟩ := hs hmem'
      have hjs : j ≠ .setupRoomba := by
        rintro rfl
        exact hno h.alive
      refine ⟨hcount.trans hone, fun hin => ?_, h.keeps_quiet hjs hquiet⟩
      rcases h.setup hjs with hsame | ⟨-, -, rfl⟩
      · rw [← List.count_pos_iff, hsame] at hin
        exact hno (List.count_pos_iff.1 hin)
      · exact hj rfl
    | setupRoomba =>
      intro hmem
      rcases h.setup hj with hsame | ⟨hone, hquiet, -⟩
      · have hmem' : .setupRoomba ∈ s.game.tasks := by
          rw [← List.count_pos_iff, ← hsame]
          exact List.count_pos_iff.2 hmem
        obtain ⟨hone, hquiet⟩ := hs hmem'
        exact ⟨hsame.trans hone, h.keeps_quiet hj hquiet⟩
      · exact ⟨hone, h.keeps_quiet hj hquiet⟩
    | commandRoomba => exact h.driven hj [] hs
    | _ => exact trivial
  · obtain ⟨port, rfl⟩ := h
    cases i with
    | create => exact fun hmem => ⟨(hs hmem).1, (hs hmem).2.1, (hs hmem).2.2.talks,
        (hs hmem).2.2.meant, (hs hmem).2.2.inside⟩
    | setupRoomba => exact fun hmem => ⟨(hs hmem).1, (hs hmem).2.talks, (hs hmem).2.meant,
        (hs hmem).2.inside⟩
    | commandRoomba => exact hs
    | _ => exact trivial

/-! ### One command -/

/-- A task says something, and has still to send `bs`. -/
structure Owns (i : TaskFunction) (bs : List Byte) (s : Remote τ) : Prop where
  inside : s.inside = [i]
  rest : Streaming.decode Roomba.complete [] (s.serial.line ++ bs) = (s.meant, [])

theorem stable_owns (bs : List Byte) :
    (telling.terms i).Stable fun s : Remote τ => Owns i bs s := by
  refine stable_of (fun s t j hj h hs => ?_) fun s t h hs => ?_
  · have hnot : j ∉ s.inside := by
      rw [hs.inside]
      simpa using hj
    obtain ⟨hserial, hmeant, hinside⟩ := h.foreign hnot (by rw [hs.inside]; simp)
    refine ⟨hinside.trans hs.inside, ?_⟩
    rw [hserial, hmeant]
    exact hs.rest
  · obtain ⟨port, rfl⟩ := h
    exact ⟨hs.inside, hs.rest⟩

/-- A task that can say something: the setup task, or any other when the robot was set up. -/
structure Speaker (i : TaskFunction) (s : Remote τ) : Prop where
  alive : i ∈ s.game.tasks
  talks : i = .setupRoomba ∨ s.Talks

/-- Only the line changes, or what is known of it. -/
structure Sends (s t : Remote τ) : Prop where
  game : t.game = s.game
  meant : t.meant = s.meant
  inside : t.inside = s.inside

theorem Sends.driven (h : s.Sends t) {l : List (ℤ × ℤ)} (hs : s.Driven l) : t.Driven l := by
  unfold Driven
  rw [h.game, h.meant]
  exact hs

theorem Sends.does (h : s.Sends t) (hs : Speaker i s) (hin : i ∈ s.inside ∨ s.inside = []) :
    Does i s t where
  alive := hs.alive
  stays f _ hf := by rwa [h.game]
  on hon := by rwa [h.game]
  create _ := by rw [h.game]
  setup _ := Or.inl (by rw [h.game])
  quiet hi hq := absurd (hs.talks.resolve_left hi) hq
  foreign hno hne := absurd hin (not_or.2 ⟨hno, hne⟩)
  driven _ _ hl := h.driven hl

theorem Sends.orderly (h : s.Sends t) (hs : s.Orderly) {bs : List Byte} (ht : Owns i bs t) :
    t.Orderly where
  decoded := by
    refine ⟨bs, ht.rest, fun hnone => ?_⟩
    rw [ht.inside] at hnone
    cases hnone
  provided := by
    rw [h.meant]
    exact hs.provided
  prepared ht := by
    rw [h.meant]
    rw [Talks, h.game] at ht
    exact hs.prepared ht
  driven := by
    obtain ⟨l, hl, hlen⟩ := hs.driven
    exact ⟨l, h.driven hl, hlen⟩

/-- An assertion that a speaker keeps while it says something. -/
structure Keeps (i : TaskFunction) (D : Remote τ → Prop) : Prop where
  stable : (telling.terms i).Stable D
  speaker : ∀ s, D s → Speaker i s
  sends : ∀ s t, s.Sends t → D s → D t

theorem Keeps.owns {D : Remote τ → Prop} (hD : Keeps i D) (bs : List Byte) :
    (telling.terms i).Stable fun s : Remote τ => D s ∧ Owns i bs s :=
  hD.stable.and (stable_owns bs)

/-- An action in the middle of a command. -/
theorem Keeps.send {D : Remote τ → Prop} (hD : Keeps i D) {bs bs' : List Byte}
    (hs : D s ∧ Owns i bs s) (hinv : s.Orderly) (h : s.Sends t)
    (hrest : Streaming.decode Roomba.complete [] (t.serial.line ++ bs') = (t.meant, [])) :
    t.Orderly ∧ Does i s t ∧ D t ∧ Owns i bs' t := by
  have howns : Owns i bs' t := ⟨h.inside.trans hs.2.inside, hrest⟩
  refine ⟨h.orderly hinv howns, h.does (hD.speaker s hs.1) (Or.inl ?_), hD.sends s t h hs.1,
    howns⟩
  rw [hs.2.inside]
  exact List.mem_singleton_self i

/-- The functions of the port that do not send. -/
theorem acts_atPort (f : Roomba.Port τ → Except Halt (α × Roomba.Port τ)) :
    (Serial.atPort f).Acts fun s t => t.line = s.line := by
  refine .call (fun _ => rfl) fun s a t hcall => ?_
  obtain ⟨r, -, hr⟩ := bind_ok hcall
  obtain rfl := congrArg Prod.snd (Except.ok.inj hr)
  rfl

theorem acts_flushData (w : Peer τ) (fuel : ℕ) :
    (Serial.flushData w fuel).Acts fun s t => t.line = s.line := by
  induction fuel with
  | zero => exact trivial
  | succ fuel ih =>
    refine .bind (acts_atPort _) fun byte => ?_
    split
    · exact ih
    · exact .pure _

variable {D : Remote τ → Prop} {bs : List Byte}

/-- A part of a command in which nothing is sent. -/
theorem Keeps.silent (hD : Keeps i D) {p : Prog Halt (Serial τ) α}
    (hp : p.Acts fun s t => t.line = s.line) (hs : D s ∧ Owns i bs s) :
    (telling.terms i).Safe (fun _ t => D t ∧ Owns i bs t) (p.on line) s := by
  have hacts : (p.on line).Acts fun s t : Remote τ => s.Sends t ∧ t.serial.line = s.serial.line :=
    .on hp fun s x hx => ⟨⟨rfl, rfl, rfl⟩, hx⟩
  refine .of_acts hacts (hD.owns bs) (fun _ => trivial) (fun t u hinv ht _ hk => ?_) hs
  obtain ⟨hsends, hline⟩ := hk
  refine hD.send ht hinv hsends ?_
  rw [hline, hsends.meant]
  exact ht.2.rest

/-- The bytes of a command, one by one. -/
theorem Keeps.issue (hD : Keeps i D) (bs' : List Byte) (hs : D s ∧ Owns i (bs ++ bs') s) :
    (telling.terms i).Safe (fun _ t => D t ∧ Owns i bs' t) ((Serial.issue w bs).on line) s := by
  induction bs generalizing s with
  | nil => exact .pure (hD.owns bs') hs
  | cons b bs ih =>
    rw [Serial.issue, Prog.on_bind, Serial.issueCmd, Prog.on_call]
    refine .call (hD.owns (b :: bs ++ bs')) hs (fun t _ u hinv ht hcall _ => ?_)
      fun t _ _ ht _ => ⟨?_, trivial⟩
    · obtain ⟨⟨_, x⟩, hx, hu⟩ := map_ok hcall
      obtain ⟨port, -, hport⟩ := bind_ok hx
      obtain rfl := congrArg Prod.snd (Except.ok.inj hport)
      obtain rfl := congrArg Prod.snd hu
      have hsends : t.Sends { t with serial := ⟨port, t.serial.line ++ [b]⟩ } := ⟨rfl, rfl, rfl⟩
      have hrest : Streaming.decode Roomba.complete [] (t.serial.line ++ [b] ++ (bs ++ bs')) =
          (t.meant, []) := by
        rw [List.append_assoc]
        exact ht.2.rest
      obtain ⟨hinv', hdoes, hnext⟩ := hD.send ht hinv hsends hrest
      exact ⟨hinv', hdoes, ih hnext⟩
    · have hsame : t.Sends t := ⟨rfl, rfl, rfl⟩
      exact hsame.does (hD.speaker t ht.1) (Or.inl (by
        rw [ht.2.inside]
        exact List.mem_singleton_self i))

/-- A request, and reading the answer. -/
theorem Keeps.checkSensor (hD : Keeps i D) {sensor : Roomba.OiSensorArgs} {nbytes : Byte}
    (hs : D s ∧ Owns i (Roomba.checkSensor sensor) s) : (telling.terms i).Safe
      (fun _ t => D t ∧ Owns i [] t) ((Serial.checkSensor w fuel sensor nbytes).on line) s := by
  have hanswer : (Serial.answer w nbytes).Acts fun s t => t.line = s.line := by
    refine .bind (acts_atPort _) fun high => ?_
    cases high with
    | none => exact .pure _
    | some high =>
      dsimp only
      split
      · exact .bind (acts_atPort _) fun _ => .pure _
      · exact .pure _
  rw [Serial.checkSensor, Prog.on_bind]
  refine .bind ((hD.silent (acts_flushData w fuel) hs).mono fun _ t ht => ?_)
  rw [Prog.on_bind]
  refine .bind (Terms.Safe.mono (hD.issue [] ?_) fun _ u hu => ?_)
  · rw [List.append_nil]
    exact ht
  · exact hD.silent (.bind (acts_atPort _) fun _ => hanswer) hu

/-- What is said is right, where a task says it. -/
structure Says (i : TaskFunction) (l : List Action) (P D R : Remote τ → Prop) : Prop where
  stable : (telling.terms i).Stable P
  keeps : Keeps i D
  after : (telling.terms i).Stable R
  speaker : ∀ s, P s → Speaker i s
  provided : ∀ s, s.Orderly → P s → s.inside = [] → Provided (s.meant ++ l)
  driven : Roomba.speeds l = [] ∨ i = .commandRoomba ∧ ∀ s, P s → s.Driven (Roomba.speeds l)
  enter : ∀ s, P s → s.inside = [] → D { s with meant := s.meant ++ l, inside := [i] }
  leave : ∀ (s : Remote τ) r, D s → R { s with inside := [], answers := s.answers ++ r }

/-- The game has chosen the speeds that are sent. -/
theorem Says.enters {l : List Action} {P R : Remote τ → Prop} (h : Says i l P D R) (hs : P s)
    (hinv : s.Orderly) (x : List TaskFunction) :
    (∃ d, Driven { s with meant := s.meant ++ l, inside := x } d ∧ d.length ≤ 1) ∧
      (i ≠ .commandRoomba → ∀ d, s.Driven d →
        Driven { s with meant := s.meant ++ l, inside := x } d) := by
  have happend : Roomba.speeds (s.meant ++ l) = Roomba.speeds s.meant ++ Roomba.speeds l :=
    List.filterMap_append
  rcases h.driven with hnone | ⟨rfl, hchosen⟩
  · have hsame : ∀ d, s.Driven d →
        Driven { s with meant := s.meant ++ l, inside := x } d := by
      intro d hd
      show RoombaCommand.speeds s.game.sent = Roomba.speeds (s.meant ++ l) ++ d
      rw [happend, hnone, List.append_nil]
      exact hd
    obtain ⟨d, hd, hlen⟩ := hinv.driven
    exact ⟨⟨d, hsame d hd, hlen⟩, fun _ => hsame⟩
  · refine ⟨⟨[], ?_, Nat.zero_le _⟩, fun hne => absurd rfl hne⟩
    show RoombaCommand.speeds s.game.sent = Roomba.speeds (s.meant ++ l) ++ []
    rw [happend, List.append_nil]
    exact hchosen s hs

/-- **One command or request.** -/
theorem Says.transact {l : List Action} {P R : Remote τ → Prop} (h : Says i l P D R)
    {bs : List Byte} (hbs : Streaming.decode Roomba.complete [] bs = (l, []))
    {p : Prog Halt (Serial τ) α} (note : α → List (Query × Reading))
    (hp : ∀ t, D t ∧ Owns i bs t → (telling.terms i).Safe (fun _ u => D u ∧ Owns i [] u)
      (p.on line) t) (hs : P s) :
    (telling.terms i).Safe (fun _ => R) (transact i l p note) s := by
  refine .write h.stable hs fun t hinv ht hmay => ?_
  have halone : t.inside = [] := hmay (Nat.lt_succ_self _)
  obtain ⟨halive, htalks⟩ := h.speaker t ht
  obtain ⟨bs', hdecoded, hnone⟩ := hinv.decoded
  obtain rfl := hnone halone
  rw [List.append_nil] at hdecoded
  have hrest : Streaming.decode Roomba.complete [] (t.serial.line ++ bs) = (t.meant ++ l, []) := by
    rw [Streaming.decode_append, hdecoded, hbs]
  have hentered : ({ t with meant := t.meant ++ l, inside := i :: t.inside } : Remote τ) =
      { t with meant := t.meant ++ l, inside := [i] } := by
    rw [halone]
  rw [hentered]
  obtain ⟨hdriven, hothers⟩ := h.enters ht hinv [i]
  refine ⟨⟨⟨bs, hrest, fun hnone => absurd hnone (List.cons_ne_nil _ _)⟩,
    h.provided t hinv ht halone, fun htalks => (hinv.prepared htalks).append l, hdriven⟩,
    ⟨halive, fun _ _ hf => hf, id, fun _ => rfl, fun _ => Or.inl rfl,
    fun hi hq => absurd (htalks.resolve_left hi) hq, fun _ hne => absurd halone hne, hothers⟩, ?_⟩
  have howns : Owns i bs { t with meant := t.meant ++ l, inside := [i] } := ⟨rfl, hrest⟩
  refine .bind ((hp _ ⟨h.enter t ht halone, howns⟩).mono fun a u hu => ?_)
  refine .write (h.keeps.owns []) hu fun v hinv hv _ => ?_
  obtain ⟨hDv, hov⟩ := hv
  have hleft : v.inside.erase i = [] := by
    rw [hov.inside, List.erase_cons_head]
  rw [hleft]
  have hspeaker := h.keeps.speaker v hDv
  refine ⟨⟨⟨[], hov.rest, fun _ => rfl⟩, hinv.provided, hinv.prepared, hinv.driven⟩,
    ⟨hspeaker.alive, fun _ _ hf => hf, id, fun _ => rfl, fun _ => Or.inl rfl,
    fun hi hq => absurd (hspeaker.talks.resolve_left hi) hq, fun hno _ => ?_, fun _ _ => id⟩,
    .pure h.after (h.leave v _ hDv)⟩
  rw [hov.inside] at hno
  exact absurd (List.mem_singleton_self i) hno

theorem Says.command {l : List Action} {P R : Remote τ → Prop} (h : Says i l P D R)
    (hbs : Streaming.decode Roomba.complete [] bs = (l, [])) (hs : P s) :
    (telling.terms i).Safe (fun _ => R) (command w i l bs) s := by
  refine h.transact hbs _ (fun t ht => h.keeps.issue [] ?_) hs
  rw [List.append_nil]
  exact ht

theorem Says.call {c : Call} {P R : Remote τ → Prop} (h : Says i c.means P D R) (hs : P s) :
    (telling.terms i).Safe (fun _ => R) (call w i c) s := by
  have hdecode := Roomba.decode_calls [c]
  simp only [List.flatMap_singleton] at hdecode
  exact h.command hdecode hs

theorem Says.check {q : Query} {P R : Remote τ → Prop} (h : Says i [Roomba.ask q.sensor] P D R)
    (hs : P s) : (telling.terms i).Safe (fun _ => R) (check w fuel i q) s := by
  have hdecode : Streaming.decode Roomba.complete [] (Roomba.checkSensor q.sensor) =
      ([Roomba.ask q.sensor], []) := by
    cases q <;> rfl
  exact h.transact hdecode _ (fun t ht => h.keeps.checkSensor ht) hs

/-! ### Tasks that talk to a robot that was set up -/

/-- A change that has nothing to do with the robot. -/
structure Minds (s t : Remote τ) : Prop where
  tasks : t.game.tasks = s.game.tasks
  on : t.game.gameOn = s.game.gameOn
  serial : t.serial = s.serial
  meant : t.meant = s.meant
  inside : t.inside = s.inside
  driven : ∀ l, s.Driven l → t.Driven l

/-- What others can see of a task that minds its own business. -/
def view (s : Remote τ) :
    List TaskFunction × Bool × List RoombaCommand × Serial τ × List Action × List TaskFunction :=
  (s.game.tasks, s.game.gameOn, s.game.sent, s.serial, s.meant, s.inside)

theorem Minds.of (h : t.view = s.view) : s.Minds t := by
  simp only [view, Prod.mk.injEq] at h
  obtain ⟨htasks, hon, hsent, hserial, hmeant, hinside⟩ := h
  refine ⟨htasks, hon, hserial, hmeant, hinside, fun l hl => ?_⟩
  unfold Driven
  rw [hsent, hmeant]
  exact hl

theorem Minds.talks (h : s.Minds t) : t.Talks ↔ s.Talks := by
  rw [Talks, Talks, h.on, h.tasks]

theorem Minds.does (h : s.Minds t) (hi : i ∈ s.game.tasks) : Does i s t where
  alive := hi
  stays f _ hf := by rwa [h.tasks]
  on hon := h.on.trans hon
  create _ := by rw [h.tasks]
  setup _ := Or.inl (by rw [h.tasks])
  quiet _ hq := ⟨fun ht => hq (h.talks.1 ht), h.serial, h.meant, h.inside⟩
  foreign _ _ := ⟨h.serial, h.meant, h.inside⟩
  driven _ := h.driven

theorem Minds.orderly (h : s.Minds t) (hs : s.Orderly) : t.Orderly where
  decoded := by
    rw [h.serial, h.meant, h.inside]
    exact hs.decoded
  provided := by
    rw [h.meant]
    exact hs.provided
  prepared ht := by
    rw [h.meant]
    exact hs.prepared (h.talks.1 ht)
  driven := by
    obtain ⟨l, hl, hlen⟩ := hs.driven
    exact ⟨l, h.driven l hl, hlen⟩

/-- A change to the game by a task that can talk to the robot. -/
structure Plays (i : TaskFunction) (s t : Remote τ) : Prop where
  stays : ∀ f, f ≠ i → f ∈ s.game.tasks → f ∈ t.game.tasks
  on : s.game.gameOn = true → t.game.gameOn = true
  create : t.game.tasks.count .create = s.game.tasks.count .create
  setup : t.game.tasks.count .setupRoomba = s.game.tasks.count .setupRoomba
  serial : t.serial = s.serial
  meant : t.meant = s.meant
  inside : t.inside = s.inside
  driven : ∀ l, s.Driven l → t.Driven l

theorem Plays.does (h : Plays i s t) (hi : i ∈ s.game.tasks) (htalks : s.Talks) : Does i s t where
  alive := hi
  stays := h.stays
  on := h.on
  create _ := h.create
  setup _ := Or.inl h.setup
  quiet _ hq := absurd htalks hq
  foreign _ _ := ⟨h.serial, h.meant, h.inside⟩
  driven _ := h.driven

theorem Plays.orderly (h : Plays i s t) (hs : s.Orderly) (htalks : s.Talks) : t.Orderly where
  decoded := by
    rw [h.serial, h.meant, h.inside]
    exact hs.decoded
  provided := by
    rw [h.meant]
    exact hs.provided
  prepared _ := by
    rw [h.meant]
    exact hs.prepared htalks
  driven := by
    obtain ⟨l, hl, hlen⟩ := hs.driven
    exact ⟨l, h.driven l hl, hlen⟩

theorem tells_minds (s : Remote τ) {c : RoombaCommand} (hc : RoombaCommand.speeds [c] = []) :
    s.Minds { s with game := s.game.tell [c] } := by
  refine ⟨rfl, rfl, rfl, rfl, rfl, fun l hl => ?_⟩
  show RoombaCommand.speeds (s.game.sent ++ [c]) = Roomba.speeds s.meant ++ l
  rw [RoombaCommand.speeds, List.filterMap_append]
  unfold RoombaCommand.speeds at hc
  rw [hc, List.append_nil]
  exact hl

/-- What a task knows of the tasks and the game that allows it to talk to the robot. -/
structure Stands (i : TaskFunction) (P : Remote τ → Prop) : Prop where
  stable : (telling.terms i).Stable P
  alive : ∀ s, P s → i ∈ s.game.tasks
  talks : ∀ s, P s → s.Talks
  same : ∀ s t, t.game.tasks = s.game.tasks → t.game.gameOn = s.game.gameOn →
    (∀ l, s.Driven l → t.Driven l) → P s → P t

namespace Stands

variable {P : Remote τ → Prop} (h : Stands i P)

include h

theorem minds {p : Code τ α} (hp : p.Acts Minds) (hs : P s) :
    (telling.terms i).Safe (fun _ => P) p s :=
  .of_acts hp h.stable (fun _ => trivial) (fun t u hinv ht _ hk =>
    ⟨hk.orderly hinv, hk.does (h.alive t ht), h.same t u hk.tasks hk.on hk.driven ht⟩) hs

theorem plays {p : Code τ α} (hp : p.Acts fun s t => Plays i s t ∧ (P s → P t)) (hs : P s) :
    (telling.terms i).Safe (fun _ => P) p s :=
  .of_acts hp h.stable (fun _ => trivial) (fun t _ hinv ht _ hk =>
    ⟨hk.1.orderly hinv (h.talks t ht), hk.1.does (h.alive t ht) (h.talks t ht), hk.2 ht⟩) hs

theorem one {a : Action} (ha : ∀ l, Prepared l → a.After l) (hd : Roomba.speeds [a] = []) :
    Says i [a] P P P where
  stable := h.stable
  keeps := ⟨h.stable, fun s hs => ⟨h.alive s hs, Or.inr (h.talks s hs)⟩, fun s t hst hs =>
    h.same s t (by rw [hst.game]) (by rw [hst.game]) (fun _ hl => hst.driven hl) hs⟩
  after := h.stable
  speaker s hs := ⟨h.alive s hs, Or.inr (h.talks s hs)⟩
  provided s hinv hs _ := hinv.provided.snoc (ha _ (hinv.prepared (h.talks s hs)))
  driven := Or.inl hd
  enter s hs _ := by
    refine h.same s _ rfl rfl (fun l hl => ?_) hs
    show RoombaCommand.speeds s.game.sent = Roomba.speeds (s.meant ++ [a]) ++ l
    rw [Roomba.speeds, List.filterMap_append]
    unfold Roomba.speeds at hd
    rw [hd, List.append_nil]
    exact hl
  leave s _ hs := h.same s _ rfl rfl (fun _ => id) hs

theorem check (q : Query) (hs : P s) :
    (telling.terms i).Safe (fun _ => P) (check w fuel i q) s :=
  (h.one (a := Roomba.ask q.sensor) (fun _ hl => hl.start) rfl).check hs

/-- A function that returns something of what it has read. -/
theorem checked {β : Type} (q : Query) (f : Option Word → β) (hs : P s) :
    (telling.terms i).Safe (fun _ => P) (do
      let data ← Remote.check w fuel i q
      return f data) s :=
  .bind ((h.check q hs).mono fun _ _ ht => .pure h.stable ht)

theorem sensors (hs : P s) : (telling.terms i).Safe (fun _ => P) (sensors w fuel i) s :=
  .bind ((h.checked .virtualWall _ hs).mono fun _ _ hs =>
    .bind ((h.checked .leftBumper _ hs).mono fun _ _ hs =>
    .bind ((h.checked .rightBumper _ hs).mono fun _ _ hs => .pure h.stable hs)))

/-- What the game tells a robot that was set up. -/
theorem say {c : RoombaCommand} (hc : c.Fits) (hs : P s) :
    (telling.terms i).Safe (fun _ => P) (say w fuel i c) s := by
  have htold : (set fun s => s.tell [c] : Code τ Unit).Acts Minds :=
    .write fun s => tells_minds s (by cases c <;> first | rfl | exact hc.elim)
  refine .bind ((h.minds htold hs).mono fun _ t ht => ?_)
  cases c with
  | init => exact hc.elim
  | safeMode => exact hc.elim
  | setSong number l =>
    refine Says.call (h.one ?_ rfl) ht
    exact fun m hm => hm.safe
  | playSong number =>
    refine Says.call (h.one ?_ rfl) ht
    exact fun m hm => ⟨hm.safe, hm.songs number hc⟩
  | leds mask colour intensity =>
    refine Says.call (h.one ?_ rfl) ht
    exact fun m hm => hm.safe
  | directDrive left right => exact hc.elim

theorem tell {cs : List RoombaCommand} (hcs : ∀ c ∈ cs, c.Fits) (hs : P s) :
    (telling.terms i).Safe (fun _ => P) (tell w fuel i cs) s := by
  induction cs generalizing s with
  | nil => exact .pure h.stable hs
  | cons c cs ih =>
    obtain ⟨hc, hcs⟩ := List.forall_mem_cons.1 hcs
    exact .bind ((h.say hc hs).mono fun _ _ ht => ih hcs ht)

end Stands

theorem minds_self (s : Remote τ) : s.Minds s := .of rfl

theorem minds_get (g : Game → α) : (get g : Code τ α).Acts Minds :=
  .read minds_self _

theorem moves_minds : Moves fun _ (p : Code τ _) => p.Acts Minds :=
  .of_acts minds_self fun _ _ _ _ _ _ => .of rfl

/-! ### The tasks, one by one -/

/-- `commandRoomba` is alive, and has sent all the speeds that the game chose. -/
structure Driving (s : Remote τ) : Prop where
  alive : .commandRoomba ∈ s.game.tasks
  driven : s.Driven []

theorem stable_driven (l : List (ℤ × ℤ)) :
    (telling.terms .commandRoomba).Stable fun s : Remote τ =>
      .commandRoomba ∈ s.game.tasks ∧ s.Driven l := by
  refine (stable_present .commandRoomba).and (stable_of (fun s t j hj h hs => h.driven hj l hs)
    fun s t h hs => ?_)
  obtain ⟨port, rfl⟩ := h
  exact hs

theorem stands_commandRoomba : Stands .commandRoomba fun s : Remote τ => s.Driving where
  stable s t hs hrely ht h :=
    have h' := stable_driven [] s t hs hrely ht ⟨h.alive, h.driven⟩
    ⟨h'.1, h'.2⟩
  alive _ hs := hs.alive
  talks _ hs := Or.inr (Or.inl hs.alive)
  same s t ht _ hd hs := ⟨by rw [ht]; exact hs.alive, hd [] hs.driven⟩

theorem stands_modeChange :
    Stands .modeChange fun s : Remote τ => .modeChange ∈ s.game.tasks where
  stable := stable_present .modeChange
  alive _ hs := hs
  talks _ hs := Or.inr (Or.inr hs)
  same s t ht _ _ hs := by rwa [ht]

/-- A game that is on stays on. -/
theorem stands_lightSensorRead : Stands .lightSensorRead fun s : Remote τ =>
    .lightSensorRead ∈ s.game.tasks ∧ s.game.gameOn = true where
  stable := (stable_present .lightSensorRead).and
    (stable_of (fun s t j _ h hs => h.on hs) fun s t h hs => by
      obtain ⟨port, rfl⟩ := h
      exact hs)
  alive _ hs := hs.1
  talks _ hs := Or.inl hs.2
  same s t ht hon _ hs := by rwa [ht, hon]

/-- A task that only minds its own business. -/
theorem safe_of_minds {p : Code τ α} (hp : p.Acts Minds) (hs : i ∈ s.game.tasks) :
    (telling.terms i).Safe (fun _ (t : Remote τ) => i ∈ t.game.tasks) p s :=
  .of_acts hp (stable_present i) (fun _ => trivial) (fun t u hinv ht _ hk =>
    ⟨hk.orderly hinv, hk.does ht, by rwa [hk.tasks]⟩) hs

theorem told_die (hs : .lightSensorRead ∈ s.game.tasks ∧ s.game.gameOn = true) :
    (telling.terms .lightSensorRead).Safe
      (fun _ t => .lightSensorRead ∈ t.game.tasks ∧ t.game.gameOn = true)
      (die w fuel .lightSensorRead) s := by
  have hdead : (set fun s => { s with dead := true } : Code τ Unit).Acts Minds :=
    .write fun _ => .of rfl
  refine .bind ((stands_lightSensorRead.minds (minds_get _) hs).mono fun dead t ht => ?_)
  split
  · refine .bind ((stands_lightSensorRead.minds hdead ht).mono fun _ u hu =>
      stands_lightSensorRead.tell ?_ hu)
    simp [RoombaCommand.Fits, deadSong]
  · exact .pure stands_lightSensorRead.stable ht

/-- A hit counts only in a game. -/
theorem told_struck (val : BitVec 16) (hs : .lightSensorRead ∈ s.game.tasks) :
    (telling.terms .lightSensorRead).Safe (fun hit t =>
      .lightSensorRead ∈ t.game.tasks ∧ (hit = true → t.game.gameOn = true)) (struck val) s := by
  have hstable : ∀ hit : Bool, (telling.terms .lightSensorRead).Stable fun t : Remote τ =>
      .lightSensorRead ∈ t.game.tasks ∧ (hit = true → t.game.gameOn = true) := by
    intro hit
    refine (stable_present .lightSensorRead).and (stable_of (fun s t j _ h hs hhit => ?_)
      fun s t h hs => ?_)
    · exact h.on (hs hhit)
    · obtain ⟨port, rfl⟩ := h
      exact hs
  refine .read (stable_present _) hs fun t hinv ht _ => ⟨(minds_self t).does ht, ?_⟩
  cases hon : t.game.gameOn with
  | false => exact .pure (hstable false) ⟨ht, Bool.false_ne_true.elim⟩
  | true =>
    have hlooks : (do
        let dead ← get Game.dead
        if dead then return false
        else get fun s => decide (val > s.lightAverage + lightThreshold) :
          Code τ Bool).Acts Minds := by
      refine .bind (minds_get _) fun dead => ?_
      split
      · exact .pure _
      · exact minds_get _
    exact (stands_lightSensorRead.minds hlooks ⟨ht, hon⟩).mono fun _ _ hu => ⟨hu.1, fun _ => hu.2⟩

theorem told_lightSensorRead {val : BitVec 16} (hs : .lightSensorRead ∈ s.game.tasks) :
    (telling.terms .lightSensorRead).Safe (fun _ _ => True) (lightSensorRead w fuel val) s := by
  have htrue : (telling.terms .lightSensorRead).Stable fun _ : Remote τ => True :=
    fun _ _ _ _ _ _ => trivial
  refine .bind ((told_struck val hs).mono fun hit t ht => ?_)
  cases hit with
  | true =>
    have hon := And.intro ht.1 (ht.2 rfl)
    have hhit : ∀ health : Byte, (.write fun s => { s with
        game := { s.game with health := health - 1 }, hits := s.hits + 1 } : Code τ Unit).Acts
        Minds := fun _ => .write fun _ => .of rfl
    refine .bind ((stands_lightSensorRead.minds (minds_get _) hon).mono fun health u hu => ?_)
    refine .bind ((stands_lightSensorRead.minds (hhit health) hu).mono fun _ v hv => ?_)
    refine .bind ((stands_lightSensorRead.minds (minds_get _) hv).mono fun health x hx => ?_)
    split
    · exact (told_die hx).mono fun _ _ _ => trivial
    · exact .pure htrue trivial
  | false =>
    have hmean : (do
        let lightAverage ← get Game.lightAverage
        set fun s => { s with
          lightAverage := BitVec.ofNat 16 ((val.toNat + lightAverage.toNat) / 2) } :
          Code τ Unit).Acts Minds :=
      .bind (minds_get _) fun _ => .write fun _ => .of rfl
    exact (safe_of_minds hmean ht.1).mono fun _ _ _ => trivial

theorem taskCreate_tasks (s : Game) (f : TaskFunction) :
    (s.taskCreate f).tasks = s.tasks ∨ (s.taskCreate f).tasks = s.tasks ++ [f] := by
  unfold Game.taskCreate
  split
  · exact Or.inr rfl
  · exact Or.inl rfl

theorem mem_taskCreate {s : Game} {f g : TaskFunction} (h : g ∈ s.tasks) :
    g ∈ (s.taskCreate f).tasks := by
  rcases taskCreate_tasks s f with heq | heq
  · rwa [heq]
  · rw [heq]
    exact List.mem_append_left _ h

theorem count_taskCreate {s : Game} {f g : TaskFunction} (h : f ≠ g) :
    (s.taskCreate f).tasks.count g = s.tasks.count g := by
  rcases taskCreate_tasks s f with heq | heq
  · rw [heq]
  · rw [heq, List.count_append, List.count_singleton, if_neg (by simpa using h), Nat.add_zero]

theorem driven_taskCreate {f : TaskFunction} {l : List (ℤ × ℤ)} (h : s.Driven l) :
    Driven { s with game := s.game.taskCreate f } l := by
  obtain ⟨tasks, heq⟩ := s.game.taskCreate_eq f
  rw [heq]
  exact h

/-- A game begins. -/
theorem told_startGame (hs : s.Driving) : (telling.terms .commandRoomba).Safe
    (fun _ t => t.Driving) (startGame w fuel .commandRoomba) s := by
  have hstands : Stands .commandRoomba fun s : Remote τ => s.Driving := stands_commandRoomba
  refine .bind (.mono (hstands.minds moves_minds.canStart hs) fun go t ht => ?_)
  split
  · refine .bind (.mono (hstands.tell (by simp [Game.loadSongs, RoombaCommand.Fits]) ht)
      fun _ t ht => ?_)
    -- from here on `lightSensorRead` can talk to the robot
    refine .bind (.mono (hstands.plays (.write fun s => ⟨⟨fun _ _ hf => hf, fun _ => rfl, rfl,
      rfl, rfl, rfl, rfl, fun _ => id⟩, fun hs => ⟨hs.alive, hs.driven⟩⟩) ht) fun _ t ht => ?_)
    refine .bind (.mono (hstands.minds (.write fun _ => .of rfl) ht) fun _ t ht => ?_)
    refine .bind (.mono (hstands.minds (.write fun _ => .of rfl) ht) fun _ t ht => ?_)
    refine .bind (.mono (hstands.minds (.write fun _ => .of rfl) ht) fun _ t ht => ?_)
    refine .bind (.mono (hstands.minds (.write fun _ => .of rfl) ht) fun _ t ht => ?_)
    refine .bind (.mono (hstands.tell (by simp [RoombaCommand.Fits, startSong]) ht)
      fun _ t ht => ?_)
    refine .bind (.mono (hstands.minds (minds_get _) ht) fun startedBefore t ht => ?_)
    split
    · refine .bind (.mono (hstands.plays (.write fun s => ⟨⟨fun _ _ hf => mem_taskCreate hf,
        (s.game.taskCreate_gameOn _).trans, count_taskCreate (by decide),
        count_taskCreate (by decide), rfl, rfl, rfl, fun _ => driven_taskCreate⟩,
        fun hs => ⟨mem_taskCreate hs.alive, driven_taskCreate hs.driven⟩⟩) ht) fun _ t ht => ?_)
      exact hstands.minds (.write fun _ => .of rfl) ht
    · exact .pure hstands.stable ht
  · exact .pure hstands.stable ht

/-- The speeds that the game chose are sent. -/
theorem says_drive {left right : ℤ} (hleft : -maxSpeed ≤ left ∧ left ≤ maxSpeed)
    (hright : -maxSpeed ≤ right ∧ right ≤ maxSpeed) : Says .commandRoomba
      (Call.directDrive (BitVec.ofInt 16 left) (BitVec.ofInt 16 right)).means
      (fun s : Remote τ => .commandRoomba ∈ s.game.tasks ∧ s.Driven [(left, right)])
      (fun s => s.Driving) fun s => s.Driving where
  stable := stable_driven _
  keeps := ⟨stands_commandRoomba.stable, fun s hs => ⟨hs.alive, Or.inr (Or.inr (Or.inl hs.alive))⟩,
    fun s t h hs => ⟨by rw [h.game]; exact hs.alive, h.driven hs.driven⟩⟩
  after := stands_commandRoomba.stable
  speaker s hs := ⟨hs.1, Or.inr (Or.inr (Or.inl hs.1))⟩
  provided s hinv hs _ := by
    refine hinv.provided.snoc ⟨(hinv.prepared (Or.inr (Or.inl hs.1))).safe, ?_, ?_⟩
    · rw [toInt_speed hright]
      exact hright
    · rw [toInt_speed hleft]
      exact hleft
  driven := by
    refine Or.inr ⟨rfl, fun s hs => ?_⟩
    have hsent : Roomba.speeds (Call.directDrive (BitVec.ofInt 16 left)
        (BitVec.ofInt 16 right)).means = [(left, right)] := by
      simp [Roomba.speeds, Call.means, toInt_speed hleft, toInt_speed hright]
    rw [hsent]
    exact hs.2
  enter s hs _ := by
    refine ⟨hs.1, ?_⟩
    have hdriven := hs.2
    show RoombaCommand.speeds s.game.sent = Roomba.speeds (s.meant ++ _) ++ []
    rw [Roomba.speeds, List.filterMap_append]
    simpa [Driven, Roomba.speeds, Call.means, toInt_speed hleft, toInt_speed hright] using hdriven
  leave s _ hs := ⟨hs.alive, hs.driven⟩

theorem told_drive (hs : s.Driving) : (telling.terms .commandRoomba).Safe
    (fun _ t => t.Driving) (drive w fuel) s := by
  have hstands : Stands .commandRoomba fun s : Remote τ => s.Driving := stands_commandRoomba
  refine .bind (.mono (hstands.minds (minds_get _) hs) fun move t ht => ?_)
  refine .write hstands.stable ht fun u hinv hu _ => ?_
  have htold : Driven { u with game := u.game.tell [.directDrive (roombaSpeed move.leftSpeed)
      (roombaSpeed move.rightSpeed)] }
      [(roombaSpeed move.leftSpeed, roombaSpeed move.rightSpeed)] := by
    have hdriven := hu.driven
    unfold Driven at hdriven ⊢
    show RoombaCommand.speeds (u.game.sent ++ [_]) = _
    rw [RoombaCommand.speeds, List.filterMap_append, ← RoombaCommand.speeds, hdriven,
      List.append_nil]
    rfl
  exact ⟨⟨hinv.decoded, hinv.provided, hinv.prepared, _, htold, le_refl 1⟩, ⟨hu.alive,
    fun _ _ hf => hf, id, fun _ => rfl, fun _ => Or.inl rfl,
    fun _ hq => absurd (Or.inr (Or.inl hu.alive)) hq, fun _ _ => ⟨rfl, rfl, rfl⟩,
    fun hne => absurd rfl hne⟩,
    (says_drive (roombaSpeed_mem _) (roombaSpeed_mem _)).call ⟨hu.alive, htold⟩⟩

theorem told_commandRoomba (hs : s.Driving) : (telling.terms .commandRoomba).Safe
    (fun _ t => t.Driving) (commandRoomba w fuel) s := by
  have hstands : Stands .commandRoomba fun s : Remote τ => s.Driving := stands_commandRoomba
  have hbutton : (telling.terms .commandRoomba).Safe (fun _ t => t.Driving)
      (checkButton w fuel) s := by
    refine .bind ((hstands.minds (minds_get _) hs).mono fun joy2SW t ht => ?_)
    split
    · refine .bind ((hstands.minds moves_minds.canStart ht).mono fun go u hu => ?_)
      split
      · exact told_startGame hu
      · exact .pure hstands.stable hu
    · exact .pure hstands.stable ht
  refine .bind (hbutton.mono fun _ t ht => .bind (.mono (.bind ?_) fun _ _ => told_drive))
  exact (hstands.sensors ht).mono fun r u hu => hstands.minds (moves_minds.nextMove r) hu

theorem told_modeChange (hs : .modeChange ∈ s.game.tasks) :
    (telling.terms .modeChange).Safe (fun _ _ => True) (modeChange w fuel) s := by
  have hstands : Stands .modeChange fun s : Remote τ => .modeChange ∈ s.game.tasks :=
    stands_modeChange
  have htrue : (telling.terms .modeChange).Stable fun _ : Remote τ => True :=
    fun _ _ _ _ _ _ => trivial
  have hmode : ∀ mode : Byte, (set fun s => { s with
      mode := if mode = freeMode then stayMode else freeMode } : Code τ Unit).Acts Minds :=
    fun _ => .write fun _ => .of rfl
  refine .bind ((hstands.minds (minds_get _) hs).mono fun dead t ht => ?_)
  split
  · refine .write (k := pure) hstands.stable ht fun u hinv hu _ => ?_
    have hplays : Plays .modeChange u { u with game := u.game.taskTerminate .modeChange } :=
      ⟨fun f hf hmem => (List.mem_erase_of_ne hf).2 hmem, id, List.count_erase_of_ne (by decide),
        List.count_erase_of_ne (by decide), rfl, rfl, rfl, fun _ => id⟩
    exact ⟨hplays.orderly hinv (hstands.talks u hu), hplays.does hu (hstands.talks u hu),
      .pure htrue trivial⟩
  · refine .bind ((hstands.minds (minds_get _) ht).mono fun mode u hu => ?_)
    refine .bind ((hstands.minds (hmode mode) hu).mono fun _ v hv => ?_)
    refine (hstands.say ?_ hv).mono fun _ _ _ => trivial
    simp [RoombaCommand.Fits, staySong]

/-! ### Setting up -/

/-- `create` is alive, and has not created `setupRoomba`. -/
structure Creating (s : Remote τ) : Prop where
  alive : s.game.tasks.count .create = 1
  before : .setupRoomba ∉ s.game.tasks
  quiet : s.Quiet

theorem stable_creating : (telling.terms .create).Stable fun s : Remote τ => s.Creating := by
  intro s t hs hrely ht h
  have halive : .create ∈ t.game.tasks :=
    stable_present .create s t hs hrely ht (List.count_pos_iff.1 (by rw [h.alive]; decide))
  obtain ⟨hcount, hbefore, hquiet⟩ := stable_idle_telling .create s t hs hrely ht
    (fun _ => ⟨h.alive, h.before, h.quiet⟩) halive
  exact ⟨hcount, hbefore, hquiet⟩

theorem talks_taskCreate {f : TaskFunction} (hf : f ≠ .commandRoomba ∧ f ≠ .modeChange)
    (h : ({ s with game := s.game.taskCreate f } : Remote τ).Talks) : s.Talks := by
  have hmem : ∀ g, g ≠ f → g ∈ (s.game.taskCreate f).tasks → g ∈ s.game.tasks := by
    intro g hg hmem
    rcases taskCreate_tasks s.game f with heq | heq
    · rwa [heq] at hmem
    · rw [heq] at hmem
      exact (List.mem_append.1 hmem).resolve_right fun h => hg (List.mem_singleton.1 h)
  rcases h with hon | h | h
  · exact Or.inl ((s.game.taskCreate_gameOn f).symm.trans hon)
  · exact Or.inr (Or.inl (hmem _ hf.1.symm h))
  · exact Or.inr (Or.inr (hmem _ hf.2.symm h))

/-- `create` creates a task. -/
theorem Creating.taskCreate {f : TaskFunction} (h : s.Creating) (hinv : s.Orderly)
    (hf : f ≠ .create ∧ f ≠ .commandRoomba ∧ f ≠ .modeChange) :
    ({ s with game := s.game.taskCreate f } : Remote τ).Orderly ∧
      Does .create s { s with game := s.game.taskCreate f } ∧
      (f ≠ .setupRoomba → Creating { s with game := s.game.taskCreate f }) := by
  have hcount : (s.game.taskCreate f).tasks.count .create = s.game.tasks.count .create :=
    count_taskCreate hf.1
  have htalks : ¬ ({ s with game := s.game.taskCreate f } : Remote τ).Talks :=
    fun ht => h.quiet.talks (talks_taskCreate hf.2 ht)
  have hdriven : ∀ l, s.Driven l → Driven { s with game := s.game.taskCreate f } l :=
    fun _ => driven_taskCreate
  obtain ⟨l, hl, hlen⟩ := hinv.driven
  refine ⟨⟨hinv.decoded, hinv.provided, fun ht => absurd ht htalks, l, hdriven l hl, hlen⟩,
    ⟨List.count_pos_iff.1 (by rw [h.alive]; decide), fun _ _ hg => mem_taskCreate hg,
    (s.game.taskCreate_gameOn f).trans, fun _ => hcount, fun _ => ?_,
    fun _ _ => ⟨htalks, rfl, rfl, rfl⟩,
    fun _ _ => ⟨rfl, rfl, rfl⟩, fun _ => hdriven⟩,
    fun hsetup => ⟨hcount.trans h.alive, ?_, htalks, h.quiet.meant, h.quiet.inside⟩⟩
  · by_cases hsetup : f = .setupRoomba
    · rcases taskCreate_tasks s.game f with heq | heq
      · exact Or.inl (congrArg (List.count _) heq)
      · refine Or.inr ⟨?_, h.quiet, rfl⟩
        show (s.game.taskCreate f).tasks.count .setupRoomba = 1
        rw [heq, hsetup, List.count_append, List.count_eq_zero_of_not_mem h.before]
        rfl
    · exact Or.inl (count_taskCreate hsetup)
  · show .setupRoomba ∉ (s.game.taskCreate f).tasks
    rw [← List.count_eq_zero, count_taskCreate hsetup, List.count_eq_zero]
    exact h.before

/-- A task that is there once is not there when it has ended itself. -/
theorem not_mem_taskTerminate {g : Game} {f : TaskFunction} (h : g.tasks.count f = 1) :
    f ∉ (g.taskTerminate f).tasks := by
  have hcount : (g.tasks.erase f).count f = g.tasks.count f - 1 := List.count_erase_self
  rw [← List.count_eq_zero]
  show (g.tasks.erase f).count f = 0
  omega

theorem talks_taskTerminate {f : TaskFunction}
    (h : ({ s with game := s.game.taskTerminate f } : Remote τ).Talks) : s.Talks := by
  rcases h with hon | h | h
  · exact Or.inl hon
  · exact Or.inr (Or.inl (List.mem_of_mem_erase h))
  · exact Or.inr (Or.inr (List.mem_of_mem_erase h))

theorem Orderly.taskTerminate (h : s.Orderly) (f : TaskFunction) :
    Orderly { s with game := s.game.taskTerminate f } :=
  ⟨h.decoded, h.provided, fun ht => h.prepared (talks_taskTerminate ht), h.driven⟩

theorem told_create (hs : s.Creating) : (telling.terms .create).Safe
    (fun _ => telling.idle .create) create s := by
  have hother : ∀ f, f ≠ .create ∧ f ≠ .commandRoomba ∧ f ≠ .modeChange → f ≠ .setupRoomba → ∀ t,
      t.Creating → (telling.terms .create).Safe (fun _ (t : Remote τ) => t.Creating)
        (set fun s => s.taskCreate f) t := by
    intro f hf hsetup t ht
    refine .write (k := pure) stable_creating ht fun u hinv hu _ => ?_
    obtain ⟨hinv', hdoes, hcreating⟩ := hu.taskCreate hinv hf
    exact ⟨hinv', hdoes, .pure stable_creating (hcreating hsetup)⟩
  refine .bind (.mono (hother .updateArm (by decide) (by decide) s hs) fun _ s hs => ?_)
  refine .bind (.mono (hother .tickArm (by decide) (by decide) s hs) fun _ s hs => ?_)
  refine .bind (.mono (hother .rxData (by decide) (by decide) s hs) fun _ s hs => ?_)
  refine .bind (.mono (hother .lightSensorRead (by decide) (by decide) s hs) fun _ s hs => ?_)
  -- from here on `setupRoomba` can run
  have honce : (telling.terms .create).Stable fun t : Remote τ =>
      t.game.tasks.count .create = 1 := by
    refine stable_of (fun s t j hj h hs => (h.create hj).trans hs) fun s t h hs => ?_
    obtain ⟨port, rfl⟩ := h
    exact hs
  refine .write stable_creating hs fun t hinv ht _ => ?_
  have hf : TaskFunction.setupRoomba ≠ .create ∧ TaskFunction.setupRoomba ≠ .commandRoomba ∧
      TaskFunction.setupRoomba ≠ .modeChange := by decide
  obtain ⟨hinv', hdoes, -⟩ := ht.taskCreate hinv hf
  refine ⟨hinv', hdoes, .write (k := pure) honce ((count_taskCreate (by decide)).trans ht.alive)
    fun u hinv hu _ => ⟨hinv.taskTerminate _, ⟨List.count_pos_iff.1 (by rw [hu]; decide),
      fun f hf hmem => (List.mem_erase_of_ne hf).2 hmem, id, fun hne => absurd rfl hne,
      fun _ => Or.inl (List.count_erase_of_ne (by decide)), fun _ hq =>
      ⟨fun ht => hq (talks_taskTerminate ht), rfl, rfl, rfl⟩, fun _ _ => ⟨rfl, rfl, rfl⟩,
      fun _ _ => id⟩,
      .pure (stable_idle_telling .create) fun hmem => absurd hmem (not_mem_taskTerminate hu)⟩⟩

/-- The setup task is alive and nobody else can talk to the robot; `M` holds of what was said. -/
structure Setting (M : List Action → Prop) (l : List TaskFunction) (s : Remote τ) : Prop where
  alive : s.game.tasks.count .setupRoomba = 1
  talks : ¬ s.Talks
  meant : M s.meant
  inside : s.inside = l

variable {M M' : List Action → Prop}

theorem stable_setting (M : List Action → Prop) (l : List TaskFunction) :
    (telling.terms .setupRoomba).Stable fun s : Remote τ => Setting M l s := by
  refine stable_of (fun s t j hj h hs => ?_) fun s t h hs => ?_
  · obtain ⟨htalks, -, hmeant, hinside⟩ := h.quiet hj hs.talks
    refine ⟨?_, htalks, ?_, hinside.trans hs.inside⟩
    · rcases h.setup hj with hsame | ⟨hone, -, -⟩
      · exact hsame.trans hs.alive
      · exact hone
    · rw [hmeant]
      exact hs.meant
  · obtain ⟨port, rfl⟩ := h
    exact ⟨hs.alive, hs.talks, hs.meant, hs.inside⟩

theorem Setting.mem {l : List TaskFunction} (h : Setting M l s) :
    .setupRoomba ∈ s.game.tasks :=
  List.count_pos_iff.1 (by rw [h.alive]; decide)

theorem Setting.sends {l : List TaskFunction} (hs : Setting M l s) (h : s.Sends t) :
    Setting M l t := by
  refine ⟨?_, ?_, ?_, h.inside.trans hs.inside⟩
  · rw [h.game]
    exact hs.alive
  · rw [Talks, h.game]
    exact hs.talks
  · rw [h.meant]
    exact hs.meant

/-- What the setup task says is right where it says it. -/
theorem says_setting {a : Action} (ha : ∀ m, M m → a.After m) (hM : ∀ m, M m → M' (m ++ [a]))
    (hd : Roomba.speeds [a] = []) :
    Says .setupRoomba [a] (fun s : Remote τ => Setting M [] s)
      (fun s => Setting M' [.setupRoomba] s) (fun s => Setting M' [] s) where
  stable := stable_setting M []
  keeps := ⟨stable_setting M' _, fun _ hs => ⟨hs.mem, Or.inl rfl⟩, fun _ _ h hs => hs.sends h⟩
  after := stable_setting M' []
  speaker _ hs := ⟨hs.mem, Or.inl rfl⟩
  provided _ hinv hs _ := hinv.provided.snoc (ha _ hs.meant)
  driven := Or.inl hd
  enter _ hs _ := ⟨hs.alive, hs.talks, hM _ hs.meant, rfl⟩
  leave _ _ hs := ⟨hs.alive, hs.talks, hs.meant, rfl⟩

theorem setting_startSerial (baud : BitVec 32) (hs : Setting M [] s) :
    (telling.terms .setupRoomba).Safe (fun _ t => Setting M [] t)
      ((Serial.startSerial baud).on line) s := by
  have hacts : ((Serial.startSerial baud).on line).Acts fun s t : Remote τ =>
      s.Sends t ∧ t.serial.line = s.serial.line :=
    .on (acts_atPort _) fun s x hx => ⟨⟨rfl, rfl, rfl⟩, hx⟩
  refine .of_acts hacts (stable_setting M []) (fun _ => trivial) (fun t u hinv ht _ hk => ?_) hs
  obtain ⟨hsends, hline⟩ := hk
  refine ⟨⟨?_, ?_, ?_, ?_⟩, hsends.does ⟨ht.mem, Or.inl rfl⟩ (Or.inr ht.inside), ht.sends hsends⟩
  · rw [hline, hsends.meant, hsends.inside]
    exact hinv.decoded
  · rw [hsends.meant]
    exact hinv.provided
  · exact fun htalks => absurd htalks (ht.sends hsends).talks
  · obtain ⟨l, hl, hlen⟩ := hinv.driven
    exact ⟨l, hsends.driven hl, hlen⟩

theorem setting_init (hs : Setting (fun m => m = []) [] s) :
    (telling.terms .setupRoomba).Safe (fun _ t => Setting (fun m => .start ∈ m) [] t)
      (init w fuel .setupRoomba) s := by
  have hcheck : ∀ q (t : Remote τ), Setting (fun m => .start ∈ m) [] t →
      (telling.terms .setupRoomba).Safe (fun _ t => Setting (fun m => .start ∈ m) [] t)
        (check w fuel .setupRoomba q) t := by
    intro q t ht
    have hafter : ∀ m : List Action, .start ∈ m → (Roomba.ask q.sensor).After m := fun _ hm => hm
    have hkept : ∀ m : List Action, .start ∈ m → .start ∈ m ++ [Roomba.ask q.sensor] :=
      fun _ hm => List.mem_append_left _ hm
    exact (says_setting hafter hkept rfl).check ht
  refine .bind (.mono (setting_startSerial _ hs) fun _ s hs => ?_)
  refine .bind (.mono ((says_setting (fun _ hm => hm) (fun m hm => ?_) rfl).command rfl hs)
    fun _ s (hs : Setting (fun m => m = [.start]) [] s) => ?_)
  · rw [hm, List.nil_append]
  refine .bind (.mono ((says_setting (fun _ hm => hm) (fun m hm => ?_) rfl).command rfl hs)
    fun _ s (hs : Setting (fun m => .start ∈ m) [] s) => ?_)
  · rw [hm]
    exact List.mem_cons_self
  refine .bind (.mono (setting_startSerial _ hs) fun _ s hs => ?_)
  refine .bind (.mono (hcheck _ s hs) fun mode s hs => ?_)
  split
  · refine .bind (.mono (hcheck _ s hs) fun power s hs => ?_)
    split
    · exact .bind (.mono (hcheck _ s hs) fun _ s hs => .pure (stable_setting _ _) hs)
    · exact .pure (stable_setting _ _) hs
  · exact .pure (stable_setting _ _) hs

/-- What the setup task says before it does so. -/
theorem setting_tell {c : RoombaCommand} {cs : List RoombaCommand} {R : Unit → Remote τ → Prop}
    (hfunction : ∀ t, Setting M [] t → (telling.terms .setupRoomba).Safe
      (fun _ t => Setting M' [] t) (function w fuel .setupRoomba c) t)
    (hc : RoombaCommand.speeds [c] = []) (hrest : ∀ t, Setting M' [] t →
      (telling.terms .setupRoomba).Safe R (tell w fuel .setupRoomba cs) t) (hs : Setting M [] s) :
    (telling.terms .setupRoomba).Safe R (tell w fuel .setupRoomba (c :: cs)) s := by
  have htold : (telling.terms .setupRoomba).Safe (fun _ (t : Remote τ) => Setting M [] t)
      (set fun s => s.tell [c]) s := by
    refine .write (k := pure) (stable_setting M []) hs fun t hinv ht _ => ?_
    have hminds := tells_minds t hc
    exact ⟨hminds.orderly hinv, hminds.does ht.mem, .pure (stable_setting M [])
      ⟨ht.alive, ht.talks, ht.meant, ht.inside⟩⟩
  exact .bind (.mono (.bind (.mono htold fun _ => hfunction)) fun _ => hrest)

theorem setting_songs {ns : List Byte} {number : Byte} {notes : List (Byte × Byte)}
    (hs : Setting (Loaded ns) [] s) : (telling.terms .setupRoomba).Safe
      (fun _ t => Setting (Loaded (number :: ns)) [] t)
      (function w fuel .setupRoomba (.setSong number notes)) s :=
  Says.call (says_setting (fun _ hm => hm.safe) (fun _ hm => hm.song _ _) rfl) hs

theorem told_setupRoomba (hs : Setting (fun m => m = []) [] s) :
    (telling.terms .setupRoomba).Safe (fun _ => telling.idle .setupRoomba)
      (setupRoomba w fuel) s := by
  have hsafe : ∀ t : Remote τ, Setting (fun m => .start ∈ m) [] t →
      (telling.terms .setupRoomba).Safe (fun _ t => Setting (Loaded []) [] t)
        (function w fuel .setupRoomba .safeMode) t := fun t ht =>
    Says.call (says_setting (a := .safe) (fun _ hm => hm) (fun _ hm => ⟨List.mem_append_left _ hm,
      List.mem_append_right _ (List.mem_singleton_self _), fun _ hn => absurd hn (by simp)⟩) rfl) ht
  have hplay : ∀ t : Remote τ, Setting (Loaded [startSong, freeSong, staySong, deadSong]) [] t →
      (telling.terms .setupRoomba).Safe (fun _ t => Setting Prepared [] t)
        (function w fuel .setupRoomba (.playSong freeSong)) t := fun t ht =>
    Says.call (says_setting (a := .play freeSong) (fun _ hm => ⟨hm.safe, hm.songs _ (by simp)⟩)
      (fun _ hm => (hm.append _).mono (by simp)) rfl) ht
  refine .bind (.mono (Q := fun _ t => Setting Prepared [] t) ?_ fun _ t ht => ?_)
  · refine setting_tell (fun _ => setting_init) rfl (fun _ => setting_tell hsafe rfl ?_) hs
    refine fun _ => setting_tell (fun _ => setting_songs) rfl fun _ => ?_
    refine setting_tell (fun _ => setting_songs) rfl fun _ => ?_
    refine setting_tell (fun _ => setting_songs) rfl fun _ => ?_
    refine setting_tell (fun _ => setting_songs) rfl fun _ => setting_tell hplay rfl fun _ ht => ?_
    exact .pure (stable_setting _ _) ht
  · have honce : (telling.terms .setupRoomba).Stable fun t : Remote τ =>
        t.game.tasks.count .setupRoomba = 1 := by
      refine stable_of (fun s t j hj h hs => ?_) fun s t h hs => ?_
      · rcases h.setup hj with hsame | ⟨hone, -, -⟩
        · exact hsame.trans hs
        · exact hone
      · obtain ⟨port, rfl⟩ := h
        exact hs
    refine .write (stable_setting _ _) ht fun u hinv hu _ => ?_
    have hdriven : ∀ l, u.Driven l → Driven { u with game := u.game.taskCreate .commandRoomba } l :=
      fun _ => driven_taskCreate
    obtain ⟨l, hl, hlen⟩ := hinv.driven
    refine ⟨⟨hinv.decoded, hinv.provided, fun _ => hu.meant, l, hdriven l hl, hlen⟩,
      ⟨hu.mem, fun _ _ => mem_taskCreate, (u.game.taskCreate_gameOn _).trans,
      fun _ => count_taskCreate (by decide), fun hne => absurd rfl hne, fun hne => absurd rfl hne,
      fun _ _ => ⟨rfl, rfl, rfl⟩, fun _ => hdriven⟩, ?_⟩
    have hcount : (u.game.taskCreate .commandRoomba).tasks.count .setupRoomba = 1 :=
      (count_taskCreate (by decide)).trans hu.alive
    refine .write (k := pure) honce hcount fun v hinv hv _ => ?_
    exact ⟨hinv.taskTerminate _, ⟨List.count_pos_iff.1 (by rw [hv]; decide),
      fun f hf hmem => (List.mem_erase_of_ne hf).2 hmem, id,
      fun _ => List.count_erase_of_ne (by decide), fun hne => absurd rfl hne,
      fun hne => absurd rfl hne, fun _ _ => ⟨rfl, rfl, rfl⟩, fun _ _ => id⟩,
      .pure (stable_idle_telling .setupRoomba) fun hmem => absurd hmem (not_mem_taskTerminate hv)⟩

/-! ### Every interleaving -/

/-- **Each task by itself.** -/
theorem keeps_telling (w : Peer τ) (fuel : ℕ) : (system w fuel).Keeps telling where
  stable := stable_idle_telling
  start a s _ _ hready hidle := by
    have halive : a.task ∈ s.game.tasks := by simpa [system] using hready
    cases a with
    | create =>
      obtain ⟨hcount, hbefore, hquiet⟩ := hidle halive
      exact told_create ⟨hcount, hbefore, hquiet⟩
    | setupRoomba =>
      obtain ⟨hcount, hquiet⟩ := hidle halive
      exact told_setupRoomba ⟨hcount, hquiet.talks, hquiet.meant, hquiet.inside⟩
    | tickArm => exact (safe_of_minds moves_minds.tickArm halive).mono fun _ _ _ => trivial
    | rxData p => exact (safe_of_minds (moves_minds.rxData p) halive).mono fun _ _ _ => trivial
    | lightSensorRead val => exact told_lightSensorRead halive
    | commandRoomba => exact (told_commandRoomba ⟨halive, hidle⟩).mono fun _ _ ht => ht.driven
    | modeChange => exact told_modeChange halive

theorem hears_noise {bs : List Byte} (h : noise bs s = some t) : s.Hears t := by
  obtain ⟨-, port, -, rfl⟩ := noise_eq h
  exact ⟨port, rfl⟩

/-- A step in which a command is begun only when no other one is under way. -/
def Alternating (w : Peer τ) (fuel : ℕ) (u : Tasks τ) (e : Event) (u' : Tasks τ) : Prop :=
  (system w fuel).Step u e u' ∧ Alone u.shared u'.shared

theorem quiet_initial (move : Move) (peer : τ) : Quiet (initial move peer).shared := by
  refine ⟨?_, rfl, rfl⟩
  simp [Talks, initial]

theorem telling_initial (w : Peer τ) (fuel : ℕ) (move : Move) (peer : τ) :
    telling.Holds (initial move peer) := by
  have hquiet := quiet_initial move peer
  refine (keeps_telling w fuel).initial ?_ fun i => ?_
  · exact ⟨⟨[], rfl, fun _ => rfl⟩, .nil, fun ht => absurd ht hquiet.talks, [], rfl, Nat.zero_le _⟩
  · cases i with
    | create => exact fun _ => ⟨rfl, by simp, hquiet⟩
    | setupRoomba => exact fun hmem => absurd hmem (by simp)
    | commandRoomba => rfl
    | _ => exact trivial

theorem Alternating.allows {u u' : Tasks τ} {e : Event} (h : Alternating w fuel u e u')
    (hu : telling.Holds u) : telling.Allows u e u' := by
  cases e with
  | start a => exact trivial
  | act i => exact h.2
  | outside bs =>
    obtain ⟨t, ht, heq⟩ := Option.map_eq_some_iff.1 h.1
    obtain rfl := heq
    exact ⟨hears_noise ht, (hears_noise ht).orderly hu.inv⟩

/-- What was sent are commands, but for what is missing of the last one, each of them comes after
those that it needs, and the robot is driven as the game chose, but for the last speeds. -/
structure Told (u : Tasks τ) : Prop where
  decoded : ∃ bs, Streaming.decode Roomba.complete [] (u.shared.serial.line ++ bs) =
    (u.shared.meant, []) ∧ (u.shared.inside = [] → bs = [])
  provided : Provided u.shared.meant
  driven : ∃ l, RoombaCommand.speeds u.shared.game.sent = Roomba.speeds u.shared.meant ++ l ∧
    l.length ≤ 1 ∧ (u.code .commandRoomba = .done () → l = [])

/-- **What the robot is told**, however the tasks are preempted, if a command is begun only when no
other one is under way. -/
theorem told_in_order {move : Move} {peer : τ} {es : List Event} {u : Tasks τ}
    (hrun : Run (Alternating w fuel) (initial move peer) es u) : Told u := by
  have hholds : telling.Holds u := (keeps_telling w fuel).holds (telling_initial w fuel move peer)
    (fun v e v' hv hs => ⟨hs.1, hs.allows hv⟩) hrun
  obtain ⟨l, hl, hlen⟩ := hholds.inv.driven
  refine ⟨hholds.inv.decoded, hholds.inv.provided, l, hl, hlen, fun hdone => ?_⟩
  have hall : u.shared.Driven [] := hholds.idle hdone
  exact List.append_cancel_left (hl.symm.trans hall)

/-- `commandRoomba` is preempted between its requests and in the middle of its last command. -/
def interrupted : List Event :=
  opening 152 ++ activation .commandRoomba 30 ++ activation .modeChange 8 ++
    List.replicate 13 (.act .commandRoomba) ++ activation (.lightSensorRead 100) 6 ++
    List.replicate 3 (.act .commandRoomba)

theorem told_in_order_interrupted :
    ∃ u, Run (Alternating respondent 33) (initial .stop {}) interrupted u ∧
      u.shared.inside = [] ∧ Told u := by
  have hex : ((Run.exec (fun u e => ((system respondent 33).advance u e).filter fun u' =>
      Alone u.shared u'.shared) (initial .stop {}) interrupted).filter fun u =>
        u.shared.inside = []).isSome = true := by decide +kernel
  obtain ⟨u, hu⟩ := Option.isSome_iff_exists.1 hex
  obtain ⟨hrun, hinside⟩ := Option.filter_eq_some_iff.1 hu
  have hrun : Run (Alternating respondent 33) (initial .stop {}) interrupted u := by
    refine (Run.of_exec hrun).mono fun v e v' hstep => ?_
    obtain ⟨hadvance, halone⟩ := Option.filter_eq_some_iff.1 hstep
    exact ⟨hadvance, of_decide_eq_true halone⟩
  exact ⟨u, hrun, of_decide_eq_true hinside, told_in_order hrun⟩

/-- A song is played in the middle of `direct_drive`: its bytes become a part of that command. -/
theorem torn : ∃ u ∈ Run.exec (system respondent 33).advance (initial .stop {})
      (opening 152 ++ activation .commandRoomba 44 ++ activation .modeChange 8 ++
        List.replicate 2 (.act .commandRoomba)),
    u.shared.inside = [] ∧
      Streaming.decode Roomba.complete [] u.shared.serial.line ≠ (u.shared.meant, []) := by
  decide +kernel

end Remote

end RoombaRtos
