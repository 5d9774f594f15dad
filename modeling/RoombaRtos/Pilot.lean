import RoombaRtos.Commands

/-!
# What the game sees

The tasks of the remote station at the serial line of a robot that answers in time.

* `Serial.exec_issue`, `Serial.exec_checkSensor` — what is not interrupted is done by the port;
* `Remote.Sees` — programs that read what is there, in whatever order the tasks run;
* `Remote.sees` — as long as a task has the line for itself while it uses it, no function of the
  port aborts or goes on for ever, and what is read is what the sensors said;
* `Remote.blinded` — otherwise a request can get lost.
-/

namespace RoombaRtos

open Lockstep Interleaving RingBuffer

namespace Roomba

variable {τ α : Type} {w : Peer τ} {fuel : ℕ}

namespace Port

variable {s : Port τ} {l : List Byte}

/-- The port can be used, or nothing has been done with the UART. -/
def Wired (s : Port τ) : Prop :=
  (∃ l, s.Holds l) ∨ s.uart = Uart.reset ∧ ∃ k, chanOk s.uartChannel = some k

theorem Holds.uartInit (h : s.Holds l) (baudRate : BitVec 32) :
    ∃ u', s.uart.uartInit s.uartChannel baudRate = .ok u' ∧ Holds { s with uart := u' } l := by
  obtain ⟨k, qs, hk, hkeeps, hl⟩ := h.keeps
  obtain ⟨u', hcall, h'⟩ := hkeeps.call hk rfl (.init baudRate)
  obtain ⟨u₁, hu₁, hu'⟩ := bind_ok hcall
  obtain rfl : u₁ = u' := congrArg Prod.snd (Except.ok.inj hu')
  refine ⟨u₁, hu₁, k, _, hk, h', ?_⟩
  rw [Function.update_self]
  exact hl

/-- `start_serial` makes the port usable. -/
theorem Wired.uartInit (h : s.Wired) {baudRate : BitVec 32} (hb : baudRate ≠ 0) :
    ∃ u' l, s.uart.uartInit s.uartChannel baudRate = .ok u' ∧ Holds { s with uart := u' } l := by
  rcases h with ⟨l, hl⟩ | ⟨hreset, k, hk⟩
  · obtain ⟨u', hu', h'⟩ := hl.uartInit baudRate
    exact ⟨u', l, hu', h'⟩
  · have hu' : Uart.reset.uartInit s.uartChannel baudRate = .ok (Function.update Uart.reset k
        { Uart.reset k with initialized := true, currentBaud := baudRate }) := by
      simp only [Uart.uartInit, hk]
      exact if_neg hb
    rw [hreset]
    refine ⟨_, [], hu', holds_of_fresh (k := k) (Uart.reset_fresh.uartInit hu') hk ?_⟩
    show (Function.update Uart.reset k _ k).initialized = true
    rw [Function.update_self]

/-- With the receive interrupt on, the port can be used. -/
theorem Wired.holds (h : s.Wired) (hon : s.listens = true) : ∃ l, s.Holds l := by
  rcases h with hl | ⟨hreset, k, hk⟩
  · exact hl
  · rw [listens, hk, hreset] at hon
    cases hon

end Port

/-! ### Without interruption -/

namespace Serial

variable {x : Serial τ} {s' : Port τ}

theorem exec_atPort {f : Port τ → Except Halt (α × Port τ)} {a : α} (h : f x.port = .ok (a, s')) :
    (atPort f).exec x = .ok (a, ⟨s', x.line⟩) := by
  rw [atPort, Prog.exec_call, h]
  rfl

theorem exec_flushData (h : x.port.flushData w fuel = .ok s') :
    (flushData w fuel).exec x = .ok ((), ⟨s', x.line⟩) := by
  induction fuel generalizing x with
  | zero => cases h
  | succ fuel ih =>
    obtain ⟨⟨byte, s₁⟩, hs₁, hnext⟩ := bind_ok h
    rw [flushData, Prog.exec_bind, tryRead, exec_atPort hs₁, ok_bind]
    dsimp only at hnext ⊢
    cases byte with
    | none =>
      obtain rfl := Except.ok.inj hnext
      rfl
    | some b => exact ih (x := ⟨s₁, x.line⟩) hnext

/-- The bytes of a command are sent one by one. -/
theorem exec_issue {bs : List Byte} (h : x.port.issue w bs = .ok s') :
    (issue w bs).exec x = .ok ((), ⟨s', x.line ++ bs⟩) := by
  induction bs generalizing x with
  | nil =>
    obtain rfl := Except.ok.inj h
    rw [List.append_nil]
    rfl
  | cons b bs ih =>
    obtain ⟨s₁, hs₁, hnext⟩ := bind_ok h
    have hrest := ih (x := ⟨s₁, x.line ++ [b]⟩) hnext
    rw [List.append_assoc] at hrest
    rw [issue, Prog.exec_bind, issueCmd, Prog.exec_call, hs₁]
    exact hrest

theorem exec_answer {nbytes : Byte} {data : Option Word}
    (h : (do
      let (databyteHigh, s) ← x.port.tryRead w
      match databyteHigh with
      | none => return (none, s)
      | some high =>
          if nbytes > 1 then
            let (databyteLow, s) ← s.tryRead w
            return (databyteLow.map (to16bit high), s)
          else return (some (high.setWidth 16), s)) = Except.ok (data, s')) :
    (answer w nbytes).exec x = .ok (data, ⟨s', x.line⟩) := by
  obtain ⟨⟨high, s₁⟩, hs₁, hnext⟩ := bind_ok h
  rw [answer, Prog.exec_bind, tryRead, exec_atPort hs₁, ok_bind]
  dsimp only at hnext ⊢
  cases high with
  | none =>
    obtain ⟨rfl, rfl⟩ := Prod.mk.inj (Except.ok.inj hnext)
    rfl
  | some high =>
    dsimp only at hnext ⊢
    split_ifs at hnext ⊢
    · obtain ⟨⟨low, s₂⟩, hs₂, hdone⟩ := bind_ok hnext
      obtain ⟨rfl, rfl⟩ := Prod.mk.inj (Except.ok.inj hdone)
      rw [Prog.exec_bind, exec_atPort (x := ⟨s₁, x.line⟩) hs₂]
      rfl
    · obtain ⟨rfl, rfl⟩ := Prod.mk.inj (Except.ok.inj hnext)
      rfl

/-- A check that is not interrupted. -/
theorem exec_checkSensor {sensor : OiSensorArgs} {nbytes : Byte} {data : Option Word}
    (h : x.port.checkSensor w fuel sensor nbytes = .ok (data, s')) :
    (checkSensor w fuel sensor nbytes).exec x =
      .ok (data, ⟨s', x.line ++ Roomba.checkSensor sensor⟩) := by
  obtain ⟨s₁, hs₁, h⟩ := bind_ok h
  obtain ⟨s₂, hs₂, h⟩ := bind_ok h
  obtain ⟨s₃, hs₃, h⟩ := bind_ok h
  obtain ⟨s₄, hs₄, h⟩ := bind_ok h
  have hissue : s₁.issue w (Roomba.checkSensor sensor) = .ok s₃ := by
    show (s₁.issueCmd w _ >>= fun s => s.issueCmd w _ >>= pure) = _
    rw [hs₂, ok_bind, hs₃]
    rfl
  have hdelay : (do
      let p ← s₃.arrive (w.wait s₃.peer)
      return ((), p) : Except Halt (Unit × Port τ)) = .ok ((), s₄) := by
    rw [hs₄]
    rfl
  rw [checkSensor, Prog.exec_bind, exec_flushData hs₁, ok_bind, Prog.exec_bind,
    exec_issue (x := ⟨s₁, x.line⟩) hissue, ok_bind, Prog.exec_bind, delay,
    exec_atPort (x := ⟨s₃, x.line ++ Roomba.checkSensor sensor⟩) hdelay, ok_bind]
  exact exec_answer (x := ⟨s₄, x.line ++ Roomba.checkSensor sensor⟩) h

end Serial

end Roomba

open Roomba (Serial Query Reading InTime Action Call)

namespace Remote

variable {τ α : Type} {w : Peer τ} {fuel : ℕ} {readings : ℕ → Roomba.Readings} {Idle : ℕ → τ → Prop}
  {i : TaskFunction} {s t : Remote τ}

/-- Each answer is what the sensors said when they were asked. -/
def Right (readings : ℕ → Roomba.Readings) (l : List (Query × Reading)) : Prop :=
  ∀ (n : ℕ) (q : Query) (r : Reading), l[n]? = some (q, r) → r = q.truth (readings n)

theorem Right.append {l l' : List (Query × Reading)} (h : Right readings l)
    (h' : Right (fun n => readings (l.length + n)) l') : Right readings (l ++ l') := by
  intro n q r hn
  by_cases hlt : n < l.length
  · rw [List.getElem?_append_left hlt] at hn
    exact h n q r hn
  · rw [List.getElem?_append_right (by omega)] at hn
    have hright : r = q.truth (readings (l.length + (n - l.length))) := h' _ q r hn
    rwa [Nat.add_sub_of_le (by omega)] at hright

/-- The port can be used as soon as a task can talk to the robot, and no answer is outstanding when
nobody uses it. -/
structure Sound (readings : ℕ → Roomba.Readings) (Idle : ℕ → τ → Prop) (s : Remote τ) : Prop where
  orderly : s.Orderly
  wired : s.inside = [] → s.serial.port.Wired
  idle : s.inside = [] → Idle s.answers.length s.serial.port.peer
  ready : s.inside = [] → s.Talks → ∃ l, s.serial.port.Holds l
  right : Right readings s.answers

/-- The terms on which the tasks read what is there.  What they do to the line is known. -/
def seeing (readings : ℕ → Roomba.Readings) (Idle : ℕ → τ → Prop) :
    Accord TaskFunction Halt (Remote τ) Activation where
  inv := Sound readings Idle
  guar i s t := Does i s t ∧ (i ∉ s.inside → s.inside ≠ [] → t.answers = s.answers)
  may i s t := Alone s t ∧ Does i s t ∧ t.Orderly
  outside s t := s.inside = [] ∧ ∃ bs, noise bs s = some t
  idle _ _ := True
  starts a s := a = .setupRoomba → s.Quiet
  halts _ := False

/-- Nobody else can talk to the robot. -/
structure Waiting (s : Remote τ) : Prop where
  talks : ¬ s.Talks
  inside : s.inside = []

/-- Only the setup task uses the line, and the port can be used. -/
structure Calm (s : Remote τ) : Prop extends Waiting s where
  holds : ∃ l, s.serial.port.Holds l

/-- What a task knows when it begins to use the line. -/
def Ready (i : TaskFunction) (s : Remote τ) : Prop := i = .setupRoomba → s.Calm

theorem noise_holds {bs : List Byte} (h : noise bs s = some t) (hwired : s.serial.port.Wired) :
    (∃ l, t.serial.port.Holds l) ∧ t.serial.port.peer = s.serial.port.peer ∧
      t.game = s.game ∧ t.inside = s.inside ∧ t.answers = s.answers := by
  obtain ⟨hlistens, port, hport, rfl⟩ := noise_eq h
  obtain ⟨l, hl⟩ := hwired.holds hlistens
  obtain ⟨port', hport', hholds, hpeer⟩ := hl.arrive (bs, s.serial.port.peer)
  obtain rfl : port' = port := Except.ok.inj (hport'.symm.trans hport)
  exact ⟨⟨_, hholds⟩, hpeer, rfl, rfl, rfl⟩

/-- Bytes that nobody waits for. -/
theorem Sound.noise {bs : List Byte} (hs : Sound readings Idle s) (h : noise bs s = some t)
    (hin : s.inside = []) : Sound readings Idle t := by
  obtain ⟨hholds, hpeer, hgame, hinside, hanswers⟩ := noise_holds h (hs.wired hin)
  refine ⟨(hears_noise h).orderly hs.orderly, fun _ => Or.inl hholds, fun _ => ?_,
    fun _ _ => hholds, ?_⟩
  · rw [hpeer, hanswers]
    exact hs.idle hin
  · rw [hanswers]
    exact hs.right

theorem stable_seeing {P : Remote τ → Prop}
    (hdoes : ∀ s t j, j ≠ i → Does j s t → P s → P t)
    (hnoise : ∀ s t bs, Sound readings Idle s → s.inside = [] → noise bs s = some t → P s → P t) :
    ((seeing readings Idle).terms i).Stable P := by
  intro s t hinv hrely _ hs
  rcases hrely with ⟨j, hj, h, -⟩ | ⟨hin, bs, h⟩
  · exact hdoes s t j hj h hs
  · exact hnoise s t bs hinv hin h hs

theorem stable_waiting :
    ((seeing readings Idle).terms .setupRoomba).Stable fun s : Remote τ => s.Waiting := by
  refine stable_seeing (fun s t j hj h hs => ?_) fun s t bs _ _ h hs => ?_
  · obtain ⟨htalks, -, -, hinside⟩ := h.quiet hj hs.talks
    exact ⟨htalks, hinside.trans hs.inside⟩
  · obtain ⟨port, rfl⟩ := hears_noise h
    exact ⟨hs.talks, hs.inside⟩

theorem stable_ready (i : TaskFunction) :
    ((seeing readings Idle).terms i).Stable fun s : Remote τ => Ready i s := by
  refine stable_seeing (fun s t j hj h hs hi => ?_) fun s t bs hinv hin h hs hi => ?_
  · obtain ⟨htalks, hserial, -, hinside⟩ := h.quiet (hi ▸ hj) (hs hi).talks
    refine ⟨⟨htalks, hinside.trans (hs hi).inside⟩, ?_⟩
    rw [hserial]
    exact (hs hi).holds
  · obtain ⟨hholds, -, hgame, hinside, -⟩ := noise_holds h (hinv.wired hin)
    refine ⟨⟨?_, hinside.trans (hs hi).inside⟩, hholds⟩
    rw [Talks, hgame]
    exact (hs hi).talks

/-! ### One request -/

/-- The line is the task's own. -/
structure Uses (i : TaskFunction) (n : ℕ) (x : Serial τ) (s : Remote τ) : Prop where
  inside : s.inside = [i]
  serial : s.serial = x
  asked : s.answers.length = n
  talks : i = .setupRoomba → ¬ s.Talks

theorem stable_uses (i : TaskFunction) (n : ℕ) (x : Serial τ) :
    ((seeing readings Idle).terms i).Stable fun s : Remote τ => Uses i n x s := by
  intro s t _ hrely _ hs
  rcases hrely with ⟨j, hj, h, hanswers⟩ | ⟨hin, -⟩
  · have hnot : j ∉ s.inside := by
      rw [hs.inside]
      simpa using hj
    have hne : s.inside ≠ [] := by
      rw [hs.inside]
      exact List.cons_ne_nil _ _
    obtain ⟨hserial, -, hinside⟩ := h.foreign hnot hne
    refine ⟨hinside.trans hs.inside, hserial.trans hs.serial, ?_, fun hi => ?_⟩
    · rw [hanswers hnot hne]
      exact hs.asked
    · exact (h.quiet (hi ▸ hj) (hs.talks hi)).1
  · rw [hs.inside] at hin
    cases hin

/-- In the middle of a request nothing is promised of the line. -/
theorem Sound.inside {l : List TaskFunction} (h : Sound readings Idle s) (ht : t.Orderly)
    (hin : t.inside = i :: l) (hanswers : t.answers = s.answers) : Sound readings Idle t := by
  have hne : t.inside ≠ [] := by
    rw [hin]
    exact List.cons_ne_nil _ _
  refine ⟨ht, fun hnone => absurd hnone hne, fun hnone => absurd hnone hne,
    fun hnone => absurd hnone hne, ?_⟩
  rw [hanswers]
  exact h.right

/-- What a request, or a command, does to the port when it has the line for itself. -/
def Completes (readings : ℕ → Roomba.Readings) (Idle : ℕ → τ → Prop) (p : Prog Halt (Serial τ) α)
    (note : α → List (Query × Reading)) : Prop :=
  ∀ n l (x : Serial τ), x.port.Holds l → Idle n x.port.peer → ∃ a y l', p.exec x = .ok (a, y) ∧
    y.port.Holds l' ∧ Idle (n + (note a).length) y.port.peer ∧
    Right (fun m => readings (n + m)) (note a)

/-- A program that reads what is there. -/
def Sees (readings : ℕ → Roomba.Readings) (Idle : ℕ → τ → Prop) (i : TaskFunction) (p : Code τ α) :
    Prop :=
  ∀ s, Ready i s → ((seeing readings Idle).terms i).Safe (fun _ t => Ready i t) p s

/-- A task that begins to use the line has it for itself, and can use the port. -/
theorem Ready.opens {l : List Action} (hs : Ready i s) (hinv : Sound readings Idle s)
    (halone : Alone s { s with meant := s.meant ++ l, inside := i :: s.inside })
    (hdoes : Does i s { s with meant := s.meant ++ l, inside := i :: s.inside }) :
    s.inside = [] ∧ ∃ l, s.serial.port.Holds l := by
  have hin : s.inside = [] := halone (Nat.lt_succ_self _)
  refine ⟨hin, ?_⟩
  by_cases hi : i = .setupRoomba
  · exact (hs hi).holds
  · have htalks : s.Talks := by
      by_contra hq
      exact absurd (hdoes.quiet hi hq).2.2.2 (List.cons_ne_self _ _)
    exact hinv.ready hin htalks

/-- While a task has the line for itself, nothing comes in between. -/
theorem safe_uses {p : Prog Halt (Serial τ) α} {n : ℕ} {x y : Serial τ} {a : α}
    (hexec : p.exec x = .ok (a, y)) (hs : Uses i n x s) : ((seeing readings Idle).terms i).Safe
      (fun b t => b = a ∧ Uses i n y t) (p.on line) s := by
  refine .mono (.on (stable_uses i n) (fun x t ht => ht.serial) (fun x y t hinv ht hmay => ?_)
    (fun e he => ?_) hs) fun b t ht => ?_
  · obtain ⟨-, hdoes, horderly⟩ := hmay
    exact ⟨hinv.inside horderly ht.inside rfl, ⟨hdoes, fun _ _ => rfl⟩, ht.inside, rfl, ht.asked,
      ht.talks⟩
  · rw [hexec] at he
    cases he
  · obtain ⟨z, hz, ht⟩ := ht
    obtain ⟨rfl, rfl⟩ := Prod.mk.inj (Except.ok.inj (hexec.symm.trans hz))
    exact ⟨rfl, ht⟩

/-- What was read is recorded. -/
theorem safe_leave {n : ℕ} {y : Serial τ} {l : List (Query × Reading)} (hs : Uses i n y s)
    (hholds : ∃ l, y.port.Holds l) (hidle : Idle (n + l.length) y.port.peer)
    (hright : Right (fun m => readings (n + m)) l) :
    ((seeing readings Idle).terms i).Safe (fun _ t => Ready i t) (leave i l) s := by
  refine .write (k := pure) (stable_uses i n y) hs fun t hinv ht hmay => ?_
  obtain ⟨-, hdoes, horderly⟩ := hmay
  have hleft : t.inside.erase i = [] := by
    rw [ht.inside, List.erase_cons_head]
  rw [← ht.serial] at hholds hidle
  rw [← ht.asked] at hright hidle
  refine ⟨⟨horderly, fun _ => Or.inl hholds, fun _ => ?_, fun _ _ => hholds,
    hinv.right.append hright⟩, ⟨hdoes, fun hno => ?_⟩,
    .pure (stable_ready i) fun hi => ⟨⟨ht.talks hi, hleft⟩, hholds⟩⟩
  · show Idle (t.answers ++ l).length t.serial.port.peer
    rw [List.length_append]
    exact hidle
  · rw [ht.inside] at hno
    exact absurd (List.mem_singleton_self i) hno

/-- **One command or request.** -/
theorem sees_transact {l : List Action} {p : Prog Halt (Serial τ) α}
    {note : α → List (Query × Reading)} (hp : Completes readings Idle p note) :
    Sees readings Idle i (transact i l p note) := by
  intro s hs
  refine .write (stable_ready i) hs fun t hinv ht hmay => ?_
  obtain ⟨halone, hdoes, horderly⟩ := hmay
  obtain ⟨hin, l₀, hl₀⟩ := ht.opens hinv halone hdoes
  obtain ⟨a, y, l', hexec, hholds, hidle, hright⟩ := hp _ l₀ t.serial hl₀ (hinv.idle hin)
  have huses : Uses i t.answers.length t.serial
      { t with meant := t.meant ++ l, inside := i :: t.inside } := by
    refine ⟨?_, rfl, rfl, fun hi => (ht hi).talks⟩
    show i :: t.inside = [i]
    rw [hin]
  refine ⟨hinv.inside horderly rfl rfl, ⟨hdoes, fun _ hne => absurd hin hne⟩,
    .bind ((safe_uses hexec huses).mono fun b u hu => ?_)⟩
  obtain ⟨rfl, hu⟩ := hu
  exact .bind ((safe_leave hu ⟨l', hholds⟩ hidle hright).mono fun _ _ hv =>
    .pure (stable_ready i) hv)

theorem completes_issue (ht : InTime w readings Idle) {l : List Action} {bs : List Byte}
    (hbs : Streaming.decode Roomba.complete [] bs = (l, [])) (hl : ∀ code, .sensors code ∉ l) :
    Completes readings Idle (Serial.issue w bs) fun _ => [] := by
  intro n l₀ x hholds hidle
  obtain ⟨port, hport, h', hpeer⟩ := hholds.issue (w := w) bs
  refine ⟨(), ⟨port, x.line ++ bs⟩, l₀, Serial.exec_issue hport, h', ?_, fun m q r hm => ?_⟩
  · show Idle n port.peer
    rw [hpeer]
    exact ht.hear n _ bs l hidle hbs hl
  · simp at hm

theorem completes_check (ht : InTime w readings Idle) (hfuel : rxBufferSize < fuel) (q : Query) :
    Completes readings Idle (Serial.checkSensor w fuel q.sensor q.nbytes) fun data =>
      [(q, q.reading data)] := by
  intro n l x hholds hidle
  obtain ⟨data, port, l', hcheck, htruth, hidle', h'⟩ :=
    hholds.checkSensor_idle ht hidle hfuel q
  refine ⟨data, _, l', Serial.exec_checkSensor hcheck, h', hidle', fun m q' r hm => ?_⟩
  cases m with
  | zero =>
    obtain ⟨rfl, rfl⟩ := Prod.mk.inj (Option.some.inj hm)
    exact htruth
  | succ m => simp at hm

/-! ### Programs that read what is there -/

/-- A change that has nothing to do with the line. -/
structure Aside (s t : Remote τ) : Prop where
  serial : t.serial = s.serial
  inside : t.inside = s.inside
  answers : t.answers = s.answers

theorem Sound.aside (hs : Sound readings Idle s) (h : s.Aside t) (ht : t.Orderly)
    (hready : t.inside = [] → t.Talks → ∃ l, t.serial.port.Holds l) : Sound readings Idle t := by
  refine ⟨ht, fun hin => ?_, fun hin => ?_, hready, ?_⟩
  · rw [h.serial]
    exact hs.wired (h.inside.symm.trans hin)
  · rw [h.serial, h.answers]
    exact hs.idle (h.inside.symm.trans hin)
  · rw [h.answers]
    exact hs.right

theorem sees_pure (a : α) : Sees readings Idle i (pure a : Code τ α) :=
  fun _ hs => .pure (stable_ready i) hs

theorem sees_bind {β : Type} {p : Code τ α} {k : α → Code τ β} (hp : Sees readings Idle i p)
    (hk : ∀ a, Sees readings Idle i (k a)) : Sees readings Idle i (p >>= k) :=
  fun s hs => .bind ((hp s hs).mono fun a t ht => hk a t ht)

/-- All tasks but the setup task can talk to the robot only when the port can be used. -/
theorem sees_write (hi : i ≠ .setupRoomba) {f : Remote τ → Remote τ} (hf : ∀ s, Aside s (f s)) :
    Sees readings Idle i (.write f) := by
  intro s hs
  refine .write (k := pure) (stable_ready i) hs fun t hinv ht hmay => ?_
  obtain ⟨-, hdoes, horderly⟩ := hmay
  refine ⟨hinv.aside (hf t) horderly fun hin htalks => ?_, ⟨hdoes, fun _ _ => (hf t).answers⟩,
    .pure (stable_ready i) fun h => absurd h hi⟩
  have hbefore : t.Talks := by
    by_contra hq
    exact (hdoes.quiet hi hq).1 htalks
  rw [(hf t).serial]
  exact hinv.ready ((hf t).inside.symm.trans hin) hbefore

theorem sees_get (g : Game → α) : Sees readings Idle i (get g : Code τ α) := by
  intro s hs
  refine .read (k := pure) (stable_ready i) hs fun t hinv ht hmay => ?_
  exact ⟨⟨hmay.2.1, fun _ _ => rfl⟩, .pure (stable_ready i) ht⟩

theorem sees_set (hi : i ≠ .setupRoomba) (f : Game → Game) :
    Sees readings Idle i (set f : Code τ Unit) :=
  sees_write hi fun _ => ⟨rfl, rfl, rfl⟩

theorem moves_sees (hi : i ≠ .setupRoomba) :
    Moves fun _ (p : Code τ _) => Sees readings Idle i p where
  pure := sees_pure
  bind := sees_bind
  get := sees_get
  move _ := sees_set hi _
  continueMove _ := sees_set hi _
  packet _ := sees_set hi _
  laser _ := sees_set hi _
  numLaserTicks _ := sees_set hi _

/-- The setup task also tells the robot something. -/
theorem sees_told (c : RoombaCommand) :
    Sees readings Idle i (set fun s => s.tell [c] : Code τ Unit) := by
  intro s hs
  refine .write (k := pure) (stable_ready i) hs fun t hinv ht hmay => ?_
  obtain ⟨-, hdoes, horderly⟩ := hmay
  have haside : t.Aside { t with game := t.game.tell [c] } := ⟨rfl, rfl, rfl⟩
  exact ⟨hinv.aside haside horderly fun hin htalks => hinv.ready hin htalks,
    ⟨hdoes, fun _ _ => rfl⟩, .pure (stable_ready i) fun hi => ⟨⟨(ht hi).talks, (ht hi).inside⟩,
      (ht hi).holds⟩⟩

section Robot

variable (ht : InTime w readings Idle) (hfuel : rxBufferSize < fuel)

include ht

theorem sees_command {l : List Action} {bs : List Byte}
    (hbs : Streaming.decode Roomba.complete [] bs = (l, [])) (hl : ∀ code, .sensors code ∉ l) :
    Sees readings Idle i (command w i l bs) :=
  sees_transact (completes_issue ht hbs hl)

theorem sees_call {c : Call} (hc : ∀ code, .sensors code ∉ c.means) :
    Sees readings Idle i (call w i c) := by
  have hdecode := Roomba.decode_calls [c]
  simp only [List.flatMap_singleton] at hdecode
  exact sees_command ht hdecode hc

/-- All commands but `init`. -/
theorem sees_say {c : RoombaCommand} (hc : c ≠ .init) :
    Sees readings Idle i (say w fuel i c) := by
  refine sees_bind (sees_told c) fun _ => ?_
  cases c with
  | init => exact absurd rfl hc
  | safeMode => exact sees_call ht (by simp [Call.means])
  | setSong number l => exact sees_call ht (by simp [Call.means])
  | playSong number => exact sees_call ht (by simp [Call.means])
  | leds mask colour intensity => exact sees_call ht (by simp [Call.means])
  | directDrive left right => exact sees_call ht (by simp [Call.means])

theorem sees_tell {cs : List RoombaCommand} (hcs : .init ∉ cs) :
    Sees readings Idle i (tell w fuel i cs) := by
  induction cs with
  | nil => exact sees_pure ()
  | cons c cs ih =>
    obtain ⟨hc, hcs⟩ := not_or.1 (List.mem_cons.not.1 hcs)
    exact sees_bind (sees_say ht (Ne.symm hc)) fun _ => ih hcs

theorem sees_die (hi : i ≠ .setupRoomba) : Sees readings Idle i (die w fuel i) := by
  refine sees_bind (sees_get _) fun dead => ?_
  split
  · exact sees_bind (sees_set hi _) fun _ => sees_tell ht (by simp)
  · exact sees_pure ()

theorem sees_startGame (hi : i ≠ .setupRoomba) : Sees readings Idle i (startGame w fuel i) := by
  refine sees_bind (moves_sees hi).canStart fun go => ?_
  split
  · refine sees_bind (sees_tell ht (by simp [Game.loadSongs])) fun _ =>
      sees_bind (sees_write hi fun _ => ⟨rfl, rfl, rfl⟩) fun _ => sees_bind (sees_set hi _) fun _ =>
      sees_bind (sees_set hi _) fun _ => sees_bind (sees_write hi fun _ => ⟨rfl, rfl, rfl⟩)
      fun _ => sees_bind (sees_set hi _) fun _ => sees_bind (sees_tell ht (by simp)) fun _ =>
      sees_bind (sees_get _) fun startedBefore => ?_
    split
    · exact sees_bind (sees_set hi _) fun _ => sees_set hi _
    · exact sees_pure ()
  · exact sees_pure ()

include hfuel

theorem sees_check (q : Query) : Sees readings Idle i (check w fuel i q) :=
  sees_transact (completes_check ht hfuel q)

theorem sees_sensors : Sees readings Idle i (sensors w fuel i) :=
  sees_bind (sees_bind (sees_check ht hfuel _) fun _ => sees_pure _) fun _ =>
    sees_bind (sees_bind (sees_check ht hfuel _) fun _ => sees_pure _) fun _ =>
    sees_bind (sees_bind (sees_check ht hfuel _) fun _ => sees_pure _) fun _ => sees_pure _

/-- **The tasks that do not set the robot up.** -/
theorem sees_program {a : Activation} (ha : a.task ≠ .setupRoomba) :
    Sees readings Idle a.task (program w fuel a) := by
  have hmoves : Moves fun _ (p : Code τ _) => Sees readings Idle a.task p := moves_sees ha
  cases a with
  | create =>
    exact sees_bind (sees_set ha _) fun _ => sees_bind (sees_set ha _) fun _ =>
      sees_bind (sees_set ha _) fun _ => sees_bind (sees_set ha _) fun _ =>
      sees_bind (sees_set ha _) fun _ => sees_set ha _
  | setupRoomba => exact absurd rfl ha
  | tickArm => exact hmoves.tickArm
  | rxData p => exact hmoves.rxData p
  | lightSensorRead val =>
    refine sees_bind (hmoves.struck val) fun hit => ?_
    split
    · refine sees_bind (sees_get _) fun health =>
        sees_bind (sees_write ha fun _ => ⟨rfl, rfl, rfl⟩) fun _ =>
        sees_bind (sees_get _) fun health => ?_
      split
      · exact sees_die ht ha
      · exact sees_pure ()
    · exact sees_bind (sees_get _) fun _ => sees_set ha _
  | commandRoomba =>
    refine sees_bind (sees_bind (sees_get _) fun joy2SW => ?_) fun _ =>
      sees_bind (sees_bind (sees_sensors ht hfuel) fun r => hmoves.nextMove r) fun _ =>
      sees_bind (sees_get _) fun move => sees_say ht (by simp)
    split
    · refine sees_bind hmoves.canStart fun go => ?_
      split
      · exact sees_startGame ht ha
      · exact sees_pure ()
    · exact sees_pure ()
  | modeChange =>
    refine sees_bind (sees_get _) fun dead => ?_
    split
    · exact sees_set ha _
    · exact sees_bind (sees_get _) fun mode => sees_bind (sees_set ha _) fun _ =>
        sees_say ht (by simp)

omit ht hfuel in
/-- `start_serial` makes the port usable. -/
theorem safe_startSerial {β : Type} {baud : BitVec 32} (hb : baud ≠ 0) {k : Unit → Code τ β}
    {R : β → Remote τ → Prop} (hs : s.Waiting)
    (hk : ∀ t, Calm t → ((seeing readings Idle).terms .setupRoomba).Safe R (k ()) t) :
    ((seeing readings Idle).terms .setupRoomba).Safe R
      ((Serial.startSerial baud).on line >>= k) s := by
  rw [Serial.startSerial, Serial.atPort, Prog.on_call]
  refine .call stable_waiting hs (fun t _ t' hinv ht hcall hmay => ?_) fun t e hinv ht hcall => ?_
  · obtain ⟨-, hdoes, horderly⟩ := hmay
    obtain ⟨u, l, hu, hholds⟩ := (hinv.wired ht.inside).uartInit hb
    simp only [line, hu, ok_bind] at hcall
    obtain rfl := congrArg Prod.snd (Except.ok.inj hcall)
    exact ⟨⟨horderly, fun _ => Or.inl ⟨l, hholds⟩, hinv.idle, fun _ _ => ⟨l, hholds⟩, hinv.right⟩,
      ⟨hdoes, fun _ _ => rfl⟩, hk _ ⟨⟨ht.talks, ht.inside⟩, l, hholds⟩⟩
  · obtain ⟨u, l, hu, hholds⟩ := (hinv.wired ht.inside).uartInit hb
    simp only [line, hu, ok_bind] at hcall
    cases hcall

theorem safe_init (hs : s.Waiting) : ((seeing readings Idle).terms .setupRoomba).Safe
    (fun _ t => Ready .setupRoomba t) (init w fuel .setupRoomba) s := by
  refine safe_startSerial (by decide) hs fun s hs => ?_
  have hstart : Sees readings Idle .setupRoomba
      (command w .setupRoomba [.start] [Roomba.OiCommand.startSci.code]) :=
    sees_command ht rfl (by simp)
  have hbaud : Sees readings Idle .setupRoomba (command w .setupRoomba [.baud Roomba.bps57600]
      [Roomba.OiCommand.baud.code, Roomba.bps57600]) :=
    sees_command ht rfl (by simp)
  have hchecks : Sees readings Idle .setupRoomba (do
      let mode ← check w fuel .setupRoomba .oiMode
      if mode.isSome then
        let power ← check w fuel .setupRoomba .power
        if power.isSome then
          let _ ← check w fuel .setupRoomba .powerCapacity) := by
    refine sees_bind (sees_check ht hfuel _) fun mode => ?_
    split
    · refine sees_bind (sees_check ht hfuel _) fun power => ?_
      split
      · exact sees_bind (sees_check ht hfuel _) fun _ => sees_pure ()
      · exact sees_pure ()
    · exact sees_pure ()
  refine .bind ((hstart s fun _ => hs).mono fun _ s hs => .bind ((hbaud s hs).mono ?_))
  intro _ s hs
  exact safe_startSerial (by decide) (hs rfl).toWaiting fun s hs => hchecks s fun _ => hs

/-- **The robot is set up.** -/
theorem safe_setupRoomba (hs : s.Quiet) : ((seeing readings Idle).terms .setupRoomba).Safe
    (fun _ _ => True) (setupRoomba w fuel) s := by
  have htrue : ((seeing readings Idle).terms .setupRoomba).Stable fun _ : Remote τ => True :=
    fun _ _ _ _ _ _ => trivial
  have htold : ((seeing readings Idle).terms .setupRoomba).Safe (fun _ t => Waiting t)
      (set fun s => s.tell [.init]) s := by
    refine .write (k := pure) stable_waiting ⟨hs.talks, hs.inside⟩ fun t hinv ht hmay => ?_
    obtain ⟨-, hdoes, horderly⟩ := hmay
    have haside : t.Aside { t with game := t.game.tell [.init] } := ⟨rfl, rfl, rfl⟩
    exact ⟨hinv.aside haside horderly fun hin htalks => hinv.ready hin htalks,
      ⟨hdoes, fun _ _ => rfl⟩, .pure stable_waiting ⟨ht.talks, ht.inside⟩⟩
  have hrest : Sees readings Idle .setupRoomba (tell w fuel .setupRoomba
      ([.safeMode] ++ Game.loadSongs ++ [.playSong freeSong])) :=
    sees_tell ht (by simp [Game.loadSongs])
  have hsetup : ((seeing readings Idle).terms .setupRoomba).Safe (fun _ t => Ready .setupRoomba t)
      (tell w fuel .setupRoomba ([.init, .safeMode] ++ Game.loadSongs ++ [.playSong freeSong])) s :=
    .bind ((Terms.Safe.bind (htold.mono fun _ _ => safe_init ht hfuel)).mono fun _ => hrest)
  refine .bind (hsetup.mono fun _ s hs => .write (stable_ready _) hs fun t hinv ht hmay => ?_)
  -- from here on `commandRoomba` can use the port
  obtain ⟨-, hdoes, horderly⟩ := hmay
  have haside : t.Aside { t with game := t.game.taskCreate .commandRoomba } := ⟨rfl, rfl, rfl⟩
  refine ⟨hinv.aside haside horderly fun _ _ => (ht rfl).holds, ⟨hdoes, fun _ _ => rfl⟩, ?_⟩
  refine .write (k := pure) htrue trivial fun u hinv _ hmay => ?_
  obtain ⟨-, hdoes, horderly⟩ := hmay
  have haside : u.Aside { u with game := u.game.taskTerminate .setupRoomba } := ⟨rfl, rfl, rfl⟩
  exact ⟨hinv.aside haside horderly fun hin htalks => hinv.ready hin (talks_taskTerminate htalks),
    ⟨hdoes, fun _ _ => rfl⟩, .pure htrue trivial⟩

theorem keeps_seeing : (system w fuel).Keeps (seeing readings Idle) where
  stable _ _ _ _ _ _ _ := trivial
  start a s hstarts _ _ _ := by
    by_cases ha : a.task = .setupRoomba
    · cases a with
      | setupRoomba => exact safe_setupRoomba ht hfuel (hstarts rfl)
      | _ => cases ha
    · exact (sees_program ht hfuel ha s fun h => absurd h ha).mono fun _ _ _ => trivial

end Robot

/-! ### Every interleaving -/

/-- A step in which the line is used by one task at a time, and nothing but answers comes in
meanwhile. -/
def undisturbed (u : Tasks τ) : Event → Bool
  | .outside _ => u.shared.inside = []
  | _ => true

def Undisturbed (w : Peer τ) (fuel : ℕ) (u : Tasks τ) (e : Event) (u' : Tasks τ) : Prop :=
  Alternating w fuel u e u' ∧ undisturbed u e = true

/-- What is known of the line allows the step. -/
theorem Undisturbed.allows {u u' : Tasks τ} {e : Event} (h : Undisturbed w fuel u e u')
    (htelling : telling.Holds u) (hu : (seeing readings Idle).Holds u) :
    (seeing readings Idle).Allows u e u' := by
  cases e with
  | start a =>
    intro ha
    subst ha
    obtain ⟨hdone, hready, -⟩ := Threads.start_spec h.1.1
    have halive : .setupRoomba ∈ u.shared.game.tasks := of_decide_eq_true hready
    exact (htelling.idle hdone halive).2
  | act i =>
    obtain ⟨horderly, hdoes, -, -⟩ := Threads.act_spec htelling h.1.1 h.1.2
    exact ⟨h.1.2, hdoes, horderly⟩
  | outside bs =>
    obtain ⟨t, hnoise, heq⟩ := Option.map_eq_some_iff.1 h.1.1
    obtain rfl := heq
    have hin : u.shared.inside = [] := of_decide_eq_true h.2
    exact ⟨⟨hin, bs, hnoise⟩, hu.inv.noise hnoise hin⟩

/-- **What the game sees**, however the tasks are preempted, with a robot that answers in time, if
a task has the line for itself while it uses it: no function of the port aborts or goes on for
ever, and whatever is read is what the sensors said when they were asked. -/
theorem sees {move : Move} {peer : τ} {es : List Event} {u : Tasks τ}
    (hrun : Run (Undisturbed w fuel) (initial move peer) es u) (ht : InTime w readings Idle)
    (hpeer : Idle 0 peer) (hfuel : rxBufferSize < fuel) :
    (∀ i e, u.code i ≠ .halt e) ∧ Right readings u.shared.answers := by
  have hstart : (seeing readings Idle).Holds (initial move peer) := by
    refine (keeps_seeing ht hfuel).initial ?_ fun _ => trivial
    refine ⟨(telling_initial w fuel move peer).inv, fun _ => Or.inr ⟨rfl, 3, rfl⟩, fun _ => hpeer,
      fun _ htalks => absurd htalks (quiet_initial move peer).talks, fun n q r hn => ?_⟩
    simp at hn
  obtain ⟨-, hholds⟩ : telling.Holds u ∧ (seeing readings Idle).Holds u :=
    hrun.invariant (P := fun u => telling.Holds u ∧ (seeing readings Idle).Holds u)
      ⟨telling_initial w fuel move peer, hstart⟩
      fun _ _ _ hv hs => ⟨(keeps_telling w fuel).step hv.1 hs.1.1 (hs.1.allows hv.1),
        (keeps_seeing ht hfuel).step hv.2 hs.1.1 (hs.allows hv.1 hv.2)⟩
  exact ⟨fun i e hcode => hholds.halts hcode, hholds.inv.right⟩

/-- `commandRoomba` is preempted between its requests, and other bytes come in. -/
def distracted : List Event :=
  opening 152 ++ [.outside [1, 2]] ++ activation .commandRoomba 30 ++ activation .modeChange 8 ++
    [.outside [3]] ++ List.replicate 16 (.act .commandRoomba)

theorem sees_distracted :
    ∃ u, Run (Undisturbed respondent 33) (initial .stop {}) distracted u ∧
    u.shared.answers.length = 9 ∧ (∀ i e, u.code i ≠ .halt e) ∧
      Right (fun _ => ⟨0, 0, 0x0A28, 0x0A8C, 2, 0⟩) u.shared.answers := by
  have hex : ((Run.exec (fun u e => ((system respondent 33).advance u e).filter fun u' =>
      Alone u.shared u'.shared ∧ undisturbed u e) (initial .stop {}) distracted).filter fun u =>
        u.shared.answers.length = 9).isSome = true := by decide +kernel
  obtain ⟨u, hu⟩ := Option.isSome_iff_exists.1 hex
  obtain ⟨hrun, hlength⟩ := Option.filter_eq_some_iff.1 hu
  have hrun : Run (Undisturbed respondent 33) (initial .stop {}) distracted u := by
    refine (Run.of_exec hrun).mono fun v e v' hstep => ?_
    obtain ⟨hadvance, hfair⟩ := Option.filter_eq_some_iff.1 hstep
    obtain ⟨halone, hquiet⟩ := of_decide_eq_true hfair
    exact ⟨⟨hadvance, halone⟩, hquiet⟩
  exact ⟨u, hrun, of_decide_eq_true hlength,
    sees hrun (Roomba.Respondent.inTime _ _) ⟨rfl, rfl, rfl⟩ (by decide)⟩

/-- A song is played in the middle of the request for the virtual wall, which is there. -/
theorem blinded : ∃ u ∈ Run.exec (system
      (Roomba.Respondent.peer (fun _ => ⟨0, 1, 0x0A28, 0x0A8C, 2, 0⟩) fun n => n) 33).advance
      (initial .stop {}) (opening 112 ++ activation .modeChange 8 ++
        List.replicate 5 (.act .commandRoomba)),
    u.shared.answers[3]? = some (.virtualWall, .flag false) := by
  decide +kernel

end Remote

end RoombaRtos
