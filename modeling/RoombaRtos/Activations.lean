import RoombaRtos.ContextSwitch

/-!
# Activations of the tasks and of the kernel

The tasks and the kernel share the processor: each works on its own stack, and they hand over
through `Enter_Kernel` and `Exit_Kernel` and the two shadow pointers.

* `Layout` — where the stacks and the shadow pointers lie in memory;
* `Board.Step` — what the task that runs, or the kernel, may do;
* `Suspended` — the context of a task is saved on its stack; it stays there whatever the others
  do (`Suspended.step`);
* `context_switch_transparent` — whoever is resumed has the registers, the stack pointer and the
  place of execution from when it was suspended, and a new task starts at its function.
-/

namespace RoombaRtos

open Avr Lockstep

variable {ι : Type*}

/-- What a byte of memory is used for. -/
inductive Region (ι : Type*)
  | task (i : ι)
  | kernel
  /-- `KernelSp` and `CurrentSp`. -/
  | shadow
  | other
deriving DecidableEq

/-- The use of the memory: the stacks and the shadow pointers do not overlap. -/
structure Layout (ι : Type*) where
  region : Addr → Region ι
  workSpace : ι → Addr
  kernelSp : Addr
  currentSp : Addr
  /-- The address of the function `Task_Terminate`. -/
  taskTerminate : BitVec 16
  region_task : ∀ i a, region a = .task i ↔ (a - workSpace i).toNat < workspaceSize
  kernelSp_shadow : region kernelSp = .shadow ∧ region (kernelSp + 1) = .shadow
  currentSp_shadow : region currentSp = .shadow ∧ region (currentSp + 1) = .shadow
  shadow_ne : kernelSp ≠ currentSp ∧ kernelSp + 1 ≠ currentSp ∧ kernelSp ≠ currentSp + 1

/-- The processor, and what the kernel keeps about the tasks. -/
structure Board (ι : Type*) where
  cpu : Machine
  /-- The field `sp` of each process descriptor. -/
  sp : ι → Addr
  cp : ι
  /-- `Cp` runs, and not the kernel. -/
  user : Bool
  /-- The processes that are not `DEAD`. -/
  alive : ι → Bool

inductive Activity (ι : Type*)
  /-- Whoever runs goes on. -/
  | work
  /-- The task calls `Enter_Kernel`. -/
  | enter (i : ι)
  /-- The kernel calls `Exit_Kernel` for the task. -/
  | exit (i : ι)
  | dispatch (i : ι)
  | create (i : ι) (f : BitVec 16)
  | terminate (i : ι)
deriving DecidableEq, Repr

namespace Board

variable [DecidableEq ι] (L : Layout ι)

/-- The stack region of whoever runs. -/
def runner (s : Board ι) : Region ι := if s.user then .task s.cp else .kernel

/-- `Enter_Kernel`, and the statement behind the call of `Exit_Kernel`: `Cp->sp = CurrentSp`. -/
def enter (s : Board ι) : Board ι :=
  let cpu := s.cpu.call.exec (enterKernel L.kernelSp L.currentSp)
  { s with
    cpu := cpu
    sp := Function.update s.sp s.cp (loadWord cpu.mem L.currentSp)
    user := false }

/-- `CurrentSp = Cp->sp`. -/
def setCurrentSp (s : Board ι) : Machine :=
  { s.cpu with mem := storeWord s.cpu.mem L.currentSp (s.sp s.cp) }

/-- The stack pointer of `Cp` becomes current, and the kernel calls `Exit_Kernel`. -/
def exit (s : Board ι) : Board ι :=
  { s with
    cpu := (s.setCurrentSp L).call.exec (exitKernel L.kernelSp L.currentSp)
    user := true }

/-- `Kernel_Task_Create_At`, for a descriptor that is free. -/
def create (s : Board ι) (i : ι) (f : BitVec 16) : Board ι :=
  let built := kernelTaskCreateAt L.taskTerminate s.cpu.mem (L.workSpace i) f
  { s with
    cpu := { s.cpu with mem := built.1 }
    sp := Function.update s.sp i built.2
    alive := Function.update s.alive i true }

/-- What happens next.  Work is any change of the processor, and of memory in the stack of whoever
runs or in nobody's; a call needs room for the frame on the stack of the caller. -/
inductive Step : Board ι → Activity ι → Board ι → Prop
  | work {s : Board ι} {cpu : Machine}
      (hmem : ∀ a, L.region a ≠ s.runner → L.region a ≠ .other → cpu.mem a = s.cpu.mem a) :
      Step s .work { s with cpu := cpu }
  | enter {s : Board ι} (huser : s.user = true)
      (hroom : ∀ a, Below s.cpu.sp 37 a → L.region a = .task s.cp) :
      Step s (.enter s.cp) (s.enter L)
  | exit {s : Board ι} (huser : s.user = false) (halive : s.alive s.cp = true)
      (hroom : ∀ a, Below s.cpu.sp 37 a → L.region a = .kernel) :
      Step s (.exit s.cp) (s.exit L)
  | dispatch {s : Board ι} {i : ι} (huser : s.user = false) (halive : s.alive i = true) :
      Step s (.dispatch i) { s with cp := i }
  | create {s : Board ι} {i : ι} {f : BitVec 16} (huser : s.user = false)
      (hdead : s.alive i = false) : Step s (.create i f) (s.create L i f)
  | terminate {s : Board ι} {i : ι} (huser : s.user = false) :
      Step s (.terminate i) { s with alive := Function.update s.alive i false }

/-- The task `i` runs. -/
def Running (s : Board ι) (i : ι) : Prop := s.user = true ∧ s.cp = i

/-- The context `c` of the task `i` is on its stack, with `l` above it. -/
structure Suspended (s : Board ι) (i : ι) (c : Context) (l : List Byte) : Prop where
  saved : Saved s.cpu.mem (s.sp i) c l
  short : l.length < 2 ^ 15
  own : ∀ a, Above (s.sp i) (37 + l.length) a → L.region a = .task i

/-- The context `c` of the kernel is on its stack. -/
structure KernelSuspended (s : Board ι) (c : Context) : Prop where
  saved : Saved s.cpu.mem (loadWord s.cpu.mem L.kernelSp) c []
  own : ∀ a, Above (loadWord s.cpu.mem L.kernelSp) 37 a → L.region a = .kernel

variable {L} {s s' : Board ι} {e : Activity ι} {i : ι} {c : Context} {l : List Byte}

theorem mem_enter (s : Board ι) : (s.enter L).cpu.mem = parked s.cpu L.currentSp :=
  mem_exec_switch s.cpu _ _ .ret rfl

omit [DecidableEq ι] in
theorem mem_exit (s : Board ι) :
    (s.exit L).cpu.mem = parked (s.setCurrentSp L) L.kernelSp :=
  mem_exec_switch _ _ _ .reti rfl

end Board

namespace Layout

variable (L : Layout ι) {a : Addr}

/-- The shadow pointers are in no stack. -/
theorem ne_shadow (h : L.region a ≠ .shadow) :
    (a ≠ L.kernelSp ∧ a ≠ L.kernelSp + 1) ∧ a ≠ L.currentSp ∧ a ≠ L.currentSp + 1 := by
  have hne : ∀ k, L.region k = .shadow → a ≠ k := by
    intro k hk heq
    subst heq
    exact h hk
  exact ⟨⟨hne _ L.kernelSp_shadow.1, hne _ L.kernelSp_shadow.2⟩,
    hne _ L.currentSp_shadow.1, hne _ L.currentSp_shadow.2⟩

/-- The bytes of one shadow pointer are not those of the other. -/
theorem kernelSp_ne : (L.kernelSp ≠ L.currentSp ∧ L.kernelSp ≠ L.currentSp + 1) ∧
    L.kernelSp + 1 ≠ L.currentSp ∧ L.kernelSp + 1 ≠ L.currentSp + 1 := by
  obtain ⟨hne, hne', hne''⟩ := L.shadow_ne
  refine ⟨⟨hne, hne''⟩, hne', ?_⟩
  intro heq
  apply hne
  bv_omega

/-- The frame of a suspended context is in the stack of the caller. -/
theorem not_below_shadow {r : Region ι} (hr : r ≠ .shadow) {sp : Addr}
    (hroom : ∀ a, Below sp 37 a → L.region a = r) (h : L.region a = .shadow) :
    ¬ Below sp 37 a := by
  intro hbelow
  exact hr ((hroom a hbelow).symm.trans h)

end Layout

namespace Board

variable [DecidableEq ι] {L : Layout ι} {s s' : Board ι} {e : Activity ι} {i : ι} {c : Context}
  {l : List Byte}

/-- A call to the kernel changes the stack of the caller, and the shadow pointer of the tasks. -/
theorem mem_enter_of_ne (hroom : ∀ a, Below s.cpu.sp 37 a → L.region a = .task s.cp) {a : Addr}
    (ha : L.region a ≠ .task s.cp) (hne : a ≠ L.currentSp) (hne' : a ≠ L.currentSp + 1) :
    (s.enter L).cpu.mem a = s.cpu.mem a := by
  rw [mem_enter]
  exact parked_of_not_below (fun hbelow => ha (hroom a hbelow)) hne hne'

omit [DecidableEq ι] in
theorem mem_exit_of_ne (hroom : ∀ a, Below s.cpu.sp 37 a → L.region a = .kernel) {a : Addr}
    (ha : L.region a ≠ .kernel) (hs : L.region a ≠ .shadow) :
    (s.exit L).cpu.mem a = s.cpu.mem a := by
  obtain ⟨⟨hk, hk'⟩, hc, hc'⟩ := L.ne_shadow hs
  have hbelow : ¬ Below (s.setCurrentSp L).sp 37 a := fun hbelow => ha (hroom a hbelow)
  rw [mem_exit, parked_of_not_below hbelow hk hk']
  exact storeWord_of_ne _ hc hc'

/-- The events that end or begin what is said of a suspended task. -/
def Touches (i : ι) : Activity ι → Prop
  | .enter j => j = i
  | .exit j => j = i
  | .create j _ => j = i
  | _ => False

/-- **What the others do leaves a task alone.** -/
theorem Step.frame (h : Step L s e s') (he : ¬ Touches i e) (hi : ¬ s.Running i) :
    s'.sp i = s.sp i ∧ (∀ a, L.region a = .task i → s'.cpu.mem a = s.cpu.mem a) ∧
      ¬ s'.Running i := by
  cases h with
  | @work cpu hmem =>
    refine ⟨rfl, fun a ha => hmem a ?_ ?_, hi⟩
    · intro hrun
      rw [ha, runner] at hrun
      split_ifs at hrun with huser
      exact hi ⟨huser, (Region.task.inj hrun).symm⟩
    · simp [ha]
  | enter huser hroom =>
    have hne : i ≠ s.cp := fun heq => hi ⟨huser, heq.symm⟩
    refine ⟨Function.update_of_ne hne _ _, fun a ha => ?_, fun hrun => ?_⟩
    · have hs : L.region a ≠ .shadow := by simp [ha]
      obtain ⟨-, hc, hc'⟩ := L.ne_shadow hs
      apply mem_enter_of_ne hroom _ hc hc'
      rw [ha]
      intro hrun
      exact hne (Region.task.inj hrun)
    · cases hrun.1
  | exit huser halive hroom =>
    refine ⟨rfl, fun a ha => ?_, fun hrun => he hrun.2⟩
    apply mem_exit_of_ne hroom
    · simp [ha]
    · simp [ha]
  | dispatch huser halive =>
    refine ⟨rfl, fun a ha => rfl, fun hrun => ?_⟩
    rw [Running, huser] at hrun
    cases hrun.1
  | @create j f huser hdead =>
    have hne : i ≠ j := fun heq => he heq.symm
    refine ⟨Function.update_of_ne hne _ _, fun a ha => ?_, fun hrun => ?_⟩
    · apply kernelTaskCreateAt_mem
      intro hj
      have hregion := (L.region_task j a).2 hj
      rw [ha] at hregion
      exact hne (Region.task.inj hregion)
    · have huser' : s.user = true := hrun.1
      rw [huser] at huser'
      cases huser'
  | terminate huser => exact ⟨rfl, fun a ha => rfl, hi⟩

/-- **A suspended task stays as it is**, whatever the others do. -/
theorem Suspended.step (h : Suspended L s i c l) (hs : Step L s e s') (he : ¬ Touches i e)
    (hi : ¬ s.Running i) : Suspended L s' i c l := by
  obtain ⟨hsp, hmem, -⟩ := hs.frame he hi
  obtain ⟨hsaved, hshort, hown⟩ := h
  refine ⟨?_, hshort, ?_⟩
  · rw [hsp]
    exact hsaved.congr hshort fun a ha => hmem a (hown a ha)
  · rw [hsp]
    exact hown

omit [DecidableEq ι] in
/-- So does the kernel, while tasks work. -/
theorem KernelSuspended.work (h : KernelSuspended L s c) {cpu : Machine} (huser : s.user = true)
    (hmem : ∀ a, L.region a ≠ s.runner → L.region a ≠ .other → cpu.mem a = s.cpu.mem a) :
    KernelSuspended L { s with cpu := cpu } c := by
  obtain ⟨hsaved, hown⟩ := h
  have hkeep : ∀ a, L.region a = .kernel ∨ L.region a = .shadow → cpu.mem a = s.cpu.mem a := by
    intro a ha
    have hrunner : s.runner = .task s.cp := if_pos huser
    apply hmem
    · rcases ha with ha | ha
      · simp [ha, hrunner]
      · simp [ha, hrunner]
    · rcases ha with ha | ha
      · simp [ha]
      · simp [ha]
  have hsp : loadWord cpu.mem L.kernelSp = loadWord s.cpu.mem L.kernelSp :=
    loadWord_congr (hkeep _ (Or.inr L.kernelSp_shadow.1)) (hkeep _ (Or.inr L.kernelSp_shadow.2))
  refine ⟨?_, ?_⟩
  · show Saved cpu.mem (loadWord cpu.mem L.kernelSp) c []
    rw [hsp]
    exact hsaved.congr (by decide) fun a ha => hkeep a (Or.inl (hown a ha))
  · show ∀ a, Above (loadWord cpu.mem L.kernelSp) 37 a → _
    rw [hsp]
    exact hown

/-- The addresses of a frame that has been pushed. -/
theorem below_of_above {sp a : Addr} (h : Above (sp - 37) 37 a) : Below sp 37 a := by
  obtain ⟨hpos, hle⟩ := h
  rw [Below]
  bv_omega

/-- A task that has called `Enter_Kernel` is suspended. -/
theorem suspended_enter (hroom : ∀ a, Below s.cpu.sp 37 a → L.region a = .task s.cp) :
    Suspended L (s.enter L) s.cp s.cpu.toContext [] := by
  have hsp : (s.enter L).sp s.cp = loadWord (parked s.cpu L.currentSp) L.currentSp := by
    rw [← mem_enter]
    exact Function.update_self _ _ _
  have hne : (Region.task s.cp) ≠ .shadow := by simp
  refine ⟨?_, by decide, ?_⟩
  · rw [hsp, mem_enter]
    exact saved_parked (L.not_below_shadow hne hroom L.currentSp_shadow.1)
      (L.not_below_shadow hne hroom L.currentSp_shadow.2)
  · rw [hsp, parked, loadWord_storeWord]
    exact fun a ha => hroom a (below_of_above ha)

omit [DecidableEq ι] in
/-- The kernel is suspended in its call of `Exit_Kernel`. -/
theorem kernelSuspended_exit (hroom : ∀ a, Below s.cpu.sp 37 a → L.region a = .kernel) :
    KernelSuspended L (s.exit L) s.cpu.toContext := by
  have hne : (Region.kernel : Region ι) ≠ .shadow := by simp
  refine ⟨?_, ?_⟩
  · rw [mem_exit]
    have hsaved : Saved _ _ (s.setCurrentSp L).toContext [] :=
      saved_parked (L.not_below_shadow hne hroom L.kernelSp_shadow.1)
        (L.not_below_shadow hne hroom L.kernelSp_shadow.2)
    exact hsaved
  · rw [mem_exit, parked, loadWord_storeWord]
    exact fun a ha => hroom a (below_of_above ha)

/-- A new task is suspended in the context that was built for it. -/
theorem suspended_create (s : Board ι) (i : ι) (f : BitVec 16) :
    Suspended L (s.create L i f) i (firstContext (L.workSpace i) f)
      (pcBytes (L.taskTerminate.setWidth 24)) := by
  have hsp : (s.create L i f).sp i =
      (kernelTaskCreateAt L.taskTerminate s.cpu.mem (L.workSpace i) f).2 :=
    Function.update_self _ _ _
  have hlen : (pcBytes (L.taskTerminate.setWidth 24)).length < 2 ^ 15 := by
    show 3 < 2 ^ 15
    decide
  refine ⟨?_, hlen, ?_⟩
  · rw [hsp]
    exact kernelTaskCreateAt_saved _ _ _ _
  · intro a ha
    rw [hsp, kernelTaskCreateAt_eq] at ha
    obtain ⟨hpos, hle⟩ := ha
    have hle' : (a - (L.workSpace i + 255 - 6 - 34)).toNat ≤ 40 := hle
    rw [L.region_task, workspaceSize]
    bv_omega

/-- **The kernel is resumed where it was.** -/
theorem KernelSuspended.resume (h : KernelSuspended L s c)
    (hroom : ∀ a, Below s.cpu.sp 37 a → L.region a = .task s.cp) :
    (s.enter L).cpu.toContext = c := by
  obtain ⟨hsaved, hown⟩ := h
  obtain ⟨⟨hk, hk'⟩, hk₁, hk₁'⟩ := L.kernelSp_ne
  have hcell : ∀ a, L.region a = .shadow → L.region a ≠ .task s.cp := by
    intro a ha
    simp [ha]
  have hsp : loadWord (s.enter L).cpu.mem L.kernelSp = loadWord s.cpu.mem L.kernelSp :=
    loadWord_congr (mem_enter_of_ne hroom (hcell _ L.kernelSp_shadow.1) hk hk')
      (mem_enter_of_ne hroom (hcell _ L.kernelSp_shadow.2) hk₁ hk₁')
  have hkeep : Saved (s.enter L).cpu.mem (loadWord (s.enter L).cpu.mem L.kernelSp) c [] := by
    rw [hsp]
    apply hsaved.congr (by decide)
    intro a ha
    have hregion := hown a ha
    have hs : L.region a ≠ .shadow := by simp [hregion]
    obtain ⟨-, hc, hc'⟩ := L.ne_shadow hs
    exact mem_enter_of_ne hroom (by simp [hregion]) hc hc'
  rw [mem_enter] at hkeep
  exact congrArg Machine.toContext (exec_switch_ret s.cpu hkeep)

omit [DecidableEq ι] in
/-- **A task is resumed where it was.** -/
theorem Suspended.resume (h : Suspended L s s.cp c l)
    (hroom : ∀ a, Below s.cpu.sp 37 a → L.region a = .kernel) :
    (s.exit L).cpu.toContext = { c with sreg := c.sreg ||| flagI } ∧
      Stacked (s.exit L).cpu.mem c.sp l := by
  obtain ⟨hsaved, hshort, hown⟩ := h
  obtain ⟨⟨hk, hk'⟩, hk₁, hk₁'⟩ := L.kernelSp_ne
  have hcell : ∀ a, L.region a = .shadow → ¬ Below (s.setCurrentSp L).sp 37 a :=
    fun a ha => L.not_below_shadow (by simp) hroom ha
  have hsp : loadWord (parked (s.setCurrentSp L) L.kernelSp) L.currentSp = s.sp s.cp := by
    have hload : loadWord (parked (s.setCurrentSp L) L.kernelSp) L.currentSp =
        loadWord (s.setCurrentSp L).mem L.currentSp :=
      loadWord_congr (parked_of_not_below (hcell _ L.currentSp_shadow.1) hk.symm hk₁.symm)
        (parked_of_not_below (hcell _ L.currentSp_shadow.2) hk'.symm hk₁'.symm)
    rw [hload]
    exact loadWord_storeWord _ _ _
  have hkeep : Saved (parked (s.setCurrentSp L) L.kernelSp) (s.sp s.cp) c l := by
    rw [← mem_exit]
    apply hsaved.congr hshort
    intro a ha
    have hregion := hown a ha
    exact mem_exit_of_ne hroom (by simp [hregion]) (by simp [hregion])
  refine ⟨?_, ?_⟩
  · rw [← hsp] at hkeep
    exact congrArg Machine.toContext (exec_switch_reti (s.setCurrentSp L) hkeep)
  · have habove := (stacked_append.1 hkeep.stacked).2
    rw [length_frame] at habove
    rw [mem_exit, hkeep.sp_eq]
    exact habove

/-! ### Runs -/

/-- Nobody is there yet, and the kernel runs. -/
def Boot (s : Board ι) : Prop := s.user = false ∧ ∀ i, s.alive i = false

/-- How a task was suspended: in the context `c`, with `l` above it. -/
inductive Suspends (L : Layout ι) (i : ι) (c : Context) (l : List Byte) :
    Board ι → Activity ι → Board ι → Prop
  | enter {s s' : Board ι} (hc : c = s.cpu.toContext) (hl : l = []) :
      Suspends L i c l s (.enter i) s'
  | create {s s' : Board ι} {f : BitVec 16} (hc : c = firstContext (L.workSpace i) f)
      (hl : l = pcBytes (L.taskTerminate.setWidth 24)) : Suspends L i c l s (.create i f) s'

/-- The kernel has called `Exit_Kernel` in the context `c`. -/
def KernelSuspends (c : Context) (s : Board ι) (e : Activity ι) (_ : Board ι) : Prop :=
  (∃ i, e = .exit i) ∧ s.cpu.toContext = c

def IsExit (e : Activity ι) : Prop := ∃ i, e = .exit i

/-- A task that is neither resumed, created nor running has been so before. -/
theorem Step.before (h : Step L s e s') (he : ¬ Touches i e) (halive : s'.alive i = true)
    (hi : ¬ s'.Running i) : s.alive i = true ∧ ¬ s.Running i := by
  cases h with
  | work hmem => exact ⟨halive, hi⟩
  | enter huser hroom => exact ⟨halive, fun hrun => he hrun.2⟩
  | exit huser halive' hroom =>
    refine ⟨halive, fun hrun => ?_⟩
    rw [Running, huser] at hrun
    cases hrun.1
  | dispatch huser halive' =>
    refine ⟨halive, fun hrun => ?_⟩
    rw [Running, huser] at hrun
    cases hrun.1
  | @create j f huser hdead =>
    have hne : i ≠ j := fun heq => he heq.symm
    have hsame : (s.create L j f).alive i = s.alive i := Function.update_of_ne hne _ _
    rw [hsame] at halive
    exact ⟨halive, hi⟩
  | @terminate j huser =>
    refine ⟨?_, hi⟩
    by_cases hne : i = j
    · subst hne
      simp at halive
    · simpa [hne] using halive

/-- **Everybody who does not run is suspended**, in the context of its last call. -/
theorem suspended_of_run {s₀ : Board ι} {es : List (Activity ι)} (h0 : s₀.Boot)
    (h : Run (Step L) s₀ es s) :
    (∀ i, s.alive i = true → ¬ s.Running i → ∃ c l,
      Run.Since (Step L) (Suspends L i c l) (Touches i) s₀ es s ∧ Suspended L s i c l) ∧
    (s.user = true → ∃ c,
      Run.Since (Step L) (KernelSuspends c) IsExit s₀ es s ∧ KernelSuspended L s c) := by
  induction h with
  | nil =>
    refine ⟨fun i hi => ?_, fun huser => ?_⟩
    · rw [h0.2 i] at hi
      cases hi
    · rw [h0.1] at huser
      cases huser
  | @snoc t u es e hrun hs ih =>
    obtain ⟨htasks, hkernel⟩ := ih
    refine ⟨fun i halive hi => ?_, fun huser => ?_⟩
    · by_cases he : Touches i e
      · cases hs with
        | enter huser hroom =>
          obtain rfl : t.cp = i := he
          exact ⟨_, _, Run.Since.now hrun (.enter huser hroom) (.enter rfl rfl),
            suspended_enter hroom⟩
        | exit huser halive' hroom => exact absurd ⟨rfl, he⟩ hi
        | create huser hdead =>
          obtain rfl := he
          exact ⟨_, _, Run.Since.now hrun (.create huser hdead) (.create rfl rfl),
            suspended_create _ _ _⟩
        | work hmem => exact he.elim
        | dispatch huser halive' => exact he.elim
        | terminate huser => exact he.elim
      · obtain ⟨halive', hi'⟩ := hs.before he halive hi
        obtain ⟨c, l, hsince, hsusp⟩ := htasks i halive' hi'
        exact ⟨c, l, hsince.snoc hs he, hsusp.step hs he hi'⟩
    · cases hs with
      | work hmem =>
        obtain ⟨c, hsince, hsusp⟩ := hkernel huser
        have hquiet : ¬ IsExit (Activity.work : Activity ι) := fun ⟨i, hi⟩ => by cases hi
        exact ⟨c, hsince.snoc (.work hmem) hquiet, hsusp.work huser hmem⟩
      | exit huser' halive hroom =>
        exact ⟨_, Run.Since.now hrun (.exit huser' halive hroom) ⟨⟨_, rfl⟩, rfl⟩,
          kernelSuspended_exit hroom⟩
      | enter huser' hroom => cases huser
      | dispatch huser' halive =>
        have huser₀ : t.user = true := huser
        rw [huser'] at huser₀
        cases huser₀
      | create huser' hdead =>
        have huser₀ : t.user = true := huser
        rw [huser'] at huser₀
        cases huser₀
      | terminate huser' =>
        have huser₀ : t.user = true := huser
        rw [huser'] at huser₀
        cases huser₀

/-- The task `i` is in the context of its last call of `Enter_Kernel`, with interrupts on.  If there
was none since its creation, it is at its function, and a return with the stack as it is goes to
`Task_Terminate`. -/
def Resumed (L : Layout ι) (s₀ : Board ι) (es : List (Activity ι)) (s : Board ι) (i : ι)
    (s' : Board ι) : Prop :=
  Run.Since (Step L) (fun t e _ => e = .enter i ∧ s'.cpu.toContext =
    { t.cpu.toContext with sreg := t.cpu.sreg ||| flagI }) (Touches i) s₀ es s ∨
  ∃ f, Run.Since (Step L) (fun _ e _ => e = .create i f) (Touches i) s₀ es s ∧
    s'.cpu.pc = f.setWidth 24 ∧
    ∀ m : Machine, m.sp = s'.cpu.sp → (∀ a, Above s'.cpu.sp 3 a → m.mem a = s'.cpu.mem a) →
      (m.execInstr .ret).pc = L.taskTerminate.setWidth 24

/-- The kernel is in the context of its last call of `Exit_Kernel`. -/
def KernelResumed (L : Layout ι) (s₀ : Board ι) (es : List (Activity ι)) (s s' : Board ι) : Prop :=
  Run.Since (Step L) (fun t e _ => (∃ i, e = .exit i) ∧ s'.cpu.toContext = t.cpu.toContext)
    IsExit s₀ es s

/-- **The context switch is transparent.**  In every run from power-on, whatever the tasks and the
kernel do on their own stacks, a task that is resumed has its registers, its stack pointer and its
place of execution from when it was suspended, and so has the kernel. -/
theorem context_switch_transparent (L : Layout ι) {s₀ s s' : Board ι} {es : List (Activity ι)}
    {i : ι} (h0 : s₀.Boot) (h : Run (Step L) s₀ es s) :
    (Step L s (.exit i) s' → Resumed L s₀ es s i s') ∧
      (Step L s (.enter i) s' → KernelResumed L s₀ es s s') := by
  obtain ⟨htasks, hkernel⟩ := suspended_of_run h0 h
  refine ⟨fun hs => ?_, fun hs => ?_⟩
  · cases hs with
    | exit huser halive hroom =>
      have hi : ¬ s.Running s.cp := by
        intro hrun
        rw [Running, huser] at hrun
        cases hrun.1
      obtain ⟨c, l, hsince, hsusp⟩ := htasks s.cp halive hi
      obtain ⟨hctx, hstack⟩ := hsusp.resume hroom
      obtain ⟨es₁, e, es₂, s₁, s₂, hes, hrun₁, hs₁, ho, hrun₂, hquiet⟩ := hsince
      cases ho with
      | enter hc hl =>
        subst hc
        exact Or.inl ⟨es₁, _, es₂, s₁, s₂, hes, hrun₁, hs₁, ⟨rfl, hctx⟩, hrun₂, hquiet⟩
      | @create _ f hc hl =>
        subst hc hl
        have hsp : (s.exit L).cpu.sp = (firstContext (L.workSpace s.cp) f).sp := by rw [hctx]
        refine Or.inr ⟨f, ⟨es₁, _, es₂, s₁, s₂, hes, hrun₁, hs₁, rfl, hrun₂, hquiet⟩, ?_, ?_⟩
        · rw [hctx]
          rfl
        · intro m hm hmem
          rw [← hsp] at hstack
          have hret : Stacked m.mem m.sp (pcBytes (L.taskTerminate.setWidth 24)) := by
            rw [hm]
            exact hstack.congr (by show 3 < 2 ^ 16; decide) hmem
          rw [Machine.execInstr, Machine.popPc_eq hret]
  · cases hs with
    | enter huser hroom =>
      obtain ⟨c, hsince, hsusp⟩ := hkernel huser
      have hctx := hsusp.resume hroom
      obtain ⟨es₁, e, es₂, s₁, s₂, hes, hrun₁, hs₁, ⟨hexit, hc⟩, hrun₂, hquiet⟩ := hsince
      rw [← hc] at hctx
      exact ⟨es₁, e, es₂, s₁, s₂, hes, hrun₁, hs₁, ⟨hexit, hctx⟩, hrun₂, hquiet⟩

/-- Two tasks, with a page each. -/
def twoTasks : Layout Bool where
  region a :=
    if (a - 0x400).toNat < 256 then .task false
    else if (a - 0x600).toNat < 256 then .task true
    else if (a - 0x300).toNat < 4 then .shadow
    else if (a - 0x2000).toNat < 256 then .kernel
    else .other
  workSpace i := if i then 0x600 else 0x400
  kernelSp := 0x300
  currentSp := 0x302
  taskTerminate := 0x777
  region_task := by
    intro i a
    by_cases h : (a - 0x400).toNat < 256
    · rw [if_pos h]
      cases i with
      | false => exact ⟨fun _ => h, fun _ => rfl⟩
      | true =>
        refine ⟨fun hr => (by cases hr), fun hr => ?_⟩
        have hr' : (a - 0x600).toNat < 256 := hr
        bv_omega
    · rw [if_neg h]
      by_cases h' : (a - 0x600).toNat < 256
      · rw [if_pos h']
        cases i with
        | false => exact ⟨fun hr => (by cases hr), fun hr => absurd hr h⟩
        | true => exact ⟨fun _ => h', fun _ => rfl⟩
      · rw [if_neg h']
        refine ⟨fun hr => ?_, fun hr => ?_⟩
        · split_ifs at hr
        · cases i with
          | false => exact absurd hr h
          | true => exact absurd hr h'
  kernelSp_shadow := by decide
  currentSp_shadow := by decide
  shadow_ne := by decide

/-- Power-on, with the stack of the kernel in place. -/
def powerOn : Board Bool where
  cpu := {
    reg := fun r => BitVec.ofNat 8 r
    sreg := 1
    eind := 0
    sp := 0x20FF
    pc := 0x55
    mem := fun _ => 0xAA
    io := fun _ => 0 }
  sp := fun _ => 0
  cp := false
  user := false
  alive := fun _ => false

theorem twoTasks_room_kernel {sp : Addr} (h : sp = 0x20FF) :
    ∀ a, Below sp 37 a → twoTasks.region a = .kernel := by
  intro a ha
  subst h
  rw [Below] at ha
  show (if (a - 0x400).toNat < 256 then _ else _) = _
  rw [if_neg (by bv_omega), if_neg (by bv_omega), if_neg (by bv_omega), if_pos (by bv_omega)]

theorem twoTasks_room_task {sp : Addr} (h : sp = 0x4FC) :
    ∀ a, Below sp 37 a → twoTasks.region a = .task false := by
  intro a ha
  subst h
  rw [Below] at ha
  apply (twoTasks.region_task false a).2
  show (a - 0x400).toNat < 256
  bv_omega

/-- The first task runs and changes its registers. -/
def firstRun : Board Bool :=
  let s := (powerOn.create twoTasks false 0x1234).exit twoTasks
  { s with cpu := { s.cpu with reg := fun r => BitVec.ofNat 8 (2 * r), sreg := 3, pc := 0x9999 } }

/-- It calls the kernel, which creates the second task and comes back to the first. -/
theorem context_switch_transparent_two_tasks :
    ∃ es s s', Run (Step twoTasks) powerOn es s ∧ Step twoTasks s (.exit false) s' ∧
      Resumed twoTasks powerOn es s false s' ∧
      s'.cpu.toContext = { firstRun.cpu.toContext with sreg := 0x83 } := by
  have hcreate : Step twoTasks powerOn (.create false 0x1234)
      (powerOn.create twoTasks false 0x1234) := .create rfl rfl
  have hexit : Step twoTasks (powerOn.create twoTasks false 0x1234) (.exit false)
      ((powerOn.create twoTasks false 0x1234).exit twoTasks) :=
    .exit rfl rfl (twoTasks_room_kernel rfl)
  have hwork : Step twoTasks ((powerOn.create twoTasks false 0x1234).exit twoTasks) .work
      firstRun := .work fun a _ _ => rfl
  have hroom := twoTasks_room_task (show firstRun.cpu.sp = 0x4FC by decide +kernel)
  have henter : Step twoTasks firstRun (.enter false) (firstRun.enter twoTasks) :=
    .enter rfl hroom
  have hsecond : Step twoTasks (firstRun.enter twoTasks) (.create true 0x5678)
      ((firstRun.enter twoTasks).create twoTasks true 0x5678) := .create rfl rfl
  have hkernel := twoTasks_room_kernel 
    (show (firstRun.enter twoTasks).cpu.sp = 0x20FF by decide +kernel)
  have hlast : Step twoTasks ((firstRun.enter twoTasks).create twoTasks true 0x5678) (.exit false)
      (((firstRun.enter twoTasks).create twoTasks true 0x5678).exit twoTasks) :=
    .exit rfl rfl hkernel
  have hsusp : Suspended twoTasks (firstRun.enter twoTasks) false firstRun.cpu.toContext [] :=
    suspended_enter hroom
  have hstay := hsusp.step hsecond (fun he => by cases he) (fun hrun => by cases hrun.1)
  have hrun := ((((Run.single hcreate).snoc hexit).snoc hwork).snoc henter).snoc hsecond
  refine ⟨_, _, _, hrun, hlast, ?_, ?_⟩
  · exact (context_switch_transparent twoTasks ⟨rfl, fun i => rfl⟩ hrun).1 hlast
  · exact (hstay.resume hkernel).1

end Board

end RoombaRtos
