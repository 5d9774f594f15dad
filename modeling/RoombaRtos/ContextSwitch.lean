import RoombaRtos.Common
import RoombaRtos.Lib.Avr
import RoombaRtos.Lib.Lockstep

/-!
# The context switch

The assembly of `cswitch.S` on the AVR, the first context that `Kernel_Task_Create_At` builds,
and the tasks and the kernel that share the processor through them.

* `saveCtx`, `restoreCtx`, `enterKernel`, `exitKernel` — the macros and the two routines;
* `kernelTaskCreateAt` — the workspace of a new task;
* `Layout` — where the stacks and the two shadow pointers lie in memory;
* `System.Step` — the kernel and the tasks, which work on their own stacks and switch;
* `context_switch_transparent` — whoever is resumed has its registers, its stack pointer and its
  place of execution from when it was suspended, and a new task starts at its function.

The code runs straight through with interrupts off.  The place of execution is followed only
across calls and returns.
-/

namespace RoombaRtos

open Avr Lockstep

/-! ### The assembly -/

/-- The locations of well-known registers. -/
def sregIo : BitVec 6 := 0x3F

def sphIo : BitVec 6 := 0x3E

def splIo : BitVec 6 := 0x3D

def eindIo : BitVec 6 := 0x3C

/-- `SAVECTX`. -/
def saveCtx : List Instr :=
  (List.finRange 32).map .push ++
    [.inp 31 eindIo, .push 31, .inp 31 sregIo, .push 31]

/-- `RESTORECTX`. -/
def restoreCtx : List Instr :=
  [.pop 31, .out sregIo 31, .pop 31, .out eindIo 31] ++
    (List.finRange 32).reverse.map .pop

/-- The stack pointer goes to one shadow pointer and comes from the other. -/
def switchSp (save load : Addr) : List Instr :=
  [.inp 30 splIo, .inp 31 sphIo, .sts save 30, .sts (save + 1) 31,
    .lds 30 load, .lds 31 (load + 1), .out splIo 30, .out sphIo 31]

/-- `Enter_Kernel`. -/
def enterKernel (kernelSp currentSp : Addr) : List Instr :=
  saveCtx ++ switchSp currentSp kernelSp ++ restoreCtx ++ [.ret]

/-- `Exit_Kernel`. -/
def exitKernel (kernelSp currentSp : Addr) : List Instr :=
  saveCtx ++ switchSp kernelSp currentSp ++ restoreCtx ++ [.reti]

/-- The bytes of a saved context, the last one pushed first. -/
def savedBytes (c : Context) : List Byte :=
  c.sreg :: c.eind :: (List.finRange 32).reverse.map c.reg

/-- A saved context and the address of return. -/
def frame (c : Context) : List Byte := savedBytes c ++ pcBytes c.pc

@[simp] theorem length_savedBytes (c : Context) : (savedBytes c).length = 34 := by
  simp [savedBytes]

@[simp] theorem length_frame (c : Context) : (frame c).length = 37 := by
  simp [frame, pcBytes]

variable {m : Machine} {c : Context}

/-- The status register and `EIND` go through a register. -/
theorem exec_saveStatus (m : Machine) :
    m.exec [.inp 31 eindIo, .push 31, .inp 31 sregIo, .push 31] = { m with
      reg := Function.update m.reg 31 m.sreg
      mem := writeDown m.mem m.sp [m.eind, m.sreg]
      sp := m.sp - 1 - 1 } := by
  simp [Machine.execInstr, Machine.setReg, Machine.ioRead, Machine.pushByte, eindIo, sregIo,
    writeDown]

theorem exec_restoreStatus {sreg eind : Byte} (h : Stacked m.mem m.sp [sreg, eind]) :
    m.exec [.pop 31, .out sregIo 31, .pop 31, .out eindIo 31] = { m with
      reg := Function.update m.reg 31 eind
      sreg := sreg
      eind := eind
      sp := m.sp + 1 + 1 } := by
  obtain ⟨hsreg, heind, -⟩ := h
  subst hsreg heind
  simp [Machine.execInstr, Machine.setReg, Machine.ioWrite, Machine.top, Machine.drop, eindIo,
    sregIo]

/-- `SAVECTX` pushes the registers, and clobbers one of them. -/
theorem exec_saveCtx (m : Machine) : m.exec saveCtx = { m with
    reg := Function.update m.reg 31 m.sreg
    mem := writeDown m.mem m.sp (savedBytes m.toContext).reverse
    sp := m.sp - 34 } := by
  have hbytes : (savedBytes m.toContext).reverse =
      (List.finRange 32).map m.reg ++ [m.eind, m.sreg] := by
    simp [savedBytes]
  have hsp : m.sp - BitVec.ofNat 16 (List.finRange 32).length - 1 - 1 = m.sp - 34 := by
    rw [List.length_finRange]
    bv_omega
  rw [saveCtx, Machine.exec_append, Machine.exec_push, exec_saveStatus, hbytes, writeDown_append,
    List.length_map, ← hsp]

/-- `RESTORECTX` takes them back. -/
theorem exec_restoreCtx (h : Stacked m.mem m.sp (savedBytes c)) : m.exec restoreCtx = { m with
    reg := c.reg
    sreg := c.sreg
    eind := c.eind
    sp := m.sp + 34 } := by
  obtain ⟨hstatus, hregs⟩ := stacked_append (l := [c.sreg, c.eind]).1 h
  have hsp : m.sp + 1 + 1 + BitVec.ofNat 16 (List.finRange 32).reverse.length = m.sp + 34 := by
    rw [List.length_reverse, List.length_finRange]
    bv_omega
  have hadd : m.sp + BitVec.ofNat 16 [c.sreg, c.eind].length = m.sp + 1 + 1 := by
    show m.sp + 2 = m.sp + 1 + 1
    bv_omega
  rw [hadd] at hregs
  rw [restoreCtx, Machine.exec_append, exec_restoreStatus hstatus, Machine.exec_pop hregs, ← hsp]
  simp

/-- The stack pointer is exchanged. -/
theorem exec_switchSp (m : Machine) {save load : Addr} : m.exec (switchSp save load) = { m with
    reg := Function.update (Function.update m.reg 30 (storeWord m.mem save m.sp load)) 31
      (storeWord m.mem save m.sp (load + 1))
    mem := storeWord m.mem save m.sp
    sp := loadWord (storeWord m.mem save m.sp) load } := by
  have hreg : ∀ (f : Reg → Byte) (b₁ b₂ b₃ b₄ : Byte),
      Function.update (Function.update (Function.update (Function.update f 30 b₁) 31 b₂) 30 b₃) 31
        b₄ = Function.update (Function.update f 30 b₃) 31 b₄ := by
    intro f b₁ b₂ b₃ b₄
    funext r
    simp only [Function.update_apply]
    split_ifs <;> rfl
  simp [switchSp, Machine.execInstr, Machine.setReg, Machine.ioRead, Machine.ioWrite,
    Machine.store, splIo, sphIo, word_low, storeWord, loadWord, hreg]

/-- The memory when the context is saved and the stack pointer is in the shadow pointer. -/
def parked (m : Machine) (save : Addr) : Addr → Byte :=
  storeWord (writeDown m.mem m.sp (frame m.toContext).reverse) save (m.sp - 37)

/-- The context `c` is on the stack `sp`, with the bytes `l` above it. -/
structure Saved (mem : Addr → Byte) (sp : Addr) (c : Context) (l : List Byte) : Prop where
  stacked : Stacked mem sp (frame c ++ l)
  sp_eq : c.sp = sp + 37

/-- A call and `SAVECTX` put the frame on the stack. -/
theorem exec_call_saveCtx (m : Machine) : m.call.exec saveCtx = { m with
    reg := Function.update m.reg 31 m.sreg
    mem := writeDown m.mem m.sp (frame m.toContext).reverse
    sp := m.sp - 37 } := by
  have hsp : m.sp - 3 - 34 = m.sp - 37 := by bv_omega
  rw [Machine.call_eq, exec_saveCtx, frame, List.reverse_append, writeDown_append, ← hsp]
  rfl

/-- Up to the last instruction. -/
theorem exec_switch (m : Machine) {save load : Addr} {l : List Byte}
    (h : Saved (parked m save) (loadWord (parked m save) load) c l) :
    m.call.exec (saveCtx ++ switchSp save load ++ restoreCtx) = { m with
      reg := c.reg
      sreg := c.sreg
      eind := c.eind
      mem := parked m save
      sp := loadWord (parked m save) load + 34 } := by
  obtain ⟨hstack, -⟩ := h
  rw [frame, List.append_assoc] at hstack
  have hsaved := (stacked_append.1 hstack).1
  rw [Machine.exec_append, Machine.exec_append, exec_call_saveCtx, exec_switchSp,
    exec_restoreCtx (c := c) hsaved]
  rfl

/-- The address of return is under the registers. -/
theorem popPc_switch (m : Machine) {save load : Addr} {l : List Byte}
    (h : Saved (parked m save) (loadWord (parked m save) load) c l) :
    (m.call.exec (saveCtx ++ switchSp save load ++ restoreCtx)).popPc =
      { toContext := c, mem := parked m save, io := m.io } := by
  obtain ⟨hstack, hsp⟩ := id h
  rw [frame, List.append_assoc] at hstack
  have hpc := (stacked_append.1 (stacked_append.1 hstack).2).1
  have hadd : loadWord (parked m save) load + 34 + 3 = c.sp := by
    rw [hsp]
    bv_omega
  rw [length_savedBytes] at hpc
  rw [exec_switch m h, Machine.popPc_eq hpc]
  simp only [hadd]

/-- **What is resumed is what was saved.** -/
theorem exec_switch_ret (m : Machine) {save load : Addr} {l : List Byte}
    (h : Saved (parked m save) (loadWord (parked m save) load) c l) :
    m.call.exec (saveCtx ++ switchSp save load ++ restoreCtx ++ [.ret]) =
      { toContext := c, mem := parked m save, io := m.io } := by
  rw [Machine.exec_append]
  exact popPc_switch m h

theorem exec_switch_reti (m : Machine) {save load : Addr} {l : List Byte}
    (h : Saved (parked m save) (loadWord (parked m save) load) c l) :
    m.call.exec (saveCtx ++ switchSp save load ++ restoreCtx ++ [.reti]) =
      { toContext := { c with sreg := c.sreg ||| flagI }, mem := parked m save, io := m.io } := by
  have hsreg := congrArg (fun m : Machine => m.sreg) (exec_switch m h)
  have hpop := popPc_switch m h
  rw [Machine.exec_append, Machine.exec_cons, Machine.exec_nil, Machine.execInstr, hpop, hsreg]

/-- Whatever is resumed, this is the memory. -/
theorem mem_exec_switch (m : Machine) (save load : Addr) (i : Instr)
    (hi : i.readOnly = true) :
    (m.call.exec (saveCtx ++ switchSp save load ++ restoreCtx ++ [i])).mem = parked m save := by
  have hrestore : ∀ i' ∈ restoreCtx, i'.readOnly = true := by decide
  have hro : ∀ i' ∈ restoreCtx ++ [i], i'.readOnly = true := by
    rw [List.forall_mem_append, List.forall_mem_singleton]
    exact ⟨hrestore, hi⟩
  rw [List.append_assoc, Machine.exec_append, Machine.mem_exec_of_readOnly hro,
    Machine.exec_append, exec_call_saveCtx, exec_switchSp]
  rfl

/-- Parking writes the frame and the shadow pointer. -/
theorem parked_of_not_below {save a : Addr} (h : ¬ Below m.sp 37 a) (hne : a ≠ save)
    (hne' : a ≠ save + 1) : parked m save a = m.mem a := by
  rw [parked, storeWord_of_ne _ hne hne', writeDown_of_not_below]
  rw [List.length_reverse, length_frame]
  exact h

/-- **What is parked is saved.** -/
theorem saved_parked {save : Addr} (h : ¬ Below m.sp 37 save) (h' : ¬ Below m.sp 37 (save + 1)) :
    Saved (parked m save) (loadWord (parked m save) save) m.toContext [] := by
  have hsp : loadWord (parked m save) save = m.sp - 37 := loadWord_storeWord _ _ _
  have hempty : Stacked m.mem m.sp [] := trivial
  have hlen : (frame m.toContext).reverse.length + ([] : List Byte).length < 2 ^ 16 := by
    rw [List.length_reverse, length_frame]
    decide
  have hstack := stacked_writeDown hempty (frame m.toContext).reverse hlen
  rw [List.length_reverse, length_frame, List.reverse_reverse] at hstack
  refine ⟨?_, ?_⟩
  · rw [hsp]
    apply hstack.congr
    · rw [List.append_nil, length_frame]
      decide
    · intro a ha
      rw [List.append_nil, length_frame] at ha
      have hbelow : Below m.sp 37 a := by
        obtain ⟨hpos, hle⟩ := ha
        rw [Below]
        bv_omega
      apply storeWord_of_ne
      · intro heq
        subst heq
        exact h hbelow
      · intro heq
        subst heq
        exact h' hbelow
  · rw [hsp]
    bv_omega

theorem Saved.congr {mem mem' : Addr → Byte} {sp : Addr} {l : List Byte} (h : Saved mem sp c l)
    (hl : l.length < 2 ^ 15) (hmem : ∀ a, Above sp (37 + l.length) a → mem' a = mem a) :
    Saved mem' sp c l := by
  refine ⟨h.stacked.congr ?_ fun a ha => hmem a ?_, h.sp_eq⟩
  · rw [List.length_append, length_frame]
    omega
  · rw [List.length_append, length_frame] at ha
    exact ha

/-! ### The first context of a task -/

/-- `WORKSPACE`. -/
def workspaceSize : ℕ := 256

/-- `ZeroMemory`. -/
def zeroMemory (mem : Addr → Byte) (a : Addr) (n : ℕ) : Addr → Byte :=
  fun b => if (b - a).toNat < n then 0 else mem b

/-- The bytes that `Kernel_Task_Create_At` stores from the end of the workspace down. -/
def firstBytes (taskTerminate f : BitVec 16) : List Byte :=
  [taskTerminate.setWidth 8, (taskTerminate >>> 8).setWidth 8, 0,
    f.setWidth 8, (f >>> 8).setWidth 8, 0]

/-- `Kernel_Task_Create_At`: the memory, and the stack pointer of the new task. -/
def kernelTaskCreateAt (taskTerminate : BitVec 16) (mem : Addr → Byte) (workSpace : Addr)
    (f : BitVec 16) : (Addr → Byte) × Addr :=
  let sp := workSpace + BitVec.ofNat 16 (workspaceSize - 1)
  let mem := zeroMemory mem workSpace workspaceSize
  let mem := writeDown mem sp (firstBytes taskTerminate f)
  (mem, sp - 6 - 34)

/-- The context in which a new task starts. -/
def firstContext (workSpace : Addr) (f : BitVec 16) : Context :=
  { reg := fun _ => 0
    sreg := 0
    eind := 0
    sp := workSpace + 252
    pc := f.setWidth 24 }

theorem kernelTaskCreateAt_eq (taskTerminate : BitVec 16) (mem : Addr → Byte) (workSpace : Addr)
    (f : BitVec 16) : kernelTaskCreateAt taskTerminate mem workSpace f =
      (writeDown (zeroMemory mem workSpace workspaceSize) (workSpace + 255)
        (firstBytes taskTerminate f), workSpace + 255 - 6 - 34) := rfl

/-- **The fabricated context is a saved one**, with the address of `Task_Terminate` above it. -/
theorem kernelTaskCreateAt_saved (taskTerminate : BitVec 16) (mem : Addr → Byte)
    (workSpace : Addr) (f : BitVec 16) :
    Saved (kernelTaskCreateAt taskTerminate mem workSpace f).1
      (kernelTaskCreateAt taskTerminate mem workSpace f).2 (firstContext workSpace f)
      (pcBytes (taskTerminate.setWidth 24)) := by
  rw [kernelTaskCreateAt_eq]
  set sp := workSpace + 255 with hsp
  set zeroed := zeroMemory mem workSpace workspaceSize with hzeroed
  have hstored : Stacked (writeDown zeroed sp (firstBytes taskTerminate f)) (sp - 6)
      (pcBytes (f.setWidth 24) ++ pcBytes (taskTerminate.setWidth 24)) := by
    have hempty : Stacked zeroed sp [] := trivial
    have hlen : (firstBytes taskTerminate f).length + 0 < 2 ^ 16 := by
      show 6 < 2 ^ 16
      decide
    have h := stacked_writeDown hempty (firstBytes taskTerminate f) hlen
    have hsix : BitVec.ofNat 16 (firstBytes taskTerminate f).length = 6 := rfl
    rw [hsix, List.append_nil] at h
    rw [pcBytes_setWidth, pcBytes_setWidth]
    exact h
  have hzero : Stacked (writeDown zeroed sp (firstBytes taskTerminate f)) (sp - 6 - 34)
      (List.replicate 34 0) := by
    apply stacked_replicate (by decide)
    intro a ha
    obtain ⟨hpos, hle⟩ := ha
    have hbelow : ¬ Below sp (firstBytes taskTerminate f).length a := by
      show ¬ (sp - a).toNat < 6
      bv_omega
    rw [writeDown_of_not_below hbelow, hzeroed, zeroMemory, if_pos]
    show (a - workSpace).toNat < 256
    rw [hsp] at hpos hle
    bv_omega
  refine ⟨?_, ?_⟩
  · have hframe : frame (firstContext workSpace f) =
        List.replicate 34 0 ++ pcBytes (f.setWidth 24) := rfl
    have hadd : sp - 6 - 34 + BitVec.ofNat 16 (List.replicate 34 (0 : Byte)).length = sp - 6 := by
      rw [List.length_replicate]
      bv_omega
    rw [← hadd] at hstored
    rw [hframe, List.append_assoc]
    exact stacked_append.2 ⟨hzero, hstored⟩
  · show workSpace + 252 = sp - 6 - 34 + 37
    rw [hsp]
    bv_omega

/-- Memory outside of the workspace is left alone. -/
theorem kernelTaskCreateAt_mem {taskTerminate : BitVec 16} {mem : Addr → Byte}
    {workSpace : Addr} {f : BitVec 16} {a : Addr} (ha : ¬ (a - workSpace).toNat < workspaceSize) :
    (kernelTaskCreateAt taskTerminate mem workSpace f).1 a = mem a := by
  have hbelow : ¬ Below (workSpace + 255) (firstBytes taskTerminate f).length a := by
    show ¬ (workSpace + 255 - a).toNat < 6
    rw [workspaceSize] at ha
    bv_omega
  rw [kernelTaskCreateAt_eq]
  show writeDown _ _ _ a = _
  rw [writeDown_of_not_below hbelow, zeroMemory, if_neg ha]

end RoombaRtos
