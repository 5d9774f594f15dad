import Mathlib.Algebra.Order.Ring.Nat
import Mathlib.Data.Fintype.Basic
import Mathlib.Data.List.FinRange
import Mathlib.Logic.Function.Basic

/-!
# A fragment of the AVR

The instructions that a context switch is made of, for a device with return addresses of three
bytes.

* `Machine` — the registers, the status register, `EIND`, the stack pointer, the place of
  execution, and the memory;
* `Instr`, `exec` — code that runs straight through;
* `Stacked` — the bytes on a stack; `Below` — the addresses that pushes write;
* `exec_push`, `exec_pop` — what runs of pushes and pops do.

A push writes at the stack pointer and then moves it down; a return address is pushed from its
low byte to its high byte, and popped from its high byte to its low byte.
-/

namespace Avr

abbrev Byte := BitVec 8
abbrev Addr := BitVec 16
abbrev Reg := Fin 32

/-- What a computation sees of the machine, apart from the memory. -/
structure Context where
  reg : Reg → Byte
  sreg : Byte
  eind : Byte
  sp : Addr
  pc : BitVec 24

structure Machine extends Context where
  mem : Addr → Byte
  /-- The other registers in the space of `in` and `out`. -/
  io : BitVec 6 → Byte

/-- The instructions in use; `in` and `out` take an address in the space of the I/O registers. -/
inductive Instr
  | push (r : Reg)
  | pop (r : Reg)
  | inp (r : Reg) (a : BitVec 6)
  | out (a : BitVec 6) (r : Reg)
  | sts (k : Addr) (r : Reg)
  | lds (r : Reg) (k : Addr)
  | ret
  | reti
deriving DecidableEq, Repr

/-- The flag `I` of the status register. -/
def flagI : Byte := 0x80

/-- Two bytes as a word. -/
def word (h l : Byte) : BitVec 16 := h ++ l

/-- Three bytes as an address of code. -/
def codeAddr (e h l : Byte) : BitVec 24 := e ++ h ++ l

theorem word_bytes (x : BitVec 16) : word ((x >>> 8).setWidth 8) (x.setWidth 8) = x := by
  apply BitVec.eq_of_getLsbD_eq
  intro i hi
  rw [word, BitVec.getLsbD_append]
  by_cases h : i < 8
  · simp [h]
  · have hadd : 8 + (i - 8) = i := by omega
    have hlt : i - 8 < 8 := by omega
    simp [h, hadd, hlt]

theorem word_low (h l : Byte) : (word h l).setWidth 8 = l := by
  apply BitVec.eq_of_getLsbD_eq
  intro i hi
  rw [word, BitVec.getLsbD_setWidth, BitVec.getLsbD_append]
  simp [hi]

theorem codeAddr_bytes (x : BitVec 24) :
    codeAddr (x.extractLsb' 16 8) (x.extractLsb' 8 8) (x.extractLsb' 0 8) = x := by
  apply BitVec.eq_of_getLsbD_eq
  intro i hi
  simp only [codeAddr, BitVec.getLsbD_append, BitVec.getLsbD_extractLsb']
  by_cases h : i < 8
  · simp [h]
  · by_cases h' : i - 8 < 8
    · have hadd : 8 + (i - 8) = i := by omega
      simp [h, h', hadd]
    · have hadd : 16 + (i - 8 - 8) = i := by omega
      have hlt : i - 8 - 8 < 8 := by omega
      simp [h, h', hadd, hlt]

namespace Machine

def setReg (m : Machine) (r : Reg) (b : Byte) : Machine :=
  { m with reg := Function.update m.reg r b }

def store (m : Machine) (a : Addr) (b : Byte) : Machine :=
  { m with mem := Function.update m.mem a b }

/-- Stores at the stack pointer, which moves down. -/
def pushByte (m : Machine) (b : Byte) : Machine :=
  { m with mem := Function.update m.mem m.sp b, sp := m.sp - 1 }

/-- The byte on top of the stack. -/
def top (m : Machine) : Byte := m.mem (m.sp + 1)

/-- The stack without its top byte. -/
def drop (m : Machine) : Machine := { m with sp := m.sp + 1 }

/-- An I/O register. -/
def ioRead (m : Machine) (a : BitVec 6) : Byte :=
  if a = 0x3F then m.sreg
  else if a = 0x3E then (m.sp >>> 8).setWidth 8
  else if a = 0x3D then m.sp.setWidth 8
  else if a = 0x3C then m.eind
  else m.io a

def ioWrite (m : Machine) (a : BitVec 6) (b : Byte) : Machine :=
  if a = 0x3F then { m with sreg := b }
  else if a = 0x3E then { m with sp := word b (m.sp.setWidth 8) }
  else if a = 0x3D then { m with sp := word ((m.sp >>> 8).setWidth 8) b }
  else if a = 0x3C then { m with eind := b }
  else { m with io := Function.update m.io a b }

/-- The address of return is on the stack, its high byte on top. -/
def popPc (m : Machine) : Machine :=
  { m.drop.drop.drop with pc := codeAddr m.top m.drop.top m.drop.drop.top }

/-- A call, up to the jump: the code called is not placed in memory. -/
def call (m : Machine) : Machine :=
  ((m.pushByte (m.pc.extractLsb' 0 8)).pushByte (m.pc.extractLsb' 8 8)).pushByte
    (m.pc.extractLsb' 16 8)

def execInstr (m : Machine) : Instr → Machine
  | .push r => m.pushByte (m.reg r)
  | .pop r => (m.drop).setReg r m.top
  | .inp r a => m.setReg r (m.ioRead a)
  | .out a r => m.ioWrite a (m.reg r)
  | .sts k r => m.store k (m.reg r)
  | .lds r k => m.setReg r (m.mem k)
  | .ret => m.popPc
  | .reti => { m.popPc with sreg := m.sreg ||| flagI }

/-- The instructions run one after the other. -/
def exec (m : Machine) (is : List Instr) : Machine := is.foldl execInstr m

@[simp] theorem exec_nil (m : Machine) : m.exec [] = m := rfl

@[simp] theorem exec_cons (m : Machine) (i : Instr) (is : List Instr) :
    m.exec (i :: is) = (m.execInstr i).exec is := rfl

theorem exec_append (m : Machine) (is is' : List Instr) :
    m.exec (is ++ is') = (m.exec is).exec is' := List.foldl_append

end Machine

/-! ### Stacks -/

variable {mem mem' : Addr → Byte} {sp a : Addr} {l l' : List Byte}

/-- The bytes `l` are on the stack, the first of them on top. -/
def Stacked (mem : Addr → Byte) (sp : Addr) : List Byte → Prop
  | [] => True
  | b :: l => mem (sp + 1) = b ∧ Stacked mem (sp + 1) l

/-- The addresses of `n` bytes on the stack. -/
def Above (sp : Addr) (n : ℕ) (a : Addr) : Prop := 0 < (a - sp).toNat ∧ (a - sp).toNat ≤ n

/-- The addresses that `n` pushes write. -/
def Below (sp : Addr) (n : ℕ) (a : Addr) : Prop := (sp - a).toNat < n

theorem stacked_append : Stacked mem sp (l ++ l') ↔
    Stacked mem sp l ∧ Stacked mem (sp + BitVec.ofNat 16 l.length) l' := by
  induction l generalizing sp with
  | nil => simp [Stacked]
  | cons b l ih =>
    have hadd : sp + 1 + BitVec.ofNat 16 l.length = sp + BitVec.ofNat 16 (l.length + 1) := by
      bv_omega
    rw [List.cons_append, Stacked, Stacked, ih, hadd, List.length_cons, and_assoc]

/-- What is on a stack depends on its addresses only. -/
theorem Stacked.congr (h : Stacked mem sp l) (hl : l.length < 2 ^ 16)
    (hmem : ∀ a, Above sp l.length a → mem' a = mem a) : Stacked mem' sp l := by
  induction l generalizing sp with
  | nil => trivial
  | cons b l ih =>
    rw [List.length_cons] at hl hmem
    refine ⟨?_, ih h.2 (by omega) fun a ha => hmem a ?_⟩
    · rw [hmem (sp + 1) ⟨by bv_omega, by bv_omega⟩]
      exact h.1
    · obtain ⟨hpos, hle⟩ := ha
      exact ⟨by bv_omega, by bv_omega⟩

theorem stacked_replicate {n : ℕ} {b : Byte} (hn : n < 2 ^ 16)
    (h : ∀ a, Above sp n a → mem a = b) : Stacked mem sp (List.replicate n b) := by
  induction n generalizing sp with
  | zero => trivial
  | succ n ih =>
    refine ⟨h (sp + 1) ⟨by bv_omega, by bv_omega⟩, ih (by omega) fun a ha => h a ?_⟩
    obtain ⟨hpos, hle⟩ := ha
    exact ⟨by bv_omega, by bv_omega⟩

/-- The memory after the bytes `bs` are stored, each below the one before. -/
def writeDown (mem : Addr → Byte) (sp : Addr) : List Byte → Addr → Byte
  | [] => mem
  | b :: bs => writeDown (Function.update mem sp b) (sp - 1) bs

theorem writeDown_append (mem : Addr → Byte) (sp : Addr) (bs bs' : List Byte) :
    writeDown mem sp (bs ++ bs') =
      writeDown (writeDown mem sp bs) (sp - BitVec.ofNat 16 bs.length) bs' := by
  induction bs generalizing mem sp with
  | nil => simp [writeDown]
  | cons b bs ih =>
    have hsub : sp - 1 - BitVec.ofNat 16 bs.length = sp - BitVec.ofNat 16 (bs.length + 1) := by
      bv_omega
    rw [List.cons_append, writeDown, ih, hsub, List.length_cons, writeDown]

/-- The other addresses keep what they hold. -/
theorem writeDown_of_not_below {bs : List Byte} (h : ¬ Below sp bs.length a) :
    writeDown mem sp bs a = mem a := by
  induction bs generalizing mem sp with
  | nil => rfl
  | cons b bs ih =>
    rw [Below, List.length_cons] at h
    have hne : a ≠ sp := by
      intro heq
      subst heq
      simp at h
    rw [writeDown, ih, Function.update_of_ne hne]
    rw [Below]
    bv_omega

/-- What is stored comes on top of the stack. -/
theorem stacked_writeDown (h : Stacked mem sp l) (bs : List Byte)
    (hl : bs.length + l.length < 2 ^ 16) :
    Stacked (writeDown mem sp bs) (sp - BitVec.ofNat 16 bs.length) (bs.reverse ++ l) := by
  induction bs generalizing mem sp l with
  | nil => simpa [writeDown] using h
  | cons b bs ih =>
    rw [List.length_cons] at hl
    have htop : Stacked (Function.update mem sp b) (sp - 1) (b :: l) := by
      have hsp : sp - 1 + 1 = sp := by bv_omega
      rw [Stacked, hsp, Function.update_self]
      refine ⟨rfl, h.congr (by omega) fun a ha => ?_⟩
      apply Function.update_of_ne
      intro heq
      subst heq
      have hpos := ha.1
      simp at hpos
    have hsub : sp - 1 - BitVec.ofNat 16 bs.length = sp - BitVec.ofNat 16 (bs.length + 1) := by
      bv_omega
    rw [writeDown, List.length_cons, ← hsub, List.reverse_cons, List.append_assoc]
    apply ih htop
    rw [List.length_cons]
    omega

/-- The bytes of a return address on the stack. -/
def pcBytes (pc : BitVec 24) : List Byte :=
  [pc.extractLsb' 16 8, pc.extractLsb' 8 8, pc.extractLsb' 0 8]

/-- Functions are at addresses of two bytes. -/
theorem pcBytes_setWidth (f : BitVec 16) :
    pcBytes (f.setWidth 24) = [(0 : Byte), (f >>> 8).setWidth 8, f.setWidth 8] := by
  have hf := f.isLt
  have hhigh : (f.setWidth 24).extractLsb' 16 8 = (0 : Byte) := by
    apply BitVec.eq_of_toNat_eq
    rw [BitVec.extractLsb'_toNat, BitVec.toNat_setWidth, Nat.shiftRight_eq_div_pow]
    show f.toNat % 2 ^ 24 / 2 ^ 16 % 2 ^ 8 = 0
    omega
  have hmid : (f.setWidth 24).extractLsb' 8 8 = (f >>> 8).setWidth 8 := by
    apply BitVec.eq_of_toNat_eq
    rw [BitVec.extractLsb'_toNat, BitVec.toNat_setWidth, BitVec.toNat_setWidth,
      BitVec.toNat_ushiftRight, Nat.mod_eq_of_lt (by omega : f.toNat < 2 ^ 24)]
  have hlow : (f.setWidth 24).extractLsb' 0 8 = f.setWidth 8 := by
    apply BitVec.eq_of_toNat_eq
    rw [BitVec.extractLsb'_toNat, BitVec.toNat_setWidth, BitVec.toNat_setWidth,
      Nat.mod_eq_of_lt (by omega : f.toNat < 2 ^ 24), Nat.shiftRight_zero]
  rw [pcBytes, hhigh, hmid, hlow]

/-- The word at an address, its low byte first. -/
def loadWord (mem : Addr → Byte) (a : Addr) : BitVec 16 := word (mem (a + 1)) (mem a)

def storeWord (mem : Addr → Byte) (a : Addr) (x : BitVec 16) : Addr → Byte :=
  Function.update (Function.update mem a (x.setWidth 8)) (a + 1) ((x >>> 8).setWidth 8)

theorem loadWord_storeWord (mem : Addr → Byte) (a : Addr) (x : BitVec 16) :
    loadWord (storeWord mem a x) a = x := by
  have hne : a ≠ a + 1 := by bv_omega
  rw [loadWord, storeWord, Function.update_self, Function.update_of_ne hne, Function.update_self,
    word_bytes]

theorem storeWord_of_ne (x : BitVec 16) {k : Addr} (h : a ≠ k) (h' : a ≠ k + 1) :
    storeWord mem k x a = mem a := by
  rw [storeWord, Function.update_of_ne h', Function.update_of_ne h]

theorem loadWord_congr (h : mem' a = mem a) (h' : mem' (a + 1) = mem (a + 1)) :
    loadWord mem' a = loadWord mem a := by
  rw [loadWord, loadWord, h, h']

/-- The instructions that leave the memory alone. -/
def Instr.readOnly : Instr → Bool
  | .push _ => false
  | .sts _ _ => false
  | _ => true

namespace Machine

variable {m : Machine}

theorem mem_exec_of_readOnly {is : List Instr} (h : ∀ i ∈ is, i.readOnly = true) :
    (m.exec is).mem = m.mem := by
  induction is generalizing m with
  | nil => rfl
  | cons i is ih =>
    obtain ⟨hi, his⟩ := List.forall_mem_cons.1 h
    have hmem : (m.execInstr i).mem = m.mem := by
      cases i with
      | push r => cases hi
      | sts k r => cases hi
      | pop r => rfl
      | inp r a => rfl
      | lds r k => rfl
      | ret => rfl
      | reti => rfl
      | out a r =>
        rw [execInstr, ioWrite]
        split_ifs <;> rfl
    rw [exec_cons, ih his, hmem]

/-- A call puts the address of return on the stack. -/
theorem call_eq (m : Machine) : m.call = { m with
    mem := writeDown m.mem m.sp (pcBytes m.pc).reverse
    sp := m.sp - 3 } := by
  have hsp : m.sp - 1 - 1 - 1 = m.sp - 3 := by bv_omega
  rw [← hsp]
  rfl

/-- A return takes it from there. -/
theorem popPc_eq {pc : BitVec 24} (h : Stacked m.mem m.sp (pcBytes pc)) :
    m.popPc = { m with pc := pc, sp := m.sp + 3 } := by
  obtain ⟨hhigh, hmid, hlow, -⟩ := h
  have hsp : m.sp + 1 + 1 + 1 = m.sp + 3 := by bv_omega
  have hpc : codeAddr m.top m.drop.top m.drop.drop.top = pc := by
    rw [← codeAddr_bytes pc, ← hhigh, ← hmid, ← hlow]
    rfl
  rw [popPc, hpc, ← hsp]
  rfl

theorem exec_push (m : Machine) (rs : List Reg) :
    m.exec (rs.map .push) = { m with
      mem := writeDown m.mem m.sp (rs.map m.reg)
      sp := m.sp - BitVec.ofNat 16 rs.length } := by
  induction rs generalizing m with
  | nil => simp [writeDown]
  | cons r rs ih =>
    have hsub : m.sp - 1 - BitVec.ofNat 16 rs.length = m.sp - BitVec.ofNat 16 (rs.length + 1) := by
      bv_omega
    rw [List.map_cons, exec_cons, ih, List.length_cons, ← hsub]
    rfl

/-- Pops that find the values `v` on the stack. -/
theorem exec_pop {rs : List Reg} {v : Reg → Byte} (h : Stacked m.mem m.sp (rs.map v)) :
    m.exec (rs.map .pop) = { m with
      reg := fun r => if r ∈ rs then v r else m.reg r
      sp := m.sp + BitVec.ofNat 16 rs.length } := by
  induction rs generalizing m with
  | nil => simp
  | cons r rs ih =>
    have hadd : m.sp + 1 + BitVec.ofNat 16 rs.length = m.sp + BitVec.ofNat 16 (rs.length + 1) := by
      bv_omega
    have hreg : (fun r' => if r' ∈ rs then v r' else Function.update m.reg r (v r) r') =
        fun r' => if r' ∈ r :: rs then v r' else m.reg r' := by
      funext r'
      by_cases hr : r' = r
      · subst hr
        simp
      · simp [hr]
    obtain ⟨htop, hrest⟩ := h
    have hpop : m.execInstr (.pop r) = m.drop.setReg r (v r) := by
      show m.drop.setReg r (m.mem (m.sp + 1)) = _
      rw [htop]
    rw [List.map_cons, exec_cons, hpop, ih hrest, List.length_cons, ← hadd, ← hreg]
    rfl

end Machine

end Avr
