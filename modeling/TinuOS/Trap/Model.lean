import TinuOS.Library.Stack

/-! `boot.S`: how an interrupt gets to its handler and back. The arithmetic flags are left out, and
so is `iretl` itself, which the return sequence ends at. -/

namespace TinuOS.Trap

open Library Mem

inductive Reg
  | eax
  | ecx
  | edx
  | ebx
  | esp
  | ebp
  | esi
  | edi
  deriving DecidableEq

inductive Seg
  | ds
  | es
  | fs
  | gs
  deriving DecidableEq

structure Cpu where
  reg : Reg → BitVec 32
  seg : Seg → BitVec 16
  intr : Bool
  mem : Mem

/-- The instructions of the stubs. `movw` between a segment register and the low half of another
register, and from an immediate to the low half, are three instructions here. -/
inductive Instr
  | cli
  | sti
  | pushl (v : BitVec 32)
  | pushReg (r : Reg)
  | popReg (r : Reg)
  | pushal
  | popal
  | movwFrom (s : Seg) (r : Reg)
  | movwTo (r : Reg) (s : Seg)
  | movwImm (v : BitVec 16) (r : Reg)
  | addl (v : BitVec 32) (r : Reg)

namespace Cpu

def set (σ : Cpu) (r : Reg) (v : BitVec 32) : Cpu := { σ with reg := Function.update σ.reg r v }

def setLow (σ : Cpu) (r : Reg) (v : BitVec 16) : Cpu := σ.set r ((σ.reg r).extractLsb' 16 16 ++ v)

def push (σ : Cpu) (v : BitVec 32) : Cpu :=
  { σ.set .esp (σ.reg .esp - 4#32) with mem := σ.mem.store32 (σ.reg .esp - 4#32) v }

def top (σ : Cpu) : BitVec 32 := σ.mem.load32 (σ.reg .esp)

def drop (σ : Cpu) (n : BitVec 32) : Cpu := σ.set .esp (σ.reg .esp + n)

def pop (σ : Cpu) (r : Reg) : Cpu := (σ.drop 4#32).set r σ.top

def exec (σ : Cpu) : Instr → Cpu
  | .cli => { σ with intr := false }
  | .sti => { σ with intr := true }
  | .pushl v => σ.push v
  | .pushReg r => σ.push (σ.reg r)
  | .popReg r => σ.pop r
  | .pushal => [.eax, .ecx, .edx, .ebx, .esp, .ebp, .esi, .edi].foldl (fun τ r => τ.push (σ.reg r)) σ
  | .popal =>
    let σ := [.edi, .esi, .ebp].foldl pop σ
    let σ := σ.drop 4#32
    [.ebx, .edx, .ecx, .eax].foldl pop σ
  | .movwFrom s r => σ.setLow r (σ.seg s)
  | .movwTo r s => { σ with seg := Function.update σ.seg s ((σ.reg r).setWidth 16) }
  | .movwImm v r => σ.setLow r v
  | .addl v r => σ.set r (σ.reg r + v)

def run (σ : Cpu) (code : List Instr) : Cpu := code.foldl exec σ

end Cpu

structure Biosregs where
  ds : BitVec 32
  edi : BitVec 32
  esi : BitVec 32
  ebp : BitVec 32
  esp : BitVec 32
  ebx : BitVec 32
  edx : BitVec 32
  ecx : BitVec 32
  eax : BitVec 32
  intNo : BitVec 32
  errCode : BitVec 32
  eip : BitVec 32
  cs : BitVec 32
  eflags : BitVec 32
  useresp : BitVec 32
  ss : BitVec 32
  deriving DecidableEq

def sizeofBiosregs : ℕ := 64

def biosregs (m : Mem) (a : Addr) : Biosregs where
  ds := m.load32 a
  edi := m.load32 (a + 4#32)
  esi := m.load32 (a + 8#32)
  ebp := m.load32 (a + 12#32)
  esp := m.load32 (a + 16#32)
  ebx := m.load32 (a + 20#32)
  edx := m.load32 (a + 24#32)
  ecx := m.load32 (a + 28#32)
  eax := m.load32 (a + 32#32)
  intNo := m.load32 (a + 36#32)
  errCode := m.load32 (a + 40#32)
  eip := m.load32 (a + 44#32)
  cs := m.load32 (a + 48#32)
  eflags := m.load32 (a + 52#32)
  useresp := m.load32 (a + 56#32)
  ss := m.load32 (a + 60#32)

def saveContext : List Instr :=
  [.pushal, .movwFrom .ds .eax, .pushReg .eax, .movwImm 0x10#16 .eax, .movwTo .eax .ds,
    .movwTo .eax .es, .movwTo .eax .fs, .movwTo .eax .gs]

def restoreContext : List Instr :=
  [.popReg .ebx, .movwTo .ebx .ds, .movwTo .ebx .es, .movwTo .ebx .fs, .movwTo .ebx .gs, .popal,
    .addl 8#32 .esp, .sti]

def isrNoerrorcode (code : ℕ) : List Instr := [.cli, .pushl 0#32, .pushl (BitVec.ofNat 32 code)]

def isrErrorcode (code : ℕ) : List Instr := [.cli, .pushl (BitVec.ofNat 32 code)]

def irqErrorcode (two : ℕ) : List Instr := [.cli, .pushl 0#32, .pushl (BitVec.ofNat 32 two)]

def errorcodeStubs : List ℕ :=
  [8, 10, 11, 12, 13, 14, 17, 18, 19, 20, 21, 22, 23, 24, 25, 26, 27, 28, 29, 30, 31]

def isr (n : ℕ) : List Instr := if n ∈ errorcodeStubs then isrErrorcode n else isrNoerrorcode n

def irq (n : ℕ) : List Instr := irqErrorcode (32 + n)

inductive Interrupt
  | exception (n : Fin 32)
  | irq (n : Fin 16)
  deriving DecidableEq

namespace Interrupt

def vector : Interrupt → ℕ
  | .exception n => n
  | .irq n => 32 + n

def stub : Interrupt → List Instr
  | .exception n => isr n
  | .irq n => Trap.irq n

def errorVectors : List ℕ := [8, 10, 11, 12, 13, 14, 17, 21, 29, 30]

def pushesError (i : Interrupt) : Prop := i.vector ∈ errorVectors

instance (i : Interrupt) : Decidable i.pushesError := inferInstanceAs (Decidable (_ ∈ _))

end Interrupt

structure Frame where
  eip : BitVec 32
  cs : BitVec 32
  eflags : BitVec 32
  err : BitVec 32

def deliver (i : Interrupt) (f : Frame) (σ : Cpu) : Cpu :=
  let σ := ((σ.push f.eflags).push f.cs).push f.eip
  if i.pushesError then σ.push f.err else σ

/-- A common stub: what the handler finds, and the processor at `iretl`. `ret` is the return address
of the call. -/
def commonStub (handler : Cpu → Cpu) (ret : BitVec 32) (σ : Cpu) : Biosregs × Cpu :=
  let σ := (σ.run saveContext).push ret
  let regs := biosregs σ.mem (σ.reg .esp + 4#32)
  let σ := (handler σ).drop 4#32
  (regs, σ.run restoreContext)

def trap (handler : Cpu → Cpu) (ret : BitVec 32) (i : Interrupt) (f : Frame) (σ : Cpu) : Biosregs × Cpu :=
  commonStub handler ret ((deliver i f σ).run i.stub)

structure Returns (handler : Cpu → Cpu) : Prop where
  esp : ∀ σ, (handler σ).reg .esp = σ.reg .esp
  frame : ∀ σ, Agree (handler σ).mem σ.mem (span (σ.reg .esp + 4#32) sizeofBiosregs)

end TinuOS.Trap
