import TinuOS.Interrupts.Gates
import TinuOS.Interrupts.Pic
import TinuOS.Library.Run

/-! The kernel between interrupts, and what an interrupt does to it: from the line of a device through
the controllers, the gates and the stub to `irq_handler` and the handler in the table of `io/isrs.c`. -/

namespace TinuOS.Interrupts

open Library Trap

variable {H σ : Type*}

structure Env (H σ : Type*) where
  interruptDescriptors : BitVec 8 → Option H
  state : σ

namespace Env

def registerInterruptHandler (e : Env H σ) (n : BitVec 8) (handler : H) : Env H σ :=
  { e with interruptDescriptors := Function.update e.interruptDescriptors n (some handler) }

@[simp] lemma registerInterruptHandler_self (e : Env H σ) (n : BitVec 8) (handler : H) :
    (e.registerInterruptHandler n handler).interruptDescriptors n = some handler := by
  simp [registerInterruptHandler]

lemma registerInterruptHandler_of_ne (e : Env H σ) {n k : BitVec 8} (handler : H) (h : k ≠ n) :
    (e.registerInterruptHandler n handler).interruptDescriptors k = e.interruptDescriptors k :=
  Function.update_of_ne h _ _

end Env

structure Machine (H σ : Type*) where
  gp : Gdt
  id : Idt
  pics : Pics
  env : Env H σ

/-- The code behind the pointers. It has no access to the controllers: no handler of the kernel does. -/
abbrev Code (H σ : Type*) := H → Biosregs → Env H σ → Env H σ

variable (code : Code H σ)

def callHandler (e : Env H σ) (regs : Biosregs) : Env H σ :=
  match e.interruptDescriptors (regs.intNo.setWidth 8) with
  | some handler => code handler regs e
  | none => e

def irqHandler (m : Machine H σ) (regs : Biosregs) : Machine H σ :=
  let m := { m with pics := m.pics.endOfInterrupt regs.intNo }
  { m with env := callHandler code m.env regs }

structure Layout where
  stub : Interrupt → Addr
  stubOf : Addr → Option Interrupt
  stubAt : ∀ i, stubOf (stub i) = some i
  ret : Addr

variable (layout : Layout)

namespace Machine

def gdt (m : Machine H σ) : Machine H σ := { m with gp := Interrupts.gdt m.gp }

def idt (m : Machine H σ) : Machine H σ :=
  { m with
    pics := m.pics.irqRemap
    id := idtEntries layout.stub
    env := { m.env with interruptDescriptors := fun _ => none } }

def boot (m : Machine H σ) : Machine H σ := m.gdt.idt layout

/-- The processor asks for the vector after the master has chosen a line, and goes through its gate
to a stub. Only the stubs of `io/irq.c` end at `irq_handler`. -/
def take (m : Machine H σ) (i : Option (Fin 8)) (cpu : Cpu) (f : Frame) : Option (BitVec 8 × Machine H σ) :=
  let (v, pics) := m.pics.acknowledge i
  match (entry m.id m.gp v).bind layout.stubOf with
  | some (.irq n) =>
    some (v, irqHandler code { m with pics } (trap (fun σ => σ) layout.ret (.irq n) f cpu).1)
  | _ => none

end Machine

/-- In `late` the request has gone before the processor asks for its vector: before the master chose
a line, or between that and the answer of the slave. -/
inductive Event (H σ : Type*)
  | raise (n : Fin 16)
  | withdraw (n : Fin 16)
  | interrupt (v : BitVec 8) (cpu : Cpu) (f : Frame)
  | late (slave : Bool) (cpu : Cpu) (f : Frame)
  | work (g : Env H σ → Env H σ)

/-- Interrupts are off from the gate to `iretl`, so that an interrupt is one step. Line 2 belongs to
the slave. -/
inductive Machine.Step : Machine H σ → Event H σ → Machine H σ → Prop
  | raise (m : Machine H σ) {n : Fin 16} (hn : n ≠ 2) : Step m (.raise n) { m with pics := m.pics.set n true }
  | withdraw (m : Machine H σ) {n : Fin 16} (hn : n ≠ 2) : Step m (.withdraw n) { m with pics := m.pics.set n false }
  | interrupt {m t : Machine H σ} {i : Fin 8} {v : BitVec 8} {cpu : Cpu} {f : Frame} (hi : m.pics.selected = some i)
      (hc : cpu.intr = true) (ht : m.take code layout (some i) cpu f = some (v, t)) : Step m (.interrupt v cpu f) t
  | lateMaster {m t : Machine H σ} {v : BitVec 8} {cpu : Cpu} {f : Frame} (hi : m.pics.selected = none)
      (hc : cpu.intr = true) (ht : m.take code layout none cpu f = some (v, t)) : Step m (.late false cpu f) t
  | lateSlave {m t : Machine H σ} {v : BitVec 8} {cpu : Cpu} {f : Frame} (hi : m.pics.slave.request = none)
      (hs : m.pics.select true = some 2) (hc : cpu.intr = true)
      (ht : m.take code layout (some 2) cpu f = some (v, t)) : Step m (.late true cpu f) t
  | work (m : Machine H σ) (g : Env H σ → Env H σ) : Step m (.work g) { m with env := g m.env }

end TinuOS.Interrupts
