import TinuOS.Library.Run
import TinuOS.Rtc.Reading

/-! The interrupts of the clock after `rtc_install`: there is at most one, as the code never reads the
status register C again. -/

namespace TinuOS.Rtc

open Library

def statusB : BitVec 8 := 0x0B
def statusC : BitVec 8 := 0x0C

def causes : BitVec 8 := 0x70

/-- The clock with its line to the interrupt controller. `flags` are the causes in the status register
C, and `edges` is how often the line has risen. -/
structure Chip where
  index : BitVec 8
  file : BitVec 8 → BitVec 8
  flags : BitVec 8
  edges : ℕ

namespace Chip

def irq (c : Chip) : Bool := c.flags &&& c.file statusB &&& causes ≠ 0

def follow (c old : Chip) : Chip := { c with edges := old.edges + if c.irq && !old.irq then 1 else 0 }

/-- C cannot be written, and is cleared when it is read. -/
def device : Device Chip where
  outb v port c :=
    if port = cmosAddress then { c with index := v &&& 0x7F }
    else if port = cmosData ∧ c.index ≠ statusC then
      { c with file := Function.update c.file c.index v }.follow c
    else c
  inb port c :=
    if port = cmosData then
      if c.index = statusC then
        ((c.flags &&& causes) ||| (if c.irq then 0x80 else 0), { c with flags := 0 })
      else (c.file c.index, c)
    else (0, c)

def timeRegisters : List (BitVec 8) := [0x00, 0x02, 0x04, 0x06, 0x07, 0x08, 0x09, 0x32]

def cycle (up : BitVec 8) (time : BitVec 8 → BitVec 8) (c : Chip) : Chip :=
  { c with
    flags := c.flags ||| up &&& causes
    file := fun r => if r ∈ timeRegisters then time r else c.file r }.follow c

end Chip

inductive ChipEvent
  | cycle (up : BitVec 8) (time : BitVec 8 → BitVec 8)
  | read (reg : BitVec 8)

def ChipEvent.updates : ChipEvent → Bool
  | .cycle up _ => up.getLsbD 4
  | .read _ => false

inductive Chip.Step : Chip → ChipEvent → Chip → Prop
  | cycle (c : Chip) (up : BitVec 8) (time : BitVec 8 → BitVec 8) : Step c (.cycle up time) (c.cycle up time)
  | read (c : Chip) {reg : BitVec 8} (h : reg ∈ Chip.timeRegisters) :
    Step c (.read reg) (readRegister Chip.device reg c).2

variable {c d : Chip} {e : ChipEvent} {es : List ChipEvent} {b reg up : BitVec 8} {time : BitVec 8 → BitVec 8}

lemma irq_eq (h : c.file statusB &&& causes = 0x10) : c.irq = c.flags.getLsbD 4 := by
  have hf : ∀ f : BitVec 8, decide (f &&& 0x10 ≠ 0) = f.getLsbD 4 := by decide
  rw [Chip.irq, BitVec.and_assoc, h]
  exact hf c.flags

structure Armed (start : Chip) (ended : Bool) (c : Chip) : Prop where
  rest : ∀ r, r ∉ Chip.timeRegisters → c.file r = start.file r
  irq : c.irq = ended
  edges : c.edges = start.edges + if ended then 1 else 0

section

variable {start : Chip} {ended : Bool}

lemma Armed.status (h : Armed start ended c) : c.file statusB = start.file statusB := h.rest _ (by decide)

lemma Armed.cycle (hb : start.file statusB &&& causes = 0x10) (h : Armed start ended c) :
    Armed start (ended || up.getLsbD 4) (c.cycle up time) := by
  have hrest : ∀ r, r ∉ Chip.timeRegisters → (c.cycle up time).file r = start.file r := by
    intro r hr
    rw [← h.rest r hr]
    exact if_neg hr
  have hup : ∀ f u : BitVec 8, (f ||| u &&& causes).getLsbD 4 = (f.getLsbD 4 || u.getLsbD 4) := by
    intro f u
    simp [causes]
  have hi : (c.cycle up time).irq = (ended || up.getLsbD 4) := by
    rw [irq_eq (by rw [hrest _ (by decide), hb]), ← h.irq, irq_eq (by rw [h.status, hb])]
    exact hup c.flags up
  refine ⟨hrest, hi, ?_⟩
  have he : (c.cycle up time).edges = c.edges + if (c.cycle up time).irq && !c.irq then 1 else 0 := rfl
  rw [he, hi, h.irq, h.edges]
  cases ended <;> simp

lemma Armed.read (h : Armed start ended c) (hr : reg ∈ Chip.timeRegisters) :
    Armed start ended (readRegister Chip.device reg c).2 := by
  have hidx : ∀ reg ∈ Chip.timeRegisters, reg &&& 0x7F ≠ statusC := by decide
  have he : (readRegister Chip.device reg c).2 = { c with index := reg &&& 0x7F } := by
    simp only [readRegister, Chip.device, if_true, if_neg (hidx reg hr)]
  rw [he]
  exact ⟨h.rest, h.irq, h.edges⟩

lemma Armed.step (hb : start.file statusB &&& causes = 0x10) (h : Armed start ended c) (hs : c.Step e d) :
    Armed start (ended || e.updates) d := by
  cases hs with
  | cycle up time => exact h.cycle hb
  | read hr => exact (Bool.or_false ended).symm ▸ h.read hr

lemma Armed.run (hb : start.file statusB &&& causes = 0x10) (h : Armed start ended c)
    (hr : Run Chip.Step c es d) : Armed start (ended || es.any ChipEvent.updates) d := by
  induction hr generalizing ended with
  | nil => simpa using h
  | cons hs _ ih =>
    rw [List.any_cons, ← Bool.or_assoc]
    exact ih (h.step hb hs)

end

end TinuOS.Rtc
