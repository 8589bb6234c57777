import TinuOS.Interrupts.Ticks
import TinuOS.Monitor.Model
import TinuOS.Rtc.Model

/-! `kernel_main` from `sti` to `paging_install`, with the interrupts that come between its statements. -/

namespace TinuOS.Kernel

open Library Monitor Interrupts

inductive Phase
  | initTimer
  | rtcInstall
  | sleep
  | waiting
  | rtcHandler
  | rtcPrintStruct
  | pagingInstall
  deriving DecidableEq

inductive Handler
  | timerCallback
  deriving DecidableEq

/-- What there is beside the counter: the bytes that went to the timer chip, the variables `bcd`, `end`
and `current_time`, the terminal and the clock. -/
structure State (δ : Type*) where
  phase : Phase
  outs : List (BitVec 8 × BitVec 16)
  bcd : Bool
  deadline : BitVec 32
  currentTime : Rtc.Time
  terminal : Terminal
  rtc : δ

abbrev World (δ : Type*) := Env Handler (Timer.Clock × State δ)

variable {δ : Type*}

def World.put (k : World δ) (s : State δ) : World δ := { k with state := (k.state.1, s) }

def code : Code Handler (Timer.Clock × State δ)
  | .timerCallback, _, k => { k with state := (Timer.timerCallback k.state.1, k.state.2) }

def Named (t : Rtc.Time) : Prop :=
  (0 ≤ (t.dayOfWeek.toNat : ℤ) - 2 ∧ (t.dayOfWeek.toNat : ℤ) - 2 < Rtc.datesStr.length) ∧
    0 ≤ (t.month.toNat : ℤ) - 1 ∧ (t.month.toNat : ℤ) - 1 < Rtc.monthsStr.length

instance (t : Rtc.Time) : Decidable (Named t) := inferInstanceAs (Decidable (_ ∧ _))

variable (D : Rtc.Device δ) (I : Rtc.Image) (U : Rtc.Unset)

def next (fuel : ℕ) (k : World δ) : World δ :=
  let s := k.state.2
  match s.phase with
  | .initTimer =>
    let m := Timer.initTimer ⟨fun _ => none, s.outs⟩ 1000
    (k.put { s with phase := .rtcInstall, outs := m.outs }).registerInterruptHandler 32 .timerCallback
  | .rtcInstall =>
    let (bcd, rtc) := Rtc.rtcInstall D s.rtc
    k.put { s with phase := .sleep, bcd, rtc }
  | .sleep => k.put { s with phase := .waiting, deadline := k.state.1.tick + 40 }
  | .waiting => if k.state.1.tick < s.deadline then k else k.put { s with phase := .rtcHandler }
  | .rtcHandler =>
    ((Rtc.rtcHandler D U.curr s.currentTime s.rtc fuel).map fun r =>
      k.put { s with phase := .rtcPrintStruct, currentTime := r.currentTime, rtc := r.device }).getD k
  | .rtcPrintStruct =>
    -- a word read outside a table may be no string at all: the kernel is not followed beyond that
    if Named s.currentTime then
      ((Rtc.rtcPrintStruct terminalPutchar I U s.currentTime ⟨s.terminal, []⟩ fuel).map fun z =>
        k.put { s with phase := .pagingInstall, terminal := z.terminal }).getD k
    else k
  | .pagingInstall => k

inductive Work : (World δ → World δ) → Prop
  | next (fuel : ℕ) : Work (next D I U fuel)
  | clock (f : δ → δ) : Work fun k => k.put { k.state.2 with rtc := f k.state.2.rtc }

/-- At `sti`: nothing has been counted, and the screen is blank. -/
structure Entered (memory : ℕ → BitVec 16) (k : World δ) : Prop where
  tick : k.state.1.tick = 0
  phase : k.state.2.phase = .initTimer
  terminal : k.state.2.terminal = booted memory

end TinuOS.Kernel
