import Mathlib

/-! `io/timer.c`: the tick counter, the loop that waits for it, and the set-up of the timer chip. -/

namespace TinuOS.Timer

structure Clock where
  tick : BitVec 32
  printed : List String

def pitHandlerNest : BitVec 32 := 0

def timerCallback (s : Clock) : Clock :=
  let s := { s with tick := s.tick + 1 }
  if s.tick % 19 = 0 then
    if pitHandlerNest ≠ 0 then { s with printed := s.printed ++ ["PIT handler error"] } else s
  else s

inductive Event
  | interrupt
  | poll
  deriving DecidableEq

/-- How many interrupts have come when the loop ends; `none` while it still waits. -/
def sleepLoop (deadline : BitVec 32) : List Event → Clock → ℕ → Option ℕ
  | [], _, _ => none
  | .interrupt :: events, s, count => sleepLoop deadline events (timerCallback s) (count + 1)
  | .poll :: events, s, count => if s.tick < deadline then sleepLoop deadline events s count else some count

def sleep (s : Clock) (ticks : BitVec 32) (events : List Event) : Option ℕ :=
  sleepLoop (s.tick + ticks) events s 0

structure Machine where
  interruptDescriptors : BitVec 8 → Option (Clock → Clock)
  outs : List (BitVec 8 × BitVec 16)

def Machine.outb (m : Machine) (v : BitVec 8) (port : BitVec 16) : Machine :=
  { m with outs := m.outs ++ [(v, port)] }

def registerInterruptHandler (m : Machine) (n : BitVec 8) (handler : Clock → Clock) : Machine :=
  { m with interruptDescriptors := Function.update m.interruptDescriptors n (some handler) }

/-- For `frequency = 0` the processor raises an exception at the division. -/
def initTimer (m : Machine) (frequency : BitVec 32) : Machine :=
  let m := registerInterruptHandler m 32 timerCallback
  let divisor := 1193180 / frequency
  let m := m.outb 0x36 0x40
  let l := (divisor &&& 0xFF).setWidth 8
  let h := ((divisor >>> 8) &&& 0xFF).setWidth 8
  let m := m.outb l 0x40
  m.outb h 0x40

@[simp] lemma timerCallback_tick (s : Clock) : (timerCallback s).tick = s.tick + 1 := by
  simp only [timerCallback]
  split_ifs <;> rfl

end TinuOS.Timer
