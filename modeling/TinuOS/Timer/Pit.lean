import TinuOS.Library.Word
import TinuOS.Timer.Model

/-! What the bytes written by `init_timer` do to channel 0 of the timer chip, whatever state it is in. -/

namespace TinuOS.Timer

open Library

inductive Access
  | low
  | high
  | lowHigh
  deriving DecidableEq

/-- In the mode with two bytes, `pending` is the low byte whose high byte is still to come. -/
structure Channel0 where
  access : Access
  mode : BitVec 3
  pending : Option (BitVec 8)
  reload : BitVec 16
  deriving DecidableEq

namespace Channel0

def setAccess (s : Channel0) (access : Access) (c : BitVec 8) : Channel0 :=
  let mode := (c >>> 1).setWidth 3
  { s with access, mode := if mode < 6 then mode else mode - 4, pending := none }

def command (s : Channel0) (c : BitVec 8) : Channel0 :=
  if c >>> 6 ≠ 0 then s
  else if c >>> 4 = 1 then s.setAccess .low c
  else if c >>> 4 = 2 then s.setAccess .high c
  else if c >>> 4 = 3 then s.setAccess .lowHigh c
  else s

def data (s : Channel0) (v : BitVec 8) : Channel0 :=
  match s.access, s.pending with
  | .low, _ => { s with reload := 0#8 ++ v }
  | .high, _ => { s with reload := v ++ 0#8 }
  | .lowHigh, none => { s with pending := some v }
  | .lowHigh, some l => { s with pending := none, reload := v ++ l }

def outb (s : Channel0) (w : BitVec 8 × BitVec 16) : Channel0 :=
  if w.2 = 0x43 then s.command w.1
  else if w.2 = 0x40 then s.data w.1
  else s

def after (s : Channel0) (outs : List (BitVec 8 × BitVec 16)) : Channel0 := outs.foldl outb s

def Programmed (s : Channel0) (frequency : BitVec 32) : Prop :=
  s.access = .lowHigh ∧ s.mode = 3 ∧ s.reload.toNat = 1193180 / frequency.toNat

end Channel0

variable {m : Machine} {s : Channel0} {frequency : BitVec 32} {v : BitVec 8}

def lowByte (frequency : BitVec 32) : BitVec 8 := (1193180 / frequency &&& 0xFF).setWidth 8

def highByte (frequency : BitVec 32) : BitVec 8 := ((1193180 / frequency) >>> 8 &&& 0xFF).setWidth 8

lemma initTimer_outs (m : Machine) (frequency : BitVec 32) : (initTimer m frequency).outs =
    m.outs ++ [(0x36, 0x40), (lowByte frequency, 0x40), (highByte frequency, 0x40)] := by
  simp only [initTimer, Machine.outb, registerInterruptHandler, List.append_assoc]
  rfl

lemma after_initTimer : s.after (initTimer m frequency).outs =
    (((s.after m.outs).data 0x36).data (lowByte frequency)).data (highByte frequency) := by
  rw [initTimer_outs, Channel0.after, List.foldl_append]
  rfl

@[simp] lemma data_access : (s.data v).access = s.access := by
  unfold Channel0.data
  split <;> simp_all

@[simp] lemma data_mode : (s.data v).mode = s.mode := by
  unfold Channel0.data
  split <;> rfl

lemma low_byte_toNat (d : BitVec 32) : ((d &&& 0xFF).setWidth 8).toNat = d.toNat % 256 := by
  have hm : (0xFF : BitVec 32).toNat = 2 ^ 8 - 1 := rfl
  rw [BitVec.toNat_setWidth, BitVec.toNat_and, hm, Nat.and_two_pow_sub_one_eq_mod]
  exact Nat.mod_mod _ _

lemma lowByte_toNat : (lowByte frequency).toNat = 1193180 / frequency.toNat % 256 := by
  rw [lowByte, low_byte_toNat, BitVec.toNat_udiv]
  rfl

lemma highByte_toNat : (highByte frequency).toNat = 1193180 / frequency.toNat / 256 % 256 := by
  rw [highByte, low_byte_toNat, BitVec.toNat_ushiftRight, Nat.shiftRight_eq_div_pow, BitVec.toNat_udiv]
  rfl

lemma divisor_lt (hf : 19 ≤ frequency.toNat) : 1193180 / frequency.toNat < 2 ^ 16 :=
  (Nat.div_le_div_left hf (by omega)).trans_lt (by decide)

lemma divisor_bytes (hf : 19 ≤ frequency.toNat) :
    (highByte frequency ++ lowByte frequency).toNat = 1193180 / frequency.toNat := by
  have hd := divisor_lt hf
  rw [joined_toNat, lowByte_toNat, highByte_toNat]
  generalize 1193180 / frequency.toNat = d at hd
  omega

lemma divisor_ne (f : ℕ) : 1193180 / f ≠ 0x3636 := by
  -- it would lie between the divisors of 85 and of 86 Hz
  intro h
  have hf : 0 < f := by
    by_contra h0
    rw [Nat.eq_zero_of_not_pos h0] at h
    exact absurd h (by decide)
  have hle : 0x3636 * f ≤ 1193180 := (Nat.le_div_iff_mul_le hf).mp h.ge
  have hlt : 1193180 < (0x3636 + 1) * f := (Nat.div_lt_iff_lt_mul hf).mp (by omega)
  omega

lemma three_bytes_reload {l h : BitVec 8} (ha : s.access = .lowHigh) :
    (((s.data 0x36).data l).data h).reload = if s.pending.isSome then h ++ l else l ++ 0x36#8 := by
  obtain ⟨access, mode, pending, reload⟩ := s
  obtain rfl : access = .lowHigh := ha
  cases pending with
  | none => rfl
  | some low => rfl

theorem initTimer_programs_iff (m : Machine) (s : Channel0) {frequency : BitVec 32}
    (hf : 19 ≤ frequency.toNat) :
    (s.after (initTimer m frequency).outs).Programmed frequency ↔
      (s.after m.outs).access = .lowHigh ∧ (s.after m.outs).mode = 3 ∧
        (s.after m.outs).pending.isSome := by
  rw [after_initTimer, Channel0.Programmed, data_access, data_access, data_access, data_mode, data_mode,
    data_mode]
  refine and_congr_right fun ha => and_congr_right fun _ => ?_
  rw [three_bytes_reload ha]
  split_ifs with hp
  · exact iff_of_true (divisor_bytes hf) hp
  · -- the command byte is taken for the low byte of the reload value
    rw [joined_toNat, lowByte_toNat]
    refine iff_of_false (fun h => ?_) hp
    have hne := divisor_ne frequency.toNat
    change _ + 54 = _ at h
    omega

theorem initTimer_programs_iff_1000 : let m : Machine := ⟨fun _ => none, []⟩
    let s : Channel0 := ⟨.lowHigh, 3, some 0, 0⟩
    (s.after (initTimer m 1000).outs).Programmed 1000 ↔
      (s.after m.outs).access = .lowHigh ∧ (s.after m.outs).mode = 3 ∧
        (s.after m.outs).pending.isSome :=
  initTimer_programs_iff _ _ (by decide)

theorem command_port_not_programmed : ¬ ∀ (m : Machine) (s : Channel0) (frequency : BitVec 32),
    19 ≤ frequency.toNat → frequency.toNat ≤ 1193180 →
    (s.after (initTimer m frequency).outs).Programmed frequency := by
  intro h
  -- the chip as the firmware leaves it, and the frequency that the kernel asks for
  have hp := (h ⟨fun _ => none, []⟩ ⟨.lowHigh, 3, none, 0⟩ 1000 (by decide) (by decide)).2.2
  exact absurd hp (by decide)

end TinuOS.Timer
