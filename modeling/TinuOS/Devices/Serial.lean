import Mathlib

/-! `devices/early_serial_printk.c`: text for the serial port. What the reads of a port return is given
one value after the other, and a run for which the values do not suffice is still polling. -/

namespace TinuOS.Devices

def ioBase : BitVec 16 := 0x3F8
def thrReg : BitVec 16 := ioBase + 0
def lsReg : BitVec 16 := ioBase + 0
def lsrReg : BitVec 16 := ioBase + 5

inductive PortAccess
  | inb (port : BitVec 16) (v : BitVec 8)
  | outb (v : BitVec 8) (port : BitVec 16)
  deriving DecidableEq

structure Line where
  answers : List (BitVec 8)
  trace : List PortAccess

def earlySerialPutc (v : BitVec 8) : BitVec 8 := v &&& 0x20

/-- The function hands `outb` the base address for the byte and the character for the port. -/
def earlySerialWrite (ch : BitVec 8) : List (BitVec 8) → List PortAccess → Except (List PortAccess) Line
  | [], trace => .error trace
  | v :: answers, trace =>
    let trace := trace ++ [.inb lsReg v]
    if earlySerialPutc v = 0 then earlySerialWrite ch answers trace
    else .ok ⟨answers, trace ++ [.outb (ioBase.setWidth 8) (ch.signExtend 16)]⟩

def serialPrint (port : BitVec 32) : List (BitVec 8) → Line → Except (List PortAccess) Line
  | [], s => .ok s
  | ch :: buf, s => (earlySerialWrite ch s.answers s.trace).bind (serialPrint port buf)

def accesses : Except (List PortAccess) Line → List PortAccess
  | .error trace => trace
  | .ok s => s.trace

def sentTo (port : BitVec 16) : PortAccess → Option (BitVec 8)
  | .outb v p => if p = port then some v else none
  | .inb _ _ => none

structure Delivers (buf : List (BitVec 8)) (r : Except (List PortAccess) Line) : Prop where
  order : (accesses r).filterMap (sentTo thrReg) <+: buf
  complete : r.isOk → (accesses r).filterMap (sentTo thrReg) = buf
  port : ∀ v p, .outb v p ∈ accesses r → p = thrReg
  gated : ∀ pre v p post, accesses r = pre ++ .outb v p :: post → ∃ before a between,
    pre = before ++ .inb lsrReg a :: between ∧ a &&& 0x20 ≠ 0 ∧ ∀ w q, .outb w q ∉ between

variable {ch : BitVec 8} {buf answers : List (BitVec 8)} {trace : List PortAccess} {s : Line}
  {port : BitVec 32}

lemma earlySerialWrite_waits (h : ∀ a ∈ answers, a &&& 0x20 = 0) :
    earlySerialWrite ch answers trace = .error (trace ++ answers.map (.inb lsReg)) := by
  induction answers generalizing trace with
  | nil => simp [earlySerialWrite]
  | cons a answers ih =>
    have ha : earlySerialPutc a = 0 := h a List.mem_cons_self
    rw [earlySerialWrite, if_pos ha, ih fun b hb => h b (List.mem_cons_of_mem a hb)]
    simp

lemma earlySerialWrite_sends (ch : BitVec 8) (trace : List PortAccess)
    (h : ∃ a ∈ answers, a &&& 0x20 ≠ 0) : ∃ s, earlySerialWrite ch answers trace = .ok s ∧
      .outb (ioBase.setWidth 8) (ch.signExtend 16) ∈ s.trace := by
  induction answers generalizing trace with
  | nil => simp at h
  | cons a answers ih =>
    by_cases ha : earlySerialPutc a = 0
    · obtain ⟨b, hb, hb0⟩ := h
      have hne : b ≠ a := by
        rintro rfl
        exact hb0 ha
      rw [earlySerialWrite, if_pos ha]
      exact ih _ ⟨b, (List.mem_cons.mp hb).resolve_left hne, hb0⟩
    · rw [earlySerialWrite, if_neg ha]
      exact ⟨_, rfl, by simp⟩

lemma earlySerialWrite_trace (ch : BitVec 8) (answers : List (BitVec 8)) (trace : List PortAccess) :
    trace ⊆ accesses (earlySerialWrite ch answers trace) := by
  induction answers generalizing trace with
  | nil => exact List.Subset.refl trace
  | cons a answers ih =>
    rw [earlySerialWrite]
    split_ifs
    · exact List.Subset.trans (List.subset_append_left _ _) (ih _)
    · rw [List.append_assoc]
      exact List.subset_append_left _ _

lemma serialPrint_trace : s.trace ⊆ accesses (serialPrint port buf s) := by
  induction buf generalizing s with
  | nil => exact List.Subset.refl s.trace
  | cons ch buf ih =>
    have hw := earlySerialWrite_trace ch s.answers s.trace
    rw [serialPrint]
    cases he : earlySerialWrite ch s.answers s.trace with
    | error trace =>
      rw [he] at hw
      exact hw
    | ok t =>
      rw [he] at hw
      exact List.Subset.trans hw ih

lemma signExtend_ne_thrReg : ∀ ch : BitVec 8, ch.signExtend 16 ≠ thrReg := by decide

lemma delivers_of_silent {r : Except (List PortAccess) Line} (h : ∀ v p, .outb v p ∉ accesses r)
    (hc : r.isOk → buf = []) : Delivers buf r := by
  have hs : (accesses r).filterMap (sentTo thrReg) = [] := by
    rw [List.filterMap_eq_nil_iff]
    intro a ha
    cases a with
    | inb p v => rfl
    | outb v p => exact absurd ha (h v p)
  refine ⟨?_, fun hok => ?_, fun v p hm => absurd hm (h v p), fun pre v p post he => ?_⟩
  · rw [hs]
    exact List.nil_prefix
  · rw [hs, hc hok]
  · exact absurd (he ▸ List.mem_append_right pre List.mem_cons_self) (h v p)

theorem serialPrint_delivers_iff (port : BitVec 32) (buf answers : List (BitVec 8)) :
    Delivers buf (serialPrint port buf ⟨answers, []⟩) ↔ buf = [] ∨ ∀ a ∈ answers, a &&& 0x20 = 0 := by
  constructor
  · intro h
    by_contra hn
    obtain ⟨hb, hnot⟩ := not_or.mp hn
    have ha : ∃ a ∈ answers, a &&& 0x20 ≠ 0 := by simpa using hnot
    cases buf with
    | nil => exact hb rfl
    | cons ch buf =>
      obtain ⟨s, hs, hm⟩ := earlySerialWrite_sends ch [] ha
      have hp := h.port (ioBase.setWidth 8) (ch.signExtend 16)
      rw [serialPrint, hs] at hp
      exact signExtend_ne_thrReg ch (hp (serialPrint_trace hm))
  · rintro (rfl | ha)
    · exact delivers_of_silent (by simp [serialPrint, accesses]) fun _ => rfl
    · cases buf with
      | nil => exact delivers_of_silent (by simp [serialPrint, accesses]) fun _ => rfl
      | cons ch buf =>
        rw [serialPrint, earlySerialWrite_waits ha]
        refine delivers_of_silent (fun v p hm => ?_) fun hok => ?_
        · simp [accesses, Except.bind] at hm
        · exact absurd hok Bool.false_ne_true

theorem swapped_write_not_delivers : ¬ ∀ (port : BitVec 32) (buf answers : List (BitVec 8)),
    Delivers buf (serialPrint port buf ⟨answers, []⟩) := by
  intro h
  have hp := (h 0x3F8 [0x41] [0x60]).port (ioBase.setWidth 8) 0x41 (by decide)
  exact absurd hp (by decide)

end TinuOS.Devices
