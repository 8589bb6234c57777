import TinuOS.Library.Memory
import TinuOS.Library.Word

/-! `io/gdt.c`: segment descriptors as `set_gdt` packs them and as the processor reads them. -/

namespace TinuOS.Interrupts

open Library

@[ext] structure GdtEntry where
  limitLow : BitVec 16
  baseLow : BitVec 16
  baseMiddle : BitVec 8
  access : BitVec 8
  granularity : BitVec 8
  baseHigh : BitVec 8
  deriving DecidableEq

abbrev Gdt := Fin 6 → GdtEntry

def setGdt (gp : Gdt) (num : Fin 6) (base limit : BitVec 32) (access gran : BitVec 8) : Gdt :=
  Function.update gp num {
    baseLow := (base &&& 0xFFFF).setWidth 16
    baseMiddle := ((base >>> 16) &&& 0xFF).setWidth 8
    baseHigh := ((base >>> 24) &&& 0xFF).setWidth 8
    limitLow := (limit &&& 0xFFFF).setWidth 16
    granularity := ((limit >>> 16) &&& 0x0F).setWidth 8 ||| (gran &&& 0xF0)
    access := access }

def gdt (gp : Gdt) : Gdt :=
  let gp := setGdt gp 0 0 0 0 0
  let gp := setGdt gp 1 0 0xFFFFFFFF 0x9A 0xCF
  let gp := setGdt gp 2 0 0xFFFFFFFF 0x92 0xCF
  let gp := setGdt gp 3 0 0xFFFFFFFF 0xFA 0xCF
  setGdt gp 4 0 0xFFFFFFFF 0xF2 0xCF

def GdtEntry.packed (e : GdtEntry) : BitVec 64 :=
  e.baseHigh ++ e.granularity ++ e.access ++ e.baseMiddle ++ e.baseLow ++ e.limitLow

structure Segment where
  base : BitVec 32
  limit : BitVec 20
  access : BitVec 8
  flags : BitVec 4
  deriving DecidableEq

def segment (w : BitVec 64) : Segment where
  base := w.extractLsb' 56 8 ++ w.extractLsb' 16 24
  limit := w.extractLsb' 48 4 ++ w.extractLsb' 0 16
  access := w.extractLsb' 40 8
  flags := w.extractLsb' 52 4

namespace Segment

def lastOffset (s : Segment) : ℕ := if s.flags.getLsbD 3 then s.limit.toNat * 4096 + 4095 else s.limit.toNat

def present (s : Segment) : Bool := s.access.getLsbD 7

def code (s : Segment) : Bool := s.access.getLsbD 4 && s.access.getLsbD 3

def linear (s : Segment) (offset : Addr) : Option Addr :=
  if offset.toNat ≤ s.lastOffset then some (s.base + offset) else none

end Segment

variable {gp : Gdt} {num n : Fin 6} {base limit : BitVec 32} {access gran : BitVec 8}

lemma segment_packed (e : GdtEntry) : segment e.packed =
    ⟨e.baseHigh ++ e.baseMiddle ++ e.baseLow, e.granularity.extractLsb' 0 4 ++ e.limitLow, e.access,
      e.granularity.extractLsb' 4 4⟩ := by
  rw [segment, GdtEntry.packed, Segment.mk.injEq]
  refine ⟨?_, ?_, ?_, ?_⟩
  all_goals
    apply BitVec.eq_of_getLsbD_eq
    intro i hi
    simp only [BitVec.getLsbD_append, BitVec.getLsbD_extractLsb']
    grind

lemma split_base (base : BitVec 32) : ((base >>> 24) &&& 0xFF).setWidth 8 ++
    ((base >>> 16) &&& 0xFF).setWidth 8 ++ (base &&& 0xFFFF).setWidth 16 = base := by
  have h0 : (base &&& 0xFFFF).setWidth 16 = base.extractLsb' 0 16 := field_eq (m := 16) base 0 (by decide)
  have h1 : ((base >>> 16) &&& 0xFF).setWidth 8 = base.extractLsb' 16 8 :=
    field_eq (m := 8) base 16 (by decide)
  have h2 : ((base >>> 24) &&& 0xFF).setWidth 8 = base.extractLsb' 24 8 :=
    field_eq (m := 8) base 24 (by decide)
  have hhigh : base.extractLsb' 24 8 ++ base.extractLsb' 16 8 = base.extractLsb' 16 16 :=
    BitVec.extractLsb'_append_extractLsb'_eq_extractLsb' rfl
  have hall : base.extractLsb' 16 16 ++ base.extractLsb' 0 16 = base.extractLsb' 0 32 :=
    BitVec.extractLsb'_append_extractLsb'_eq_extractLsb' rfl
  rw [h0, h1, h2, hhigh]
  exact hall.trans BitVec.extractLsb'_eq_self

lemma split_granularity (limit : BitVec 32) (gran : BitVec 8) :
    ((limit >>> 16) &&& 0x0F).setWidth 8 ||| (gran &&& 0xF0) =
      gran.extractLsb' 4 4 ++ limit.extractLsb' 16 4 := by
  have hlow : ∀ i < 8, (0x0F : BitVec 32).getLsbD i = decide (i < 4) := by decide
  have hhigh : ∀ i < 8, (0xF0 : BitVec 8).getLsbD i = decide (4 ≤ i) := by decide
  apply BitVec.eq_of_getLsbD_eq
  intro i hi
  simp only [BitVec.getLsbD_or, BitVec.getLsbD_setWidth, BitVec.getLsbD_and, BitVec.getLsbD_ushiftRight,
    BitVec.getLsbD_append, BitVec.getLsbD_extractLsb', hlow i hi, hhigh i hi]
  grind

lemma split_limit (limit : BitVec 32) :
    limit.extractLsb' 16 4 ++ (limit &&& 0xFFFF).setWidth 16 = limit.setWidth 20 := by
  have h0 : (limit &&& 0xFFFF).setWidth 16 = limit.extractLsb' 0 16 :=
    field_eq (m := 16) limit 0 (by decide)
  have hall : limit.extractLsb' 16 4 ++ limit.extractLsb' 0 16 = limit.extractLsb' 0 20 :=
    BitVec.extractLsb'_append_extractLsb'_eq_extractLsb' rfl
  rw [h0, hall]
  exact (BitVec.setWidth_eq_extractLsb' (by decide)).symm

lemma setGdt_self : segment (setGdt gp num base limit access gran num).packed =
    ⟨base, limit.setWidth 20, access, gran.extractLsb' 4 4⟩ := by
  rw [segment_packed, setGdt, Function.update_self, Segment.mk.injEq]
  refine ⟨split_base base, ?_, rfl, ?_⟩
  · rw [split_granularity, BitVec.extractLsb'_append_eq_right]
    exact split_limit limit
  · rw [split_granularity]
    exact BitVec.extractLsb'_append_eq_left

lemma setGdt_of_ne (h : n ≠ num) : setGdt gp num base limit access gran n = gp n :=
  Function.update_of_ne h _ _

def accessByte : Fin 6 → BitVec 8
  | 1 => 0x9A
  | 2 => 0x92
  | 3 => 0xFA
  | 4 => 0xF2
  | _ => 0

lemma gdt_segment (h1 : 1 ≤ n) (h4 : n ≤ 4) : segment (gdt gp n).packed = ⟨0, 0xFFFFF, accessByte n, 0xC⟩ := by
  have hcases : ∀ n : Fin 6, 1 ≤ n → n ≤ 4 → n = 1 ∨ n = 2 ∨ n = 3 ∨ n = 4 := by decide
  rcases hcases n h1 h4 with rfl | rfl | rfl | rfl <;> unfold gdt
  · rw [setGdt_of_ne (by decide), setGdt_of_ne (by decide), setGdt_of_ne (by decide), setGdt_self]
    rfl
  · rw [setGdt_of_ne (by decide), setGdt_of_ne (by decide), setGdt_self]
    rfl
  · rw [setGdt_of_ne (by decide), setGdt_self]
    rfl
  · rw [setGdt_self]
    rfl

lemma linear_eq {s : Segment} (hl : s.limit = 0xFFFFF) (hg : s.flags = 0xC) (offset : Addr) :
    s.linear offset = some (s.base + offset) := by
  have hlast : s.lastOffset = 2 ^ 32 - 1 := by
    rw [Segment.lastOffset, hg, hl]
    rfl
  apply if_pos
  rw [hlast]
  omega

lemma gdt_linear (h1 : 1 ≤ n) (h4 : n ≤ 4) (offset : Addr) :
    (segment (gdt gp n).packed).linear offset = some offset := by
  rw [gdt_segment h1 h4, linear_eq rfl rfl]
  exact congrArg some (BitVec.zero_add offset)

theorem setGdt_segments (gp : Gdt) (num : Fin 6) (base limit : BitVec 32) (access gran : BitVec 8) :
    segment (setGdt gp num base limit access gran num).packed =
      ⟨base, limit.setWidth 20, access, gran.extractLsb' 4 4⟩ ∧
    (∀ n, n ≠ num → setGdt gp num base limit access gran n = gp n) ∧
    ∀ n, 1 ≤ n → n ≤ 4 →
      (segment (gdt gp n).packed).present = true ∧
      (segment (gdt gp n).packed).code = decide (n = 1 ∨ n = 3) ∧
      ∀ offset, (segment (gdt gp n).packed).linear offset = some offset := by
  refine ⟨setGdt_self, fun n hn => setGdt_of_ne hn, fun n h1 h4 => ⟨?_, ?_, gdt_linear h1 h4⟩⟩
  · have hp : ∀ n : Fin 6, 1 ≤ n → n ≤ 4 → (accessByte n).getLsbD 7 = true := by decide
    rw [gdt_segment h1 h4]
    exact hp n h1 h4
  · have hc : ∀ n : Fin 6, 1 ≤ n → n ≤ 4 →
        ((accessByte n).getLsbD 4 && (accessByte n).getLsbD 3) = decide (n = 1 ∨ n = 3) := by decide
    rw [gdt_segment h1 h4]
    exact hc n h1 h4

end TinuOS.Interrupts
