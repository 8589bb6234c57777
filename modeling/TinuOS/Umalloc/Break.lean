import TinuOS.Library.Adjoining
import TinuOS.Library.Word
import TinuOS.Umalloc.Operations

/-! Sequences of calls of `ksbrk`: where the break stands, and the regions that are handed out. -/

namespace TinuOS.Umalloc

open Library

structure Region where
  ret : Addr
  allocate : BitVec 32
  deriving DecidableEq

namespace Region

def start (r : Region) : ℕ := r.ret.toNat

def size (r : Region) : ℕ := r.allocate.toNat

def bytes (r : Region) : Set ℕ := Set.Ico r.start (r.start + r.size)

end Region

section

variable (heap : Addr)

def ksbrks (h : Heap) (calls : List (BitVec 32)) : Heap := calls.foldl (fun h a => (ksbrk heap h a).2.2) h

def granted : Heap → List (BitVec 32) → List Region
  | _, [] => []
  | h, a :: calls =>
    let (p, _, h') := ksbrk heap h a
    if p = 0 then granted h' calls else ⟨p, a⟩ :: granted h' calls

end

variable {I : Image} {h : Heap} {a : BitVec 32} {calls : List (BitVec 32)}

lemma Heap.opened_of_ne_null {heap : Addr} (hb : h.heapBottom ≠ 0) : h.opened heap = h := if_neg hb

lemma ksbrk_zero (heap : Addr) (h : Heap) : (ksbrk heap h 0).1 = 0 ∧ (ksbrk heap h 0).2.2 = h := ⟨rfl, rfl⟩

lemma ksbrk_opened (ho : Opened I (h.opened I.heap)) : Opened I ((ksbrk I.heap h a).2.2.opened I.heap) := by
  by_cases h0 : a = 0
  · rw [h0, (ksbrk_zero I.heap h).2]
    exact ho
  · rcases ksbrk_cases I.heap h h0 with ⟨-, -, hh⟩ | ⟨⟨-, hb, ht⟩, -, hh⟩
    · rw [hh]
      exact ho.again
    · rw [hh]
      exact (ho.grow _ hb ht).again

lemma ksbrks_opened (ho : Opened I (h.opened I.heap)) : Opened I ((ksbrks I.heap h calls).opened I.heap) := by
  induction calls generalizing h with
  | nil => exact ho
  | cons a calls ih => exact ih (ksbrk_opened ho)

lemma brk_toNat (ho : Opened I (h.opened I.heap)) (ha : 0 < a.toInt) (hf : h.Fits I.heap a) :
    ((h.opened I.heap).gKbrk + a).toNat = (h.opened I.heap).gKbrk.toNat + a.toNat := by
  -- a wrapped sum would lie below the array
  have hend := I.heap_end
  obtain ⟨-, hb, -⟩ := hf
  obtain ⟨hbottom, htop, -, hlt⟩ := ho
  have ha' : a.toNat < 2 ^ 31 := by
    have hint := toInt_of_nonneg ha.le
    have hmax := BitVec.toInt_lt (x := a)
    omega
  rw [htop] at hlt
  rw [hbottom] at hb
  simp only [maxHeap] at hend hlt
  bv_omega

lemma granted_adjoining (ho : Opened I (h.opened I.heap)) (hpos : ∀ a ∈ calls, 0 < a.toInt) :
    Adjoining Region.start Region.size (h.opened I.heap).gKbrk.toNat (granted I.heap h calls)
      ((ksbrks I.heap h calls).opened I.heap).gKbrk.toNat := by
  induction calls generalizing h with
  | nil => rfl
  | cons a calls ih =>
    have ha : 0 < a.toInt := hpos a List.mem_cons_self
    have h0 : a ≠ 0 := by
      rintro rfl
      exact absurd ha (by decide)
    have ho' := ksbrk_opened (a := a) ho
    have ht := ih ho' fun b hb => hpos b (List.mem_cons_of_mem a hb)
    rcases ksbrk_cases I.heap h h0 with ⟨-, hp, hh⟩ | ⟨hf, hp, hh⟩
    · have hbrk : ((ksbrk I.heap h a).2.2.opened I.heap).gKbrk = (h.opened I.heap).gKbrk := by
        rw [hh, ho.opened_eq]
      rw [hbrk] at ht
      simp only [granted, hp, if_true]
      exact ht
    · have hb : (ksbrk I.heap h a).2.2.heapBottom ≠ 0 := by
        rw [hh]
        exact ho.bottom_ne_null
      have hbrk : ((ksbrk I.heap h a).2.2.opened I.heap).gKbrk.toNat =
          (h.opened I.heap).gKbrk.toNat + a.toNat := by
        rw [← brk_toNat ho ha hf, Heap.opened_of_ne_null hb, hh]
      rw [hbrk] at ht
      simp only [granted, hp, if_neg ho.brk_ne_null]
      exact ⟨rfl, ht⟩

lemma Opened.brk_toNat_le (ho : Opened I h) : h.gKbrk.toNat ≤ I.heap.toNat + maxHeap := by
  have hend := I.heap_end
  have hlt := ho.brk_lt
  rw [ho.top] at hlt
  simp only [maxHeap] at *
  bv_omega

theorem ksbrk_break_regions (I : Image) (calls : List (BitVec 32)) (a : BitVec 32) :
    let h := ksbrks I.heap I.start.heap calls
    (h.heapBottom ≠ 0 → h.heapBottom ≤ h.gKbrk ∧ h.gKbrk < h.heapTop) ∧
    (h.heapBottom ≠ 0 → (ksbrk I.heap h a).1 = 0 → (ksbrk I.heap h a).2.2.gKbrk = h.gKbrk) ∧
    ((∀ a ∈ calls, 0 < a.toInt) →
      let regions := granted I.heap I.start.heap calls
      regions.Pairwise (fun r s => Disjoint r.bytes s.bytes) ∧
      regions.IsChain (fun r s => s.start = r.start + r.size) ∧
      ∀ r ∈ regions, r.bytes ⊆ Set.Ico I.heap.toNat (I.heap.toNat + maxHeap)) := by
  intro h
  have hstart := start_opened I
  have ho : Opened I (h.opened I.heap) := ksbrks_opened hstart
  refine ⟨fun hb => ?_, fun hb hp => ?_, fun hpos => ?_⟩
  · rw [Heap.opened_of_ne_null hb] at ho
    rw [ho.bottom]
    exact ⟨ho.le_brk, ho.brk_lt⟩
  · by_cases h0 : a = 0
    · rw [h0, (ksbrk_zero I.heap h).2]
    · rcases ksbrk_cases I.heap h h0 with ⟨-, -, hh⟩ | ⟨-, hret, -⟩
      · rw [hh, Heap.opened_of_ne_null hb]
      · exact absurd (hret.symm.trans hp) ho.brk_ne_null
  · have ht := granted_adjoining hstart hpos
    refine ⟨ht.pairwise_disjoint, ht.isChain, fun r hr => ?_⟩
    have hr := ht.bounds hr
    exact Set.Ico_subset_Ico hr.1 (hr.2.trans ho.brk_toNat_le)

theorem ksbrk_break_regions_two :
    let regions := granted smallKernel.heap smallKernel.start.heap [16, 40]
    regions = [⟨0x80110000#32, 16⟩, ⟨0x80110010#32, 40⟩] ∧
      regions.Pairwise (fun r s => Disjoint r.bytes s.bytes) ∧
      regions.IsChain (fun r s => s.start = r.start + r.size) ∧
      ∀ r ∈ regions, r.bytes ⊆ Set.Ico smallKernel.heap.toNat (smallKernel.heap.toNat + maxHeap) :=
  ⟨by decide +kernel, (ksbrk_break_regions smallKernel [16, 40] 0).2.2 (by simp)⟩

end TinuOS.Umalloc
