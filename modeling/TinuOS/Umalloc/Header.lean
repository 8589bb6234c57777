import TinuOS.Library.Memory

/-! The header before every block of the kernel heap, as `include/kheap.h` lays it out. -/

namespace TinuOS.Umalloc

open Library

def heapMagic : BitVec 32 := 0xdeadbeef#32
def maxHeap : ℕ := 500000
def sizeofHeader : ℕ := 16

structure Header where
  size : BitVec 32
  next : Addr
  magic : BitVec 32
  isHole : Bool
  deriving DecidableEq

/-- The two bit fields `magic : 32` and `is_hole : 1` start words of their own. -/
def header (m : Mem) (a : Addr) : Header where
  size := m.load32 a
  next := m.load32 (a + 4#32)
  magic := m.load32 (a + 8#32)
  isHole := (m.byte (a + 12#32)).getLsbD 0

def next (m : Mem) (a : Addr) : Addr := (header m a).next

def setSize (m : Mem) (a : Addr) (v : BitVec 32) : Mem := m.store32 a v
def setNext (m : Mem) (a : Addr) (v : Addr) : Mem := m.store32 (a + 4#32) v
def setMagic (m : Mem) (a : Addr) (v : BitVec 32) : Mem := m.store32 (a + 8#32) v

def setIsHole (m : Mem) (a : Addr) (v : Bool) : Mem :=
  m.store8 (a + 12#32) (m.byte (a + 12#32) &&& 0xFE#8 ||| (BitVec.ofBool v).setWidth 8)

variable {m m' : Mem} {a b : Addr}

open Mem

lemma header_congr (h : Agree m' m (span a 16)) : header m' a = header m a := by
  have hsub : ∀ i k : ℕ, i + k ≤ 16 → Agree m' m (span (a + BitVec.ofNat 32 i) k) := by
    intro i k hik
    exact h.mono (span_subset (by bv_omega))
  have h0 : Agree m' m (span a 4) := h.mono (span_subset (by simp))
  have hb : m'.byte (a + 12#32) = m.byte (a + 12#32) := hsub 12 1 (by omega) (by simp [mem_span])
  simp only [header, load32_congr h0, load32_congr (hsub 4 4 (by omega)),
    load32_congr (hsub 8 4 (by omega)), hb]

lemma setSize_agree (v : BitVec 32) : Agree (setSize m a v) m (span a 16)ᶜ :=
  (store32_agree v).mono (Set.compl_subset_compl.mpr (span_subset (by simp)))

lemma setNext_agree (v : Addr) : Agree (setNext m a v) m (span a 16)ᶜ :=
  (store32_agree v).mono (Set.compl_subset_compl.mpr (span_subset (by bv_omega)))

lemma setMagic_agree (v : BitVec 32) : Agree (setMagic m a v) m (span a 16)ᶜ :=
  (store32_agree v).mono (Set.compl_subset_compl.mpr (span_subset (by bv_omega)))

lemma setIsHole_agree (v : Bool) : Agree (setIsHole m a v) m (span a 16)ᶜ :=
  (store8_agree _).mono (Set.compl_subset_compl.mpr (span_subset (by bv_omega)))

@[simp] lemma header_setSize (v : BitVec 32) :
    header (setSize m a v) a = { header m a with size := v } := by
  simp (disch := bv_omega) only [header, setSize, load32_store32, load32_store32_of_le, store32_of_le]

@[simp] lemma header_setNext (v : Addr) :
    header (setNext m a v) a = { header m a with next := v } := by
  simp (disch := bv_omega) only [header, setNext, load32_store32, load32_store32_of_le, store32_of_le]

@[simp] lemma header_setMagic (v : BitVec 32) :
    header (setMagic m a v) a = { header m a with magic := v } := by
  simp (disch := bv_omega) only [header, setMagic, load32_store32, load32_store32_of_le, store32_of_le]

@[simp] lemma header_setIsHole (v : Bool) :
    header (setIsHole m a v) a = { header m a with isHole := v } := by
  simp (disch := bv_omega) only [header, setIsHole, load32_store8_of_le, store8_self]
  cases v <;> simp

end TinuOS.Umalloc
