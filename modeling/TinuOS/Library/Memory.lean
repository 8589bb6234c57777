import Mathlib

/-! Byte-addressed memory with a 32-bit address space: little-endian words, fills and the
regions they touch. Addresses wrap, and so do regions. -/

namespace TinuOS.Library

abbrev Addr := BitVec 32

@[ext] structure Mem where
  byte : Addr → BitVec 8

def span (a : Addr) (n : ℕ) : Set Addr := {x | (x - a).toNat < n}

namespace Mem

def load32 (m : Mem) (a : Addr) : BitVec 32 :=
  m.byte (a + 3#32) ++ m.byte (a + 2#32) ++ m.byte (a + 1#32) ++ m.byte a

def store8 (m : Mem) (a : Addr) (v : BitVec 8) : Mem where
  byte x := if x = a then v else m.byte x

def store32 (m : Mem) (a : Addr) (v : BitVec 32) : Mem where
  byte x :=
    if x = a then v.extractLsb' 0 8
    else if x = a + 1#32 then v.extractLsb' 8 8
    else if x = a + 2#32 then v.extractLsb' 16 8
    else if x = a + 3#32 then v.extractLsb' 24 8
    else m.byte x

def fill (m : Mem) (a : Addr) (v : BitVec 8) (n : ℕ) : Mem where
  byte x := if (x - a).toNat < n then v else m.byte x

def Agree (m m' : Mem) (s : Set Addr) : Prop := Set.EqOn m.byte m'.byte s

end Mem

open Mem

variable {m m' m'' : Mem} {a b x : Addr} {n k : ℕ} {s t : Set Addr}

lemma mem_span : x ∈ span a n ↔ (x - a).toNat < n := Iff.rfl

lemma span_subset (h : (b - a).toNat + k ≤ n) : span b k ⊆ span a n := by
  intro x hx
  rw [mem_span] at hx ⊢
  bv_omega

lemma span_disjoint (h : a.toNat + n ≤ b.toNat) (hb : b.toNat + k ≤ 2 ^ 32) :
    Disjoint (span a n) (span b k) := by
  rw [Set.disjoint_left]
  intro x hx hx'
  rw [mem_span] at hx hx'
  bv_omega

lemma Mem.Agree.mono (h : Agree m m' s) (hs : t ⊆ s) : Agree m m' t := Set.EqOn.mono hs h

lemma Mem.Agree.trans (h : Agree m m' s) (h' : Agree m' m'' s) : Agree m m'' s :=
  Set.EqOn.trans h h'

lemma Mem.Agree.off (h : Agree m m' sᶜ) (hd : Disjoint s t) : Agree m m' t :=
  h.mono hd.subset_compl_left

lemma store8_agree (v : BitVec 8) : Agree (m.store8 a v) m (span a 1)ᶜ := by
  intro x hx
  have hne : x ≠ a := by
    rintro rfl
    exact hx (by simp [mem_span])
  exact if_neg hne

lemma store32_agree (v : BitVec 32) : Agree (m.store32 a v) m (span a 4)ᶜ := by
  intro x hx
  rw [Set.mem_compl_iff, mem_span] at hx
  have h0 : x ≠ a := by rintro rfl; simp at hx
  have h1 : x ≠ a + 1#32 := by rintro rfl; bv_omega
  have h2 : x ≠ a + 2#32 := by rintro rfl; bv_omega
  have h3 : x ≠ a + 3#32 := by rintro rfl; bv_omega
  simp [store32, h0, h1, h2, h3]

lemma fill_agree (v : BitVec 8) : Agree (m.fill a v n) m (span a n)ᶜ := by
  intro x hx
  exact if_neg hx

lemma fill_byte (h : x ∈ span a n) (v : BitVec 8) : (m.fill a v n).byte x = v := if_pos h

lemma fill_zero (v : BitVec 8) : m.fill a v 0 = m := by
  apply Mem.ext
  funext x
  simp [fill]

lemma fill_succ (v : BitVec 8) (h : n < 2 ^ 32) :
    (m.fill a v n).store8 (a + BitVec.ofNat 32 n) v = m.fill a v (n + 1) := by
  apply Mem.ext
  funext x
  have hx : x = a + BitVec.ofNat 32 n ↔ (x - a).toNat = n := by
    constructor <;> intro h <;> bv_omega
  simp only [store8, fill, hx]
  split_ifs <;> first | rfl | omega

lemma load32_congr (h : Agree m' m (span a 4)) : m'.load32 a = m.load32 a := by
  have hb : ∀ i : ℕ, i < 4 → m'.byte (a + BitVec.ofNat 32 i) = m.byte (a + BitVec.ofNat 32 i) := by
    intro i hi
    apply h
    rw [mem_span]
    bv_omega
  have h0 := hb 0 (by omega)
  have h1 := hb 1 (by omega)
  have h2 := hb 2 (by omega)
  have h3 := hb 3 (by omega)
  rw [BitVec.add_zero] at h0
  simp only [load32, h0, h1, h2, h3]

@[simp] lemma store8_self (v : BitVec 8) : (m.store8 a v).byte a = v := if_pos rfl

@[simp] lemma load32_store32 (v : BitVec 32) : (m.store32 a v).load32 a = v := by
  have h1 : a + 1#32 ≠ a := by bv_omega
  have h2 : a + 2#32 ≠ a := by bv_omega
  have h3 : a + 3#32 ≠ a := by bv_omega
  have h21 : a + 2#32 ≠ a + 1#32 := by bv_omega
  have h31 : a + 3#32 ≠ a + 1#32 := by bv_omega
  have h32 : a + 3#32 ≠ a + 2#32 := by bv_omega
  simp only [load32, store32, h1, h2, h3, h21, h31, h32, if_true, if_false]
  ext i hi
  simp only [BitVec.getElem_append, BitVec.getElem_extractLsb']
  split_ifs <;> rw [← BitVec.getLsbD_eq_getElem] <;> congr 1 <;> omega

lemma store32_of_le (h : 4 ≤ (x - a).toNat) (v : BitVec 32) :
    (m.store32 a v).byte x = m.byte x :=
  store32_agree v (by simpa [mem_span] using h)

lemma load32_store32_of_le (h : 4 ≤ (b - a).toNat) (h' : 4 ≤ (a - b).toNat) (v : BitVec 32) :
    (m.store32 a v).load32 b = m.load32 b := by
  apply load32_congr
  intro x hx
  apply store32_of_le
  rw [mem_span] at hx
  bv_omega

lemma load32_store8_of_le (h : 4 ≤ (a - b).toNat) (v : BitVec 8) :
    (m.store8 a v).load32 b = m.load32 b := by
  apply load32_congr
  intro x hx
  apply store8_agree
  rw [Set.mem_compl_iff, mem_span]
  rw [mem_span] at hx
  bv_omega

lemma load32_toNat (m : Mem) (a : Addr) :
    (m.load32 a).toNat = (m.byte (a + 3#32)).toNat * 2 ^ 24 + (m.byte (a + 2#32)).toNat * 2 ^ 16 +
      (m.byte (a + 1#32)).toNat * 2 ^ 8 + (m.byte a).toNat := by
  have happ : ∀ {n : ℕ} (x : BitVec n) (y : BitVec 8), (x ++ y).toNat = x.toNat * 2 ^ 8 + y.toNat := by
    intro n x y
    rw [BitVec.toNat_append, ← Nat.shiftLeft_add_eq_or_of_lt y.isLt, Nat.shiftLeft_eq]
  rw [load32, happ, happ, happ]
  omega

lemma agree_of_load32 (h : m'.load32 a = m.load32 a) : Agree m' m (span a 4) := by
  have hn := congrArg BitVec.toNat h
  rw [load32_toNat, load32_toNat] at hn
  intro x hx
  rw [mem_span] at hx
  have hxa : x = a ∨ x = a + 1#32 ∨ x = a + 2#32 ∨ x = a + 3#32 := by bv_omega
  rcases hxa with rfl | rfl | rfl | rfl <;> apply BitVec.eq_of_toNat_eq <;> omega

lemma load32_of_const (v : BitVec 8) (h : ∀ x ∈ span a 4, m.byte x = v) :
    m.load32 a = v ++ v ++ v ++ v := by
  have h0 : a ∈ span a 4 := by rw [mem_span]; bv_omega
  have h1 : a + 1#32 ∈ span a 4 := by rw [mem_span]; bv_omega
  have h2 : a + 2#32 ∈ span a 4 := by rw [mem_span]; bv_omega
  have h3 : a + 3#32 ∈ span a 4 := by rw [mem_span]; bv_omega
  simp only [load32, h _ h0, h _ h1, h _ h2, h _ h3]

end TinuOS.Library
