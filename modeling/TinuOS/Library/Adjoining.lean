import Mathlib

/-! Regions of numbers that follow one another without a gap. -/

namespace TinuOS.Library

variable {α : Type*}

def Adjoining (start size : α → ℕ) : ℕ → List α → ℕ → Prop
  | lo, [], hi => lo = hi
  | lo, r :: rs, hi => start r = lo ∧ Adjoining start size (lo + size r) rs hi

namespace Adjoining

variable {start size : α → ℕ} {lo hi : ℕ} {r : α} {rs : List α}

lemma le (h : Adjoining start size lo rs hi) : lo ≤ hi := by
  induction rs generalizing lo with
  | nil => exact Nat.le_of_eq h
  | cons r rs ih =>
    have := ih h.2
    omega

lemma bounds (h : Adjoining start size lo rs hi) (hr : r ∈ rs) :
    lo ≤ start r ∧ start r + size r ≤ hi := by
  induction rs generalizing lo with
  | nil => simp at hr
  | cons q rs ih =>
    obtain ⟨hq, ht⟩ := h
    rcases List.mem_cons.mp hr with rfl | hr
    · have := ht.le
      omega
    · have := ih ht hr
      omega

lemma pairwise_disjoint (h : Adjoining start size lo rs hi) :
    rs.Pairwise fun r s => Disjoint (Set.Ico (start r) (start r + size r))
      (Set.Ico (start s) (start s + size s)) := by
  induction rs generalizing lo with
  | nil => exact List.Pairwise.nil
  | cons r rs ih =>
    obtain ⟨hr, ht⟩ := h
    refine List.pairwise_cons.mpr ⟨fun s hs => ?_, ih ht⟩
    rw [Set.Ico_disjoint_Ico]
    have := (ht.bounds hs).1
    omega

lemma isChain (h : Adjoining start size lo rs hi) :
    rs.IsChain fun r s => start s = start r + size r := by
  induction rs generalizing lo with
  | nil => exact List.isChain_nil
  | cons r rs ih =>
    obtain ⟨hr, ht⟩ := h
    cases rs with
    | nil => exact List.isChain_singleton r
    | cons s rs =>
      refine List.isChain_cons_cons.mpr ⟨?_, ih ht⟩
      rw [ht.1, hr]

end Adjoining

end TinuOS.Library
