import TinuOS.Library.Output

/-! Strings in an array, each with an end marker behind it. -/

namespace TinuOS.Library

variable {α : Type*}

def StringAt (null : α) (cells : ℕ → α) : ℕ → List α → Prop
  | i, [] => cells i = null
  | i, a :: s => cells i = a ∧ a ≠ null ∧ StringAt null cells (i + 1) s

instance StringAt.decidable [DecidableEq α] (null : α) (cells : ℕ → α) :
    ∀ i s, Decidable (StringAt null cells i s)
  | i, [] => inferInstanceAs (Decidable (cells i = null))
  | i, a :: s =>
    have := StringAt.decidable null cells (i + 1) s
    inferInstanceAs (Decidable (cells i = a ∧ a ≠ null ∧ _))

variable {null : α} {cells cells' : ℕ → α} {i n : ℕ} {s t : List α}

namespace StringAt

lemma unique (h : StringAt null cells i s) (h' : StringAt null cells i t) : s = t := by
  induction s generalizing i t with
  | nil =>
    cases t with
    | nil => rfl
    | cons b t => exact (h'.2.1 (h'.1.symm.trans h)).elim
  | cons a s ih =>
    cases t with
    | nil => exact (h.2.1 (h.1.symm.trans h')).elim
    | cons b t => rw [← h.1, ← h'.1, ih h.2.2 h'.2.2]

lemma iff_getElem : StringAt null cells i s ↔
    null ∉ s ∧ (∀ j (h : j < s.length), cells (i + j) = s[j]) ∧ cells (i + s.length) = null := by
  induction s generalizing i with
  | nil => simp [StringAt]
  | cons a s ih =>
    have hlen : i + (a :: s).length = i + 1 + s.length := by
      rw [List.length_cons]
      omega
    rw [StringAt, ih, List.mem_cons, not_or, ne_comm, hlen]
    constructor
    · rintro ⟨ha, hn, hs, hc, he⟩
      refine ⟨⟨hn, hs⟩, fun j hj => ?_, he⟩
      cases j with
      | zero => exact ha
      | succ j =>
        rw [← Nat.add_assoc, Nat.add_right_comm]
        exact hc j (Nat.lt_of_succ_lt_succ hj)
    · rintro ⟨⟨hn, hs⟩, hc, he⟩
      refine ⟨hc 0 (Nat.succ_pos _), hn, hs, fun j hj => ?_, he⟩
      have h := hc (j + 1) (Nat.succ_lt_succ hj)
      rwa [← Nat.add_assoc, Nat.add_right_comm] at h

lemma ends (h : StringAt null cells i s) : cells (i + s.length) = null := (iff_getElem.mp h).2.2

lemma congr {i' : ℕ} (h : StringAt null cells i s)
    (hc : ∀ j ≤ s.length, cells' (i' + j) = cells (i + j)) : StringAt null cells' i' s := by
  obtain ⟨hn, hs, he⟩ := iff_getElem.mp h
  exact iff_getElem.mpr ⟨hn, fun j hj => (hc j hj.le).trans (hs j hj), (hc _ le_rfl).trans he⟩

lemma getD (h : null ∉ s) : StringAt null (s.getD · null) 0 s := by
  refine iff_getElem.mpr ⟨h, fun j hj => ?_, ?_⟩
  · rw [Nat.zero_add, List.getD_eq_getElem _ _ hj]
  · rw [Nat.zero_add, List.getD_eq_default _ _ le_rfl]

lemma takeWhile [DecidableEq α] (h : ∃ j < n, cells (i + j) = null) :
    StringAt null cells i (((List.range' i n).map cells).takeWhile (· ≠ null)) := by
  induction n generalizing i with
  | zero =>
    obtain ⟨j, hj, -⟩ := h
    exact absurd hj (Nat.not_lt_zero j)
  | succ n ih =>
    rw [List.range'_succ, List.map_cons]
    by_cases hi : cells i = null
    · rw [List.takeWhile_cons_of_neg (by simpa using hi)]
      exact hi
    · rw [List.takeWhile_cons_of_pos (by simpa using hi)]
      refine ⟨rfl, hi, ih ?_⟩
      obtain ⟨j, hj, hn⟩ := h
      cases j with
      | zero => exact absurd hn hi
      | succ j => exact ⟨j, by omega, by rwa [Nat.add_right_comm]⟩

end StringAt

lemma Out.Wrote.stringAt {o o' : Out α} (h : o.Wrote o' s) (hn : null ∉ s) :
    StringAt null (o'.store o'.ptr null).cells o.ptr s := by
  have hp := h.ptr
  refine StringAt.iff_getElem.mpr ⟨hn, fun j hj => ?_, ?_⟩
  · exact (Function.update_of_ne (by omega) _ _).trans (h.cells j hj)
  · rw [← hp]
    exact Function.update_self _ _ _

lemma append_cons_inj_right {a : α} {u v : List α} (h : u ++ a :: s = v ++ a :: t) (hs : a ∉ s)
    (ht : a ∉ t) : s = t := by
  rcases List.append_eq_append_iff.mp h with ⟨w, rfl, hw⟩ | ⟨w, rfl, hw⟩
  · cases w with
    | nil => exact (List.cons.inj hw).2
    | cons b w =>
      obtain ⟨-, rfl⟩ := List.cons.inj hw
      exact (hs (List.mem_append_right w List.mem_cons_self)).elim
  · cases w with
    | nil => exact (List.cons.inj hw).2.symm
    | cons b w =>
      obtain ⟨-, rfl⟩ := List.cons.inj hw
      exact (ht (List.mem_append_right w List.mem_cons_self)).elim

end TinuOS.Library
