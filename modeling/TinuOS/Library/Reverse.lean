import TinuOS.Library.Text

/-! A part of an array that is reversed in place, by swaps from both of its ends. -/

namespace TinuOS.Library.Out

variable {α : Type*}

def swap (o : Out α) (i j : ℕ) : Out α := (o.store i (o.cells j)).store j (o.cells i)

def reverse (o : Out α) (lo hi : ℕ) : Out α :=
  if lo < hi then reverse (o.swap lo hi) (lo + 1) (hi - 1) else o
termination_by hi - lo

variable {o o' : Out α} {lo hi i j k : ℕ} {cs : List α} {a : α}

lemma swap_cells_of_ne (hi : k ≠ i) (hj : k ≠ j) : (o.swap i j).cells k = o.cells k :=
  (Function.update_of_ne hj _ _).trans (Function.update_of_ne hi _ _)

lemma swap_cells_right : (o.swap i j).cells j = o.cells i := Function.update_self _ _ _

lemma swap_cells_left (h : i ≠ j) : (o.swap i j).cells i = o.cells j :=
  (Function.update_of_ne h _ _).trans (Function.update_self _ _ _)

lemma mem_swap_stores : k ∈ (o.swap i j).stores ↔ k ∈ o.stores ∨ k = i ∨ k = j := by
  rw [swap, store, store, List.mem_append, List.mem_append, List.mem_singleton, List.mem_singleton,
    or_assoc]

lemma reverse_outside (hk : k < lo ∨ hi < k) : (o.reverse lo hi).cells k = o.cells k := by
  fun_induction reverse o lo hi with
  | case1 o lo hi h ih =>
    rw [ih (by omega), swap_cells_of_ne (by omega) (by omega)]
  | case2 => rfl

lemma reverse_inside (hlo : lo ≤ k) (hhi : k ≤ hi) :
    (o.reverse lo hi).cells k = o.cells (lo + hi - k) := by
  fun_induction reverse o lo hi with
  | case1 o lo hi h ih =>
    rcases hlo.eq_or_lt with rfl | hlo
    · rw [reverse_outside (Or.inl (Nat.lt_succ_self _)), swap_cells_left h.ne,
        Nat.add_sub_cancel_left]
    · rcases hhi.eq_or_lt with rfl | hhi
      · rw [reverse_outside (Or.inr (by omega)), swap_cells_right, Nat.add_sub_cancel]
      · have hsum : lo + 1 + (hi - 1) - k = lo + hi - k := by omega
        rw [ih (by omega) (by omega), hsum, swap_cells_of_ne (by omega) (by omega)]
  | case2 o lo hi h =>
    congr 1
    omega

lemma reverse_stores (h : k ∈ (o.reverse lo hi).stores) : k ∈ o.stores ∨ lo ≤ k ∧ k ≤ hi := by
  fun_induction reverse o lo hi with
  | case1 o lo hi hlt ih =>
    rcases ih h with hk | hk
    · rcases mem_swap_stores.mp hk with hk | rfl | rfl
      · exact Or.inl hk
      · exact Or.inr ⟨le_rfl, hlt.le⟩
      · exact Or.inr ⟨hlt.le, le_rfl⟩
    · exact Or.inr (by omega)
  | case2 => exact Or.inl h

lemma Wrote.stringAt_reverse (h : o.Wrote o' cs) (hne : cs ≠ []) (ha : a ∉ cs) :
    StringAt a ((o'.store o'.ptr a).reverse o.ptr (o'.ptr - 1)).cells o.ptr cs.reverse := by
  have hp := h.ptr
  have hpos := List.length_pos_iff.mpr hne
  refine StringAt.iff_getElem.mpr ⟨by rwa [List.mem_reverse], fun j hj => ?_, ?_⟩
  · rw [List.length_reverse] at hj
    have hin : o.ptr + (o'.ptr - 1) - (o.ptr + j) = o.ptr + (cs.length - 1 - j) := by omega
    rw [reverse_inside (Nat.le_add_right _ _) (by omega), hin, List.getElem_reverse,
      ← h.cells (cs.length - 1 - j) (by omega)]
    exact Function.update_of_ne (by omega) _ _
  · rw [List.length_reverse, ← hp, reverse_outside (Or.inr (by omega))]
    exact Function.update_self _ _ _

lemma Wrote.stores_reverse (h : o.Wrote o' cs)
    (hk : k ∈ ((o'.store o'.ptr a).reverse o.ptr (o'.ptr - 1)).stores) :
    k ∈ o.stores ∨ o.ptr ≤ k ∧ k ≤ o.ptr + cs.length := by
  have hp := h.ptr
  rcases reverse_stores hk with hk | hk
  · rw [store, List.mem_append, List.mem_singleton, h.stores] at hk
    rcases hk with (hk | hk) | hk
    · exact Or.inl hk
    · exact Or.inr (by omega)
    · exact Or.inr (by omega)
  · exact Or.inr (by omega)

end TinuOS.Library.Out
