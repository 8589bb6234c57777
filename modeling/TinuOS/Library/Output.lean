import Mathlib

/-! Characters written to an array behind an index, with the indices of all stores. -/

namespace TinuOS.Library

structure Out (α : Type*) where
  cells : ℕ → α
  ptr : ℕ
  stores : List ℕ

namespace Out

variable {α : Type*}

def store (o : Out α) (i : ℕ) (a : α) : Out α :=
  { o with cells := Function.update o.cells i a, stores := o.stores ++ [i] }

def put (o : Out α) (a : α) : Out α := { o.store o.ptr a with ptr := o.ptr + 1 }

def advance (o : Out α) (n : ℕ) : Out α := { o with ptr := o.ptr + n }

/-- From `o` to `o'` the characters `cs` were appended, and nothing else was stored. -/
structure Wrote (o o' : Out α) (cs : List α) : Prop where
  ptr : o'.ptr = o.ptr + cs.length
  cells : ∀ i (h : i < cs.length), o'.cells (o.ptr + i) = cs[i]
  frame : ∀ j, j < o.ptr ∨ o.ptr + cs.length ≤ j → o'.cells j = o.cells j
  stores : ∀ j, j ∈ o'.stores ↔ j ∈ o.stores ∨ o.ptr ≤ j ∧ j < o.ptr + cs.length

variable {o o' o'' : Out α} {a : α} {cs ds : List α} {n : ℕ}

lemma wrote_nil : o.Wrote o [] := by
  refine ⟨rfl, fun i h => absurd h (Nat.not_lt_zero i), fun _ _ => rfl, fun j => ?_⟩
  simp

lemma wrote_put : o.Wrote (o.put a) [a] := by
  refine ⟨rfl, fun i h => ?_, fun j hj => Function.update_of_ne ?_ _ _, fun j => ?_⟩
  · obtain rfl : i = 0 := by simpa using h
    exact Function.update_self _ _ _
  · rw [List.length_singleton] at hj
    omega
  · rw [put, store, List.mem_append, List.mem_singleton, List.length_singleton]
    exact or_congr_right (by omega)

lemma Wrote.trans (h : o.Wrote o' cs) (h' : o'.Wrote o'' ds) : o.Wrote o'' (cs ++ ds) := by
  have hp := h.ptr
  refine ⟨?_, fun i hi => ?_, fun j hj => ?_, fun j => ?_⟩
  · rw [h'.ptr, hp, List.length_append, Nat.add_assoc]
  · by_cases hc : i < cs.length
    · rw [h'.frame _ (by omega), h.cells i hc, List.getElem_append_left hc]
    · have hd : o.ptr + i = o'.ptr + (i - cs.length) := by omega
      rw [List.length_append] at hi
      rw [List.getElem_append_right (by omega), ← h'.cells _ (by omega), hd]
  · rw [List.length_append] at hj
    rw [h'.frame j (by omega), h.frame j (by omega)]
  · rw [h'.stores, h.stores, List.length_append, or_assoc]
    exact or_congr_right (by omega)

lemma Wrote.unique (h : o.Wrote o' cs) (h' : o.Wrote o' ds) : cs = ds := by
  have hp := h.ptr.symm.trans h'.ptr
  refine List.ext_getElem (by omega) fun i hc hd => ?_
  rw [← h.cells i hc, h'.cells i hd]

lemma wrote_foldl_put : o.Wrote (cs.foldl put o) cs := by
  induction cs generalizing o with
  | nil => exact wrote_nil
  | cons c cs ih => exact wrote_put.trans ih

lemma foldl_put_stores : (cs.foldl put o).stores = o.stores ++ List.range' o.ptr cs.length := by
  induction cs generalizing o with
  | nil => simp
  | cons c cs ih =>
    rw [List.foldl_cons, ih, List.length_cons, List.range'_succ]
    exact List.append_assoc o.stores [o.ptr] _

lemma Wrote.ahead (h : (o.store (o.ptr + cs.length) a).Wrote o' cs) :
    o.Wrote (o'.advance 1) (cs ++ [a]) := by
  have hp : o'.ptr = o.ptr + cs.length := h.ptr
  refine ⟨?_, fun i hi => ?_, fun j hj => ?_, fun j => ?_⟩
  · rw [advance, hp, List.length_append, List.length_singleton, Nat.add_assoc]
  · rw [List.length_append, List.length_singleton] at hi
    by_cases hc : i < cs.length
    · rw [List.getElem_append_left hc]
      exact h.cells i hc
    · obtain rfl : i = cs.length := by omega
      rw [List.getElem_append_right le_rfl]
      refine (h.frame _ (Or.inr le_rfl)).trans ?_
      simp [store]
  · rw [List.length_append, List.length_singleton] at hj
    refine (h.frame j ?_).trans (Function.update_of_ne (by omega) _ _)
    change j < o.ptr ∨ o.ptr + cs.length ≤ j
    omega
  · refine (h.stores j).trans ?_
    change (j ∈ o.stores ++ [o.ptr + cs.length] ∨ o.ptr ≤ j ∧ j < o.ptr + cs.length) ↔ _
    rw [List.mem_append, List.mem_singleton, List.length_append, List.length_singleton, or_assoc]
    exact or_congr_right (by omega)

end Out

variable {α : Type*}

lemma pad_eq_iff {a : α} {m n : ℕ} {l : List α} :
    List.replicate m a ++ l = List.replicate n a ++ l ↔ m = n := by
  rw [List.append_cancel_right_eq, List.replicate_inj]
  exact ⟨And.left, fun h => ⟨h, Or.inr rfl⟩⟩

lemma flatMap_eq_iff {β : Type*} {f g : α → List β} {l : List α}
    (h : ∀ a, (f a).length ≤ (g a).length) :
    l.flatMap f = l.flatMap g ↔ ∀ a ∈ l, f a = g a := by
  -- texts that are never longer than others agree as a whole only piece by piece
  induction l with
  | nil => simp
  | cons a l ih =>
    rw [List.flatMap_cons, List.flatMap_cons, List.forall_mem_cons, ← ih]
    refine ⟨fun he => ?_, fun ⟨h1, h2⟩ => by rw [h1, h2]⟩
    have hlen := congrArg List.length he
    have hl : (l.flatMap f).length ≤ (l.flatMap g).length := by
      rw [List.length_flatMap, List.length_flatMap]
      exact List.sum_le_sum fun a _ => h a
    rw [List.length_append, List.length_append] at hlen
    exact List.append_inj he (by have := h a; omega)

end TinuOS.Library
