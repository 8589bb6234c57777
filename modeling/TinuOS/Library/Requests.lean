import TinuOS.Library.Run

/-! Requests that are kept until they are served, the most urgent one first. -/

namespace TinuOS.Library

variable {L : Type*}

inductive Request (L : Type*)
  | raise (l : L)
  | withdraw (l : L)
  | serve (l : L)
  deriving DecidableEq

namespace Request

inductive Step (rank : L → ℕ) : Set L → Request L → Set L → Prop
  | raise (s : Set L) (l : L) : Step rank s (.raise l) (insert l s)
  | withdraw (s : Set L) (l : L) : Step rank s (.withdraw l) (s \ {l})
  | serve {s : Set L} {l : L} (hl : l ∈ s) (hk : ∀ k ∈ s, rank l ≤ rank k) : Step rank s (.serve l) (s \ {l})

variable {rank : L → ℕ} {s t : Set L} {as : List (Request L)} {l : L}

open Classical in
noncomputable def waiting (s : Set L) (l : L) : ℕ := if l ∈ s then 1 else 0

lemma waiting_of_mem (h : l ∈ s) : waiting s l = 1 := by
  rw [waiting, if_pos h]

lemma waiting_of_notMem (h : l ∉ s) : waiting s l = 0 := by
  rw [waiting, if_neg h]

lemma waiting_congr {s t : Set L} (h : l ∈ s ↔ l ∈ t) : waiting s l = waiting t l := by
  by_cases ht : l ∈ t
  · rw [waiting_of_mem ht, waiting_of_mem (h.mpr ht)]
  · rw [waiting_of_notMem ht, waiting_of_notMem (fun hs => ht (h.mp hs))]

lemma waiting_le_one : waiting s l ≤ 1 := by
  unfold waiting
  split_ifs <;> omega

lemma waiting_diff_of_ne {k : L} (h : l ≠ k) : waiting (s \ {k}) l = waiting s l :=
  waiting_congr (by simp [h])

lemma waiting_diff_self : waiting (s \ {l}) l = 0 := waiting_of_notMem (by simp)

lemma waiting_insert_of_ne {k : L} (h : l ≠ k) : waiting (insert k s) l = waiting s l :=
  waiting_congr (by simp [h])

lemma served_le_raised [DecidableEq L] (h : Run (Step rank) s as t) (l : L) :
    as.count (.serve l) + waiting t l ≤ as.count (.raise l) + waiting s l := by
  induction h with
  | nil => simp
  | @cons s u t a as he _ ih =>
    rw [List.count_cons, List.count_cons]
    cases he with
    | raise k =>
      by_cases hk : l = k
      · subst hk
        have hw := waiting_le_one (s := insert l s) (l := l)
        simp only [beq_self_eq_true, if_true, beq_iff_eq, reduceCtorEq, if_false]
        omega
      · rw [waiting_insert_of_ne hk] at ih
        simp only [beq_iff_eq, reduceCtorEq, if_false, Request.raise.injEq, Ne.symm hk]
        omega
    | withdraw k =>
      have hw : waiting (s \ {k}) l ≤ waiting s l := by
        by_cases hk : l = k
        · subst hk
          rw [waiting_diff_self]
          exact Nat.zero_le _
        · rw [waiting_diff_of_ne hk]
      simp only [beq_iff_eq, reduceCtorEq, if_false]
      omega
    | @serve k hl hk =>
      by_cases hlk : l = k
      · subst hlk
        rw [waiting_diff_self] at ih
        rw [waiting_of_mem hl]
        simp only [beq_self_eq_true, if_true, beq_iff_eq, reduceCtorEq, if_false]
        omega
      · rw [waiting_diff_of_ne hlk] at ih
        simp only [beq_iff_eq, reduceCtorEq, if_false, Request.serve.injEq, Ne.symm hlk]
        omega

lemma waits (h : Run (Step rank) s as t) (hl : l ∈ s) (hw : .withdraw l ∉ as) (hs : .serve l ∉ as) :
    l ∈ t ∧ ∀ k, .serve k ∈ as → rank k ≤ rank l := by
  induction h with
  | nil => exact ⟨hl, fun k hk => absurd hk List.not_mem_nil⟩
  | @cons s u t a as he _ ih =>
    rw [List.mem_cons, not_or] at hw hs
    have hu : l ∈ u := by
      cases he with
      | raise k => exact Set.mem_insert_of_mem k hl
      | withdraw k =>
        refine ⟨hl, fun hk => hw.1 ?_⟩
        rw [Set.mem_singleton_iff.mp hk]
      | @serve k =>
        refine ⟨hl, fun hk => hs.1 ?_⟩
        rw [Set.mem_singleton_iff.mp hk]
    obtain ⟨ht, hk⟩ := ih hu hw.2 hs.2
    refine ⟨ht, fun k hm => ?_⟩
    rcases List.mem_cons.mp hm with rfl | hm
    · cases he with
      | serve _ hle => exact hle l hl
    · exact hk k hm

end Request

end TinuOS.Library
