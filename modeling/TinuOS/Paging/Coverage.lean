import TinuOS.Paging.Mapping

/-! The pages that the loop of `mappages` goes through. -/

namespace TinuOS.Paging

open Library Mem Kmem

/-- The turns of the loop are made for the given addresses, and it ends with the result. -/
inductive Visits (stray pgdir pa : Addr) (perm : BitVec 32) :
    Machine → Addr → Addr → List Addr → BitVec 32 → Machine → Prop
  | fail {σ : Machine} {start stop : Addr} (hf : (pagewalk σ pgdir start 1).1 = 0) :
      Visits stray pgdir pa perm σ start stop [start] (-1) { (pagewalk σ pgdir start 1).2 with
        mem := (pagewalk σ pgdir start 1).2.mem.store32 stray 1 }
  | last {σ : Machine} {start : Addr} (hf : (pagewalk σ pgdir start 1).1 ≠ 0) :
      Visits stray pgdir pa perm σ start start [start] 0 (mapped stray σ pgdir start pa perm)
  | next {σ σ' : Machine} {start stop : Addr} {as : List Addr} {r : BitVec 32}
      (hf : (pagewalk σ pgdir start 1).1 ≠ 0) (hne : start ≠ stop)
      (h : Visits stray pgdir pa perm (mapped stray σ pgdir start pa perm)
        (start + BitVec.ofNat 32 pageSize) (stop + BitVec.ofNat 32 pageSize) as r σ') :
      Visits stray pgdir pa perm σ start stop (start :: as) r σ'

def Covers (σ : Machine) (pgdir va : Addr) (size pa perm : BitVec 32) : Prop :=
  ∀ stray, ∃ as σ', Visits stray pgdir pa perm σ va (va + size - 1) as 0 σ' ∧
    as.length = (size.toNat + (pageSize - 1)) / pageSize ∧
    ∀ n, (∃ a ∈ as, a.toNat / pageSize = n) ↔ ∃ i < size.toNat, (va.toNat + i) / pageSize = n

variable {σ σ' : Machine} {pgdir va stray start stop pa : Addr} {perm size r : BitVec 32}
  {fuel : ℕ} {as ps : List Addr}

lemma mapLoop_eq_some_iff : mapLoop stray fuel σ pgdir start stop pa perm = some (r, σ') ↔
    ∃ as, as.length ≤ fuel ∧ Visits stray pgdir pa perm σ start stop as r σ' := by
  constructor
  · intro h
    induction fuel generalizing σ start stop with
    | zero => simp [mapLoop] at h
    | succ fuel ih =>
      by_cases hf : (pagewalk σ pgdir start 1).1 = 0
      · rw [mapLoop_fail hf] at h
        cases h
        exact ⟨[start], by simp, .fail hf⟩
      · rw [mapLoop_turn hf] at h
        split_ifs at h with hs
        · cases h
          subst hs
          exact ⟨[start], by simp, .last hf⟩
        · obtain ⟨as, hn, hv⟩ := ih h
          exact ⟨start :: as, by simpa using hn, .next hf hs hv⟩
  · rintro ⟨as, hn, h⟩
    induction h generalizing fuel with
    | fail hf =>
      obtain ⟨k, rfl⟩ := Nat.exists_eq_add_of_le' hn
      exact mapLoop_fail hf
    | last hf =>
      obtain ⟨k, rfl⟩ := Nat.exists_eq_add_of_le' hn
      exact (mapLoop_turn hf).trans (if_pos rfl)
    | next hf hne _ ih =>
      obtain ⟨k, rfl⟩ := Nat.exists_eq_add_of_le' hn
      rw [List.length_cons, ← Nat.add_assoc, mapLoop_turn hf, if_neg hne]
      exact ih (Nat.le_add_left _ k)

lemma pagewalk_ne_zero (hf : σ.Free ps) (hp : ps ≠ []) (va : Addr) :
    (pagewalk σ pgdir va 1).1 ≠ 0 := by
  rw [Ne, pagewalk_eq_zero]
  rintro ⟨-, hs⟩
  have h0 := ((slot_eq_zero (freelist_aligned hf) pte_lt).mp hs).1
  rw [Machine.Free, h0] at hf
  exact hp hf.eq_nil

theorem mappages_covers_iff (hf : σ.Free ps) (hn : (size.toNat + (pageSize - 1)) / pageSize ≤ ps.length)
    (hs : 1 ≤ size.toNat) : Covers σ pgdir va size pa perm ↔ size = 1 := by
  constructor
  · intro h
    obtain ⟨as, σ', hv, -⟩ := h 0
    by_contra hne
    refine mapLoop_ne_zero ?_ (mapLoop_eq_some_iff.mpr ⟨as, le_rfl, hv⟩)
    intro hstop
    apply hne
    bv_omega
  · rintro rfl stray
    have hstop : va + 1 - 1 = va := by bv_omega
    have hp : ps ≠ [] := by
      rintro rfl
      exact absurd hn (by decide)
    rw [hstop]
    refine ⟨[va], _, .last (pagewalk_ne_zero hf hp va), rfl, fun n => ?_⟩
    have h1 : (1 : BitVec 32).toNat = 1 := rfl
    simp only [List.mem_singleton, exists_eq_left, h1, Nat.lt_one_iff, Nat.add_zero]

theorem mappages_covers_byte : Covers twoPages 0x80401000#32 kernBase 1 0 pteRW :=
  (mappages_covers_iff twoPages_free (by decide) (by decide)).mpr rfl

theorem mappages_never_covers : ¬ ∀ (σ : Machine) (pgdir va pa : Addr) (ps : List Addr)
    (size perm : BitVec 32), σ.Free ps → PageAligned pgdir → pgdir ≠ 0 → pgdir ∉ ps →
      (∀ x ∈ page pgdir, σ.mem.byte x = 0) → (size.toNat + (pageSize - 1)) / pageSize ≤ ps.length →
      PageAligned va → 1 ≤ size.toNat → va.toNat + size.toNat ≤ 2 ^ 32 →
      Covers σ pgdir va size pa perm := by
  intro h
  obtain ⟨as, σ', hv, -⟩ := h twoPages 0x80401000#32 kernBase 0 _ 4096 pteRW twoPages_free (by decide)
    (by decide) (by decide) twoPages_zero (by decide) (by decide) (by decide) (by decide) 0
  exact mapLoop_ne_zero (by decide) (mapLoop_eq_some_iff.mpr ⟨as, le_rfl, hv⟩)

end TinuOS.Paging
