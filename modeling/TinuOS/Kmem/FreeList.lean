import TinuOS.Kmem.Model
import TinuOS.System.Model

/-! `kfree` and `kalloc` as push and pop of a list threaded through the free pages, and the
pages that `freerange` puts there. -/

namespace TinuOS.Kmem

open Library Mem

variable {σ : Machine} {p q vend : Addr} {ps : List Addr} {n : ℕ}

def Machine.Free (σ : Machine) (ps : List Addr) : Prop := Threaded σ.mem σ.freelist ps

@[simp] lemma kfree_freelist : (kfree σ p).freelist = p := rfl

lemma memset_page {m : Mem} {v : BitVec 8} {w : BitVec 32} (h : w.setWidth 8 = v) :
    (System.memset m p w 4096).2 = m.fill p v pageSize := by
  rw [System.memset_eq, h]
  rfl

lemma kfree_mem : (kfree σ p).mem = (System.memset σ.mem p 1 4096).2.store32 p σ.freelist := by
  rw [memset_page (v := 1) rfl]
  simp only [kfree]
  split_ifs <;> rfl

lemma kfree_agree : Agree (kfree σ p).mem σ.mem (page p)ᶜ := by
  rw [kfree_mem, memset_page (v := 1) rfl]
  refine ((store32_agree σ.freelist).mono ?_).trans (fill_agree 1)
  exact Set.compl_subset_compl.mpr (span_subset_page (by simp [pageSize]))

lemma kfree_link : (kfree σ p).mem.load32 p = σ.freelist := by
  rw [kfree_mem, load32_store32]

lemma kfree_free (h : σ.Free ps) (hp : PageAligned p) (h0 : p ≠ 0) (hn : p ∉ ps) :
    (kfree σ p).Free (p :: ps) :=
  h.push hp h0 hn kfree_agree kfree_link

@[simp] lemma kalloc_ret : (kalloc σ).1 = σ.freelist := rfl

@[simp] lemma kalloc_mem : (kalloc σ).2.mem = σ.mem := by
  simp only [kalloc]
  split_ifs <;> rfl

@[simp] lemma kalloc_events : (kalloc σ).2.events = σ.events ++ [.kalloc σ.freelist] := by
  simp only [kalloc]
  split_ifs <;> rfl

lemma kalloc_freelist_null (h : σ.freelist = 0) : (kalloc σ).2.freelist = 0 := by
  simp [kalloc, h, Machine.emit]

lemma kalloc_free (h : σ.Free ps) : (kalloc σ).2.Free ps.tail := by
  cases ps with
  | nil => exact ⟨kalloc_freelist_null h.1, by simp⟩
  | cons p ps =>
    obtain ⟨hp, h0, ht⟩ := Threaded.pop h
    have hne : σ.freelist ≠ 0 := hp ▸ h0
    simp only [Machine.Free, kalloc, if_pos hne]
    rw [hp]
    exact ht

lemma freelist_aligned (h : σ.Free ps) : PageAligned σ.freelist := by
  by_cases h0 : σ.freelist = 0
  · rw [h0]
    decide
  · obtain ⟨qs, rfl⟩ := Threaded.exists_cons h h0
    exact h.2 _ List.mem_cons_self

def pagesFrom (p : Addr) : ℕ → List Addr
  | 0 => []
  | n + 1 => p :: pagesFrom (p + BitVec.ofNat 32 pageSize) n

lemma mem_pagesFrom : q ∈ pagesFrom p n ↔ ∃ i < n, q = p + BitVec.ofNat 32 (i * pageSize) := by
  induction n generalizing p with
  | zero => simp [pagesFrom]
  | succ n ih =>
    rw [pagesFrom, List.mem_cons, ih]
    have hadd : ∀ i : ℕ, p + BitVec.ofNat 32 pageSize + BitVec.ofNat 32 (i * pageSize) =
        p + BitVec.ofNat 32 ((i + 1) * pageSize) := by
      intro i
      rw [Nat.succ_mul, Nat.add_comm (i * pageSize), BitVec.ofNat_add, BitVec.add_assoc]
    constructor
    · rintro (rfl | ⟨i, hi, rfl⟩)
      · exact ⟨0, by omega, by simp⟩
      · exact ⟨i + 1, by omega, hadd i⟩
    · rintro ⟨i, hi, rfl⟩
      cases i with
      | zero => exact Or.inl (by simp)
      | succ i => exact Or.inr ⟨i, by omega, (hadd i).symm⟩

lemma pagesFrom_nodup (h : n ≤ 2 ^ 20) : (pagesFrom p n).Nodup := by
  induction n generalizing p with
  | zero => exact List.nodup_nil
  | succ n ih =>
    refine List.nodup_cons.mpr ⟨fun hm => ?_, ih (by omega)⟩
    obtain ⟨i, hi, he⟩ := mem_pagesFrom.mp hm
    rw [pageSize] at he
    bv_omega

lemma freerange_mono {k : ℕ} {σ' : Machine} (h : freerange n σ p vend = some σ') (hk : n ≤ k) :
    freerange k σ p vend = some σ' := by
  induction n generalizing σ p k with
  | zero => simp [freerange] at h
  | succ n ih =>
    obtain ⟨k, rfl⟩ : ∃ j, k = j + 1 := ⟨k - 1, by omega⟩
    rw [freerange] at h ⊢
    split_ifs at h ⊢
    · exact ih h (by omega)
    · exact h

lemma freerange_eq (hin : ∀ q ∈ pagesFrom p n, q + BitVec.ofNat 32 pageSize ≤ vend)
    (hout : ¬ p + BitVec.ofNat 32 (n * pageSize) + BitVec.ofNat 32 pageSize ≤ vend) :
    freerange (n + 1) σ p vend = some ((pagesFrom p n).foldl kfree σ) := by
  induction n generalizing p σ with
  | zero =>
    rw [Nat.zero_mul, BitVec.add_zero] at hout
    rw [freerange, if_neg hout]
    rfl
  | succ n ih =>
    obtain ⟨hp, hin⟩ := List.forall_mem_cons.mp hin
    rw [freerange, if_pos hp, ih hin]
    · rfl
    · rwa [Nat.succ_mul, Nat.add_comm (n * pageSize), BitVec.ofNat_add, ← BitVec.add_assoc] at hout

lemma foldl_kfree_free (hf : σ.Free ps) (hp : ∀ p ∈ pagesFrom q n, PageAligned p ∧ p ≠ 0)
    (hd : (pagesFrom q n ++ ps).Nodup) :
    ((pagesFrom q n).foldl kfree σ).Free ((pagesFrom q n).reverse ++ ps) := by
  induction n generalizing q σ ps with
  | zero => exact hf
  | succ n ih =>
    obtain ⟨⟨hq, hq0⟩, hp⟩ := List.forall_mem_cons.mp hp
    rw [pagesFrom, List.cons_append, List.nodup_cons] at hd
    have hn : q ∉ ps := fun h => hd.1 (List.mem_append_right _ h)
    rw [pagesFrom, List.foldl_cons, List.reverse_cons, List.append_assoc]
    refine ih (kfree_free hf hq hq0 hn) hp ?_
    exact List.nodup_middle.mpr (List.nodup_cons.mpr hd)

lemma foldl_kfree_freelist :
    ((pagesFrom p (n + 1)).foldl kfree σ).freelist = p + BitVec.ofNat 32 (n * pageSize) := by
  induction n generalizing p σ with
  | zero => simp [pagesFrom]
  | succ n ih =>
    rw [pagesFrom, List.foldl_cons, ih, Nat.succ_mul, Nat.add_comm (n * pageSize), BitVec.ofNat_add,
      BitVec.add_assoc]

end TinuOS.Kmem
