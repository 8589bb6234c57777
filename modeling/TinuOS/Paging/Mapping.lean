import TinuOS.Paging.MapLoop

/-! What `mappages` leaves in the tables when it returns 0. -/

namespace TinuOS.Paging

open Library Mem Kmem

def Maps (m m' : Mem) (pgdir va : Addr) (size pa perm : BitVec 32) : Prop :=
  (∀ i < size.toNat, translate m' pgdir (va + BitVec.ofNat 32 i) =
    some (pa + BitVec.ofNat 32 i, decide (perm = pteRW))) ∧
  ∀ x : Addr, (∀ i < size.toNat, x.toNat / pageSize ≠ (va + BitVec.ofNat 32 i).toNat / pageSize) →
    translate m' pgdir x = translate m pgdir x

def MapsOnReturn (σ : Machine) (pgdir va : Addr) (size pa perm : BitVec 32) : Prop :=
  ∀ stray fuel σ', mappages stray fuel σ pgdir va size pa perm = some (0, σ') →
    Maps σ.mem σ'.mem pgdir va size pa perm

variable {σ σ' : Machine} {m : Mem} {pgdir va stray start stop pa : Addr} {perm size alloc v : BitVec 32}
  {fuel : ℕ}

lemma load32_getLsbD_zero (m : Mem) (a : Addr) : (m.load32 a).getLsbD 0 = (m.byte a).getLsbD 0 := by
  rw [load32, BitVec.getLsbD_append]
  rfl

lemma pagewalk_eq_zero (alloc : BitVec 32) : (pagewalk σ pgdir va alloc).1 = 0 ↔
    σ.mem.load32 (slot pgdir (pde va)) &&& pteP = 0 ∧ slot σ.freelist (pte va) = 0 := by
  rw [and_pteP_eq_zero]
  cases h : (σ.mem.load32 (slot pgdir (pde va))).getLsbD 0 with
  | false =>
    rw [pagewalk_absent h]
    exact ⟨fun h0 => ⟨rfl, h0⟩, And.right⟩
  | true =>
    rw [pagewalk_present h]
    refine ⟨fun h0 => ?_, fun h0 => absurd h0.1 (by decide)⟩
    -- an entry with bit 0 set decodes to an odd address
    have hodd := mt getLsbD_zero_toNat.mpr (by rw [h]; decide)
    simp only [slot, p2v, kernBase] at hodd h0
    bv_omega

lemma translate_eq_none (h : (m.load32 (slot pgdir (pde va))).getLsbD 0 = false) :
    translate m pgdir va = none := by
  simp only [translate, h, Bool.false_eq_true, if_false]

lemma mapLoop_ne_zero (h : start ≠ stop) :
    mapLoop stray fuel σ pgdir start stop pa perm ≠ some (0, σ') := by
  induction fuel generalizing σ start stop with
  | zero => simp [mapLoop]
  | succ fuel ih =>
    by_cases hf : (pagewalk σ pgdir start 1).1 = 0
    · rw [mapLoop_fail hf]
      intro he
      have hr : (-1 : BitVec 32) = 0 := congrArg Prod.fst (Option.some.inj he)
      exact absurd hr (by decide)
    · rw [mapLoop_turn hf, if_neg h]
      -- `start` and `stop` advance together, so they never meet
      apply ih
      intro he
      apply h
      bv_omega

lemma mapped_entry (ha : PageAligned pa) (hp : perm = 0 ∨ perm = pteRW) (a : Addr) :
    ((mapped (a - 1) σ pgdir start pa perm).mem.load32 a).getLsbD 0 = false := by
  have hb : ∀ (m : Mem) (v : BitVec 32), (m.store32 (a - 1) v).byte a = v.extractLsb' 8 8 := by
    intro m v
    have h1 : a ≠ a - 1 := by bv_omega
    have h2 : a = a - 1 + 1#32 := by bv_omega
    simp only [store32]
    rw [if_neg h1, if_pos h2]
  have hperm : perm.getLsbD 8 = false := by
    rcases hp with rfl | rfl <;> decide
  rw [load32_getLsbD_zero, mapped, hb, BitVec.getLsbD_extractLsb', BitVec.getLsbD_or,
    BitVec.getLsbD_or, getLsbD_of_aligned ha (by omega), hperm]
  decide

theorem mappages_maps_iff (ha : PageAligned pa) (hp : perm = 0 ∨ perm = pteRW) :
    MapsOnReturn σ pgdir va size pa perm ↔
      size ≠ 1 ∨ (σ.mem.load32 (slot pgdir (pde va)) &&& pteP = 0 ∧ slot σ.freelist (pte va) = 0) := by
  constructor
  · intro h
    by_contra hc
    obtain ⟨hs, hf⟩ := not_or.mp hc
    obtain rfl := not_not.mp hs
    rw [← pagewalk_eq_zero 1] at hf
    have hstop : va = va + 1 - 1 := by bv_omega
    have hm := h (slot pgdir (pde va) - 1) 1 _ (by
      rw [mappages, mapLoop_turn hf, if_pos hstop])
    have ht := hm.1 0 (by decide)
    rw [BitVec.add_zero va, translate_eq_none (mapped_entry ha hp _)] at ht
    cases ht
  · rintro hc stray fuel σ' he
    rcases hc with hs | hf
    · refine (mapLoop_ne_zero ?_ he).elim
      intro hstop
      apply hs
      bv_omega
    · rw [← pagewalk_eq_zero 1] at hf
      cases fuel with
      | zero => simp [mappages, mapLoop] at he
      | succ fuel =>
        rw [mappages, mapLoop_fail hf] at he
        have hr : (-1 : BitVec 32) = 0 := congrArg Prod.fst (Option.some.inj he)
        exact absurd hr (by decide)

theorem mappages_page_maps : MapsOnReturn twoPages 0x80401000#32 kernBase 4096 0 pteRW :=
  (mappages_maps_iff (by decide) (Or.inr rfl)).mpr (Or.inl (by decide))

theorem mappages_leaves_unmapped : ¬ ∀ (stray : Addr) (fuel : ℕ) (va pa size perm : BitVec 32)
    (σ' : Machine), PageAligned va → PageAligned pa → 1 ≤ size.toNat → va.toNat + size.toNat ≤ 2 ^ 32 →
    perm = 0 ∨ perm = pteRW → mappages stray fuel twoPages 0x80401000#32 va size pa perm = some (0, σ') →
    Maps twoPages.mem σ'.mem 0x80401000#32 va size pa perm := by
  intro h
  have hr : (mappages 0x80400000#32 1 twoPages 0x80401000#32 kernBase 1 0 pteRW).map
      (fun p => (p.1, translate p.2.mem 0x80401000#32 kernBase)) = some (0, none) := by
    decide +kernel
  obtain ⟨⟨r, σ'⟩, he, hl⟩ := Option.map_eq_some_iff.mp hr
  simp only [Prod.mk.injEq] at hl
  obtain ⟨rfl, ht⟩ := hl
  have hm := h 0x80400000#32 1 kernBase 0 1 pteRW σ' (by decide) (by decide) (by decide) (by decide)
    (Or.inr rfl) he
  have hva := hm.1 0 (by decide)
  rw [BitVec.add_zero kernBase, ht] at hva
  cases hva

end TinuOS.Paging
