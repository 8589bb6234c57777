import TinuOS.Umalloc.Coalesce
import TinuOS.Umalloc.Rounding
import TinuOS.Umalloc.Session

/-! What `ksbrk`, `malloc` and `free` do to the heap, one statement for each way they go. -/

namespace TinuOS.Umalloc

open Library Mem

variable {fuel : ℕ} {heap p a : Addr} {h h' : Heap} {m : Mem} {size total : BitVec 32} {out : List Output}
  {b : Block} {us vs : List Block}

lemma ksbrk_cases (heap : Addr) (h : Heap) {allocate : BitVec 32} (h0 : allocate ≠ 0) :
    (¬ h.Fits heap allocate ∧ (ksbrk heap h allocate).1 = 0 ∧
      (ksbrk heap h allocate).2.2 = h.opened heap) ∨
    (h.Fits heap allocate ∧ (ksbrk heap h allocate).1 = (h.opened heap).gKbrk ∧
      (ksbrk heap h allocate).2.2 =
        { h.opened heap with gKbrk := (h.opened heap).gKbrk + allocate }) := by
  simp only [ksbrk, if_neg h0]
  split_ifs with hb ht
  · exact Or.inl ⟨fun hf => BitVec.not_le.mpr hf.2.1 hb, rfl, rfl⟩
  · exact Or.inl ⟨fun hf => BitVec.not_le.mpr hf.2.2 ht, rfl, rfl⟩
  · exact Or.inr ⟨⟨h0, BitVec.not_le.mp hb, BitVec.not_le.mp ht⟩, rfl, rfl⟩

lemma malloc_eq_route : malloc heap fuel h size = (route fuel h size).map fun
    | .refuse => (0, if size = 0 then [] else [.kprintf "Malloc() is corrupted!\n"], h)
    | .reuse n => (n + BitVec.ofNat 32 sizeofHeader, [],
        { h with mem := split h.mem n size (totalSize size) })
    | .extend => grow heap h size := by
  by_cases hs : size = 0
  · simp [malloc, route, hs]
  · by_cases hb : h.heapBottom = 0
    · simp only [malloc, route, hs, hb, ne_eq, not_true_eq_false, if_true, if_false, Option.map_some]
    · by_cases hm : (header h.mem h.heapBottom).magic = heapMagic
      · simp only [malloc, route, hs, hb, hm, ne_eq, not_true_eq_false, not_false_eq_true, if_true,
          if_false, Option.map_map]
        congr 1
        funext n
        by_cases hn : n = 0
        · simp only [Function.comp, if_pos hn]
        · simp only [Function.comp, if_neg hn]
      · simp only [malloc, route, hs, hb, hm, ne_eq, not_false_eq_true, if_true, if_false,
          Option.map_some]

lemma split_agree : Agree (split m a size total) m (span a 16 ∪ span (a + total) 16)ᶜ := by
  have hl : (span a 16 ∪ span (a + total) 16)ᶜ ⊆ (span a 16)ᶜ :=
    Set.compl_subset_compl.mpr Set.subset_union_left
  have hr : (span a 16 ∪ span (a + total) 16)ᶜ ⊆ (span (a + total) 16)ᶜ :=
    Set.compl_subset_compl.mpr Set.subset_union_right
  refine ((setIsHole_agree _).mono hl).trans (((setNext_agree _).mono hl).trans
    (((setSize_agree _).mono hl).trans (((setIsHole_agree _).mono hr).trans
    (((setNext_agree _).mono hr).trans (((setMagic_agree _).mono hr).trans
    ((setSize_agree _).mono hr))))))

section Split

variable (hd : Disjoint (span (a + total) 16) (span a 16))
include hd

lemma split_header_front : header (split m a size total) a =
    { header m a with size := size, next := a + total, isHole := true } := by
  have hn : ∀ m' : Mem, Agree m' m (span (a + total) 16)ᶜ → header m' a = header m a :=
    fun m' hm => header_congr (hm.off hd)
  simp only [split, header_setIsHole, header_setNext, header_setSize]
  rw [hn]
  exact (setIsHole_agree _).trans ((setNext_agree _).trans ((setMagic_agree _).trans
    (setSize_agree _)))

lemma split_header_rest : header (split m a size total) (a + total) =
    ⟨(header m a).size - total, next m a, heapMagic, false⟩ := by
  have hn : ∀ m₁ m₂ : Mem, Agree m₁ m₂ (span a 16)ᶜ → header m₁ (a + total) = header m₂ (a + total) :=
    fun m₁ m₂ hm => header_congr (hm.off hd.symm)
  have hb : ∀ m₁ m₂ : Mem, Agree m₁ m₂ (span (a + total) 16)ᶜ → next m₁ a = next m₂ a :=
    fun m₁ m₂ hm => congrArg Header.next (header_congr (hm.off hd))
  simp only [split]
  rw [hn _ _ (setIsHole_agree _), hn _ _ (setNext_agree _), hn _ _ (setSize_agree _),
    header_setIsHole, header_setNext, header_setMagic, header_setSize, hb _ _ (setMagic_agree _),
    hb _ _ (setSize_agree _)]

end Split

lemma listed_split (hl : Listed m a (us ++ b :: vs))
    (hs : Separate (us ++ b.front size :: b.rest total :: vs)) (hn : b.addr + total ≠ 0) :
    Listed (split m b.addr size total) a (us ++ b.front size :: b.rest total :: vs) := by
  induction us generalizing a with
  | nil =>
    obtain ⟨ha, hb0, hb, hv⟩ := listed_cons.mp hl
    obtain ⟨hbv, hrv⟩ := List.pairwise_cons.mp hs
    have hd : Disjoint (span (b.addr + total) 16) (span b.addr 16) :=
      (hbv (b.rest total) List.mem_cons_self).symm
    have hfront : header (split m b.addr size total) b.addr =
        { header m b.addr with size := size, next := b.addr + total, isHole := true } :=
      split_header_front hd
    have hrest : header (split m b.addr size total) (b.addr + total) =
        ⟨(header m b.addr).size - total, next m b.addr, heapMagic, false⟩ :=
      split_header_rest hd
    have hbs : (header m b.addr).size = b.size := congrArg Block.size hb
    have hbm : (header m b.addr).magic = b.magic := congrArg Block.magic hb
    have hv' : Listed (split m b.addr size total) (next m b.addr) vs := by
      refine hv.off split_agree (Set.disjoint_union_left.mpr ⟨?_, ?_⟩)
      · exact Separate.disjoint (b := b.front size)
          (List.pairwise_cons.mpr ⟨fun c hc => hbv c (List.mem_cons_of_mem _ hc), hrv.of_cons⟩)
      · exact Separate.disjoint (b := b.rest total) hrv
    refine listed_cons.mpr ⟨ha, hb0, ?_, ?_⟩
    · change blockAt (split m b.addr size total) b.addr = b.front size
      simp only [blockAt, hfront, hbm, Block.front]
    · have hnext : next (split m b.addr size total) (b.front size).addr = b.addr + total :=
        congrArg Header.next hfront
      rw [hnext]
      refine listed_cons.mpr ⟨rfl, hn, ?_, ?_⟩
      · change blockAt (split m b.addr size total) (b.addr + total) = b.rest total
        simp only [blockAt, hrest, hbs, Block.rest]
      · have hnext' : next (split m b.addr size total) (b.rest total).addr = next m b.addr := by
          change (header _ (b.addr + total)).next = _
          rw [hrest]
        rw [hnext']
        exact hv'
  | cons u us ih =>
    obtain ⟨ha, hu0, hu, hl'⟩ := listed_cons.mp hl
    obtain ⟨huv, hs'⟩ := List.pairwise_cons.mp hs
    have hh : header (split m b.addr size total) u.addr = header m u.addr := by
      apply header_congr (split_agree.off (Set.disjoint_union_left.mpr ⟨?_, ?_⟩))
      · exact (huv (b.front size) (by simp)).symm
      · exact (huv (b.rest total) (by simp)).symm
    refine listed_cons.mpr ⟨ha, hu0, ?_, ?_⟩
    · rw [blockAt, hh]
      exact hu
    · rw [next, hh]
      exact ih hl' hs'

@[simp] lemma opened_mem : (h.opened heap).mem = h.mem := by
  rw [Heap.opened]
  split_ifs <;> rfl

structure Opened (I : Image) (h : Heap) : Prop where
  bottom : h.heapBottom = I.heap
  top : h.heapTop = I.heap + BitVec.ofNat 32 maxHeap
  le_brk : I.heap ≤ h.gKbrk
  brk_lt : h.gKbrk < h.heapTop

namespace Opened

variable {I : Image}

lemma bottom_ne_null (ho : Opened I h) : h.heapBottom ≠ 0 := ho.bottom ▸ I.heap_ne_null

lemma opened_eq (ho : Opened I h) : h.opened I.heap = h := if_neg ho.bottom_ne_null

lemma again (ho : Opened I h) : Opened I (h.opened I.heap) := by rwa [ho.opened_eq]

lemma brk_ne_null (ho : Opened I h) : h.gKbrk ≠ 0 := by
  have hle := ho.le_brk
  have hne := I.heap_ne_null
  bv_omega

lemma region_ne_null (ho : Opened I (h.opened I.heap)) (hfit : h.Fits I.heap (totalSize size)) :
    (h.opened I.heap).gKbrk + BitVec.ofNat 32 sizeofHeader ≠ 0 := by
  have hround := nextPowerOfTwo_le size
  have hend := I.heap_end
  obtain ⟨hbottom, htop, hle, hlt⟩ := ho
  obtain ⟨-, hb, ht⟩ := hfit
  rw [htop] at hlt
  rw [hbottom] at hb
  simp only [totalSize, sizeofHeader, maxHeap] at *
  bv_omega

lemma mem (ho : Opened I h) (m : Mem) : Opened I { h with mem := m } :=
  ⟨ho.bottom, ho.top, ho.le_brk, ho.brk_lt⟩

lemma grow (ho : Opened I h) (m : Mem) (hb : h.heapBottom < h.gKbrk + total)
    (ht : h.gKbrk + total < h.heapTop) :
    Opened I { h with mem := m, gKbrk := h.gKbrk + total } :=
  ⟨ho.bottom, ho.top, ho.bottom ▸ BitVec.le_of_lt hb, ht⟩

end Opened

lemma start_opened (I : Image) : Opened I (I.start.heap.opened I.heap) where
  bottom := rfl
  top := rfl
  le_brk := BitVec.le_refl _
  brk_lt := by
    have hend := I.heap_end
    change I.heap < I.heap + BitVec.ofNat 32 maxHeap
    simp only [maxHeap] at hend ⊢
    bv_omega

lemma grow_cases {I : Image} (ho : Opened I (h.opened I.heap)) (size : BitVec 32) :
    (¬ h.Fits I.heap (totalSize size) ∧ (grow I.heap h size).1 = 0 ∧
      (grow I.heap h size).2.2 = h.opened I.heap) ∨
    (h.Fits I.heap (totalSize size) ∧
      (grow I.heap h size).1 = (h.opened I.heap).gKbrk + BitVec.ofNat 32 sizeofHeader ∧
      (grow I.heap h size).1 ≠ 0 ∧
      ∃ m', header m' (h.opened I.heap).gKbrk = ⟨size, 0, heapMagic, true⟩ ∧
        Agree m' h.mem (span (h.opened I.heap).gKbrk 16)ᶜ ∧
        (grow I.heap h size).2.2 =
          { h.opened I.heap with mem := m', gKbrk := (h.opened I.heap).gKbrk + totalSize size }) := by
  rcases ksbrk_cases I.heap h (totalSize_ne_zero size) with ⟨hfit, hp, hh⟩ | ⟨hfit, hp, hh⟩
  · refine Or.inl ⟨hfit, ?_⟩
    simp only [grow, hp, if_true, true_and]
    exact hh
  · refine Or.inr ⟨hfit, ?_⟩
    simp only [grow, hp, if_neg ho.brk_ne_null, hh, opened_mem, true_and]
    refine ⟨ho.region_ne_null hfit, _, ?_, ?_, rfl⟩
    · simp only [header_setNext, header_setIsHole, header_setMagic, header_setSize]
    · exact (setNext_agree _).trans ((setIsHole_agree _).trans ((setMagic_agree _).trans
        (setSize_agree _)))

lemma free_cases {ap : Addr} (hf : free fuel h ap = some (out, h')) :
    h' = h ∨ (ap - BitVec.ofNat 32 sizeofHeader ≠ 0 ∧ out = [] ∧
      seek (next h.mem) 0 (· = ap - BitVec.ofNat 32 sizeofHeader) fuel h.heapBottom =
        some (ap - BitVec.ofNat 32 sizeofHeader) ∧
      ∃ m', coalesce fuel (setIsHole h.mem (ap - BitVec.ofNat 32 sizeofHeader) false) h.heapBottom =
        some m' ∧ h' = { h with mem := m' }) := by
  rw [free] at hf
  split_ifs at hf with hm
  · exact Or.inl (Prod.ext_iff.mp (Option.some.inj hf)).2.symm
  · obtain ⟨n, hn, hf⟩ := Option.bind_eq_some_iff.mp hf
    split_ifs at hf with h0
    · exact Or.inl (Prod.ext_iff.mp (Option.some.inj hf)).2.symm
    · obtain ⟨m', hc, he⟩ := Option.map_eq_some_iff.mp hf
      obtain ⟨rfl, rfl⟩ := Prod.ext_iff.mp he
      have hna : n = ap - BitVec.ofNat 32 sizeofHeader :=
        of_decide_eq_true ((seek_stop hn).resolve_left h0)
      exact Or.inr ⟨hna ▸ h0, rfl, hna ▸ hn, m', hc, rfl⟩

end TinuOS.Umalloc
