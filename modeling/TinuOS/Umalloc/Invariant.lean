import TinuOS.Umalloc.Operations

/-! The invariant of the heap in runs whose requests stay off the missing checks: the listed
blocks tile the first region taken from `ksbrk`, and the blocks of later regions follow it. -/

namespace TinuOS.Umalloc

open Library Mem

def Live.Clear (x y : Live) : Prop :=
  x.ptr.toNat + x.size.toNat + sizeofHeader ≤ y.ptr.toNat ∨
    y.ptr.toNat + y.size.toNat + sizeofHeader ≤ x.ptr.toNat

def Backed (bs : List Block) (x : Live) : Prop :=
  ∃ b ∈ bs, b.Used ∧ x.ptr = b.addr + BitVec.ofNat 32 sizeofHeader ∧ x.size = b.size

structure Active (I : Image) (s : Session) (bs : List Block) (limit : ℕ) : Prop where
  bottom : s.heap.heapBottom = I.heap
  top : s.heap.heapTop = I.heap + BitVec.ofNat 32 maxHeap
  listed : Listed s.heap.mem I.heap bs
  magic : ∀ b ∈ bs, b.magic = heapMagic
  tiled : Tiled I.heap.toNat limit bs
  limit_le : limit ≤ s.heap.gKbrk.toNat
  brk_lt : s.heap.gKbrk.toNat < I.heap.toNat + maxHeap
  live : ∀ x ∈ s.live, Backed bs x ∨
    (limit + sizeofHeader ≤ x.ptr.toNat ∧ x.ptr.toNat + x.size.toNat ≤ s.heap.gKbrk.toNat)
  clear : s.live.Pairwise Live.Clear

namespace Active

variable {I : Image} {s : Session} {bs us vs : List Block} {b : Block} {limit fuel : ℕ}
  {size : BitVec 32} {m' : Mem} {x : Live}

lemma limit_lt (h : Active I s bs limit) : limit < 2 ^ 32 := by
  have := h.limit_le
  omega

lemma separate (h : Active I s bs limit) : Separate bs := h.tiled.separate h.limit_lt.le

lemma opened (h : Active I s bs limit) : Opened I s.heap := by
  have hle := h.tiled.le
  have hlim := h.limit_le
  have hlt := h.brk_lt
  have hend := I.heap_end
  refine ⟨h.bottom, h.top, ?_, ?_⟩
  · bv_omega
  · rw [h.top]
    simp only [maxHeap] at hlt hend ⊢
    bv_omega

lemma chain (h : Active I s bs limit) :
    Chain (next s.heap.mem) 0 s.heap.heapBottom (bs.map Block.addr) := by
  rw [h.bottom]
  exact h.listed.1

lemma coalesce_ends {n : Addr} (h : Active I s bs limit) (hn : n ∈ bs.map Block.addr) :
    ∃ m', coalesce (bs.length + 1) (setIsHole s.heap.mem n false) s.heap.heapBottom = some m' := by
  obtain ⟨m', hc, -⟩ := coalesce_released h.listed h.separate hn
  rw [h.bottom]
  exact ⟨m', hc⟩

lemma backed_bounds (h : Active I s bs limit) (hx : Backed bs x) :
    I.heap.toNat + sizeofHeader ≤ x.ptr.toNat ∧ x.ptr.toNat + x.size.toNat ≤ limit := by
  obtain ⟨b, hb, -, hp, hs⟩ := hx
  have hm := h.tiled.mem hb
  have hl := h.limit_lt
  simp only [Block.stop, sizeofHeader] at hm hp ⊢
  rw [hp, hs]
  bv_omega

lemma live_bounds (h : Active I s bs limit) (hx : x ∈ s.live) :
    I.heap.toNat + sizeofHeader ≤ x.ptr.toNat ∧ x.ptr.toNat + x.size.toNat ≤ s.heap.gKbrk.toNat := by
  have hlim := h.limit_le
  have hle := h.tiled.le
  rcases h.live x hx with hb | hb
  · have := h.backed_bounds hb
    omega
  · omega

lemma used_off_hole {c : Block} (hb : ¬ b.Used) (hc : c ∈ us ++ b :: vs) (hu : c.Used) :
    c ∈ us ∨ c ∈ vs := by
  have hne : c ≠ b := by
    rintro rfl
    exact hb hu
  simpa only [List.mem_append, List.mem_cons, hne, false_or] using hc

lemma live_off_hole (h : Active I s (us ++ b :: vs) limit) (hb : ¬ b.Used) (hx : x ∈ s.live) :
    x.ptr.toNat + x.size.toNat ≤ b.addr.toNat ∨ b.stop + sizeofHeader ≤ x.ptr.toNat := by
  have hbt := h.tiled.mem (b := b) (by simp)
  have hl := h.limit_lt
  have hord := List.pairwise_append.mp h.tiled.pairwise
  rcases h.live x hx with ⟨c, hc, hu, hp, hsz⟩ | hx
  · have hct := h.tiled.mem hc
    rcases used_off_hole hb hc hu with hcu | hcv
    · have hle := hord.2.2 c hcu b List.mem_cons_self
      apply Or.inl
      simp only [Block.stop, sizeofHeader] at hle hbt hct hp
      rw [hp, hsz]
      bv_omega
    · have hle := (List.pairwise_cons.mp hord.2.1).1 c hcv
      apply Or.inr
      simp only [Block.stop, sizeofHeader] at hle hbt hct hp ⊢
      rw [hp]
      bv_omega
  · apply Or.inr
    omega

lemma reuse (h : Active I s (us ++ b :: vs) limit) (hb : ¬ b.Used) (hs : size ≤ 0x80000000#32)
    (ht : totalSize size ≤ b.size) :
    Active I ⟨{ s.heap with mem := split s.heap.mem b.addr size (totalSize size) },
      ⟨b.addr + BitVec.ofNat 32 sizeofHeader, size⟩ :: s.live⟩
      (us ++ b.front size :: b.rest (totalSize size) :: vs) limit := by
  have hl := h.limit_lt
  have hfit := le_totalSize hs
  have htiled := h.tiled.split hl hfit ht
  have hbm : b ∈ us ++ b :: vs := by simp
  have hbt := h.tiled.mem hbm
  have hn : b.addr + totalSize size ≠ 0 := by
    simp only [Block.stop, sizeofHeader] at hbt hfit
    bv_omega
  refine ⟨h.bottom, h.top, listed_split h.listed (htiled.separate hl.le) hn, ?_, htiled, h.limit_le,
    h.brk_lt, ?_, ?_⟩
  · intro c hc
    simp only [List.mem_append, List.mem_cons] at hc
    rcases hc with hc | rfl | rfl | hc
    · exact h.magic c (by simp [hc])
    · exact h.magic b hbm
    · rfl
    · exact h.magic c (by simp [hc])
  · intro x hx
    rcases List.mem_cons.mp hx with rfl | hx
    · exact Or.inl ⟨b.front size, by simp, rfl, rfl, rfl⟩
    · refine (h.live x hx).imp_left ?_
      rintro ⟨c, hc, hu, hcx⟩
      exact ⟨c, by rcases used_off_hole hb hc hu with hc | hc <;> simp [hc], hu, hcx⟩
  · refine List.pairwise_cons.mpr ⟨fun x hx => ?_, h.clear⟩
    rcases h.live_off_hole hb hx with hx | hx
    · apply Or.inr
      simp only [Block.stop, sizeofHeader] at hbt ⊢
      bv_omega
    · apply Or.inl
      simp only [Block.stop, sizeofHeader] at hbt hfit hx ⊢
      bv_omega

lemma extend (h : Active I s bs limit) (hs : size ≤ 0x80000000#32)
    (ht : s.heap.gKbrk + totalSize size < s.heap.heapTop)
    (hb : s.heap.heapBottom < s.heap.gKbrk + totalSize size)
    (hm : Agree m' s.heap.mem (span s.heap.gKbrk 16)ᶜ) :
    Active I ⟨{ s.heap with mem := m', gKbrk := s.heap.gKbrk + totalSize size },
      ⟨s.heap.gKbrk + BitVec.ofNat 32 sizeofHeader, size⟩ :: s.live⟩ bs limit := by
  have hfit := le_totalSize hs
  have hround := totalSize_toNat hs
  have hpow := (le_nextPowerOfTwo hs).2
  have hlim := h.limit_le
  have hle := h.tiled.le
  have hend := I.heap_end
  have hbrk := h.brk_lt
  rw [h.top] at ht
  rw [h.bottom] at hb
  have hsum : (s.heap.gKbrk + totalSize size).toNat = s.heap.gKbrk.toNat + (totalSize size).toNat ∧
      (s.heap.gKbrk + totalSize size).toNat < I.heap.toNat + maxHeap := by
    simp only [sizeofHeader, maxHeap] at *
    bv_omega
  have hdisj : Disjoint (span s.heap.gKbrk 16) (headers bs) := by
    rw [Set.disjoint_right]
    rintro x ⟨b, hb, hx⟩
    have hbt := h.tiled.mem hb
    have h16 : sizeofHeader = 16 := rfl
    simp only [Block.stop] at hbt
    exact Set.disjoint_left.mp (span_disjoint (by omega) (by omega)) hx
  have hptr : (s.heap.gKbrk + BitVec.ofNat 32 sizeofHeader).toNat =
      s.heap.gKbrk.toNat + sizeofHeader := by
    simp only [sizeofHeader, maxHeap] at *
    bv_omega
  refine ⟨h.bottom, h.top, h.listed.off hm hdisj, h.magic, h.tiled, ?_, hsum.2, ?_, ?_⟩
  · simp only [hsum.1]
    omega
  · intro x hx
    rcases List.mem_cons.mp hx with rfl | hx
    · simp only [hptr, hsum.1]
      exact Or.inr ⟨by omega, by omega⟩
    · refine (h.live x hx).imp_right fun hb => ⟨hb.1, hb.2.trans ?_⟩
      simp only [hsum.1]
      omega
  · refine List.pairwise_cons.mpr ⟨fun x hx => Or.inr ?_, h.clear⟩
    have := h.live_bounds hx
    rw [hptr]
    omega

lemma forget {live : List Live} (h : Active I s bs limit) (hl : live.Sublist s.live) :
    Active I ⟨s.heap, live⟩ bs limit where
  bottom := h.bottom
  top := h.top
  listed := h.listed
  magic := h.magic
  tiled := h.tiled
  limit_le := h.limit_le
  brk_lt := h.brk_lt
  live x hx := h.live x (hl.subset hx)
  clear := h.clear.sublist hl

lemma ptr_ne_of_mem_eraseP {live : List Live} {ap : Addr} (h : live.Pairwise Live.Clear)
    (hx : x ∈ live.eraseP (·.ptr = ap)) : x.ptr ≠ ap := by
  induction live with
  | nil => simp at hx
  | cons y live ih =>
    obtain ⟨hy, hp⟩ := List.pairwise_cons.mp h
    by_cases hya : y.ptr = ap
    · rw [List.eraseP_cons_of_pos (by simpa using hya)] at hx
      rintro rfl
      have := hy x hx
      simp only [Live.Clear, hya, sizeofHeader] at this
      omega
    · rw [List.eraseP_cons_of_neg (by simpa using hya)] at hx
      rcases List.mem_cons.mp hx with rfl | hx
      · exact hya
      · exact ih hp hx

lemma release {ap : Addr} (h : Active I s bs limit)
    (hm : ap - BitVec.ofNat 32 sizeofHeader ∈ bs.map Block.addr)
    (hc : coalesce fuel (setIsHole s.heap.mem (ap - BitVec.ofNat 32 sizeofHeader) false)
      s.heap.heapBottom = some m') :
    Active I ⟨{ s.heap with mem := m' }, s.live.eraseP (·.ptr = ap)⟩
      (coalesceBlocks (Umalloc.release (ap - BitVec.ofNat 32 sizeofHeader) bs)) limit := by
  have hsep := h.separate
  have htiled := h.tiled.release (ap - BitVec.ofNat 32 sizeofHeader)
  have hl := listed_release hsep h.listed hm
  rw [h.bottom] at hc
  refine ⟨h.bottom, h.top, ?_, ?_, coalesceBlocks_tiled htiled h.limit_lt, h.limit_le, h.brk_lt, ?_,
    h.clear.sublist List.eraseP_sublist⟩
  · exact listed_of_coalesce (htiled.separate h.limit_lt.le) hl hc
  · intro c hc
    obtain ⟨d, hd, -, hdc⟩ := exists_of_coalesceBlocks hc
    obtain ⟨e, he, rfl⟩ := List.mem_map.mp hd
    have hmagic := h.magic e he
    rw [← hdc]
    split_ifs <;> exact hmagic
  · intro x hx
    have hne := ptr_ne_of_mem_eraseP h.clear hx
    refine (h.live x (List.eraseP_sublist.subset hx)).imp_left ?_
    rintro ⟨b, hb, hu, hp, hs⟩
    refine ⟨b, (used_coalesceBlocks hu).mpr (List.mem_map.mpr ⟨b, hb, if_neg ?_⟩), hu, hp, hs⟩
    intro hba
    apply hne
    rw [hp, hba, BitVec.sub_add_cancel]

end Active

end TinuOS.Umalloc
