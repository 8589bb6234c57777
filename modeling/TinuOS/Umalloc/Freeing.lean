import TinuOS.Umalloc.Operations

/-! What `free` makes of a block list, and that a second call changes nothing. -/

namespace TinuOS.Umalloc

open Library Mem

def Heap.Frees (h : Heap) (ap : Addr) (out : List Output) (h' : Heap) : Prop :=
  ∃ fuel, free fuel h ap = some (out, h')

namespace Block

def extent (b : Block) : BitVec 32 := b.size + BitVec.ofNat 32 sizeofHeader

end Block

structure Freed (n : Addr) (bs bs' : List Block) : Prop where
  merged : bs'.IsChain fun c d => c.Used ∨ d.Used
  used : bs'.filter (·.Used) = bs.filter fun c => c.Used ∧ c.addr ≠ n
  total : (bs'.map Block.extent).sum = (bs.map Block.extent).sum

variable {fuel k : ℕ} {h h' h'' : Heap} {ap n a : Addr} {out out' : List Output} {b c : Block}
  {bs bs' : List Block} {m : Mem}

lemma free_mono (hf : free fuel h ap = some (out, h')) (hk : fuel ≤ k) :
    free k h ap = some (out, h') := by
  rw [free] at hf ⊢
  split_ifs at hf ⊢ with hm
  · exact hf
  · obtain ⟨n, hn, hf⟩ := Option.bind_eq_some_iff.mp hf
    rw [seek_mono hn hk, Option.bind_some]
    split_ifs at hf ⊢ with h0
    · exact hf
    · obtain ⟨m', hc, he⟩ := Option.map_eq_some_iff.mp hf
      rw [coalesce_mono hc hk, Option.map_some, he]

lemma Heap.Frees.unique (hf : h.Frees ap out h') (hf' : h.Frees ap out' h'') : out = out' ∧ h' = h'' := by
  obtain ⟨j, hj⟩ := hf
  obtain ⟨k, hk⟩ := hf'
  have hj' := free_mono hj (Nat.le_max_left j k)
  have hk' := free_mono hk (Nat.le_max_right j k)
  exact Prod.mk.inj (Option.some.inj (hj'.symm.trans hk'))

section Coalesced

lemma coalesceFrom_head (b : Block) (bs : List Block) :
    ∃ c cs, coalesceFrom b bs = c :: cs ∧ c.isHole = b.isHole := by
  induction bs generalizing b with
  | nil => exact ⟨b, [], rfl, rfl⟩
  | cons d bs ih =>
    rw [coalesceFrom]
    split_ifs
    · exact ih (b.absorb d)
    · exact ⟨b, _, rfl, rfl⟩

lemma coalesceFrom_merged (b : Block) (bs : List Block) :
    (coalesceFrom b bs).IsChain fun c d => c.Used ∨ d.Used := by
  induction bs generalizing b with
  | nil => exact List.isChain_singleton b
  | cons d bs ih =>
    rw [coalesceFrom]
    split_ifs with hm
    · exact ih (b.absorb d)
    · obtain ⟨c, cs, hc, hh⟩ := coalesceFrom_head d bs
      have hi := ih d
      rw [hc] at hi ⊢
      refine List.isChain_cons_cons.mpr ⟨?_, hi⟩
      rw [Block.Used, Block.Used, hh]
      simpa [or_iff_not_imp_left] using hm

lemma coalesceFrom_used (b : Block) (bs : List Block) :
    (coalesceFrom b bs).filter (·.Used) = (b :: bs).filter (·.Used) := by
  induction bs generalizing b with
  | nil => rfl
  | cons d bs ih =>
    rw [coalesceFrom]
    split_ifs with hm
    · have hb : b.isHole = false := by simpa using hm.1
      have hd : d.isHole = false := by simpa using hm.2
      have ha : (b.absorb d).isHole = false := hb
      rw [ih]
      simp [hb, hd, ha]
    · simp only [List.filter_cons, ih]

lemma coalesceFrom_total (b : Block) (bs : List Block) :
    ((coalesceFrom b bs).map Block.extent).sum = ((b :: bs).map Block.extent).sum := by
  induction bs generalizing b with
  | nil => rfl
  | cons d bs ih =>
    rw [coalesceFrom]
    split_ifs with hm
    · rw [ih, List.map_cons, List.map_cons, List.map_cons, List.sum_cons, List.sum_cons, List.sum_cons]
      simp only [Block.extent, Block.absorb]
      ac_rfl
    · rw [List.map_cons, List.sum_cons, ih, List.map_cons (a := b), List.sum_cons]

lemma coalesce_merged (hl : Listed m a bs) (hc : bs.IsChain fun c d => c.Used ∨ d.Used) :
    coalesce (bs.length + 1) m a = some m := by
  induction bs generalizing a with
  | nil => exact if_pos hl.1
  | cons b bs ih =>
    obtain ⟨rfl, hb0, hb, hbs⟩ := listed_cons.mp hl
    have hstop : ¬ (!(header m b.addr).isHole ∧ !(header m (next m b.addr)).isHole ∧
        next m b.addr ≠ 0) := by
      rintro ⟨hbh, hnh, hn0⟩
      cases bs with
      | nil => exact hn0 hbs.1
      | cons c bs =>
        obtain ⟨hn, -, hc', -⟩ := listed_cons.mp hbs
        have hbu : (header m b.addr).isHole = b.isHole := congrArg Block.isHole hb
        have hcu : (header m c.addr).isHole = c.isHole := congrArg Block.isHole hc'
        rw [hbu] at hbh
        rw [hn, hcu] at hnh
        rcases (List.isChain_cons_cons.mp hc).1 with hu | hu
        · simp [hu] at hbh
        · simp [hu] at hnh
    rw [List.length_cons, coalesce, if_neg hb0, mergeAt_stop hstop, Option.bind_some]
    exact ih hbs hc.tail

end Coalesced

section Release

lemma release_used (n : Addr) (bs : List Block) :
    (release n bs).filter (·.Used) = bs.filter fun c => c.Used ∧ c.addr ≠ n := by
  induction bs with
  | nil => rfl
  | cons b bs ih =>
    rw [release, List.map_cons, ← release, List.filter_cons, ih, List.filter_cons]
    by_cases hb : b.addr = n
    · simp [hb]
    · simp [hb]

lemma release_extent (n : Addr) (bs : List Block) :
    (release n bs).map Block.extent = bs.map Block.extent := by
  rw [release, List.map_map]
  refine List.map_congr_left fun b _ => ?_
  rw [Function.comp]
  split_ifs <;> rfl

lemma coalesceBlocks_freed (n : Addr) (bs : List Block) :
    Freed n bs (coalesceBlocks (release n bs)) := by
  cases hr : release n bs with
  | nil =>
    obtain rfl : bs = [] := List.map_eq_nil_iff.mp hr
    exact ⟨List.isChain_nil, rfl, rfl⟩
  | cons c cs =>
    refine ⟨coalesceFrom_merged c cs, ?_, ?_⟩
    · exact (coalesceFrom_used c cs).trans (hr ▸ release_used n bs)
    · rw [coalesceBlocks, coalesceFrom_total, ← hr, release_extent]

lemma released_hole (hc : c ∈ coalesceBlocks (release n bs)) (hn : c.addr = n) : c.isHole = false := by
  by_contra hu
  have hu' : c.Used := Bool.eq_true_of_not_eq_false hu
  obtain ⟨d, -, rfl⟩ := List.mem_map.mp ((used_coalesceBlocks hu').mp hc)
  split_ifs at hn hu with hd
  · exact hu rfl
  · exact hd hn

end Release

lemma setIsHole_self (hh : (header m a).isHole = false) : setIsHole m a false = m := by
  have hb : m.byte (a + 12#32) &&& 0xFE#8 ||| (BitVec.ofBool false).setWidth 8 = m.byte (a + 12#32) := by
    have h0 : (m.byte (a + 12#32)).getLsbD 0 = false := hh
    generalize m.byte (a + 12#32) = v at h0 ⊢
    revert v
    decide
  apply Mem.ext
  funext x
  rw [setIsHole, hb]
  exact ite_eq_right_iff.mpr fun hx => by rw [hx]

def Accepted (h : Heap) (bs : List Block) (ap : Addr) : Prop :=
  ap - BitVec.ofNat 32 sizeofHeader ∈ bs.map Block.addr ∧
    (header h.mem (ap - BitVec.ofNat 32 sizeofHeader)).magic = heapMagic

lemma free_refused (hl : Listed h.mem h.heapBottom bs) (ha : ¬ Accepted h bs ap) :
    ∃ out, free (bs.length + 1) h ap = some (out, h) := by
  rw [free]
  by_cases hm : (header h.mem (ap - BitVec.ofNat 32 sizeofHeader)).magic = heapMagic
  · rw [if_neg (not_not.mpr hm)]
    have hseek := seek_chain (p := (· = ap - BitVec.ofNat 32 sizeofHeader)) hl.1
    have hnone : (bs.map Block.addr).find? (· = ap - BitVec.ofNat 32 sizeofHeader) = none := by
      rw [List.find?_eq_none]
      intro x hx he
      exact ha ⟨of_decide_eq_true he ▸ hx, hm⟩
    rw [List.length_map, hnone] at hseek
    rw [hseek]
    exact ⟨_, rfl⟩
  · exact ⟨_, if_pos hm⟩

lemma free_accepted (hl : Listed h.mem h.heapBottom bs) (ha : Accepted h bs ap) :
    free (bs.length + 1) h ap = (coalesce (bs.length + 1)
      (setIsHole h.mem (ap - BitVec.ofNat 32 sizeofHeader) false) h.heapBottom).map
        fun mem => ([], { h with mem := mem }) := by
  have hseek := seek_chain (p := (· = ap - BitVec.ofNat 32 sizeofHeader)) hl.1
  rw [List.length_map, find?_eq_of_mem ha.1, Option.getD_some] at hseek
  rw [free, if_neg (not_not.mpr ha.2), hseek, Option.bind_some, if_neg (hl.1.ne_null ha.1)]

lemma free_settled (hl : Listed h.mem h.heapBottom bs) (ha : Accepted h bs ap)
    (hc : bs.IsChain fun c d => c.Used ∨ d.Used)
    (hh : (header h.mem (ap - BitVec.ofNat 32 sizeofHeader)).isHole = false) :
    free (bs.length + 1) h ap = some ([], h) := by
  rw [free_accepted hl ha, setIsHole_self hh, coalesce_merged hl hc, Option.map_some]

theorem free_coalesces (hl : Listed h.mem h.heapBottom bs) (hs : Separate bs) (hb : b ∈ bs)
    (hm : b.magic = heapMagic) : ∃ h' bs',
      h.Frees (b.addr + BitVec.ofNat 32 sizeofHeader) [] h' ∧ Listed h'.mem h'.heapBottom bs' ∧
      Freed b.addr bs bs' := by
  have hap : b.addr + BitVec.ofNat 32 sizeofHeader - BitVec.ofNat 32 sizeofHeader = b.addr :=
    BitVec.add_sub_cancel _ _
  have hmem : b.addr ∈ bs.map Block.addr := List.mem_map_of_mem hb
  have hmagic : (header h.mem b.addr).magic = heapMagic := (congrArg Block.magic (hl.2 b hb)).trans hm
  obtain ⟨m', hc, hl'⟩ := coalesce_released hl hs hmem
  refine ⟨{ h with mem := m' }, _, ⟨bs.length + 1, ?_⟩, hl', coalesceBlocks_freed b.addr bs⟩
  rw [free_accepted hl ⟨by rwa [hap], by rwa [hap]⟩, hap, hc, Option.map_some]

def withWords (words : List (Addr × BitVec 32)) : Mem :=
  words.foldl (fun m w => m.store32 w.1 w.2) ⟨fun _ => 0⟩

def row : Heap := ⟨withWords [(0x1000, 0xFF0), (0x1004, 0x2000), (0x1008, heapMagic), (0x2000, 100),
  (0x2004, 0x3000), (0x2008, heapMagic), (0x200C, 1), (0x3000, 16), (0x3008, heapMagic)], 0x1000, 0, 0⟩

def rowBlocks : List Block :=
  [⟨0x1000, 0xFF0, heapMagic, false⟩, ⟨0x2000, 100, heapMagic, true⟩, ⟨0x3000, 16, heapMagic, false⟩]

lemma row_listed : Listed row.mem row.heapBottom rowBlocks := by
  refine listed_cons.mpr ⟨rfl, by decide, by decide +kernel, ?_⟩
  refine listed_cons.mpr ⟨by decide +kernel, by decide, by decide +kernel, ?_⟩
  refine listed_cons.mpr ⟨by decide +kernel, by decide, by decide +kernel, ?_⟩
  exact listed_nil.mpr (by decide +kernel)

lemma row_separate : Separate rowBlocks := by
  have ht : Tiled 0x1000 0x3020 rowBlocks := by
    simp [Tiled, rowBlocks, Block.stop, sizeofHeader]
  exact ht.separate (by decide)

theorem free_coalesces_row : ∃ h' bs', row.Frees 0x2010 [] h' ∧ Listed h'.mem h'.heapBottom bs' ∧
    Freed 0x2000 rowBlocks bs' :=
  free_coalesces (b := ⟨0x2000, 100, heapMagic, true⟩) row_listed row_separate
    (by simp [rowBlocks]) rfl

def overlaid : Heap := ⟨withWords [(0x1004, 0x100C), (0x1008, heapMagic), (0x100C, 1), (0x1010, 0x2000),
  (0x1014, heapMagic), (0x1018, 1), (0x2000, 1), (0x2008, heapMagic)], 0x1000, 0, 0⟩

def overlaidBlocks : List Block :=
  [⟨0x1000, 0, heapMagic, true⟩, ⟨0x100C, 1, heapMagic, true⟩, ⟨0x2000, 1, heapMagic, false⟩]

lemma overlaid_listed : Listed overlaid.mem overlaid.heapBottom overlaidBlocks := by
  refine listed_cons.mpr ⟨rfl, by decide, by decide +kernel, ?_⟩
  refine listed_cons.mpr ⟨by decide +kernel, by decide, by decide +kernel, ?_⟩
  refine listed_cons.mpr ⟨by decide +kernel, by decide, by decide +kernel, ?_⟩
  exact listed_nil.mpr (by decide +kernel)

lemma overlaid_freed : ∃ out h' out' h'', overlaid.Frees 0x101C out h' ∧ h'.Frees 0x101C out' h'' ∧
    Listed h'.mem h'.heapBottom [⟨0x1000, 0, heapMagic, false⟩, ⟨0x100C, 18, heapMagic, false⟩] ∧
    Listed h''.mem h''.heapBottom [⟨0x1000, 34, heapMagic, false⟩] := by
  have hr : ((free 4 overlaid 0x101C).bind fun p => (free 4 p.2 0x101C).map fun q =>
      ((p.2.heapBottom, blockAt p.2.mem 0x1000, next p.2.mem 0x1000, blockAt p.2.mem 0x100C,
        next p.2.mem 0x100C), q.2.heapBottom, blockAt q.2.mem 0x1000, next q.2.mem 0x1000)) =
      some ((0x1000#32, ⟨0x1000, 0, heapMagic, false⟩, 0x100C#32, ⟨0x100C, 18, heapMagic, false⟩,
        0#32), 0x1000#32, ⟨0x1000, 34, heapMagic, false⟩, 0#32) := by
    decide +kernel
  obtain ⟨⟨out, h'⟩, hf, hr⟩ := Option.bind_eq_some_iff.mp hr
  obtain ⟨⟨out', h''⟩, hf', hr⟩ := Option.map_eq_some_iff.mp hr
  simp only [Prod.mk.injEq] at hr
  obtain ⟨⟨hb, hx, hxn, hy, hyn⟩, hb', hx', hxn'⟩ := hr
  refine ⟨out, h', out', h'', ⟨4, hf⟩, ⟨4, hf'⟩, ?_, ?_⟩
  · exact listed_cons.mpr ⟨hb, by decide, hx, listed_cons.mpr ⟨hxn, by decide, hy, hyn, by simp⟩⟩
  · exact listed_cons.mpr ⟨hb', by decide, hx', hxn', by simp⟩

def defaced : Heap := ⟨withWords [(0x1004, 0x2000)], 0x1000, 0, 0⟩

lemma defaced_listed : Listed defaced.mem defaced.heapBottom [⟨0x1000, 0, 0, false⟩, ⟨0x2000, 0, 0, false⟩] := by
  refine listed_cons.mpr ⟨rfl, by decide, by decide +kernel, ?_⟩
  refine listed_cons.mpr ⟨by decide +kernel, by decide, by decide +kernel, ?_⟩
  exact listed_nil.mpr (by decide +kernel)

theorem overlaid_not_coalesced :
    (¬ ∀ (h : Heap) (bs : List Block) (b : Block), Listed h.mem h.heapBottom bs → b ∈ bs →
      b.magic = heapMagic → ∃ out h' bs', h.Frees (b.addr + BitVec.ofNat 32 sizeofHeader) out h' ∧
        Listed h'.mem h'.heapBottom bs' ∧ Freed b.addr bs bs') ∧
    ¬ ∀ (h : Heap) (bs : List Block) (b : Block), Listed h.mem h.heapBottom bs → Separate bs → b ∈ bs →
      ∃ out h' bs', h.Frees (b.addr + BitVec.ofNat 32 sizeofHeader) out h' ∧
        Listed h'.mem h'.heapBottom bs' ∧ Freed b.addr bs bs' := by
  refine ⟨fun hall => ?_, fun hall => ?_⟩
  · obtain ⟨out, h', bs', hf, hl, hfreed⟩ := hall overlaid overlaidBlocks ⟨0x100C, 1, heapMagic, true⟩
      overlaid_listed (by simp [overlaidBlocks]) rfl
    obtain ⟨out₁, h₁, -, -, hf₁, -, hl₁, -⟩ := overlaid_freed
    obtain ⟨-, rfl⟩ := hf.unique hf₁
    obtain rfl := hl.unique hl₁
    exact absurd hfreed.merged (by simp)
  · have hs : Separate [⟨0x1000, 0, 0, false⟩, ⟨0x2000, 0, 0, false⟩] :=
      List.pairwise_pair.mpr (span_disjoint (by decide) (by decide))
    obtain ⟨out, h', bs', hf, hl, hfreed⟩ := hall defaced _ ⟨0x1000, 0, 0, false⟩ defaced_listed hs
      List.mem_cons_self
    have hr : free 1 defaced (0x1000#32 + BitVec.ofNat 32 sizeofHeader) =
        some ([.kprintf "Free() is corrupted!\n"], defaced) := by
      rw [free, if_pos (by decide +kernel)]
    obtain ⟨-, rfl⟩ := hf.unique ⟨1, hr⟩
    obtain rfl := hl.unique defaced_listed
    exact absurd hfreed.merged (by simp)

theorem free_again (hl : Listed h.mem h.heapBottom bs) (hs : Separate bs) (ap : Addr) :
    ∃ out h' out', h.Frees ap out h' ∧ h'.Frees ap out' h' := by
  by_cases ha : Accepted h bs ap
  · obtain ⟨m', hc, hl'⟩ := coalesce_released hl hs ha.1
    have hf : h.Frees ap [] { h with mem := m' } :=
      ⟨bs.length + 1, by rw [free_accepted hl ha, hc, Option.map_some]⟩
    refine ⟨[], { h with mem := m' }, ?_⟩
    by_cases ha' : Accepted { h with mem := m' }
        (coalesceBlocks (release (ap - BitVec.ofNat 32 sizeofHeader) bs)) ap
    · -- the block is still listed: it is a hole, and so the mark and the loops change nothing
      obtain ⟨c, hc', hcn⟩ := List.mem_map.mp ha'.1
      have hhole : (header m' (ap - BitVec.ofNat 32 sizeofHeader)).isHole = false := by
        rw [← hcn]
        exact (congrArg Block.isHole (hl'.2 c hc')).trans (released_hole hc' hcn)
      have hmerged := (coalesceBlocks_freed (ap - BitVec.ofNat 32 sizeofHeader) bs).merged
      exact ⟨[], hf, _, free_settled (h := { h with mem := m' }) hl' ha' hmerged hhole⟩
    · obtain ⟨out', hf'⟩ := free_refused (h := { h with mem := m' }) hl' ha'
      exact ⟨out', hf, _, hf'⟩
  · obtain ⟨out, hf⟩ := free_refused hl ha
    exact ⟨out, h, out, ⟨_, hf⟩, _, hf⟩

theorem free_again_row : ∃ out h' out', row.Frees 0x2010 out h' ∧ h'.Frees 0x2010 out' h' :=
  free_again row_listed row_separate 0x2010

theorem overlaid_freed_again : ¬ ∀ (h : Heap) (bs : List Block) (ap : Addr),
    Listed h.mem h.heapBottom bs → ∃ out h' out' h'' bs', h.Frees ap out h' ∧ h'.Frees ap out' h'' ∧
      Listed h'.mem h'.heapBottom bs' ∧ Listed h''.mem h''.heapBottom bs' := by
  intro hall
  obtain ⟨out, h', out', h'', bs', hf, hf', hl, hl'⟩ := hall overlaid _ 0x101C overlaid_listed
  obtain ⟨out₁, h₁, out₂, h₂, hf₁, hf₂, hl₁, hl₂⟩ := overlaid_freed
  obtain ⟨-, rfl⟩ := hf.unique hf₁
  obtain ⟨-, rfl⟩ := hf'.unique hf₂
  have hlen := congrArg List.length ((hl.unique hl₁).symm.trans (hl'.unique hl₂))
  exact absurd hlen (by decide)

end TinuOS.Umalloc
