import TinuOS.Umalloc.Blocks
import TinuOS.Umalloc.Model

/-! The two nested loops of `free` end on every block list, and coalesce it. -/

namespace TinuOS.Umalloc

open Library Mem

variable {fuel : ℕ} {b c : Block} {bs cs : List Block} {m m' : Mem} {a n : Addr}

lemma mergeAt_mono {k : ℕ} (h : mergeAt fuel m a = some m') (hk : fuel ≤ k) :
    mergeAt k m a = some m' := by
  induction fuel generalizing m k with
  | zero => simp [mergeAt] at h
  | succ fuel ih =>
    obtain ⟨k, rfl⟩ : ∃ j, k = j + 1 := ⟨k - 1, by omega⟩
    rw [mergeAt] at h ⊢
    split_ifs at h ⊢
    · exact ih h (by omega)
    · exact h

lemma coalesce_mono {k : ℕ} (h : coalesce fuel m a = some m') (hk : fuel ≤ k) :
    coalesce k m a = some m' := by
  induction fuel generalizing m a k with
  | zero => simp [coalesce] at h
  | succ fuel ih =>
    obtain ⟨k, rfl⟩ : ∃ j, k = j + 1 := ⟨k - 1, by omega⟩
    rw [coalesce] at h ⊢
    split_ifs at h ⊢
    · exact h
    · obtain ⟨m₁, hm, hc⟩ := Option.bind_eq_some_iff.mp h
      rw [mergeAt_mono hm (by omega : fuel ≤ k)]
      exact ih hc (by omega)

lemma mergeAt_stop (h : ¬ (!(header m a).isHole ∧ !(header m (next m a)).isHole ∧ next m a ≠ 0)) :
    mergeAt (fuel + 1) m a = some m := by
  rw [mergeAt, if_neg h]

lemma mergeAt_absorb (fuel : ℕ) (hd : Disjoint b.header c.header) (hm : !b.isHole ∧ !c.isHole)
    (hl : Listed m b.addr (b :: c :: bs)) :
    ∃ m', mergeAt (fuel + 1) m b.addr = mergeAt fuel m' b.addr ∧
      header m' b.addr = { header m b.addr with size := (b.absorb c).size, next := next m c.addr } ∧
      Agree m' m b.headerᶜ := by
  obtain ⟨-, hb0, hb, hl⟩ := listed_cons.mp hl
  obtain ⟨hn, hc0, hc, -⟩ := listed_cons.mp hl
  have hbh : header m b.addr = ⟨b.size, c.addr, b.magic, b.isHole⟩ := by
    rw [← hn, ← hb]
    rfl
  have hcs : (header m c.addr).size = c.size := congrArg Block.size hc
  have hch : (header m c.addr).isHole = c.isHole := congrArg Block.isHole hc
  have hsize := setSize_agree (m := m) (a := b.addr) (b.absorb c).size
  have hcn : next (setSize m b.addr (b.absorb c).size) c.addr = next m c.addr := by
    rw [next, header_congr (hsize.off hd), next]
  refine ⟨setNext (setSize m b.addr (b.absorb c).size) b.addr (next m c.addr), ?_, ?_, ?_⟩
  · rw [mergeAt, if_pos]
    · have hs : (header m b.addr).size + ((header m (next m b.addr)).size +
          BitVec.ofNat 32 sizeofHeader) = (b.absorb c).size := by
        rw [hn, hcs, hbh]
        rfl
      have hn' : next (setSize m b.addr (b.absorb c).size) b.addr = c.addr := by
        rw [next, header_setSize, hbh]
      simp only [hs, hn', hcn]
    · rw [hn, hch, hbh]
      exact ⟨hm.1, hm.2, hc0⟩
  · rw [header_setNext, header_setSize]
  · exact (setNext_agree _).trans hsize

lemma mergeAt_listed (hs : Separate (b :: bs)) (hl : Listed m b.addr (b :: bs))
    (hf : bs.length < fuel) :
    ∃ m' b' bs', mergeAt fuel m b.addr = some m' ∧ b'.addr = b.addr ∧
      Listed m' b.addr (b' :: bs') ∧ coalesceFrom b bs = b' :: coalesceBlocks bs' ∧
      bs' <:+ bs ∧ Agree m' m b.headerᶜ := by
  induction bs generalizing b m fuel with
  | nil =>
    obtain ⟨fuel, rfl⟩ : ∃ k, fuel = k + 1 := ⟨fuel - 1, by omega⟩
    have hn : next m b.addr = 0 := (listed_cons.mp hl).2.2.2.1
    exact ⟨m, b, [], mergeAt_stop (by simp [hn]), rfl, hl, rfl, List.suffix_refl _, fun _ _ => rfl⟩
  | cons c bs ih =>
    obtain ⟨fuel, rfl⟩ : ∃ k, fuel = k + 1 := ⟨fuel - 1, by omega⟩
    obtain ⟨-, hb0, hb, hlc⟩ := listed_cons.mp hl
    obtain ⟨hn, hc0, hc, hlb⟩ := listed_cons.mp hlc
    obtain ⟨hbc, hsc⟩ := List.pairwise_cons.mp hs
    by_cases hm : !b.isHole ∧ !c.isHole
    · obtain ⟨m₁, he, hh, ha⟩ := mergeAt_absorb fuel (hbc c List.mem_cons_self) hm hl
      have hs₁ : Separate (b.absorb c :: bs) :=
        List.pairwise_cons.mpr ⟨fun d hd => hbc d (List.mem_cons_of_mem c hd), hsc.of_cons⟩
      have hl₁ : Listed m₁ b.addr (b.absorb c :: bs) := by
        refine listed_cons.mpr ⟨rfl, hb0, ?_, ?_⟩
        · have hbm : (header m b.addr).magic = b.magic := congrArg Block.magic hb
          have hbh : (header m b.addr).isHole = b.isHole := congrArg Block.isHole hb
          change blockAt m₁ b.addr = b.absorb c
          rw [blockAt, hh, hbm, hbh]
          rfl
        · have hd : Disjoint b.header (headers bs) := hs₁.disjoint
          change Listed m₁ (header m₁ b.addr).next bs
          rw [hh]
          exact hlb.off ha hd
      obtain ⟨m', b', bs', hr, hb', hl', hco, hsuf, ha'⟩ :=
        ih hs₁ hl₁ (by simpa using hf)
      exact ⟨m', b', bs', he.trans hr, hb', hl', by rw [coalesceFrom, if_pos hm, hco],
        hsuf.trans (List.suffix_cons c bs), ha'.trans ha⟩
    · refine ⟨m, b, c :: bs, mergeAt_stop ?_, rfl, hl, by rw [coalesceFrom, if_neg hm]; rfl,
        List.suffix_refl _, fun _ _ => rfl⟩
      have hbh : (header m b.addr).isHole = b.isHole := congrArg Block.isHole hb
      have hch : (header m c.addr).isHole = c.isHole := congrArg Block.isHole hc
      rw [hn, hbh, hch]
      exact fun h => hm ⟨h.1, h.2.1⟩

lemma coalesce_listed (hs : Separate bs) (hl : Listed m a bs) (hf : bs.length < fuel) :
    ∃ m', coalesce fuel m a = some m' ∧ Listed m' a (coalesceBlocks bs) ∧
      Agree m' m (headers bs)ᶜ := by
  induction fuel generalizing m a bs with
  | zero => omega
  | succ fuel ih =>
    cases bs with
    | nil =>
      have ha : a = 0 := hl.1
      exact ⟨m, by rw [coalesce, if_pos ha], hl, fun _ _ => rfl⟩
    | cons b bs =>
      obtain ⟨rfl, hb0, -, -⟩ := listed_cons.mp hl
      obtain ⟨m₁, b', bs', hr, hb', hl₁, hco, hsuf, ha₁⟩ :=
        mergeAt_listed hs hl (by simpa using hf : bs.length < fuel)
      have hsub := hsuf.sublist
      have hs' : Separate (b :: bs') := hs.sublist (hsub.cons_cons b)
      obtain ⟨-, -, hbl, hnl⟩ := listed_cons.mp hl₁
      have hlen := hsub.length_le
      obtain ⟨m₂, hr₂, hl₂, ha₂⟩ := ih hs'.of_cons hnl (by simp at hf; omega)
      have hb₂ : header m₂ b'.addr = header m₁ b'.addr := by
        rw [hb']
        exact header_congr (ha₂.off hs'.disjoint.symm)
      refine ⟨m₂, ?_, ?_, ?_⟩
      · rw [coalesce, if_neg hb0, hr]
        rw [hb'] at hr₂
        exact hr₂
      · rw [coalesceBlocks, hco]
        refine listed_cons.mpr ⟨hb'.symm, hb' ▸ hb0, ?_, ?_⟩
        · rw [blockAt, hb₂]
          exact hbl
        · rw [next, hb₂]
          exact hl₂
      · refine (ha₂.mono ?_).trans (ha₁.mono ?_) <;> rw [Set.compl_subset_compl]
        · exact headers_mono fun c hc => List.mem_cons_of_mem b (hsub.subset hc)
        · exact fun x hx => ⟨b, List.mem_cons_self, hx⟩

lemma listed_of_coalesce (hs : Separate bs) (hl : Listed m a bs) (hc : coalesce fuel m a = some m') :
    Listed m' a (coalesceBlocks bs) := by
  obtain ⟨m₁, h₁, hl₁, -⟩ := coalesce_listed hs hl (Nat.lt_add_one bs.length)
  have hm := coalesce_mono hc (Nat.le_max_left fuel (bs.length + 1))
  have hm₁ := coalesce_mono h₁ (Nat.le_max_right fuel (bs.length + 1))
  obtain rfl := Option.some.inj (hm.symm.trans hm₁)
  exact hl₁

lemma listed_release (hs : Separate bs) (hl : Listed m a bs) (hn : n ∈ bs.map Block.addr) :
    Listed (setIsHole m n false) a (release n bs) := by
  obtain ⟨b, hb, rfl⟩ := List.mem_map.mp hn
  have hh : ∀ c ∈ bs, c.addr ≠ b.addr →
      header (setIsHole m b.addr false) c.addr = header m c.addr := by
    intro c hc hne
    have hd : Disjoint b.header c.header :=
      hs.apart hb hc fun h => hne (congrArg Block.addr h).symm
    exact header_congr ((setIsHole_agree false).off hd)
  have hmap : (release b.addr bs).map Block.addr = bs.map Block.addr := by
    simp only [release, List.map_map]
    apply List.map_congr_left
    intro c _
    by_cases hc : c.addr = b.addr <;> simp [hc]
  refine ⟨?_, ?_⟩
  · rw [hmap]
    refine hl.1.congr fun x hx => ?_
    obtain ⟨c, hc, rfl⟩ := List.mem_map.mp hx
    by_cases hcb : c.addr = b.addr
    · simp only [next, hcb, header_setIsHole]
    · simp only [next, hh c hc hcb]
  · intro d hd
    obtain ⟨c, hc, rfl⟩ := List.mem_map.mp hd
    by_cases hcb : c.addr = b.addr
    · have hcm := hl.2 c hc
      rw [if_pos hcb]
      simp only [blockAt, hcb, header_setIsHole] at hcm ⊢
      rw [← hcm]
    · rw [if_neg hcb]
      simpa only [blockAt, hh c hc hcb] using hl.2 c hc

lemma release_separate (hs : Separate bs) : Separate (release n bs) := by
  refine List.pairwise_map.mpr (hs.imp fun {c d} hcd => ?_)
  split_ifs <;> exact hcd

lemma coalesce_released (hl : Listed m a bs) (hs : Separate bs) (hn : n ∈ bs.map Block.addr) :
    ∃ m', coalesce (bs.length + 1) (setIsHole m n false) a = some m' ∧
      Listed m' a (coalesceBlocks (release n bs)) := by
  have hlen : (release n bs).length < bs.length + 1 := by simp [release]
  obtain ⟨m', hc, hl', -⟩ := coalesce_listed (release_separate hs) (listed_release hs hl hn) hlen
  exact ⟨m', hc, hl'⟩

end TinuOS.Umalloc
