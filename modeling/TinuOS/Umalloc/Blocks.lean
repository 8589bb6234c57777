import TinuOS.Library.Chain
import TinuOS.Umalloc.Header

/-! The heap as a list of blocks in address order, and the block list that memory holds. -/

namespace TinuOS.Umalloc

open Library Mem

structure Block where
  addr : Addr
  size : BitVec 32
  magic : BitVec 32
  isHole : Bool
  deriving DecidableEq

namespace Block

def header (b : Block) : Set Addr := span b.addr sizeofHeader

def stop (b : Block) : ℕ := b.addr.toNat + sizeofHeader + b.size.toNat

/-- The field `is_hole` is set on the blocks in use. -/
abbrev Used (b : Block) : Prop := b.isHole = true

def absorb (b c : Block) : Block :=
  { b with size := b.size + (c.size + BitVec.ofNat 32 sizeofHeader) }

def front (b : Block) (size : BitVec 32) : Block := { b with size := size, isHole := true }

def rest (b : Block) (total : BitVec 32) : Block := ⟨b.addr + total, b.size - total, heapMagic, false⟩

end Block

def release (m : Addr) (bs : List Block) : List Block :=
  bs.map fun b => if b.addr = m then { b with isHole := false } else b

def coalesceFrom (b : Block) : List Block → List Block
  | [] => [b]
  | c :: bs => if !b.isHole ∧ !c.isHole then coalesceFrom (b.absorb c) bs else b :: coalesceFrom c bs

def coalesceBlocks : List Block → List Block
  | [] => []
  | b :: bs => coalesceFrom b bs

def Tiled : ℕ → ℕ → List Block → Prop
  | lo, hi, [] => lo ≤ hi
  | lo, hi, b :: bs => lo ≤ b.addr.toNat ∧ Tiled b.stop hi bs

def Separate (bs : List Block) : Prop := bs.Pairwise fun b c => Disjoint b.header c.header

def blockAt (m : Mem) (a : Addr) : Block :=
  ⟨a, (header m a).size, (header m a).magic, (header m a).isHole⟩

def Listed (m : Mem) (a : Addr) (bs : List Block) : Prop :=
  Chain (next m) 0 a (bs.map Block.addr) ∧ ∀ b ∈ bs, blockAt m b.addr = b

def headers (bs : List Block) : Set Addr := {x | ∃ b ∈ bs, x ∈ b.header}

variable {lo hi mid : ℕ} {b c : Block} {bs cs : List Block} {m m' : Mem} {a : Addr}

section Tiled

lemma Tiled.le (h : Tiled lo hi bs) : lo ≤ hi := by
  induction bs generalizing lo with
  | nil => exact h
  | cons b bs ih =>
    have := ih h.2
    have := h.1
    simp only [Block.stop] at *
    omega

lemma Tiled.mono (h : Tiled mid hi bs) (hl : lo ≤ mid) : Tiled lo hi bs := by
  cases bs with
  | nil => exact hl.trans h
  | cons b bs => exact ⟨hl.trans h.1, h.2⟩

lemma Tiled.mem (h : Tiled lo hi bs) (hb : b ∈ bs) : lo ≤ b.addr.toNat ∧ b.stop ≤ hi := by
  induction bs generalizing lo with
  | nil => simp at hb
  | cons c bs ih =>
    rcases List.mem_cons.mp hb with rfl | hb
    · exact ⟨h.1, h.2.le⟩
    · have := ih h.2 hb
      have := h.1
      simp only [Block.stop] at *
      omega

lemma Tiled.pairwise (h : Tiled lo hi bs) : bs.Pairwise fun b c => b.stop ≤ c.addr.toNat := by
  induction bs generalizing lo with
  | nil => exact List.Pairwise.nil
  | cons b bs ih => exact List.pairwise_cons.mpr ⟨fun c hc => (h.2.mem hc).1, ih h.2⟩

lemma Tiled.separate (h : Tiled lo hi bs) (hh : hi ≤ 2 ^ 32) : Separate bs := by
  apply h.pairwise.imp_of_mem
  intro b c _ hc hbc
  have := (h.mem hc).2
  simp only [Block.stop] at hbc this
  exact span_disjoint (by omega) (by omega)

lemma Tiled.split {us vs : List Block} {size total : BitVec 32} (h : Tiled lo hi (us ++ b :: vs))
    (hh : hi < 2 ^ 32) (hs : sizeofHeader + size.toNat ≤ total.toNat) (ht : total ≤ b.size) :
    Tiled lo hi (us ++ b.front size :: b.rest total :: vs) := by
  induction us generalizing lo with
  | nil =>
    obtain ⟨hl, hv⟩ := h
    have hstop := hv.le
    simp only [Block.stop] at hstop
    have hn : (b.addr + total).toNat = b.addr.toNat + total.toNat := by bv_omega
    refine ⟨hl, ?_, hv.mono ?_⟩
    · simp only [Block.stop, Block.front, Block.rest, hn]
      omega
    · simp only [Block.stop, Block.rest, hn]
      bv_omega
  | cons u us ih => exact ⟨h.1, ih h.2⟩

lemma Tiled.release (h : Tiled lo hi bs) (n : Addr) : Tiled lo hi (release n bs) := by
  induction bs generalizing lo with
  | nil => exact h
  | cons b bs ih =>
    rw [Umalloc.release, List.map_cons]
    split_ifs
    · exact ⟨h.1, ih h.2⟩
    · exact ⟨h.1, ih h.2⟩

end Tiled

section Listed

lemma headers_mono (h : bs ⊆ cs) : headers bs ⊆ headers cs := by
  rintro x ⟨b, hb, hx⟩
  exact ⟨b, h hb, hx⟩

lemma Separate.disjoint (h : Separate (b :: bs)) : Disjoint b.header (headers bs) := by
  rw [Set.disjoint_right]
  rintro x ⟨c, hc, hx⟩ hb
  exact Set.disjoint_left.mp ((List.pairwise_cons.mp h).1 c hc) hb hx

lemma Separate.apart (h : Separate bs) (hb : b ∈ bs) (hc : c ∈ bs) (hne : b ≠ c) :
    Disjoint b.header c.header := by
  have : Std.Symm fun b c : Block => Disjoint b.header c.header := ⟨fun _ _ hd => hd.symm⟩
  exact List.Pairwise.forall h hb hc hne

lemma listed_nil : Listed m a [] ↔ a = 0 :=
  and_iff_left fun _ hb => absurd hb List.not_mem_nil

lemma listed_cons : Listed m a (b :: bs) ↔
    a = b.addr ∧ b.addr ≠ 0 ∧ blockAt m b.addr = b ∧ Listed m (next m b.addr) bs := by
  constructor
  · rintro ⟨⟨ha, hn, hc⟩, hb⟩
    exact ⟨ha, hn, hb b List.mem_cons_self, hc, fun c hc => hb c (List.mem_cons_of_mem b hc)⟩
  · rintro ⟨ha, hn, hb, hc, hbs⟩
    exact ⟨⟨ha, hn, hc⟩, List.forall_mem_cons.mpr ⟨hb, hbs⟩⟩

lemma Listed.unique (h : Listed m a bs) (h' : Listed m a cs) : bs = cs := by
  have hmap : ∀ ds : List Block, Listed m a ds → (ds.map Block.addr).map (blockAt m) = ds := by
    intro ds hd
    rw [List.map_map]
    exact (List.map_congr_left hd.2).trans (List.map_id ds)
  rw [← hmap bs h, ← hmap cs h', Chain.unique h.1 h'.1]

lemma Listed.frame (h : Listed m a bs) (hh : ∀ b ∈ bs, Umalloc.header m' b.addr = Umalloc.header m b.addr) :
    Listed m' a bs := by
  refine ⟨h.1.congr ?_, ?_⟩
  · intro x hx
    obtain ⟨b, hb, rfl⟩ := List.mem_map.mp hx
    simp only [next, hh b hb]
  · intro b hb
    simpa only [blockAt, hh b hb] using h.2 b hb

lemma Listed.off {s : Set Addr} (h : Listed m a bs) (hm : Agree m' m sᶜ)
    (hd : Disjoint s (headers bs)) : Listed m' a bs := by
  refine h.frame fun b hb => header_congr (hm.off (hd.mono_right ?_))
  intro x hx
  exact ⟨b, hb, hx⟩

end Listed

section Coalesce

lemma coalesceFrom_tiled (h : Tiled lo hi (b :: bs)) (hh : hi < 2 ^ 32) :
    Tiled lo hi (coalesceFrom b bs) := by
  induction bs generalizing b lo with
  | nil => exact h
  | cons c bs ih =>
    rw [coalesceFrom]
    obtain ⟨hl, hb, hc⟩ := h
    split_ifs with hm
    · refine ih ⟨hl, hc.mono ?_⟩
      have := hc.le
      simp only [Block.stop, Block.absorb, sizeofHeader] at *
      bv_omega
    · exact ⟨hl, ih ⟨hb, hc⟩⟩

lemma coalesceBlocks_tiled (h : Tiled lo hi bs) (hh : hi < 2 ^ 32) :
    Tiled lo hi (coalesceBlocks bs) := by
  cases bs with
  | nil => exact h
  | cons b bs => exact coalesceFrom_tiled h hh

lemma used_coalesceFrom (hc : c.Used) : c ∈ coalesceFrom b bs ↔ c ∈ b :: bs := by
  induction bs generalizing b with
  | nil => rfl
  | cons d bs ih =>
    rw [coalesceFrom]
    split_ifs with hm
    · have hb : c ≠ b := by rintro rfl; simp [hc] at hm
      have hd : c ≠ d := by rintro rfl; simp [hc] at hm
      have ha : c ≠ b.absorb d := by
        rintro rfl
        exact absurd hc (by simpa [Block.absorb] using hm.1)
      simp [ih, hb, hd, ha]
    · simp [ih]

lemma used_coalesceBlocks (hc : c.Used) : c ∈ coalesceBlocks bs ↔ c ∈ bs := by
  cases bs with
  | nil => rfl
  | cons b bs => exact used_coalesceFrom hc

lemma exists_of_coalesceFrom (hc : c ∈ coalesceFrom b bs) :
    ∃ d ∈ b :: bs, d.addr = c.addr ∧ d.magic = c.magic := by
  induction bs generalizing b with
  | nil =>
    obtain rfl : c = b := by simpa [coalesceFrom] using hc
    exact ⟨c, by simp⟩
  | cons d bs ih =>
    rw [coalesceFrom] at hc
    split_ifs at hc with hm
    · obtain ⟨e, he, hec⟩ := ih hc
      rcases List.mem_cons.mp he with rfl | he
      · exact ⟨b, by simp, hec⟩
      · exact ⟨e, by simp [he], hec⟩
    · rcases List.mem_cons.mp hc with rfl | hc
      · exact ⟨c, by simp⟩
      · obtain ⟨e, he, hec⟩ := ih hc
        exact ⟨e, List.mem_cons_of_mem b he, hec⟩

lemma exists_of_coalesceBlocks (hc : c ∈ coalesceBlocks bs) :
    ∃ d ∈ bs, d.addr = c.addr ∧ d.magic = c.magic := by
  cases bs with
  | nil => simp [coalesceBlocks] at hc
  | cons b bs => exact exists_of_coalesceFrom hc

end Coalesce

end TinuOS.Umalloc
