import TinuOS.Paging.Mapping

/-! The slot that `pagewalk` returns, and the one that the processor looks at. -/

namespace TinuOS.Paging

open Library Mem Kmem

def Consulted (m : Mem) (pgdir va s : Addr) : Prop :=
  (m.load32 (slot pgdir (pde va))).getLsbD 0 = true ∧
    s = slot (p2v (m.load32 (slot pgdir (pde va)) &&& 0xFFFFF000#32)) (pte va)

def SmallPages (m : Mem) (pgdir : Addr) : Prop :=
  ∀ i : BitVec 32, i.toNat < 1024 → (m.load32 (slot pgdir i)).getLsbD 0 = true →
    (m.load32 (slot pgdir i)).getLsbD 7 = false

variable {σ : Machine} {pgdir va : Addr} {ps : List Addr}

theorem pagewalk_not_consulted (hf : σ.Free ps) :
    ¬ Consulted (pagewalk σ pgdir va 1).2.mem pgdir va (pagewalk σ pgdir va 1).1 := by
  cases h : (σ.mem.load32 (slot pgdir (pde va))).getLsbD 0 with
  | true =>
    rw [pagewalk_present h]
    rintro ⟨-, hs⟩
    -- the attribute bits of the entry are still in the address of the table
    have he : σ.mem.load32 (slot pgdir (pde va)) =
        σ.mem.load32 (slot pgdir (pde va)) &&& 0xFFFFF000#32 := by
      simp only [slot, p2v] at hs ⊢
      bv_omega
    rw [he, BitVec.getLsbD_and] at h
    exact absurd h (by simp)
  | false =>
    rw [pagewalk_absent h]
    rintro ⟨hp, -⟩
    rw [load32_store32, entryFor_getLsbD (freelist_aligned hf)] at hp
    exact absurd hp (by decide)

theorem pagewalk_not_consulted_fresh :
    ¬ Consulted (pagewalk twoPages 0x80401000#32 0x1000#32 1).2.mem 0x80401000#32 0x1000#32
      (pagewalk twoPages 0x80401000#32 0x1000#32 1).1 :=
  pagewalk_not_consulted twoPages_free

theorem fresh_table_not_present : ¬ ∀ (σ : Machine) (pgdir va : Addr) (ps : List Addr), σ.Free ps →
    ps ≠ [] → PageAligned pgdir → pgdir ≠ 0 → pgdir ∉ ps → SmallPages σ.mem pgdir →
      Consulted (pagewalk σ pgdir va 1).2.mem pgdir va (pagewalk σ pgdir va 1).1 := by
  intro h
  have hd := Directory.of_zeroed twoPages_free (by decide) (by decide) (by decide) twoPages_zero
  have hs : SmallPages twoPages.mem 0x80401000#32 := by
    intro i hi hp
    rw [hd.absent i hi] at hp
    exact absurd hp (by decide)
  have hc := (h twoPages 0x80401000#32 0x1000#32 _ twoPages_free (by decide) (by decide) (by decide)
    (by decide) hs).1
  rw [pagewalk_absent (hd.absent _ pde_lt), load32_store32,
    entryFor_getLsbD (freelist_aligned twoPages_free)] at hc
  exact absurd hc (by decide)

end TinuOS.Paging
