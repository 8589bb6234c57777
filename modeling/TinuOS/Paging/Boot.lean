import TinuOS.Kmem.Seeding
import TinuOS.Paging.Tables

/-! The page directory that `boot.S` turns paging on with, and what it maps while the allocator runs. -/

namespace TinuOS.Paging

open Library Mem Kmem

def pdePS : BitVec 32 := 1#32 <<< 7

def entrypgdir (i : BitVec 32) : BitVec 32 :=
  if i = 0 ∨ i = kernBase >>> 22 then 0 ||| pteP ||| pteRW ||| pdePS else 0

def EntryDirectory (m : Mem) (pgdir : Addr) : Prop :=
  ∀ i : BitVec 32, i < 1024 → m.load32 (slot pgdir i) = entrypgdir i

/-- With `CR4_PSE` set, an entry with `PDE_PS` maps 4 MB; the others lead to a table. -/
def translatePse (m : Mem) (pgdir va : Addr) : Option (Addr × Bool) :=
  let entry := m.load32 (slot pgdir (pde va))
  if entry.getLsbD 0 ∧ entry.getLsbD 7 then
    some ((entry &&& 0xFFC00000) + (va &&& 0x3FFFFF), entry.getLsbD 1)
  else translate m pgdir va

def fourMB : Addr := 0x400000

def bootMap (va : Addr) : Option (Addr × Bool) :=
  if va < fourMB then some (va, true)
  else if kernBase ≤ va ∧ va < p2v fourMB then some (v2p va, true)
  else none

variable {m m' : Mem} {pgdir va x p : Addr} {vstart vend : Addr}

lemma pde_below (va : Addr) : pde va < 1024 := BitVec.lt_def.mpr pde_lt

lemma low_bits_toNat (va : Addr) : (va &&& 0x3FFFFF).toNat = va.toNat % 2 ^ 22 := by
  have hmask : (0x3FFFFF : Addr).toNat = 2 ^ 22 - 1 := rfl
  rw [BitVec.toNat_and, hmask, Nat.and_two_pow_sub_one_eq_mod]

lemma translatePse_eq (h : EntryDirectory m pgdir) (va : Addr) : translatePse m pgdir va =
    if pde va = 0 ∨ pde va = 512 then some (va &&& 0x3FFFFF, true) else none := by
  have hentry : m.load32 (slot pgdir (pde va)) = entrypgdir (pde va) := h _ (pde_below va)
  have hkern : kernBase >>> 22 = 512 := by decide
  rw [entrypgdir, hkern] at hentry
  by_cases hp : pde va = 0 ∨ pde va = 512
  · rw [if_pos hp] at hentry
    rw [if_pos hp, translatePse]
    simp only [hentry]
    refine (if_pos (by decide)).trans (congrArg some (Prod.ext ?_ ?_))
    · exact BitVec.zero_add _
    · exact (by decide : (0 ||| pteP ||| pteRW ||| pdePS).getLsbD 1 = true)
  · rw [if_neg hp] at hentry
    have hz : (0 : BitVec 32).getLsbD 0 = false := by decide
    rw [if_neg hp, translatePse, translate]
    simp only [hentry, hz, Bool.false_eq_true, false_and, if_false]

lemma translatePse_bootMap (h : EntryDirectory m pgdir) (va : Addr) : translatePse m pgdir va = bootMap va := by
  have hp : (pde va).toNat = va.toNat / 2 ^ 22 := pde_toNat
  have hl := low_bits_toNat va
  have hva := va.isLt
  rw [translatePse_eq h, bootMap]
  by_cases hlow : va < fourMB
  · have h0 : pde va = 0 := by
      simp only [fourMB] at hlow
      bv_omega
    have he : va &&& 0x3FFFFF = va := by
      simp only [fourMB] at hlow
      bv_omega
    rw [if_pos (Or.inl h0), if_pos hlow, he]
  · rw [if_neg hlow]
    by_cases hhigh : kernBase ≤ va ∧ va < p2v fourMB
    · have h512 : pde va = 512 := by
        simp only [fourMB, kernBase, p2v] at hhigh
        bv_omega
      have he : va &&& 0x3FFFFF = v2p va := by
        simp only [fourMB, kernBase, p2v] at hhigh
        simp only [v2p, kernBase]
        bv_omega
      rw [if_pos (Or.inr h512), if_pos hhigh, he]
    · rw [if_neg hhigh]
      refine if_neg fun hpde => ?_
      simp only [fourMB, kernBase, p2v] at hlow hhigh
      rcases hpde with hpde | hpde
      · bv_omega
      · apply hhigh
        constructor <;> bv_omega

lemma bootMap_high (h : kernBase ≤ va) : bootMap va = if va < p2v fourMB then some (v2p va, true) else none := by
  have hlow : ¬ va < fourMB := by
    simp only [kernBase, fourMB] at h ⊢
    bv_omega
  rw [bootMap, if_neg hlow]
  exact if_congr (and_iff_right h) rfl rfl

def outside (vstart vend : Addr) : Set Addr := {x | x < vstart ∨ vend ≤ x}

lemma page_inside (h : Whole vstart vend p) (hx : x ∈ page p) : vstart ≤ x ∧ x < vend := by
  obtain ⟨-, hle, hend⟩ := h
  rw [page, mem_span] at hx
  rw [pageSize] at hx hend
  constructor <;> bv_omega

lemma outside_subset (h : Whole vstart vend p) : outside vstart vend ⊆ (page p)ᶜ := by
  intro x hx hp
  obtain ⟨hlo, hhi⟩ := page_inside h hp
  rcases hx with hx | hx <;> bv_omega

lemma step_outside {s s' : Session} {o : Op} (hheld : ∀ p ∈ s.held, Whole vstart vend p) (hs : s.Step o s') :
    Agree s'.machine.mem s.machine.mem (outside vstart vend) := by
  cases o with
  | kalloc =>
    obtain rfl := Option.some.inj hs
    exact fun x _ => congrArg (fun m : Mem => m.byte x) kalloc_mem
  | kfree p =>
    rw [Session.Step, Session.exec] at hs
    split_ifs at hs with hmem
    obtain rfl := Option.some.inj hs
    exact kfree_agree.mono (outside_subset (hheld p hmem))
  | write a v =>
    rw [Session.Step, Session.exec] at hs
    split_ifs at hs with hany
    obtain rfl := Option.some.inj hs
    obtain ⟨p, hmem, hap⟩ := List.any_eq_true.mp hany
    refine (store8_agree v).mono ((outside_subset (hheld p hmem)).trans ?_)
    apply Set.compl_subset_compl.mpr
    exact span_subset (Nat.succ_le_of_lt (of_decide_eq_true hap))

lemma foldl_kfree_outside {σ : Machine} {ps : List Addr} (h : ∀ p ∈ ps, Whole vstart vend p) :
    Agree (ps.foldl kfree σ).mem σ.mem (outside vstart vend) := by
  induction ps generalizing σ with
  | nil => exact fun _ _ => rfl
  | cons p ps ih =>
    obtain ⟨hp, hps⟩ := List.forall_mem_cons.mp h
    exact (ih hps).trans (kfree_agree.mono (outside_subset hp))

lemma EntryDirectory.outside (h : EntryDirectory m pgdir) (ha : pgdir.toNat + pageSize ≤ vstart.toNat)
    (hm : Agree m' m (outside vstart vend)) : EntryDirectory m' pgdir := by
  intro i hi
  rw [← h i hi]
  refine load32_congr (hm.mono fun x hx => Or.inl ?_)
  rw [mem_span, slot] at hx
  rw [pageSize] at ha
  bv_omega

structure Booted (pages : List Addr) (m : Mem) (vstart vend : Addr) (s : Session) : Prop where
  split : Split pages s
  same : Agree s.machine.mem m (outside vstart vend)

section

variable {pages : List Addr} {s s' : Session} {o : Op}

lemma Booted.held_whole (hw : ∀ p, p ∈ pages ↔ Whole vstart vend p) (h : Booted pages m vstart vend s) :
    ∀ p ∈ s.held, Whole vstart vend p := by
  obtain ⟨free, -, hperm⟩ := h.split
  exact fun p hp => (hw p).mp (hperm.subset (List.mem_append_right free hp))

lemma Booted.step (hw : ∀ p, p ∈ pages ↔ Whole vstart vend p) (h0 : ∀ p ∈ pages, p ≠ 0)
    (hd : pages.Nodup) (h : Booted pages m vstart vend s) (hs : s.Step o s') :
    Booted pages m vstart vend s' :=
  ⟨h.split.step (fun p hp => ((hw p).mp hp).1) h0 hd hs, (step_outside (h.held_whole hw) hs).trans h.same⟩

end

lemma page_mapped (h : EntryDirectory m pgdir) (hk : kernBase ≤ vstart) (hp : Whole vstart (p2v fourMB) p)
    (hx : x ∈ page p) : translatePse m pgdir x = some (v2p x, true) := by
  obtain ⟨hlo, hhi⟩ := page_inside hp hx
  rw [translatePse_bootMap h, bootMap_high (BitVec.le_trans hk hlo), if_pos hhi]

lemma exists_booted {σ : Machine} (hf : σ.freelist = 0) (h0 : 0 < vstart) (hs : vstart ≤ 0xFFFFE000#32)
    (hv : vend < 0xFFFFF000#32) :
    ∃ fuel σ' pages, kinit1 fuel σ vstart vend = some σ' ∧ pages.Nodup ∧
      (∀ p, p ∈ pages ↔ Whole vstart vend p) ∧ Booted pages σ.mem vstart vend ⟨σ', []⟩ := by
  have hw : ∀ p, _ ↔ Whole vstart vend p := seeded_whole hs
  have hnd : (pagesFrom (pgRoundUp vstart) ((vend.toNat - (pgRoundUp vstart).toNat) / 4096)).Nodup :=
    pagesFrom_nodup (by bv_omega)
  have hfree : σ.Free [] := ⟨hf, by simp⟩
  refine ⟨_, _, _, kinit1_seeded hv hs rfl, hnd, hw, ⟨_, foldl_kfree_free hfree ?_ ?_, ?_⟩, ?_⟩
  · intro p hp
    obtain ⟨hpa, hle, -⟩ := (hw p).mp hp
    exact ⟨hpa, by bv_omega⟩
  · simpa using hnd
  · simp
  · exact foldl_kfree_outside fun p hp => (hw p).mp hp

theorem kalloc_mapped {σ : Machine} (hf : σ.freelist = 0) (hk : kernBase ≤ vstart)
    (hv : vstart ≤ p2v fourMB) (hd : EntryDirectory σ.mem pgdir)
    (ha : pgdir.toNat + pageSize ≤ vstart.toNat) :
    ∃ fuel σ', kinit1 fuel σ vstart (p2v fourMB) = some σ' ∧
      ∀ ops s, Run Session.Step ⟨σ', []⟩ ops s →
        (∀ va, translatePse s.machine.mem pgdir va = bootMap va) ∧
        ∀ p, p ∈ s.held ∨ p ≠ 0 ∧ p = (kalloc s.machine).1 →
          ∀ x ∈ page p, translatePse s.machine.mem pgdir x = some (v2p x, true) := by
  have hpos : 0 < vstart := by
    simp only [kernBase] at hk
    bv_omega
  obtain ⟨fuel, σ', pages, hinit, hnd, hw, hboot⟩ :=
    exists_booted hf hpos (BitVec.le_trans hv (by decide)) (by decide : p2v fourMB < 0xFFFFF000#32)
  have hne : ∀ p ∈ pages, p ≠ 0 := by
    intro p hp
    have hle := ((hw p).mp hp).2.1
    bv_omega
  refine ⟨fuel, σ', hinit, fun ops s hr => ?_⟩
  have hs := hr.invariant (fun _ _ _ h ho => h.step hw hne hnd ho) hboot
  have hdir := hd.outside ha hs.same
  refine ⟨translatePse_bootMap hdir, ?_⟩
  rintro p (hp | ⟨h0, rfl⟩)
  · exact fun x => page_mapped hdir hk (hs.held_whole hw p hp)
  · exact fun x => page_mapped hdir hk ((hs.split.sound hw hnd).fresh h0).1

def loaded : Machine where
  mem := ((⟨fun _ => 0⟩ : Mem).store32 0x80110000 0x83).store32 0x80110800 0x83
  freelist := 0
  events := []

lemma loaded_directory : EntryDirectory loaded.mem 0x80110000 := by
  have h0 : slot 0x80110000 0 = 0x80110000 := by decide
  have h512 : slot 0x80110000 512 = 0x80110800 := by decide
  have hfirst : entrypgdir 0 = 0x83 := by decide
  have hhigh : entrypgdir 512 = 0x83 := by decide
  intro i hi
  by_cases hi0 : i = 0
  · rw [hi0, h0, hfirst, loaded, load32_store32_of_le (by decide) (by decide), load32_store32]
  · by_cases hi5 : i = 512
    · rw [hi5, h512, hhigh, loaded, load32_store32]
    · have hk : ¬ (i = 0 ∨ i = kernBase >>> 22) := not_or.mpr ⟨hi0, by simpa [kernBase] using hi5⟩
      rw [entrypgdir, if_neg hk, loaded, load32_store32_of_le, load32_store32_of_le]
      · exact load32_of_const 0 fun _ _ => rfl
      all_goals
        rw [slot]
        bv_omega

theorem kalloc_mapped_loaded : ∃ fuel σ', kinit1 fuel loaded 0x80120000 (p2v fourMB) = some σ' ∧
    ∀ ops s, Run Session.Step ⟨σ', []⟩ ops s →
      (∀ va, translatePse s.machine.mem 0x80110000 va = bootMap va) ∧
      ∀ p, p ∈ s.held ∨ p ≠ 0 ∧ p = (kalloc s.machine).1 →
        ∀ x ∈ page p, translatePse s.machine.mem 0x80110000 x = some (v2p x, true) :=
  kalloc_mapped rfl (by decide) (by decide) loaded_directory (by decide)

end TinuOS.Paging
