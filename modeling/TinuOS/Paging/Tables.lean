import TinuOS.Kmem.FreeList
import TinuOS.Paging.Model

/-! `pagewalk` on a directory none of whose entries is marked present: it takes a page for every
call, and the entry it writes is not marked present either. -/

namespace TinuOS.Paging

open Library Mem Kmem

structure Directory (σ : Machine) (pgdir : Addr) (ps : List Addr) : Prop where
  free : σ.Free ps
  aligned : PageAligned pgdir
  ne_null : pgdir ≠ 0
  off : pgdir ∉ ps
  absent : ∀ i : BitVec 32, i.toNat < 1024 → (σ.mem.load32 (slot pgdir i)).getLsbD 0 = false

variable {σ : Machine} {m m' : Mem} {pgdir va p t a : Addr} {ps : List Addr} {i j alloc x v : BitVec 32}

section Bits

lemma and_pteP_eq_zero : x &&& pteP = 0 ↔ x.getLsbD 0 = false := by
  constructor
  · intro h
    have hb := congrArg (·.getLsbD 0) h
    simpa [pteP] using hb
  · intro h
    ext i hi
    cases i with
    | zero => simpa [pteP] using h
    | succ i => simp [pteP]

lemma getLsbD_zero_toNat : x.getLsbD 0 = false ↔ x.toNat % 2 = 0 := by
  simp [BitVec.getLsbD, Nat.testBit_zero]

lemma getLsbD_of_aligned (h : PageAligned p) {i : ℕ} (hi : i < 12) : p.getLsbD i = false := by
  have hd : 2 ^ (i + 1) ∣ p.toNat :=
    Nat.dvd_trans (Nat.pow_dvd_pow 2 (by omega : i + 1 ≤ 12)) (Nat.dvd_of_mod_eq_zero h)
  obtain ⟨k, hk⟩ := hd
  rw [BitVec.getLsbD, Nat.testBit_eq_decide_div_mod_eq, hk, Nat.pow_succ, Nat.mul_assoc,
    Nat.mul_div_cancel_left _ (Nat.two_pow_pos i)]
  simp

lemma pde_toNat : (pde va).toNat = va.toNat / 2 ^ 22 := by
  rw [pde, BitVec.toNat_and, BitVec.toNat_ushiftRight, Nat.shiftRight_eq_div_pow]
  exact (Nat.and_two_pow_sub_one_eq_mod _ 10).trans (by omega)

lemma pte_toNat : (pte va).toNat = va.toNat / 2 ^ 12 % 1024 := by
  rw [pte, BitVec.toNat_and, BitVec.toNat_ushiftRight, Nat.shiftRight_eq_div_pow]
  exact Nat.and_two_pow_sub_one_eq_mod _ 10

lemma pde_lt : (pde va).toNat < 1024 := by
  rw [pde_toNat]
  omega

lemma pte_lt : (pte va).toNat < 1024 := by
  rw [pte_toNat]
  omega

lemma span_slot (hi : i.toNat < 1024) : span (slot p i) 4 ⊆ page p := by
  apply span_subset
  rw [slot, pageSize]
  bv_omega

lemma slot_eq_zero (hp : PageAligned p) (hi : i.toNat < 1024) : slot p i = 0 ↔ p = 0 ∧ i = 0 := by
  rw [PageAligned, pageSize] at hp
  rw [slot]
  constructor
  · intro h
    constructor <;> bv_omega
  · rintro ⟨rfl, rfl⟩
    rfl

lemma load32_store32_slot (hi : i.toNat < 1024) (hj : j.toNat < 1024) (hne : i ≠ j) :
    (m.store32 (slot p i) v).load32 (slot p j) = m.load32 (slot p j) := by
  apply load32_store32_of_le <;> rw [slot, slot] <;> bv_omega

end Bits

lemma pagewalk_present (h : (σ.mem.load32 (slot pgdir (pde va))).getLsbD 0 = true) :
    pagewalk σ pgdir va alloc = (slot (p2v (σ.mem.load32 (slot pgdir (pde va)))) (pte va), σ) := by
  have hp : σ.mem.load32 (slot pgdir (pde va)) &&& pteP ≠ 0 := by
    rw [Ne, and_pteP_eq_zero, h]
    decide
  simp only [pagewalk, if_pos hp]

/-- The entry written for a new table: `PAGE_PRESENT` is 0, so bit 0 stays clear. -/
def entryFor (table : Addr) : BitVec 32 :=
  v2p table ||| pagePresent ||| pageRead ||| pageWrite ||| pageUser

lemma pagewalk_absent (h : (σ.mem.load32 (slot pgdir (pde va))).getLsbD 0 = false) :
    pagewalk σ pgdir va alloc = (slot σ.freelist (pte va), { (kalloc σ).2 with
      mem := (System.memset σ.mem σ.freelist 0 4096).2.store32 (slot pgdir (pde va)) (entryFor σ.freelist) }) := by
  have hp : ¬ σ.mem.load32 (slot pgdir (pde va)) &&& pteP ≠ 0 := by
    rw [not_not, and_pteP_eq_zero, h]
  simp only [pagewalk, if_neg hp, kalloc_ret, kalloc_mem, entryFor, memset_page (v := 0) (w := 0) rfl]

lemma entryFor_getLsbD (h : PageAligned t) : (entryFor t).getLsbD 0 = false := by
  have hv : (v2p t).getLsbD 0 = false := by
    rw [getLsbD_zero_toNat, v2p, kernBase]
    rw [PageAligned, pageSize] at h
    bv_omega
  simp only [entryFor, BitVec.getLsbD_or, hv]
  decide

namespace Directory

lemma of_zeroed (hf : σ.Free ps) (ha : PageAligned pgdir) (h0 : pgdir ≠ 0) (hn : pgdir ∉ ps)
    (hz : ∀ x ∈ page pgdir, σ.mem.byte x = 0) : Directory σ pgdir ps where
  free := hf
  aligned := ha
  ne_null := h0
  off := hn
  absent i hi := by
    rw [load32_of_const 0#8 fun x hx => hz x (span_slot hi hx)]
    decide

lemma frame (h : Directory σ pgdir ps) (ht : PageAligned t) (hne : t ≠ pgdir) (hn : t ∉ ps)
    (hm : Agree m' σ.mem (page t)ᶜ) : Directory { σ with mem := m' } pgdir ps where
  free := Threaded.frame_page h.free ht hn hm
  aligned := h.aligned
  ne_null := h.ne_null
  off := h.off
  absent i hi := by
    rw [← h.absent i hi]
    exact congrArg (·.getLsbD 0)
      (load32_congr ((hm.off (page_disjoint ht h.aligned hne)).mono (span_slot hi)))

lemma freelist_ne (h : Directory σ pgdir ps) : σ.freelist ≠ pgdir := by
  cases ps with
  | nil =>
    have h0 : σ.freelist = 0 := h.free.1
    rw [h0]
    exact h.ne_null.symm
  | cons p ps =>
    rw [(Threaded.pop h.free).1]
    rintro rfl
    exact h.off List.mem_cons_self

lemma freelist_off (h : Directory σ pgdir ps) : σ.freelist ∉ ps.tail := by
  cases ps with
  | nil => simp
  | cons p ps =>
    rw [(Threaded.pop h.free).1]
    exact (List.nodup_cons.mp (Threaded.nodup h.free)).1

lemma walk (h : Directory σ pgdir ps) (va : Addr) (alloc : BitVec 32) :
    (pagewalk σ pgdir va alloc).1 = slot σ.freelist (pte va) ∧
      Directory (pagewalk σ pgdir va alloc).2 pgdir ps.tail := by
  have hk : Directory (kalloc σ).2 pgdir ps.tail :=
    { h with
      free := kalloc_free h.free
      off := fun hm => h.off (List.mem_of_mem_tail hm)
      absent := by simpa only [kalloc_mem] using h.absent }
  have hfill : Agree (σ.mem.fill σ.freelist 0 pageSize) (kalloc σ).2.mem (page σ.freelist)ᶜ := by
    rw [kalloc_mem]
    exact fill_agree 0
  have ha := freelist_aligned h.free
  have hf := hk.frame ha h.freelist_ne h.freelist_off hfill
  rw [pagewalk_absent (h.absent _ pde_lt), memset_page (v := 0) (w := 0) rfl]
  refine ⟨rfl, ?_, h.aligned, h.ne_null, hk.off, fun i hi => ?_⟩
  · refine Threaded.frame_page hf.free h.aligned hk.off ?_
    exact (store32_agree _).mono (Set.compl_subset_compl.mpr (span_slot pde_lt))
  · by_cases hi' : pde va = i
    · subst hi'
      rw [load32_store32]
      exact entryFor_getLsbD ha
    · rw [load32_store32_slot pde_lt hi hi']
      exact hf.absent i hi

end Directory

def twoPages : Machine where
  mem := Mem.store32 ⟨fun _ => 0⟩ 0x80402000#32 0x80403000#32
  freelist := 0x80402000#32
  events := []

lemma twoPages_free : twoPages.Free [0x80402000#32, 0x80403000#32] := by
  have hfirst : twoPages.mem.load32 0x80402000#32 = 0x80403000#32 := by decide +kernel
  have hlast : twoPages.mem.load32 0x80403000#32 = 0#32 := by decide +kernel
  have ha : ∀ p ∈ [0x80402000#32, 0x80403000#32], PageAligned p := by
    simp only [List.forall_mem_cons]
    exact ⟨by decide, by decide, by simp⟩
  refine ⟨⟨rfl, by decide, ?_⟩, ha⟩
  rw [hfirst]
  refine ⟨rfl, by decide, ?_⟩
  rw [hlast]
  rfl

lemma twoPages_zero : ∀ x ∈ page 0x80401000#32, twoPages.mem.byte x = 0 := by
  intro x hx
  refine store32_of_le ?_ _
  rw [page, mem_span, pageSize] at hx
  bv_omega

end TinuOS.Paging
