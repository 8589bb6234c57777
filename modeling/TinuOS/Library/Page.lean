import TinuOS.Library.Chain
import TinuOS.Library.Memory

/-! Pages of 4096 bytes, and lists of free pages that are threaded through the pages themselves. -/

namespace TinuOS.Library

open Mem

def pageSize : ℕ := 4096

def PageAligned (p : Addr) : Prop := p.toNat % pageSize = 0

instance (p : Addr) : Decidable (PageAligned p) := inferInstanceAs (Decidable (_ = _))

def page (p : Addr) : Set Addr := span p pageSize

/-- The pages are aligned, distinct and not the page at address 0; the first word of each is the
address of the next. -/
def Threaded (m : Mem) (a : Addr) (ps : List Addr) : Prop :=
  Chain m.load32 0 a ps ∧ ∀ p ∈ ps, PageAligned p

variable {m m' : Mem} {a p q x : Addr} {ps : List Addr}

lemma mem_page (hp : PageAligned p) : x ∈ page p ↔ x.toNat / pageSize = p.toNat / pageSize := by
  rw [PageAligned, pageSize] at hp
  rw [page, mem_span, pageSize]
  constructor <;> intro h <;> bv_omega

lemma page_disjoint (hp : PageAligned p) (hq : PageAligned q) (h : p ≠ q) :
    Disjoint (page p) (page q) := by
  rw [Set.disjoint_left]
  intro x hx hy
  rw [mem_page hp] at hx
  rw [mem_page hq] at hy
  rw [PageAligned, pageSize] at hp hq
  rw [pageSize] at hx hy
  apply h
  bv_omega

lemma span_subset_page {n : ℕ} (h : n ≤ pageSize) : span p n ⊆ page p :=
  span_subset (by simpa using h)

lemma and_pageMask (x : Addr) : x &&& 0xFFFFF000#32 = (x >>> 12) <<< 12 := by
  have hmask : ∀ i < 32, (0xFFFFF000#32).getLsbD i = decide (12 ≤ i) := by decide
  ext i hi
  rw [BitVec.getElem_and, BitVec.getElem_shiftLeft, ← BitVec.getLsbD_eq_getElem,
    ← BitVec.getLsbD_eq_getElem, hmask i hi]
  by_cases h : i < 12
  · simp [h]
  · have hle : 12 ≤ i := by omega
    simp [h, hle, Nat.add_sub_cancel' hle]

lemma and_pageMask_toNat (x : Addr) : (x &&& 0xFFFFF000#32).toNat = x.toNat / 4096 * 4096 := by
  rw [and_pageMask, BitVec.toNat_shiftLeft, BitVec.toNat_ushiftRight, Nat.shiftLeft_eq,
    Nat.shiftRight_eq_div_pow]
  omega

namespace Threaded

lemma ne_null (h : Threaded m a ps) (hp : p ∈ ps) : p ≠ 0 := h.1.ne_null hp

lemma nodup (h : Threaded m a ps) : ps.Nodup := h.1.nodup

lemma frame (h : Threaded m a ps) (hm : ∀ p ∈ ps, Agree m' m (page p)) : Threaded m' a ps := by
  refine ⟨h.1.congr fun p hp => ?_, h.2⟩
  exact load32_congr ((hm p hp).mono (span_subset_page (by simp [pageSize])))

lemma frame_page (h : Threaded m a ps) (hq : PageAligned q) (hn : q ∉ ps)
    (hm : Agree m' m (page q)ᶜ) : Threaded m' a ps := by
  refine h.frame fun p hp => hm.off (page_disjoint hq (h.2 p hp) ?_)
  rintro rfl
  exact hn hp

lemma push (h : Threaded m a ps) (hp : PageAligned p) (h0 : p ≠ 0) (hn : p ∉ ps)
    (hm : Agree m' m (page p)ᶜ) (hl : m'.load32 p = a) : Threaded m' p (p :: ps) := by
  have hf := h.frame_page hp hn hm
  refine ⟨⟨rfl, h0, ?_⟩, List.forall_mem_cons.mpr ⟨hp, hf.2⟩⟩
  rw [hl]
  exact hf.1

lemma pop (h : Threaded m a (p :: ps)) : a = p ∧ p ≠ 0 ∧ Threaded m (m.load32 p) ps :=
  ⟨h.1.1, h.1.2.1, h.1.2.2, fun q hq => h.2 q (List.mem_cons_of_mem p hq)⟩

lemma eq_nil (h : Threaded m 0 ps) : ps = [] := Chain.eq_nil h.1

lemma exists_cons (h : Threaded m a ps) (ha : a ≠ 0) : ∃ qs, ps = a :: qs := Chain.exists_cons h.1 ha

end Threaded

end TinuOS.Library
