import TinuOS.Kmem.FreeList
import TinuOS.Library.Run

/-! Runs of `kalloc` and `kfree` after `kinit1`, by clients that write into the pages they hold. -/

namespace TinuOS.Kmem

open Library Mem

inductive Op
  | kalloc
  | kfree (p : Addr)
  | write (a : Addr) (v : BitVec 8)
  deriving DecidableEq

structure Session where
  machine : Machine
  held : List Addr

namespace Session

def exec (s : Session) : Op → Option Session
  | .kalloc =>
    let (r, σ) := Kmem.kalloc s.machine
    some ⟨σ, if r = 0 then s.held else r :: s.held⟩
  | .kfree p => if p ∈ s.held then some ⟨Kmem.kfree s.machine p, s.held.erase p⟩ else none
  | .write a v =>
    if s.held.any fun p => (a - p).toNat < pageSize then
      some ⟨{ s.machine with mem := s.machine.mem.store8 a v }, s.held⟩
    else none

def Step (s : Session) (o : Op) (s' : Session) : Prop := s.exec o = some s'

end Session

def Whole (vstart vend p : Addr) : Prop :=
  PageAligned p ∧ vstart ≤ p ∧ p.toNat + pageSize ≤ vend.toNat

structure Sound (vstart vend : Addr) (s : Session) : Prop where
  partition : ∃ free, Chain s.machine.mem.load32 0 s.machine.freelist free ∧ (free ++ s.held).Nodup ∧
    ∀ p, p ∈ free ++ s.held ↔ Whole vstart vend p
  fresh : (kalloc s.machine).1 ≠ 0 →
    Whole vstart vend (kalloc s.machine).1 ∧ (kalloc s.machine).1 ∉ s.held
  exhausted : (kalloc s.machine).1 = 0 → ∀ p, Whole vstart vend p → p ∈ s.held

def Managed (vstart vend : Addr) : Prop :=
  ∀ σ : Machine, σ.freelist = 0 → ∃ fuel σ', kinit1 fuel σ vstart vend = some σ' ∧
    ∀ ops s, Run Session.Step ⟨σ', []⟩ ops s → Sound vstart vend s

def Split (pages : List Addr) (s : Session) : Prop :=
  ∃ free, s.machine.Free free ∧ (free ++ s.held).Perm pages

variable {s s' : Session} {o : Op} {pages : List Addr} {vstart vend p : Addr} {ops : List Op}

lemma Split.step (hp : ∀ p ∈ pages, PageAligned p) (h0 : ∀ p ∈ pages, p ≠ 0) (hd : pages.Nodup)
    (h : Split pages s) (hs : s.Step o s') : Split pages s' := by
  obtain ⟨free, hf, hperm⟩ := h
  have hnd := hperm.nodup_iff.mpr hd
  have hheld : ∀ p ∈ s.held, p ∈ pages ∧ p ∉ free := fun p hp =>
    ⟨hperm.subset (List.mem_append_right free hp), fun hfp => (List.nodup_append.mp hnd).2.2 p hfp p hp rfl⟩
  cases o with
  | kalloc =>
    obtain rfl := Option.some.inj hs
    refine ⟨free.tail, kalloc_free hf, ?_⟩
    cases free with
    | nil =>
      have h0 : s.machine.freelist = 0 := hf.1
      simpa only [h0, if_true, List.tail_nil] using hperm
    | cons p free =>
      obtain ⟨hr, hr0, -⟩ := Threaded.pop hf
      simp only [hr, if_neg hr0]
      exact List.perm_middle.trans hperm
  | kfree p =>
    rw [Session.Step, Session.exec] at hs
    split_ifs at hs with hmem
    obtain rfl := Option.some.inj hs
    obtain ⟨hpp, hpf⟩ := hheld p hmem
    refine ⟨p :: free, kfree_free hf (hp p hpp) (h0 p hpp) hpf, ?_⟩
    have he := (List.perm_cons_erase hmem).append_left free
    exact (List.perm_middle.symm.trans he.symm).trans hperm
  | write a v =>
    rw [Session.Step, Session.exec] at hs
    split_ifs at hs with hany
    obtain rfl := Option.some.inj hs
    obtain ⟨p, hmem, hap⟩ := List.any_eq_true.mp hany
    obtain ⟨hpp, hpf⟩ := hheld p hmem
    refine ⟨free, Threaded.frame_page hf (hp p hpp) hpf ?_, hperm⟩
    refine (store8_agree v).mono (Set.compl_subset_compl.mpr ?_)
    exact span_subset (by have := of_decide_eq_true hap; omega)

lemma Split.sound (hw : ∀ p, p ∈ pages ↔ Whole vstart vend p) (hd : pages.Nodup)
    (h : Split pages s) : Sound vstart vend s := by
  obtain ⟨free, hf, hperm⟩ := h
  have hmem : ∀ p, p ∈ free ++ s.held ↔ Whole vstart vend p := fun p => hperm.mem_iff.trans (hw p)
  have hnd := hperm.nodup_iff.mpr hd
  refine ⟨⟨free, hf.1, hnd, hmem⟩, ?_, ?_⟩
  · intro hne
    obtain ⟨qs, rfl⟩ := Threaded.exists_cons hf hne
    refine ⟨(hmem _).mp (by simp), ?_⟩
    have hnm := (List.nodup_cons.mp hnd).1
    exact fun hh => hnm (List.mem_append_right qs hh)
  · intro h0 p hp
    rw [kalloc_ret] at h0
    rw [Machine.Free, h0] at hf
    have hnil := hf.eq_nil
    simpa [hnil] using (hmem p).mpr hp

end TinuOS.Kmem
