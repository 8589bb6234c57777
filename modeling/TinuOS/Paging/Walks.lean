import TinuOS.Library.Run
import TinuOS.Paging.Tables

/-! Runs of `pagewalk` calls by callers that store into the slots they were given. -/

namespace TinuOS.Paging

open Library Mem Kmem

inductive WalkOp
  | walk (va : Addr)
  | store (va slot : Addr) (v : BitVec 32)
  deriving DecidableEq

structure Visit where
  va : Addr
  slot : Addr
  found : BitVec 32
  stored : Option (BitVec 32)
  deriving DecidableEq

def Visit.page (e : Visit) : BitVec 32 := e.va >>> 12

structure Walks where
  machine : Machine
  visits : List Visit
  stored : BitVec 32 → Option (BitVec 32)

namespace Walks

def exec (pgdir : Addr) (s : Walks) : WalkOp → Option Walks
  | .walk va =>
    if s.machine.freelist = 0 then none
    else
      let (found, σ) := pagewalk s.machine pgdir va 1
      some ⟨σ, ⟨va, found, σ.mem.load32 found, s.stored (va >>> 12)⟩ :: s.visits, s.stored⟩
  | .store va slot v =>
    if s.visits.any fun e => e.va = va ∧ e.slot = slot then
      some ⟨{ s.machine with mem := s.machine.mem.store32 slot v }, s.visits,
        fun n => if n = va >>> 12 then some v else s.stored n⟩
    else none

def Step (pgdir : Addr) (s : Walks) (o : WalkOp) (s' : Walks) : Prop := s.exec pgdir o = some s'

def start (σ : Machine) : Walks := ⟨σ, [], fun _ => none⟩

structure Kept (s : Walks) : Prop where
  slots : s.visits.Pairwise fun e f => e.slot = f.slot ↔ e.page = f.page
  values : ∀ e ∈ s.visits, ∀ v, e.stored = some v → e.found = v

end Walks

def walked (ops : List WalkOp) : List (BitVec 32) :=
  ops.filterMap fun
    | .walk va => some (va >>> 12)
    | .store _ _ _ => none

structure Walks.Inv (pgdir : Addr) (s : Walks) (ps : List Addr) : Prop where
  directory : Directory s.machine pgdir ps
  tables : ∀ e ∈ s.visits, ∃ t, PageAligned t ∧ t ≠ pgdir ∧ t ∉ ps ∧ span e.slot 4 ⊆ page t
  apart : s.visits.Pairwise fun e f => e.slot ≠ f.slot
  stored : ∀ n v, s.stored n = some v → n ∈ s.visits.map Visit.page
  fresh : (s.visits.map Visit.page).Nodup → ∀ e ∈ s.visits, e.stored = none

namespace Walks

variable {σ : Machine} {s s' : Walks} {pgdir : Addr} {ps : List Addr} {o : WalkOp} {ops : List WalkOp}

lemma step_walk {va : Addr} (h : s.Step pgdir (.walk va) s') :
    s.machine.freelist ≠ 0 ∧ s' = ⟨(pagewalk s.machine pgdir va 1).2,
      ⟨va, (pagewalk s.machine pgdir va 1).1,
        (pagewalk s.machine pgdir va 1).2.mem.load32 (pagewalk s.machine pgdir va 1).1,
        s.stored (va >>> 12)⟩ :: s.visits, s.stored⟩ := by
  rw [Step, exec] at h
  split_ifs at h with h0
  exact ⟨h0, (Option.some.inj h).symm⟩

lemma step_store {va at' : Addr} {v : BitVec 32} (h : s.Step pgdir (.store va at' v) s') :
    (∃ e ∈ s.visits, e.va = va ∧ e.slot = at') ∧
      s' = ⟨{ s.machine with mem := s.machine.mem.store32 at' v }, s.visits,
        fun n => if n = va >>> 12 then some v else s.stored n⟩ := by
  rw [Step, exec] at h
  split_ifs at h with ha
  obtain ⟨e, he, hp⟩ := List.any_eq_true.mp ha
  exact ⟨⟨e, he, of_decide_eq_true hp⟩, (Option.some.inj h).symm⟩

lemma Inv.walk {va : Addr} (h : s.Inv pgdir ps) (hs : s.Step pgdir (.walk va) s') :
    s'.Inv pgdir ps.tail := by
  obtain ⟨h0, rfl⟩ := step_walk hs
  obtain ⟨hslot, hdir⟩ := h.directory.walk va 1
  obtain ⟨qs, rfl⟩ := Threaded.exists_cons h.directory.free h0
  have ha := freelist_aligned h.directory.free
  have hspan : span (pagewalk s.machine pgdir va 1).1 4 ⊆ page s.machine.freelist := by
    rw [hslot]
    exact span_slot pte_lt
  refine ⟨hdir, ?_, ?_, ?_, ?_⟩
  · refine List.forall_mem_cons.mpr ⟨⟨_, ha, h.directory.freelist_ne, h.directory.freelist_off, hspan⟩,
      fun e he => ?_⟩
    obtain ⟨t, hta, htd, htn, hts⟩ := h.tables e he
    exact ⟨t, hta, htd, fun hm => htn (List.mem_cons_of_mem _ hm), hts⟩
  · refine List.pairwise_cons.mpr ⟨fun e he hse => ?_, h.apart⟩
    obtain ⟨t, hta, -, htn, hts⟩ := h.tables e he
    have hne : s.machine.freelist ≠ t := by
      rintro rfl
      exact htn List.mem_cons_self
    have hx : (pagewalk s.machine pgdir va 1).1 ∈ span (pagewalk s.machine pgdir va 1).1 4 := by
      simp [mem_span]
    exact Set.disjoint_left.mp (page_disjoint ha hta hne) (hspan hx) (hts (hse ▸ hx))
  · intro n v hv
    exact List.mem_cons_of_mem _ (h.stored n v hv)
  · intro hnd
    obtain ⟨hn, hnd⟩ := List.nodup_cons.mp hnd
    refine List.forall_mem_cons.mpr ⟨?_, h.fresh hnd⟩
    by_contra hv
    obtain ⟨v, hv⟩ := Option.ne_none_iff_exists'.mp hv
    exact hn (h.stored _ v hv)

lemma Inv.store {va at' : Addr} {v : BitVec 32} (h : s.Inv pgdir ps)
    (hs : s.Step pgdir (.store va at' v) s') : s'.Inv pgdir ps := by
  obtain ⟨⟨e, he, rfl, rfl⟩, rfl⟩ := step_store hs
  obtain ⟨t, hta, htd, htn, hts⟩ := h.tables e he
  refine ⟨h.directory.frame hta htd htn ?_, h.tables, h.apart, ?_, h.fresh⟩
  · exact (store32_agree v).mono (Set.compl_subset_compl.mpr hts)
  · intro n w hw
    have hp : e.page ∈ s.visits.map Visit.page := List.mem_map_of_mem he
    by_cases hn : n = e.va >>> 12
    · rw [hn]
      exact hp
    · exact h.stored n w (by simpa only [if_neg hn] using hw)

lemma inv_of_run (h : Run (Step pgdir) s ops s') (hi : ∃ ps, s.Inv pgdir ps) :
    ∃ ps, s'.Inv pgdir ps := by
  refine h.invariant (P := fun s => ∃ ps, s.Inv pgdir ps) ?_ hi
  rintro s o s' ⟨ps, hi⟩ hs
  cases o with
  | walk va => exact ⟨_, hi.walk hs⟩
  | store va at' v => exact ⟨_, hi.store hs⟩

lemma visits_of_run (h : Run (Step pgdir) s ops s') :
    s'.visits.map Visit.page = (walked ops).reverse ++ s.visits.map Visit.page := by
  induction h with
  | nil s => rfl
  | @cons s t u o os hs _ ih =>
    rw [ih]
    cases o with
    | walk va =>
      obtain ⟨-, rfl⟩ := step_walk hs
      simp [walked, Visit.page]
    | store va at' v =>
      obtain ⟨-, rfl⟩ := step_store hs
      simp [walked]

lemma start_inv (hf : σ.Free ps) (ha : PageAligned pgdir) (h0 : pgdir ≠ 0) (hn : pgdir ∉ ps)
    (hz : ∀ x ∈ page pgdir, σ.mem.byte x = 0) : (start σ).Inv pgdir ps where
  directory := .of_zeroed hf ha h0 hn hz
  tables := by simp [start]
  apart := List.Pairwise.nil
  stored := by simp [start]
  fresh := by simp [start]

theorem walks_kept_iff (hf : σ.Free ps) (ha : PageAligned pgdir) (h0 : pgdir ≠ 0) (hn : pgdir ∉ ps)
    (hz : ∀ x ∈ page pgdir, σ.mem.byte x = 0) (h : Run (Step pgdir) (start σ) ops s) :
    s.Kept ↔ (walked ops).Nodup := by
  obtain ⟨qs, hi⟩ := inv_of_run h ⟨ps, start_inv hf ha h0 hn hz⟩
  have hpages := visits_of_run h
  rw [start, List.map_nil, List.append_nil] at hpages
  rw [← List.nodup_reverse, ← hpages]
  constructor
  · intro hk
    rw [List.Nodup, List.pairwise_map]
    exact (hk.slots.and hi.apart).imp fun hef he => hef.2 (hef.1.mpr he)
  · intro hnd
    refine ⟨?_, fun e he v hv => ?_⟩
    · have hne := hnd
      rw [List.Nodup, List.pairwise_map] at hne
      exact (hne.and hi.apart).imp fun hef => iff_of_false hef.2 hef.1
    · rw [hi.fresh hnd e he] at hv
      cases hv

theorem walks_kept_once : ∃ s, Run (Step 0x80401000#32) (start twoPages)
    [.walk 0x1000#32, .store 0x1000#32 0x80402004#32 5#32, .walk 0x2000#32] s ∧ s.Kept := by
  have hr : (([.walk 0x1000#32, .store 0x1000#32 0x80402004#32 5#32, .walk 0x2000#32] :
      List WalkOp).foldlM (exec 0x80401000#32) (start twoPages)).isSome = true := by
    decide +kernel
  obtain ⟨s, hs⟩ := Option.isSome_iff_exists.mp hr
  have hrun := Run.of_foldlM (fun _ _ _ => id) hs
  exact ⟨s, hrun, (walks_kept_iff twoPages_free (by decide) (by decide) (by decide) twoPages_zero
    hrun).mpr (by decide)⟩

theorem second_walk_loses_table : ¬ ∀ (σ : Machine) (pgdir : Addr) (ps : List Addr) (ops : List WalkOp)
    (s : Walks), σ.Free ps → PageAligned pgdir → pgdir ≠ 0 → pgdir ∉ ps →
      (∀ x ∈ page pgdir, σ.mem.byte x = 0) → Run (Step pgdir) (start σ) ops s → s.Kept := by
  intro h
  have hr : (([.walk 0x1000#32, .walk 0x1000#32] : List WalkOp).foldlM (exec 0x80401000#32)
      (start twoPages)).map Walks.visits =
      some [⟨0x1000#32, 0x80403004#32, 0, none⟩, ⟨0x1000#32, 0x80402004#32, 0, none⟩] := by
    decide +kernel
  obtain ⟨s, hrun, hv⟩ := Run.exists_of_foldlM (fun _ _ _ => id) hr
  have hk := (h twoPages 0x80401000#32 _ _ s twoPages_free (by decide) (by decide) (by decide)
    twoPages_zero hrun).slots
  rw [hv] at hk
  have he := (List.pairwise_cons.mp hk).1 _ (List.mem_singleton_self _)
  exact absurd (he.mpr rfl) (by decide)

end Walks

end TinuOS.Paging
