import TinuOS.Paging.MapLoop

/-! What `pagewalk` and `pagetable_init` do when the free pages run out. -/

namespace TinuOS.Paging

open Library Mem Kmem

variable {σ σ' τ : Machine} {pgdir va start stop pa data : Addr} {perm alloc : BitVec 32}
  {ps : List Addr} {fuel k n : ℕ} {ks : List Kmap} {stray : Kmap → Addr} {m : Mem}

def Unharmed (σ : Machine) (pgdir va : Addr) (alloc : BitVec 32) : Prop :=
  (pagewalk σ pgdir va alloc).1 = 0 ∧ (pagewalk σ pgdir va alloc).2.mem = σ.mem ∧
    (pagewalk σ pgdir va alloc).2.freelist = σ.freelist

def FailedSince (σ σ' : Machine) : Prop :=
  ∃ new, σ'.events = σ.events ++ new ∧ Event.kalloc 0 ∈ new

/-- Whatever the loose pointers of the four calls, a failed `kalloc` makes `pagetable_init` return 0. -/
def Reported (σ : Machine) (data : Addr) : Prop :=
  ∀ stray fuel r σ', pagetableInit stray fuel σ data = some (r, σ') → FailedSince σ σ' → r = 0

lemma entryFor_null : entryFor 0 = 0x8000001C#32 := by decide

lemma unharmed_iff (hl : PageAligned σ.freelist) (ha : PageAligned pgdir) (h0 : pgdir ≠ 0)
    (habs : (σ.mem.load32 (slot pgdir (pde va))).getLsbD 0 = false) :
    Unharmed σ pgdir va alloc ↔ σ.freelist = 0 ∧ pte va = 0 ∧
      σ.mem.load32 (slot pgdir (pde va)) = 0x8000001C#32 ∧ ∀ x ∈ page 0, σ.mem.byte x = 0 := by
  have hd : Disjoint (span (slot pgdir (pde va)) 4) (page 0) :=
    (page_disjoint ha (by decide) h0).mono_left (span_slot pde_lt)
  have hstore : ∀ (m : Mem) (v : BitVec 32),
      Agree (m.store32 (slot pgdir (pde va)) v) m (span (slot pgdir (pde va)) 4)ᶜ :=
    fun m v => store32_agree v
  rw [Unharmed, pagewalk_absent habs, memset_page (v := 0) rfl, slot_eq_zero hl pte_lt]
  constructor
  · rintro ⟨⟨hf, hp⟩, hm, -⟩
    rw [hf] at hm
    refine ⟨hf, hp, ?_, fun x hx => ?_⟩
    · rw [← entryFor_null, ← hm, load32_store32]
    · rw [← hm, (hstore _ _).off hd hx]
      exact fill_byte hx 0
  · rintro ⟨hf, hp, he, hz⟩
    refine ⟨⟨hf, hp⟩, ?_, by rw [hf]; exact kalloc_freelist_null hf⟩
    rw [hf, entryFor_null]
    apply Mem.ext
    funext x
    by_cases hx : x ∈ span (slot pgdir (pde va)) 4
    · exact agree_of_load32 ((load32_store32 _).trans he.symm) hx
    · rw [hstore _ _ hx]
      by_cases hx0 : x ∈ page 0
      · rw [fill_byte hx0, hz x hx0]
      · rw [fill_agree 0 hx0]

lemma pagewalk_events (h : (σ.mem.load32 (slot pgdir (pde va))).getLsbD 0 = false) :
    (pagewalk σ pgdir va alloc).2.events = σ.events ++ [.kalloc σ.freelist] := by
  rw [pagewalk_absent h, kalloc_events]

section Loop

lemma Directory.store_null (h : Directory σ pgdir ps) (v : BitVec 32) :
    Directory { σ with mem := σ.mem.store32 0 v } pgdir ps := by
  refine h.frame (by decide) h.ne_null.symm (fun hm => Threaded.ne_null h.free hm rfl) ?_
  exact (store32_agree v).mono (Set.compl_subset_compl.mpr (span_subset_page (by decide)))

lemma Directory.mapped (h : Directory σ pgdir ps) :
    Directory (mapped 0 σ pgdir start pa perm) pgdir ps.tail :=
  ((h.walk start 1).2.store_null 0).store_null _

lemma mapped_events (h : Directory σ pgdir ps) :
    (mapped 0 σ pgdir start pa perm).events = σ.events ++ [.kalloc σ.freelist] :=
  pagewalk_events (h.absent _ pde_lt)

lemma FailedSince.later (h : FailedSince σ τ) (hp : τ.events <+: σ'.events) :
    FailedSince σ σ' := by
  obtain ⟨new, hn, hm⟩ := h
  obtain ⟨more, hm'⟩ := hp
  exact ⟨new ++ more, by rw [← hm', hn, List.append_assoc], List.mem_append_left more hm⟩

lemma FailedSince.earlier (hp : σ.events <+: τ.events) (h : FailedSince τ σ') :
    FailedSince σ σ' := by
  obtain ⟨new, hn, hm⟩ := h
  obtain ⟨more, hm'⟩ := hp
  exact ⟨more ++ new, by rw [hn, ← hm', List.append_assoc], List.mem_append_right more hm⟩

lemma FailedSince.extends (h : FailedSince σ σ') : σ.events <+: σ'.events := by
  obtain ⟨new, hn, -⟩ := h
  exact ⟨new, hn.symm⟩

lemma mapLoop_empty (h : Directory σ pgdir []) (start stop pa : Addr) (perm : BitVec 32) :
    ∃ fuel r σ', mapLoop 0 fuel σ pgdir start stop pa perm = some (r, σ') ∧ Directory σ' pgdir [] ∧
      FailedSince σ σ' := by
  have h0 : σ.freelist = 0 := h.free.1
  obtain ⟨n, hn⟩ : ∃ n, (1024 - (pte start).toNat) % 1024 = n := ⟨_, rfl⟩
  have hlt : (pte start).toNat < 1024 := pte_lt
  have hfound := (h.walk start 1).1
  rw [h0] at hfound
  have hnull := slot_eq_zero (p := 0) (by decide) hlt
  -- on the number of turns until the slot in page 0 is `NULL`
  induction n generalizing σ start stop with
  | zero =>
    have hp : pte start = 0 := by bv_omega
    refine ⟨1, -1, _, mapLoop_fail (hfound.trans (hnull.mpr ⟨rfl, hp⟩)), ?_, [.kalloc 0], ?_, by simp⟩
    · exact (h.walk start 1).2.store_null 1
    · rw [← h0]
      exact pagewalk_events (h.absent _ pde_lt)
  | succ n ih =>
    have hp : pte start ≠ 0 := by
      intro hp
      simp [hp] at hn
    have hne : (pagewalk σ pgdir start 1).1 ≠ 0 := by
      rw [hfound]
      exact fun hz => hp (hnull.mp hz).2
    have hfail : FailedSince σ (mapped 0 σ pgdir start pa perm) := by
      refine ⟨[.kalloc 0], ?_, by simp⟩
      rw [mapped_events h, h0]
    by_cases hs : start = stop
    · refine ⟨1, 0, _, ?_, h.mapped, hfail⟩
      rw [mapLoop_turn hne, if_pos hs]
    · have hm : Directory (mapped 0 σ pgdir start pa perm) pgdir [] := h.mapped
      have hm0 : (mapped 0 σ pgdir start pa perm).freelist = 0 := hm.free.1
      have hnext : (1024 - (pte (start + BitVec.ofNat 32 pageSize)).toNat) % 1024 = n := by
        rw [pte_toNat, pageSize]
        rw [pte_toNat] at hn hlt
        bv_omega
      obtain ⟨fuel, r, σ', he, hd, hf⟩ := ih hm (start + BitVec.ofNat 32 pageSize)
        (stop + BitVec.ofNat 32 pageSize) hm0 hnext pte_lt (by rw [(hm.walk _ 1).1, hm0])
        (slot_eq_zero (by decide) pte_lt)
      refine ⟨fuel + 1, r, σ', ?_, hd, hfail.later hf.extends⟩
      rw [mapLoop_turn hne, if_neg hs, he]

lemma mapLoop_ends (h : Directory σ pgdir ps) (start stop pa : Addr) (perm : BitVec 32) :
    ∃ fuel r σ' qs, mapLoop 0 fuel σ pgdir start stop pa perm = some (r, σ') ∧ Directory σ' pgdir qs ∧
      σ.events <+: σ'.events ∧ (start ≠ stop → FailedSince σ σ') := by
  induction ps generalizing σ start stop with
  | nil =>
    obtain ⟨fuel, r, σ', he, hd, hf⟩ := mapLoop_empty h start stop pa perm
    exact ⟨fuel, r, σ', [], he, hd, hf.extends, fun _ => hf⟩
  | cons p ps ih =>
    obtain ⟨hp, hp0, -⟩ := Threaded.pop h.free
    have hne : (pagewalk σ pgdir start 1).1 ≠ 0 := by
      rw [(h.walk start 1).1]
      exact fun hz => hp0 (hp ▸ ((slot_eq_zero (freelist_aligned h.free) pte_lt).mp hz).1)
    have hm : Directory (mapped 0 σ pgdir start pa perm) pgdir ps := h.mapped
    have hpre : σ.events <+: (mapped 0 σ pgdir start pa perm).events := by
      rw [mapped_events h]
      exact List.prefix_append _ _
    by_cases hs : start = stop
    · refine ⟨1, 0, _, ps, ?_, hm, hpre, fun hn => (hn hs).elim⟩
      rw [mapLoop_turn hne, if_pos hs]
    · obtain ⟨fuel, r, σ', qs, he, hd, hpre', hf⟩ := ih hm (start + BitVec.ofNat 32 pageSize)
        (stop + BitVec.ofNat 32 pageSize)
      refine ⟨fuel + 1, r, σ', qs, ?_, hd, hpre.trans hpre', fun _ => (hf ?_).earlier hpre⟩
      · rw [mapLoop_turn hne, if_neg hs, he]
      · intro he
        apply hs
        bv_omega

end Loop

section Init

lemma install_mono {r : Addr} (h : install stray fuel pgdir σ ks = some (r, σ')) (hk : fuel ≤ k) :
    install stray k pgdir σ ks = some (r, σ') := by
  induction ks generalizing σ with
  | nil => exact h
  | cons x ks ih =>
    rw [install] at h ⊢
    obtain ⟨⟨q, τ⟩, hm, hn⟩ := Option.bind_eq_some_iff.mp h
    rw [mappages] at hm ⊢
    rw [mapLoop_mono hm hk, Option.bind_some]
    have hlt : ¬ q < 0 := by bv_omega
    simp only [if_neg hlt] at hn ⊢
    exact ih hn

lemma install_ends (h : Directory σ pgdir ps) (ks : List Kmap) :
    ∃ fuel σ', install (fun _ => 0) fuel pgdir σ ks = some (pgdir, σ') ∧ σ.events <+: σ'.events ∧
      ((∃ x ∈ ks.head?, x.virt ≠ x.virt + (x.phyEnd - x.phyStart) - 1) → FailedSince σ σ') := by
  induction ks generalizing σ ps with
  | nil => exact ⟨0, σ, rfl, List.prefix_refl _, by simp⟩
  | cons x ks ih =>
    obtain ⟨n, r, τ, qs, hm, hd, hpre, hf⟩ := mapLoop_ends h x.virt
      (x.virt + (x.phyEnd - x.phyStart) - 1) x.phyStart x.perm
    obtain ⟨k, σ', he, hpre', -⟩ := ih hd
    refine ⟨max n k, σ', ?_, hpre.trans hpre', ?_⟩
    · have hlt : ¬ r < 0 := by bv_omega
      rw [install, mappages, mapLoop_mono hm (Nat.le_max_left n k), Option.bind_some]
      simp only [if_neg hlt]
      exact install_mono he (Nat.le_max_right n k)
    · rintro ⟨y, hy, hne⟩
      obtain rfl : x = y := by simpa using hy
      exact (hf hne).later hpre'

lemma memset_directory (hf : σ.Free ps) (ha : PageAligned pgdir) (h0 : pgdir ≠ 0) (hn : pgdir ∉ ps) :
    Directory { σ with mem := (System.memset σ.mem pgdir 0 4096).2 } pgdir ps := by
  rw [memset_page (v := 0) rfl]
  exact .of_zeroed (Threaded.frame_page hf ha hn (fill_agree 0)) ha h0 hn fun _ hx => fill_byte hx 0

lemma reported_iff (hf : σ.Free ps) : Reported σ data ↔ σ.freelist = 0 := by
  constructor
  · intro h
    by_contra hne
    obtain ⟨qs, rfl⟩ := Threaded.exists_cons hf hne
    have hdir := memset_directory (kalloc_free hf) (hf.2 _ List.mem_cons_self) hne
      (List.nodup_cons.mp (Threaded.nodup hf)).1
    rw [memset_page (v := 0) rfl] at hdir
    obtain ⟨fuel, σ', he, -, hfail⟩ := install_ends hdir (kmap data)
    have hlong : kernBase ≠ kernBase + (extMem - 0) - 1 := by decide
    have hpre : σ.events <+: (kalloc σ).2.events := by
      rw [kalloc_events]
      exact List.prefix_append _ _
    apply hne
    refine h (fun _ => 0) fuel σ.freelist σ' ?_ ((hfail ⟨_, rfl, hlong⟩).earlier hpre)
    have hret : ¬ (kalloc σ).1 = 0 := hne
    simp only [pagetableInit, if_neg hret]
    exact he
  · intro h0 stray fuel r σ' he _
    have hret : (kalloc σ).1 = 0 := h0
    simp only [pagetableInit, if_pos hret] at he
    exact (Prod.ext_iff.mp (Option.some.inj he)).1.symm

end Init

theorem exhaustion_reported_iff (hf : σ.Free ps) :
    (∀ pgdir va alloc, PageAligned pgdir → pgdir ≠ 0 →
      σ.mem.load32 (slot pgdir (pde va)) &&& pteP = 0 →
      (Unharmed σ pgdir va alloc ↔ σ.freelist = 0 ∧ pte va = 0 ∧
        σ.mem.load32 (slot pgdir (pde va)) = 0x8000001C#32 ∧ ∀ x ∈ page 0, σ.mem.byte x = 0)) ∧
    (Reported σ data ↔ σ.freelist = 0) := by
  refine ⟨fun pgdir va alloc ha h0 habs => ?_, reported_iff hf⟩
  exact unharmed_iff (freelist_aligned hf) ha h0 (and_pteP_eq_zero.mp habs)

def noPages : Machine := ⟨⟨fun _ => 0⟩, 0, []⟩

lemma noPages_free : noPages.Free [] := ⟨rfl, by simp⟩

theorem no_pages_reported : Reported noPages 0x80108000#32 :=
  (exhaustion_reported_iff noPages_free).2.mpr rfl

theorem exhausted_walk_harms : ¬ ∀ (σ : Machine) (ps : List Addr) (data : Addr), σ.Free ps →
    (∀ pgdir va alloc, PageAligned pgdir → pgdir ≠ 0 →
      σ.mem.load32 (slot pgdir (pde va)) &&& pteP = 0 → alloc = 0 ∨ σ.freelist = 0 →
      Unharmed σ pgdir va alloc) ∧ Reported σ data := by
  intro h
  have hw := (h noPages [] 0 noPages_free).1 0x80401000#32 0x1000#32 0 (by decide) (by decide)
    (by decide +kernel) (Or.inl rfl)
  have hr : (pagewalk noPages 0x80401000#32 0x1000#32 0).1 = 4 := by decide +kernel
  exact absurd (hr.symm.trans hw.1) (by decide)

end TinuOS.Paging
