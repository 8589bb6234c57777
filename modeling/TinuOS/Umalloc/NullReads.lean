import TinuOS.Umalloc.Termination

/-! The loops of `free` look at `m->next->is_hole` before they test `m->next`. -/

namespace TinuOS.Umalloc

open Library Mem

def absorbNext (mem : Mem) (m : Addr) : Mem :=
  let mem := setSize mem m
    ((header mem m).size + ((header mem (next mem m)).size + BitVec.ofNat 32 sizeofHeader))
  setNext mem m (next mem (next mem m))

def mergeReads : ℕ → Mem → Addr → List Addr
  | 0, _, _ => []
  | fuel + 1, mem, m =>
    if !(header mem m).isHole then
      next mem m :: if !(header mem (next mem m)).isHole ∧ next mem m ≠ 0 then
        mergeReads fuel (absorbNext mem m) m else []
    else []

def coalesceReads : ℕ → Mem → Addr → List Addr
  | 0, _, _ => []
  | fuel + 1, mem, m =>
    if m = 0 then []
    else mergeReads fuel mem m ++ (mergeAt fuel mem m).elim [] fun mem => coalesceReads fuel mem (next mem m)

def freeReads (fuel : ℕ) (h : Heap) (ap : Addr) : List Addr :=
  let m := ap - BitVec.ofNat 32 sizeofHeader
  if (header h.mem m).magic ≠ heapMagic then []
  else (seek (next h.mem) 0 (· = m) fuel h.heapBottom).elim [] fun n =>
    if n = 0 then [] else coalesceReads fuel (setIsHole h.mem m false) h.heapBottom

def Session.SparesNull (s : Session) : Call → Prop
  | .malloc _ => True
  | .free ap => ∀ fuel, (0 : Addr) ∉ freeReads fuel s.heap ap

def Image.first (I : Image) : Addr := I.heap + BitVec.ofNat 32 sizeofHeader

variable {I : Image} {s t : Session} {c d : Call} {calls pre : List Call} {fuel : ℕ} {m : Mem}
  {a ap : Addr} {size : BitVec 32} {b : Block} {h : Heap} {bs : List Block}

lemma mem_mergeReads (hh : (header m a).isHole = false) : next m a ∈ mergeReads (fuel + 1) m a := by
  rw [mergeReads, hh, Bool.not_false, if_pos rfl]
  exact List.mem_cons_self

lemma mem_coalesceReads {x : Addr} (ha : a ≠ 0) (hx : x ∈ mergeReads fuel m a) :
    x ∈ coalesceReads (fuel + 1) m a := by
  rw [coalesceReads, if_neg ha]
  exact List.mem_append_left _ hx

lemma freeReads_accepted (hl : Listed h.mem h.heapBottom bs) (ha : Accepted h bs ap) :
    freeReads (bs.length + 1) h ap = coalesceReads (bs.length + 1)
      (setIsHole h.mem (ap - BitVec.ofNat 32 sizeofHeader) false) h.heapBottom := by
  have hseek := seek_chain (p := (· = ap - BitVec.ofNat 32 sizeofHeader)) hl.1
  rw [List.length_map, find?_eq_of_mem ha.1, Option.getD_some] at hseek
  rw [freeReads, if_neg (not_not.mpr ha.2), hseek, Option.elim_some, if_neg (hl.1.ne_null ha.1)]

lemma freeReads_refused (hl : Listed h.mem h.heapBottom bs) (ha : ¬ Accepted h bs ap) :
    freeReads fuel h ap = [] := by
  rw [freeReads]
  by_cases hm : (header h.mem (ap - BitVec.ofNat 32 sizeofHeader)).magic = heapMagic
  · rw [if_neg (not_not.mpr hm)]
    cases hn : seek (next h.mem) 0 (· = ap - BitVec.ofNat 32 sizeofHeader) fuel h.heapBottom with
    | none => rfl
    | some n =>
      refine if_pos ?_
      by_contra h0
      obtain ⟨hmem, hp⟩ := seek_found hl.1 hn h0
      exact ha ⟨of_decide_eq_true hp ▸ hmem, hm⟩
  · exact if_pos hm

lemma not_accepted (hb : ∀ b ∈ bs, b.addr = I.heap) (hap : ap ≠ I.first) : ¬ Accepted h bs ap := by
  rintro ⟨hm, -⟩
  obtain ⟨b, hbm, hba⟩ := List.mem_map.mp hm
  apply hap
  rw [Image.first, ← hb b hbm, hba, BitVec.sub_add_cancel]

structure Alone (I : Image) (s : Session) (b : Block) : Prop where
  opened : Opened I s.heap
  listed : Listed s.heap.mem s.heap.heapBottom [b]
  magic : b.magic = heapMagic
  used : b.Used
  above : I.heap.toNat + sizeofHeader ≤ s.heap.gKbrk.toNat

namespace Alone

lemma addr (h : Alone I s b) : b.addr = I.heap := h.listed.1.1.symm.trans h.opened.bottom

lemma reads_null (h : Alone I s b) : (0 : Addr) ∈ freeReads 2 s.heap I.first := by
  have hap : I.first - BitVec.ofNat 32 sizeofHeader = b.addr := by
    rw [Image.first, BitVec.add_sub_cancel, h.addr]
  obtain ⟨hb, hb0, hbl, hn⟩ := listed_cons.mp h.listed
  have hmagic : (header s.heap.mem b.addr).magic = heapMagic := (congrArg Block.magic hbl).trans h.magic
  have hnext : next (setIsHole s.heap.mem b.addr false) b.addr = 0 := by
    rw [next, header_setIsHole]
    exact listed_nil.mp hn
  have hhole : (header (setIsHole s.heap.mem b.addr false) b.addr).isHole = false := by
    rw [header_setIsHole]
  have ha : Accepted s.heap [b] I.first := ⟨by simp [hap], hap.symm ▸ hmagic⟩
  have hr := freeReads_accepted h.listed ha
  rw [hap, hb] at hr
  refine hr ▸ mem_coalesceReads hb0 ?_
  rw [← hnext]
  exact mem_mergeReads hhole

lemma route_extend (h : Alone I s b) (hs : size ≠ 0) {r : Route}
    (hr : route fuel s.heap size = some r) : r = .extend := by
  obtain ⟨hb, hb0, hbl, -⟩ := listed_cons.mp h.listed
  have hmagic : (header s.heap.mem s.heap.heapBottom).magic = heapMagic := by
    rw [hb]
    exact (congrArg Block.magic hbl).trans h.magic
  rw [route, if_neg hs, if_neg (hb ▸ hb0), if_neg (not_not.mpr hmagic)] at hr
  obtain ⟨m, hm, rfl⟩ := Option.map_eq_some_iff.mp hr
  refine if_pos ?_
  by_contra h0
  obtain ⟨hmem, hp⟩ := seek_found h.listed.1 hm h0
  obtain rfl : m = b.addr := by simpa using hmem
  have hused : (header s.heap.mem b.addr).isHole = b.isHole := congrArg Block.isHole hbl
  rw [hused, h.used] at hp
  exact Bool.false_ne_true hp

lemma grow (h : Alone I s b) (size : BitVec 32) (live : List Live) :
    Alone I ⟨(Umalloc.grow I.heap s.heap size).2.2, live⟩ b := by
  have hopen := h.opened.opened_eq
  rcases grow_cases h.opened.again size with ⟨-, -, hh⟩ | ⟨hfit, -, -, m', -, hm, hh⟩
  · rw [hh, hopen]
    exact ⟨h.opened, h.listed, h.magic, h.used, h.above⟩
  · rw [hopen] at hm hh
    obtain ⟨-, hlow, hnew⟩ := hfit
    rw [hopen] at hlow hnew
    have htop := hnew
    have hround := nextPowerOfTwo_le size
    have hend := I.heap_end
    have habove := h.above
    have hbottom := h.opened.bottom
    have hlt := h.opened.brk_lt
    rw [h.opened.top] at htop hlt
    have hsum : s.heap.gKbrk.toNat ≤ (s.heap.gKbrk + totalSize size).toNat := by
      rw [hbottom] at hlow
      simp only [totalSize, sizeofHeader, maxHeap] at hlow htop hlt hend habove ⊢
      bv_omega
    have hbrk : s.heap.gKbrk.toNat + 16 ≤ 2 ^ 32 := by
      simp only [totalSize, sizeofHeader, maxHeap] at hlow htop hlt hend
      bv_omega
    have hdisj : Disjoint (span s.heap.gKbrk 16) (headers [b]) := by
      have hd : Disjoint b.header (span s.heap.gKbrk 16) := by
        rw [Block.header, h.addr]
        exact span_disjoint habove hbrk
      rw [Set.disjoint_right]
      rintro x ⟨c, hc, hx⟩
      obtain rfl := List.mem_singleton.mp hc
      exact Set.disjoint_left.mp hd hx
    rw [hh]
    exact ⟨h.opened.grow m' hlow hnew, h.listed.off hm hdisj, h.magic, h.used,
      habove.trans hsum⟩

lemma step (h : Alone I s b) (hc : c ≠ .free I.first) (hs : s.Step I.heap c t) : Alone I t b := by
  cases c with
  | malloc size =>
    obtain ⟨fuel, reply, he⟩ := hs
    obtain ⟨r, hr, hs'⟩ := exec_malloc he
    by_cases h0 : size = 0
    · rw [route, if_pos h0] at hr
      obtain rfl := Option.some.inj hr
      rw [hs'.2]
      exact h
    · obtain rfl := h.route_extend h0 hr
      rw [hs'.2]
      exact h.grow size _
  | free ap =>
    obtain ⟨-, hlive, fuel, out, hf⟩ := step_free hs
    have hap : ap ≠ I.first := fun he => hc (congrArg Call.free he)
    obtain ⟨out', hf'⟩ := free_refused h.listed (not_accepted (by simp [h.addr]) hap)
    obtain ⟨-, hh⟩ := Heap.Frees.unique ⟨fuel, hf⟩ ⟨_, hf'⟩
    exact ⟨hh ▸ h.opened, hh ▸ h.listed, h.magic, h.used, hh ▸ h.above⟩

end Alone

lemma start_step_alone (hs : I.start.Step I.heap c t) :
    t = I.start ∨ t = I.dead ∨ ∃ b, Alone I t b := by
  cases c with
  | free ap =>
    obtain ⟨⟨x, hx, -⟩, -⟩ := step_free hs
    simp [Image.start] at hx
  | malloc size =>
    obtain ⟨fuel, reply, he⟩ := hs
    obtain ⟨r, hr, hs'⟩ := exec_malloc he
    cases r with
    | refuse => exact Or.inl hs'.2
    | reuse n => exact ((reuse_cases hr).2.2.1 rfl).elim
    | extend =>
      rcases grow_cases (start_opened I) size with ⟨-, hp, hh⟩ | ⟨hfit, -, -, m', hm, -, hh⟩
      · rw [if_pos hp, hh] at hs'
        exact Or.inr (Or.inl hs'.2)
      · refine Or.inr (Or.inr ⟨⟨I.heap, size, heapMagic, true⟩, ?_⟩)
        rw [hs'.2, hh]
        obtain ⟨-, hlow, htop⟩ := hfit
        refine ⟨(start_opened I).grow m' hlow htop, ?_, rfl, rfl, ?_⟩
        · refine listed_cons.mpr ⟨rfl, I.heap_ne_null, ?_, ?_⟩
          · exact congrArg (fun g : Header => (⟨I.heap, g.size, g.magic, g.isHole⟩ : Block)) hm
          · exact listed_nil.mpr (congrArg Header.next hm)
        · have hround := nextPowerOfTwo_le size
          have hend := I.heap_end
          change I.heap < I.heap + totalSize size at hlow
          change I.heap.toNat + sizeofHeader ≤ (I.heap + totalSize size).toNat
          simp only [totalSize, sizeofHeader, maxHeap] at hlow hend ⊢
          bv_omega

lemma alone_of_run (h : Run (Session.Step I.heap) I.start calls s) (hc : Call.free I.first ∉ calls) :
    s = I.start ∨ s = I.dead ∨ ∃ b, Alone I s b := by
  induction calls using List.reverseRecOn generalizing s with
  | nil =>
    cases h
    exact Or.inl rfl
  | append_singleton calls c ih =>
    obtain ⟨t, ht, hs⟩ := Run.snoc_iff.mp h
    rw [List.mem_append, List.mem_singleton, not_or] at hc
    rcases ih ht hc.1 with rfl | rfl | ⟨b, hb⟩
    · exact start_step_alone hs
    · exact Or.inr (Or.inl (dead_step hs))
    · exact Or.inr (Or.inr ⟨b, hb.step (Ne.symm hc.2) hs⟩)

lemma listed_of_run (h : Run (Session.Step I.heap) I.start calls s) (hc : Call.free I.first ∉ calls) :
    ∃ bs, Listed s.heap.mem s.heap.heapBottom bs ∧ ∀ b ∈ bs, b.addr = I.heap := by
  rcases alone_of_run h hc with rfl | rfl | ⟨b, hb⟩
  · exact ⟨[], listed_nil.mpr rfl, by simp⟩
  · exact ⟨[blockAt I.mem I.heap],
      listed_cons.mpr ⟨rfl, I.heap_ne_null, rfl, listed_nil.mpr dead_next⟩, by simp [blockAt]⟩
  · exact ⟨[b], hb.listed, by simp [hb.addr]⟩

lemma state_before (h : Run (Session.Step I.heap) I.start calls s) (hc : s.Allowed c)
    (hp : pre ++ [d] <+: calls ++ [c]) : ∃ t, Run (Session.Step I.heap) I.start pre t ∧ t.Allowed d := by
  rcases List.prefix_concat_iff.mp hp with he | hp
  · obtain ⟨rfl, hd⟩ := List.append_inj' he rfl
    obtain rfl := List.singleton_inj.mp hd
    exact ⟨s, h, hc⟩
  · obtain ⟨post, rfl⟩ := hp
    rw [List.append_assoc] at h
    obtain ⟨t, ht, hr⟩ := Run.append_iff.mp h
    cases hr with
    | cons hs hr =>
      refine ⟨t, ht, ?_⟩
      cases d with
      | malloc size => trivial
      | free ap => exact (step_free hs).1

lemma not_allowed_free (hl : s.live = []) : ¬ s.Allowed (.free ap) := by
  rintro ⟨x, hx, -⟩
  rw [hl] at hx
  exact List.not_mem_nil hx

theorem null_spared_iff (h : Run (Session.Step I.heap) I.start calls s) (hc : s.Allowed c) :
    (∀ pre d t, pre ++ [d] <+: calls ++ [c] → Run (Session.Step I.heap) I.start pre t →
      t.SparesNull d) ↔ Call.free I.first ∉ calls ++ [c] := by
  constructor
  · intro hall hmem
    obtain ⟨pre, post, he, hpre⟩ := List.eq_append_cons_of_mem hmem
    have hp : pre ++ [Call.free I.first] <+: calls ++ [c] := ⟨post, by simp [he]⟩
    obtain ⟨t, ht, hallow⟩ := state_before h hc hp
    rcases alone_of_run ht hpre with rfl | rfl | ⟨b, hb⟩
    · exact not_allowed_free rfl hallow
    · exact not_allowed_free rfl hallow
    · exact hall pre _ t hp ht 2 hb.reads_null
  · intro hmem pre d t hp ht
    cases d with
    | malloc size => trivial
    | free ap =>
      intro fuel h0
      have hsub : Call.free I.first ∉ pre ++ [Call.free ap] := fun he => hmem (hp.subset he)
      rw [List.mem_append, List.mem_singleton, not_or] at hsub
      obtain ⟨bs, hl, hb⟩ := listed_of_run ht hsub.1
      rw [freeReads_refused hl (not_accepted hb fun he => hsub.2 (congrArg Call.free he.symm))] at h0
      exact List.not_mem_nil h0

theorem null_spared_iff_second : ∃ s,
    Run (Session.Step smallKernel.heap) smallKernel.start [.malloc 1, .malloc 1] s ∧
    s.Allowed (.free 0x80110021#32) ∧
    ((∀ pre d t, pre ++ [d] <+: [.malloc 1, .malloc 1] ++ [.free 0x80110021#32] →
      Run (Session.Step smallKernel.heap) smallKernel.start pre t → t.SparesNull d) ↔
    Call.free smallKernel.first ∉ [.malloc 1, .malloc 1] ++ [.free 0x80110021#32]) := by
  have hr : (([.malloc 1, .malloc 1] : List Call).foldlM
      (Session.advance smallKernel.heap 4) smallKernel.start).map (·.live.map Live.ptr) =
      some [0x80110021#32, 0x80110010#32] := by
    decide +kernel
  obtain ⟨s, hrun, hl⟩ := Run.exists_of_foldlM (fun _ _ _ => step_of_advance) hr
  have ha : s.Allowed (.free 0x80110021#32) := by
    refine List.mem_map.mp ?_
    rw [hl]
    exact List.mem_cons_self
  exact ⟨s, hrun, ha, null_spared_iff hrun ha⟩

theorem last_block_reads_null : ¬ ∀ (I : Image) (calls : List Call) (s : Session) (c : Call),
    Run (Session.Step I.heap) I.start calls s → s.Allowed c → s.SparesNull c := by
  intro h
  have hr : (([.malloc 1] : List Call).foldlM
      (Session.advance smallKernel.heap 4) smallKernel.start).map (fun s => (s.live.map Live.ptr,
        freeReads 2 s.heap 0x80110010#32)) = some ([0x80110010#32], [0#32]) := by
    decide +kernel
  obtain ⟨s, hrun, hl⟩ := Run.exists_of_foldlM (fun _ _ _ => step_of_advance) hr
  obtain ⟨hlive, hreads⟩ := Prod.mk.inj hl
  have ha : s.Allowed (.free 0x80110010#32) := by
    refine List.mem_map.mp ?_
    rw [hlive]
    exact List.mem_cons_self
  have hs := h smallKernel _ s _ hrun ha 2
  rw [hreads] at hs
  exact hs List.mem_cons_self

end TinuOS.Umalloc
