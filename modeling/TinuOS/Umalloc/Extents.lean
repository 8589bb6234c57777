import TinuOS.Umalloc.Runs

/-! What the headers say about memory: blocks that end before the next one begins. -/

namespace TinuOS.Umalloc

open Library

def Session.Described (s : Session) : Prop :=
  ∃ xs, Chain (next s.heap.mem) 0 s.heap.heapBottom xs ∧ ∀ x ∈ xs,
    (header s.heap.mem x).magic = heapMagic ∧
    x.toNat + sizeofHeader + (header s.heap.mem x).size.toNat ≤
      if next s.heap.mem x = 0 then s.heap.gKbrk.toNat else (next s.heap.mem x).toNat

def Session.SplitsWithin (s : Session) (c : Call) : Prop :=
  s.OnRoute (fun h size r => ∀ m, r = .reuse m → totalSize size ≤ (header h.mem m).size) c

def Route.Opening (heap : Addr) (h : Heap) (size : BitVec 32) : Route → Prop
  | .extend => h.heapBottom ≠ 0 ∨ h.Fits heap (totalSize size)
  | _ => True

instance (heap : Addr) (h : Heap) (size : BitVec 32) : DecidablePred (Route.Opening heap h size)
  | .extend => inferInstanceAs (Decidable (_ ∨ _))
  | .refuse => inferInstanceAs (Decidable True)
  | .reuse _ => inferInstanceAs (Decidable True)

variable {I : Image} {s s' : Session} {c : Call} {bs : List Block} {b : Block} {lo hi limit : ℕ}
  {calls : List Call} {m : Mem} {a : Addr}

lemma Listed.stop_le (hl : Listed m a bs) (ht : Tiled lo hi bs) (hb : b ∈ bs) :
    b.stop ≤ if next m b.addr = 0 then hi else (next m b.addr).toNat := by
  induction bs generalizing lo a with
  | nil => simp at hb
  | cons c bs ih =>
    obtain ⟨-, -, -, hbs⟩ := listed_cons.mp hl
    rcases List.mem_cons.mp hb with rfl | hb
    · cases bs with
      | nil =>
        have hn : next m b.addr = 0 := hbs.1
        rw [if_pos hn]
        exact ht.2
      | cons d bs =>
        obtain ⟨hn, hd0, -⟩ := listed_cons.mp hbs
        rw [hn, if_neg hd0]
        exact ht.2.1
    · exact ih hbs ht.2 hb

lemma Active.described (h : Active I s bs limit) : s.Described := by
  refine ⟨_, h.chain, fun x hx => ?_⟩
  obtain ⟨b, hb, rfl⟩ := List.mem_map.mp hx
  have hbl := h.listed.2 b hb
  have hsize : (header s.heap.mem b.addr).size = b.size := congrArg Block.size hbl
  have hmagic : (header s.heap.mem b.addr).magic = b.magic := congrArg Block.magic hbl
  refine ⟨hmagic.trans (h.magic b hb), ?_⟩
  have hstop := h.listed.stop_le h.tiled hb
  have hlim := h.limit_le
  rw [hsize]
  split_ifs at hstop ⊢
  · exact hstop.trans hlim
  · exact hstop

lemma start_described : I.start.Described := ⟨[], rfl, by simp⟩

lemma start_step_opening
    (h : I.start.StepOn (fun g size r => Route.Roomy I.heap g size r ∧ Route.Opening I.heap g size r)
      I.heap c s') : s' = I.start ∨ ∃ bs, Active I s' bs s'.heap.gKbrk.toNat := by
  rcases start_step (h.imp fun _ _ _ => And.left) with rfl | rfl | ha
  · exact Or.inl rfl
  · -- the heap would be left behind without a region
    exfalso
    obtain ⟨hs, hok⟩ := h
    cases c with
    | free ap =>
      obtain ⟨⟨x, hx, -⟩, -⟩ := step_free hs
      simp [Image.start] at hx
    | malloc size =>
      obtain ⟨fuel, reply, he⟩ := hs
      obtain ⟨r, hr, hs'⟩ := exec_malloc he
      have hopening := (hok fuel r hr).2
      cases r with
      | refuse => exact I.heap_ne_null (congrArg (·.heap.heapBottom) hs'.2)
      | reuse n => exact (reuse_cases hr).2.2.1 rfl
      | extend =>
        have hfit := hopening.resolve_left (not_not.mpr rfl)
        rcases grow_cases (start_opened I) size with ⟨hn, -⟩ | ⟨-, -, hp, -⟩
        · exact hn hfit
        · have hlive := congrArg Session.live hs'.2
          rw [if_neg hp] at hlive
          exact List.cons_ne_nil _ _ hlive.symm
  · exact Or.inr ha

theorem blocks_described
    (h : Run (Session.StepOn (fun g size r => Route.Roomy I.heap g size r ∧
      Route.Opening I.heap g size r) I.heap) I.start calls s) :
    s.Described ∧ ∀ c s', s.StepOn (fun g size r => Route.Roomy I.heap g size r ∧
      Route.Opening I.heap g size r) I.heap c s' → s.SplitsWithin c := by
  constructor
  · have hphase : s = I.start ∨ ∃ bs limit, Active I s bs limit := by
      refine h.invariant (P := fun s => s = I.start ∨ ∃ bs limit, Active I s bs limit) ?_ (Or.inl rfl)
      rintro s c s' (rfl | ⟨bs, limit, ha⟩) hs
      · exact (start_step_opening hs).imp_right fun ⟨bs, hb⟩ => ⟨bs, _, hb⟩
      · obtain ⟨bs', ha', -⟩ := active_step ha (hs.imp fun _ _ _ => And.left)
        exact Or.inr ⟨bs', limit, ha'⟩
    rcases hphase with rfl | ⟨bs, limit, ha⟩
    · exact start_described
    · exact ha.described
  · rintro c s' ⟨-, hok⟩
    refine hok.imp fun g size r hr m hm => ?_
    subst hm
    exact hr.1.2

theorem blocks_described_reused : ∃ s,
    Run (Session.StepOn (fun g size r => Route.Roomy smallKernel.heap g size r ∧
        Route.Opening smallKernel.heap g size r) smallKernel.heap) smallKernel.start
      [.malloc 100, .malloc 1, .free 0x80110010#32, .malloc 10] s ∧
    s.live.map Live.ptr = [0x80110010#32, 0x801100a0#32] ∧ s.Described := by
  have hr : (([.malloc 100, .malloc 1, .free 0x80110010#32, .malloc 10] : List Call).foldlM
      (Session.execOn (fun g size r => Route.Roomy smallKernel.heap g size r ∧
        Route.Opening smallKernel.heap g size r) smallKernel.heap 4) smallKernel.start).map
      (·.live.map Live.ptr) = some [0x80110010#32, 0x801100a0#32] := by
    decide +kernel
  obtain ⟨s, hrun, hl⟩ := Run.exists_of_foldlM (fun _ _ _ => stepOn_of_execOn) hr
  exact ⟨s, hrun, hl, (blocks_described hrun).1⟩

theorem small_hole_undescribed : ¬ ∀ (I : Image) (calls : List Call) (s : Session),
    Run (Session.Step I.heap) I.start calls s →
      s.Described ∧ ∀ c s', s.Step I.heap c s' → s.SplitsWithin c := by
  intro h
  have hr : (([.malloc 1, .free 0x80110010#32, .malloc 100] : List Call).foldlM
      (Session.advance smallKernel.heap 4) smallKernel.start).map (fun s => (s.heap.heapBottom,
        s.heap.gKbrk, next s.heap.mem 0x80110000#32, header s.heap.mem 0x80110090#32)) =
      some (0x80110000#32, 0x80110011#32, 0x80110090#32, ⟨0xFFFFFF71#32, 0, heapMagic, false⟩) := by
    decide +kernel
  obtain ⟨s, hrun, hl⟩ := Run.exists_of_foldlM (fun _ _ _ => step_of_advance) hr
  simp only [Prod.mk.injEq] at hl
  obtain ⟨hbottom, hbrk, hfirst, hrest⟩ := hl
  obtain ⟨⟨xs, hc, hx⟩, -⟩ := h smallKernel _ s hrun
  rw [hbottom] at hc
  obtain ⟨ys, rfl⟩ := hc.exists_cons (by decide)
  have ht := hc.2.2
  rw [hfirst] at ht
  obtain ⟨zs, rfl⟩ := Chain.exists_cons ht (by decide)
  have hle := (hx 0x80110090#32 (by simp)).2
  rw [next, hrest, hbrk] at hle
  exact absurd hle (by decide)

end TinuOS.Umalloc
