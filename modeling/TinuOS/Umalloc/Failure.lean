import TinuOS.Umalloc.Runs

/-! What a `malloc` that returns `NULL` leaves behind, in any run. -/

namespace TinuOS.Umalloc

open Library

/-- Every later run gives the same results from the two states. -/
def Session.Harmless (heap : Addr) (s s' : Session) : Prop :=
  ∀ fuel cs, s'.replies heap fuel cs = s.replies heap fuel cs

variable {I : Image} {s s' : Session} {h : Heap} {c : Call} {size : BitVec 32} {fuel : ℕ} {r : Reply}
  {calls : List Call} {m' : Mem} {n : Addr}

lemma Opened.step (h : Opened I s.heap) (hs : s.Step I.heap c s') : Opened I s'.heap := by
  cases c with
  | malloc size =>
    obtain ⟨fuel, reply, he⟩ := hs
    obtain ⟨r, hr, hs'⟩ := exec_malloc he
    cases r with
    | refuse =>
      obtain ⟨-, rfl⟩ := hs'
      exact h
    | reuse n =>
      obtain ⟨-, rfl⟩ := hs'
      exact h.mem _
    | extend =>
      obtain ⟨-, rfl⟩ := hs'
      rcases grow_cases h.again size with ⟨-, -, hh⟩ | ⟨hfit, -, -, m', -, -, hh⟩
      · rw [hh]
        exact h.again
      · rw [hh]
        exact h.again.grow m' hfit.2.1 hfit.2.2
  | free ap =>
    obtain ⟨-, -, fuel, out, hf⟩ := step_free hs
    rcases free_cases hf with hh | ⟨-, -, -, m', -, hh⟩
    · rwa [hh]
    · rw [hh]
      exact h.mem m'

lemma start_step_cases (hs : I.start.Step I.heap c s') : s' = I.start ∨ Opened I s'.heap := by
  cases c with
  | free ap =>
    obtain ⟨⟨x, hx, -⟩, -⟩ := step_free hs
    simp [Image.start] at hx
  | malloc size =>
    obtain ⟨fuel, reply, he⟩ := hs
    obtain ⟨r, hr, hs'⟩ := exec_malloc he
    cases r with
    | refuse => exact Or.inl hs'.2
    | reuse n => exact (reuse_cases hr).2.2.1.elim rfl
    | extend =>
      obtain ⟨-, rfl⟩ := hs'
      rcases grow_cases (start_opened I) size with ⟨-, -, hh⟩ | ⟨hfit, -, -, m', -, -, hh⟩
      · exact Or.inr (hh ▸ start_opened I)
      · exact Or.inr (hh ▸ (start_opened I).grow m' hfit.2.1 hfit.2.2)

lemma opened_of_run (h : Run (Session.Step I.heap) I.start calls s) :
    s = I.start ∨ Opened I s.heap := by
  refine h.invariant (P := fun s => s = I.start ∨ Opened I s.heap) ?_ (Or.inl rfl)
  rintro s c s' (rfl | ho) hs
  · exact start_step_cases hs
  · exact Or.inr (ho.step hs)

lemma failed_step (ho : Opened I s.heap) (he : s.exec I.heap fuel (.malloc size) = some (r, s'))
    (hr : r.ret = 0) (hw : route fuel s.heap size ≠ some (.reuse 0xFFFFFFF0#32)) : s' = s := by
  obtain ⟨q, hq, hs'⟩ := exec_malloc he
  cases q with
  | refuse => exact hs'.2
  | reuse n =>
    have hn : n = 0xFFFFFFF0#32 := by
      rw [hs'.1, sizeofHeader] at hr
      bv_omega
    exact (hw (hn ▸ hq)).elim
  | extend =>
    rw [hs'.1] at hr
    rcases grow_cases ho.again size with ⟨-, -, hh⟩ | ⟨-, -, hp, -⟩
    · rw [hs'.2, hh, ho.opened_eq, if_pos hr]
    · exact (hp hr).elim

lemma failed_start (hs : size ≠ 0) (he : I.start.exec I.heap fuel (.malloc size) = some (r, s'))
    (hr : r.ret = 0) : s' = I.dead := by
  have hb : I.start.heap.heapBottom = 0 := rfl
  obtain ⟨q, hq, hs'⟩ := exec_malloc he
  rw [route, if_neg hs, if_pos hb] at hq
  obtain rfl := Option.some.inj hq
  rw [hs'.1] at hr
  rcases grow_cases (start_opened I) size with ⟨-, -, hh⟩ | ⟨-, -, hp, -⟩
  · rw [hs'.2, hh, if_pos hr]
    rfl
  · exact (hp hr).elim

lemma start_fits : I.start.heap.Fits I.heap (totalSize 1) := by
  have h17 : totalSize 1 = 17#32 := by decide
  have hend := I.heap_end
  rw [h17]
  refine ⟨by decide, ?_, ?_⟩
  · change I.heap < I.heap + 17#32
    simp only [maxHeap] at hend
    bv_omega
  · change I.heap + 17#32 < I.heap + BitVec.ofNat 32 maxHeap
    simp only [maxHeap] at hend ⊢
    bv_omega

lemma dead_harmful : ¬ Session.Harmless I.heap I.start I.dead := by
  intro h
  have hb : I.start.heap.heapBottom = 0 := rfl
  have hroute : route 0 I.start.heap 1 = some .extend := by
    rw [route, if_neg (by decide), if_pos hb]
  have he := h 0 [.malloc 1]
  simp only [Session.replies, Session.exec, malloc_eq_route, dead_route, hroute, Option.map_some,
    Option.bind_some, Option.some.injEq, List.cons.injEq, Reply.mk.injEq, and_true] at he
  rcases grow_cases (start_opened I) 1 with ⟨hn, -⟩ | ⟨-, -, hp, -⟩
  · exact hn start_fits
  · exact hp he.1.symm

lemma route_one (hr : route fuel h size = some (.reuse n)) : route fuel h 1 = some (.reuse n) := by
  obtain ⟨hn, -, hb, hm, hseek⟩ := reuse_cases hr
  rw [route, if_neg (by decide), if_neg hb, if_neg (not_not.mpr hm), hseek, Option.map_some, if_neg hn]

lemma wrapped_harmful (ho : Opened I s.heap) (hr : route fuel s.heap size = some (.reuse 0xFFFFFFF0#32))
    (hfit : s.heap.Fits I.heap (totalSize 1)) :
    ¬ Session.Harmless I.heap s
      ⟨{ s.heap with mem := split s.heap.mem 0xFFFFFFF0#32 size (totalSize size) }, s.live⟩ := by
  intro hh
  have he := hh fuel [.malloc 1]
  have hold := route_one hr
  have h0 : 0xFFFFFFF0#32 + BitVec.ofNat 32 sizeofHeader = 0 := by decide
  obtain ⟨h', hh'⟩ : ∃ h', h' =
    { s.heap with mem := split s.heap.mem 0xFFFFFFF0#32 size (totalSize size) } := ⟨_, rfl⟩
  have hused : (header h'.mem 0xFFFFFFF0#32).isHole = true := by
    rw [hh', split, header_setIsHole]
  have ho' : Opened I h' := hh' ▸ ho.mem _
  have hfit' : h'.Fits I.heap (totalSize 1) := by
    rw [Heap.Fits, ho.opened_eq] at hfit
    rw [Heap.Fits, ho'.opened_eq, hh']
    exact hfit
  rw [← hh'] at he
  simp only [Session.replies, Session.exec, malloc_eq_route, hold, h0, Option.map_some,
    Option.bind_some] at he
  cases hq : route fuel h' 1 with
  | none => simp only [hq, Option.map_none, Option.bind_none, reduceCtorEq] at he
  | some q =>
    simp only [hq, Option.map_some, Option.bind_some, Option.some.injEq, List.cons.injEq,
      Reply.mk.injEq, and_true] at he
    cases q with
    | refuse => exact List.cons_ne_nil _ _ he.2
    | reuse n =>
      obtain ⟨hn0, -, -, -, hseek⟩ := reuse_cases hq
      have hn : n = 0xFFFFFFF0#32 := by
        have hret := he.1
        rw [sizeofHeader] at hret
        bv_omega
      have hhole := (seek_stop hseek).resolve_left hn0
      rw [hn, hused] at hhole
      exact absurd hhole (by decide)
    | extend =>
      rcases grow_cases ho'.again 1 with ⟨hn, -⟩ | ⟨-, -, hp, -⟩
      · exact hn hfit'
      · exact hp he.1

theorem failed_malloc_harmless (h : Run (Session.Step I.heap) I.start calls s)
    (he : s.exec I.heap fuel (.malloc size) = some (r, s')) (hr : r.ret = 0) :
    (size = 0 ∨ (s.heap.heapBottom ≠ 0 ∧ route fuel s.heap size ≠ some (.reuse 0xFFFFFFF0#32)) →
      Session.Harmless I.heap s s') ∧
    (Session.Harmless I.heap s s' → size = 0 ∨ (s.heap.heapBottom ≠ 0 ∧
      (route fuel s.heap size ≠ some (.reuse 0xFFFFFFF0#32) ∨ ¬ s.heap.Fits I.heap (totalSize 1)))) := by
  constructor
  · intro hc
    suffices s' = s by
      rw [this]
      exact fun fuel cs => rfl
    rcases hc with rfl | ⟨hb, hw⟩
    · obtain ⟨q, hq, hs'⟩ := exec_malloc he
      rw [route, if_pos rfl] at hq
      obtain rfl := Option.some.inj hq
      exact hs'.2
    · rcases opened_of_run h with rfl | ho
      · exact (hb rfl).elim
      · exact failed_step ho he hr hw
  · intro hh
    by_cases hs : size = 0
    · exact Or.inl hs
    · rcases opened_of_run h with rfl | ho
      · obtain rfl := failed_start hs he hr
        exact (dead_harmful hh).elim
      · refine Or.inr ⟨ho.bottom_ne_null, ?_⟩
        by_contra hc
        obtain ⟨hw, hfit⟩ := not_or.mp hc
        have hw := not_not.mp hw
        obtain ⟨q, hq, hs'⟩ := exec_malloc he
        obtain rfl := Option.some.inj (hq.symm.trans hw)
        obtain ⟨-, rfl⟩ := hs'
        exact wrapped_harmful ho hw (not_not.mp hfit) hh

theorem failed_malloc_harmless_opened : ∃ s r s',
    Run (Session.Step smallKernel.heap) smallKernel.start [.malloc 1] s ∧
    s.exec smallKernel.heap 4 (.malloc 500000) = some (r, s') ∧ r.ret = 0 ∧
    Session.Harmless smallKernel.heap s s' := by
  have hr : (([.malloc 1] : List Call).foldlM (Session.advance smallKernel.heap 4)
      smallKernel.start).map (fun s => (s.heap.heapBottom, route 4 s.heap 500000,
        (s.exec smallKernel.heap 4 (.malloc 500000)).map (·.1.ret))) =
      some (0x80110000#32, some .extend, some 0) := by
    decide +kernel
  obtain ⟨s, hrun, hl⟩ := Run.exists_of_foldlM (fun _ _ _ => step_of_advance) hr
  simp only [Prod.mk.injEq] at hl
  obtain ⟨hb, hroute, he⟩ := hl
  obtain ⟨⟨r, s'⟩, he, hret⟩ := Option.map_eq_some_iff.mp he
  refine ⟨s, r, s', hrun, he, hret, (failed_malloc_harmless hrun he hret).1 (Or.inr ⟨?_, ?_⟩)⟩
  · rw [hb]
    decide
  · rw [hroute]
    decide

theorem first_failure_remembered : ¬ ∀ (I : Image) (calls : List Call) (s : Session) (fuel : ℕ)
    (size : BitVec 32) (r : Reply) (s' : Session), Run (Session.Step I.heap) I.start calls s →
      s.exec I.heap fuel (.malloc size) = some (r, s') → r.ret = 0 →
      Session.Harmless I.heap s s' := by
  intro h
  have hr : (smallKernel.start.exec smallKernel.heap 4 (.malloc 500000)).map (fun p =>
      (p.1.ret, (p.2.replies smallKernel.heap 4 [.malloc 1]).map (·.map Reply.ret))) =
      some (0, some [0]) := by
    decide +kernel
  have hs : (smallKernel.start.replies smallKernel.heap 4 [.malloc 1]).map (·.map Reply.ret) =
      some [0x80110010#32] := by
    decide +kernel
  obtain ⟨⟨r, s'⟩, he, hl⟩ := Option.map_eq_some_iff.mp hr
  obtain ⟨hret, hd⟩ := Prod.ext_iff.mp hl
  have hh := h smallKernel [] _ 4 500000 r s' (.nil _) he hret 4 [.malloc 1]
  have hd : (s'.replies smallKernel.heap 4 [.malloc 1]).map (·.map Reply.ret) = some [0] := hd
  rw [hh, hs] at hd
  exact absurd hd (by decide)

end TinuOS.Umalloc
