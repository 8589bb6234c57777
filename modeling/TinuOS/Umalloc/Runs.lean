import TinuOS.Umalloc.Invariant

/-! The invariant along runs: one call from each kind of state, then any number of calls. -/

namespace TinuOS.Umalloc

open Library

variable {I : Image} {s s' : Session} {c : Call} {size : BitVec 32} {ap : Addr} {bs : List Block}
  {limit fuel : ℕ} {calls : List Call} {reply : Reply}

def Image.dead (I : Image) : Session := ⟨I.start.heap.opened I.heap, []⟩

lemma exec_malloc (h : s.exec I.heap fuel (.malloc size) = some (reply, s')) :
    ∃ r, route fuel s.heap size = some r ∧ match r with
      | .refuse => reply.ret = 0 ∧ s' = s
      | .reuse n => reply.ret = n + BitVec.ofNat 32 sizeofHeader ∧
          s' = ⟨{ s.heap with mem := split s.heap.mem n size (totalSize size) },
            if n + BitVec.ofNat 32 sizeofHeader = 0 then s.live
            else ⟨n + BitVec.ofNat 32 sizeofHeader, size⟩ :: s.live⟩
      | .extend => reply.ret = (grow I.heap s.heap size).1 ∧
          s' = ⟨(grow I.heap s.heap size).2.2,
            if (grow I.heap s.heap size).1 = 0 then s.live
            else ⟨(grow I.heap s.heap size).1, size⟩ :: s.live⟩ := by
  rw [Session.exec, malloc_eq_route, Option.map_map] at h
  obtain ⟨r, hr, he⟩ := Option.map_eq_some_iff.mp h
  obtain ⟨hreply, hs'⟩ := Prod.ext_iff.mp he
  refine ⟨r, hr, ?_⟩
  cases r <;> exact ⟨congrArg Reply.ret hreply.symm, hs'.symm⟩

lemma step_free (h : s.Step I.heap (.free ap) s') :
    (∃ x ∈ s.live, x.ptr = ap) ∧ s'.live = s.live.eraseP (·.ptr = ap) ∧
      ∃ fuel out, free fuel s.heap ap = some (out, s'.heap) := by
  obtain ⟨fuel, reply, h⟩ := h
  rw [Session.exec] at h
  split_ifs at h with ha
  obtain ⟨⟨out, h'⟩, hf, he⟩ := Option.map_eq_some_iff.mp h
  obtain ⟨-, rfl⟩ := Prod.ext_iff.mp he
  exact ⟨by simpa using ha, rfl, fuel, out, hf⟩

lemma bss_load32 {i : Addr} (hi : i.toNat + 4 ≤ maxHeap) : I.mem.load32 (I.heap + i) = 0 := by
  have hz := load32_of_const (m := I.mem) (a := I.heap + i) 0#8 fun x hx =>
    I.bss x (span_subset (by rw [BitVec.add_comm, BitVec.add_sub_cancel]; exact hi) hx)
  rw [hz]
  rfl

lemma dead_magic : (header I.mem I.heap).magic = 0 := bss_load32 (by decide)

lemma dead_next : next I.mem I.heap = 0 := bss_load32 (by decide)

lemma start_extend (hs : size ≤ 0x80000000#32) {m' : Mem}
    (hm : header m' I.heap = ⟨size, 0, heapMagic, true⟩)
    (hb : I.heap < I.heap + totalSize size)
    (ht : I.heap + totalSize size < I.heap + BitVec.ofNat 32 maxHeap) :
    Active I ⟨{ I.start.heap.opened I.heap with mem := m', gKbrk := I.heap + totalSize size },
      [⟨I.heap + BitVec.ofNat 32 sizeofHeader, size⟩]⟩ [⟨I.heap, size, heapMagic, true⟩]
      (I.heap + totalSize size).toNat where
  bottom := rfl
  top := rfl
  listed := by
    refine listed_cons.mpr ⟨rfl, I.heap_ne_null, ?_, ?_⟩
    · simp only [blockAt, hm]
    · rw [next, hm]
      exact ⟨rfl, by simp⟩
  magic := by simp
  tiled := by
    have hfit := le_totalSize hs
    refine ⟨le_rfl, ?_⟩
    simp only [Tiled, Block.stop, sizeofHeader] at hfit ⊢
    bv_omega
  limit_le := le_rfl
  brk_lt := by
    have hend := I.heap_end
    simp only [maxHeap] at hend ht ⊢
    bv_omega
  live := by
    intro x hx
    obtain rfl := List.mem_singleton.mp hx
    exact Or.inl ⟨_, List.mem_singleton_self _, rfl, rfl, rfl⟩
  clear := List.pairwise_singleton _ _

lemma start_step (h : I.start.StepOn (Route.Roomy I.heap) I.heap c s') :
    s' = I.start ∨ s' = I.dead ∨ ∃ bs, Active I s' bs s'.heap.gKbrk.toNat := by
  obtain ⟨hs, hok⟩ := h
  cases c with
  | free ap =>
    obtain ⟨⟨x, hx, -⟩, -⟩ := step_free hs
    simp [Image.start] at hx
  | malloc size =>
    obtain ⟨fuel, reply, he⟩ := hs
    obtain ⟨r, hr, hs'⟩ := exec_malloc he
    have hroomy := hok fuel r hr
    cases r with
    | refuse => exact Or.inl hs'.2
    | reuse n =>
      have hb : I.start.heap.heapBottom = 0 := rfl
      rw [route, if_pos hb] at hr
      split_ifs at hr <;> cases Option.some.inj hr
    | extend =>
      obtain ⟨-, rfl⟩ := hs'
      rcases grow_cases (start_opened I) size with ⟨-, hp, hh⟩ | ⟨hfit, hp, hp0, m', hm, -, hh⟩
      · rw [if_pos hp, hh]
        exact Or.inr (Or.inl rfl)
      · have hsize : size ≤ 0x80000000#32 := hroomy.resolve_right (not_not.mpr hfit)
        rw [if_neg hp0, hh, hp]
        exact Or.inr (Or.inr ⟨_, start_extend hsize hm hfit.2.1 hfit.2.2⟩)

lemma dead_route (fuel : ℕ) (size : BitVec 32) : route fuel I.dead.heap size = some .refuse := by
  have hm : (header I.dead.heap.mem I.dead.heap.heapBottom).magic ≠ heapMagic := by
    change (header I.mem I.heap).magic ≠ heapMagic
    rw [dead_magic]
    decide
  have hb : I.dead.heap.heapBottom ≠ 0 := I.heap_ne_null
  rw [route, if_neg hb, if_pos hm, ite_self]

lemma dead_step (h : I.dead.Step I.heap c s') : s' = I.dead := by
  cases c with
  | free ap =>
    obtain ⟨⟨x, hx, -⟩, -⟩ := step_free h
    simp [Image.dead] at hx
  | malloc size =>
    obtain ⟨fuel, reply, he⟩ := h
    obtain ⟨r, hr, hs'⟩ := exec_malloc he
    rw [dead_route] at hr
    obtain rfl := Option.some.inj hr
    exact hs'.2

lemma active_reuse {n : Addr} {fuel : ℕ} (h : Active I s bs limit)
    (hr : route fuel s.heap size = some (.reuse n))
    (hok : Route.Roomy I.heap s.heap size (.reuse n)) :
    n + BitVec.ofNat 32 sizeofHeader ≠ 0 ∧ ∃ bs', Active I
      ⟨{ s.heap with mem := split s.heap.mem n size (totalSize size) },
        ⟨n + BitVec.ofNat 32 sizeofHeader, size⟩ :: s.live⟩ bs' limit := by
  obtain ⟨hs, ht⟩ := hok
  obtain ⟨hn, -, -, -, hseek⟩ := reuse_cases hr
  obtain ⟨hmem, hhole⟩ := seek_found h.chain hseek hn
  obtain ⟨b, hb, rfl⟩ := List.mem_map.mp hmem
  have hbl := h.listed.2 b hb
  have hsize : (header s.heap.mem b.addr).size = b.size := congrArg Block.size hbl
  have hused : (header s.heap.mem b.addr).isHole = b.isHole := congrArg Block.isHole hbl
  have hbt := h.tiled.mem hb
  have hfit := le_totalSize hs
  have hlim := h.limit_lt
  rw [hsize] at ht
  obtain ⟨us, vs, rfl⟩ := List.append_of_mem hb
  refine ⟨?_, _, h.reuse (by simpa [hused] using hhole) hs ht⟩
  simp only [Block.stop, sizeofHeader] at hbt hfit ⊢
  bv_omega

lemma active_step (h : Active I s bs limit) (hs : s.StepOn (Route.Roomy I.heap) I.heap c s') :
    ∃ bs', Active I s' bs' limit ∧
      (s.OnRoute (Route.Linking I.heap) c → s'.heap.gKbrk = s.heap.gKbrk) := by
  obtain ⟨hs, hok⟩ := hs
  cases c with
  | malloc size =>
    obtain ⟨fuel, reply, he⟩ := hs
    obtain ⟨r, hr, hs'⟩ := exec_malloc he
    have hroomy := hok fuel r hr
    cases r with
    | refuse =>
      obtain ⟨-, rfl⟩ := hs'
      exact ⟨bs, h, fun _ => rfl⟩
    | reuse n =>
      obtain ⟨hp, bs', h'⟩ := active_reuse h hr hroomy
      simp only [if_neg hp] at hs'
      obtain ⟨-, rfl⟩ := hs'
      exact ⟨bs', h', fun _ => rfl⟩
    | extend =>
      have hopen := h.opened.opened_eq
      rcases grow_cases h.opened.again size with ⟨-, hp, hh⟩ | ⟨hfit, hp, hp0, m', -, hm, hh⟩
      · rw [hopen] at hh
        simp only [if_pos hp, hh] at hs'
        obtain ⟨-, rfl⟩ := hs'
        exact ⟨bs, h, fun _ => rfl⟩
      · have hsize : size ≤ 0x80000000#32 := hroomy.resolve_right (not_not.mpr hfit)
        rw [hopen] at hp hm hh
        have h' := h.extend hsize (by simpa [hopen] using hfit.2.2) (by simpa [hopen] using hfit.2.1) hm
        rw [if_neg hp0, hp, hh] at hs'
        obtain ⟨-, rfl⟩ := hs'
        refine ⟨bs, h', fun hlink => ?_⟩
        rcases hlink fuel .extend hr with hl | hl
        · exact (h.opened.bottom_ne_null hl).elim
        · exact (hl hfit).elim
  | free ap =>
    obtain ⟨-, hlive, fuel, out, hf⟩ := step_free hs
    obtain ⟨h₁, live⟩ := s'
    obtain rfl : live = s.live.eraseP (·.ptr = ap) := hlive
    rcases free_cases hf with hh | ⟨hm0, -, hseek, m', hc, hh⟩
    · obtain rfl : h₁ = s.heap := hh
      exact ⟨bs, h.forget List.eraseP_sublist, fun _ => rfl⟩
    · obtain rfl : h₁ = { s.heap with mem := m' } := hh
      obtain ⟨hmem, -⟩ := seek_found h.chain hseek hm0
      exact ⟨_, h.release hmem hc, fun _ => rfl⟩

lemma phase_of_run (h : Run (Session.StepOn (Route.Roomy I.heap) I.heap) I.start calls s) :
    s = I.start ∨ s = I.dead ∨ ∃ bs limit, Active I s bs limit := by
  refine h.invariant (P := fun s => s = I.start ∨ s = I.dead ∨ ∃ bs limit, Active I s bs limit) ?_
    (Or.inl rfl)
  rintro s c s' (rfl | rfl | ⟨bs, limit, ha⟩) hs
  · exact (start_step hs).imp_right (Or.imp_right fun ⟨bs, hb⟩ => ⟨bs, _, hb⟩)
  · exact Or.inr (Or.inl (dead_step hs.1))
  · obtain ⟨bs', ha', -⟩ := active_step ha hs
    exact Or.inr (Or.inr ⟨bs', limit, ha'⟩)

lemma phase_of_linking_run (h : Run (Session.StepOn
      (fun g size r => Route.Roomy I.heap g size r ∧ Route.Linking I.heap g size r) I.heap)
      I.start calls s) :
    s = I.start ∨ s = I.dead ∨ ∃ bs, Active I s bs s.heap.gKbrk.toNat := by
  refine h.invariant (P := fun s => s = I.start ∨ s = I.dead ∨
    ∃ bs, Active I s bs s.heap.gKbrk.toNat) ?_ (Or.inl rfl)
  rintro s c s' hp ⟨hs, hok⟩
  have hroomy : s.OnRoute (Route.Roomy I.heap) c := hok.imp fun _ _ _ => And.left
  have hlink : s.OnRoute (Route.Linking I.heap) c := hok.imp fun _ _ _ => And.right
  rcases hp with rfl | rfl | ⟨bs, ha⟩
  · exact start_step ⟨hs, hroomy⟩
  · exact Or.inr (Or.inl (dead_step hs))
  · obtain ⟨bs', ha', hbrk⟩ := active_step ha ⟨hs, hroomy⟩
    exact Or.inr (Or.inr ⟨bs', by rwa [hbrk hlink]⟩)

end TinuOS.Umalloc
