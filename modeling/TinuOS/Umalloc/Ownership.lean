import TinuOS.Umalloc.Runs

/-! The memory that a successful `malloc` hands out lies inside the heap. -/

namespace TinuOS.Umalloc

open Library

structure Owned (h : Heap) (p : Addr) (size : BitVec 32) : Prop where
  low : h.heapBottom.toNat + sizeofHeader ≤ p.toNat
  high : p.toNat + size.toNat ≤ h.gKbrk.toNat
  top : h.gKbrk.toNat ≤ h.heapTop.toNat

def Unmet (heap : Addr) (h : Heap) (size : BitVec 32) : Prop :=
  (∃ fuel, route fuel h size = some .extend) ∧
    (h.opened heap).heapTop.toNat < (h.opened heap).gKbrk.toNat + sizeofHeader + size.toNat

def Session.Grants (heap : Addr) (s : Session) (size : BitVec 32) : Prop :=
  ∀ fuel r s', s.exec heap fuel (.malloc size) = some (r, s') →
    (r.ret ≠ 0 → Owned s'.heap r.ret size) ∧ (Unmet heap s.heap size → r.ret = 0)

variable {I : Image} {s s' : Session} {bs : List Block} {limit fuel : ℕ} {calls : List Call}
  {size : BitVec 32} {r : Reply} {x : Live}

lemma Active.owned (h : Active I s bs limit) (hx : x ∈ s.live) : Owned s.heap x.ptr x.size := by
  obtain ⟨hlow, hhigh⟩ := h.live_bounds hx
  have hbrk := h.brk_lt
  have hend := I.heap_end
  refine ⟨h.bottom ▸ hlow, hhigh, ?_⟩
  rw [h.top]
  simp only [maxHeap] at hbrk hend ⊢
  bv_omega

lemma mem_live_of_malloc (he : s.exec I.heap fuel (.malloc size) = some (r, s')) (hr : r.ret ≠ 0) :
    ⟨r.ret, size⟩ ∈ s'.live := by
  obtain ⟨⟨p, out, h⟩, -, he⟩ := Option.map_eq_some_iff.mp he
  obtain ⟨rfl, rfl⟩ := Prod.ext_iff.mp he
  have hp : p ≠ 0 := hr
  change ⟨p, size⟩ ∈ (if p = 0 then s.live else ⟨p, size⟩ :: s.live)
  rw [if_neg hp]
  exact List.mem_cons_self

theorem malloc_owned (h : Run (Session.StepOn (Route.Roomy I.heap) I.heap) I.start calls s)
    (hok : s.OnRoute (Route.Roomy I.heap) (.malloc size)) : s.Grants I.heap size := by
  intro fuel r s' he
  have howned : r.ret ≠ 0 → Owned s'.heap r.ret size := by
    intro hr
    have hlive := mem_live_of_malloc he hr
    rcases phase_of_run (h.snoc ⟨⟨fuel, r, he⟩, hok⟩) with rfl | rfl | ⟨bs, limit, ha⟩
    · simp [Image.start] at hlive
    · simp [Image.dead] at hlive
    · exact ha.owned hlive
  refine ⟨howned, ?_⟩
  rintro ⟨⟨n, hn⟩, hroom⟩
  by_contra hr
  obtain ⟨hlow, hhigh, htop⟩ := howned hr
  obtain ⟨q, hq, hs'⟩ := exec_malloc he
  obtain rfl := route_unique hn hq
  obtain ⟨hret, rfl⟩ := hs'
  have ho : Opened I (s.heap.opened I.heap) := by
    rcases phase_of_run h with rfl | rfl | ⟨bs, limit, ha⟩
    · exact start_opened I
    · exact (start_opened I).again
    · exact ha.opened.again
  rw [hret] at hr hlow hhigh
  rcases grow_cases ho size with ⟨-, hp, -⟩ | ⟨-, hp, -, m', -, -, hh⟩
  · exact hr hp
  · rw [hh] at hlow hhigh htop
    simp only at hlow hhigh htop
    rw [hp, sizeofHeader] at hlow hhigh
    rw [sizeofHeader] at hroom
    bv_omega

theorem malloc_owned_reused : ∃ s,
    Run (Session.StepOn (Route.Roomy smallKernel.heap) smallKernel.heap) smallKernel.start
      [.malloc 100, .free 0x80110010#32] s ∧
    s.checkRoute (Route.Roomy smallKernel.heap) 4 (.malloc 10) = true ∧
    s.Grants smallKernel.heap 10 := by
  have hr : (([.malloc 100, .free 0x80110010#32] : List Call).foldlM
      (Session.execOn (Route.Roomy smallKernel.heap) smallKernel.heap 4) smallKernel.start).map
      (·.checkRoute (Route.Roomy smallKernel.heap) 4 (.malloc 10)) = some true := by
    decide +kernel
  obtain ⟨s, hrun, hl⟩ := Run.exists_of_foldlM (fun _ _ _ => stepOn_of_execOn) hr
  exact ⟨s, hrun, hl, malloc_owned hrun (onRoute_of_checkRoute hl)⟩

theorem huge_request_granted : ¬ ∀ (I : Image) (calls : List Call) (s : Session) (size : BitVec 32),
    Run (Session.Step I.heap) I.start calls s → s.Grants I.heap size := by
  intro h
  have hr : (smallKernel.start.exec smallKernel.heap 4 (.malloc 0x80000001#32)).map
      (fun p => (p.1.ret, p.2.heap.gKbrk)) = some (0x80110010#32, 0x80110010#32) := by
    decide +kernel
  obtain ⟨⟨r, s'⟩, he, hl⟩ := Option.map_eq_some_iff.mp hr
  simp only [Prod.mk.injEq] at hl
  have hg := (h smallKernel [] _ 0x80000001#32 (.nil _) 4 r s' he).1
  rw [hl.1] at hg
  have hhigh := (hg (by decide)).high
  rw [hl.2] at hhigh
  exact absurd hhigh (by decide)

end TinuOS.Umalloc
