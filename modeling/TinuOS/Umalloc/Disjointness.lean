import TinuOS.Umalloc.Runs

/-! The blocks that clients hold stay apart as long as every reused hole is large enough. -/

namespace TinuOS.Umalloc

open Library

namespace Live

def payload (x : Live) : Set Addr := span x.ptr x.size.toNat

def header (x : Live) : Set Addr := span (x.ptr - BitVec.ofNat 32 sizeofHeader) sizeofHeader

def Apart (x y : Live) : Prop :=
  Disjoint x.payload y.payload ∧ Disjoint x.payload y.header ∧ Disjoint x.header y.payload

variable {x y : Live}

lemma Apart.symm (h : x.Apart y) : y.Apart x := ⟨h.1.symm, h.2.2.symm, h.2.1.symm⟩

lemma apart_of_le (hx : sizeofHeader ≤ x.ptr.toNat) (hy : y.ptr.toNat + y.size.toNat ≤ 2 ^ 32)
    (h : x.ptr.toNat + x.size.toNat + sizeofHeader ≤ y.ptr.toNat) : x.Apart y := by
  have h16 : sizeofHeader = 16 := rfl
  have hxh : (x.ptr - BitVec.ofNat 32 sizeofHeader).toNat = x.ptr.toNat - 16 := by bv_omega
  have hyh : (y.ptr - BitVec.ofNat 32 sizeofHeader).toNat = y.ptr.toNat - 16 := by bv_omega
  exact ⟨span_disjoint (by omega) hy, span_disjoint (by omega) (by omega),
    span_disjoint (by omega) hy⟩

end Live

variable {I : Image} {s : Session} {bs : List Block} {limit : ℕ} {calls : List Call}

lemma Active.apart (h : Active I s bs limit) : s.live.Pairwise Live.Apart := by
  apply h.clear.imp_of_mem
  intro x y hx hy hxy
  have hbx := h.live_bounds hx
  have hby := h.live_bounds hy
  have hbrk := h.brk_lt
  have hend := I.heap_end
  rcases hxy with hxy | hxy
  · exact Live.apart_of_le (by omega) (by omega) hxy
  · exact (Live.apart_of_le (by omega) (by omega) hxy).symm

theorem live_blocks_apart
    (h : Run (Session.StepOn (Route.Roomy I.heap) I.heap) I.start calls s) :
    s.live.Pairwise Live.Apart := by
  rcases phase_of_run h with rfl | rfl | ⟨bs, limit, ha⟩
  · exact List.Pairwise.nil
  · exact List.Pairwise.nil
  · exact ha.apart

theorem live_blocks_apart_reused : ∃ s,
    Run (Session.StepOn (Route.Roomy smallKernel.heap) smallKernel.heap) smallKernel.start
      [.malloc 100, .malloc 1, .free 0x80110010#32, .malloc 10] s ∧
    s.live = [⟨0x80110010#32, 10⟩, ⟨0x801100a0#32, 1⟩] ∧ s.live.Pairwise Live.Apart := by
  have hr : (([.malloc 100, .malloc 1, .free 0x80110010#32, .malloc 10] : List Call).foldlM
      (Session.execOn (Route.Roomy smallKernel.heap) smallKernel.heap 4) smallKernel.start).map
      Session.live = some [⟨0x80110010#32, 10⟩, ⟨0x801100a0#32, 1⟩] := by
    decide +kernel
  obtain ⟨s, hrun, hl⟩ := Run.exists_of_foldlM (fun _ _ _ => stepOn_of_execOn) hr
  exact ⟨s, hrun, hl, live_blocks_apart hrun⟩

theorem small_hole_reused : ¬ ∀ (I : Image) (calls : List Call) (s : Session),
    Run (Session.Step I.heap) I.start calls s → s.live.Pairwise Live.Apart := by
  intro h
  have hr : (([.malloc 1, .malloc 1, .free 0x80110010#32, .malloc 100] : List Call).foldlM
      (Session.advance smallKernel.heap 4) smallKernel.start).map Session.live =
      some [⟨0x80110010#32, 100⟩, ⟨0x80110021#32, 1⟩] := by
    decide +kernel
  obtain ⟨s, hrun, hl⟩ := Run.exists_of_foldlM (fun _ _ _ => step_of_advance) hr
  have hp := h smallKernel _ s hrun
  rw [hl] at hp
  have hd := ((List.pairwise_cons.mp hp).1 _ (List.mem_singleton_self _)).1
  have hx : 0x80110021#32 ∈ (⟨0x80110010#32, 100⟩ : Live).payload := by
    rw [Live.payload, mem_span]
    decide
  have hy : 0x80110021#32 ∈ (⟨0x80110021#32, 1⟩ : Live).payload := by
    rw [Live.payload, mem_span]
    decide
  exact Set.disjoint_left.mp hd hx hy

end TinuOS.Umalloc
