import TinuOS.Umalloc.Freeing
import TinuOS.Umalloc.Runs

/-! `free` on the blocks that clients hold: it succeeds as long as `malloc` takes one region only. -/

namespace TinuOS.Umalloc

open Library

def Session.Releasable (s : Session) (ap : Addr) : Prop :=
  (∃ xs, Chain (next s.heap.mem) 0 s.heap.heapBottom xs ∧ ap - BitVec.ofNat 32 sizeofHeader ∈ xs) ∧
    ∃ fuel m', coalesce fuel
        (setIsHole s.heap.mem (ap - BitVec.ofNat 32 sizeofHeader) false) s.heap.heapBottom = some m' ∧
      free fuel s.heap ap = some ([], { s.heap with mem := m' })

variable {I : Image} {s : Session} {bs : List Block} {limit : ℕ} {calls : List Call} {x : Live}

lemma Active.free_backed (h : Active I s bs limit) (hx : Backed bs x) : s.Releasable x.ptr := by
  obtain ⟨b, hb, -, hp, -⟩ := hx
  have hm : x.ptr - BitVec.ofNat 32 sizeofHeader = b.addr := by
    rw [hp, BitVec.add_sub_cancel]
  have hmem : b.addr ∈ bs.map Block.addr := List.mem_map_of_mem hb
  have hmagic : (header s.heap.mem b.addr).magic = heapMagic :=
    (congrArg Block.magic (h.listed.2 b hb)).trans (h.magic b hb)
  have hl : Listed s.heap.mem s.heap.heapBottom bs := h.bottom ▸ h.listed
  obtain ⟨m', hc⟩ := h.coalesce_ends hmem
  refine ⟨⟨_, h.chain, by rwa [hm]⟩, bs.length + 1, m', by rw [hm, hc], ?_⟩
  rw [free_accepted hl ⟨by rwa [hm], by rwa [hm]⟩, hm, hc, Option.map_some]

theorem live_blocks_releasable (h : Run (Session.StepOn
      (fun g size r => Route.Roomy I.heap g size r ∧ Route.Linking I.heap g size r) I.heap)
      I.start calls s) :
    ∀ x ∈ s.live, s.Releasable x.ptr := by
  intro x hx
  rcases phase_of_linking_run h with rfl | rfl | ⟨bs, ha⟩
  · simp [Image.start] at hx
  · simp [Image.dead] at hx
  · refine ha.free_backed ((ha.live x hx).resolve_right ?_)
    simp only [sizeofHeader]
    omega

theorem split_blocks_releasable : ∃ s,
    Run (Session.StepOn (fun g size r => Route.Roomy smallKernel.heap g size r ∧
        Route.Linking smallKernel.heap g size r) smallKernel.heap) smallKernel.start
      [.malloc 100, .free 0x80110010#32, .malloc 10, .malloc 10] s ∧
    s.live = [⟨0x80110030#32, 10⟩, ⟨0x80110010#32, 10⟩] ∧ ∀ x ∈ s.live, s.Releasable x.ptr := by
  have hr : (([.malloc 100, .free 0x80110010#32, .malloc 10, .malloc 10] : List Call).foldlM
      (Session.execOn (fun g size r => Route.Roomy smallKernel.heap g size r ∧
        Route.Linking smallKernel.heap g size r) smallKernel.heap 4) smallKernel.start).map
      Session.live = some [⟨0x80110030#32, 10⟩, ⟨0x80110010#32, 10⟩] := by
    decide +kernel
  obtain ⟨s, hrun, hl⟩ := Run.exists_of_foldlM (fun _ _ _ => stepOn_of_execOn) hr
  exact ⟨s, hrun, hl, live_blocks_releasable hrun⟩

theorem second_region_unlinked : ¬ ∀ (I : Image) (calls : List Call) (s : Session),
    Run (Session.Step I.heap) I.start calls s → ∀ x ∈ s.live, s.Releasable x.ptr := by
  intro h
  have hr : (([.malloc 1, .malloc 1] : List Call).foldlM
      (Session.advance smallKernel.heap 4) smallKernel.start).map
      (fun s => (s.live, s.heap.heapBottom, next s.heap.mem 0x80110000#32)) =
      some ([⟨0x80110021#32, 1⟩, ⟨0x80110010#32, 1⟩], 0x80110000#32, 0#32) := by
    decide +kernel
  obtain ⟨s, hrun, hl⟩ := Run.exists_of_foldlM (fun _ _ _ => step_of_advance) hr
  simp only [Prod.mk.injEq] at hl
  obtain ⟨hlive, hbottom, hnext⟩ := hl
  have hx : (⟨0x80110021#32, 1⟩ : Live) ∈ s.live := by
    rw [hlive]
    exact List.mem_cons_self
  obtain ⟨⟨xs, hc, hm⟩, -⟩ := h smallKernel _ s hrun _ hx
  have hone : Chain (next s.heap.mem) 0 s.heap.heapBottom [0x80110000#32] :=
    ⟨hbottom, by decide, hnext⟩
  rw [Chain.unique hc hone] at hm
  exact absurd hm (by decide)

end TinuOS.Umalloc
