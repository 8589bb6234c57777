import TinuOS.Umalloc.Freeing
import TinuOS.Umalloc.Runs

/-! The loops of `malloc` and `free` end as long as every reused hole is large enough. -/

namespace TinuOS.Umalloc

open Library

namespace Session

def Acyclic (s : Session) : Prop :=
  ∃ xs, Chain (next s.heap.mem) 0 s.heap.heapBottom xs ∧ xs.Nodup

def Allowed (s : Session) : Call → Prop
  | .malloc _ => True
  | .free ap => ∃ x ∈ s.live, x.ptr = ap

def Terminates (heap : Addr) (s : Session) (c : Call) : Prop :=
  ∃ fuel r s', s.exec heap fuel c = some (r, s')

end Session

variable {I : Image} {s : Session} {bs : List Block} {limit fuel : ℕ} {calls : List Call}
  {heap ap : Addr} {size : BitVec 32} {h : Heap} {xs : List Addr}

lemma route_total (hc : Chain (next h.mem) 0 h.heapBottom xs) (size : BitVec 32) :
    ∃ r, route (xs.length + 1) h size = some r := by
  rw [route]
  split_ifs
  · exact ⟨_, rfl⟩
  · exact ⟨_, rfl⟩
  · exact ⟨_, rfl⟩
  · exact ⟨_, by rw [seek_chain hc, Option.map_some]⟩

lemma malloc_terminates (hc : Chain (next s.heap.mem) 0 s.heap.heapBottom xs) :
    s.Terminates heap (.malloc size) := by
  obtain ⟨r, hr⟩ := route_total hc size
  exact ⟨xs.length + 1, _, _, by rw [Session.exec, malloc_eq_route, hr, Option.map_some, Option.map_some]⟩

lemma Active.free_terminates (h : Active I s bs limit) (ap : Addr) :
    ∃ fuel out h', free fuel s.heap ap = some (out, h') := by
  have hl : Listed s.heap.mem s.heap.heapBottom bs := h.bottom ▸ h.listed
  refine ⟨bs.length + 1, ?_⟩
  by_cases ha : Accepted s.heap bs ap
  · obtain ⟨m', hc⟩ := h.coalesce_ends ha.1
    rw [free_accepted hl ha, hc]
    exact ⟨_, _, rfl⟩
  · obtain ⟨out, hf⟩ := free_refused hl ha
    exact ⟨out, _, hf⟩

theorem calls_terminate (h : Run (Session.StepOn (Route.Roomy I.heap) I.heap) I.start calls s) :
    s.Acyclic ∧ ∀ c, s.Allowed c → s.Terminates I.heap c := by
  have hstop : ∀ xs, s.live = [] → Chain (next s.heap.mem) 0 s.heap.heapBottom xs →
      s.Acyclic ∧ ∀ c, s.Allowed c → s.Terminates I.heap c := by
    intro xs hl hc
    refine ⟨⟨xs, hc, hc.nodup⟩, fun c ha => ?_⟩
    cases c with
    | malloc size => exact malloc_terminates hc
    | free ap =>
      obtain ⟨x, hx, -⟩ := ha
      simp [hl] at hx
  rcases phase_of_run h with rfl | rfl | ⟨bs, limit, ha⟩
  · exact hstop [] rfl rfl
  · refine hstop [I.heap] rfl ⟨rfl, I.heap_ne_null, dead_next⟩
  · refine ⟨⟨_, ha.chain, ha.chain.nodup⟩, fun c hallow => ?_⟩
    cases c with
    | malloc size => exact malloc_terminates ha.chain
    | free ap =>
      obtain ⟨x, hx, hxa⟩ := hallow
      obtain ⟨fuel, out, h', hf⟩ := ha.free_terminates ap
      refine ⟨fuel, ⟨0, out⟩, ⟨h', s.live.eraseP (·.ptr = ap)⟩, ?_⟩
      rw [Session.exec, if_pos (List.any_eq_true.mpr ⟨x, hx, decide_eq_true hxa⟩), hf, Option.map_some]

theorem calls_terminate_reused : ∃ s,
    Run (Session.StepOn (Route.Roomy smallKernel.heap) smallKernel.heap) smallKernel.start
      [.malloc 100, .malloc 1, .free 0x80110010#32, .malloc 10] s ∧
    s.live.map Live.ptr = [0x80110010#32, 0x801100a0#32] ∧
    s.Acyclic ∧ ∀ c, s.Allowed c → s.Terminates smallKernel.heap c := by
  have hr : (([.malloc 100, .malloc 1, .free 0x80110010#32, .malloc 10] : List Call).foldlM
      (Session.execOn (Route.Roomy smallKernel.heap) smallKernel.heap 4) smallKernel.start).map
      (·.live.map Live.ptr) = some [0x80110010#32, 0x801100a0#32] := by
    decide +kernel
  obtain ⟨s, hrun, hl⟩ := Run.exists_of_foldlM (fun _ _ _ => stepOn_of_execOn) hr
  exact ⟨s, hrun, hl, calls_terminate hrun⟩

theorem list_becomes_cyclic : ¬ ∀ (I : Image) (calls : List Call) (s : Session),
    Run (Session.Step I.heap) I.start calls s →
      s.Acyclic ∧ ∀ c, s.Allowed c → s.Terminates I.heap c := by
  intro h
  have hr : (([.malloc 1, .free 0x80110010#32, .malloc 1, .malloc 1, .free 0x80110010#32,
      .malloc 1] : List Call).foldlM (Session.advance smallKernel.heap 4) smallKernel.start).map
      (fun s => (s.heap.heapBottom, next s.heap.mem 0x80110000#32, next s.heap.mem 0x80110011#32)) =
      some (0x80110000#32, 0x80110011#32, 0x80110011#32) := by
    decide +kernel
  obtain ⟨s, hrun, hl⟩ := Run.exists_of_foldlM (fun _ _ _ => step_of_advance) hr
  simp only [Prod.mk.injEq] at hl
  obtain ⟨hbottom, hfirst, hsecond⟩ := hl
  obtain ⟨⟨xs, hc, -⟩, -⟩ := h smallKernel _ s hrun
  rw [hbottom] at hc
  obtain ⟨ys, rfl⟩ := hc.exists_cons (by decide)
  have ht := hc.2.2
  rw [hfirst] at ht
  obtain ⟨zs, rfl⟩ := Chain.exists_cons ht (by decide)
  exact Chain.next_ne hc (by simp) hsecond

end TinuOS.Umalloc
