import TinuOS.Interrupts.Dispatch
import TinuOS.Timer.Model

/-! The tick counter as the number of timer interrupts that were served. -/

namespace TinuOS.Interrupts

open Library Trap Timer

variable {H τ : Type*} {code : Code H (Clock × τ)} {layout : Layout} {timer : H}

structure Ticking (timer : H) (e : Env H (Clock × τ)) : Prop where
  here : e.interruptDescriptors 32 = some timer
  only : ∀ n, n ≠ 32 → e.interruptDescriptors n ≠ some timer

/-- What the rest of the kernel may do: it cannot name the counter. -/
def Keeps (timer : H) (g : Env H (Clock × τ) → Env H (Clock × τ)) : Prop :=
  ∀ e, Ticking timer e → Ticking timer (g e) ∧ (g e).state.1.tick = e.state.1.tick

structure Ticks (timer : H) (code : Code H (Clock × τ)) : Prop where
  callback : ∀ regs e, code timer regs e = { e with state := (timerCallback e.state.1, e.state.2) }
  keeps : ∀ h, h ≠ timer → ∀ regs, Keeps timer (code h regs)

variable {d u : Dispatcher H (Clock × τ)} {e : Event H (Clock × τ)} {n : Fin 16} {cpu : Cpu} {f : Frame}
  {as : List (Event H (Clock × τ))}

lemma Ticks.handle_zero (hc : Ticks timer code) {env : Env H (Clock × τ)} (ht : Ticking timer env) :
    Dispatcher.handle code env 0 cpu f = { env with state := (timerCallback env.state.1, env.state.2) } := by
  have hv : env.interruptDescriptors (lineVector 0) = some timer := ht.here
  rw [Dispatcher.handle, hv]
  exact hc.callback _ _

lemma Ticks.handle_other (hc : Ticks timer code) {env : Env H (Clock × τ)} (ht : Ticking timer env) (hn : n ≠ 0)
    (cpu : Cpu) (f : Frame) :
    Ticking timer (Dispatcher.handle code env n cpu f) ∧
      (Dispatcher.handle code env n cpu f).state.1.tick = env.state.1.tick := by
  have hv : ∀ n : Fin 16, n ≠ 0 → lineVector n ≠ 32 := by decide
  have hne := ht.only _ (hv n hn)
  unfold Dispatcher.handle
  cases hh : env.interruptDescriptors (lineVector n) with
  | none => exact ⟨ht, rfl⟩
  | some h =>
    rw [hh] at hne
    exact hc.keeps h (fun he => hne (congrArg some he)) _ env ht

lemma requests_interrupt (n : Fin 16) (cpu : Cpu) (f : Frame) :
    (requests [(.interrupt (lineVector n) cpu f : Event H (Clock × τ))]).count (.serve 0) =
      if n = 0 then 1 else 0 := by
  simp [requests, Event.request, Event.line_lineVector, List.count_singleton]

lemma Ticks.step (hc : Ticks timer code) (ht : Ticking timer d.env) (hw : ∀ g, e = .work g → Keeps timer g)
    (hs : Dispatcher.Step code d e u) : Ticking timer u.env ∧ u.env.state.1.tick =
      d.env.state.1.tick + BitVec.ofNat 32 ((requests [e]).count (.serve 0)) := by
  cases hs with
  | raise | withdraw => exact ⟨ht, (BitVec.add_zero _).symm⟩
  | @interrupt n hn hk cpu f =>
    rw [requests_interrupt]
    by_cases h0 : n = 0
    · subst h0
      simp only [hc.handle_zero ht]
      exact ⟨⟨ht.here, ht.only⟩, timerCallback_tick _⟩
    · rw [if_neg h0]
      obtain ⟨ht', hk'⟩ := hc.handle_other ht h0 _ f
      exact ⟨ht', hk'.trans (BitVec.add_zero _).symm⟩
  | late slave cpu f =>
    have hne : (if slave then (15 : Fin 16) else 7) ≠ 0 := by cases slave <;> decide
    obtain ⟨ht', hk'⟩ := hc.handle_other ht hne cpu f
    exact ⟨ht', hk'.trans (BitVec.add_zero _).symm⟩
  | work g =>
    obtain ⟨ht', hk'⟩ := hw g rfl d.env ht
    exact ⟨ht', hk'.trans (BitVec.add_zero _).symm⟩

lemma requests_cons (e : Event H (Clock × τ)) (as : List (Event H (Clock × τ))) :
    (requests (e :: as)).count (.serve 0) =
      (requests [e]).count (.serve 0) + (requests as).count (.serve 0) := by
  rw [← List.count_append, requests, requests, requests, ← List.filterMap_append, List.singleton_append]

lemma Ticks.run (hc : Ticks timer code) (ht : Ticking timer d.env) (hw : ∀ g, .work g ∈ as → Keeps timer g)
    (h : Run (Dispatcher.Step code) d as u) : u.env.state.1.tick =
      d.env.state.1.tick + BitVec.ofNat 32 ((requests as).count (.serve 0)) := by
  induction h with
  | nil => exact (BitVec.add_zero _).symm
  | @cons s v t e as hs _ ih =>
    obtain ⟨ht', hk⟩ := hc.step ht (fun g hg => hw g (hg ▸ List.mem_cons_self)) hs
    rw [ih ht' fun g hg => hw g (List.mem_cons_of_mem _ hg), hk, requests_cons e as, BitVec.ofNat_add,
      BitVec.add_assoc]

end TinuOS.Interrupts
