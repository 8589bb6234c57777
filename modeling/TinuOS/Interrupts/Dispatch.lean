import TinuOS.Interrupts.Model
import TinuOS.Library.Requests
import TinuOS.Trap.Registers

/-! From `gdt` and `idt` on, the kernel serves the most urgent request there is, by the handler of its
line, whatever comes in what order. -/

namespace TinuOS.Interrupts

open Library Trap

variable {H σ : Type*} {code : Code H σ} {layout : Layout}

def lineVector (n : Fin 16) : BitVec 8 := 32 + BitVec.ofNat 8 n

structure Dispatcher (H σ : Type*) where
  pending : Set (Fin 16)
  env : Env H σ

namespace Dispatcher

def handle (code : Code H σ) (env : Env H σ) (n : Fin 16) (cpu : Cpu) (f : Frame) : Env H σ :=
  match env.interruptDescriptors (lineVector n) with
  | some handler => code handler (savedRegs (.irq n) f cpu) env
  | none => env

inductive Step (code : Code H σ) : Dispatcher H σ → Event H σ → Dispatcher H σ → Prop
  | raise (d : Dispatcher H σ) {n : Fin 16} (hn : n ≠ 2) :
    Step code d (.raise n) { d with pending := insert n d.pending }
  | withdraw (d : Dispatcher H σ) {n : Fin 16} (hn : n ≠ 2) :
    Step code d (.withdraw n) { d with pending := d.pending \ {n} }
  | interrupt {d : Dispatcher H σ} {n : Fin 16} (hn : n ∈ d.pending)
      (hk : ∀ k ∈ d.pending, Pics.urgency n ≤ Pics.urgency k) (cpu : Cpu) (f : Frame) :
    Step code d (.interrupt (lineVector n) cpu f) ⟨d.pending \ {n}, handle code d.env n cpu f⟩
  | late (d : Dispatcher H σ) (slave : Bool) (cpu : Cpu) (f : Frame) :
    Step code d (.late slave cpu f) { d with env := handle code d.env (if slave then 15 else 7) cpu f }
  | work (d : Dispatcher H σ) (g : Env H σ → Env H σ) : Step code d (.work g) { d with env := g d.env }

end Dispatcher

structure Ready (layout : Layout) (m : Machine H σ) (d : Dispatcher H σ) : Prop where
  gp : ∃ gp, m.gp = gdt gp
  id : m.id = idtEntries layout.stub
  pics : ∃ q, m.pics = .idle q ∧ q 2 = false ∧ ∀ n, n ∈ d.pending ↔ q n = true
  env : m.env = d.env

variable {m t : Machine H σ} {d : Dispatcher H σ} {n : Fin 16} {i : Option (Fin 8)} {cpu : Cpu} {f : Frame}
  {e : Event H σ} {q : Fin 16 → Bool}

lemma boot_ready (layout : Layout) (m : Machine H σ) :
    Ready layout (m.boot layout) ⟨∅, { m.env with interruptDescriptors := fun _ => none }⟩ :=
  ⟨⟨m.gp, rfl⟩, rfl, ⟨_, Pics.irqRemap_eq m.pics, rfl, fun _ => by simp⟩, rfl⟩

lemma irq_not_bare (n : Fin 16) : (Interrupt.irq n).vector ∉ bareVectors := by
  have h : ∀ n : Fin 16, 32 + n.val ∉ bareVectors := by decide
  exact h n

lemma callHandler_irq (env : Env H σ) (n : Fin 16) (cpu : Cpu) (f : Frame) :
    callHandler code env (savedRegs (.irq n) f cpu) = Dispatcher.handle code env n cpu f := by
  have hv : ∀ n : Fin 16, (BitVec.ofNat 32 (32 + n.val)).setWidth 8 = lineVector n := by decide
  have hn : (savedRegs (.irq n) f cpu).intNo.setWidth 8 = lineVector n := hv n
  rw [callHandler, hn]
  unfold Dispatcher.handle
  cases env.interruptDescriptors (lineVector n) <;> rfl

lemma take_eq (h : Ready layout m d) (hv : (m.pics.acknowledge i).1 = lineVector n) :
    m.take code layout i cpu f = some (lineVector n,
      { m with pics := (m.pics.serve i).2, env := Dispatcher.handle code m.env n cpu f }) := by
  obtain ⟨gp, hgp⟩ := h.gp
  have hentry : (entry m.id m.gp (lineVector n)).bind layout.stubOf = some (.irq n) := by
    rw [hgp, h.id]
    exact (congrArg (Option.bind · layout.stubOf) (entry_irq layout.stub gp n)).trans (layout.stubAt _)
  have hno : ∀ n : Fin 16, BitVec.ofNat 32 (32 + n.val) = (lineVector n).setWidth 32 := by decide
  have hserve : (m.pics.serve i).2 =
      (m.pics.acknowledge i).2.endOfInterrupt (savedRegs (.irq n) f cpu).intNo := by
    have hint : (savedRegs (.irq n) f cpu).intNo = (lineVector n).setWidth 32 := hno n
    rw [hint, ← hv]
    rfl
  have hpair : m.pics.acknowledge i = (lineVector n, (m.pics.acknowledge i).2) := Prod.ext hv rfl
  rw [Machine.take, hpair]
  simp only [hentry, hserve, irqHandler, trap_regs (irq_not_bare n), callHandler_irq]

lemma Ready.served (h : Ready layout m d) (hq : q 2 = false) (hp : ∀ k, k ∈ d.pending ↔ q k = true)
    (hn : n ≠ 2) : Ready layout { m with
        pics := .idle (Function.update q n false), env := Dispatcher.handle code m.env n cpu f }
      ⟨d.pending \ {n}, Dispatcher.handle code d.env n cpu f⟩ := by
  refine ⟨h.gp, h.id, ⟨_, rfl, ?_, fun k => ?_⟩, by rw [h.env]⟩
  · rw [Function.update_of_ne hn.symm]
    exact hq
  · rw [Set.mem_sdiff, Set.mem_singleton_iff, hp, Function.update_apply]
    split_ifs with hk <;> simp [hk]

variable (code cpu f)

lemma Ready.late (h : Ready layout m d) (hs : m.pics.serve i = (lineVector n, m.pics)) :
    ∃ t, m.take code layout i cpu f = some (lineVector n, t) ∧
      Ready layout t { d with env := Dispatcher.handle code d.env n cpu f } := by
  have hv : (m.pics.acknowledge i).1 = lineVector n := congrArg Prod.fst hs
  refine ⟨_, take_eq h hv, h.gp, h.id, ?_, by rw [h.env]⟩
  rw [hs]
  exact h.pics

lemma Ready.interrupt (h : Ready layout m d) {i : Fin 8} (hi : m.pics.selected = some i) :
    ∃ n t, n ∈ d.pending ∧ (∀ k ∈ d.pending, Pics.urgency n ≤ Pics.urgency k) ∧
      m.take code layout (some i) cpu f = some (lineVector n, t) ∧
      Ready layout t ⟨d.pending \ {n}, Dispatcher.handle code d.env n cpu f⟩ := by
  obtain ⟨q, hpics, hq, hp⟩ := h.pics
  obtain ⟨n, hn, hqn, hmin, hserve⟩ := Pics.serve_selected hq (hpics ▸ hi)
  rw [← hpics] at hserve
  have hv : (m.pics.acknowledge (some i)).1 = lineVector n := congrArg Prod.fst hserve
  refine ⟨n, _, (hp n).mpr hqn, fun k hk => hmin k ((hp k).mp hk), take_eq h hv, ?_⟩
  rw [hserve]
  exact h.served hq hp hn

variable {code cpu f}

lemma Ready.set (h : Ready layout m d) (hn : n ≠ 2) (b : Bool) :
    Ready layout { m with pics := m.pics.set n b }
      { d with pending := if b then insert n d.pending else d.pending \ {n} } := by
  obtain ⟨q, hpics, hq, hp⟩ := h.pics
  refine ⟨h.gp, h.id, ⟨Function.update q n b, ?_, ?_, fun k => ?_⟩, h.env⟩
  · rw [hpics, Pics.idle_set]
  · rw [Function.update_of_ne hn.symm]
    exact hq
  · by_cases hk : k = n
    · rw [hk, Function.update_self]
      cases b <;> simp
    · rw [Function.update_of_ne hk, ← hp]
      cases b <;> simp [hk]

lemma Ready.step (h : Ready layout m d) (hs : m.Step code layout e t) :
    ∃ u, Dispatcher.Step code d e u ∧ Ready layout t u := by
  obtain ⟨q, hpics, hq, hp⟩ := h.pics
  cases hs with
  | raise hn => exact ⟨_, .raise d hn, h.set hn true⟩
  | withdraw hn => exact ⟨_, .withdraw d hn, h.set hn false⟩
  | interrupt hi hc ht =>
    obtain ⟨n, u, hmem, hmin, hu, hr⟩ := h.interrupt code _ _ hi
    obtain ⟨rfl, rfl⟩ := Prod.mk.inj (Option.some.inj (hu.symm.trans ht))
    exact ⟨_, .interrupt hmem hmin _ _, hr⟩
  | lateMaster hi hc ht =>
    obtain ⟨u, hu, hr⟩ := h.late code _ _ (n := 7) (i := none)
      (by rw [hpics]; exact Pics.serve_none q)
    obtain ⟨rfl, rfl⟩ := Prod.mk.inj (Option.some.inj (hu.symm.trans ht))
    exact ⟨_, .late d false _ _, hr⟩
  | lateSlave hi hsel hc ht =>
    have hslave : Chip.first (fun j => q (Pics.high j)) = none := by
      rw [hpics] at hi
      exact Chip.idle_request.symm.trans hi
    obtain ⟨u, hu, hr⟩ := h.late code _ _ (n := 15) (i := some 2)
      (by rw [hpics]; exact Pics.serve_late hslave hq)
    obtain ⟨rfl, rfl⟩ := Prod.mk.inj (Option.some.inj (hu.symm.trans ht))
    exact ⟨_, .late d true _ _, hr⟩
  | work g => exact ⟨_, .work d g, h.gp, h.id, h.pics, congrArg g h.env⟩

lemma Ready.enabled_iff (h : Ready layout m d) (code : Code H σ) (f : Frame) (hc : cpu.intr = true) :
    (∃ v t, m.Step code layout (.interrupt v cpu f) t) ↔ d.pending.Nonempty := by
  obtain ⟨q, hpics, hq, hp⟩ := h.pics
  constructor
  · rintro ⟨v, t, hs⟩
    cases hs with
    | interrupt hi _ _ =>
      obtain ⟨n, _, hn, -⟩ := h.interrupt code cpu f hi
      exact ⟨n, hn⟩
  · rintro ⟨n, hn⟩
    have hsome : m.pics.selected ≠ none := by
      rw [hpics]
      intro hnone
      have hf := (Pics.selected_eq_none hq).mp hnone n
      exact Bool.false_ne_true (hf.symm.trans ((hp n).mp hn))
    obtain ⟨i, hi⟩ := Option.ne_none_iff_exists'.mp hsome
    obtain ⟨k, t, -, -, ht, -⟩ := h.interrupt code cpu f hi
    exact ⟨lineVector k, t, .interrupt hi hc ht⟩

lemma Ready.nothing_in_service (h : Ready layout m d) (i : Fin 8) :
    m.pics.master.isr i = false ∧ m.pics.slave.isr i = false := by
  obtain ⟨q, hpics, -⟩ := h.pics
  rw [hpics]
  exact ⟨rfl, rfl⟩

lemma Ready.run {as : List (Event H σ)} (h : Ready layout m d) (hr : Run (Machine.Step code layout) m as t) :
    ∃ u, Run (Dispatcher.Step code) d as u ∧ Ready layout t u :=
  hr.simulation (fun _ _ _ _ hu hs => hu.step hs) h

lemma Ready.exists_interrupt (h : Ready layout m d) (code : Code H σ) (f : Frame) (hd : d.pending = {n})
    (hc : cpu.intr = true) :
    ∃ t, m.Step code layout (.interrupt (lineVector n) cpu f) t := by
  obtain ⟨v, t, hs⟩ := (h.enabled_iff code f hc).mpr (hd ▸ Set.singleton_nonempty n)
  obtain ⟨u, hu, -⟩ := h.step hs
  cases hu with
  | @interrupt k hk hmin =>
    rw [hd, Set.mem_singleton_iff] at hk
    exact ⟨t, hk ▸ hs⟩

lemma Ready.serves (h : Ready layout m d) (hd : d.pending = ∅) (code : Code H σ) (f : Frame) (hn : n ≠ 2)
    (hc : cpu.intr = true) :
    ∃ t, Run (Machine.Step code layout) m [.raise n, .interrupt (lineVector n) cpu f] t := by
  have hone : insert n d.pending = {n} := by rw [hd, insert_empty_eq]
  obtain ⟨t, ht⟩ := (h.set hn true).exists_interrupt code f (n := n) hone hc
  exact ⟨t, .cons (.raise _ hn) (.cons ht (.nil t))⟩

def initially (m : Machine H σ) : Dispatcher H σ := ⟨∅, { m.env with interruptDescriptors := fun _ => none }⟩

theorem interrupts_dispatched {as : List (Event H σ)}
    (h : Run (Machine.Step code layout) (m.boot layout) as t) :
    ∃ d, Run (Dispatcher.Step code) (initially m) as d ∧ t.env = d.env ∧
      (∀ i, t.pics.master.isr i = false ∧ t.pics.slave.isr i = false) ∧
      ∀ cpu f, cpu.intr = true →
        ((∃ v u, t.Step code layout (.interrupt v cpu f) u) ↔ d.pending.Nonempty) := by
  obtain ⟨d, hd, hr⟩ := (boot_ready _ m).run h
  exact ⟨d, hd, hr.env, hr.nothing_in_service, fun _ f => hr.enabled_iff code f⟩

def spacedLayout : Layout where
  stub i := 0x80100000 + BitVec.ofNat 32 (16 * i.vector)
  stubOf a :=
    let k := (a - 0x80100000).toNat / 16
    if h : k < 32 then some (.exception ⟨k, h⟩)
    else if h : k - 32 < 16 then some (.irq ⟨k - 32, h⟩)
    else none
  stubAt i := by
    cases i with
    | exception n =>
      revert n
      decide
    | irq n =>
      revert n
      decide
  ret := 0x80100400

def countCalls : Code Unit ℕ := fun _ _ e => { e with state := e.state + 1 }

def unset : Chip := ⟨.icw4, 0x13, 0x08, 0, 0, fun _ => true, fun _ => true, fun _ => true⟩

def fromLoader : Machine Unit ℕ :=
  ⟨fun _ => ⟨0, 0, 0, 0, 0, 0⟩, fun _ => ⟨0, 0, 0, 0, 0⟩, ⟨unset, unset⟩, ⟨fun _ => some (), 0⟩⟩

theorem interrupts_dispatched_keyboard : ∃ t,
    Run (Machine.Step countCalls spacedLayout) (fromLoader.boot spacedLayout)
      [.raise 1, .interrupt 33 kernelMode ⟨0x80100200, 8, 0x202, 0⟩] t ∧
    ∃ d, Run (Dispatcher.Step countCalls) (initially fromLoader)
        [.raise 1, .interrupt 33 kernelMode ⟨0x80100200, 8, 0x202, 0⟩] d ∧ t.env = d.env ∧
      (∀ i, t.pics.master.isr i = false ∧ t.pics.slave.isr i = false) ∧
      ∀ cpu f, cpu.intr = true →
        ((∃ v u, t.Step countCalls spacedLayout (.interrupt v cpu f) u) ↔ d.pending.Nonempty) := by
  obtain ⟨t, ht⟩ := (boot_ready spacedLayout fromLoader).serves rfl countCalls ⟨0x80100200, 8, 0x202, 0⟩
    (n := 1) (by decide) (rfl : kernelMode.intr = true)
  exact ⟨t, ht, interrupts_dispatched ht⟩

namespace Event

def line (v : BitVec 8) : Fin 16 := ⟨v.toNat % 16, by omega⟩

def request : Event H σ → Option (Request (Fin 16))
  | raise n => some (.raise n)
  | withdraw n => some (.withdraw n)
  | interrupt v _ _ => some (.serve (line v))
  | late _ _ _ | work _ => none

lemma line_lineVector (n : Fin 16) : line (lineVector n) = n := by
  have h : ∀ n : Fin 16, line (lineVector n) = n := by decide
  exact h n

end Event

def requests (as : List (Event H σ)) : List (Request (Fin 16)) := as.filterMap Event.request

lemma Dispatcher.Step.seen {u : Dispatcher H σ} {b : Request (Fin 16)} (hb : e.request = some b)
    (hs : Dispatcher.Step code d e u) : Request.Step Pics.urgency d.pending b u.pending := by
  cases hs with
  | raise hn =>
    obtain rfl := Option.some.inj hb
    exact .raise _ _
  | withdraw hn =>
    obtain rfl := Option.some.inj hb
    exact .withdraw _ _
  | interrupt hn hk cpu f =>
    obtain rfl := Option.some.inj hb
    rw [Event.line_lineVector]
    exact .serve hn hk
  | late | work => exact absurd hb (Option.some_ne_none b).symm

lemma Dispatcher.Step.unseen {u : Dispatcher H σ} (he : e.request = none)
    (hs : Dispatcher.Step code d e u) : u.pending = d.pending := by
  cases hs with
  | raise | withdraw | interrupt => exact absurd he (Option.some_ne_none _)
  | late | work => rfl

lemma Dispatcher.requests_run {u : Dispatcher H σ} {as : List (Event H σ)}
    (h : Run (Dispatcher.Step code) d as u) :
    Run (Request.Step Pics.urgency) d.pending (requests as) u.pending := by
  obtain ⟨s, hs, he⟩ := Run.simulation_filterMap (R := fun (d : Dispatcher H σ) s => d.pending = s)
    (fun _ _ _ u _ hb hd hs => ⟨u.pending, hd ▸ hs.seen hb, rfl⟩)
    (fun _ _ _ _ hb hd hs => (hs.unseen hb).trans hd) h rfl
  rw [he]
  exact hs

lemma Ready.latched (h : Ready layout m d) (n : Fin 16) : n ∈ d.pending ↔ m.pics.latched n = true := by
  obtain ⟨q, hpics, -, hp⟩ := h.pics
  rw [hp, hpics, Pics.idle_latched]

theorem interrupts_conserved {as : List (Event H σ)} (n : Fin 16)
    (h : Run (Machine.Step code layout) (m.boot layout) as t) :
    (requests as).count (.serve n) + (if t.pics.latched n then 1 else 0) ≤ (requests as).count (.raise n) ∧
    ∀ pre post, as = pre ++ .raise n :: post → .withdraw n ∉ requests post → .serve n ∉ requests post →
      t.pics.latched n = true ∧ ∀ k, .serve k ∈ requests post → Pics.urgency k ≤ Pics.urgency n := by
  obtain ⟨d, hd, hr⟩ := (boot_ready _ m).run h
  constructor
  · have hle := Request.served_le_raised (Dispatcher.requests_run hd) n
    rw [Request.waiting_of_notMem (Set.notMem_empty n)] at hle
    by_cases hn : t.pics.latched n = true
    · rw [Request.waiting_of_mem ((hr.latched n).mpr hn)] at hle
      rw [if_pos hn]
      exact hle
    · rw [if_neg hn]
      omega
  · rintro pre post rfl hw hs
    obtain ⟨u, -, hu⟩ := Run.append_iff.mp hd
    cases hu with
    | cons hraise hpost =>
      cases hraise with
      | raise hn =>
        obtain ⟨hmem, hk⟩ := Request.waits (Dispatcher.requests_run hpost) (Set.mem_insert n _) hw hs
        exact ⟨(hr.latched n).mp hmem, hk⟩

theorem interrupts_conserved_keyboard : ∃ t,
    Run (Machine.Step countCalls spacedLayout) (fromLoader.boot spacedLayout)
      [.raise 1, .interrupt 33 kernelMode ⟨0x80100200, 8, 0x202, 0⟩] t ∧
    (requests [(.raise 1 : Event Unit ℕ), .interrupt 33 kernelMode ⟨0x80100200, 8, 0x202, 0⟩]).count (.serve 1) +
        (if t.pics.latched 1 then 1 else 0) ≤
      (requests [(.raise 1 : Event Unit ℕ), .interrupt 33 kernelMode ⟨0x80100200, 8, 0x202, 0⟩]).count (.raise 1) := by
  obtain ⟨t, ht⟩ := (boot_ready spacedLayout fromLoader).serves rfl countCalls ⟨0x80100200, 8, 0x202, 0⟩
    (n := 1) (by decide) (rfl : kernelMode.intr = true)
  exact ⟨t, ht, (interrupts_conserved 1 ht).1⟩

end TinuOS.Interrupts
