import TinuOS.Kmem.Session
import TinuOS.Kmem.Shared

/-! Calls that follow one another, from any processors: the steps of a processor that nobody disturbs
give what `kalloc` and `kfree` compute, with the lock in use or not. -/

namespace TinuOS.Kmem

open Library Mem

variable {C : Type*} [DecidableEq C] {s t u : Shared C} {c d : C} {w : Where} {p : Addr} {i : ℕ}
  {x : Spinlock.System C}

lemma goto_pos : (s.goto c w).pos c = w := by
  simp [Shared.goto]

@[simp] lemma goto_goto {w' : Where} : (s.goto c w).goto c w' = s.goto c w' := by
  simp only [Shared.goto, Function.update_idem]

def Works (s : Shared C) (c : C) (t : Shared C) : Prop :=
  ∃ n, Run Shared.Step s (List.replicate n (c, .work)) t

namespace Works

lemma tick (h : s.tick c = some t) : Works s c t := ⟨1, .cons (.tick h) (.nil t)⟩

lemma trans (hs : Works s c t) (ht : Works t c u) : Works s c u := by
  obtain ⟨m, hm⟩ := hs
  obtain ⟨n, hn⟩ := ht
  refine ⟨m + n, ?_⟩
  rw [← List.replicate_append_replicate]
  exact Run.append_iff.mpr ⟨t, hm, hn⟩

end Works

structure Quiet (x : Spinlock.System C) : Prop where
  idle : ∀ c, x.pc c = .idle
  unlocked : x.lk.locked = 0

def Entered (useLock : BitVec 32) (x : Spinlock.System C) (c : C) : Prop :=
  useLock = 0 ∧ Quiet x ∨ useLock ≠ 0 ∧ x.pc c = .critical ∧ ∀ d, d ≠ c → x.pc d = .idle

lemma next_lockAct {a : Spinlock.Act} {y : Spinlock.System C} (h : x.next c a = some y) :
    a = lockAct (x.pc c) := by
  unfold Spinlock.System.next at h
  cases a <;> cases hp : x.pc c <;> simp only [hp, reduceCtorEq] at h <;> rfl

lemma works_lock (stop : Spinlock.Pc) {acts : List (C × Spinlock.Act)}
    (hacts : ∀ a ∈ acts, a.1 = c ∧ a.2 ≠ lockAct stop)
    (htick : ∀ y : Spinlock.System C, y.pc c ≠ stop →
      ({ s with sys := y } : Shared C).tick c = ({ s with sys := y } : Shared C).lockStep c)
    (hr : Run Spinlock.System.Step s.sys acts x) : Works s c { s with sys := x } := by
  induction acts generalizing s with
  | nil =>
    cases hr
    exact ⟨0, .nil s⟩
  | cons a acts ih =>
    cases hr with
    | @cons _ y _ _ _ hy hr =>
      obtain ⟨⟨hc, hstop⟩, hacts⟩ := List.forall_mem_cons.mp hacts
      replace hy : s.sys.next c a.2 = some y := hc ▸ hy
      have ha := next_lockAct hy
      have hlock : s.lockStep c = some { s with sys := y } := by
        rw [Shared.lockStep, ← ha, hy]
        rfl
      have hpc : s.sys.pc c ≠ stop := fun h => hstop (by rw [ha, h])
      have hone : Works s c { s with sys := y } := .tick ((htick s.sys hpc).trans hlock)
      exact hone.trans (ih (s := { s with sys := y }) hacts htick hr)

lemma works_enter {v : Where} (hq : Quiet s.sys)
    (ht : ∀ y, ({ s with sys := y }.goto c w).tick c = ({ s with sys := y }.goto c w).enter c v) :
    ∃ x, Works (s.goto c w) c ({ s with sys := x }.goto c v) ∧ Entered s.useLock x c := by
  have hin : ∀ y, s.useLock = 0 ∨ y.pc c = .critical →
      ({ s with sys := y }.goto c w).tick c = some ({ s with sys := y }.goto c v) := by
    intro y hy
    exact (ht y).trans ((if_pos hy).trans (congrArg some goto_goto))
  by_cases hl : s.useLock = 0
  · exact ⟨s.sys, .tick (hin s.sys (Or.inl hl)), Or.inl ⟨hl, hq⟩⟩
  · have hfree : ((s.sys.view c).lock ()).locked = 0 := hq.unlocked
    obtain ⟨σ, hσ⟩ := Spinlock.exists_acquire hfree
    have hrun := Spinlock.run_acquire (hq.idle c) hσ
    have hlock : Works (s.goto c w) c ({ s with sys := s.sys.put c σ .critical }.goto c w) := by
      refine works_lock .critical (by simp [lockAct]) (fun y hy => ?_) hrun
      exact (ht y).trans (if_neg (not_or.mpr ⟨hl, hy⟩))
    refine ⟨s.sys.put c σ .critical, hlock.trans (.tick (hin _ (Or.inr ?_))), Or.inr ⟨hl, ?_, fun d hd => ?_⟩⟩
    · simp
    · simp
    · rw [Spinlock.put_pc, Function.update_of_ne hd]
      exact hq.idle d

lemma works_leave {v : Where} (he : Entered s.useLock s.sys c)
    (ht : ∀ y, ({ s with sys := y }.goto c w).tick c = ({ s with sys := y }.goto c w).leave c v) :
    ∃ x, Works (s.goto c w) c ({ s with sys := x }.goto c v) ∧ Quiet x := by
  have hout : ∀ y, s.useLock = 0 ∨ y.pc c = .idle →
      ({ s with sys := y }.goto c w).tick c = some ({ s with sys := y }.goto c v) := by
    intro y hy
    exact (ht y).trans ((if_pos hy).trans (congrArg some goto_goto))
  obtain ⟨hl, hq⟩ | ⟨hl, hc, hothers⟩ := he
  · exact ⟨s.sys, .tick (hout s.sys (Or.inl hl)), hq⟩
  · let σ := Spinlock.release (s.sys.view c) ()
    have hrun := Spinlock.run_release hc
    have hlock : Works (s.goto c w) c ({ s with sys := s.sys.put c σ .idle }.goto c w) := by
      refine works_lock .idle (by simp [lockAct]) (fun y hy => ?_) hrun
      exact (ht y).trans (if_neg (not_or.mpr ⟨hl, hy⟩))
    refine ⟨s.sys.put c σ .idle, hlock.trans (.tick (hout _ (Or.inr ?_))), fun d => ?_, ?_⟩
    · simp
    · rw [Spinlock.put_pc, Function.update_apply]
      split_ifs with hd
      · rfl
      · exact hothers d hd
    · rw [Spinlock.put_lk, Spinlock.release_lock, Function.update_self]

def filling (s : Shared C) (c : C) (p : Addr) (i : ℕ) : Shared C :=
  { s with machine.mem := s.machine.mem.fill p 1 i }.goto c (.fill p i)

lemma filling_step (hi : i < pageSize) : (filling s c p i).tick c = some (filling s c p (i + 1)) := by
  have hpos : (filling s c p i).pos c = .fill p i := goto_pos
  have hmem := fill_succ (m := s.machine.mem) (a := p) 1 (hi.trans (by decide))
  simp only [Shared.tick, hpos, if_pos hi]
  simp only [filling, Shared.goto, Function.update_idem, hmem]

lemma works_fill (h : i ≤ pageSize) : Works (filling s c p 0) c (filling s c p i) := by
  induction i with
  | zero => exact ⟨0, .nil _⟩
  | succ i ih => exact (ih (by omega)).trans (.tick (filling_step (by omega)))

lemma works_push : Works (s.goto c (.freeLink p)) c ({ s with machine := { s.machine with
    mem := s.machine.mem.store32 p s.machine.freelist, freelist := p } }.goto c .freeLeave) := by
  have hlink : (s.goto c (.freeLink p)).tick c = some (s.goto c (.freeStore p s.machine.freelist)) := by
    simp only [Shared.tick, goto_pos]
    exact congrArg some goto_goto
  let s₁ : Shared C := { s with machine.mem := s.machine.mem.store32 p s.machine.freelist }
  have hstore : (s.goto c (.freeStore p s.machine.freelist)).tick c = some (s₁.goto c (.freeHead p)) := by
    simp only [Shared.tick, goto_pos]
    exact congrArg some (goto_goto (s := s₁))
  let s₂ : Shared C := { s₁ with machine.freelist := p }
  have hhead : (s₁.goto c (.freeHead p)).tick c = some (s₂.goto c .freeLeave) := by
    simp only [Shared.tick, goto_pos]
    exact congrArg some (goto_goto (s := s₂))
  exact (Works.tick hlink).trans ((Works.tick hstore).trans (.tick hhead))

def Machine.rest (m : Machine) : Addr := if m.freelist = 0 then 0 else m.mem.load32 m.freelist

lemma tick_allocRead (h0 : s.machine.freelist ≠ 0) :
    (s.goto c .allocRead).tick c = some (s.goto c (.allocNext s.machine.freelist)) := by
  simp only [Shared.tick, goto_pos, goto_goto]
  exact congrArg (fun w => some (s.goto c w)) (if_pos h0)

lemma tick_allocNext {r : Addr} : (s.goto c (.allocNext r)).tick c =
    some (s.goto c (.allocHead r (s.machine.mem.load32 r))) := by
  simp only [Shared.tick, goto_pos, goto_goto]
  rfl

lemma works_pop : Works (s.goto c .allocRead) c
    ({ s with machine.freelist := s.machine.rest }.goto c (.allocLeave s.machine.freelist)) := by
  by_cases h0 : s.machine.freelist = 0
  · have hread : (s.goto c .allocRead).tick c = some (s.goto c (.allocLeave s.machine.freelist)) := by
      simp only [Shared.tick, goto_pos, goto_goto]
      exact congrArg (fun w => some (s.goto c w)) (if_neg (not_not.mpr h0))
    have hsame : { s with machine.freelist := 0 } = s := by rw [← h0]
    rw [Machine.rest, if_pos h0, hsame]
    exact .tick hread
  · let s₁ : Shared C := { s with machine.freelist := s.machine.mem.load32 s.machine.freelist }
    have hhead : (s.goto c (.allocHead s.machine.freelist (s.machine.mem.load32 s.machine.freelist))).tick c =
        some (s₁.goto c (.allocLeave s.machine.freelist)) := by
      simp only [Shared.tick, goto_pos]
      exact congrArg some (goto_goto (s := s₁))
    rw [Machine.rest, if_neg h0]
    exact (Works.tick (tick_allocRead h0)).trans ((Works.tick tick_allocNext).trans (.tick hhead))

structure Resting (s : Shared C) : Prop where
  pos : ∀ c, s.pos c = .client
  lock : Quiet s.sys

lemma Resting.goto (h : Resting s) (hx : Quiet x) {m : Machine} {held : List Addr} :
    Resting ({ s with sys := x, machine := m, held := held }.goto c .client) := by
  refine ⟨fun d => ?_, hx⟩
  by_cases hd : d = c
  · rw [hd]
    exact goto_pos
  · exact (Function.update_of_ne hd _ _).trans (h.pos d)

lemma kalloc_machine (m : Machine) :
    (kalloc m).2 = ({ m with freelist := m.rest } : Machine).emit (.kalloc m.freelist) := by
  by_cases h0 : m.freelist = 0
  · rw [kalloc, if_neg (not_not.mpr h0), Machine.rest, if_pos h0, ← h0]
  · rw [kalloc, if_pos h0, Machine.rest, if_neg h0]
    rfl

lemma run_kalloc (c : C) (h : Resting s) : ∃ n t, Run Shared.Step s ((c, .callAlloc) ::
      (List.replicate n (c, .work) ++ [(c, .retAlloc (pointer (kalloc s.machine).1))])) t ∧
    Resting t ∧ t.machine = (kalloc s.machine).2 ∧ t.held = (pointer (kalloc s.machine).1).toList ++ s.held := by
  let r := s.machine.freelist
  let m : Machine := { s.machine with freelist := s.machine.rest }
  have hcall : s.Step (c, .callAlloc) (s.goto c .allocEnter) := .callAlloc (h.pos c)
  obtain ⟨x, henter, hx⟩ := works_enter (s := s) (c := c) (w := .allocEnter) (v := .allocRead) h.lock
    fun y => by simp only [Shared.tick, goto_pos]
  have hpop : Works ({ s with sys := x }.goto c .allocRead) c
      ({ s with sys := x, machine := m }.goto c (.allocLeave r)) := works_pop
  obtain ⟨y, hleave, hy⟩ := works_leave (s := { s with sys := x, machine := m }) (c := c) (w := .allocLeave r)
    (v := .allocDone r) hx fun y => by simp only [Shared.tick, goto_pos]
  have hret := Shared.Step.retAlloc (s := { s with sys := y, machine := m }.goto c (.allocDone r)) (c := c)
    (r := r) goto_pos
  obtain ⟨n, hn⟩ := henter.trans (hpop.trans hleave)
  refine ⟨n, _, .cons hcall (hn.snoc hret), ?_, (kalloc_machine s.machine).symm, rfl⟩
  rw [goto_goto]
  exact h.goto hy

lemma run_kfree (h : Resting s) (hp : p ∈ s.held) : ∃ n t, Run Shared.Step s ((c, .callFree p) ::
      (List.replicate n (c, .work) ++ [(c, .retFree)])) t ∧
    Resting t ∧ t.machine = kfree s.machine p ∧ t.held = s.held.erase p := by
  let s₁ : Shared C := { s with machine := Shared.warned s.machine p, held := s.held.erase p }
  have hcall : s.Step (c, .callFree p) (s₁.goto c (.fill p 0)) := .callFree (h.pos c) hp
  have hzero : filling s₁ c p 0 = s₁.goto c (.fill p 0) := rfl
  have hfill : Works (filling s₁ c p 0) c (filling s₁ c p pageSize) := works_fill le_rfl
  let s₂ : Shared C := { s₁ with machine.mem := s₁.machine.mem.fill p 1 pageSize }
  have hfilled : (s₂.goto c (.fill p pageSize)).tick c = some (s₂.goto c (.freeEnter p)) := by
    simp only [Shared.tick, goto_pos]
    exact (if_neg (Nat.lt_irrefl _)).trans (congrArg some goto_goto)
  obtain ⟨x, henter, hx⟩ := works_enter (s := s₂) (c := c) (w := .freeEnter p) (v := .freeLink p) h.lock
    fun y => by simp only [Shared.tick, goto_pos]
  have hpush := works_push (s := { s₂ with sys := x }) (c := c) (p := p)
  let m : Machine := { s₂.machine with mem := s₂.machine.mem.store32 p s₂.machine.freelist, freelist := p }
  obtain ⟨y, hleave, hy⟩ := works_leave (s := { s₂ with sys := x, machine := m }) (c := c) (w := .freeLeave)
    (v := .freeDone) hx fun y => by simp only [Shared.tick, goto_pos]
  have hret := Shared.Step.retFree (s := { s₂ with sys := y, machine := m }.goto c .freeDone) (c := c) goto_pos
  obtain ⟨n, hn⟩ := hfill.trans ((Works.tick hfilled).trans (henter.trans (hpush.trans hleave)))
  rw [hzero] at hn
  refine ⟨n, _, .cons hcall (hn.snoc hret), ?_, rfl, rfl⟩
  rw [goto_goto]
  exact h.goto hy

def onePage (useLock : BitVec 32) : Shared Bool where
  sys := ⟨⟨0, "kmem"⟩, fun _ => true, fun _ => 0, [], fun _ => .idle⟩
  useLock := useLock
  machine := ⟨⟨fun _ => 0⟩, 0x80123000, []⟩
  held := []
  pos _ := .client

lemma onePage_resting (useLock : BitVec 32) : Resting (onePage useLock) := ⟨fun _ => rfl, fun _ => rfl, rfl⟩

end TinuOS.Kmem
