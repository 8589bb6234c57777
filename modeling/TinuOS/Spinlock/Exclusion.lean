import TinuOS.Spinlock.Nesting

/-! One lock and any number of processors, whose accesses to the lock word interleave. -/

namespace TinuOS.Spinlock

open Library

inductive Pc
  | idle
  | checking
  | spinning
  | critical
  | leaving
  | storing
  deriving DecidableEq

def Pc.inside : Pc → Bool
  | .critical | .leaving | .storing => true
  | .idle | .checking | .spinning => false

inductive Act
  | acquire
  | holding
  | xchg
  | release
  | store
  deriving DecidableEq

structure System (C : Type*) where
  lk : Lock
  intr : C → Bool
  edi : C → BitVec 32
  printed : List String
  pc : C → Pc

namespace System

variable {C : Type*} [DecidableEq C] (s : System C) (c : C)

omit [DecidableEq C] in
def view : Machine Unit := ⟨fun _ => s.lk, s.intr c, s.edi c, s.printed⟩

def put (σ : Machine Unit) (pc : Pc) : System C where
  lk := σ.lock ()
  intr := Function.update s.intr c σ.intr
  edi := Function.update s.edi c σ.edi
  printed := σ.printed
  pc := Function.update s.pc c pc

def initlock (name : String) : System C := s.put c (Spinlock.initlock (s.view c) () name) .idle

/-- One atomic access to the lock word, with the work of the processor around it. -/
def next (act : Act) : Option (System C) :=
  let σ := s.view c
  match act, s.pc c with
  | .acquire, .idle => some (s.put c (pushcli σ) .checking)
  | .holding, .checking => some (s.put c (σ.warn (Spinlock.holding s.lk) "acquire\n") .spinning)
  | .xchg, .spinning =>
    let r := Spinlock.xchg s.lk 1
    some (s.put c (σ.set () r.2) (if r.1 ≠ 0 then .spinning else .critical))
  | .release, .critical => some (s.put c σ .leaving)
  | .holding, .leaving => some (s.put c (σ.warn (!Spinlock.holding s.lk) "release") .storing)
  | .store, .storing => some (s.put c (popcli (σ.set () { s.lk with locked := 0 })) .idle)
  | _, _ => none

end System

variable {C : Type*} [DecidableEq C] {s t : System C} {c d : C} {act : Act} {acts : List (C × Act)}

def System.Step (s : System C) (a : C × Act) (t : System C) : Prop := s.next a.1 a.2 = some t

@[simp] lemma put_pc (σ : Machine Unit) (pc : Pc) : (s.put c σ pc).pc = Function.update s.pc c pc := rfl

@[simp] lemma put_lk (σ : Machine Unit) (pc : Pc) : (s.put c σ pc).lk = σ.lock () := rfl

omit [DecidableEq C] in
@[simp] lemma view_lock (u : Unit) : (s.view c).lock u = s.lk := rfl

@[simp] lemma view_put (σ : Machine Unit) (pc : Pc) : (s.put c σ pc).view c = σ := by
  simp [System.view, System.put]

@[simp] lemma put_put (σ τ : Machine Unit) (pc qc : Pc) :
    (s.put c σ pc).put c τ qc = s.put c τ qc := by
  simp [System.put]

inductive Owner.Step : Option C → C × Act → Option C → Prop
  | stay (o : Option C) (c : C) (act : Act) : Step o (c, act) o
  | take (c : C) : Step none (c, .xchg) (some c)
  | give (c : C) : Step (some c) (c, .store) none

structure System.Owned (s : System C) (o : Option C) : Prop where
  inside : ∀ c, (s.pc c).inside = true ↔ o = some c
  free : s.lk.locked = 0 ↔ o = none

lemma System.Owned.stay {o : Option C} {σ : Machine Unit} {pc : Pc} (h : s.Owned o)
    (hl : (σ.lock ()).locked = 0 ↔ s.lk.locked = 0) (hp : pc.inside = (s.pc c).inside) :
    (s.put c σ pc).Owned o := by
  refine ⟨fun d => ?_, hl.trans h.free⟩
  rw [put_pc]
  by_cases hd : d = c
  · rw [hd, Function.update_self, hp, h.inside]
  · rw [Function.update_of_ne hd, h.inside]

lemma System.Owned.take {σ : Machine Unit} {pc : Pc} (h : s.Owned none)
    (hl : (σ.lock ()).locked ≠ 0) (hp : pc.inside = true) : (s.put c σ pc).Owned (some c) := by
  refine ⟨fun d => ?_, iff_of_false hl (Option.some_ne_none c)⟩
  rw [put_pc]
  by_cases hd : d = c
  · rw [hd, Function.update_self, hp]
    exact iff_of_true rfl rfl
  · rw [Function.update_of_ne hd, h.inside]
    exact iff_of_false (Option.some_ne_none d).symm fun he => hd (Option.some.inj he).symm

lemma System.Owned.give {σ : Machine Unit} {pc : Pc} (h : s.Owned (some c))
    (hl : (σ.lock ()).locked = 0) (hp : pc.inside = false) : (s.put c σ pc).Owned none := by
  refine ⟨fun d => ?_, iff_of_true hl rfl⟩
  rw [put_pc]
  by_cases hd : d = c
  · rw [hd, Function.update_self, hp]
    exact iff_of_false Bool.false_ne_true (Option.some_ne_none c).symm
  · rw [Function.update_of_ne hd, h.inside]
    exact iff_of_false (fun he => hd (Option.some.inj he).symm) (Option.some_ne_none d).symm

lemma System.Owned.step {o : Option C} (h : s.Owned o) (hs : s.Step (c, act) t) :
    ∃ o', Owner.Step o (c, act) o' ∧ t.Owned o' := by
  unfold System.Step System.next at hs
  cases act with
  | acquire =>
    cases hp : s.pc c <;> simp only [hp, reduceCtorEq] at hs
    cases hs
    exact ⟨o, .stay o c _, h.stay Iff.rfl (by rw [hp]; rfl)⟩
  | holding =>
    cases hp : s.pc c <;> simp only [hp, reduceCtorEq] at hs
    all_goals
      cases hs
      exact ⟨o, .stay o c _, h.stay (by rw [warn_lock]; rfl) (by rw [hp]; rfl)⟩
  | release =>
    cases hp : s.pc c <;> simp only [hp, reduceCtorEq] at hs
    cases hs
    exact ⟨o, .stay o c _, h.stay Iff.rfl (by rw [hp]; rfl)⟩
  | xchg =>
    cases hp : s.pc c <;> simp only [hp, reduceCtorEq] at hs
    cases hs
    by_cases hl : s.lk.locked = 0#32
    · -- the old value was zero, so nobody was inside
      obtain rfl := h.free.mp hl
      exact ⟨some c, .take c, h.take (by simp [xchg, Machine.set]) (by simp [xchg, hl, Pc.inside])⟩
    · refine ⟨o, .stay o c _, h.stay ?_ ?_⟩
      · simp [xchg, Machine.set, hl]
      · rw [hp]
        simp [xchg, hl]
  | store =>
    cases hp : s.pc c <;> simp only [hp, reduceCtorEq] at hs
    cases hs
    obtain rfl := (h.inside c).mp (by rw [hp]; rfl)
    exact ⟨none, .give c, h.give (by simp [popcli, Machine.sti, Machine.set]) rfl⟩

lemma initlock_owned (h : ∀ d, s.pc d = .idle) (name : String) : (s.initlock c name).Owned none := by
  refine ⟨fun d => ?_, iff_of_true ?_ rfl⟩
  · have hpc : (s.initlock c name).pc d = .idle := by
      rw [System.initlock, put_pc, Function.update_apply, h d, ite_self]
    rw [hpc]
    exact iff_of_false Bool.false_ne_true (Option.some_ne_none d).symm
  · simp [System.initlock, initlock, Machine.set]

lemma owner_of_run (hs : s.Owned none) (h : Run System.Step s acts t) :
    ∃ o, Run Owner.Step none acts o ∧ t.Owned o :=
  h.simulation (fun _ _ _ _ ho he => ho.step he) hs

theorem mutual_exclusion {name : String} (hidle : ∀ d, s.pc d = .idle)
    (h : Run System.Step (s.initlock c name) acts t) :
    (∀ d e, (t.pc d).inside = true → (t.pc e).inside = true → d = e) ∧
    ∀ d, (t.pc d).inside = true → t.lk.locked ≠ 0 := by
  obtain ⟨o, -, ho⟩ := owner_of_run (initlock_owned hidle name) h
  refine ⟨fun d e hd he => ?_, fun d hd hl => ?_⟩
  · exact Option.some.inj (((ho.inside d).mp hd).symm.trans ((ho.inside e).mp he))
  · rw [ho.free.mp hl] at ho
    exact Option.some_ne_none d ((ho.inside d).mp hd).symm

def quiet : System Bool := ⟨⟨7, "lock"⟩, fun _ => true, fun _ => 0, [], fun _ => .idle⟩

def contended : List (Bool × Act) :=
  [(true, .acquire), (false, .acquire), (false, .holding), (true, .holding), (false, .xchg),
    (true, .xchg), (false, .release)]

theorem mutual_exclusion_contended : ∃ t,
    Run System.Step (quiet.initlock true "kmem") contended t ∧
    ((∀ d e, (t.pc d).inside = true → (t.pc e).inside = true → d = e) ∧
      ∀ d, (t.pc d).inside = true → t.lk.locked ≠ 0) ∧ t.pc false = .leaving := by
  have hr : (contended.foldlM (fun (s : System Bool) a => s.next a.1 a.2)
      (quiet.initlock true "kmem")).map (·.pc false) = some Pc.leaving := by decide
  obtain ⟨t, ht, hp⟩ := Run.exists_of_foldlM (fun _ _ _ he => he) hr
  exact ⟨t, ht, mutual_exclusion (fun _ => rfl) ht, hp⟩

lemma run_acquire {fuel : ℕ} {σ : Machine Unit} (hp : s.pc c = .idle)
    (h : acquire fuel (s.view c) () = some σ) :
    Run System.Step s [(c, .acquire), (c, .holding), (c, .xchg)] (s.put c σ .critical) := by
  obtain ⟨-, hl, rfl⟩ := spin_eq_some.mp h
  rw [warn_lock] at hl
  refine .cons (t := s.put c (pushcli (s.view c)) .checking) ?_ (.cons (t := s.put c
    ((pushcli (s.view c)).warn (holding s.lk) "acquire\n") .spinning) ?_ (.cons ?_ (.nil _)))
  · simp [System.Step, System.next, hp]
  · simp [System.Step, System.next]
  · replace hl : s.lk.locked = 0#32 := hl
    simp [System.Step, System.next, hl, xchg]

lemma run_release (hp : s.pc c = .critical) :
    Run System.Step s [(c, .release), (c, .holding), (c, .store)]
      (s.put c (release (s.view c) ()) .idle) := by
  refine .cons (t := s.put c (s.view c) .leaving) ?_ (.cons (t := s.put c
    ((s.view c).warn (!holding s.lk) "release") .storing) ?_ (.cons ?_ (.nil _)))
  · simp [System.Step, System.next, hp]
  · simp [System.Step, System.next]
  · simp [System.Step, System.next, release]

end TinuOS.Spinlock
