import TinuOS.Kmem.FreeList
import TinuOS.Library.Pool
import TinuOS.Spinlock.Exclusion

/-! `kalloc` and `kfree` on any number of processors: every access to shared memory is a step of its
own, and the steps of different processors interleave. -/

namespace TinuOS.Kmem

open Library Mem

inductive Where
  | client
  | fill (p : Addr) (i : ℕ)
  | freeEnter (p : Addr)
  | freeLink (p : Addr)
  | freeStore (p old : Addr)
  | freeHead (p : Addr)
  | freeLeave
  | freeDone
  | allocEnter
  | allocRead
  | allocNext (r : Addr)
  | allocHead (r next : Addr)
  | allocLeave (r : Addr)
  | allocDone (r : Addr)
  deriving DecidableEq

structure Shared (C : Type*) where
  sys : Spinlock.System C
  useLock : BitVec 32
  machine : Machine
  held : List Addr
  pos : C → Where

/-- The access to the lock that is next for a processor, in `acquire` and in `release`. -/
def lockAct : Spinlock.Pc → Spinlock.Act
  | .idle => .acquire
  | .checking => .holding
  | .spinning => .xchg
  | .critical => .release
  | .leaving => .holding
  | .storing => .store

def pointer (r : Addr) : Option Addr := if r = 0 then none else some r

namespace Shared

variable {C : Type*} [DecidableEq C] (s : Shared C) (c : C)

def goto (w : Where) : Shared C := { s with pos := Function.update s.pos c w }

def lockStep : Option (Shared C) :=
  (s.sys.next c (lockAct (s.sys.pc c))).map fun sys => { s with sys := sys }

def enter (w : Where) : Option (Shared C) :=
  if s.useLock = 0 ∨ s.sys.pc c = .critical then some (s.goto c w) else s.lockStep c

def leave (w : Where) : Option (Shared C) :=
  if s.useLock = 0 ∨ s.sys.pc c = .idle then some (s.goto c w) else s.lockStep c

def tick : Option (Shared C) :=
  match s.pos c with
  | .client | .freeDone | .allocDone _ => none
  | .fill p i =>
    if i < pageSize then
      let s := { s with machine.mem := s.machine.mem.store8 (p + BitVec.ofNat 32 i) 1 }
      some (s.goto c (.fill p (i + 1)))
    else some (s.goto c (.freeEnter p))
  | .freeEnter p => s.enter c (.freeLink p)
  | .freeLink p => some (s.goto c (.freeStore p s.machine.freelist))
  | .freeStore p old =>
    let s := { s with machine.mem := s.machine.mem.store32 p old }
    some (s.goto c (.freeHead p))
  | .freeHead p =>
    let s := { s with machine.freelist := p }
    some (s.goto c .freeLeave)
  | .freeLeave => s.leave c .freeDone
  | .allocEnter => s.enter c .allocRead
  | .allocRead =>
    let r := s.machine.freelist
    some (s.goto c (if r ≠ 0 then .allocNext r else .allocLeave r))
  | .allocNext r => some (s.goto c (.allocHead r (s.machine.mem.load32 r)))
  | .allocHead r next =>
    let s := { s with machine.freelist := next }
    some (s.goto c (.allocLeave r))
  | .allocLeave r => s.leave c (.allocDone r)

def warned (σ : Machine) (p : Addr) : Machine := if v2p physTop ≤ p then σ.emit (.kprintf "kfree") else σ

inductive Step : Shared C → C × Pool.Act Addr → Shared C → Prop
  | callAlloc {s : Shared C} {c : C} (h : s.pos c = .client) : Step s (c, .callAlloc) (s.goto c .allocEnter)
  | retAlloc {s : Shared C} {c : C} {r : Addr} (h : s.pos c = .allocDone r) :
    Step s (c, .retAlloc (pointer r)) { s.goto c .client with
      machine := s.machine.emit (.kalloc r), held := (pointer r).toList ++ s.held }
  | callFree {s : Shared C} {c : C} {p : Addr} (h : s.pos c = .client) (hp : p ∈ s.held) :
    Step s (c, .callFree p) { s.goto c (.fill p 0) with
      machine := warned s.machine p, held := s.held.erase p }
  | retFree {s : Shared C} {c : C} (h : s.pos c = .freeDone) : Step s (c, .retFree) (s.goto c .client)
  | tick {s t : Shared C} {c : C} (h : s.tick c = some t) : Step s (c, .work) t
  | write {s : Shared C} (c : C) {p a : Addr} (v : BitVec 8) (hp : p ∈ s.held) (ha : a ∈ page p) :
    Step s (c, .work) { s with machine.mem := s.machine.mem.store8 a v }

end Shared

namespace Where

def phase : Where → Pool.Phase Addr
  | client => .idle
  | fill p _ | freeEnter p | freeLink p | freeStore p _ | freeHead p => .freeing p
  | freeLeave | freeDone => .freed
  | allocEnter | allocRead | allocNext _ | allocHead _ _ => .allocating
  | allocLeave r | allocDone r => .allocated (pointer r)

def critical : Where → Bool
  | freeLink _ | freeStore _ _ | freeHead _ | allocRead | allocNext _ | allocHead _ _ => true
  | _ => false

def Local (m : Machine) : Where → Prop
  | freeStore _ old => old = m.freelist
  | freeHead p => m.mem.load32 p = m.freelist
  | allocNext r => r = m.freelist ∧ r ≠ 0
  | allocHead r next => r = m.freelist ∧ r ≠ 0 ∧ next = m.mem.load32 r
  | _ => True

end Where

variable {C : Type*} [DecidableEq C] {s t : Shared C} {c d : C} {w : Where} {act : Pool.Act Addr}
  {u v : Pool C Addr} {pages : List Addr} {q : Addr}

lemma local_of_not_critical {m : Machine} (h : w.critical = false) : w.Local m := by
  cases w with
  | freeStore | freeHead | allocNext | allocHead => exact Bool.noConfusion h
  | _ => trivial

def Guarded (s : Shared C) : Prop :=
  Subsingleton C ∨ s.useLock ≠ 0 ∧ (∃ o, s.sys.Owned o) ∧
    ∀ c, (s.pos c).critical = true → s.sys.pc c = .critical

omit [DecidableEq C] in
lemma Guarded.alone (h : Guarded s) (hc : (s.pos c).critical = true) (hd : (s.pos d).critical = true) : c = d := by
  rcases h with h | ⟨-, ⟨o, ho⟩, hin⟩
  · exact Subsingleton.elim c d
  · have hoc := (ho.inside c).mp (by rw [hin c hc]; rfl)
    have hod := (ho.inside d).mp (by rw [hin d hd]; rfl)
    exact Option.some.inj (hoc.symm.trans hod)

lemma next_pc_of_ne {x y : Spinlock.System C} {a : Spinlock.Act} (h : x.next c a = some y) (hd : d ≠ c) :
    y.pc d = x.pc d := by
  unfold Spinlock.System.next at h
  cases a <;> cases hp : x.pc c <;> simp only [hp, reduceCtorEq, Option.some.injEq] at h
  all_goals
    subst h
    exact Function.update_of_ne hd _ _

structure Moves (s : Shared C) (c : C) (t : Shared C) : Prop where
  useLock : t.useLock = s.useLock
  others : ∀ d, d ≠ c → t.pos d = s.pos d
  kept : t.sys = s.sys ∧ (s.useLock ≠ 0 → (t.pos c).critical = true →
      (s.pos c).critical = true ∨ s.sys.pc c = .critical) ∨
    (∃ a, s.sys.next c a = some t.sys) ∧ (t.pos c).critical = false

lemma goto_moves {held : List Addr} {m : Machine} (h : w.critical = true → (s.pos c).critical = true) :
    Moves s c { s.goto c w with machine := m, held := held } := by
  refine ⟨rfl, fun d hd => Function.update_of_ne hd _ _, Or.inl ⟨rfl, fun _ hw => Or.inl (h ?_)⟩⟩
  simpa [Shared.goto] using hw

lemma lockStep_moves (hw : (s.pos c).critical = false) (h : s.lockStep c = some t) : Moves s c t := by
  obtain ⟨sys, hsys, rfl⟩ := Option.map_eq_some_iff.mp h
  exact ⟨rfl, fun _ _ => rfl, Or.inr ⟨⟨_, hsys⟩, hw⟩⟩

lemma enter_moves (hw : (s.pos c).critical = false) (h : s.enter c w = some t) : Moves s c t := by
  unfold Shared.enter at h
  split_ifs at h with he
  · obtain rfl := Option.some.inj h
    refine ⟨rfl, fun d hd => Function.update_of_ne hd _ _, Or.inl ⟨rfl, fun hl _ => Or.inr ?_⟩⟩
    exact he.resolve_left hl
  · exact lockStep_moves hw h

lemma leave_moves (hw : (s.pos c).critical = false) (hn : w.critical = false) (h : s.leave c w = some t) :
    Moves s c t := by
  unfold Shared.leave at h
  split_ifs at h with he
  · obtain rfl := Option.some.inj h
    exact goto_moves fun ht => absurd (hn.symm.trans ht) Bool.false_ne_true
  · exact lockStep_moves hw h

lemma tick_moves (h : s.tick c = some t) : Moves s c t := by
  unfold Shared.tick at h
  cases hp : s.pos c with
  | client | freeDone | allocDone => simp [hp] at h
  | freeEnter | allocEnter =>
    rw [hp] at h
    exact enter_moves (by rw [hp]; rfl) h
  | freeLeave | allocLeave =>
    rw [hp] at h
    exact leave_moves (by rw [hp]; rfl) rfl h
  | fill p i =>
    simp only [hp] at h
    split_ifs at h
    all_goals
      obtain rfl := Option.some.inj h
      exact goto_moves fun ht => Bool.noConfusion ht
  | freeLink | freeStore | allocNext =>
    simp only [hp, Option.some.injEq] at h
    subst h
    exact goto_moves fun _ => by rw [hp]; rfl
  | freeHead | allocHead =>
    simp only [hp, Option.some.injEq] at h
    subst h
    exact goto_moves fun ht => Bool.noConfusion ht
  | allocRead =>
    simp only [hp, Option.some.injEq] at h
    subst h
    exact goto_moves fun _ => by rw [hp]; rfl

lemma step_moves (hs : s.Step (c, act) t) : Moves s c t := by
  cases hs with
  | tick h => exact tick_moves h
  | write v hp ha => exact ⟨rfl, fun _ _ => rfl, Or.inl ⟨rfl, fun _ => Or.inl⟩⟩
  | callAlloc | retAlloc | callFree | retFree => exact goto_moves fun ht => Bool.noConfusion ht

lemma Guarded.step (h : Guarded s) (hs : s.Step (c, act) t) : Guarded t := by
  refine h.imp_right fun ⟨hl, ⟨o, ho⟩, hin⟩ => ?_
  obtain ⟨huse, hothers, ⟨hsys, hcrit⟩ | ⟨⟨a, ha⟩, hnot⟩⟩ := step_moves hs
  · refine ⟨huse ▸ hl, hsys ▸ ⟨o, ho⟩, fun d hd => ?_⟩
    rw [hsys]
    by_cases hdc : d = c
    · subst hdc
      exact (hcrit hl hd).elim (hin d) id
    · exact hin d (hothers d hdc ▸ hd)
  · obtain ⟨o', -, ho'⟩ := ho.step (show s.sys.Step (c, a) t.sys from ha)
    refine ⟨huse ▸ hl, ⟨o', ho'⟩, fun d hd => ?_⟩
    have hdc : d ≠ c := by
      rintro rfl
      exact Bool.false_ne_true (hnot.symm.trans hd)
    rw [next_pc_of_ne ha hdc]
    exact hin d (hothers d hdc ▸ hd)

end TinuOS.Kmem
