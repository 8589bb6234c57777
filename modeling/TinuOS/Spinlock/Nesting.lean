import TinuOS.Spinlock.Model

/-! The interrupt flag over nested calls of `acquire` and `release` on one CPU. -/

namespace TinuOS.Spinlock

open Library

variable {L : Type*} [DecidableEq L]

inductive Op (L : Type*)
  | acquire (lk : L)
  | release (lk : L)
  deriving DecidableEq

namespace Op

def nest (held : List L) : Op L → Option (List L)
  | .acquire lk => if lk ∈ held then none else some (lk :: held)
  | .release lk => if held.head? = some lk then some held.tail else none

def call (fuel : ℕ) (σ : Machine L) : Op L → Option (Machine L)
  | .acquire lk => Spinlock.acquire fuel σ lk
  | .release lk => some (Spinlock.release σ lk)

end Op

def WellNested (ops : List (Op L)) : Prop := ∃ held, ops.foldlM Op.nest [] = some held

def depth (ops : List (Op L)) : ℕ :=
  ops.foldl (fun d op => match op with | .acquire _ => d + 1 | .release _ => d - 1) 0

structure Session (L : Type*) where
  cpu : Machine L
  held : List L
  saved : Bool

namespace Session

def start (σ : Machine L) : Session L := ⟨σ, [], σ.intr⟩

def exec (fuel : ℕ) (edi : BitVec 32) (s : Session L) (op : Op L) : Option (Session L) :=
  (op.nest s.held).bind fun held => (op.call fuel { s.cpu with edi }).map fun cpu =>
    ⟨cpu, held, if s.held = [] then s.cpu.intr else s.saved⟩

def Step (s : Session L) (op : Op L) (t : Session L) : Prop := ∃ fuel edi, s.exec fuel edi op = some t

structure Guarded (s : Session L) : Prop where
  masked : s.held ≠ [] → s.cpu.intr = false
  restored : s.held = [] → s.cpu.intr = s.saved

end Session

def Machine.Ready (σ : Machine L) : Prop := ∀ lk, (σ.lock lk).locked = 0

def Disciplined (σ : Machine L) (ops : List (Op L)) : Prop :=
  ∀ pre t, pre <+: ops → Run Session.Step (.start σ) pre t → t.Guarded

variable {σ σ' : Machine L} {lk : L} {fuel : ℕ} {s t : Session L} {op : Op L} {ops pre : List (Op L)}

lemma spin_held (h : (σ.lock lk).locked ≠ 0) : spin fuel σ lk = none := by
  induction fuel generalizing σ with
  | zero => rfl
  | succ fuel ih =>
    rw [spin]
    refine (if_pos h).trans (ih ?_)
    simp [Machine.set, xchg]

lemma spin_eq_some : spin fuel σ lk = some σ' ↔
    0 < fuel ∧ (σ.lock lk).locked = 0 ∧ σ' = σ.set lk { σ.lock lk with locked := 1 } := by
  cases fuel with
  | zero => simp [spin]
  | succ fuel =>
    by_cases h : (σ.lock lk).locked = 0
    · simp [spin, xchg, h, eq_comm]
    · rw [spin_held h]
      exact ⟨fun hn => (Option.some_ne_none _ hn.symm).elim, fun hs => absurd hs.2.1 h⟩

lemma acquire_spec (h : acquire fuel σ lk = some σ') : σ'.intr = false ∧
    (σ.lock lk).locked = 0 ∧ σ'.lock = Function.update σ.lock lk { σ.lock lk with locked := 1 } := by
  obtain ⟨-, hl, rfl⟩ := spin_eq_some.mp h
  rw [warn_lock] at hl
  refine ⟨warn_intr _ _ _, hl, ?_⟩
  rw [warn_lock]
  exact congrArg (fun f => Function.update f lk _) (warn_lock _ _ _)

lemma exists_acquire (h : (σ.lock lk).locked = 0) : ∃ σ', acquire 1 σ lk = some σ' := by
  refine ⟨_, spin_eq_some.mpr ⟨Nat.one_pos, ?_, rfl⟩⟩
  rw [warn_lock]
  exact h

lemma release_intr : (release σ lk).intr = true := rfl

lemma release_lock :
    (release σ lk).lock = Function.update σ.lock lk { σ.lock lk with locked := 0 } := by
  refine (warn_lock _ _ _).trans ?_
  simp only [Machine.set, warn_lock]

lemma step_of_exec (s : Session L) (op : Op L) (t : Session L)
    (h : s.exec 1 0 op = some t) : s.Step op t := ⟨1, 0, h⟩

lemma step_iff : s.Step op t ↔ op.nest s.held = some t.held ∧
    t.saved = (if s.held = [] then s.cpu.intr else s.saved) ∧
    ∃ fuel edi, op.call fuel { s.cpu with edi } = some t.cpu := by
  constructor
  · rintro ⟨fuel, edi, h⟩
    obtain ⟨held, hn, h⟩ := Option.bind_eq_some_iff.mp h
    obtain ⟨cpu, hc, rfl⟩ := Option.map_eq_some_iff.mp h
    exact ⟨hn, rfl, fuel, edi, hc⟩
  · rintro ⟨hn, hs, fuel, edi, hc⟩
    refine ⟨fuel, edi, ?_⟩
    rw [Session.exec, hn, Option.bind_some, hc, Option.map_some, ← hs]

lemma nest_acquire {held held' : List L} :
    (Op.acquire lk).nest held = some held' ↔ lk ∉ held ∧ held' = lk :: held := by
  by_cases h : lk ∈ held <;> simp [Op.nest, h, eq_comm]

lemma nest_release {held held' : List L} :
    (Op.release lk).nest held = some held' ↔ held = lk :: held' := by
  cases held with
  | nil => simp [Op.nest]
  | cons a held =>
    by_cases h : a = lk <;> simp [Op.nest, h]

lemma step_acquire (h : s.Step (.acquire lk) t) : lk ∉ s.held ∧ t.held = lk :: s.held ∧
    t.cpu.intr = false ∧
    t.cpu.lock = Function.update s.cpu.lock lk { s.cpu.lock lk with locked := 1 } := by
  obtain ⟨hn, -, fuel, edi, hc⟩ := step_iff.mp h
  obtain ⟨hlk, hh⟩ := nest_acquire.mp hn
  obtain ⟨hi, -, hl⟩ := acquire_spec hc
  exact ⟨hlk, hh, hi, hl⟩

lemma step_release (h : s.Step (.release lk) t) : s.held = lk :: t.held ∧ t.cpu.intr = true ∧
    t.cpu.lock = Function.update s.cpu.lock lk { s.cpu.lock lk with locked := 0 } := by
  obtain ⟨hn, -, fuel, edi, hc⟩ := step_iff.mp h
  have hcpu := Option.some.inj hc
  rw [← hcpu]
  exact ⟨nest_release.mp hn, release_intr, release_lock⟩

structure Session.Tracked (s : Session L) : Prop where
  nodup : s.held.Nodup
  locked : ∀ lk, (s.cpu.lock lk).locked ≠ 0 ↔ lk ∈ s.held

omit [DecidableEq L] in
lemma start_tracked (h : σ.Ready) : (Session.start σ).Tracked :=
  ⟨List.nodup_nil, fun lk => by simp [Session.start, h lk]⟩

namespace Session.Tracked

lemma step (h : s.Tracked) (hs : s.Step op t) : t.Tracked := by
  cases op with
  | acquire lk =>
    obtain ⟨hlk, hh, -, hl⟩ := step_acquire hs
    refine ⟨hh ▸ List.nodup_cons.mpr ⟨hlk, h.nodup⟩, fun a => ?_⟩
    rw [hl, hh, List.mem_cons]
    by_cases ha : a = lk
    · simp [ha]
    · rw [Function.update_of_ne ha, h.locked]
      simp [ha]
  | release lk =>
    obtain ⟨hh, -, hl⟩ := step_release hs
    have hnd := h.nodup
    rw [hh, List.nodup_cons] at hnd
    refine ⟨hnd.2, fun a => ?_⟩
    rw [hl]
    by_cases ha : a = lk
    · simp [ha, hnd.1]
    · rw [Function.update_of_ne ha, h.locked, hh, List.mem_cons]
      simp [ha]

lemma exists_step (h : s.Tracked) {held : List L} (hn : op.nest s.held = some held) :
    ∃ t, s.Step op t ∧ t.held = held := by
  have hc : ∃ cpu, op.call 1 { s.cpu with edi := 0 } = some cpu := by
    cases op with
    | acquire lk =>
      apply exists_acquire
      by_contra hl
      exact (nest_acquire.mp hn).1 ((h.locked lk).mp hl)
    | release lk => exact ⟨_, rfl⟩
  obtain ⟨cpu, hc⟩ := hc
  exact ⟨⟨cpu, held, _⟩, step_iff.mpr ⟨hn, rfl, 1, 0, hc⟩, rfl⟩

end Session.Tracked

lemma tracked_of_run (hσ : σ.Ready) (h : Run Session.Step (.start σ) ops s) : s.Tracked :=
  h.invariant (fun _ _ _ ht hs => ht.step hs) (start_tracked hσ)

lemma exists_run (hσ : σ.Ready) {held : List L} (h : ops.foldlM Op.nest [] = some held) :
    ∃ s, Run Session.Step (.start σ) ops s ∧ s.held = held := by
  induction ops using List.reverseRecOn generalizing held with
  | nil => exact ⟨_, .nil _, Option.some.inj h⟩
  | append_singleton ops op ih =>
    rw [List.foldlM_append] at h
    obtain ⟨mid, hm, hn⟩ := Option.bind_eq_some_iff.mp h
    replace hn : op.nest mid = some held := by simpa using hn
    obtain ⟨s, hr, rfl⟩ := ih hm
    obtain ⟨t, hs, ht⟩ := (tracked_of_run hσ hr).exists_step hn
    exact ⟨t, hr.snoc hs, ht⟩

lemma WellNested.of_prefix (h : WellNested ops) (hp : pre <+: ops) : WellNested pre := by
  obtain ⟨rest, rfl⟩ := hp
  obtain ⟨held, hh⟩ := h
  rw [List.foldlM_append] at hh
  obtain ⟨mid, hm, -⟩ := Option.bind_eq_some_iff.mp hh
  exact ⟨mid, hm⟩

lemma depth_eq (h : Run Session.Step (.start σ) ops s) : depth ops = s.held.length := by
  induction ops using List.reverseRecOn generalizing s with
  | nil =>
    cases h
    rfl
  | append_singleton ops op ih =>
    obtain ⟨t, ht, hs⟩ := Run.snoc_iff.mp h
    have hd := ih ht
    rw [depth, List.foldl_append, ← depth, hd]
    cases op with
    | acquire lk => simp [(step_acquire hs).2.1]
    | release lk => simp [(step_release hs).1]

lemma Disciplined.of_prefix (h : Disciplined σ ops) (hp : pre <+: ops) : Disciplined σ pre :=
  fun p t hpp => h p t (hpp.trans hp)

lemma stays_masked (hd : Disciplined σ ops) (hi : σ.intr = false)
    (h : Run Session.Step (.start σ) ops s) : s.cpu.intr = false ∧ s.saved = false := by
  induction ops using List.reverseRecOn generalizing s with
  | nil =>
    cases h
    exact ⟨hi, hi⟩
  | append_singleton ops op ih =>
    obtain ⟨t, ht, hs⟩ := Run.snoc_iff.mp h
    obtain ⟨hti, hts⟩ := ih (hd.of_prefix (List.prefix_append _ _)) ht
    have hsaved : s.saved = false := by
      rw [(step_iff.mp hs).2.1]
      split <;> assumption
    refine ⟨?_, hsaved⟩
    have hg := hd _ _ List.prefix_rfl h
    by_cases hh : s.held = []
    · rw [hg.restored hh, hsaved]
    · exact hg.masked hh

lemma guarded_of_outermost (hi : σ.intr = true ∨ ∀ pre lk, ¬ pre ++ [.release lk] <+: ops)
    (ho : ∀ pre lk, pre ++ [.release lk] <+: ops → depth pre = 1)
    (h : Run Session.Step (.start σ) ops s) : s.Guarded ∧ (σ.intr = true → s.saved = true) := by
  induction ops using List.reverseRecOn generalizing s with
  | nil =>
    cases h
    exact ⟨⟨fun hn => absurd rfl hn, fun _ => rfl⟩, id⟩
  | append_singleton ops op ih =>
    have hpre : ops <+: ops ++ [op] := List.prefix_append _ _
    obtain ⟨t, ht, hs⟩ := Run.snoc_iff.mp h
    obtain ⟨hg, hsaved⟩ := ih (hi.imp_right fun hn p lk hp => hn p lk (hp.trans hpre))
      (fun p lk hp => ho p lk (hp.trans hpre)) ht
    have hsaved' : σ.intr = true → s.saved = true := by
      intro hon
      rw [(step_iff.mp hs).2.1]
      split
      · rw [hg.restored ‹_›, hsaved hon]
      · exact hsaved hon
    refine ⟨?_, hsaved'⟩
    cases op with
    | acquire lk =>
      obtain ⟨-, hh, hmasked, -⟩ := step_acquire hs
      refine ⟨fun _ => hmasked, fun hn => ?_⟩
      rw [hh] at hn
      exact absurd hn (List.cons_ne_nil _ _)
    | release lk =>
      have hon : σ.intr = true := hi.resolve_right fun hn => hn ops lk List.prefix_rfl
      have hlen : t.held.length = 1 := (depth_eq ht).symm.trans (ho ops lk List.prefix_rfl)
      obtain ⟨hh, hunmasked, -⟩ := step_release hs
      have hnil : s.held = [] := by
        rw [hh] at hlen
        simpa using hlen
      exact ⟨fun hn => absurd hnil hn, fun _ => hunmasked.trans (hsaved' hon).symm⟩

theorem disciplined_iff (hσ : σ.Ready) (hw : WellNested ops) : Disciplined σ ops ↔
    ∀ pre lk, pre ++ [.release lk] <+: ops → σ.intr = true ∧ depth pre = 1 := by
  constructor
  · intro hd pre lk hp
    obtain ⟨held, hw'⟩ := hw.of_prefix hp
    obtain ⟨s, hr, -⟩ := exists_run hσ hw'
    obtain ⟨t, ht, hs⟩ := Run.snoc_iff.mp hr
    obtain ⟨hh, hon, -⟩ := step_release hs
    have hnil : s.held = [] := by
      by_contra hn
      rw [(hd _ _ hp hr).masked hn] at hon
      exact absurd hon Bool.false_ne_true
    refine ⟨?_, ?_⟩
    · by_contra hi
      rw [(stays_masked (hd.of_prefix hp) (Bool.eq_false_iff.mpr hi) hr).1] at hon
      exact absurd hon Bool.false_ne_true
    · rw [depth_eq ht, hh, hnil]
      rfl
  · intro hc pre t hp hr
    refine (guarded_of_outermost ?_ (fun p lk hl => (hc p lk (hl.trans hp)).2) hr).1
    by_cases hl : ∃ p lk, p ++ [.release lk] <+: pre
    · obtain ⟨p, lk, hl⟩ := hl
      exact .inl (hc p lk (hl.trans hp)).1
    · exact .inr fun p lk hpl => hl ⟨p, lk, hpl⟩

def fresh (intr : Bool) : Machine ℕ := ⟨fun _ => ⟨0, "kmem"⟩, intr, 0, []⟩

theorem disciplined_iff_pair : Disciplined (fresh true) [.acquire 0, .release 0] ↔
    ∀ pre lk, pre ++ [Op.release lk] <+: [.acquire 0, .release 0] → (fresh true).intr = true ∧ depth pre = 1 :=
  disciplined_iff (fun _ => rfl) ⟨[], by decide⟩

theorem nested_release_unmasks :
    (∃ held, ([.acquire 0, .acquire 1, .release 1] : List (Op ℕ)).foldlM Op.nest [] = some held) ∧
    ¬ Disciplined (fresh true) [.acquire 0, .acquire 1, .release 1] ∧
    ¬ Disciplined (fresh false) [.acquire 0, .release 0] := by
  refine ⟨⟨[0], by decide⟩, fun h => ?_, fun h => ?_⟩
  · have hr : (([.acquire 0, .acquire 1, .release 1] : List (Op ℕ)).foldlM
        (Session.exec 1 0) (.start (fresh true))).map (fun s => (s.held, s.cpu.intr)) =
        some ([0], true) := by decide
    obtain ⟨s, hs, hv⟩ := Run.exists_of_foldlM step_of_exec hr
    obtain ⟨hh, hi⟩ := Prod.mk.inj hv
    have hm := (h _ s List.prefix_rfl hs).masked (by rw [hh]; exact List.cons_ne_nil _ _)
    exact Bool.false_ne_true (hm.symm.trans hi)
  · have hr : (([.acquire 0, .release 0] : List (Op ℕ)).foldlM
        (Session.exec 1 0) (.start (fresh false))).map (fun s => (s.held, s.cpu.intr, s.saved)) =
        some ([], true, false) := by decide
    obtain ⟨s, hs, hv⟩ := Run.exists_of_foldlM step_of_exec hr
    simp only [Prod.mk.injEq] at hv
    have hm := (h _ s List.prefix_rfl hs).restored hv.1
    rw [hv.2.1, hv.2.2] at hm
    exact Bool.false_ne_true hm.symm

end TinuOS.Spinlock
