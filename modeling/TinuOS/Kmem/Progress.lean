import TinuOS.Kmem.Linearizable

/-! No call waits for ever: it ends within a bounded number of steps of its own processor and of the one
that has the lock. -/

namespace TinuOS.Kmem

open Library Mem

def acquiring : Spinlock.Pc → ℕ
  | .idle => 3
  | .checking => 2
  | .spinning => 1
  | .critical | .leaving | .storing => 0

def releasing : Spinlock.Pc → ℕ
  | .critical => 3
  | .leaving => 2
  | .storing => 1
  | .idle | .checking | .spinning => 0

def nextPc (locked : BitVec 32) : Spinlock.Pc → Spinlock.Pc
  | .idle => .checking
  | .checking => .spinning
  | .spinning => if locked ≠ 0 then .spinning else .critical
  | .critical => .leaving
  | .leaving => .storing
  | .storing => .idle

lemma acquiring_le (pc : Spinlock.Pc) : acquiring pc ≤ 3 := by cases pc <;> simp [acquiring]

lemma releasing_le (pc : Spinlock.Pc) : releasing pc ≤ 3 := by cases pc <;> simp [releasing]

namespace Where

def rank : Where → Spinlock.Pc → ℕ
  | client, _ => 0
  | freeDone, _ | allocDone _, _ => 1
  | freeLeave, pc | allocLeave _, pc => 2 + releasing pc
  | freeHead _, _ | allocHead _ _, _ => 6
  | freeStore _ _, _ | allocNext _, _ => 7
  | freeLink _, _ | allocRead, _ => 8
  | freeEnter _, pc | allocEnter, pc => 9 + acquiring pc
  | fill _ i, _ => 13 + (pageSize - i)

def Meets : Where → Spinlock.Pc → Prop
  | client, pc | fill _ _, pc | freeDone, pc | allocDone _, pc => pc = .idle
  | freeEnter _, pc | allocEnter, pc => pc ≠ .leaving ∧ pc ≠ .storing
  | freeLeave, pc | allocLeave _, pc => pc ≠ .checking ∧ pc ≠ .spinning
  | freeLink _, pc | freeStore _ _, pc | freeHead _, pc | allocRead, pc | allocNext _, pc
  | allocHead _ _, pc => pc = .critical

lemma rank_eq_zero {w : Where} {pc : Spinlock.Pc} (h : w.rank pc = 0) : w = client := by
  cases w with
  | client => rfl
  | _ =>
    simp only [rank] at h
    omega

lemma rank_le (w : Where) (pc : Spinlock.Pc) : w.rank pc ≤ pageSize + 13 := by
  have ha := acquiring_le pc
  have hr := releasing_le pc
  cases w <;> simp only [rank] <;> omega

lemma rank_le_of_inside {w : Where} {pc : Spinlock.Pc} (h : w.Meets pc) (hi : pc.inside = true) :
    w.rank pc ≤ 9 := by
  have ha : acquiring pc = 0 := by cases pc <;> first | rfl | exact Bool.noConfusion hi
  have hr := releasing_le pc
  cases w with
  | fill =>
    obtain rfl : pc = .idle := h
    exact Bool.noConfusion hi
  | _ =>
    simp only [rank]
    omega

end Where

variable {C : Type*} [DecidableEq C] {s t : Shared C} {c d : C} {w : Where} {act : Pool.Act Addr}
  {o : Option C}

structure Placed (s : Shared C) : Prop where
  owned : ∃ o, s.sys.Owned o
  places : ∀ c, if s.useLock = 0 then s.sys.pc c = .idle else (s.pos c).Meets (s.sys.pc c)

lemma lockStep_eq (s : Shared C) (c : C) : ∃ sys, s.lockStep c = some { s with sys := sys } ∧
    sys.pc = Function.update s.sys.pc c (nextPc s.sys.lk.locked (s.sys.pc c)) := by
  unfold Shared.lockStep Spinlock.System.next lockAct nextPc
  cases hp : s.sys.pc c <;> exact ⟨_, rfl, rfl⟩

lemma owned_step (h : s.sys.Owned o) (hs : s.Step (c, act) t) :
    ∃ o', (o' = o ∨ o = none ∧ o' = some c ∨ o = some c ∧ o' = none) ∧ t.sys.Owned o' := by
  rcases (step_moves hs).kept with ⟨he, -⟩ | ⟨⟨a, ha⟩, -⟩
  · exact ⟨o, Or.inl rfl, he ▸ h⟩
  · obtain ⟨o', ho, hown⟩ := h.step (show s.sys.Step (c, a) t.sys from ha)
    refine ⟨o', ?_, hown⟩
    cases ho with
    | stay => exact Or.inl rfl
    | take => exact Or.inr (Or.inl ⟨rfl, rfl⟩)
    | give => exact Or.inr (Or.inr ⟨rfl, rfl⟩)

lemma step_pc_of_ne (hs : s.Step (c, act) t) (hd : d ≠ c) : t.sys.pc d = s.sys.pc d := by
  rcases (step_moves hs).kept with ⟨he, -⟩ | ⟨⟨a, ha⟩, -⟩
  · rw [he]
  · exact next_pc_of_ne ha hd

section Meets

variable (hu : s.useLock ≠ 0) (hm : (s.pos c).Meets (s.sys.pc c))

include hu hm

lemma enter_meets (hp : ∀ pc, (s.pos c).Meets pc ↔ pc ≠ .leaving ∧ pc ≠ .storing)
    (hw : w.Meets .critical) (h : s.enter c w = some t) : (t.pos c).Meets (t.sys.pc c) := by
  unfold Shared.enter at h
  split_ifs at h with he
  · obtain rfl := Option.some.inj h
    have hc := he.resolve_left hu
    rw [goto_pos]
    exact (show (s.goto c w).sys.pc c = .critical from hc) ▸ hw
  · obtain ⟨sys, hsys, hpc⟩ := lockStep_eq s c
    obtain rfl := Option.some.inj (hsys.symm.trans h)
    obtain ⟨-, hne⟩ := not_or.mp he
    rw [hp] at hm
    apply (hp _).mpr
    rw [hpc, Function.update_self]
    cases hq : s.sys.pc c with
    | idle | checking => exact ⟨by simp [nextPc], by simp [nextPc]⟩
    | spinning =>
      simp only [nextPc]
      split_ifs
      · exact ⟨by simp, by simp⟩
      · exact ⟨by simp, by simp⟩
    | critical => exact absurd hq hne
    | leaving => exact absurd hq hm.1
    | storing => exact absurd hq hm.2

lemma leave_meets (hp : ∀ pc, (s.pos c).Meets pc ↔ pc ≠ .checking ∧ pc ≠ .spinning)
    (hw : w.Meets .idle) (h : s.leave c w = some t) : (t.pos c).Meets (t.sys.pc c) := by
  unfold Shared.leave at h
  split_ifs at h with he
  · obtain rfl := Option.some.inj h
    have hc := he.resolve_left hu
    rw [goto_pos]
    exact (show (s.goto c w).sys.pc c = .idle from hc) ▸ hw
  · obtain ⟨sys, hsys, hpc⟩ := lockStep_eq s c
    obtain rfl := Option.some.inj (hsys.symm.trans h)
    obtain ⟨-, hne⟩ := not_or.mp he
    rw [hp] at hm
    apply (hp _).mpr
    rw [hpc, Function.update_self]
    cases hq : s.sys.pc c with
    | critical | leaving | storing => exact ⟨by simp [nextPc], by simp [nextPc]⟩
    | idle => exact absurd hq hne
    | checking => exact absurd hq hm.1
    | spinning => exact absurd hq hm.2

lemma tick_meets (h : s.tick c = some t) : (t.pos c).Meets (t.sys.pc c) := by
  unfold Shared.tick at h
  cases hp : s.pos c with
  | client | freeDone | allocDone => simp [hp] at h
  | freeEnter | allocEnter =>
    rw [hp] at h
    exact enter_meets hu hm (fun pc => by rw [hp]; rfl) (by rfl) h
  | freeLeave | allocLeave =>
    rw [hp] at h
    exact leave_meets hu hm (fun pc => by rw [hp]; rfl) (by rfl) h
  | fill p i =>
    simp only [hp] at h
    rw [hp] at hm
    have hpc : s.sys.pc c = .idle := hm
    split_ifs at h
    · obtain rfl := Option.some.inj h
      rw [goto_pos]
      exact hpc
    · obtain rfl := Option.some.inj h
      rw [goto_pos]
      exact (show (s.goto c (.freeEnter p)).sys.pc c = .idle from hpc) ▸ ⟨by simp, by simp⟩
  | freeLink | freeStore | allocNext =>
    simp only [hp, Option.some.injEq] at h
    subst h
    rw [hp] at hm
    rw [goto_pos]
    exact hm
  | freeHead | allocHead =>
    simp only [hp, Option.some.injEq] at h
    subst h
    rw [hp] at hm
    have hpc : s.sys.pc c = .critical := hm
    rw [goto_pos]
    exact ⟨by simp [Shared.goto, hpc], by simp [Shared.goto, hpc]⟩
  | allocRead =>
    simp only [hp, Option.some.injEq] at h
    subst h
    rw [hp] at hm
    have hpc : s.sys.pc c = .critical := hm
    rw [goto_pos]
    split_ifs
    · exact hpc
    · exact ⟨by simp [Shared.goto, hpc], by simp [Shared.goto, hpc]⟩

lemma step_meets (hs : s.Step (c, act) t) : (t.pos c).Meets (t.sys.pc c) := by
  cases hs with
  | tick h => exact tick_meets hu hm h
  | write => exact hm
  | callAlloc hp =>
    rw [hp] at hm
    have hpc : s.sys.pc c = .idle := hm
    rw [goto_pos]
    exact ⟨by simp [Shared.goto, hpc], by simp [Shared.goto, hpc]⟩
  | callFree hp | retAlloc hp | retFree hp =>
    rw [hp] at hm
    simpa [Shared.goto, Where.Meets] using hm

end Meets

lemma unused_step (hu : s.useLock = 0) (hs : s.Step (c, act) t) : t.sys = s.sys := by
  cases hs with
  | tick h =>
    unfold Shared.tick Shared.enter Shared.leave at h
    simp only [hu, true_or, if_true] at h
    cases hp : s.pos c <;> simp only [hp, reduceCtorEq, Option.some.injEq] at h
    case fill =>
      split_ifs at h
      all_goals
        obtain rfl := Option.some.inj h
        rfl
    all_goals
      subst h
      rfl
  | _ => rfl

lemma Placed.step (h : Placed s) (hs : s.Step (c, act) t) : Placed t := by
  obtain ⟨o, ho⟩ := h.owned
  obtain ⟨o', -, ho'⟩ := owned_step ho hs
  refine ⟨⟨o', ho'⟩, fun d => ?_⟩
  have hd := h.places d
  rw [(step_moves hs).useLock]
  by_cases hdc : d = c
  · subst hdc
    by_cases hu : s.useLock = 0
    · rw [if_pos hu] at hd ⊢
      exact (congrArg (·.pc d) (unused_step hu hs)).trans hd
    · rw [if_neg hu] at hd ⊢
      exact step_meets hu hd hs
  · rw [(step_moves hs).others d hdc, step_pc_of_ne hs hdc]
    exact hd

def Clear (s : Shared C) (c : C) : Prop := s.useLock = 0 ∨ ∃ o, s.sys.Owned o ∧ (o = none ∨ o = some c)

lemma Clear.step (h : Clear s c) (hs : s.Step (c, act) t) : Clear t c := by
  rcases h with h | ⟨o, ho, hoc⟩
  · exact Or.inl ((step_moves hs).useLock.trans h)
  · obtain ⟨o', hcases, ho'⟩ := owned_step ho hs
    refine Or.inr ⟨o', ho', ?_⟩
    rcases hcases with rfl | ⟨-, rfl⟩ | ⟨-, rfl⟩
    · exact hoc
    · exact Or.inr rfl
    · exact Or.inl rfl

omit [DecidableEq C] in
lemma Clear.free (h : Clear s c) (hu : s.useLock ≠ 0) : s.sys.lk.locked = 0 ∨ (s.sys.pc c).inside = true := by
  obtain ⟨o, ho, rfl | rfl⟩ := h.resolve_left hu
  · exact Or.inl (ho.free.mpr rfl)
  · exact Or.inr ((ho.inside c).mpr rfl)

section Lower

variable (hp : Placed s) (hc : Clear s c)

include hp

omit [DecidableEq C] in
lemma Placed.meets (hu : s.useLock ≠ 0) : (s.pos c).Meets (s.sys.pc c) := by
  have h := hp.places c
  rwa [if_neg hu] at h

include hc in
lemma enter_lower (ht : s.tick c = s.enter c w)
    (hm : ∀ pc, (s.pos c).Meets pc → pc ≠ .leaving ∧ pc ≠ .storing)
    (hs : ∀ pc, (s.pos c).rank pc = 9 + acquiring pc) (hw : ∀ pc, w.rank pc = 8) : ∃ act t,
      s.Step (c, act) t ∧ (t.pos c).rank (t.sys.pc c) < (s.pos c).rank (s.sys.pc c) := by
  by_cases he : s.useLock = 0 ∨ s.sys.pc c = .critical
  · refine ⟨.work, s.goto c w, .tick (ht.trans (if_pos he)), ?_⟩
    rw [goto_pos, hw, hs]
    omega
  · obtain ⟨hu, hne⟩ := not_or.mp he
    obtain ⟨sys, hsys, hpc⟩ := lockStep_eq s c
    refine ⟨.work, _, .tick (ht.trans ((if_neg he).trans hsys)), ?_⟩
    have hfree := hc.free hu
    have hmeets := hm _ (hp.meets hu)
    simp only [hs, hpc, Function.update_self]
    apply Nat.add_lt_add_left
    cases hq : s.sys.pc c with
    | idle | checking => simp [nextPc, acquiring]
    | spinning =>
      rw [hq] at hfree
      have hl : s.sys.lk.locked = 0 := hfree.resolve_right Bool.false_ne_true
      simp [nextPc, acquiring, hl]
    | critical => exact absurd hq hne
    | leaving => exact absurd hq hmeets.1
    | storing => exact absurd hq hmeets.2

lemma leave_lower (ht : s.tick c = s.leave c w)
    (hm : ∀ pc, (s.pos c).Meets pc → pc ≠ .checking ∧ pc ≠ .spinning)
    (hs : ∀ pc, (s.pos c).rank pc = 2 + releasing pc) (hw : ∀ pc, w.rank pc = 1) : ∃ act t,
      s.Step (c, act) t ∧ (t.pos c).rank (t.sys.pc c) < (s.pos c).rank (s.sys.pc c) := by
  by_cases he : s.useLock = 0 ∨ s.sys.pc c = .idle
  · refine ⟨.work, s.goto c w, .tick (ht.trans (if_pos he)), ?_⟩
    rw [goto_pos, hw, hs]
    omega
  · obtain ⟨hu, hne⟩ := not_or.mp he
    obtain ⟨sys, hsys, hpc⟩ := lockStep_eq s c
    refine ⟨.work, _, .tick (ht.trans ((if_neg he).trans hsys)), ?_⟩
    have hmeets := hm _ (hp.meets hu)
    simp only [hs, hpc, Function.update_self]
    apply Nat.add_lt_add_left
    cases hq : s.sys.pc c with
    | critical | leaving | storing => simp [nextPc, releasing]
    | idle => exact absurd hq hne
    | checking => exact absurd hq hmeets.1
    | spinning => exact absurd hq hmeets.2

include hc

lemma exists_lower (hr : (s.pos c).rank (s.sys.pc c) ≠ 0) : ∃ act t, s.Step (c, act) t ∧
    (t.pos c).rank (t.sys.pc c) < (s.pos c).rank (s.sys.pc c) := by
  have hgo : ∀ {t : Shared C}, s.tick c = some t → (t.pos c).rank (t.sys.pc c) < (s.pos c).rank (s.sys.pc c) →
      ∃ act t, s.Step (c, act) t ∧ (t.pos c).rank (t.sys.pc c) < (s.pos c).rank (s.sys.pc c) :=
    fun ht hlt => ⟨.work, _, .tick ht, hlt⟩
  cases hw : s.pos c with
  | client =>
    rw [hw] at hr
    exact absurd rfl hr
  | freeDone =>
    refine ⟨.retFree, _, .retFree hw, ?_⟩
    rw [goto_pos]
    exact Nat.one_pos
  | allocDone r =>
    refine ⟨.retAlloc (pointer r), _, .retAlloc hw, ?_⟩
    rw [goto_pos]
    exact Nat.one_pos
  | fill p i =>
    rw [← hw]
    by_cases hi : i < pageSize
    · refine hgo (by unfold Shared.tick; rw [hw]; exact if_pos hi) ?_
      rw [goto_pos, hw]
      simp only [Where.rank]
      omega
    · refine hgo (by unfold Shared.tick; rw [hw]; exact if_neg hi) ?_
      rw [goto_pos, hw]
      exact lt_of_le_of_lt (Nat.add_le_add_left (acquiring_le _) 9) (by simp only [Where.rank]; omega)
  | freeEnter | allocEnter =>
    rw [← hw]
    refine enter_lower hp hc (by unfold Shared.tick; rw [hw]) (fun pc => ?_) (fun pc => ?_) fun _ => rfl
    all_goals rw [hw]
    · exact id
    · rfl
  | freeLeave | allocLeave =>
    rw [← hw]
    refine leave_lower hp (by unfold Shared.tick; rw [hw]) (fun pc => ?_) (fun pc => ?_) fun _ => rfl
    all_goals rw [hw]
    · exact id
    · rfl
  | freeLink | freeStore | allocNext =>
    rw [← hw]
    refine hgo (by unfold Shared.tick; rw [hw]) ?_
    rw [goto_pos, hw]
    simp [Where.rank]
  | freeHead | allocHead =>
    rw [← hw]
    refine hgo (by unfold Shared.tick; rw [hw]) ?_
    rw [goto_pos, hw]
    exact lt_of_le_of_lt (Nat.add_le_add_left (releasing_le _) 2) (by simp [Where.rank])
  | allocRead =>
    rw [← hw]
    refine hgo (by unfold Shared.tick; rw [hw]) ?_
    rw [goto_pos, hw]
    split_ifs
    · exact Nat.lt_succ_self 7
    · exact lt_of_le_of_lt (Nat.add_le_add_left (releasing_le _) 2) (by simp [Where.rank])

end Lower

lemma exists_return (hp : Placed s) (hc : Clear s c) : ∃ as t, Run Shared.Step s as t ∧ (∀ a ∈ as, a.1 = c) ∧
    as.length ≤ (s.pos c).rank (s.sys.pc c) ∧ (Placed t ∧ Clear t c) ∧ t.pos c = .client := by
  have hlower : ∀ s : Shared C, Placed s ∧ Clear s c → (s.pos c).rank (s.sys.pc c) ≠ 0 →
      ∃ a t, a.1 = c ∧ Shared.Step s a t ∧ (Placed t ∧ Clear t c) ∧
        (t.pos c).rank (t.sys.pc c) < (s.pos c).rank (s.sys.pc c) := by
    rintro s ⟨hp, hc⟩ hr
    obtain ⟨act, t, hs, hlt⟩ := exists_lower hp hc hr
    exact ⟨(c, act), t, rfl, hs, ⟨hp.step hs, hc.step hs⟩, hlt⟩
  obtain ⟨as, t, hr, hq, hlen, ht, hz⟩ := Run.exists_descent hlower ⟨hp, hc⟩
  exact ⟨as, t, hr, hq, hlen, ht, Where.rank_eq_zero hz⟩

lemma run_useLock {as : List (C × Pool.Act Addr)} (h : Run Shared.Step s as t) : t.useLock = s.useLock := by
  induction h with
  | nil => rfl
  | cons hs _ ih => exact ih.trans (step_moves hs).useLock

omit [DecidableEq C] in
lemma Placed.owner (h : Placed s) (hu : s.useLock ≠ 0) (hd : s.pos d = .client) : ¬ s.sys.Owned (some d) := by
  intro ho
  have hpc := h.meets hu (c := d)
  rw [hd] at hpc
  have hin := (ho.inside d).mpr rfl
  rw [show s.sys.pc d = .idle from hpc] at hin
  exact Bool.noConfusion hin

omit [DecidableEq C] in
lemma Started.placed {free : List Addr} (h : Started free s) : Placed s := by
  refine ⟨⟨none, fun c => ?_, iff_of_true h.unlocked rfl⟩, fun c => ?_⟩
  · rw [h.idle]
    exact iff_of_false Bool.false_ne_true (Option.some_ne_none c).symm
  · split_ifs
    · exact h.idle c
    · rw [h.pos, h.idle]
      rfl

theorem calls_return {free : List Addr} {as : List (C × Pool.Act Addr)} (h : Started free s)
    (hr : Run Shared.Step s as t) (c : C) :
    ∃ bs u, Run Shared.Step t bs u ∧ u.pos c = .client ∧ bs.length ≤ pageSize + 22 ∧
      ∀ a ∈ bs, a.1 = c ∨ (t.sys.pc a.1).inside = true := by
  have ht : Placed t := hr.invariant (fun _ _ _ hp hs => hp.step hs) h.placed
  obtain ⟨o, ho⟩ := ht.owned
  by_cases hc : Clear t c
  · obtain ⟨bs, u, hu, hq, hlen, -, hpos⟩ := exists_return ht hc
    have hle := (t.pos c).rank_le (t.sys.pc c)
    exact ⟨bs, u, hu, hpos, by omega, fun a ha => Or.inl (hq a ha)⟩
  · obtain ⟨huse, hnone⟩ := not_or.mp hc
    obtain ⟨d, rfl⟩ : ∃ d, o = some d := by
      refine Option.ne_none_iff_exists'.mp fun hn => hnone ⟨o, ho, Or.inl hn⟩
    have hin : (t.sys.pc d).inside = true := (ho.inside d).mpr rfl
    -- first the processor that has the lock gets to the end of its call
    obtain ⟨bs, u, hu, hq, hlen, ⟨hup, hud⟩, hpos⟩ :=
      exists_return (c := d) ht (Or.inr ⟨_, ho, Or.inr rfl⟩)
    have huseu : u.useLock ≠ 0 := (run_useLock hu).trans_ne huse
    obtain ⟨o', ho', hod⟩ := hud.resolve_left huseu
    obtain rfl : o' = none := by
      rcases hod with rfl | rfl
      · rfl
      · exact absurd ho' (hup.owner huseu hpos)
    obtain ⟨cs, v, hv, hqv, hlenv, -, hposv⟩ := exists_return (c := c) hup (Or.inr ⟨_, ho', Or.inl rfl⟩)
    have hled := Where.rank_le_of_inside (ht.meets huse) hin
    have hlec := (u.pos c).rank_le (u.sys.pc c)
    refine ⟨bs ++ cs, v, Run.append_iff.mpr ⟨u, hu, hv⟩, hposv, ?_, fun a ha => ?_⟩
    · rw [List.length_append]
      omega
    · rcases List.mem_append.mp ha with ha | ha
      · exact Or.inr (hq a ha ▸ hin)
      · exact Or.inl (hqv a ha)

theorem calls_return_waiting : ∃ t, Run Shared.Step (onePage 1) [(true, .callAlloc), (true, .work), (true, .work),
      (true, .work), (false, .callAlloc)] t ∧
    ∃ bs u, Run Shared.Step t bs u ∧ u.pos false = .client ∧ bs.length ≤ pageSize + 22 ∧
      ∀ a ∈ bs, a.1 = false ∨ (t.sys.pc a.1).inside = true := by
  obtain ⟨t, hr⟩ : ∃ t, Run Shared.Step (onePage 1) [(true, .callAlloc), (true, .work), (true, .work),
      (true, .work), (false, .callAlloc)] t :=
    ⟨_, .cons (.callAlloc rfl) (.cons (.tick rfl) (.cons (.tick rfl) (.cons (.tick rfl)
      (.cons (.callAlloc rfl) (.nil _)))))⟩
  exact ⟨t, hr, calls_return (onePage_started 1) hr false⟩

end TinuOS.Kmem
