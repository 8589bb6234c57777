import TinuOS.Kmem.Alone

/-! With the lock, the calls of all processors behave as if each were one atomic step on a stack of
pages. -/

namespace TinuOS.Kmem

open Library Mem

variable {C : Type*} {s t : Shared C} {c d : C} {w : Where} {act : Pool.Act Addr}
  {u v : Pool C Addr} {pages : List Addr} {p q : Addr} {m : Machine}

structure Sim (pages : List Addr) (s : Shared C) (u : Pool C Addr) : Prop where
  free : s.machine.Free u.stack
  held : u.held = s.held
  phase : ∀ c, u.phase c = (s.pos c).phase
  excl : u.Exclusive pages
  loc : ∀ c, (s.pos c).Local s.machine

lemma Where.Local.congr (h : w.Local m) {m' : Machine} (hf : m'.freelist = m.freelist)
    (hm : ∀ p, w = .freeHead p ∨ (∃ n, w = .allocHead p n) → m'.mem.load32 p = m.mem.load32 p) : w.Local m' := by
  cases w with
  | freeStore p old => exact h.trans hf.symm
  | freeHead p =>
    have hp := hm p (Or.inl rfl)
    exact hp.trans (h.trans hf.symm)
  | allocNext r => exact ⟨h.1.trans hf.symm, h.2⟩
  | allocHead r n =>
    have hr := hm r (Or.inr ⟨n, rfl⟩)
    exact ⟨h.1.trans hf.symm, h.2.1, h.2.2.trans hr.symm⟩
  | _ => trivial

lemma Sim.mem_of_freeing (h : Sim pages s u) (hp : (s.pos c).phase = .freeing p) :
    (u.phase c).carried = some p := by
  rw [h.phase, hp]
  rfl

lemma Sim.mem_pages_of_carried (h : Sim pages s u) (hp : (u.phase c).carried = some p) : p ∈ pages :=
  (h.excl.all p).mpr (Or.inr ⟨c, hp⟩)

lemma Sim.touch_free (h : Sim pages s u) (hpages : ∀ p ∈ pages, PageAligned p) (hq : q ∈ pages)
    (hs : q ∉ u.stack) {mem : Mem} (hm : Agree mem s.machine.mem (page q)ᶜ) :
    ({ s.machine with mem := mem } : Machine).Free u.stack :=
  Threaded.frame_page h.free (hpages q hq) hs hm

lemma Sim.touch_local (h : Sim pages s u) (hpages : ∀ p ∈ pages, PageAligned p) (hq : q ∈ pages)
    (hs : q ∉ u.stack) (hd : (u.phase d).carried ≠ some q) {mem : Mem}
    (hm : Agree mem s.machine.mem (page q)ᶜ) : (s.pos d).Local { s.machine with mem := mem } := by
  refine (h.loc d).congr rfl fun p hp => ?_
  -- the page whose link it has in its hands
  have hpq : PageAligned p ∧ p ≠ q := by
    rcases hp with hp | ⟨n, hp⟩
    · have hcar : (u.phase d).carried = some p := h.mem_of_freeing (by rw [hp]; rfl)
      refine ⟨hpages p (h.mem_pages_of_carried hcar), ?_⟩
      rintro rfl
      exact hd hcar
    · have hloc := h.loc d
      rw [hp] at hloc
      obtain ⟨l, hl⟩ := Threaded.exists_cons h.free (hloc.1 ▸ hloc.2.1)
      have hmem : p ∈ u.stack := by
        rw [hl, hloc.1]
        exact List.mem_cons_self
      refine ⟨h.free.2 p hmem, ?_⟩
      rintro rfl
      exact hs hmem
  refine load32_congr (hm.mono ?_)
  refine (span_subset_page (by simp [pageSize])).trans ?_
  exact (page_disjoint (hpages q hq) hpq.1 hpq.2.symm).symm.subset_compl_right

lemma Guarded.others (hg : Guarded s) (hc : (s.pos c).critical = true)
    (m : Machine) (hd : d ≠ c) : (s.pos d).Local m := by
  apply local_of_not_critical
  by_contra hcrit
  exact hd (hg.alone (Bool.not_eq_false _ ▸ hcrit) hc)

variable [DecidableEq C]

lemma Sim.move (h : Sim pages s u) (hpos : t.pos = Function.update s.pos c w)
    (hphase : v.phase = Function.update u.phase c w.phase) (hexcl : v.Exclusive pages) (hheld : v.held = t.held)
    (hfree : t.machine.Free v.stack) (hw : w.Local t.machine)
    (hothers : ∀ d, d ≠ c → (s.pos d).Local t.machine) : Sim pages t v := by
  refine ⟨hfree, hheld, fun d => ?_, hexcl, fun d => ?_⟩
  · rw [hphase, hpos, Function.update_apply, Function.update_apply]
    split_ifs
    · rfl
    · exact h.phase d
  · rw [hpos, Function.update_apply]
    split_ifs with hd
    · exact hw
    · exact hothers d hd

lemma Sim.stay (h : Sim pages s u) (hpos : t.pos = Function.update s.pos c w) (hp : w.phase = (s.pos c).phase)
    (hheld : t.held = s.held) (hfree : t.machine.Free u.stack) (hw : w.Local t.machine)
    (hothers : ∀ d, d ≠ c → (s.pos d).Local t.machine) : Sim pages t u := by
  refine h.move hpos ?_ h.excl (h.held.trans hheld.symm) hfree hw hothers
  rw [hp, ← h.phase, Function.update_eq_self]

omit [DecidableEq C] in
lemma Sim.unmoved (h : Sim pages s u) (hpos : t.pos = s.pos) (hheld : t.held = s.held)
    (hmachine : t.machine = s.machine) : Sim pages t u := by
  refine ⟨hmachine ▸ h.free, h.held.trans hheld.symm, fun d => ?_, h.excl, fun d => ?_⟩
  · rw [hpos]
    exact h.phase d
  · rw [hpos, hmachine]
    exact h.loc d

lemma Sim.lockStep (h : Sim pages s u) (hs : s.lockStep c = some t) : Sim pages t u := by
  obtain ⟨sys, -, rfl⟩ := Option.map_eq_some_iff.mp hs
  exact h.unmoved rfl rfl rfl

lemma Sim.enter (h : Sim pages s u) (hp : w.phase = (s.pos c).phase) (hw : w.Local s.machine)
    (hs : s.enter c w = some t) : Sim pages t u := by
  unfold Shared.enter at hs
  split_ifs at hs
  · obtain rfl := Option.some.inj hs
    exact h.stay rfl hp rfl h.free hw fun d _ => h.loc d
  · exact h.lockStep hs

lemma Sim.leave (h : Sim pages s u) (hp : w.phase = (s.pos c).phase) (hw : w.Local s.machine)
    (hs : s.leave c w = some t) : Sim pages t u := by
  unfold Shared.leave at hs
  split_ifs at hs
  · obtain rfl := Option.some.inj hs
    exact h.stay rfl hp rfl h.free hw fun d _ => h.loc d
  · exact h.lockStep hs

omit [DecidableEq C] in
lemma Sim.freeing (h : Sim pages s u) (hp : (s.pos c).phase = .freeing p) :
    p ∈ pages ∧ p ∉ u.stack ∧ ∀ d, d ≠ c → (u.phase d).carried ≠ some p := by
  have hcar := h.mem_of_freeing hp
  refine ⟨h.mem_pages_of_carried hcar, fun hs => ?_, fun d hd hc => hd (h.excl.single d c p hc hcar)⟩
  exact h.excl.carried c p hcar (List.mem_append_left _ hs)

lemma Sim.link (h : Sim pages s u) (hpages : ∀ p ∈ pages, PageAligned p) {old : Addr}
    (hp : s.pos c = .freeStore p old) :
    Sim pages ({ s with machine.mem := s.machine.mem.store32 p old }.goto c (.freeHead p)) u := by
  obtain ⟨hmem, hs, hd⟩ := h.freeing (c := c) (p := p) (by rw [hp]; rfl)
  have hloc := h.loc c
  rw [hp] at hloc
  have hm : Agree (s.machine.mem.store32 p old) s.machine.mem (page p)ᶜ :=
    (store32_agree old).mono (Set.compl_subset_compl.mpr (span_subset_page (by simp [pageSize])))
  refine h.stay rfl (by rw [hp]; rfl) rfl (h.touch_free hpages hmem hs hm) ?_ ?_
  · exact (load32_store32 old).trans hloc
  · exact fun d hdc => h.touch_local hpages hmem hs (hd d hdc) hm

lemma Sim.fill (h : Sim pages s u) (hpages : ∀ p ∈ pages, PageAligned p) {i : ℕ} (hi : i < pageSize)
    (hp : s.pos c = .fill p i) :
    Sim pages ({ s with machine.mem := s.machine.mem.store8 (p + BitVec.ofNat 32 i) 1 }.goto c
      (.fill p (i + 1))) u := by
  obtain ⟨hmem, hs, hd⟩ := h.freeing (c := c) (p := p) (by rw [hp]; rfl)
  have hm : Agree (s.machine.mem.store8 (p + BitVec.ofNat 32 i) 1) s.machine.mem (page p)ᶜ := by
    refine (store8_agree 1).mono (Set.compl_subset_compl.mpr (span_subset ?_))
    rw [pageSize] at hi ⊢
    bv_omega
  refine h.stay rfl (by rw [hp]; rfl) rfl (h.touch_free hpages hmem hs hm) trivial ?_
  exact fun d hdc => h.touch_local hpages hmem hs (hd d hdc) hm

lemma Sim.push (h : Sim pages s u) (hpages : ∀ p ∈ pages, PageAligned p ∧ p ≠ 0) (hg : Guarded s)
    (hp : s.pos c = .freeHead p) : ∃ v, Pool.Step u (c, .work) v ∧
      Sim pages ({ s with machine.freelist := p }.goto c .freeLeave) v := by
  obtain ⟨hmem, hs, -⟩ := h.freeing (c := c) (p := p) (by rw [hp]; rfl)
  have hloc := h.loc c
  rw [hp] at hloc
  have hstep : Pool.Step u (c, .work) { u.put c .freed with stack := p :: u.stack } :=
    .push (by rw [h.phase, hp]; rfl)
  refine ⟨_, hstep, h.move rfl rfl (h.excl.step hstep) h.held ?_ trivial ?_⟩
  · exact Threaded.push h.free (hpages p hmem).1 (hpages p hmem).2 hs (fun _ _ => rfl) hloc
  · exact fun d hd => hg.others (by rw [hp]; rfl) _ hd

lemma Sim.pop (h : Sim pages s u) (hg : Guarded s) {r next : Addr} (hp : s.pos c = .allocHead r next) :
    ∃ v, Pool.Step u (c, .work) v ∧
      Sim pages ({ s with machine.freelist := next }.goto c (.allocLeave r)) v := by
  have hloc := h.loc c
  rw [hp] at hloc
  obtain ⟨hr, hr0, rfl⟩ := hloc
  obtain ⟨l, hl⟩ := Threaded.exists_cons h.free (hr ▸ hr0)
  rw [← hr] at hl
  have hstep : Pool.Step u (c, .work) { u.put c (.allocated u.stack.head?) with stack := u.stack.tail } :=
    .pop (by rw [h.phase, hp]; rfl)
  refine ⟨_, hstep, h.move rfl ?_ (h.excl.step hstep) h.held ?_ trivial ?_⟩
  · rw [hl]
    simp only [Where.phase, pointer, if_neg hr0]
    rfl
  · have hf := h.free
    rw [Machine.Free, hl] at hf
    rw [hl]
    exact (Threaded.pop hf).2.2
  · exact fun d hd => hg.others (by rw [hp]; rfl) _ hd

lemma Sim.popNone (h : Sim pages s u) (h0 : s.machine.freelist = 0) (hp : s.pos c = .allocRead) :
    ∃ v, Pool.Step u (c, .work) v ∧ Sim pages (s.goto c (.allocLeave s.machine.freelist)) v := by
  have hf := h.free
  rw [Machine.Free, h0] at hf
  have hnil := Threaded.eq_nil hf
  have hstep : Pool.Step u (c, .work) { u.put c (.allocated u.stack.head?) with stack := u.stack.tail } :=
    .pop (by rw [h.phase, hp]; rfl)
  refine ⟨_, hstep, h.move rfl ?_ (h.excl.step hstep) h.held ?_ trivial fun d _ => h.loc d⟩
  · rw [hnil, h0]
    rfl
  · have htail : u.stack.tail = u.stack := by rw [hnil, List.tail_nil]
    change s.machine.Free u.stack.tail
    rw [htail]
    exact h.free

lemma Sim.tick (h : Sim pages s u) (hpages : ∀ p ∈ pages, PageAligned p ∧ p ≠ 0) (hg : Guarded s)
    (hs : s.tick c = some t) : ∃ v, Pool.Step u (c, .work) v ∧ Sim pages t v := by
  have hal : ∀ p ∈ pages, PageAligned p := fun p hp => (hpages p hp).1
  have hothers : ∀ d, d ≠ c → (s.pos d).Local s.machine := fun d _ => h.loc d
  unfold Shared.tick at hs
  cases hp : s.pos c with
  | client | freeDone | allocDone => simp [hp] at hs
  | freeEnter | allocEnter =>
    rw [hp] at hs
    exact ⟨u, .stay u c, h.enter (by rw [hp]; rfl) (by trivial) hs⟩
  | freeLeave | allocLeave =>
    rw [hp] at hs
    exact ⟨u, .stay u c, h.leave (by rw [hp]; rfl) (by trivial) hs⟩
  | fill p i =>
    simp only [hp] at hs
    split_ifs at hs with hi
    · obtain rfl := Option.some.inj hs
      exact ⟨u, .stay u c, h.fill hal hi hp⟩
    · obtain rfl := Option.some.inj hs
      exact ⟨u, .stay u c, h.stay rfl (by rw [hp]; rfl) rfl h.free trivial hothers⟩
  | freeLink p =>
    simp only [hp, Option.some.injEq] at hs
    subst hs
    exact ⟨u, .stay u c, h.stay rfl (by rw [hp]; rfl) rfl h.free rfl hothers⟩
  | freeStore p old =>
    simp only [hp, Option.some.injEq] at hs
    subst hs
    exact ⟨u, .stay u c, h.link hal hp⟩
  | freeHead p =>
    simp only [hp, Option.some.injEq] at hs
    subst hs
    exact h.push hpages hg hp
  | allocRead =>
    simp only [hp, Option.some.injEq] at hs
    subst hs
    by_cases h0 : s.machine.freelist = 0
    · rw [if_neg (not_not.mpr h0)]
      exact h.popNone h0 hp
    · rw [if_pos h0]
      exact ⟨u, .stay u c, h.stay rfl (by rw [hp]; rfl) rfl h.free ⟨rfl, h0⟩ hothers⟩
  | allocNext r =>
    simp only [hp, Option.some.injEq] at hs
    subst hs
    have hloc := h.loc c
    rw [hp] at hloc
    exact ⟨u, .stay u c, h.stay rfl (by rw [hp]; rfl) rfl h.free ⟨hloc.1, hloc.2, rfl⟩ hothers⟩
  | allocHead r next =>
    simp only [hp, Option.some.injEq] at hs
    subst hs
    exact h.pop hg hp

lemma Sim.step (h : Sim pages s u) (hpages : ∀ p ∈ pages, PageAligned p ∧ p ≠ 0) (hg : Guarded s)
    (hs : s.Step (c, act) t) : ∃ v, Pool.Step u (c, act) v ∧ Sim pages t v := by
  have hothers : ∀ d, d ≠ c → (s.pos d).Local s.machine := fun d _ => h.loc d
  cases hs with
  | tick ht => exact h.tick hpages hg ht
  | callAlloc hp =>
    have hstep : Pool.Step u (c, .callAlloc) (u.put c .allocating) := .callAlloc (by rw [h.phase, hp]; rfl)
    exact ⟨_, hstep, h.move rfl rfl (h.excl.step hstep) h.held h.free trivial hothers⟩
  | @retAlloc _ r hp =>
    have hstep : Pool.Step u (c, .retAlloc (pointer r))
        { u.put c .idle with held := (pointer r).toList ++ u.held } := .retAlloc (by rw [h.phase, hp]; rfl)
    refine ⟨_, hstep, h.move rfl rfl (h.excl.step hstep) (by rw [h.held]) h.free trivial fun d _ => ?_⟩
    exact (h.loc d).congr rfl fun _ _ => rfl
  | @callFree _ p hp hmem =>
    have hstep : Pool.Step u (c, .callFree p) { u.put c (.freeing p) with held := u.held.erase p } :=
      .callFree (by rw [h.phase, hp]; rfl) (h.held ▸ hmem)
    have hmem' : (Shared.warned s.machine p).mem = s.machine.mem := by
      unfold Shared.warned
      split_ifs <;> rfl
    have hlist : (Shared.warned s.machine p).freelist = s.machine.freelist := by
      unfold Shared.warned
      split_ifs <;> rfl
    refine ⟨_, hstep, h.move rfl rfl (h.excl.step hstep) (by rw [h.held]) ?_ trivial fun d _ => ?_⟩
    · change Threaded (Shared.warned s.machine p).mem (Shared.warned s.machine p).freelist u.stack
      rw [hmem', hlist]
      exact h.free
    · exact (h.loc d).congr hlist fun _ _ => by rw [hmem']
  | retFree hp =>
    have hstep : Pool.Step u (c, .retFree) (u.put c .idle) := .retFree (by rw [h.phase, hp]; rfl)
    exact ⟨_, hstep, h.move rfl rfl (h.excl.step hstep) h.held h.free trivial hothers⟩
  | @write _ p a v hmem ha =>
    have hal : ∀ p ∈ pages, PageAligned p := fun p hp => (hpages p hp).1
    have hrest : p ∈ u.atRest := List.mem_append_right _ (h.held ▸ hmem)
    have hp : p ∈ pages := (h.excl.all p).mpr (Or.inl hrest)
    have hstack : p ∉ u.stack := fun hs =>
      (List.nodup_append.mp h.excl.nodup).2.2 p hs p (h.held ▸ hmem) rfl
    have hm : Agree (s.machine.mem.store8 a v) s.machine.mem (page p)ᶜ := by
      refine (store8_agree v).mono (Set.compl_subset_compl.mpr (span_subset ?_))
      exact Nat.succ_le_of_lt ha
    refine ⟨u, .stay u c, h.touch_free hal hp hstack hm, h.held, h.phase, h.excl, fun d => ?_⟩
    exact h.touch_local hal hp hstack (fun hd => h.excl.carried d p hd hrest) hm

structure Started (free : List Addr) (s : Shared C) : Prop where
  free : s.machine.Free free
  held : s.held = []
  pos : ∀ c, s.pos c = .client
  idle : ∀ c, s.sys.pc c = .idle
  unlocked : s.sys.lk.locked = 0

omit [DecidableEq C] in
lemma Started.sim {free : List Addr} (h : Started free s) : Sim free s (Pool.start free) := by
  refine ⟨h.free, h.held.symm, fun c => ?_, Pool.start_exclusive (Threaded.nodup h.free), fun c => ?_⟩
  · rw [h.pos]
    rfl
  · rw [h.pos]
    trivial

omit [DecidableEq C] in
lemma Started.guarded {free : List Addr} (h : Started free s) (hl : s.useLock ≠ 0 ∨ Subsingleton C) :
    Guarded s := by
  refine hl.symm.imp_right fun hl => ⟨hl, ⟨none, fun c => ?_, ?_⟩, fun c hc => ?_⟩
  · rw [h.idle]
    exact iff_of_false Bool.false_ne_true (Option.some_ne_none c).symm
  · exact iff_of_true h.unlocked rfl
  · rw [h.pos] at hc
    exact absurd hc Bool.false_ne_true

lemma Sim.run {as : List (C × Pool.Act Addr)} (h : Sim pages s u) (hpages : ∀ p ∈ pages, PageAligned p ∧ p ≠ 0)
    (hg : Guarded s) (hr : Run Shared.Step s as t) : ∃ v, Run Pool.Step u as v ∧ Sim pages t v := by
  obtain ⟨v, hv, hs, -⟩ := hr.simulation (R := fun s u => Sim pages s u ∧ Guarded s)
    (fun s ⟨c, act⟩ t u hu hs => by
      obtain ⟨v, hv, hsim⟩ := hu.1.step hpages hu.2 hs
      exact ⟨v, hv, hsim, hu.2.step hs⟩) ⟨h, hg⟩
  exact ⟨v, hv, hs⟩

lemma Sim.of_run {free : List Addr} {as : List (C × Pool.Act Addr)} (h : Started free s)
    (hl : s.useLock ≠ 0 ∨ Subsingleton C) (hr : Run Shared.Step s as t) :
    ∃ u, Run Pool.Step (Pool.start free) as u ∧ Sim free t u :=
  h.sim.run (fun p hp => ⟨h.free.2 p hp, Threaded.ne_null h.free hp⟩) (h.guarded hl) hr

section

variable (hl : s.useLock = 0)

include hl

lemma tick_enter (hp : s.pos c = .allocEnter) : s.tick c = some (s.goto c .allocRead) := by
  simp only [Shared.tick, hp]
  exact if_pos (Or.inl hl)

lemma tick_leave {r : Addr} (hp : s.pos c = .allocLeave r) : s.tick c = some (s.goto c (.allocDone r)) := by
  simp only [Shared.tick, hp]
  exact if_pos (Or.inl hl)

lemma run_to_head (hp : s.pos c = .client) (h0 : s.machine.freelist ≠ 0) :
    Run Shared.Step s [(c, .callAlloc), (c, .work), (c, .work), (c, .work)]
      (s.goto c (.allocHead s.machine.freelist (s.machine.mem.load32 s.machine.freelist))) := by
  have henter := tick_enter (s := s.goto c .allocEnter) hl goto_pos
  rw [goto_goto] at henter
  exact .cons (.callAlloc hp) (.cons (.tick henter) (.cons (.tick (tick_allocRead h0))
    (.cons (.tick tick_allocNext) (.nil _))))

lemma run_from_head {r next : Addr} (hp : s.pos c = .allocHead r next) :
    Run Shared.Step s [(c, .work), (c, .work), (c, .retAlloc (pointer r))] { s.goto c .client with
      machine := { s.machine with freelist := next }.emit (.kalloc r), held := (pointer r).toList ++ s.held } := by
  have hhead : s.tick c = some ({ s with machine.freelist := next }.goto c (.allocLeave r)) := by
    simp only [Shared.tick, hp]
  have hleave := tick_leave (s := { s with machine.freelist := next }.goto c (.allocLeave r)) (c := c)
    (r := r) hl goto_pos
  refine .cons (.tick hhead) (.cons (.tick hleave) (.cons ?_ (.nil _)))
  have hret := Shared.Step.retAlloc (s := ({ s with machine.freelist := next }.goto c (.allocLeave r)).goto c
    (.allocDone r)) (c := c) (r := r) goto_pos
  simp only [Shared.goto, Function.update_idem] at hret ⊢
  exact hret

lemma run_twice (hcd : c ≠ d) (hc : s.pos c = .client) (hd : s.pos d = .client) (h0 : s.machine.freelist ≠ 0)
    (hheld : s.held = []) : ∃ as t, Run Shared.Step s as t ∧
      t.held = [s.machine.freelist, s.machine.freelist] := by
  let r := s.machine.freelist
  let w := Where.allocHead r (s.machine.mem.load32 r)
  have hone : Run Shared.Step s _ (s.goto c w) := run_to_head hl hc h0
  have htwo : Run Shared.Step (s.goto c w) _ ((s.goto c w).goto d w) :=
    run_to_head (s := s.goto c w) (c := d) hl ((Function.update_of_ne hcd.symm _ _).trans hd) h0
  have hcw : ((s.goto c w).goto d w).pos c = w := by
    simp [Shared.goto, Function.update_of_ne hcd]
  have hthree := run_from_head (s := (s.goto c w).goto d w) (c := c) hl hcw
  have hdw : ((((s.goto c w).goto d w).goto c .client).pos d) = w := by
    simp [Shared.goto, Function.update_of_ne hcd.symm]
  have hfour := run_from_head (c := d) (s := { ((s.goto c w).goto d w).goto c .client with
    machine := { s.machine with freelist := s.machine.mem.load32 r }.emit (.kalloc r),
    held := (pointer r).toList ++ s.held }) hl hdw
  refine ⟨_, _, Run.append_iff.mpr ⟨_, hone, Run.append_iff.mpr ⟨_, htwo, Run.append_iff.mpr
    ⟨_, hthree, hfour⟩⟩⟩, ?_⟩
  have hr : pointer r = some r := if_neg h0
  simp only [hr, hheld]
  rfl

end

/-- The calls of all processors are linearizable, with what clients hold as the visible outcome. -/
def Linearizable (free : List Addr) (s : Shared C) : Prop :=
  ∀ as t, Run Shared.Step s as t →
    ∃ u, Run Pool.Step (Pool.start free) as u ∧ u.held = t.held ∧ t.machine.Free u.stack

theorem linearizable_iff {free : List Addr} (h : Started free s) (hne : free ≠ []) :
    Linearizable free s ↔ s.useLock ≠ 0 ∨ Subsingleton C := by
  constructor
  · intro hlin
    by_contra hnot
    obtain ⟨hl, hsub⟩ := not_or.mp hnot
    obtain ⟨c, d, hcd⟩ := not_subsingleton_iff_nontrivial.mp hsub
    obtain ⟨p, l, rfl⟩ := List.exists_cons_of_ne_nil hne
    have hp := Threaded.pop h.free
    have h0 : s.machine.freelist ≠ 0 := hp.1 ▸ hp.2.1
    obtain ⟨as, t, hr, ht⟩ := run_twice (not_not.mp hl) hcd (h.pos c) (h.pos d) h0 h.held
    obtain ⟨u, hu, hheld, -⟩ := hlin as t hr
    have hnd := (Pool.exclusive_of_run (Threaded.nodup h.free) hu).nodup
    have hnodup : u.held.Nodup := (List.nodup_append.mp hnd).2.1
    rw [hheld, ht] at hnodup
    exact (List.nodup_cons.mp hnodup).1 List.mem_cons_self
  · intro hl as t hr
    obtain ⟨u, hu, hs⟩ := Sim.of_run h hl hr
    exact ⟨u, hu, hs.held, hs.free⟩

lemma onePage_started (useLock : BitVec 32) : Started [0x80123000] (onePage useLock) := by
  have hlast : (⟨fun _ => 0⟩ : Mem).load32 0x80123000 = 0 := by decide
  refine ⟨⟨⟨rfl, by decide, hlast⟩, fun p hp => ?_⟩, rfl, fun _ => rfl, fun _ => rfl, rfl⟩
  rw [List.mem_singleton.mp hp]
  decide

theorem linearizable_iff_unlocked :
    Linearizable [0x80123000] (onePage 0) ↔ (onePage 0).useLock ≠ 0 ∨ Subsingleton Bool :=
  linearizable_iff (onePage_started 0) (by decide)

theorem pages_exclusive {free : List Addr} {as : List (C × Pool.Act Addr)} (h : Started free s)
    (hl : s.useLock ≠ 0) (hr : Run Shared.Step s as t) :
    ∃ l, t.machine.Free l ∧ (l ++ t.held).Nodup ∧
      (∀ c p, (t.pos c).phase.carried = some p → p ∉ l ++ t.held) ∧
      (∀ c d p, (t.pos c).phase.carried = some p → (t.pos d).phase.carried = some p → c = d) ∧
      ∀ p, p ∈ free ↔ p ∈ l ++ t.held ∨ ∃ c, (t.pos c).phase.carried = some p := by
  obtain ⟨u, -, hs⟩ := Sim.of_run h (Or.inl hl) hr
  have hrest : u.atRest = u.stack ++ t.held := congrArg (u.stack ++ ·) hs.held
  have hexcl := hs.excl
  refine ⟨u.stack, hs.free, hrest ▸ hexcl.nodup, fun c p hc => ?_, fun c d p hc hd => ?_, fun p => ?_⟩
  · rw [← hrest]
    exact hexcl.carried c p (hs.phase c ▸ hc)
  · exact hexcl.single c d p (hs.phase c ▸ hc) (hs.phase d ▸ hd)
  · rw [← hrest, hexcl.all]
    simp only [hs.phase]

theorem pages_exclusive_called : ∃ as bs t u l, Run Shared.Step (onePage 1) as t ∧ t.held = [0x80123000] ∧
    Run Shared.Step t bs u ∧ (false, .callFree 0x80123000) ∈ bs ∧ u.held = [] ∧
    Run Shared.Step (onePage 1) (as ++ bs) u ∧ u.machine.Free l ∧ (l ++ u.held).Nodup := by
  obtain ⟨m, t, ht, hrest, -, hheld⟩ := run_kalloc true (onePage_resting 1)
  have htaken : t.held = [0x80123000] := hheld
  obtain ⟨n, u, hu, -, -, hback⟩ := run_kfree (c := false) hrest (by rw [htaken]; exact List.mem_cons_self)
  have hrun := Run.append_iff.mpr ⟨t, ht, hu⟩
  obtain ⟨l, hl, hnd, -⟩ := pages_exclusive (onePage_started 1) (by decide) hrun
  refine ⟨_, _, t, u, l, ht, htaken, hu, List.mem_cons_self, ?_, hrun, hl, hnd⟩
  rw [hback, htaken]
  rfl

end TinuOS.Kmem
