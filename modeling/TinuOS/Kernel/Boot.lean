import TinuOS.Kernel.Model
import TinuOS.Rtc.OnScreen

/-! The kernel sleeps for 40 interrupts of the timer and then shows the time; on the way there only a name
that is in no table stops it. -/

namespace TinuOS.Kernel

open Library Monitor Interrupts Trap

def Phase.woken : Phase → Bool
  | .rtcHandler | .rtcPrintStruct | .pagingInstall => true
  | .initTimer | .rtcInstall | .sleep | .waiting => false

def Phase.read : Phase → Bool
  | .rtcPrintStruct | .pagingInstall => true
  | .initTimer | .rtcInstall | .sleep | .waiting | .rtcHandler => false

variable {δ : Type*}

def Table (k : World δ) : Prop := ∀ v, k.interruptDescriptors v =
  if v = 32 ∧ k.state.2.phase ≠ .initTimer then some .timerCallback else none

structure Sound (D : Rtc.Device δ) (I : Rtc.Image) (U : Rtc.Unset) (memory : ℕ → BitVec 16) (n : ℕ)
    (k : World δ) : Prop where
  table : Table k
  tick : ∃ j ≤ n, k.state.1.tick = BitVec.ofNat 32 j ∧
    (k.state.2.phase = .waiting → ∃ i ≤ j, k.state.2.deadline = BitVec.ofNat 32 i + 40)
  woken : k.state.2.phase.woken = true → 40 ≤ n
  read : k.state.2.phase.read = true → ∃ d, k.state.2.currentTime = (Rtc.readTime D d).1
  blank : k.state.2.phase ≠ .pagingInstall → k.state.2.terminal = booted memory
  printed : k.state.2.phase = .pagingInstall → (∃ fuel z, k.state.2.terminal = z.terminal ∧
    Rtc.rtcPrintStruct terminalPutchar I U k.state.2.currentTime ⟨booted memory, []⟩ fuel = some z) ∧
      Named k.state.2.currentTime

variable {D : Rtc.Device δ} {I : Rtc.Image} {U : Rtc.Unset} {memory : ℕ → BitVec 16} {n : ℕ} {k : World δ}
  {d u : Dispatcher Handler (Timer.Clock × State δ)} {e : Event Handler (Timer.Clock × State δ)} {i : Fin 16}
  {cpu : Cpu} {f : Frame} {fuel : ℕ} {as : List (Event Handler (Timer.Clock × State δ))}
  {layout : Interrupts.Layout} {m t : Machine Handler (Timer.Clock × State δ)}

def ticked (k : World δ) : World δ := { k with state := (Timer.timerCallback k.state.1, k.state.2) }

lemma lineVector_eq_iff : lineVector i = 32 ↔ i = 0 := by
  revert i
  decide

lemma Table.handle (h : Table k) (i : Fin 16) (cpu : Cpu) (f : Frame) : Dispatcher.handle code k i cpu f =
    if i = 0 ∧ k.state.2.phase ≠ .initTimer then ticked k else k := by
  have hv := h (lineVector i)
  simp only [lineVector_eq_iff] at hv
  unfold Dispatcher.handle
  rw [hv]
  split_ifs <;> rfl

lemma forty_le {j i : ℕ} (hi : i ≤ j) (h : ¬ BitVec.ofNat 32 j < BitVec.ofNat 32 i + 40#32) : 40 ≤ j := by
  by_contra hj
  apply h
  bv_omega

lemma Entered.sound (h : Entered memory k) (ht : k.interruptDescriptors = fun _ => none) :
    Sound D I U memory 0 k := by
  refine ⟨fun v => ?_, ⟨0, le_rfl, h.tick, fun hp => ?_⟩, fun hp => ?_, fun hp => ?_, fun _ => h.terminal,
    fun hp => ?_⟩
  · rw [ht, h.phase]
    exact (if_neg fun hv => hv.2 rfl).symm
  · rw [h.phase] at hp
    exact Phase.noConfusion hp
  all_goals
    rw [h.phase] at hp
    cases hp

lemma Sound.succ (h : Sound D I U memory n k) : Sound D I U memory (n + 1) k := by
  obtain ⟨j, hj, htick⟩ := h.tick
  exact ⟨h.table, ⟨j, Nat.le_succ_of_le hj, htick⟩, fun hp => Nat.le_succ_of_le (h.woken hp), h.read, h.blank,
    h.printed⟩

lemma Sound.ticked (h : Sound D I U memory n k) : Sound D I U memory (n + 1) (ticked k) := by
  obtain ⟨j, hj, htick, hwait⟩ := h.tick
  refine ⟨h.table, ⟨j + 1, Nat.succ_le_succ hj, ?_, fun hp => ?_⟩, h.succ.woken, h.read, h.blank, h.printed⟩
  · exact (Timer.timerCallback_tick _).trans (by rw [htick, BitVec.ofNat_add]; rfl)
  · obtain ⟨i, hi, hd⟩ := hwait hp
    exact ⟨i, Nat.le_succ_of_le hi, hd⟩

lemma Sound.put {s : State δ} (h : Sound D I U memory n k) (hq : k.state.2.phase ≠ .initTimer)
    (hs : s.phase ≠ .initTimer)
    (hwait : s.phase = .waiting → s.deadline = k.state.1.tick + 40) (hwoken : s.phase.woken = true → 40 ≤ n)
    (hread : s.phase.read = true → ∃ d, s.currentTime = (Rtc.readTime D d).1)
    (hblank : s.phase ≠ .pagingInstall → s.terminal = booted memory)
    (hprinted : s.phase = .pagingInstall → (∃ fuel z, s.terminal = z.terminal ∧
      Rtc.rtcPrintStruct terminalPutchar I U s.currentTime ⟨booted memory, []⟩ fuel = some z) ∧
        Named s.currentTime) :
    Sound D I U memory n (k.put s) := by
  obtain ⟨j, hj, htick, -⟩ := h.tick
  refine ⟨fun v => ?_, ⟨j, hj, htick, fun hp => ⟨j, le_rfl, ?_⟩⟩, hwoken, hread, hblank, hprinted⟩
  · exact (h.table v).trans (if_congr (and_congr_right fun _ => iff_of_true hq hs) rfl rfl)
  · rw [← htick]
    exact hwait hp

lemma next_initTimer (hp : k.state.2.phase = .initTimer) : next D I U fuel k = (k.put { k.state.2 with
    phase := .rtcInstall, outs := (Timer.initTimer ⟨fun _ => none, k.state.2.outs⟩ 1000).outs }).registerInterruptHandler
      32 .timerCallback := by
  simp only [next, hp]

lemma next_rtcInstall (hp : k.state.2.phase = .rtcInstall) : next D I U fuel k = k.put { k.state.2 with
    phase := .sleep, bcd := (Rtc.rtcInstall D k.state.2.rtc).1, rtc := (Rtc.rtcInstall D k.state.2.rtc).2 } := by
  simp only [next, hp]

lemma next_sleep (hp : k.state.2.phase = .sleep) : next D I U fuel k = k.put { k.state.2 with
    phase := .waiting, deadline := k.state.1.tick + 40 } := by
  simp only [next, hp]

lemma next_waiting (hp : k.state.2.phase = .waiting) : next D I U fuel k =
    if k.state.1.tick < k.state.2.deadline then k else k.put { k.state.2 with phase := .rtcHandler } := by
  simp only [next, hp]

lemma next_rtcHandler (hp : k.state.2.phase = .rtcHandler) : next D I U fuel k =
    ((Rtc.rtcHandler D U.curr k.state.2.currentTime k.state.2.rtc fuel).map fun r => k.put { k.state.2 with
      phase := .rtcPrintStruct, currentTime := r.currentTime, rtc := r.device }).getD k := by
  simp only [next, hp]

lemma next_rtcPrintStruct (hp : k.state.2.phase = .rtcPrintStruct) (hn : Named k.state.2.currentTime) :
    next D I U fuel k = ((Rtc.rtcPrintStruct terminalPutchar I U k.state.2.currentTime ⟨k.state.2.terminal, []⟩ fuel).map fun z =>
      k.put { k.state.2 with phase := .pagingInstall, terminal := z.terminal }).getD k := by
  simp only [next, hp, if_pos hn]

lemma next_unnamed (hp : k.state.2.phase = .rtcPrintStruct) (hn : ¬ Named k.state.2.currentTime) :
    next D I U fuel k = k := by
  simp only [next, hp, if_neg hn]

lemma next_pagingInstall (hp : k.state.2.phase = .pagingInstall) : next D I U fuel k = k := by
  simp only [next, hp]

lemma Sound.next (h : Sound D I U memory n k) (fuel : ℕ) : Sound D I U memory n (next D I U fuel k) := by
  obtain ⟨j, hj, htick, hwait⟩ := h.tick
  cases hp : k.state.2.phase with
  | initTimer =>
    rw [next_initTimer hp]
    refine ⟨fun v => ?_, ⟨j, hj, htick, Phase.noConfusion⟩, Bool.noConfusion, Bool.noConfusion,
      fun _ => h.blank (by simp [hp]), Phase.noConfusion⟩
    by_cases hv : v = 32
    · rw [hv]
      exact (Env.registerInterruptHandler_self _ _ _).trans (if_pos ⟨rfl, Phase.noConfusion⟩).symm
    · rw [Env.registerInterruptHandler_of_ne _ _ hv, if_neg fun hq => hv hq.1]
      exact (h.table v).trans (if_neg fun hq => hv hq.1)
  | rtcInstall =>
    rw [next_rtcInstall hp]
    exact h.put (by simp [hp]) (by simp) (by simp) (by simp [Phase.woken]) (by simp [Phase.read])
      (fun _ => h.blank (by simp [hp])) (by simp)
  | sleep =>
    rw [next_sleep hp]
    exact h.put (by simp [hp]) (by simp) (fun _ => rfl) (by simp [Phase.woken]) (by simp [Phase.read])
      (fun _ => h.blank (by simp [hp])) (by simp)
  | waiting =>
    rw [next_waiting hp]
    obtain ⟨i, hi, hd⟩ := hwait hp
    split_ifs with hlt
    · exact h
    · rw [htick, hd] at hlt
      exact h.put (by simp [hp]) (by simp) (by simp) (fun _ => (forty_le hi hlt).trans hj) (by simp [Phase.read])
        (fun _ => h.blank (by simp [hp])) (by simp)
  | rtcHandler =>
    rw [next_rtcHandler hp]
    cases hr : Rtc.rtcHandler D U.curr k.state.2.currentTime k.state.2.rtc fuel with
    | none => exact h
    | some r =>
      exact h.put (by simp [hp]) (by simp) (by simp) (fun _ => h.woken (by rw [hp]; rfl))
        (fun _ => ⟨_, congrArg Prod.fst (Rtc.rtcHandler_reads hr)⟩) (fun _ => h.blank (by simp [hp])) (by simp)
  | rtcPrintStruct =>
    by_cases hn : Named k.state.2.currentTime
    · rw [next_rtcPrintStruct hp hn, h.blank (by simp [hp])]
      cases hz : Rtc.rtcPrintStruct terminalPutchar I U k.state.2.currentTime ⟨booted memory, []⟩ fuel with
      | none => exact h
      | some z =>
        exact h.put (by simp [hp]) (by simp) (by simp) (fun _ => h.woken (by rw [hp]; rfl))
          (fun _ => h.read (by rw [hp]; rfl)) (by simp) (fun _ => ⟨⟨fuel, z, rfl, hz⟩, hn⟩)
    · rw [next_unnamed hp hn]
      exact h
  | pagingInstall =>
    rw [next_pagingInstall hp]
    exact h

lemma Sound.work {g : World δ → World δ} (h : Sound D I U memory n k) (hg : Work D I U g) :
    Sound D I U memory n (g k) := by
  cases hg with
  | next fuel => exact h.next fuel
  | clock f => exact ⟨h.table, h.tick, h.woken, h.read, h.blank, h.printed⟩

lemma Sound.handle (h : Sound D I U memory n k) (i : Fin 16) (cpu : Cpu) (f : Frame) :
    Sound D I U memory (n + if i = 0 then 1 else 0) (Dispatcher.handle code k i cpu f) := by
  rw [h.table.handle]
  by_cases hi : i = 0
  · rw [if_pos hi]
    split_ifs
    · exact h.ticked
    · exact h.succ
  · rw [if_neg hi, if_neg fun hq => hi hq.1]
    exact h

lemma Sound.step (h : Sound D I U memory n d.env) (hw : ∀ g, e = .work g → Work D I U g)
    (hs : Dispatcher.Step code d e u) : Sound D I U memory (n + (requests [e]).count (.serve 0)) u.env := by
  cases hs with
  | raise | withdraw => exact h
  | @interrupt i hi hk cpu f =>
    rw [requests_interrupt]
    exact h.handle i cpu f
  | late slave cpu f =>
    have hne : (if slave then (15 : Fin 16) else 7) ≠ 0 := by cases slave <;> decide
    have hh := h.handle (if slave then 15 else 7) cpu f
    rwa [if_neg hne] at hh
  | work g => exact h.work (hw g rfl)

lemma Sound.run (h : Sound D I U memory n d.env) (hw : ∀ g, .work g ∈ as → Work D I U g)
    (hr : Run (Dispatcher.Step code) d as u) : Sound D I U memory (n + (requests as).count (.serve 0)) u.env := by
  induction hr generalizing n with
  | nil => exact h
  | @cons d v u e as hs _ ih =>
    rw [requests_cons, ← Nat.add_assoc]
    exact ih (h.step (fun g hg => hw g (hg ▸ List.mem_cons_self)) hs) fun g hg => hw g (List.mem_cons_of_mem _ hg)

def left (t : Machine Handler (Timer.Clock × State δ)) : ℕ :=
  match t.env.state.2.phase with
  | .pagingInstall => 0
  | .rtcPrintStruct => if Named t.env.state.2.currentTime then 1 else 0
  | .rtcHandler => 2
  | .waiting => 3 + 2 * (t.env.state.2.deadline.toNat - t.env.state.1.tick.toNat) +
      if t.pics.latched 0 then 0 else 1
  | .sleep => 2 ^ 34
  | .rtcInstall => 2 ^ 34 + 1
  | .initTimer => 2 ^ 34 + 2

lemma ready_timer (h : Ready layout t d) (h0 : 0 ∈ d.pending) (cpu : Cpu) (hc : cpu.intr = true) (f : Frame) :
    ∃ v, t.Step code layout (.interrupt 32 cpu f) v ∧ v.env = Dispatcher.handle code t.env 0 cpu f ∧
      v.pics.latched 0 = false ∧ ∃ d, Ready layout v d := by
  obtain ⟨a, v, hv⟩ := (h.enabled_iff code f hc).mpr ⟨0, h0⟩
  obtain ⟨w, hw, hr⟩ := h.step hv
  cases hw with
  | @interrupt i hi hk =>
    -- the timer is the most urgent of all lines
    have hi0 : i = 0 := by
      have hall : ∀ i : Fin 16, Pics.urgency i ≤ Pics.urgency 0 → i = 0 := by decide
      exact hall i (hk 0 h0)
    subst hi0
    refine ⟨v, hv, hr.env.trans (congrArg (Dispatcher.handle code · 0 cpu f) h.env.symm), ?_, _, hr⟩
    have hnot := mt (hr.latched 0).mpr (by simp)
    exact Bool.eq_false_iff.mpr hnot

lemma left_timer {v : Machine Handler (Timer.Clock × State δ)} (hp : t.env.state.2.phase = .waiting)
    (hlt : t.env.state.1.tick < t.env.state.2.deadline) (hl : t.pics.latched 0 = true)
    (he : v.env = ticked t.env) (hv : v.pics.latched 0 = false) : left v < left t := by
  have htick : (ticked t.env).state.1.tick = t.env.state.1.tick + 1 := Timer.timerCallback_tick _
  have hphase : (ticked t.env).state.2 = t.env.state.2 := rfl
  simp only [left, he, hphase, hp, htick, hl, hv, if_true, Bool.false_eq_true, if_false]
  bv_omega

lemma left_request (hp : t.env.state.2.phase = .waiting) (hl : t.pics.latched 0 = false)
    (hv : (t.pics.set 0 true).latched 0 = true) : left { t with pics := t.pics.set 0 true } < left t := by
  simp only [left, hp, hl, hv, if_true, Bool.false_eq_true, if_false]
  omega

inductive Own (D : Rtc.Device δ) (I : Rtc.Image) (U : Rtc.Unset) : Event Handler (Timer.Clock × State δ) → Prop
  | next (fuel : ℕ) : Own D I U (.work (next D I U fuel))
  | raise : Own D I U (.raise 0)
  | interrupt (cpu : Cpu) (f : Frame) : Own D I U (.interrupt 32 cpu f)

lemma Own.work {g : World δ → World δ} (h : Own D I U (.work g)) : Work D I U g := by
  cases h with
  | next fuel => exact .next fuel

variable (D I U) in
lemma exists_lower (h : Sound D I U memory n t.env) (hr : Ready layout t d) (h0 : left t ≠ 0) :
    ∃ e v, Own D I U e ∧ t.Step code layout e v ∧ left v < left t := by
  have hnext : ∀ fuel, left { t with env := next D I U fuel t.env } < left t →
      ∃ e v, Own D I U e ∧ t.Step code layout e v ∧ left v < left t :=
    fun fuel hlt => ⟨_, _, .next fuel, .work t _, hlt⟩
  cases hp : t.env.state.2.phase with
  | initTimer =>
    apply hnext 0
    simp only [left, next_initTimer hp, hp, Env.registerInterruptHandler, World.put]
    omega
  | rtcInstall =>
    apply hnext 0
    simp only [left, next_rtcInstall hp, hp, World.put]
    omega
  | sleep =>
    apply hnext 0
    simp only [left, next_sleep hp, hp, World.put]
    split_ifs <;> bv_omega
  | waiting =>
    by_cases hlt : t.env.state.1.tick < t.env.state.2.deadline
    · cases hl : t.pics.latched 0 with
      | true =>
        obtain ⟨v, hv, he, hlv, -⟩ := ready_timer hr ((hr.latched 0).mpr hl) kernelMode rfl ⟨0, 8, 0x202, 0⟩
        rw [h.table.handle, if_pos ⟨rfl, by simp [hp]⟩] at he
        exact ⟨_, v, .interrupt _ _, hv, left_timer hp hlt hl he hlv⟩
      | false =>
        have hset := ((hr.set (n := 0) (by decide) true).latched 0).mp (Set.mem_insert 0 _)
        exact ⟨_, _, .raise, Machine.Step.raise t (by decide), left_request hp hl hset⟩
    · apply hnext 0
      simp only [left, next_waiting hp, if_neg hlt, hp, World.put]
      omega
  | rtcHandler =>
    obtain ⟨r, hrun, -⟩ := Rtc.rtcHandler_once D U.curr t.env.state.2.currentTime t.env.state.2.rtc
    obtain ⟨fuel, hf⟩ := hrun.exists_fuel
    apply hnext fuel
    simp only [left, next_rtcHandler hp, hf, hp, Option.map_some, Option.getD_some, World.put]
    split_ifs <;> omega
  | rtcPrintStruct =>
    simp only [left, hp] at h0
    have hn : Named t.env.state.2.currentTime := by
      by_contra hn
      exact h0 (if_neg hn)
    obtain ⟨z, hrun⟩ := Rtc.rtcPrintStruct_returns terminalPutchar I U t.env.state.2.currentTime
      ⟨t.env.state.2.terminal, []⟩
    obtain ⟨fuel, hf⟩ := hrun.exists_fuel
    apply hnext fuel
    simp only [left, next_rtcPrintStruct hp hn, hf, hp, Option.map_some, Option.getD_some, World.put, if_pos hn]
    omega
  | pagingInstall =>
    simp only [left, hp] at h0
    exact absurd rfl h0

def reached (t : Machine Handler (Timer.Clock × State δ)) : Phase :=
  if Named t.env.state.2.currentTime then .pagingInstall else .rtcPrintStruct

lemma Sound.reached (h : Sound D I U memory n t.env) (h0 : left t = 0) :
    t.env.state.2.phase = reached t ∧ ∃ d, t.env.state.2.currentTime = (Rtc.readTime D d).1 := by
  unfold left at h0
  unfold Kernel.reached
  cases hp : t.env.state.2.phase <;> simp only [hp] at h0
  case rtcPrintStruct =>
    have hn : ¬ Named t.env.state.2.currentTime := fun hn => Nat.one_ne_zero ((if_pos hn).symm.trans h0)
    exact ⟨(if_neg hn).symm, h.read (by rw [hp]; rfl)⟩
  case pagingInstall => exact ⟨(if_pos (h.printed hp).2).symm, h.read (by rw [hp]; rfl)⟩
  all_goals omega

variable (D I U) in
lemma exists_reached (h : Sound D I U memory n t.env) (hr : Ready layout t d) : ∃ bs u,
      Run (Machine.Step code layout) t bs u ∧ (∀ e ∈ bs, Own D I U e) ∧
        u.env.state.2.phase = reached u ∧ ∃ d, u.env.state.2.currentTime = (Rtc.readTime D d).1 := by
  have hlower : ∀ t : Machine Handler (Timer.Clock × State δ),
      (∃ n d, Sound D I U memory n t.env ∧ Ready layout t d) → left t ≠ 0 →
        ∃ e v, Own D I U e ∧ t.Step code layout e v ∧
          (∃ n d, Sound D I U memory n v.env ∧ Ready layout v d) ∧ left v < left t := by
    rintro t ⟨n, d, h, hr⟩ h0
    obtain ⟨e, v, hw, hs, hlt⟩ := exists_lower D I U h hr h0
    obtain ⟨u, hu, hv⟩ := hr.step hs
    have hnext := Sound.step (d := d) (hr.env ▸ h) (fun g hg => Own.work (hg ▸ hw)) hu
    rw [← hv.env] at hnext
    exact ⟨e, v, hw, hs, ⟨_, u, hnext, hv⟩, hlt⟩
  obtain ⟨bs, u, hu, hq, -, ⟨_, _, hsound, -⟩, hz⟩ := Run.exists_descent hlower ⟨n, d, h, hr⟩
  exact ⟨bs, u, hu, hq, hsound.reached hz⟩

def loaded : Machine Handler (Timer.Clock × State (BitVec 8)) :=
  ⟨fromLoader.gp, fromLoader.id, fromLoader.pics, ⟨fun _ => none, ⟨0, []⟩,
    ⟨.initTimer, [], false, 0, Rtc.zeroed.curr, booted fun _ => 0, 0⟩⟩⟩

end TinuOS.Kernel
