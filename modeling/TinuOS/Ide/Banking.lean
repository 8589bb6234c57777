import TinuOS.Ide.Accesses

/-! Which of the two banks of registers is in sight when an access is made. -/

namespace TinuOS.Ide

open Library

namespace Driver

def Hob (σ : Driver) (k : Channel) : Prop :=
  ∃ v, σ.latched (σ.channels k).controlPort = some v ∧ v.getLsbD 7 = true

inductive Reachable : Driver → Prop
  | boot : Reachable booted
  | setup {σ : Driver} (bar0 bar1 bar2 bar3 bar4 : BitVec 32) :
      Reachable σ → Reachable (ideInitialize σ bar0 bar1 bar2 bar3 bar4)
  | call {W : World} {σ τ : Driver} {c : Call} : Reachable σ → Step W σ c τ → Reachable τ

end Driver

def Call.Polite : Call → Prop
  | .write _ reg data => reg = ataRegControl → data.getLsbD 7 = false
  | _ => True

/-- The access is made at the port of its register, with its bank in sight, and at no port of the
other channel; `σ` is the state right before it. -/
structure Placed (k : Channel) (σ : Driver) (m : Made) : Prop where
  own : m.channel = k
  port : (σ.channels k).port m.reg = some m.access.port
  high : High m.reg → σ.Hob k ∧ ∃ i, i = m.reg.setWidth 16 - 6#16 ∧ 2 ≤ i ∧ i ≤ 5 ∧
    m.access.port = (σ.channels k).base + i
  low : m.reg ≤ 0x07#8 → ¬ σ.Hob k ∧ m.access.port = (σ.channels k).base + m.reg.setWidth 16
  other : ∀ j ≠ k, ∀ reg, (σ.channels j).port reg ≠ some m.access.port

def AllPlaced (k : Channel) : Driver → List Made → Prop
  | _, [] => True
  | σ, m :: ms => Placed k σ m ∧ AllPlaced k (σ.access m.access) ms

structure Banked (W : World) (σ : Driver) (c : Call) : Prop where
  placed : ∀ polls, AllPlaced c.channel σ (c.made σ.channels polls)
  returns : ∀ τ, Driver.Step W σ c τ →
    (∃ polls, τ = σ.perform (c.made σ.channels polls)) ∧ ∀ k, ¬ τ.Hob k

structure Apart (c : Channel → IDEChannelRegisters) : Prop where
  channels : ∀ reg reg' p, (c .primary).port reg = some p → (c .secondary).port reg' ≠ some p
  control : ∀ k reg, (c k).port reg = some (c k).controlPort → reg = ataRegControl

variable {σ τ : Driver} {W : World} {k j : Channel} {reg data : BitVec 8} {p : BitVec 16}
  {f : BitVec 16 → Access} {ms ms' : List Made} {c : Call}

lemma allPlaced_append : AllPlaced k σ (ms ++ ms') ↔
    AllPlaced k σ ms ∧ AllPlaced k (σ.perform ms) ms' := by
  induction ms generalizing σ with
  | nil => exact (and_iff_right trivial).symm
  | cons m ms ih =>
    rw [List.cons_append, AllPlaced, ih, AllPlaced, and_assoc]
    rfl

section Hob

lemma hob_outb (v : BitVec 8) : (σ.access (.outb v (σ.channels k).controlPort)).Hob k ↔ v.getLsbD 7 = true := by
  rw [Driver.Hob, access_channels, latched_access, latch, if_pos rfl]
  simp

lemma hob_of_latch {a : Access}
    (h : latch (σ.channels k).controlPort (σ.latched (σ.channels k).controlPort) a =
      σ.latched (σ.channels k).controlPort) : (σ.access a).Hob k ↔ σ.Hob k := by
  rw [Driver.Hob, access_channels, latched_access, h]
  rfl

lemma hob_of_port_ne {a : Access} (h : a.port ≠ (σ.channels k).controlPort) :
    (σ.access a).Hob k ↔ σ.Hob k := by
  apply hob_of_latch
  cases a with
  | outb v p => exact if_neg h
  | inb p => rfl
  | insl p addr cnt => rfl

lemma banked_hob_of_ne {a : Access} (hk : (σ.channels k).controlPort ≠ (σ.channels j).controlPort)
    (h : a.port ≠ (σ.channels j).controlPort) : (σ.banked k a).Hob j ↔ σ.Hob j := by
  have hset : (Access.outb (0x80#8 ||| (σ.channels k).nIEN) (σ.channels k).controlPort).port ≠
      (σ.channels j).controlPort := hk
  have hrestore : (Access.outb (σ.channels k).nIEN (σ.channels k).controlPort).port ≠
      (σ.channels j).controlPort := hk
  have hfirst := hob_of_port_ne (σ := σ) hset
  have hdata := hob_of_port_ne
    (σ := σ.access (.outb (0x80#8 ||| (σ.channels k).nIEN) (σ.channels k).controlPort)) h
  exact (hob_of_port_ne (σ := (σ.access (.outb _ _)).access a) hrestore).trans (hdata.trans hfirst)

lemma Silent.hob (h : Silent σ τ) : τ.Hob k ↔ σ.Hob k := by
  rw [Driver.Hob, h.channels, h.latched]
  rfl

end Hob

lemma Apart.other {c : Channel → IDEChannelRegisters} (h : Apart c) (hj : j ≠ k)
    (hp : (c k).port reg = some p) (reg' : BitVec 8) : (c j).port reg' ≠ some p := by
  intro hp'
  cases k <;> cases j
  · exact hj rfl
  · exact h.channels _ _ _ hp hp'
  · exact h.channels _ _ _ hp' hp
  · exact hj rfl

lemma Apart.control_ne {c : Channel → IDEChannelRegisters} (h : Apart c) (hj : j ≠ k)
    (hp : (c k).port reg = some p) : p ≠ (c j).controlPort := by
  rintro rfl
  exact h.other hj hp ataRegControl (port_control _)

lemma high_offset (h : High reg) : 2 ≤ reg.setWidth 16 - 6#16 ∧ reg.setWidth 16 - 6#16 ≤ 5 := by
  obtain ⟨hlow, hhigh⟩ := h
  constructor <;> bv_omega

lemma placed_of_port {a : Access} (ha : Apart σ.channels) (hp : (σ.channels k).port reg = some a.port)
    (hhigh : High reg → σ.Hob k) (hlow : reg ≤ 0x07#8 → ¬ σ.Hob k) : Placed k σ ⟨k, reg, a⟩ where
  own := rfl
  port := hp
  high h := by
    refine ⟨hhigh h, _, rfl, (high_offset h).1, (high_offset h).2, ?_⟩
    rw [port_high h, Option.some_inj] at hp
    rw [← hp, IDEChannelRegisters.highPort]
    bv_omega
  low h := by
    refine ⟨hlow h, ?_⟩
    rw [port_low h, Option.some_inj] at hp
    exact hp.symm
  other j hj reg' := ha.other hj hp reg'

lemma polled_not_high {polls : ℕ} {adv : BitVec 32} (h : reg ∈ Call.polled polls adv) : ¬ High reg := by
  have hcases : reg = ataRegAltstatus ∨ reg = ataRegStatus := by
    rw [Call.polled, List.mem_append, List.mem_append] at h
    rcases h with (h | h) | h
    · exact Or.inl (List.eq_of_mem_replicate h)
    · exact Or.inr (List.eq_of_mem_replicate h)
    · split_ifs at h
      · exact Or.inr (List.mem_singleton.mp h)
      · exact absurd h List.not_mem_nil
  rcases hcases with rfl | rfl <;> decide

section Placed

variable (ha : Apart σ.channels)
include ha

lemma made_placed (hf : ∀ p, (f p).port = p) (hr : ¬ High reg) (hc : ¬ σ.Hob k) :
    AllPlaced k σ (made σ.channels k reg f) := by
  cases hp : (σ.channels k).port reg with
  | none =>
    rw [made, hp]
    trivial
  | some p =>
    rw [made_of_port hp]
    exact ⟨placed_of_port ha (by rw [hp, hf]) (fun h => absurd h hr) fun _ => hc, trivial⟩

lemma guarded_placed (hf : ∀ p, (f p).port = p) (hc : ¬ σ.Hob k) :
    AllPlaced k σ (guarded σ.channels k reg f) := by
  by_cases hr : High reg
  · have hcon : ¬ High ataRegControl := by decide
    have hseven : ¬ ataRegControl ≤ 0x07#8 := by decide
    rw [guarded_high hr]
    refine ⟨?_, ?_, ?_, trivial⟩
    · exact placed_of_port ha (port_control _) (fun h => absurd h hcon) fun h => absurd h hseven
    · refine placed_of_port ha ?_ (fun _ => ?_) fun h => absurd hr (not_high_of_le h)
      · rw [hf]
        exact port_high hr
      · rw [hob_outb]
        simp
    · exact placed_of_port ha (port_control _) (fun h => absurd h hcon) fun h => absurd h hseven
  · rw [guarded_low hr]
    exact made_placed ha hf hr hc

lemma reads_placed {regs : List (BitVec 8)} (hr : ∀ reg ∈ regs, ¬ High reg) (hc : ¬ σ.Hob k) :
    AllPlaced k σ (reads σ.channels k regs) := by
  induction regs generalizing σ with
  | nil => trivial
  | cons reg regs ih =>
    have hs : Silent σ (σ.perform (guarded σ.channels k reg .inb)) := by
      rw [← ideRead_eq_perform (W := silentWorld)]
      exact ideRead_silent (hr reg List.mem_cons_self)
    refine allPlaced_append.mpr ⟨guarded_placed ha (fun _ => rfl) hc, ?_⟩
    have hrest := ih (σ := σ.perform (guarded σ.channels k reg .inb)) (by rwa [perform_channels])
      (fun r hmem => hr r (List.mem_cons_of_mem reg hmem)) (by rwa [hs.hob])
    rwa [perform_channels] at hrest

lemma call_placed (hc : ∀ k, ¬ σ.Hob k) (polls : ℕ) : AllPlaced c.channel σ (c.made σ.channels polls) := by
  cases c with
  | write k reg data => exact guarded_placed ha (fun _ => rfl) (hc k)
  | read k reg => exact guarded_placed ha (fun _ => rfl) (hc k)
  | readBuffer k reg buffer quads => exact guarded_placed ha (fun _ => rfl) (hc k)
  | polling k adv => exact reads_placed ha (fun _ => polled_not_high) (hc k)

lemma guarded_clear (hf : ∀ p, (f p).port = p) (hn : (σ.channels k).nIEN.getLsbD 7 = false)
    (hcon : reg = ataRegControl → ¬ (σ.access (f (σ.channels k).controlPort)).Hob k) (hc : ∀ k, ¬ σ.Hob k)
    (j : Channel) : ¬ (σ.perform (guarded σ.channels k reg f)).Hob j := by
  by_cases hr : High reg
  · rw [← banked_eq_perform hr]
    by_cases hj : j = k
    · subst hj
      intro h
      have hb := (hob_outb (σ.channels j).nIEN).mp h
      rw [hn] at hb
      exact Bool.false_ne_true hb
    · have hcon' : (σ.channels k).controlPort ≠ (σ.channels j).controlPort := ha.control_ne hj (port_control _)
      have hhigh : (σ.channels k).highPort reg ≠ (σ.channels j).controlPort := ha.control_ne hj (port_high hr)
      rw [banked_hob_of_ne hcon' (by rw [hf]; exact hhigh)]
      exact hc j
  · rw [guarded_low hr]
    cases hp : (σ.channels k).port reg with
    | none =>
      rw [made, hp]
      exact hc j
    | some p =>
      rw [made_of_port hp]
      change ¬ (σ.access (f p)).Hob j
      by_cases hj : j = k
      · subst hj
        by_cases hpc : p = (σ.channels j).controlPort
        · subst hpc
          exact hcon (ha.control _ _ hp)
        · rw [hob_of_port_ne (by rwa [hf])]
          exact hc j
      · rw [hob_of_port_ne (by rw [hf]; exact ha.control_ne hj hp)]
        exact hc j

lemma step_clear (hn : ∀ k, (σ.channels k).nIEN.getLsbD 7 = false) (hpol : c.Polite) (hc : ∀ k, ¬ σ.Hob k)
    (h : Driver.Step W σ c τ) (j : Channel) : ¬ τ.Hob j := by
  obtain ⟨fuel, h⟩ := h
  cases c with
  | write k reg data =>
    cases h
    rw [ideWrite_eq_perform]
    refine guarded_clear ha (fun _ => rfl) (hn k) (fun hreg => ?_) hc j
    rw [hob_outb, hpol hreg]
    exact Bool.false_ne_true
  | read k reg =>
    cases h
    rw [ideRead_eq_perform]
    refine guarded_clear ha (fun _ => rfl) (hn k) (fun _ => ?_) hc j
    rw [hob_of_latch rfl]
    exact hc k
  | readBuffer k reg buffer quads =>
    cases h
    rw [ideReadBuffer_eq_perform]
    refine guarded_clear ha (fun _ => rfl) (hn k) (fun _ => ?_) hc j
    rw [hob_of_latch rfl]
    exact hc k
  | polling k adv =>
    obtain ⟨⟨v, υ⟩, hp, rfl⟩ := Option.map_eq_some_iff.mp h
    rw [(idePolling_silent hp).hob]
    exact hc j

lemma call_banked (hn : ∀ k, (σ.channels k).nIEN.getLsbD 7 = false) (hpol : c.Polite)
    (hc : ∀ k, ¬ σ.Hob k) : Banked W σ c where
  placed := call_placed ha hc
  returns _ h := ⟨step_perform h, step_clear ha hn hpol hc h⟩

end Placed

lemma run_clear {calls : List Call} (ha : Apart σ.channels) (hn : ∀ k, (σ.channels k).nIEN.getLsbD 7 = false)
    (hpol : ∀ c ∈ calls, c.Polite) (hc : ∀ k, ¬ σ.Hob k) (h : Run (Driver.Step W) σ calls τ) :
    τ.channels = σ.channels ∧ ∀ k, ¬ τ.Hob k := by
  induction h with
  | nil => exact ⟨rfl, hc⟩
  | cons hs _ ih =>
    have hch := step_channels hs
    have hcl := step_clear ha hn (hpol _ List.mem_cons_self) hc hs
    obtain ⟨hrest, hclear⟩ := ih (by rwa [hch]) (by rwa [hch])
      (fun c hmem => hpol c (List.mem_cons_of_mem _ hmem)) hcl
    exact ⟨hrest.trans hch, hclear⟩

def RunsBanked (W : World) (σ : Driver) : Prop :=
  ∀ calls c τ, (∀ d ∈ calls ++ [c], d.Polite) → Run (Driver.Step W) σ calls τ → Banked W τ c

lemma Apart.runsBanked (ha : Apart σ.channels) (hn : ∀ k, (σ.channels k).nIEN.getLsbD 7 = false)
    (hc : ∀ k, ¬ σ.Hob k) : RunsBanked W σ := by
  intro calls c τ hpol hr
  obtain ⟨hch, hclear⟩ := run_clear ha hn (fun c hmem => hpol c (List.mem_append_left _ hmem)) hc hr
  exact call_banked (by rwa [hch]) (by rwa [hch]) (hpol c (by simp)) hclear

lemma Driver.Reachable.nIEN (h : σ.Reachable) (k : Channel) : (σ.channels k).nIEN = 0 := by
  induction h with
  | boot => rfl
  | setup bar0 bar1 bar2 bar3 bar4 _ ih =>
    rw [ideInitialize, ideWrite_channels, ideWrite_channels]
    cases k
    · exact ih
    · exact ih
  | call _ hs ih => rwa [step_channels hs]

lemma placed_of_guarded (h : AllPlaced k σ (guarded σ.channels k reg f))
    (hp : (σ.channels k).port reg = some p) :
    ∃ υ : Driver, υ.channels = σ.channels ∧ Placed k υ ⟨k, reg, f p⟩ := by
  by_cases hr : High reg
  · rw [guarded_high hr] at h
    rw [port_high hr, Option.some_inj] at hp
    rw [← hp]
    refine ⟨_, ?_, h.2.1⟩
    rfl
  · rw [guarded_low hr, made_of_port hp] at h
    exact ⟨σ, rfl, h.1⟩

lemma exists_low_port (hp : (σ.channels k).port reg = some p) (hne : reg ≠ ataRegControl) :
    ∃ reg', ¬ High reg' ∧ reg' ≠ ataRegControl ∧ (σ.channels k).port reg' = some p := by
  by_cases hr : High reg
  · have hle : reg - 6 ≤ 0x07#8 := by
      obtain ⟨hlow, hhigh⟩ := hr
      bv_omega
    refine ⟨reg - 6, not_high_of_le hle, ?_, ?_⟩
    · rintro he
      rw [he] at hle
      exact absurd hle (by decide)
    · rw [port_high hr] at hp
      rw [port_low hle, ← hp, IDEChannelRegisters.highPort]
      obtain ⟨hlow, hhigh⟩ := hr
      congr 1
      bv_omega
  · exact ⟨reg, hr, hne, hp⟩

lemma polite_single (c : Call) (h : c.Polite) : ∀ d ∈ [] ++ [c], d.Polite := by
  intro d hd
  rw [List.mem_singleton.mp hd]
  exact h

lemma apart_of_runsBanked (h : RunsBanked W σ) : Apart σ.channels := by
  refine ⟨fun reg reg' p hp hp' => ?_, fun k reg hp => ?_⟩
  · have hb := h [] (.read .primary reg) σ (polite_single (.read .primary reg) trivial) (.nil σ)
    obtain ⟨υ, hυ, hpl⟩ := placed_of_guarded (hb.placed 0) hp
    refine hpl.other .secondary (fun he => Channel.noConfusion he) reg' ?_
    rw [hυ]
    exact hp'
  · by_contra hne
    obtain ⟨reg', hr, hne', hp'⟩ := exists_low_port hp hne
    have hb := h [] (.write k reg' 0x80) σ (polite_single (.write k reg' 0x80) fun he => absurd he hne') (.nil σ)
    refine (hb.returns _ ⟨0, rfl⟩).2 k ?_
    rw [ideWrite_low hr, accessAt_eq_perform, made_of_port hp']
    exact (hob_outb 0x80).mpr rfl

theorem runsBanked_iff (hr : σ.Reachable) (hc : ∀ k, ¬ σ.Hob k) (W : World) :
    (∀ τ k data, ideWrite τ k ataRegControl data = τ.accessAt k ataRegControl (.outb data)) ∧
    (RunsBanked W σ ↔ Apart σ.channels) := by
  refine ⟨fun τ k data => ideWrite_low (by decide), apart_of_runsBanked, fun ha => ?_⟩
  refine ha.runsBanked (fun k => ?_) hc
  rw [hr.nIEN]
  rfl

section Legacy

lemma setup_clear (bar0 bar1 bar2 bar3 bar4 : BitVec 32) (k : Channel) :
    ¬ (ideInitialize σ bar0 bar1 bar2 bar3 bar4).Hob k := by
  rintro ⟨v, hv, hb⟩
  unfold ideInitialize at hv
  simp only [ideWrite_control, access_channels, latched_access, latch] at hv
  have hv2 : v = 2 := by
    cases k with
    | primary =>
      rw [if_pos rfl, ite_self, Option.some_inj] at hv
      exact hv.symm
    | secondary =>
      rw [if_pos rfl, Option.some_inj] at hv
      exact hv.symm
  rw [hv2] at hb
  exact Bool.false_ne_true hb

lemma port_cases {c : IDEChannelRegisters} (h : c.port reg = some p) :
    (reg < 0x08#8 ∧ p = c.base + reg.setWidth 16) ∨
    (High reg ∧ p = c.base + (reg.setWidth 16 - 6#16)) ∨
    (0x0C#8 ≤ reg ∧ reg < 0x0E#8 ∧ p = c.ctrl + (reg.setWidth 16 - 10#16)) ∨
    (0x0E#8 ≤ reg ∧ reg < 0x16#8 ∧ p = c.bmide + (reg.setWidth 16 - 14#16)) := by
  rw [IDEChannelRegisters.port] at h
  split_ifs at h with h1 h2 h3 h4
  · refine Or.inl ⟨h1, ?_⟩
    rw [← Option.some_inj.mp h, BitVec.sub_zero]
  · refine Or.inr (Or.inl ⟨⟨by bv_omega, h2⟩, ?_⟩)
    rw [← Option.some_inj.mp h]
    bv_omega
  · refine Or.inr (Or.inr (Or.inl ⟨BitVec.not_lt.mp h2, h3, ?_⟩))
    rw [← Option.some_inj.mp h]
    bv_omega
  · refine Or.inr (Or.inr (Or.inr ⟨BitVec.not_lt.mp h3, h4, ?_⟩))
    rw [← Option.some_inj.mp h]
    bv_omega

def legacy : Driver := ideInitialize booted 0 0 0 0 0

def legacyChannels : Channel → IDEChannelRegisters
  | .primary => ⟨0x1F0, 0x3F4, 0x0, 0⟩
  | .secondary => ⟨0x170, 0x374, 0x8, 0⟩

lemma legacy_channels : legacy.channels = legacyChannels := by
  rw [legacy, ideInitialize, ideWrite_channels, ideWrite_channels]
  funext k
  cases k <;> rfl

def Primary (p : BitVec 16) : Prop := p ≤ 0x7 ∨ 0x1F0 ≤ p ∧ p ≤ 0x1F7 ∨ 0x3F4 ≤ p

instance : DecidablePred Primary := fun _ => inferInstanceAs (Decidable (_ ∨ _))

lemma legacy_primary (h : (legacyChannels .primary).port reg = some p) :
    Primary p ∧ (p = 0x3F6 → reg = ataRegControl) := by
  rcases port_cases h with ⟨h1, rfl⟩ | ⟨⟨h1, h2⟩, rfl⟩ | ⟨h1, h2, rfl⟩ | ⟨h1, h2, rfl⟩
  all_goals
    simp only [legacyChannels, Primary, ataRegControl]
    exact ⟨by bv_omega, fun hp => by bv_omega⟩

lemma legacy_secondary (h : (legacyChannels .secondary).port reg = some p) :
    ¬ Primary p ∧ (p = 0x376 → reg = ataRegControl) := by
  rcases port_cases h with ⟨h1, rfl⟩ | ⟨⟨h1, h2⟩, rfl⟩ | ⟨h1, h2, rfl⟩ | ⟨h1, h2, rfl⟩
  all_goals
    simp only [legacyChannels, Primary, ataRegControl]
    exact ⟨by bv_omega, fun hp => by bv_omega⟩

lemma legacy_apart : Apart legacy.channels := by
  rw [legacy_channels]
  refine ⟨fun reg reg' p hp hp' => (legacy_secondary hp').1 (legacy_primary hp).1, fun k reg hp => ?_⟩
  cases k with
  | primary => exact (legacy_primary hp).2 rfl
  | secondary => exact (legacy_secondary hp).2 rfl

theorem legacy_runsBanked : RunsBanked silentWorld legacy :=
  (runsBanked_iff (.setup 0 0 0 0 0 .boot) (setup_clear 0 0 0 0 0) silentWorld).2.mpr legacy_apart

end Legacy

lemma overlapping_port (k : Channel) : ((ideInitialize booted 0x171 0 0 0 0).channels k).port 0 = some 0x170 := by
  -- the first BAR names the ports that the secondary channel has by default
  rw [ideInitialize, ideWrite_channels, ideWrite_channels]
  cases k <;> rfl

theorem overlapping_bars_not_banked : ¬ ∀ (W : World) (σ : Driver), σ.Reachable → (∀ k, ¬ σ.Hob k) →
    RunsBanked W σ := by
  intro h
  have hrun := h silentWorld _ (.setup 0x171 0 0 0 0 .boot) (setup_clear 0x171 0 0 0 0)
  exact (apart_of_runsBanked hrun).channels 0 0 0x170 (overlapping_port _) (overlapping_port _)

end TinuOS.Ide
