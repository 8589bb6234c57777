import TinuOS.Ide.Model

/-! What stands in the device control ports, over any calls of the driver. -/

namespace TinuOS.Ide

open Library

def IDEChannelRegisters.controlPort (c : IDEChannelRegisters) : BitVec 16 := c.ctrl + 2#16

def latch (port : BitVec 16) (b : Option (BitVec 8)) : Access → Option (BitVec 8)
  | .outb v p => if p = port then some v else b
  | _ => b

def Driver.latched (σ : Driver) (port : BitVec 16) : Option (BitVec 8) := σ.accesses.foldl (latch port) none

inductive Call
  | write (channel : Channel) (reg data : BitVec 8)
  | read (channel : Channel) (reg : BitVec 8)
  | readBuffer (channel : Channel) (reg : BitVec 8) (buffer quads : BitVec 32)
  | polling (channel : Channel) (advancedCheck : BitVec 32)
  deriving DecidableEq

namespace Driver

def exec (W : World) (fuel : ℕ) (σ : Driver) : Call → Option Driver
  | .write channel reg data => some (ideWrite σ channel reg data)
  | .read channel reg => some (ideRead W σ channel reg).2
  | .readBuffer channel reg buffer quads => some (ideReadBuffer σ channel reg buffer quads)
  | .polling channel advancedCheck => (idePolling fuel W σ channel advancedCheck).map (·.2)

def Step (W : World) (σ : Driver) (c : Call) (τ : Driver) : Prop := ∃ fuel, σ.exec W fuel c = some τ

def Disabled (σ : Driver) : Prop :=
  ∀ k, ∃ v, σ.latched (σ.channels k).controlPort = some v ∧ v.getLsbD 1 = true

end Driver

variable {σ τ : Driver} {W : World} {k : Channel} {reg data : BitVec 8} {port : BitVec 16}
  {a : Access} {fuel : ℕ} {c : Call}

@[simp] lemma access_channels : (σ.access a).channels = σ.channels := rfl

@[simp] lemma latched_access : (σ.access a).latched port = latch port (σ.latched port) a := by
  simp [Driver.latched, Driver.access]

lemma port_control (c : IDEChannelRegisters) : c.port ataRegControl = some c.controlPort := by
  rw [IDEChannelRegisters.port, if_neg (by decide), if_neg (by decide), if_pos (by decide),
    IDEChannelRegisters.controlPort]
  congr 1
  simp only [ataRegControl]
  bv_omega

lemma ideWrite_low (h : ¬ High reg) : ideWrite σ k reg data = σ.accessAt k reg (.outb data) := by
  rw [ideWrite]
  simp only [if_neg h]

lemma ideWrite_control :
    ideWrite σ k ataRegControl data = σ.access (.outb data (σ.channels k).controlPort) := by
  rw [ideWrite_low (by decide), Driver.accessAt, port_control]

def Driver.banked (σ : Driver) (k : Channel) (a : Access) : Driver :=
  ((σ.access (.outb (0x80#8 ||| (σ.channels k).nIEN) (σ.channels k).controlPort)).access a).access
    (.outb (σ.channels k).nIEN (σ.channels k).controlPort)

def IDEChannelRegisters.highPort (c : IDEChannelRegisters) (reg : BitVec 8) : BitVec 16 :=
  c.base + reg.setWidth 16 - 0x06#16

lemma accessAt_high (h : High reg) (f : BitVec 16 → Access) :
    σ.accessAt k reg f = σ.access (f ((σ.channels k).highPort reg)) := by
  have h8 : ¬ reg < 0x08#8 := by
    have := h.1
    bv_omega
  rw [Driver.accessAt, IDEChannelRegisters.port, if_neg h8, if_pos h.2]
  rfl

lemma ideWrite_high (h : High reg) :
    ideWrite σ k reg data = σ.banked k (.outb data ((σ.channels k).highPort reg)) := by
  rw [ideWrite]
  simp only [if_pos h, ideWrite_control, accessAt_high h]
  rfl

lemma ideRead_low (h : ¬ High reg) : (ideRead W σ k reg).2 = σ.accessAt k reg .inb := by
  simp only [ideRead, if_neg h]

lemma ideRead_high (h : High reg) :
    (ideRead W σ k reg).2 = σ.banked k (.inb ((σ.channels k).highPort reg)) := by
  simp only [ideRead, if_pos h, ideWrite_control, accessAt_high h]
  rfl

lemma ideReadBuffer_low {buffer quads : BitVec 32} (h : ¬ High reg) :
    ideReadBuffer σ k reg buffer quads = σ.accessAt k reg (.insl · buffer quads) := by
  simp only [ideReadBuffer, if_neg h]

lemma ideReadBuffer_high {buffer quads : BitVec 32} (h : High reg) :
    ideReadBuffer σ k reg buffer quads =
      σ.banked k (.insl ((σ.channels k).highPort reg) buffer quads) := by
  simp only [ideReadBuffer, if_pos h, ideWrite_control, accessAt_high h]
  rfl

@[simp] lemma accessAt_channels (f : BitVec 16 → Access) :
    (σ.accessAt k reg f).channels = σ.channels := by
  unfold Driver.accessAt
  split <;> rfl

@[simp] lemma banked_channels : (σ.banked k a).channels = σ.channels := rfl

@[simp] lemma ideWrite_channels : (ideWrite σ k reg data).channels = σ.channels := by
  by_cases h : High reg
  · rw [ideWrite_high h, banked_channels]
  · rw [ideWrite_low h, accessAt_channels]

lemma banked_not_disabled (hn : (σ.channels k).nIEN.getLsbD 1 = false) :
    ¬ (σ.banked k a).Disabled := by
  intro h
  obtain ⟨v, hv, hb⟩ := h k
  rw [banked_channels, Driver.banked, latched_access, latch, if_pos rfl, Option.some_inj] at hv
  rw [← hv, hn] at hb
  exact Bool.false_ne_true hb

structure Silent (σ τ : Driver) : Prop where
  channels : τ.channels = σ.channels
  latched : ∀ port, τ.latched port = σ.latched port

lemma Silent.trans {υ : Driver} (h : Silent σ τ) (h' : Silent τ υ) : Silent σ υ :=
  ⟨h'.channels.trans h.channels, fun port => (h'.latched port).trans (h.latched port)⟩

lemma Silent.keeps_disabled (h : Silent σ τ) : τ.Disabled ↔ σ.Disabled := by
  unfold Driver.Disabled
  simp only [h.channels, h.latched]

lemma accessAt_silent {f : BitVec 16 → Access} (hf : ∀ p port b, latch port b (f p) = b) :
    Silent σ (σ.accessAt k reg f) := by
  refine ⟨accessAt_channels f, fun port => ?_⟩
  unfold Driver.accessAt
  split
  · rw [latched_access, hf]
  · rfl

lemma ideRead_silent (h : ¬ High reg) : Silent σ (ideRead W σ k reg).2 := by
  rw [ideRead_low h]
  exact accessAt_silent fun _ _ _ => rfl

lemma waitBusy_silent (h : waitBusy fuel W σ k = some τ) : Silent σ τ := by
  induction fuel generalizing σ with
  | zero => exact absurd h (Option.some_ne_none τ).symm
  | succ fuel ih =>
    have hr : Silent σ (ideRead W σ k ataRegStatus).2 := ideRead_silent (by decide)
    simp only [waitBusy] at h
    split at h
    · exact hr.trans (ih h)
    · cases h
      exact hr

lemma idePolling_silent {adv : BitVec 32} {v : BitVec 8}
    (h : idePolling fuel W σ k adv = some (v, τ)) : Silent σ τ := by
  have hr : ∀ υ reg, ¬ High reg → Silent υ (ideRead W υ k reg).2 := fun _ _ => ideRead_silent
  obtain ⟨υ, hw, hv⟩ := Option.map_eq_some_iff.mp h
  have hυ := (((hr σ ataRegAltstatus (by decide)).trans (hr _ ataRegAltstatus (by decide))).trans
    (hr _ ataRegAltstatus (by decide))).trans (hr _ ataRegAltstatus (by decide))
  refine (hυ.trans (waitBusy_silent hw)).trans ?_
  have hs := hr υ ataRegStatus (by decide)
  simp only at hv
  split_ifs at hv
  · cases hv
    exact hs
  · cases hv
    exact hs
  · cases hv
    exact hs
  · cases hv
    exact hs
  · cases hv
    exact ⟨rfl, fun _ => rfl⟩

def Call.Quiet (channels : Channel → IDEChannelRegisters) : Call → Prop
  | .write k reg data => ¬ High reg ∧ ∀ j,
      (channels k).port reg = some (channels j).controlPort → data.getLsbD 1 = true
  | .read _ reg => ¬ High reg
  | .readBuffer _ reg _ _ => ¬ High reg
  | .polling _ _ => True

lemma step_cases (h : Driver.Step W σ c τ) :
    (¬ c.Quiet σ.channels ∧ ∃ k a, τ = σ.banked k a) ∨
    (∃ k reg data, c = .write k reg data ∧ ¬ High reg ∧ τ = σ.accessAt k reg (.outb data)) ∨
    (c.Quiet σ.channels ∧ Silent σ τ) := by
  obtain ⟨fuel, h⟩ := h
  cases c with
  | write k reg data =>
    cases h
    by_cases hr : High reg
    · exact Or.inl ⟨fun hq => hq.1 hr, k, _, ideWrite_high hr⟩
    · exact Or.inr (Or.inl ⟨k, reg, data, rfl, hr, ideWrite_low hr⟩)
  | read k reg =>
    cases h
    by_cases hr : High reg
    · exact Or.inl ⟨not_not.mpr hr, k, _, ideRead_high hr⟩
    · exact Or.inr (Or.inr ⟨hr, ideRead_silent hr⟩)
  | readBuffer k reg buffer quads =>
    cases h
    by_cases hr : High reg
    · exact Or.inl ⟨not_not.mpr hr, k, _, ideReadBuffer_high hr⟩
    · rw [ideReadBuffer_low hr]
      exact Or.inr (Or.inr ⟨hr, accessAt_silent fun _ _ _ => rfl⟩)
  | polling k adv =>
    obtain ⟨⟨v, υ⟩, hp, rfl⟩ := Option.map_eq_some_iff.mp h
    exact Or.inr (Or.inr ⟨trivial, idePolling_silent hp⟩)

lemma step_channels (h : Driver.Step W σ c τ) : τ.channels = σ.channels := by
  obtain ⟨-, k, a, rfl⟩ | ⟨k, reg, data, -, -, rfl⟩ | ⟨-, hs⟩ := step_cases h
  · exact banked_channels
  · exact accessAt_channels _
  · exact hs.channels

lemma accessAt_outb_disabled (hd : σ.Disabled) : (σ.accessAt k reg (.outb data)).Disabled ↔
    ∀ j, (σ.channels k).port reg = some (σ.channels j).controlPort → data.getLsbD 1 = true := by
  unfold Driver.accessAt
  cases hp : (σ.channels k).port reg with
  | none => simp [hd]
  | some p =>
    refine forall_congr' fun j => ?_
    rw [access_channels, latched_access, latch, Option.some_inj]
    by_cases hj : p = (σ.channels j).controlPort
    · simp [hj]
    · rw [if_neg hj]
      exact iff_of_true (hd j) fun hp => absurd hp hj

lemma disabled_step (h : Driver.Step W σ c τ) (hn : ∀ k, (σ.channels k).nIEN.getLsbD 1 = false)
    (hd : σ.Disabled) : τ.Disabled ↔ c.Quiet σ.channels := by
  obtain ⟨hq, k, a, rfl⟩ | ⟨k, reg, data, rfl, hr, rfl⟩ | ⟨hq, hs⟩ := step_cases h
  · exact iff_of_false (banked_not_disabled (hn k)) hq
  · rw [accessAt_outb_disabled hd]
    exact (and_iff_right hr).symm
  · exact iff_of_true (hs.keeps_disabled.mpr hd) hq

variable {bar0 bar1 bar2 bar3 bar4 : BitVec 32} {calls : List Call}

lemma initialize_nIEN (k : Channel) :
    ((ideInitialize booted bar0 bar1 bar2 bar3 bar4).channels k).nIEN = 0 := by
  unfold ideInitialize
  rw [ideWrite_channels, ideWrite_channels]
  cases k <;> rfl

lemma initialize_disabled : (ideInitialize booted bar0 bar1 bar2 bar3 bar4).Disabled := by
  intro k
  refine ⟨2, ?_, rfl⟩
  unfold ideInitialize
  simp only [ideWrite_control, access_channels, latched_access, latch]
  cases k with
  | primary => simp
  | secondary => rw [if_pos rfl]

theorem disabled_iff (h : Run (Driver.Step W) (ideInitialize booted bar0 bar1 bar2 bar3 bar4) calls τ) :
    (∀ pre t, pre <+: calls →
      Run (Driver.Step W) (ideInitialize booted bar0 bar1 bar2 bar3 bar4) pre t → t.Disabled) ↔
    ∀ c ∈ calls, c.Quiet (ideInitialize booted bar0 bar1 bar2 bar3 bar4).channels := by
  refine h.always_iff (J := fun s =>
    s.channels = (ideInitialize booted bar0 bar1 bar2 bar3 bar4).channels) ?_ ?_ rfl initialize_disabled
  · intro s c t hs hst
    exact (step_channels hst).trans hs
  · intro s c t hs hd hst
    rw [← hs]
    refine disabled_step hst (fun k => ?_) hd
    rw [hs, initialize_nIEN]
    rfl

def silentWorld : World := ⟨fun _ _ => 0, 0⟩

def selectDrive : List Call := [.write .primary 0x06 0xE0, .read .primary 0x07, .readBuffer .primary 0x00 0x8000 128]

theorem disabled_iff_selectDrive : ∃ t,
    Run (Driver.Step silentWorld) (ideInitialize booted 0 0 0 0 0) selectDrive t ∧
    ((∀ pre t, pre <+: selectDrive →
      Run (Driver.Step silentWorld) (ideInitialize booted 0 0 0 0 0) pre t → t.Disabled) ↔
    ∀ c ∈ selectDrive, c.Quiet (ideInitialize booted 0 0 0 0 0).channels) := by
  have hr : Run (Driver.Step silentWorld) (ideInitialize booted 0 0 0 0 0) selectDrive _ :=
    .cons ⟨1, rfl⟩ (.cons ⟨1, rfl⟩ (.cons ⟨1, rfl⟩ (.nil _)))
  exact ⟨_, hr, disabled_iff hr⟩

def Call.SparesControl : Call → Prop
  | .write _ reg _ => reg ≠ ataRegControl
  | _ => True

theorem high_read_enables : ¬ ∀ (W : World) (bar0 bar1 bar2 bar3 bar4 : BitVec 32) (calls : List Call)
    (t : Driver), ((ideInitialize booted bar0 bar1 bar2 bar3 bar4).channels .primary).controlPort ≠
      ((ideInitialize booted bar0 bar1 bar2 bar3 bar4).channels .secondary).controlPort →
    (∀ c ∈ calls, c.SparesControl) →
    Run (Driver.Step W) (ideInitialize booted bar0 bar1 bar2 bar3 bar4) calls t → t.Disabled := by
  intro h
  have hn : ((ideInitialize booted 0 0 0 0 0).channels .primary).nIEN.getLsbD 1 = false := by
    rw [initialize_nIEN]
    rfl
  have hd := h silentWorld 0 0 0 0 0 [.read .primary 0x08] _ ?_ ?_ (.cons ⟨1, rfl⟩ (.nil _))
  · rw [ideRead_high (by decide)] at hd
    exact banked_not_disabled hn hd
  · unfold ideInitialize
    rw [ideWrite_channels, ideWrite_channels]
    decide
  · simp [Call.SparesControl]

end TinuOS.Ide
