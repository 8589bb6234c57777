import TinuOS.Ide.Control

/-! The accesses to ports that each call of the driver makes, and the registers that they are made for. -/

namespace TinuOS.Ide

def Access.port : Access → BitVec 16
  | .outb _ port => port
  | .inb port => port
  | .insl port _ _ => port

/-- An access, with the channel and the register that it is made for. -/
structure Made where
  channel : Channel
  reg : BitVec 8
  access : Access

namespace Driver

def perform (σ : Driver) (ms : List Made) : Driver := ms.foldl (fun σ m => σ.access m.access) σ

end Driver

section

variable (c : Channel → IDEChannelRegisters) (k : Channel)

def made (reg : BitVec 8) (f : BitVec 16 → Access) : List Made :=
  ((c k).port reg).toList.map fun p => ⟨k, reg, f p⟩

def guarded (reg : BitVec 8) (f : BitVec 16 → Access) : List Made :=
  if High reg then
    made c k ataRegControl (.outb (0x80#8 ||| (c k).nIEN)) ++ made c k reg f ++
      made c k ataRegControl (.outb (c k).nIEN)
  else made c k reg f

end

namespace Call

def channel : Call → Channel
  | .write k _ _ => k
  | .read k _ => k
  | .readBuffer k _ _ _ => k
  | .polling k _ => k

def polled (polls : ℕ) (advancedCheck : BitVec 32) : List (BitVec 8) :=
  List.replicate 4 ataRegAltstatus ++ List.replicate polls ataRegStatus ++
    if advancedCheck ≠ 0 then [ataRegStatus] else []

def made (c : Channel → IDEChannelRegisters) (polls : ℕ) : Call → List Made
  | .write k reg data => guarded c k reg (.outb data)
  | .read k reg => guarded c k reg .inb
  | .readBuffer k reg buffer quads => guarded c k reg (.insl · buffer quads)
  | .polling k advancedCheck => (polled polls advancedCheck).flatMap fun reg => guarded c k reg .inb

end Call

variable {σ τ : Driver} {W : World} {k : Channel} {reg data : BitVec 8} {p : BitVec 16}
  {f : BitVec 16 → Access} {m : Made} {ms ms' : List Made} {fuel : ℕ} {c : Call}

@[simp] lemma perform_channels : (σ.perform ms).channels = σ.channels := by
  induction ms generalizing σ with
  | nil => rfl
  | cons m ms ih => exact ih

lemma perform_append : σ.perform (ms ++ ms') = (σ.perform ms).perform ms' := List.foldl_append

lemma made_of_port (h : (σ.channels k).port reg = some p) : made σ.channels k reg f = [⟨k, reg, f p⟩] := by
  rw [made, h]
  rfl

lemma accessAt_eq_perform : σ.accessAt k reg f = σ.perform (made σ.channels k reg f) := by
  rw [Driver.accessAt]
  cases h : (σ.channels k).port reg with
  | none =>
    rw [made, h]
    rfl
  | some p =>
    rw [made_of_port h]
    rfl

lemma port_high (h : High reg) : (σ.channels k).port reg = some ((σ.channels k).highPort reg) := by
  have h8 : ¬ reg < 0x08#8 := by
    have := h.1
    bv_omega
  rw [IDEChannelRegisters.port, if_neg h8, if_pos h.2]
  rfl

lemma port_low (h : reg ≤ 0x07#8) :
    (σ.channels k).port reg = some ((σ.channels k).base + reg.setWidth 16) := by
  rw [IDEChannelRegisters.port, if_pos (by bv_omega), BitVec.sub_zero]

lemma not_high_of_le (h : reg ≤ 0x07#8) : ¬ High reg := fun hr => BitVec.not_lt.mpr h hr.1

lemma made_control (data : BitVec 8) : made σ.channels k ataRegControl (.outb data) =
    [⟨k, ataRegControl, .outb data (σ.channels k).controlPort⟩] := made_of_port (port_control _)

lemma guarded_low (h : ¬ High reg) : guarded σ.channels k reg f = made σ.channels k reg f := if_neg h

lemma guarded_high (h : High reg) : guarded σ.channels k reg f =
    [⟨k, ataRegControl, .outb (0x80#8 ||| (σ.channels k).nIEN) (σ.channels k).controlPort⟩,
      ⟨k, reg, f ((σ.channels k).highPort reg)⟩,
      ⟨k, ataRegControl, .outb (σ.channels k).nIEN (σ.channels k).controlPort⟩] := by
  rw [guarded, if_pos h, made_control, made_control, made_of_port (port_high h)]
  rfl

lemma banked_eq_perform (h : High reg) : σ.banked k (f ((σ.channels k).highPort reg)) =
    σ.perform (guarded σ.channels k reg f) := by
  rw [guarded_high h]
  rfl

lemma ideWrite_eq_perform : ideWrite σ k reg data = σ.perform (guarded σ.channels k reg (.outb data)) := by
  by_cases h : High reg
  · rw [ideWrite_high h, banked_eq_perform h]
  · rw [ideWrite_low h, guarded_low h, accessAt_eq_perform]

lemma ideRead_eq_perform : (ideRead W σ k reg).2 = σ.perform (guarded σ.channels k reg .inb) := by
  by_cases h : High reg
  · rw [ideRead_high h, banked_eq_perform h]
  · rw [ideRead_low h, guarded_low h, accessAt_eq_perform]

lemma ideReadBuffer_eq_perform {buffer quads : BitVec 32} : ideReadBuffer σ k reg buffer quads =
    σ.perform (guarded σ.channels k reg (.insl · buffer quads)) := by
  by_cases h : High reg
  · rw [ideReadBuffer_high h, ← banked_eq_perform h]
  · rw [ideReadBuffer_low h, guarded_low h, accessAt_eq_perform]

def reads (c : Channel → IDEChannelRegisters) (k : Channel) (regs : List (BitVec 8)) : List Made :=
  regs.flatMap fun reg => guarded c k reg .inb

lemma reads_append {c : Channel → IDEChannelRegisters} {regs regs' : List (BitVec 8)} :
    reads c k (regs ++ regs') = reads c k regs ++ reads c k regs' := List.flatMap_append

lemma perform_reads_append {regs regs' : List (BitVec 8)} : σ.perform (reads σ.channels k (regs ++ regs')) =
    (σ.perform (reads σ.channels k regs)).perform
      (reads (σ.perform (reads σ.channels k regs)).channels k regs') := by
  rw [reads_append, perform_append, perform_channels]

lemma perform_reads_single : σ.perform (reads σ.channels k [reg]) = (ideRead W σ k reg).2 := by
  rw [ideRead_eq_perform, reads, List.flatMap_singleton]

lemma perform_reads_cons {regs : List (BitVec 8)} : σ.perform (reads σ.channels k (reg :: regs)) =
    (ideRead W σ k reg).2.perform (reads (ideRead W σ k reg).2.channels k regs) := by
  rw [← List.singleton_append, perform_reads_append, perform_reads_single]

lemma waitBusy_eq_perform (h : waitBusy fuel W σ k = some τ) :
    ∃ polls, τ = σ.perform (reads σ.channels k (List.replicate polls ataRegStatus)) := by
  induction fuel generalizing σ with
  | zero => exact absurd h (Option.some_ne_none τ).symm
  | succ fuel ih =>
    simp only [waitBusy] at h
    split at h
    · obtain ⟨polls, rfl⟩ := ih h
      exact ⟨polls + 1, perform_reads_cons.symm⟩
    · cases h
      exact ⟨1, perform_reads_single.symm⟩

lemma idePolling_eq_perform {adv : BitVec 32} {v : BitVec 8}
    (h : idePolling fuel W σ k adv = some (v, τ)) :
    ∃ polls, τ = σ.perform (reads σ.channels k (Call.polled polls adv)) := by
  obtain ⟨υ, hw, hv⟩ := Option.map_eq_some_iff.mp h
  obtain ⟨polls, hpolls⟩ := waitBusy_eq_perform hw
  have hend : τ = υ.perform (reads υ.channels k (if adv ≠ 0 then [ataRegStatus] else [])) := by
    simp only at hv
    by_cases hadv : adv ≠ 0
    · rw [if_pos hadv, perform_reads_single (W := W)]
      rw [if_pos hadv] at hv
      split_ifs at hv <;> cases hv <;> rfl
    · rw [if_neg hadv]
      rw [if_neg hadv] at hv
      cases hv
      rfl
  have hstart : (ideRead W (ideRead W (ideRead W (ideRead W σ k ataRegAltstatus).2 k
      ataRegAltstatus).2 k ataRegAltstatus).2 k ataRegAltstatus).2 =
      σ.perform (reads σ.channels k (List.replicate 4 ataRegAltstatus)) := by
    simp only [List.replicate, perform_reads_cons (W := W)]
    rfl
  rw [hstart] at hpolls
  refine ⟨polls, ?_⟩
  rw [Call.polled, perform_reads_append, perform_reads_append, ← hpolls]
  exact hend

lemma step_perform (h : Driver.Step W σ c τ) : ∃ polls, τ = σ.perform (c.made σ.channels polls) := by
  obtain ⟨fuel, h⟩ := h
  cases c with
  | write k reg data =>
    cases h
    exact ⟨0, ideWrite_eq_perform⟩
  | read k reg =>
    cases h
    exact ⟨0, ideRead_eq_perform⟩
  | readBuffer k reg buffer quads =>
    cases h
    exact ⟨0, ideReadBuffer_eq_perform⟩
  | polling k adv =>
    obtain ⟨⟨v, υ⟩, hp, rfl⟩ := Option.map_eq_some_iff.mp h
    exact idePolling_eq_perform hp

end TinuOS.Ide
