import TinuOS.Ide.Control
import TinuOS.Library.Fuel

/-! When `ide_polling` comes back, and with what. -/

namespace TinuOS.Ide

open Library

def IDEChannelRegisters.statusPort (c : IDEChannelRegisters) : BitVec 16 := c.base + 7#16

def waited (c : IDEChannelRegisters) (n : ℕ) : List Access :=
  List.replicate 4 (.inb c.controlPort) ++ List.replicate n (.inb c.statusPort)

def Driver.waits (σ : Driver) (k : Channel) (n : ℕ) : Driver :=
  { σ with accesses := σ.accesses ++ waited (σ.channels k) n }

def World.status (W : World) (σ : Driver) (k : Channel) (n : ℕ) : BitVec 8 :=
  W.inb (σ.waits k n).accesses (σ.channels k).statusPort

def Busy (state : BitVec 8) : Prop := state.getLsbD 7 = true

def verdict (state : BitVec 8) : BitVec 8 :=
  if state.getLsbD 0 then 2 else if state.getLsbD 5 then 1 else if state.getLsbD 3 then 0 else 3

variable {σ τ : Driver} {W : World} {k : Channel} {i n fuel : ℕ} {adv : BitVec 32}

lemma busy_iff (state : BitVec 8) : state &&& ataSrBsy ≠ 0 ↔ Busy state := by
  unfold Busy
  revert state
  decide

lemma port_status (c : IDEChannelRegisters) : c.port ataRegStatus = some c.statusPort := by
  rw [IDEChannelRegisters.port, if_pos (by decide), IDEChannelRegisters.statusPort, BitVec.sub_zero]
  rfl

lemma ideRead_status : ideRead W σ k ataRegStatus =
    (W.inb σ.accesses (σ.channels k).statusPort, σ.access (.inb (σ.channels k).statusPort)) := by
  have h : ¬ High ataRegStatus := by decide
  simp only [ideRead, if_neg h, port_status, Option.elim_some, Driver.accessAt]

lemma ideRead_altstatus : (ideRead W σ k ataRegAltstatus).2 = σ.access (.inb (σ.channels k).controlPort) := by
  have hp : (σ.channels k).port ataRegAltstatus = some (σ.channels k).controlPort := port_control _
  rw [ideRead_low (by decide), Driver.accessAt, hp]

lemma waits_zero : (ideRead W (ideRead W (ideRead W (ideRead W σ k ataRegAltstatus).2 k ataRegAltstatus).2 k
    ataRegAltstatus).2 k ataRegAltstatus).2 = σ.waits k 0 := by
  simp only [ideRead_altstatus, access_channels]
  simp [Driver.access, Driver.waits, waited]

lemma waits_succ : (σ.waits k n).access (.inb (σ.channels k).statusPort) = σ.waits k (n + 1) := by
  simp [Driver.access, Driver.waits, waited, List.replicate_succ']

lemma waits_read : ideRead W (σ.waits k n) k ataRegStatus = (W.status σ k n, σ.waits k (n + 1)) := by
  rw [ideRead_status]
  exact congrArg (_, ·) waits_succ

lemma waitBusy_turn : waitBusy (fuel + 1) W (σ.waits k n) k =
    if W.status σ k n &&& ataSrBsy ≠ 0 then waitBusy fuel W (σ.waits k (n + 1)) k
    else some (σ.waits k (n + 1)) := by
  simp only [waitBusy, waits_read]

lemma waitBusy_returns (hb : ∀ m < n, Busy (W.status σ k m)) (hn : ¬ Busy (W.status σ k n)) (hi : i ≤ n)
    (hf : n < fuel + i) : waitBusy fuel W (σ.waits k i) k = some (σ.waits k (n + 1)) := by
  induction fuel generalizing i with
  | zero => omega
  | succ fuel ih =>
    rw [waitBusy_turn]
    rcases Nat.lt_or_eq_of_le hi with hlt | rfl
    · rw [if_pos ((busy_iff _).mpr (hb i hlt))]
      exact ih hlt (by omega)
    · exact if_neg (mt (busy_iff _).mp hn)

lemma waitBusy_forever (hb : ∀ m, Busy (W.status σ k m)) : waitBusy fuel W (σ.waits k i) k = none := by
  induction fuel generalizing i with
  | zero => rfl
  | succ fuel ih =>
    rw [waitBusy_turn, if_pos ((busy_iff _).mpr (hb i))]
    exact ih

def checked (W : World) (σ : Driver) (k : Channel) (adv : BitVec 32) (n : ℕ) : BitVec 8 × Driver :=
  if adv = 0 then (0, σ.waits k n) else (verdict (W.status σ k n), σ.waits k (n + 1))

lemma tests_eq (state : BitVec 8) (τ : Driver) :
    (if state &&& ataSrErr ≠ 0 then ((2 : BitVec 8), τ) else if state &&& ataSrDf ≠ 0 then (1, τ)
      else if state &&& ataSrDrq = 0 then (3, τ) else (0, τ)) = (verdict state, τ) := by
  have h : ∀ state : BitVec 8, (if state &&& ataSrErr ≠ 0 then (2 : BitVec 8) else if state &&& ataSrDf ≠ 0 then 1
      else if state &&& ataSrDrq = 0 then 3 else 0) = verdict state := by decide
  rw [← h]
  split_ifs <;> rfl

lemma idePolling_eq : idePolling fuel W σ k adv =
    (waitBusy fuel W (σ.waits k 0) k).map fun τ =>
      if adv ≠ 0 then (verdict (ideRead W τ k ataRegStatus).1, (ideRead W τ k ataRegStatus).2) else (0, τ) := by
  simp only [idePolling, waits_zero, tests_eq]

lemma polling_checked (hb : ∀ m < n, Busy (W.status σ k m)) (hn : ¬ Busy (W.status σ k n)) :
    Returns (fun fuel => idePolling fuel W σ k adv) (checked W σ k adv (n + 1)) := by
  refine .of_fuel (N := n + 1) fun fuel hf => ?_
  rw [idePolling_eq, waitBusy_returns hb hn (Nat.zero_le n) hf, Option.map_some, waits_read, checked]
  by_cases h : adv = 0
  · rw [if_pos h, if_neg (not_not.mpr h)]
  · rw [if_neg h, if_pos h]

theorem polling_returns_iff (W : World) (σ : Driver) (k : Channel) (adv : BitVec 32) :
    (∀ n, (∀ m < n, Busy (W.status σ k m)) → ¬ Busy (W.status σ k n) →
      Returns (fun fuel => idePolling fuel W σ k adv) (checked W σ k adv (n + 1))) ∧
    ((∃ r, Returns (fun fuel => idePolling fuel W σ k adv) r) ↔ ∃ n, ¬ Busy (W.status σ k n)) := by
  refine ⟨fun n => polling_checked, ?_, ?_⟩
  · rintro ⟨r, hr⟩
    obtain ⟨fuel, hf⟩ := hr.exists_fuel
    by_contra hnot
    have hb : ∀ m, Busy (W.status σ k m) := fun m => not_not.mp fun hm => hnot ⟨m, hm⟩
    rw [idePolling_eq, waitBusy_forever hb] at hf
    exact Option.some_ne_none r hf.symm
  · intro hex
    classical
    exact ⟨_, polling_checked (fun m hm => not_not.mp (Nat.find_min hex hm)) (Nat.find_spec hex)⟩

end TinuOS.Ide
