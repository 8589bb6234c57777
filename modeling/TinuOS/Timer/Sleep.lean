import TinuOS.Timer.Model

/-! When `sleep` comes back, and when it has waited for as many interrupts as it is asked to. -/

namespace TinuOS.Timer

/-- However the interrupts fall between the tests of the loop, `ticks` of them come before its end. -/
def Waits (s : Clock) (ticks : BitVec 32) : Prop :=
  ∀ events count, sleep s ticks events = some count → ticks.toNat ≤ count

variable {s : Clock} {deadline ticks : BitVec 32} {events : List Event} {n count : ℕ}

def elapsed (events : List Event) (i : ℕ) : ℕ := (events.take i).count .interrupt

def Due (s : Clock) (deadline : BitVec 32) (n : ℕ) : Prop := ¬ s.tick + BitVec.ofNat 32 n < deadline

def EndsAt (s : Clock) (deadline : BitVec 32) (events : List Event) (i : ℕ) : Prop :=
  events[i]? = some .poll ∧ Due s deadline (elapsed events i) ∧
    ∀ j < i, events[j]? = some .poll → ¬ Due s deadline (elapsed events j)

lemma elapsed_interrupt (i : ℕ) : elapsed (.interrupt :: events) (i + 1) = elapsed events i + 1 := by
  simp [elapsed]

lemma elapsed_poll (i : ℕ) : elapsed (.poll :: events) (i + 1) = elapsed events i := by
  simp [elapsed]

lemma due_interrupt : Due s deadline (n + 1) ↔ Due (timerCallback s) deadline n := by
  rw [Due, Due, timerCallback_tick, BitVec.add_assoc, Nat.add_comm, BitVec.ofNat_add]
  rfl

lemma due_zero : Due s deadline 0 ↔ ¬ s.tick < deadline := by
  simp [Due]

lemma endsAt_interrupt (i : ℕ) :
    EndsAt s deadline (.interrupt :: events) (i + 1) ↔ EndsAt (timerCallback s) deadline events i := by
  rw [EndsAt, EndsAt, elapsed_interrupt, due_interrupt, List.getElem?_cons_succ]
  refine and_congr_right' (and_congr_right' ⟨fun h j hj hp => ?_, fun h j hj hp => ?_⟩)
  · have := h (j + 1) (by omega) hp
    rwa [elapsed_interrupt, due_interrupt] at this
  · cases j with
    | zero => simp at hp
    | succ j =>
      rw [elapsed_interrupt, due_interrupt]
      exact h j (by omega) hp

lemma endsAt_poll (i : ℕ) :
    EndsAt s deadline (.poll :: events) (i + 1) ↔ s.tick < deadline ∧ EndsAt s deadline events i := by
  rw [EndsAt, EndsAt, elapsed_poll, List.getElem?_cons_succ]
  constructor
  · rintro ⟨hi, hd, hall⟩
    refine ⟨?_, hi, hd, fun j hj hp => ?_⟩
    · have h0 := hall 0 (by omega) rfl
      exact not_not.mp fun hlt => h0 (due_zero.mpr hlt)
    · have := hall (j + 1) (by omega) hp
      rwa [elapsed_poll] at this
  · rintro ⟨hlt, hi, hd, hall⟩
    refine ⟨hi, hd, fun j hj hp => ?_⟩
    cases j with
    | zero => exact fun h0 => due_zero.mp h0 hlt
    | succ j =>
      rw [elapsed_poll]
      exact hall j (by omega) hp

lemma sleepLoop_eq_some {k : ℕ} : sleepLoop deadline events s k = some n ↔
    ∃ i, EndsAt s deadline events i ∧ n = k + elapsed events i := by
  induction events generalizing s k with
  | nil => simp [sleepLoop, EndsAt]
  | cons e events ih =>
    cases e with
    | interrupt =>
      rw [sleepLoop, ih]
      constructor
      · rintro ⟨i, hi, rfl⟩
        refine ⟨i + 1, (endsAt_interrupt i).mpr hi, ?_⟩
        rw [elapsed_interrupt]
        omega
      · rintro ⟨i, hi, rfl⟩
        cases i with
        | zero => simp [EndsAt] at hi
        | succ i =>
          refine ⟨i, (endsAt_interrupt i).mp hi, ?_⟩
          rw [elapsed_interrupt]
          omega
    | poll =>
      rw [sleepLoop]
      split_ifs with hlt
      · rw [ih]
        constructor
        · rintro ⟨i, hi, rfl⟩
          exact ⟨i + 1, (endsAt_poll i).mpr ⟨hlt, hi⟩, by rw [elapsed_poll]⟩
        · rintro ⟨i, hi, rfl⟩
          cases i with
          | zero => exact absurd hlt (due_zero.mp hi.2.1)
          | succ i => exact ⟨i, ((endsAt_poll i).mp hi).2, by rw [elapsed_poll]⟩
      · constructor
        · rintro h
          obtain rfl := Option.some.inj h
          refine ⟨0, ⟨rfl, due_zero.mpr hlt, fun j hj => absurd hj (Nat.not_lt_zero j)⟩, rfl⟩
        · rintro ⟨i, hi, rfl⟩
          cases i with
          | zero => rfl
          | succ i => exact absurd ((endsAt_poll i).mp hi).1 hlt

lemma sleep_of_wrap (h : 2 ^ 32 ≤ s.tick.toNat + ticks.toNat) : sleep s ticks [.poll] = some 0 := by
  have hlt : ¬ s.tick < s.tick + ticks := by bv_omega
  rw [sleep, sleepLoop, if_neg hlt]

theorem waits_iff (s : Clock) (ticks : BitVec 32) :
    Waits s ticks ↔ s.tick.toNat + ticks.toNat < 2 ^ 32 := by
  constructor
  · intro h
    by_contra hw
    have h0 := h _ _ (sleep_of_wrap (Nat.le_of_not_lt hw))
    have := s.tick.isLt
    omega
  · intro hd events count h
    obtain ⟨i, ⟨-, hdue, -⟩, rfl⟩ := sleepLoop_eq_some.mp h
    by_contra hn
    refine hdue ?_
    bv_omega

lemma due_iff (h : s.tick.toNat + ticks.toNat < 2 ^ 32) (hn : s.tick.toNat + n < 2 ^ 32) :
    Due s (s.tick + ticks) n ↔ ticks.toNat ≤ n := by
  unfold Due
  constructor <;> intro hd <;> bv_omega

lemma elapsed_le (events : List Event) (i : ℕ) : elapsed events i ≤ events.count .interrupt :=
  (List.take_sublist i events).count_le _

lemma exists_endsAt {i : ℕ} (hi : events[i]? = some .poll) (hd : Due s deadline (elapsed events i)) :
    ∃ j, EndsAt s deadline events j := by
  classical
  have hex : ∃ j, events[j]? = some .poll ∧ Due s deadline (elapsed events j) := ⟨i, hi, hd⟩
  have hfirst := Nat.find_spec hex
  exact ⟨Nat.find hex, hfirst.1, hfirst.2, fun j hj hp hdj => Nat.find_min hex hj ⟨hp, hdj⟩⟩

theorem sleep_returns_iff (s : Clock) (ticks : BitVec 32) (events : List Event) :
    (∀ n, sleep s ticks events = some n ↔ ∃ i, EndsAt s (s.tick + ticks) events i ∧ n = elapsed events i) ∧
    (s.tick.toNat + ticks.toNat < 2 ^ 32 → s.tick.toNat + events.count .interrupt < 2 ^ 32 →
      ((∃ n, sleep s ticks events = some n) ↔ ∃ i, events[i]? = some .poll ∧ ticks.toNat ≤ elapsed events i)) := by
  have hall : ∀ n, sleep s ticks events = some n ↔
      ∃ i, EndsAt s (s.tick + ticks) events i ∧ n = elapsed events i := by
    intro n
    rw [sleep, sleepLoop_eq_some]
    simp only [Nat.zero_add]
  refine ⟨hall, fun hd hwrap => ?_⟩
  have hdue : ∀ i, Due s (s.tick + ticks) (elapsed events i) ↔ ticks.toNat ≤ elapsed events i := fun i =>
    due_iff hd (by have := elapsed_le events i; omega)
  constructor
  · rintro ⟨n, hn⟩
    obtain ⟨i, ⟨hi, hdi, -⟩, -⟩ := (hall n).mp hn
    exact ⟨i, hi, (hdue i).mp hdi⟩
  · rintro ⟨i, hi, hticks⟩
    obtain ⟨j, hj⟩ := exists_endsAt hi ((hdue i).mpr hticks)
    exact ⟨_, (hall _).mpr ⟨j, hj, rfl⟩⟩

theorem wrapped_deadline_not_waits : ¬ ∀ (s : Clock) (ticks : BitVec 32), Waits s ticks := by
  intro h
  have h0 := h ⟨0xFFFFFFFF, []⟩ 1 [.poll] 0 (by decide)
  exact absurd h0 (by decide)

end TinuOS.Timer
