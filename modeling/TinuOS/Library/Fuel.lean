import Mathlib

/-! Functions that take fuel, and what they return once there is enough of it. -/

namespace TinuOS.Library

variable {α β : Type*}

def Returns (f : ℕ → Option α) (a : α) : Prop := ∃ N, ∀ fuel ≥ N, f fuel = some a

variable {f g : ℕ → Option α} {a a' : α} {b : β}

namespace Returns

lemma exists_fuel (h : Returns f a) : ∃ fuel, f fuel = some a := h.imp fun N hN => hN N le_rfl

lemma of_fuel {N : ℕ} (h : ∀ fuel ≥ N, f fuel = some a) : Returns f a := ⟨N, h⟩

lemma unique (h : Returns f a) (h' : Returns f a') : a = a' := by
  obtain ⟨N, hN⟩ := h
  obtain ⟨N', hN'⟩ := h'
  have he := (hN (max N N') (Nat.le_max_left N N')).symm.trans (hN' _ (Nat.le_max_right N N'))
  exact Option.some.inj he

lemma turn (h : Returns f a) (hg : ∀ fuel, g (fuel + 1) = f fuel) : Returns g a := by
  obtain ⟨N, hN⟩ := h
  refine ⟨N + 1, fun fuel hf => ?_⟩
  obtain ⟨fuel, rfl⟩ : ∃ m, fuel = m + 1 := ⟨fuel - 1, by omega⟩
  rw [hg]
  exact hN fuel (by omega)

lemma map (h : Returns f a) (k : α → β) : Returns (fun fuel => (f fuel).map k) (k a) := by
  obtain ⟨N, hN⟩ := h
  exact ⟨N, fun fuel hf => congrArg (Option.map k) (hN fuel hf)⟩

lemma bind_iff {k : ℕ → α → Option β} (h : Returns f a) :
    Returns (fun fuel => (f fuel).bind (k fuel)) b ↔ Returns (k · a) b := by
  obtain ⟨N, hN⟩ := h
  have hbind : ∀ fuel ≥ N, (f fuel).bind (k fuel) = k fuel a := fun fuel hf => by
    rw [hN fuel hf, Option.bind_some]
  constructor
  · rintro ⟨M, hM⟩
    refine ⟨max N M, fun fuel hf => ?_⟩
    exact (hbind fuel (by omega)).symm.trans (hM fuel (by omega))
  · rintro ⟨M, hM⟩
    refine ⟨max N M, fun fuel hf => ?_⟩
    exact (hbind fuel (by omega)).trans (hM fuel (by omega))

end Returns

def Settled (f : ℕ → Option α) : Prop := ∀ ⦃n m a⦄, n ≤ m → f n = some a → f m = some a

namespace Settled

lemma returns {n : ℕ} (hf : Settled f) (h : f n = some a) : Returns f a := ⟨n, fun _ hle => hf hle h⟩

lemma map (hf : Settled f) (k : α → β) : Settled fun fuel => (f fuel).map k := by
  intro n m b hle h
  obtain ⟨a, ha, rfl⟩ := Option.map_eq_some_iff.mp h
  exact congrArg (Option.map k) (hf hle ha)

lemma bind {k : ℕ → α → Option β} (hf : Settled f) (hk : ∀ a, Settled (k · a)) :
    Settled fun fuel => (f fuel).bind (k fuel) := by
  intro n m b hle h
  obtain ⟨a, ha, hb⟩ := Option.bind_eq_some_iff.mp h
  exact Option.bind_eq_some_iff.mpr ⟨a, hf hle ha, hk a hle hb⟩

end Settled

end TinuOS.Library
