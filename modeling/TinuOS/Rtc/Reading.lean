import TinuOS.Library.Fuel
import TinuOS.Rtc.Model

/-! How often `rtc_handler` reads the clock. -/

namespace TinuOS.Rtc

open Library

variable {δ : Type*} {D : Device δ} {curr currentTime : Time} {d : δ} {r : Reading δ} {fuel : ℕ}
  {s t : List (BitVec 8)}

lemma memcmp_eq_zero_iff (h : s.length = t.length) : memcmp s t = 0 ↔ s = t := by
  induction s generalizing t with
  | nil =>
    obtain rfl := List.length_eq_zero_iff.mp h.symm
    exact iff_of_true rfl rfl
  | cons a s ih =>
    cases t with
    | nil => cases h
    | cons b t =>
      rw [memcmp, List.cons.injEq, ← ih (Nat.succ.inj h)]
      split_ifs with hab
      · refine iff_of_false (fun h0 => hab ?_) fun h => hab h.1
        exact BitVec.eq_of_toNat_eq (by omega)
      · rw [not_not.mp hab]
        exact (and_iff_right rfl).symm

lemma Time.bytes_inj {t t' : Time} : t.bytes = t'.bytes ↔ t = t' := by
  constructor
  · intro h
    cases t
    cases t'
    simp only [Time.bytes, List.cons.injEq, and_true] at h
    obtain ⟨rfl, rfl, rfl, rfl, rfl, rfl, rfl, rfl⟩ := h
    rfl
  · rintro rfl
    rfl

lemma memcmp_time {t t' : Time} : memcmp t.bytes t'.bytes = 0 ↔ t = t' :=
  (memcmp_eq_zero_iff (s := t.bytes) (t := t'.bytes) rfl).trans Time.bytes_inj

lemma rtcLoop_pass : rtcLoop D (fuel + 1) (r.pass D) = some (r.pass D) :=
  if_neg (not_not.mpr (memcmp_time.mpr rfl))

lemma rtcHandler_once (D : Device δ) (curr currentTime : Time) (d : δ) : ∃ r,
    Returns (rtcHandler D curr currentTime d) r ∧ (r.currentTime, r.device) = readTime D d ∧
      r.passes = [(readTime D d).1] := by
  have hne : ({ curr with year := 0 } : Time) ≠
      ⟨0xFF, 0xFF, 0xFF, 0xFF, 0xFF, 0xFF, 0xFF, 0xFF⟩ := by
    intro h
    have hyear : (0 : BitVec 8) = 0xFF := congrArg Time.year h
    exact absurd hyear (by decide)
  refine ⟨Reading.pass D ⟨{ curr with year := 0 }, ⟨0xFF, 0xFF, 0xFF, 0xFF, 0xFF, 0xFF, 0xFF, 0xFF⟩,
    currentTime, d, []⟩, Returns.of_fuel fun fuel (hf : 2 ≤ fuel) => ?_, rfl, rfl⟩
  obtain ⟨fuel, rfl⟩ := Nat.exists_eq_add_of_le' hf
  exact (if_pos (fun h => hne (memcmp_time.mp h))).trans rtcLoop_pass

lemma rtcLoop_settled : Settled fun fuel => rtcLoop D fuel r := by
  intro n
  induction n generalizing r with
  | zero => exact fun _ _ _ h => absurd h (Option.some_ne_none _).symm
  | succ n ih =>
    intro m a hle h
    obtain ⟨m, rfl⟩ := Nat.exists_eq_add_of_le' (Nat.one_le_of_lt hle)
    simp only [rtcLoop] at h ⊢
    split_ifs at h ⊢
    · exact ih (Nat.le_of_succ_le_succ hle) h
    · exact h

lemma rtcHandler_reads {curr currentTime : Time} {d : δ} {fuel : ℕ}
    (h : rtcHandler D curr currentTime d fuel = some r) : (r.currentTime, r.device) = readTime D d := by
  obtain ⟨r', hr, ht, -⟩ := rtcHandler_once D curr currentTime d
  obtain rfl := (rtcLoop_settled.returns h).unique hr
  exact ht

def Stable (D : Device δ) (curr currentTime : Time) (d : δ) : Prop :=
  ∀ fuel r, rtcHandler D curr currentTime d fuel = some r →
    ∃ earlier, r.passes = earlier ++ [r.currentTime, r.currentTime]

lemma one_pass {t u : Time} {earlier : List Time} : [t] ≠ earlier ++ [u, u] := by
  intro h
  have hlen := congrArg List.length h
  rw [List.length_append] at hlen
  simp only [List.length_cons, List.length_nil] at hlen
  omega

theorem rtcHandler_unstable (D : Device δ) (curr currentTime : Time) (d : δ) :
    ¬ Stable D curr currentTime d := by
  intro h
  obtain ⟨r, hrun, -, hp⟩ := rtcHandler_once D curr currentTime d
  obtain ⟨fuel, hr⟩ := hrun.exists_fuel
  obtain ⟨earlier, he⟩ := h fuel r hr
  exact one_pass (hp.symm.trans he)

def ticking : Device ℕ where
  outb _ _ n := n
  inb _ n := (BitVec.ofNat 8 n, n + 1)

theorem ticking_torn : ¬ ∀ (D : Device ℕ) (curr currentTime : Time) (d : ℕ),
    Stable D curr currentTime d := by
  intro h
  obtain ⟨earlier, he⟩ := h ticking ⟨0, 0, 0, 0, 0, 0, 0, 0⟩ ⟨0, 0, 0, 0, 0, 0, 0, 0⟩ 0 2 _ rfl
  exact one_pass he

end TinuOS.Rtc
