import Mathlib

/-! Finite runs of a labelled transition relation and the properties they keep. -/

namespace TinuOS.Library

variable {S A : Type*}

inductive Run (step : S → A → S → Prop) : S → List A → S → Prop
  | nil (s : S) : Run step s [] s
  | cons {s t u : S} {a : A} {as : List A} : step s a t → Run step t as u → Run step s (a :: as) u

namespace Run

variable {B : Type*} {step : S → A → S → Prop} {s t : S} {as : List A}

lemma snoc {a : A} {u : S} (h : Run step s as t) (hs : step t a u) : Run step s (as ++ [a]) u := by
  induction h with
  | nil => exact .cons hs (.nil u)
  | cons he _ ih => exact .cons he (ih hs)

lemma append_iff {bs : List A} {u : S} :
    Run step s (as ++ bs) u ↔ ∃ t, Run step s as t ∧ Run step t bs u := by
  induction as generalizing s with
  | nil =>
    refine ⟨fun h => ⟨s, .nil s, h⟩, ?_⟩
    rintro ⟨t, ht, hu⟩
    cases ht
    exact hu
  | cons a as ih =>
    constructor
    · intro h
      cases h with
      | cons hs hr =>
        obtain ⟨t, ht, hu⟩ := ih.mp hr
        exact ⟨t, .cons hs ht, hu⟩
    · rintro ⟨t, ht, hu⟩
      cases ht with
      | cons hs hr => exact .cons hs (ih.mpr ⟨t, hr, hu⟩)

lemma snoc_iff {a : A} {u : S} :
    Run step s (as ++ [a]) u ↔ ∃ t, Run step s as t ∧ step t a u := by
  refine ⟨fun h => ?_, fun ⟨t, h, hs⟩ => h.snoc hs⟩
  obtain ⟨t, ht, hu⟩ := append_iff.mp h
  cases hu with
  | cons hs hn =>
    cases hn
    exact ⟨t, ht, hs⟩

lemma invariant {P : S → Prop} (hp : ∀ s a t, P s → step s a t → P t) (h : Run step s as t)
    (hs : P s) : P t := by
  induction h with
  | nil => exact hs
  | cons he _ ih => exact ih (hp _ _ _ hs he)

lemma always_iff {P J : S → Prop} {Q : A → Prop} (hJ : ∀ s a t, J s → step s a t → J t)
    (hP : ∀ s a t, J s → P s → step s a t → (P t ↔ Q a)) (hj : J s) (hs : P s)
    (h : Run step s as t) :
    (∀ pre u, pre <+: as → Run step s pre u → P u) ↔ ∀ a ∈ as, Q a := by
  constructor
  · intro hall a ha
    obtain ⟨pre, post, rfl⟩ := List.append_of_mem ha
    obtain ⟨u, hu, hr⟩ := append_iff.mp h
    cases hr with
    | cons hst _ =>
      have hpu := hall pre u (List.prefix_append _ _) hu
      have hpv := hall (pre ++ [a]) _ ⟨post, by simp⟩ (hu.snoc hst)
      exact (hP _ _ _ (hu.invariant hJ hj) hpu hst).mp hpv
  · intro hq pre u hp hr
    induction pre using List.reverseRecOn generalizing u with
    | nil =>
      cases hr
      exact hs
    | append_singleton pre a ih =>
      obtain ⟨v, hv, hst⟩ := snoc_iff.mp hr
      have hpv := ih v ((List.prefix_append _ _).trans hp) hv
      have ha : a ∈ as := hp.subset (by simp)
      exact (hP _ _ _ (hv.invariant hJ hj) hpv hst).mpr (hq a ha)

lemma simulation {T : Type*} {spec : T → A → T → Prop} {R : S → T → Prop}
    (hR : ∀ s a t u, R s u → step s a t → ∃ v, spec u a v ∧ R t v) {u : T} (h : Run step s as t)
    (hs : R s u) : ∃ v, Run spec u as v ∧ R t v := by
  induction h generalizing u with
  | nil s => exact ⟨u, .nil u, hs⟩
  | cons he _ ih =>
    obtain ⟨w, hw, hr⟩ := hR _ _ _ _ hs he
    obtain ⟨v, hv, ht⟩ := ih hr
    exact ⟨v, .cons hw hv, ht⟩

lemma simulation_filterMap {T : Type*} {spec : T → B → T → Prop} {R : S → T → Prop} {see : A → Option B}
    (hseen : ∀ s a b t u, see a = some b → R s u → step s a t → ∃ v, spec u b v ∧ R t v)
    (hunseen : ∀ s a t u, see a = none → R s u → step s a t → R t u) {u : T} (h : Run step s as t)
    (hs : R s u) : ∃ v, Run spec u (as.filterMap see) v ∧ R t v := by
  induction h generalizing u with
  | nil s => exact ⟨u, .nil u, hs⟩
  | @cons s t t' a as he _ ih =>
    cases ha : see a with
    | none =>
      obtain ⟨v, hv, ht⟩ := ih (hunseen _ _ _ _ ha hs he)
      rw [List.filterMap_cons_none ha]
      exact ⟨v, hv, ht⟩
    | some b =>
      obtain ⟨w, hw, hr⟩ := hseen _ _ _ _ _ ha hs he
      obtain ⟨v, hv, ht⟩ := ih hr
      rw [List.filterMap_cons_some ha]
      exact ⟨v, .cons hw hv, ht⟩

lemma exists_descent {P : S → Prop} {Q : A → Prop} {rank : S → ℕ}
    (hstep : ∀ s, P s → rank s ≠ 0 → ∃ a t, Q a ∧ step s a t ∧ P t ∧ rank t < rank s) (hs : P s) :
    ∃ as t, Run step s as t ∧ (∀ a ∈ as, Q a) ∧ as.length ≤ rank s ∧ P t ∧ rank t = 0 := by
  induction h : rank s using Nat.strong_induction_on generalizing s with
  | _ n ih =>
    by_cases h0 : rank s = 0
    · exact ⟨[], s, .nil s, by simp, Nat.zero_le n, hs, h0⟩
    · obtain ⟨a, u, ha, hu, hp, hlt⟩ := hstep s hs h0
      obtain ⟨as, t, hr, hq, hlen, ht, hz⟩ := ih (rank u) (h ▸ hlt) hp rfl
      refine ⟨a :: as, t, .cons hu hr, List.forall_mem_cons.mpr ⟨ha, hq⟩, ?_, ht, hz⟩
      rw [List.length_cons]
      omega

lemma of_foldlM {f : S → A → Option S} (hf : ∀ s a t, f s a = some t → step s a t)
    (h : as.foldlM f s = some t) : Run step s as t := by
  induction as generalizing s with
  | nil =>
    obtain rfl : s = t := by simpa using h
    exact .nil s
  | cons a as ih =>
    rw [List.foldlM_cons] at h
    obtain ⟨u, hu, ht⟩ := Option.bind_eq_some_iff.mp h
    exact .cons (hf s a u hu) (ih ht)

lemma exists_of_foldlM {f : S → A → Option S} {view : S → B} {b : B}
    (hf : ∀ s a t, f s a = some t → step s a t) (h : (as.foldlM f s).map view = some b) :
    ∃ t, Run step s as t ∧ view t = b := by
  obtain ⟨t, ht, hb⟩ := Option.map_eq_some_iff.mp h
  exact ⟨t, of_foldlM hf ht, hb⟩

end Run

end TinuOS.Library
