import TinuOS.Library.Run

/-! A stack of free items that any number of clients take from and give back to, each call in one
atomic step somewhere between its start and its end. -/

namespace TinuOS.Library

variable {C α : Type*}

namespace Pool

inductive Phase (α : Type*)
  | idle
  | freeing (a : α)
  | freed
  | allocating
  | allocated (r : Option α)
  deriving DecidableEq

def Phase.carried : Phase α → Option α
  | .freeing a => some a
  | .allocated r => r
  | .idle | .freed | .allocating => none

inductive Act (α : Type*)
  | callAlloc
  | retAlloc (r : Option α)
  | callFree (a : α)
  | retFree
  | work
  deriving DecidableEq

end Pool

structure Pool (C α : Type*) where
  stack : List α
  held : List α
  phase : C → Pool.Phase α

namespace Pool

variable [DecidableEq C] [DecidableEq α]

def put (s : Pool C α) (c : C) (p : Phase α) : Pool C α := { s with phase := Function.update s.phase c p }

inductive Step : Pool C α → C × Act α → Pool C α → Prop
  | callAlloc {s : Pool C α} {c : C} (h : s.phase c = .idle) : Step s (c, .callAlloc) (s.put c .allocating)
  | retAlloc {s : Pool C α} {c : C} {r : Option α} (h : s.phase c = .allocated r) :
    Step s (c, .retAlloc r) { s.put c .idle with held := r.toList ++ s.held }
  | callFree {s : Pool C α} {c : C} {a : α} (h : s.phase c = .idle) (ha : a ∈ s.held) :
    Step s (c, .callFree a) { s.put c (.freeing a) with held := s.held.erase a }
  | retFree {s : Pool C α} {c : C} (h : s.phase c = .freed) : Step s (c, .retFree) (s.put c .idle)
  | pop {s : Pool C α} {c : C} (h : s.phase c = .allocating) :
    Step s (c, .work) { s.put c (.allocated s.stack.head?) with stack := s.stack.tail }
  | push {s : Pool C α} {c : C} {a : α} (h : s.phase c = .freeing a) :
    Step s (c, .work) { s.put c .freed with stack := a :: s.stack }
  | stay (s : Pool C α) (c : C) : Step s (c, .work) s

def atRest (s : Pool C α) : List α := s.stack ++ s.held

structure Exclusive (items : List α) (s : Pool C α) : Prop where
  nodup : s.atRest.Nodup
  carried : ∀ c a, (s.phase c).carried = some a → a ∉ s.atRest
  single : ∀ c d a, (s.phase c).carried = some a → (s.phase d).carried = some a → c = d
  all : ∀ a, a ∈ items ↔ a ∈ s.atRest ∨ ∃ c, (s.phase c).carried = some a

def start (items : List α) : Pool C α := ⟨items, [], fun _ => .idle⟩

variable {s t : Pool C α} {c d : C} {a b : α} {p : Phase α} {items : List α} {act : Act α}
  {as : List (C × Act α)}

omit [DecidableEq C] [DecidableEq α] in
lemma start_exclusive (h : items.Nodup) : (start items : Pool C α).Exclusive items := by
  have hrest : (start items : Pool C α).atRest = items := List.append_nil items
  refine ⟨by rwa [hrest], ?_, ?_, ?_⟩
  · intro c a hc
    exact absurd hc (Option.some_ne_none a).symm
  · intro c d a hc
    exact absurd hc (Option.some_ne_none a).symm
  · intro a
    rw [hrest]
    simp [start, Phase.carried]

omit [DecidableEq α] in
lemma carried_update : (Function.update s.phase c p d).carried = if d = c then p.carried else (s.phase d).carried := by
  rw [Function.update_apply]
  split_ifs <;> rfl

omit [DecidableEq α] in
lemma Exclusive.same (h : s.Exclusive items) (hp : t.phase = Function.update s.phase c p)
    (hr : t.atRest = s.atRest) (hc : p.carried = (s.phase c).carried) : t.Exclusive items := by
  have hcarried : ∀ d, (t.phase d).carried = (s.phase d).carried := by
    intro d
    rw [hp, carried_update]
    split_ifs with hd
    · rw [hd, hc]
    · rfl
  refine ⟨hr ▸ h.nodup, fun d a hd => ?_, fun d e a hd he => ?_, fun a => ?_⟩
  · rw [hr]
    exact h.carried d a (hcarried d ▸ hd)
  · exact h.single d e a (hcarried d ▸ hd) (hcarried e ▸ he)
  · simp only [hr, hcarried, h.all]

omit [DecidableEq α] in
lemma Exclusive.take (h : s.Exclusive items) (hp : t.phase = Function.update s.phase c p)
    (hr : s.atRest.Perm (a :: t.atRest)) (hs : (s.phase c).carried = none) (hc : p.carried = some a) :
    t.Exclusive items := by
  obtain ⟨ha, hnd⟩ := List.nodup_cons.mp (hr.nodup_iff.mp h.nodup)
  have hmem : ∀ b, b ∈ s.atRest ↔ b = a ∨ b ∈ t.atRest := fun b => hr.mem_iff.trans List.mem_cons
  have hother : ∀ d, d ≠ c → (t.phase d).carried = (s.phase d).carried := by
    intro d hd
    rw [hp, carried_update, if_neg hd]
  have hself : (t.phase c).carried = some a := by
    rw [hp, carried_update, if_pos rfl, hc]
  have hnot : ∀ d b, d ≠ c → (t.phase d).carried = some b → b ≠ a ∧ b ∉ t.atRest := by
    intro d b hd hb
    have hb' := h.carried d b (hother d hd ▸ hb)
    rw [hmem, not_or] at hb'
    exact hb'
  refine ⟨hnd, fun d b hb => ?_, fun d e b hd he => ?_, fun b => ?_⟩
  · by_cases hdc : d = c
    · rw [hdc, hself] at hb
      exact Option.some.inj hb ▸ ha
    · exact (hnot d b hdc hb).2
  · by_cases hdc : d = c <;> by_cases hec : e = c
    · rw [hdc, hec]
    · rw [hdc, hself] at hd
      exact absurd (Option.some.inj hd).symm (hnot e b hec he).1
    · rw [hec, hself] at he
      exact absurd (Option.some.inj he).symm (hnot d b hdc hd).1
    · exact h.single d e b (hother d hdc ▸ hd) (hother e hec ▸ he)
  · rw [h.all, hmem]
    constructor
    · rintro ((rfl | hb) | ⟨d, hd⟩)
      · exact Or.inr ⟨c, hself⟩
      · exact Or.inl hb
      · refine Or.inr ⟨d, ?_⟩
        rw [hother d, hd]
        rintro rfl
        exact Option.some_ne_none b (hd.symm.trans hs)
    · rintro (hb | ⟨d, hd⟩)
      · exact Or.inl (Or.inr hb)
      · by_cases hdc : d = c
        · rw [hdc, hself] at hd
          exact Or.inl (Or.inl (Option.some.inj hd).symm)
        · exact Or.inr ⟨d, hother d hdc ▸ hd⟩

omit [DecidableEq α] in
lemma Exclusive.give (h : s.Exclusive items) (hp : t.phase = Function.update s.phase c p)
    (hr : t.atRest.Perm (a :: s.atRest)) (hs : (s.phase c).carried = some a) (hc : p.carried = none) :
    t.Exclusive items := by
  have hmem : ∀ b, b ∈ t.atRest ↔ b = a ∨ b ∈ s.atRest := fun b => hr.mem_iff.trans List.mem_cons
  have hother : ∀ d, d ≠ c → (t.phase d).carried = (s.phase d).carried := by
    intro d hd
    rw [hp, carried_update, if_neg hd]
  have hself : (t.phase c).carried = none := by
    rw [hp, carried_update, if_pos rfl, hc]
  have hne : ∀ d b, (t.phase d).carried = some b → d ≠ c := by
    rintro d b hb rfl
    exact Option.some_ne_none b (hb.symm.trans hself)
  refine ⟨hr.nodup_iff.mpr (List.nodup_cons.mpr ⟨h.carried c a hs, h.nodup⟩), fun d b hb => ?_,
    fun d e b hd he => ?_, fun b => ?_⟩
  · have hdc := hne d b hb
    rw [hother d hdc] at hb
    rw [hmem, not_or]
    refine ⟨?_, h.carried d b hb⟩
    rintro rfl
    exact hdc (h.single d c b hb hs)
  · exact h.single d e b (hother d (hne d b hd) ▸ hd) (hother e (hne e b he) ▸ he)
  · rw [h.all, hmem]
    constructor
    · rintro (hb | ⟨d, hd⟩)
      · exact Or.inl (Or.inr hb)
      · by_cases hdc : d = c
        · rw [hdc, hs] at hd
          exact Or.inl (Or.inl (Option.some.inj hd).symm)
        · exact Or.inr ⟨d, (hother d hdc).trans hd⟩
    · rintro ((rfl | hb) | ⟨d, hd⟩)
      · exact Or.inr ⟨c, hs⟩
      · exact Or.inl hb
      · exact Or.inr ⟨d, (hother d (hne d b hd)).symm.trans hd⟩

lemma Exclusive.step (h : s.Exclusive items) (hs : Step s (c, act) t) : t.Exclusive items := by
  cases hs with
  | callAlloc hc | retFree hc => exact h.same rfl rfl (by rw [hc]; rfl)
  | @retAlloc _ r hc =>
    cases r with
    | none => exact h.same rfl rfl (by rw [hc]; rfl)
    | some a => exact h.give rfl List.perm_middle (by rw [hc]; rfl) rfl
  | callFree hc ha =>
    refine h.take rfl ?_ (by rw [hc]; rfl) rfl
    exact ((List.perm_cons_erase ha).append_left _).trans List.perm_middle
  | pop hc =>
    cases hstack : s.stack with
    | nil =>
      refine h.same rfl ?_ (by rw [hc]; rfl)
      rw [atRest, atRest, hstack]
      rfl
    | cons a l =>
      refine h.take rfl ?_ (by rw [hc]; rfl) rfl
      rw [atRest, atRest, hstack]
      rfl
  | push hc => exact h.give rfl (List.Perm.refl _) (by rw [hc]; rfl) rfl
  | stay => exact h

lemma exclusive_of_run (hi : items.Nodup) (h : Run Step (start items : Pool C α) as t) : t.Exclusive items :=
  h.invariant (fun _ _ _ hs he => hs.step he) (start_exclusive hi)

end Pool

end TinuOS.Library
