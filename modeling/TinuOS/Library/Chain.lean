import Mathlib

/-! Singly linked lists given by a successor function and an end marker, and the bounded
search along them. -/

namespace TinuOS.Library

variable {α : Type*}

/-- Following `next` from `a` visits the nodes of the list, none of them `null`, and arrives at
the last argument. -/
def Segment (next : α → α) (null : α) : α → List α → α → Prop
  | a, [], b => a = b
  | a, x :: xs, b => a = x ∧ x ≠ null ∧ Segment next null (next x) xs b

abbrev Chain (next : α → α) (null : α) (a : α) (xs : List α) : Prop := Segment next null a xs null

variable {next next' : α → α} {null a b c x : α} {xs ys : List α}

lemma Segment.congr (h : Segment next null a xs b) (hn : ∀ x ∈ xs, next' x = next x) :
    Segment next' null a xs b := by
  induction xs generalizing a with
  | nil => exact h
  | cons x xs ih =>
    obtain ⟨rfl, hx, ht⟩ := h
    refine ⟨rfl, hx, ?_⟩
    rw [hn a List.mem_cons_self]
    exact ih ht (fun y hy => hn y (List.mem_cons_of_mem a hy))

lemma segment_append :
    Segment next null a (xs ++ ys) c ↔
      ∃ b, Segment next null a xs b ∧ Segment next null b ys c := by
  induction xs generalizing a with
  | nil =>
    constructor
    · intro h
      exact ⟨a, rfl, h⟩
    · rintro ⟨b, rfl, h⟩
      exact h
  | cons x xs ih =>
    constructor
    · rintro ⟨rfl, hx, ht⟩
      obtain ⟨b, hb, hc⟩ := ih.mp ht
      exact ⟨b, ⟨rfl, hx, hb⟩, hc⟩
    · rintro ⟨b, ⟨rfl, hx, hb⟩, hc⟩
      exact ⟨rfl, hx, ih.mpr ⟨b, hb, hc⟩⟩

lemma segment_split :
    Segment next null a (xs ++ x :: ys) b ↔
      Segment next null a xs x ∧ x ≠ null ∧ Segment next null (next x) ys b := by
  rw [segment_append]
  constructor
  · rintro ⟨_, hx, rfl, hn, ht⟩
    exact ⟨hx, hn, ht⟩
  · rintro ⟨hx, hn, ht⟩
    exact ⟨x, hx, rfl, hn, ht⟩

namespace Chain

lemma eq_nil (h : Chain next null null xs) : xs = [] := by
  cases xs with
  | nil => rfl
  | cons x xs => exact (h.2.1 h.1.symm).elim

lemma exists_cons (h : Chain next null a xs) (ha : a ≠ null) : ∃ ys, xs = a :: ys := by
  cases xs with
  | nil => exact (ha h).elim
  | cons x xs => exact ⟨xs, by rw [h.1]⟩

lemma unique (h : Chain next null a xs) (h' : Chain next null a ys) : xs = ys := by
  induction xs generalizing a ys with
  | nil =>
    obtain rfl : a = null := h
    exact h'.eq_nil.symm
  | cons x xs ih =>
    obtain ⟨rfl, hx, ht⟩ := h
    obtain ⟨ys, rfl⟩ := h'.exists_cons hx
    rw [ih ht h'.2.2]

lemma ne_null (h : Chain next null a xs) (hx : x ∈ xs) : x ≠ null := by
  obtain ⟨us, vs, rfl⟩ := List.append_of_mem hx
  exact (segment_split.mp h).2.1

lemma nodup (h : Chain next null a xs) : xs.Nodup := by
  induction xs generalizing a with
  | nil => exact List.nodup_nil
  | cons x xs ih =>
    obtain ⟨rfl, hx, ht⟩ := h
    refine List.nodup_cons.mpr ⟨fun hm => ?_, ih ht⟩
    obtain ⟨us, vs, rfl⟩ := List.append_of_mem hm
    have hu := unique (segment_split.mp ht).2.2 ht
    have hl := congrArg List.length hu
    simp only [List.length_append, List.length_cons] at hl
    omega

lemma next_ne (h : Chain next null a xs) (hx : x ∈ xs) : next x ≠ x := by
  obtain ⟨us, vs, rfl⟩ := List.append_of_mem hx
  obtain ⟨-, hn, ht⟩ := segment_split.mp h
  intro he
  have hx : Chain next null x (x :: vs) := ⟨rfl, hn, ht⟩
  have hu := hx.unique (he ▸ ht)
  simpa using congrArg List.length hu

end Chain

variable [DecidableEq α] {p : α → Bool} {m n : ℕ}

def seek (next : α → α) (null : α) (p : α → Bool) : ℕ → α → Option α
  | 0, _ => none
  | fuel + 1, a => if a = null ∨ p a then some a else seek next null p fuel (next a)

lemma seek_mono (h : seek next null p m a = some b) (hm : m ≤ n) :
    seek next null p n a = some b := by
  induction m generalizing a n with
  | zero => simp [seek] at h
  | succ m ih =>
    obtain ⟨n, rfl⟩ : ∃ k, n = k + 1 := ⟨n - 1, by omega⟩
    rw [seek] at h ⊢
    split_ifs at h ⊢
    · exact h
    · exact ih h (by omega)

lemma seek_unique (h : seek next null p m a = some b) (h' : seek next null p n a = some c) :
    b = c := by
  have hb := seek_mono h (Nat.le_max_left m n)
  have hc := seek_mono h' (Nat.le_max_right m n)
  exact Option.some.inj (hb.symm.trans hc)

lemma seek_chain (h : Chain next null a xs) :
    seek next null p (xs.length + 1) a = some ((xs.find? p).getD null) := by
  induction xs generalizing a with
  | nil =>
    obtain rfl : a = null := h
    simp [seek]
  | cons x xs ih =>
    obtain ⟨rfl, hx, ht⟩ := h
    by_cases hp : p a
    · simp [seek, hp]
    · rw [List.length_cons, seek, if_neg (by simp [hx, hp]), ih ht, List.find?_cons_of_neg hp]

lemma seek_stop (h : seek next null p m a = some b) : b = null ∨ p b := by
  induction m generalizing a with
  | zero => simp [seek] at h
  | succ m ih =>
    rw [seek] at h
    split_ifs at h with ha
    · exact Option.some.inj h ▸ ha
    · exact ih h

lemma seek_found (h : Chain next null a xs) (hs : seek next null p m a = some b) (hb : b ≠ null) :
    b ∈ xs ∧ p b := by
  obtain rfl := seek_unique hs (seek_chain h)
  cases hf : xs.find? p with
  | none => simp [hf] at hb
  | some x => exact ⟨List.mem_of_find?_eq_some hf, List.find?_some hf⟩

lemma find?_eq_of_mem (h : a ∈ xs) : xs.find? (· = a) = some a := by
  cases hf : xs.find? (· = a) with
  | none => simpa using List.find?_eq_none.mp hf a h
  | some y =>
    have hy := List.find?_some hf
    rw [of_decide_eq_true hy]

end TinuOS.Library
