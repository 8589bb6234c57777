import Mathlib

/-! A character screen of fixed width and height that shows consecutive rows of a text. -/

namespace TinuOS.Library

variable {α β : Type*}

def cellAt (blank : α) (rows : List (List α)) (r x : ℕ) : α := ((rows[r]?).bind (·[x]?)).getD blank

def Displays (w h : ℕ) (render : α → β) (blank : α) (buffer : ℕ → β) (top : ℕ)
    (rows : List (List α)) : Prop :=
  ∀ y < h, ∀ x < w, buffer (y * w + x) = render (cellAt blank rows (top + y) x)

variable {w h top y : ℕ} {render : α → β} {blank c : α} {b b' : ℕ → β} {rows done : List (List α)}
  {current : List α} {r x : ℕ}

lemma cellAt_of_le (hr : rows.length ≤ r) : cellAt blank rows r x = blank := by
  rw [cellAt, List.getElem?_eq_none hr]
  rfl

lemma cellAt_last : cellAt blank (done ++ [current]) done.length x = (current[x]?).getD blank := by
  rw [cellAt, List.getElem?_append_right (Nat.le_refl _), Nat.sub_self]
  rfl

lemma cellAt_of_lt (hr : r < done.length) :
    cellAt blank (done ++ [current]) r x = cellAt blank done r x := by
  rw [cellAt, cellAt, List.getElem?_append_left hr]

lemma cellAt_newRow : cellAt blank (done ++ [[]]) r x = cellAt blank done r x := by
  rcases Nat.lt_trichotomy r done.length with hr | rfl | hr
  · exact cellAt_of_lt hr
  · rw [cellAt_last, cellAt_of_le (Nat.le_refl _)]
    rfl
  · rw [cellAt_of_le (by simp; omega), cellAt_of_le (by omega)]

namespace Displays

lemma newRow (hd : Displays w h render blank b top rows) :
    Displays w h render blank b top (rows ++ [[]]) := by
  intro y hy x hx
  rw [cellAt_newRow]
  exact hd y hy x hx

lemma extend (hd : Displays w h render blank b top (done ++ [current]))
    (hy : top + y = done.length) (hc : current.length < w) :
    Displays w h render blank (Function.update b (y * w + current.length) (render c)) top
      (done ++ [current ++ [c]]) := by
  intro z hz x hx
  have hidx : z * w + x = y * w + current.length ↔ z = y ∧ x = current.length := by
    constructor
    · intro he
      have hzy := congrArg (· / w) he
      simp only [Nat.mul_comm _ w, Nat.mul_add_div (Nat.zero_lt_of_lt hx), Nat.div_eq_of_lt hx,
        Nat.div_eq_of_lt hc, Nat.add_zero] at hzy
      subst hzy
      exact ⟨rfl, Nat.add_left_cancel he⟩
    · rintro ⟨rfl, rfl⟩
      rfl
  by_cases hzy : z = y
  · subst hzy
    rw [hy, cellAt_last]
    have hold := hd z hz x hx
    rw [hy, cellAt_last] at hold
    rcases Nat.lt_trichotomy x current.length with hlt | rfl | hlt
    · rw [Function.update_of_ne (by rw [Ne, hidx]; omega), hold, List.getElem?_append_left hlt]
    · rw [Function.update_self, List.getElem?_append_right (Nat.le_refl _), Nat.sub_self]
      rfl
    · rw [Function.update_of_ne (by rw [Ne, hidx]; omega), hold,
        List.getElem?_eq_none (by omega), List.getElem?_eq_none (by simp; omega)]
  · rw [Function.update_of_ne (by rw [Ne, hidx]; omega), hd z hz x hx]
    congr 1
    rcases Nat.lt_or_ge (top + z) done.length with hlt | hge
    · rw [cellAt_of_lt hlt, cellAt_of_lt hlt]
    · rw [cellAt_of_le (by simp; omega), cellAt_of_le (by simp; omega)]

lemma scroll (hd : Displays w (h + 1) render blank b top rows) (hr : rows.length ≤ top + (h + 1))
    (hup : ∀ i < h * w, b' i = b (i + w)) (hlast : ∀ x < w, b' (h * w + x) = render blank) :
    Displays w (h + 1) render blank b' (top + 1) rows := by
  intro y hy x hx
  rcases Nat.lt_or_ge y h with hlt | hge
  · have hi : y * w + x < h * w := by
      calc y * w + x < y * w + w := by omega
        _ = (y + 1) * w := by rw [Nat.succ_mul]
        _ ≤ h * w := Nat.mul_le_mul_right w hlt
    have he : y * w + x + w = (y + 1) * w + x := by
      rw [Nat.succ_mul]
      omega
    rw [hup _ hi, he, hd (y + 1) (by omega) x hx]
    congr 2
    omega
  · obtain rfl : y = h := by omega
    rw [hlast x hx, cellAt_of_le (by omega)]

end Displays

end TinuOS.Library
