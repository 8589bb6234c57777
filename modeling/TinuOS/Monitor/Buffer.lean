import TinuOS.Monitor.Cursor

/-! What the loops of stores leave in the screen memory. -/

namespace TinuOS.Monitor

variable {t : Terminal} {c : BitVec 8} {memory : ℕ → BitVec 16} {indices : List ℕ}

lemma storeLoop_fill_buffer (f : BitVec 8 → BitVec 16) (j : ℕ) :
    (t.storeLoop indices fun t _ => f t.attrib).buffer j =
      if j ∈ indices then f t.attrib else t.buffer j := by
  induction indices generalizing t with
  | nil => simp [Terminal.storeLoop]
  | cons i indices ih =>
    rw [storeLoop_cons, ih]
    by_cases hj : j ∈ indices
    · rw [if_pos hj, if_pos (List.mem_cons_of_mem i hj)]
      rfl
    · rw [if_neg hj]
      by_cases hi : j = i
      · subst hi
        rw [if_pos List.mem_cons_self]
        exact Function.update_self _ _ _
      · rw [if_neg (by simp [hi, hj])]
        exact Function.update_of_ne hi _ _

lemma storeLoop_up_buffer (s n j : ℕ) :
    (t.storeLoop (List.range' s n) fun t i => t.buffer (i + 80)).buffer j =
      if s ≤ j ∧ j < s + n then t.buffer (j + 80) else t.buffer j := by
  -- every cell is read before the loop stores there
  induction n generalizing s t with
  | zero =>
    rw [if_neg (by omega)]
    rfl
  | succ n ih =>
    rw [List.range'_succ, storeLoop_cons, ih]
    by_cases hs : j = s
    · subst hs
      rw [if_neg (by omega), if_pos (by omega)]
      exact Function.update_self _ _ _
    · by_cases hj : s + 1 ≤ j ∧ j < s + 1 + n
      · rw [if_pos hj, if_pos (by omega)]
        exact Function.update_of_ne (by omega) _ _
      · rw [if_neg hj, if_neg (by omega)]
        exact Function.update_of_ne hs _ _

lemma scroll_buffer_up (hr : 25 ≤ t.row) {i : ℕ} (hi : i < 24 * 80) :
    (scroll t).buffer i = t.buffer (i + 80) := by
  have hv : vgaHeight ≤ t.row := hr
  simp only [scroll, if_pos hv]
  rw [storeLoop_fill_buffer fun _ => _, if_neg, storeLoop_up_buffer,
    if_pos (by omega)]
  rw [List.mem_range'_1]
  omega

lemma scroll_buffer_last (hr : 25 ≤ t.row) {x : ℕ} (hx : x < 80) :
    (scroll t).buffer (24 * 80 + x) = vgaEntry 0x20 defaultAttrib := by
  have hv : vgaHeight ≤ t.row := hr
  simp only [scroll, if_pos hv]
  rw [storeLoop_fill_buffer fun _ => _, if_pos]
  · rfl
  · rw [List.mem_range'_1]
    omega

lemma scroll_buffer_of_lt (hr : t.row < 25) : (scroll t).buffer = t.buffer := by
  rw [scroll_of_lt hr]

lemma placed_buffer : (placed t c).buffer =
    Function.update t.buffer ((control t c).row * 80 + (control t c).column) (vgaEntry c t.attrib) := by
  rw [placed, control_attrib]
  change Function.update (control t c).buffer _ _ = _
  rw [control_buffer]
  rfl

lemma putchar_buffer_of_lt (hr : (advance (placed t c)).row < 25) :
    (terminalPutchar t c).buffer = (placed t c).buffer := by
  rw [← moveCursor_row] at hr
  rw [putchar_eq, scroll_buffer_of_lt hr, moveCursor_buffer, advance_buffer]

lemma putchar_buffer_up (hr : 25 ≤ (advance (placed t c)).row) {i : ℕ} (hi : i < 24 * 80) :
    (terminalPutchar t c).buffer i = (placed t c).buffer (i + 80) := by
  rw [← moveCursor_row] at hr
  rw [putchar_eq, scroll_buffer_up hr hi, moveCursor_buffer, advance_buffer]

lemma putchar_buffer_last (hr : 25 ≤ (advance (placed t c)).row) {x : ℕ} (hx : x < 80) :
    (terminalPutchar t c).buffer (24 * 80 + x) = vgaEntry 0x20 defaultAttrib := by
  rw [← moveCursor_row] at hr
  rw [putchar_eq, scroll_buffer_last hr hx]

lemma foldl_fill_buffer (line : ℕ → List ℕ) (f : BitVec 8 → BitVec 16) (ys : List ℕ) (t : Terminal)
    (j : ℕ) : (ys.foldl (fun t y => t.storeLoop (line y) fun t _ => f t.attrib) t).buffer j =
      if j ∈ ys.flatMap line then f t.attrib else t.buffer j := by
  induction ys generalizing t with
  | nil => simp
  | cons y ys ih =>
    rw [List.foldl_cons, ih, storeLoop_fill_buffer, storeLoop_attrib, List.flatMap_cons]
    by_cases hy : j ∈ line y
    · rw [if_pos hy, if_pos (List.mem_append_left _ hy), ite_self]
    · rw [if_neg hy]
      by_cases hj : j ∈ ys.flatMap line
      · rw [if_pos hj, if_pos (List.mem_append_right _ hj)]
      · rw [if_neg hj, if_neg (by simp only [List.mem_append, hy, hj, or_self, not_false_eq_true])]

lemma booted_buffer {i : ℕ} (hi : i < 25 * 80) :
    (booted memory).buffer i = vgaEntry 0x20 defaultAttrib := by
  rw [booted_eq, foldl_fill_buffer _ (vgaEntry 0x20), if_pos]
  rw [List.mem_flatMap]
  refine ⟨i / 80, List.mem_range.mpr ?_, ?_⟩
  · rw [vgaHeight]
    omega
  · rw [List.mem_range'_1, vgaWidth]
    omega

end TinuOS.Monitor
