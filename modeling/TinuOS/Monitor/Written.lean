import TinuOS.Monitor.Layout

/-! The layout that the terminal gives to a text with newlines: each of them is also a character, in
the row that it opens. -/

namespace TinuOS.Monitor

open Library

/-- In the bottom row the character of a newline is stored behind the screen, and the row that moves
up has a blank in its place. -/
def Layout.write (l : Layout) (c : BitVec 8) : Layout :=
  if c = 0x0A then ⟨l.done ++ [l.current], [if l.done.length < 24 then 0x0A else 0x20]⟩ else l.put c

def written (text : List (BitVec 8)) : Layout := text.foldl Layout.write ⟨[], []⟩

variable {t : Terminal} {l : Layout} {c : BitVec 8} {memory : ℕ → BitVec 16} {text : List (BitVec 8)}

lemma write_of_ne (h : c ≠ 0x0A) : l.write c = l.put c := if_neg h

lemma write_newline : l.write 0x0A = ⟨l.done ++ [l.current], [if l.done.length < 24 then 0x0A else 0x20]⟩ :=
  if_pos rfl

lemma write_current_lt (h : l.current.length < 80) : (l.write c).current.length < 80 := by
  by_cases hc : c = 0x0A
  · rw [hc, write_newline, List.length_singleton]
    exact Nat.one_lt_succ_succ 78
  · rw [write_of_ne hc]
    exact put_current_lt h

lemma written_snoc : written (text ++ [c]) = (written text).write c := List.foldl_concat ..

lemma written_current_lt (text : List (BitVec 8)) : (written text).current.length < 80 := by
  induction text using List.reverseRecOn with
  | nil => exact Nat.zero_lt_succ 79
  | append_singleton text c ih =>
    rw [written_snoc]
    exact write_current_lt ih

lemma Shows.row_eq (h : Shows t l) : t.row = min l.done.length 24 := by
  have hrow := h.row
  rw [top_eq] at hrow
  omega

lemma placed_newline (hr : t.row < 25) (ha : t.attrib = defaultAttrib) : (placed t 0x0A).buffer =
    Function.update t.buffer ((t.row + 1) * 80) (vgaEntry 0x0A defaultAttrib) := by
  rw [placed_buffer, control_newline (by omega), ha]
  rfl

lemma advance_newline (hr : t.row < 25) : (advance (placed t 0x0A)).row = t.row + 1 := by
  have hcon : control t 0x0A = { t with column := 0, row := t.row + 1 } := control_newline (by omega)
  have hc : (placed t 0x0A).column < 79 := by
    rw [placed_column, hcon]
    exact Nat.zero_lt_succ 78
  rw [advance_of_lt hc]
  change (placed t 0x0A).row = _
  rw [placed_row, hcon]

lemma Shows.newline_inner (h : Shows t l) (ha : t.attrib = defaultAttrib) (hr : t.row < 24) :
    Shows (terminalPutchar t 0x0A) (l.write 0x0A) := by
  have hdone : l.done.length = t.row := by
    have := h.row_eq
    omega
  have hu := advance_newline (t := t) (by omega)
  have hw : l.write 0x0A = ⟨(l.done ++ [l.current]), [] ++ [0x0A]⟩ := by
    rw [write_newline, if_pos (by omega)]
    rfl
  have htop : (⟨l.done ++ [l.current], [] ++ [0x0A]⟩ : Layout).top = l.top := by
    rw [top_eq, top_eq, List.length_append, List.length_singleton]
    omega
  rw [hw]
  refine ⟨?_, ?_, ?_⟩
  · rw [htop, putchar_buffer_of_lt (by omega), placed_newline (by omega) ha]
    refine Displays.extend (y := t.row + 1) (c := 0x0A) h.screen.newRow ?_ (Nat.zero_lt_succ 79)
    rw [top_eq, Layout.rows, List.length_append, List.length_singleton]
    omega
  · rw [htop, (putchar_newline (by omega)).1, top_eq, List.length_append, List.length_singleton]
    omega
  · exact (putchar_newline (by omega)).2

lemma Shows.newline_bottom (h : Shows t l) (ha : t.attrib = defaultAttrib) (hr : t.row = 24) :
    Shows (terminalPutchar t 0x0A) (l.write 0x0A) := by
  have hdone : 24 ≤ l.done.length := by
    have := h.row_eq
    omega
  have hu := advance_newline (t := t) (by omega)
  have hw : l.write 0x0A = ⟨l.done ++ [l.current], [] ++ [0x20]⟩ := by
    rw [write_newline, if_neg (by omega)]
    rfl
  have htop : (⟨l.done ++ [l.current], [] ++ [0x20]⟩ : Layout).top = l.top + 1 := by
    rw [top_eq, top_eq, List.length_append, List.length_singleton]
    omega
  have hlast : ∀ x < 80, (terminalPutchar t 0x0A).buffer (24 * 80 + x) = vgaEntry 0x20 defaultAttrib :=
    fun x hx => putchar_buffer_last (by omega) hx
  have hup : ∀ i < 24 * 80, (terminalPutchar t 0x0A).buffer i = t.buffer (i + 80) := by
    intro i hi
    rw [putchar_buffer_up (by omega) hi, placed_newline (by omega) ha, Function.update_of_ne (by omega)]
  have hrows : l.rows.length ≤ l.top + (24 + 1) := by
    rw [top_eq, Layout.rows, List.length_append, List.length_singleton]
    omega
  have hd := (Displays.scroll h.screen hrows hup hlast).newRow
  rw [hw]
  refine ⟨?_, ?_, ?_⟩
  · rw [htop]
    -- the blank is what the cell has already
    have he := Displays.extend (y := 24) (c := 0x20) hd ?_ (Nat.zero_lt_succ 79)
    · rwa [List.length_nil, ← hlast 0 (by omega), Nat.add_zero, Function.update_eq_self] at he
    · rw [top_eq, Layout.rows, List.length_append, List.length_singleton]
      omega
  · rw [htop, (putchar_newline (by omega)).1, top_eq, List.length_append, List.length_singleton]
    omega
  · exact (putchar_newline (by omega)).2

lemma Shows.write (h : Shows t l) (hl : l.current.length < 80) (ha : t.attrib = defaultAttrib)
    (hr : t.row < 25) (hc : c = 0x0A ∨ Printable c) : Shows (terminalPutchar t c) (l.write c) := by
  rcases hc with rfl | hp
  · rcases Nat.lt_or_eq_of_le (Nat.le_of_lt_succ hr) with hlt | heq
    · exact h.newline_inner ha hlt
    · exact h.newline_bottom ha heq
  · rw [write_of_ne hp.ne.2.2]
    rcases Nat.lt_or_eq_of_le (Nat.succ_le_of_lt hl) with hw | hw
    · exact h.put_inner ha hr hp hw
    · exact h.put_margin ha hr hp hw

lemma written_shows (memory : ℕ → BitVec 16) (h : ∀ c ∈ text, c = 0x0A ∨ Printable c) :
    Shows (terminalWrite (booted memory) text) (written text) := by
  induction text using List.reverseRecOn with
  | nil =>
    rw [terminalWrite_nil]
    exact booted_shows
  | append_singleton text c ih =>
    rw [terminalWrite_snoc, written_snoc]
    exact (ih fun d hd => h d (List.mem_append_left _ hd)).write (written_current_lt text)
      (write_attrib memory text) (write_onScreen memory text).1 (h c (by simp))

end TinuOS.Monitor
