import TinuOS.Library.Screen
import TinuOS.Monitor.Buffer

/-! The layout of a text in rows of 80 characters, and the texts that the screen shows so. -/

namespace TinuOS.Monitor

open Library

structure Layout where
  done : List (List (BitVec 8))
  current : List (BitVec 8)

namespace Layout

def put (l : Layout) (c : BitVec 8) : Layout :=
  if c = 0x0A then ⟨l.done ++ [l.current], []⟩
  else if l.current.length + 1 = 80 then ⟨l.done ++ [l.current ++ [c]], []⟩
  else ⟨l.done, l.current ++ [c]⟩

def rows (l : Layout) : List (List (BitVec 8)) := l.done ++ [l.current]

def top (l : Layout) : ℕ := l.rows.length - 25

end Layout

def layout (text : List (BitVec 8)) : Layout := text.foldl Layout.put ⟨[], []⟩

structure Shows (t : Terminal) (l : Layout) : Prop where
  screen : Displays 80 25 (vgaEntry · defaultAttrib) 0x20 t.buffer l.top l.rows
  row : l.top + t.row = l.done.length
  column : t.column = l.current.length

/-- After the text is written, whatever the screen held before, it shows the layout of the text. -/
def LaidOut (text : List (BitVec 8)) : Prop :=
  ∀ memory, Shows (terminalWrite (booted memory) text) (layout text)

def Printable (c : BitVec 8) : Prop := 0x20 ≤ c ∧ c ≤ 0x7E

variable {t : Terminal} {l : Layout} {c : BitVec 8} {memory : ℕ → BitVec 16} {text : List (BitVec 8)}

lemma top_eq : l.top = l.done.length - 24 := by
  rw [Layout.top, Layout.rows, List.length_append, List.length_singleton]
  omega

lemma Printable.ne (h : Printable c) : c ≠ 0x08 ∧ c ≠ 0x0D ∧ c ≠ 0x0A := by
  obtain ⟨h, -⟩ := h
  refine ⟨?_, ?_, ?_⟩ <;> rintro rfl <;> exact absurd h (by decide)

lemma put_current_lt (h : l.current.length < 80) : (l.put c).current.length < 80 := by
  rw [Layout.put]
  split_ifs with hn hw
  · exact Nat.zero_lt_succ 79
  · exact Nat.zero_lt_succ 79
  · rw [List.length_append, List.length_singleton]
    omega

lemma layout_snoc : layout (text ++ [c]) = (layout text).put c := List.foldl_concat ..

lemma layout_current_lt (text : List (BitVec 8)) : (layout text).current.length < 80 := by
  induction text using List.reverseRecOn with
  | nil => exact Nat.zero_lt_succ 79
  | append_singleton text c ih =>
    rw [layout_snoc]
    exact put_current_lt ih

lemma Shows.placed (h : Shows t l) (hl : l.current.length < 80) (ha : t.attrib = defaultAttrib)
    (hc : control t c = t) : Displays 80 25 (vgaEntry · defaultAttrib) 0x20 (placed t c).buffer l.top
      (l.done ++ [l.current ++ [c]]) := by
  rw [placed_buffer, hc, h.column, ha]
  exact Displays.extend h.screen h.row hl

lemma Shows.put_inner (h : Shows t l) (ha : t.attrib = defaultAttrib) (hr : t.row < 25)
    (hp : Printable c) (hw : l.current.length + 1 < 80) : Shows (terminalPutchar t c) (l.put c) := by
  obtain ⟨hb, hret, hn⟩ := hp.ne
  have hc : control t c = t := control_of_other (by omega) hb hret hn
  have hd := h.placed (by omega) ha hc
  have hadv := advance_of_lt (t := Monitor.placed t c) (by
    rw [placed_column, hc, h.column]
    omega)
  have hput : l.put c = ⟨l.done, l.current ++ [c]⟩ := by
    rw [Layout.put, if_neg hn, if_neg (by omega)]
  have hu : (advance (Monitor.placed t c)).row = t.row := by
    rw [hadv]
    change (Monitor.placed t c).row = t.row
    rw [placed_row, hc]
  rw [hput]
  refine ⟨?_, ?_, ?_⟩
  · rw [putchar_buffer_of_lt (by omega)]
    rw [top_eq] at hd ⊢
    exact hd
  · have hrow := h.row
    rw [top_eq] at hrow ⊢
    rw [putchar_row, hu]
    change l.done.length - 24 + min t.row 24 = l.done.length
    omega
  · rw [putchar_eq, scroll_column, moveCursor_column, hadv]
    change (Monitor.placed t c).column + 1 = (l.current ++ [c]).length
    rw [placed_column, hc, h.column, List.length_append, List.length_singleton]

lemma Shows.put_margin (h : Shows t l) (ha : t.attrib = defaultAttrib) (hr : t.row < 25)
    (hp : Printable c) (hw : l.current.length + 1 = 80) : Shows (terminalPutchar t c) (l.put c) := by
  obtain ⟨hb, hret, hn⟩ := hp.ne
  have hc : control t c = t := control_of_other (by omega) hb hret hn
  have hd := h.placed (by omega) ha hc
  have hadv := advance_margin (t := Monitor.placed t c) (by
    rw [placed_column, hc, h.column]
    omega)
  have hput : l.put c = ⟨l.done ++ [l.current ++ [c]], []⟩ := by
    rw [Layout.put, if_neg hn, if_pos hw]
  have hu : (advance (Monitor.placed t c)).row = if t.row = 24 then 26 else t.row + 1 := by
    rw [hadv, placed_row, hc]
  have hrow := h.row
  rw [top_eq] at hrow hd
  have htop : (⟨l.done ++ [l.current ++ [c]], []⟩ : Layout).top = l.done.length + 1 - 24 := by
    rw [top_eq, List.length_append, List.length_singleton]
  rw [hput]
  refine ⟨?_, ?_, ?_⟩
  · rw [htop, Layout.rows]
    by_cases h24 : t.row = 24
    · rw [if_pos h24] at hu
      have ht : l.done.length + 1 - 24 = l.done.length - 24 + 1 := by omega
      rw [ht]
      refine (Displays.scroll hd ?_ (fun i hi => ?_) fun x hx => ?_).newRow
      · rw [List.length_append, List.length_singleton]
        omega
      · exact putchar_buffer_up (by omega) hi
      · exact putchar_buffer_last (by omega) hx
    · rw [if_neg h24] at hu
      have ht : l.done.length + 1 - 24 = l.done.length - 24 := by omega
      rw [ht, putchar_buffer_of_lt (by omega)]
      exact hd.newRow
  · rw [htop, putchar_row, hu]
    change l.done.length + 1 - 24 + _ = (l.done ++ [l.current ++ [c]]).length
    rw [List.length_append, List.length_singleton]
    split_ifs <;> omega
  · rw [putchar_eq, scroll_column, moveCursor_column, hadv]
    rfl

lemma booted_shows : Shows (booted memory) ⟨[], []⟩ := by
  refine ⟨fun y hy x hx => ?_, ?_, ?_⟩
  · rw [booted_buffer (by omega)]
    congr 1
    have hrow : (⟨[], []⟩ : Layout).rows = [] ++ [[]] := rfl
    rw [hrow, cellAt_newRow, cellAt_of_le (Nat.zero_le _)]
  · rw [booted_row]
    rfl
  · rw [booted_column]
    rfl

lemma printable_shows (h : ∀ c ∈ text, Printable c) :
    Shows (terminalWrite (booted memory) text) (layout text) := by
  induction text using List.reverseRecOn with
  | nil =>
    rw [terminalWrite_nil]
    exact booted_shows
  | append_singleton text c ih =>
    have hs := ih fun d hd => h d (List.mem_append_left _ hd)
    have hp : Printable c := h c (by simp)
    have ha := write_attrib memory text
    have hr := (write_onScreen memory text).1
    have hlt := layout_current_lt text
    rw [terminalWrite_snoc, layout_snoc]
    rcases Nat.lt_or_eq_of_le (Nat.succ_le_of_lt hlt) with hw | hw
    · exact hs.put_inner ha hr hp hw
    · exact hs.put_margin ha hr hp hw

lemma newline_column (memory : ℕ → BitVec 16) (h : ∀ c ∈ text, c = 0x0A ∨ Printable c) (hn : 0x0A ∈ text) :
    (terminalWrite (booted memory) text).column = ((layout text).current.length + 1) % 80 := by
  induction text using List.reverseRecOn with
  | nil => simp at hn
  | append_singleton text c ih =>
    obtain ⟨hr, hcol⟩ := write_onScreen memory text
    have hlt := layout_current_lt text
    rw [terminalWrite_snoc, layout_snoc]
    by_cases hc : c = 0x0A
    · subst hc
      rw [(putchar_newline hr).2, Layout.put, if_pos rfl]
      rfl
    · have hp : Printable c := (h c (by simp)).resolve_left hc
      obtain ⟨hb, hret, -⟩ := hp.ne
      have hmem : 0x0A ∈ text := by
        rcases List.mem_append.mp hn with hm | hm
        · exact hm
        · exact (hc (List.mem_singleton.mp hm).symm).elim
      have hcon := control_of_other (t := terminalWrite (booted memory) text) (by omega) hb hret hc
      have hold := ih (fun d hd => h d (List.mem_append_left _ hd)) hmem
      rw [putchar_column (by rw [hcon]; exact hcol), hcon, hold, Layout.put, if_neg hc]
      split_ifs with hw
      · rw [hw]
        rfl
      · rw [List.length_append, List.length_singleton]
        omega

theorem laidOut_iff (h : ∀ c ∈ text, c = 0x0A ∨ Printable c) : LaidOut text ↔ 0x0A ∉ text := by
  constructor
  · intro hs hn
    have hcol := newline_column (fun _ => 0) h hn
    rw [(hs _).column] at hcol
    have hlt := layout_current_lt text
    omega
  · intro hn memory
    refine printable_shows fun c hc => (h c hc).resolve_left ?_
    rintro rfl
    exact hn hc

theorem laidOut_two_rows : LaidOut (List.replicate 100 0x41) := by
  have hp : ∀ c ∈ List.replicate 100 (0x41 : BitVec 8), c = 0x0A ∨ Printable c := by
    intro c hc
    rw [List.eq_of_mem_replicate hc]
    exact Or.inr ⟨by decide, by decide⟩
  refine (laidOut_iff hp).mpr fun hn => ?_
  exact absurd (List.eq_of_mem_replicate hn) (by decide)

theorem newline_not_laidOut : ¬ ∀ text : List (BitVec 8),
    (∀ c ∈ text, c = 0x0A ∨ Printable c) → LaidOut text := by
  intro h
  have hp : ∀ c ∈ [(0x0A : BitVec 8)], c = 0x0A ∨ Printable c := by simp
  have hcol := newline_column (fun _ => 0) hp (List.mem_singleton_self _)
  rw [(h _ hp _).column] at hcol
  exact absurd hcol (by decide)

end TinuOS.Monitor
