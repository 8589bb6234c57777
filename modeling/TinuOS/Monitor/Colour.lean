import TinuOS.Monitor.Layout
import TinuOS.Monitor.Session

/-! How long a colour lasts: which characters stand on the screen in the colour that was set. -/

namespace TinuOS.Monitor

/-- Beside the terminal, the characters that it was given and that its cells still show. -/
structure Traced where
  terminal : Terminal
  marks : ℕ → Option (BitVec 8)

namespace Traced

def putchar (s : Traced) (c : BitVec 8) : Traced :=
  let u := control s.terminal c
  let marks := Function.update s.marks (u.row * 80 + u.column) (some c)
  { terminal := terminalPutchar s.terminal c
    marks :=
      if 25 ≤ (advance (placed s.terminal c)).row then
        fun i => if i < 24 * 80 then marks (i + 80) else if i < 25 * 80 then none else marks i
      else marks }

def write (s : Traced) (text : List (BitVec 8)) : Traced := text.foldl putchar s

def Coloured (s : Traced) (color : BitVec 8) : Prop :=
  ∀ i < 25 * 80, ∀ c, s.marks i = some c → Printable c → s.terminal.buffer i = vgaEntry c color

end Traced

def Carries (t : Terminal) (color : BitVec 8) (text : List (BitVec 8)) : Prop :=
  ∀ pre, pre <+: text → (Traced.write ⟨terminalSetcolor t color, fun _ => none⟩ pre).Coloured color

variable {t : Terminal} {s : Traced} {c color : BitVec 8} {text pre : List (BitVec 8)}

lemma vgaEntry_attribute (c color : BitVec 8) : (vgaEntry c color >>> 8).setWidth 8 = color := by
  ext i hi
  have hi' : i < 16 := by omega
  have hi'' : 8 + i < 16 := by omega
  simp [vgaEntry, hi', hi'', BitVec.getLsbD_eq_getElem hi]

lemma vgaEntry_color {a b : BitVec 8} (h : vgaEntry c a = vgaEntry c b) : a = b := by
  rw [← vgaEntry_attribute c a, h, vgaEntry_attribute]

section Traced

lemma traced_snoc : s.write (text ++ [c]) = (s.write text).putchar c := List.foldl_concat ..

lemma traced_terminal : (s.write text).terminal = terminalWrite s.terminal text := by
  induction text using List.reverseRecOn with
  | nil => rfl
  | append_singleton text c ih =>
    rw [traced_snoc, terminalWrite_snoc, ← ih]
    rfl

def Traced.placedMarks (s : Traced) (c : BitVec 8) : ℕ → Option (BitVec 8) :=
  Function.update s.marks ((control s.terminal c).row * 80 + (control s.terminal c).column) (some c)

lemma placedMarks_coloured (h : s.Coloured color) (hc : Printable c → s.terminal.attrib = color) {i : ℕ}
    (hi : i < 25 * 80) {d : BitVec 8} (hd : s.placedMarks c i = some d) (hp : Printable d) :
    (placed s.terminal c).buffer i = vgaEntry d color := by
  rw [placed_buffer]
  rw [Traced.placedMarks] at hd
  by_cases he : i = (control s.terminal c).row * 80 + (control s.terminal c).column
  · rw [he, Function.update_self, Option.some_inj] at hd
    subst hd
    rw [he, Function.update_self, hc hp]
  · rw [Function.update_of_ne he] at hd ⊢
    exact h i hi d hd hp

lemma putchar_marks_of_lt (h : (advance (placed s.terminal c)).row < 25) :
    (s.putchar c).marks = s.placedMarks c := if_neg (Nat.not_le.mpr h)

lemma putchar_marks_of_le (h : 25 ≤ (advance (placed s.terminal c)).row) (i : ℕ) :
    (s.putchar c).marks i = if i < 24 * 80 then s.placedMarks c (i + 80)
      else if i < 25 * 80 then none else s.placedMarks c i :=
  congrFun (if_pos h) i

lemma Traced.Coloured.putchar (h : s.Coloured color) (hc : Printable c → s.terminal.attrib = color) :
    (s.putchar c).Coloured color := by
  intro i hi d hd hp
  change (terminalPutchar s.terminal c).buffer i = _
  rcases Nat.lt_or_ge (advance (placed s.terminal c)).row 25 with hlt | hge
  · rw [putchar_marks_of_lt hlt] at hd
    rw [putchar_buffer_of_lt hlt]
    exact placedMarks_coloured h hc hi hd hp
  · rw [putchar_marks_of_le hge] at hd
    split_ifs at hd with hup
    · rw [putchar_buffer_up hge hup]
      exact placedMarks_coloured h hc (by omega) hd hp

lemma attrib_of_coloured (hon : s.terminal.OnScreen) (hp : Printable c)
    (h : (s.putchar c).Coloured color) : s.terminal.attrib = color := by
  -- a printable character is on the screen right after it is written
  obtain ⟨hr, hcol⟩ := hon
  obtain ⟨hb, hret, hn⟩ := hp.ne
  have hc : control s.terminal c = s.terminal := control_of_other (by omega) hb hret hn
  have hmark : s.placedMarks c (s.terminal.row * 80 + s.terminal.column) = some c := by
    rw [Traced.placedMarks, hc, Function.update_self]
  have hbuf : (placed s.terminal c).buffer (s.terminal.row * 80 + s.terminal.column) =
      vgaEntry c s.terminal.attrib := by
    rw [placed_buffer, hc, Function.update_self]
  apply vgaEntry_color (c := c)
  rw [← hbuf]
  rcases Nat.lt_or_ge (advance (placed s.terminal c)).row 25 with hlt | hge
  · rw [← putchar_buffer_of_lt hlt]
    refine h _ (by omega) c ?_ hp
    rw [putchar_marks_of_lt hlt, hmark]
  · have hle := advance_row_le (t := placed s.terminal c)
    rw [placed_row, hc] at hle
    obtain ⟨j, hj⟩ := Nat.exists_eq_add_of_le' (show 80 ≤ s.terminal.row * 80 + s.terminal.column by omega)
    rw [hj] at hmark ⊢
    have hup : j < 24 * 80 := by omega
    rw [← putchar_buffer_up hge hup]
    refine h j (by omega) c ?_ hp
    rw [putchar_marks_of_le hge, if_pos hup, hmark]

end Traced

lemma carries_iff_attrib (hon : t.OnScreen) : Carries t color text ↔
    ∀ pre c, pre ++ [c] <+: text → Printable c →
      (terminalWrite (terminalSetcolor t color) pre).attrib = color := by
  constructor
  · intro h pre c hpre hp
    have hcol := h _ hpre
    rw [traced_snoc] at hcol
    have ha := attrib_of_coloured ?_ hp hcol
    · rwa [traced_terminal] at ha
    · have hset : (terminalSetcolor t color).OnScreen := hon
      rw [traced_terminal]
      exact hset.write
  · intro h pre hpre
    induction pre using List.reverseRecOn with
    | nil => exact fun i _ c hc => absurd hc (Option.some_ne_none c).symm
    | append_singleton pre c ih =>
      rw [traced_snoc]
      refine (ih ((List.prefix_append pre [c]).trans hpre)).putchar fun hp => ?_
      rw [traced_terminal]
      exact h pre c hpre hp

lemma write_cons_attrib : (terminalWrite t (c :: text)).attrib = defaultAttrib := by
  induction text using List.reverseRecOn with
  | nil => exact putchar_attrib
  | append_singleton text d _ =>
    rw [← List.cons_append, terminalWrite_snoc, putchar_attrib]

theorem carries_iff (memory : ℕ → BitVec 16) (calls : List Call) (color : BitVec 8) (text : List (BitVec 8)) :
    Carries ((booted memory).after calls) color text ↔
      color = defaultAttrib ∨ ∀ c ∈ text.tail, ¬ Printable c := by
  rw [carries_iff_attrib (after_onScreen memory calls)]
  constructor
  · intro h
    rw [or_iff_not_imp_left]
    intro hne c hc hp
    cases text with
    | nil => simp at hc
    | cons d text =>
      obtain ⟨pre, post, rfl⟩ := List.append_of_mem hc
      have ha := h (d :: pre) c ⟨post, by simp⟩ hp
      rw [write_cons_attrib] at ha
      exact hne ha.symm
  · intro h pre c hpre hp
    cases pre with
    | nil => rfl
    | cons d pre =>
      rw [write_cons_attrib]
      obtain ⟨post, rfl⟩ := hpre
      exact (h.resolve_right fun ht => ht c (by simp) hp).symm

theorem second_character_loses_colour : ¬ ∀ (memory : ℕ → BitVec 16) (calls : List Call) (color : BitVec 8)
    (text : List (BitVec 8)), Carries ((booted memory).after calls) color text := by
  intro h
  have ha := (carries_iff_attrib (after_onScreen _ [])).mp (h (fun _ => 0) [] 0x0C [0x41, 0x42])
    [0x41] 0x42 (List.prefix_refl _) ⟨by decide, by decide⟩
  rw [write_cons_attrib] at ha
  exact absurd ha (by decide)

end TinuOS.Monitor
