import TinuOS.Library.Word
import TinuOS.Monitor.Bounds
import TinuOS.Monitor.Session

/-! The cursor that the CRT controller shows, against the cursor of the terminal. -/

namespace TinuOS.Monitor

open Library

/-- The index register at port `0x3D4` selects the register that port `0x3D5` writes. -/
structure Crtc where
  index : BitVec 8
  registers : BitVec 8 → BitVec 8

namespace Crtc

def outb (d : Crtc) (w : BitVec 8 × BitVec 16) : Crtc :=
  if w.2 = 0x3D4 then { d with index := w.1 }
  else if w.2 = 0x3D5 then { d with registers := Function.update d.registers d.index w.1 }
  else d

def after (d : Crtc) (outs : List (BitVec 8 × BitVec 16)) : Crtc := outs.foldl outb d

def cursorLocation (d : Crtc) : BitVec 16 := d.registers 14 ++ d.registers 15

def Follows (d : Crtc) (t : Terminal) : Prop :=
  (d.after t.outs).cursorLocation.toNat = t.row * 80 + t.column ∧
    (d.after t.outs).cursorLocation.toNat < 2000

end Crtc

def Scrolls (t : Terminal) (c : BitVec 8) : Prop :=
  t.row = 24 ∧ (c = 0x0A ∨ c ≠ 0x08 ∧ c ≠ 0x0D ∧ t.column = 79)

variable {d : Crtc} {t : Terminal} {c : BitVec 8} {outs : List (BitVec 8 × BitVec 16)} {i : ℕ}

@[simp] lemma storeLoop_outs {indices : List ℕ} {value : Terminal → ℕ → BitVec 16} :
    (t.storeLoop indices value).outs = t.outs := by
  obtain ⟨b, hb⟩ := storeLoop_eq indices value t
  rw [hb]

lemma scroll_outs : (scroll t).outs = t.outs := by
  simp only [scroll]
  split_ifs <;> simp

lemma moveCursor_location : (d.after (moveCursor t).outs).cursorLocation =
    BitVec.ofNat 16 (t.row * 80 + t.column) := by
  generalize hx : BitVec.ofNat 16 (t.row * 80 + t.column) = x
  have ho : (moveCursor t).outs = t.outs ++ [(14#8, 0x3D4#16), ((x >>> 8).setWidth 8, 0x3D5#16),
      (15#8, 0x3D4#16), (x.setWidth 8, 0x3D5#16)] := by
    rw [← hx]
    simp [moveCursor, Terminal.outb, vgaWidth]
  rw [ho, Crtc.after, List.foldl_append]
  exact joined_bytes x

lemma advance_row_lt (hr : t.row < 25) :
    (advance t).row < 25 ↔ t.column ≠ 79 ∨ t.row ≠ 24 := by
  rw [advance_row]
  split_ifs <;> omega

lemma control_row_eq (hr : t.row < 25) (hn : c ≠ 0x0A) :
    (control t c).row = 24 ↔ t.row = 24 ∧ c ≠ 0x08 ∧ c ≠ 0x0D := by
  by_cases hb : c = 0x08
  · rw [hb, control_backspace (by omega)]
    refine iff_of_false (fun h => ?_) fun h => h.2.1 rfl
    change t.row - 1 = 24 at h
    omega
  · by_cases hc : c = 0x0D
    · rw [hc, control_return]
      exact iff_of_false (show ¬ 0 = 24 by omega) fun h => h.2.2 rfl
    · rw [control_of_other (by omega) hb hc hn]
      exact (and_iff_left ⟨hb, hc⟩).symm

lemma advance_row_lt_iff (h : t.OnScreen) : (advance (placed t c)).row < 25 ↔ ¬ Scrolls t c := by
  obtain ⟨hr, hcol⟩ := h
  by_cases hn : c = 0x0A
  · subst hn
    have hc := control_newline (t := t) (by omega)
    have hp : (placed t 0x0A).column < 79 := by
      rw [placed_column, hc]
      exact Nat.zero_lt_succ 78
    rw [advance_of_lt hp]
    change (placed t 0x0A).row < 25 ↔ _
    rw [placed_row, hc, Scrolls, and_iff_left (Or.inl rfl)]
    change t.row + 1 < 25 ↔ _
    omega
  · obtain ⟨-, hcase⟩ := control_cases hr c
    obtain ⟨-, hle, hsame⟩ := hcase.resolve_left fun h => hn h.1
    have hrow := control_row_eq hr hn
    rw [advance_row_lt (by rw [placed_row]; omega), placed_row, placed_column, hsame, Scrolls]
    tauto

lemma putchar_location (h : t.OnScreen) :
    (d.after (terminalPutchar t c).outs).cursorLocation.toNat =
      (advance (placed t c)).row * 80 + (advance (placed t c)).column := by
  have hcol := (putchar_onScreen (c := c) h.1 h.2).2
  rw [putchar_eq, scroll_column, moveCursor_column] at hcol
  have hle := advance_row_le (t := placed t c)
  obtain ⟨-, hcase⟩ := control_cases h.1 c
  have hr := h.1
  rw [placed_row] at hle
  rw [putchar_eq, scroll_outs, moveCursor_location, BitVec.toNat_ofNat]
  exact Nat.mod_eq_of_lt (by omega)

lemma putchar_follows_iff (h : t.OnScreen) : d.Follows (terminalPutchar t c) ↔ ¬ Scrolls t c := by
  have hrow : (terminalPutchar t c).row = min (advance (placed t c)).row 24 := putchar_row
  have hcol : (terminalPutchar t c).column = (advance (placed t c)).column := by
    rw [putchar_eq, scroll_column, moveCursor_column]
  have hon := putchar_onScreen (c := c) h.1 h.2
  rw [← advance_row_lt_iff h, Crtc.Follows, putchar_location h]
  omega

lemma after_follows_iff (d : Crtc) (memory : ℕ → BitVec 16) (pre : List Call) (c : BitVec 8) :
    d.Follows ((booted memory).after (pre ++ [.putchar c])) ↔
      ¬ Scrolls ((booted memory).after pre) c := by
  rw [after_snoc]
  exact putchar_follows_iff (after_onScreen memory pre)

def CursorFollows (d : Crtc) (t : Terminal) (calls : List Call) : Prop :=
  ∀ pre c, pre ++ [.putchar c] <+: calls → d.Follows (t.after (pre ++ [.putchar c]))

theorem cursorFollows_iff (d : Crtc) (memory : ℕ → BitVec 16) (calls : List Call) :
    CursorFollows d (booted memory) calls ↔
      ∀ pre c, pre ++ [.putchar c] <+: calls → ¬ Scrolls ((booted memory).after pre) c :=
  forall₃_congr fun pre c _ => after_follows_iff d memory pre c

lemma newlines_scroll (memory : ℕ → BitVec 16) :
    Scrolls ((booted memory).after ((List.replicate 24 0x0A).map .putchar)) 0x0A := by
  rw [after_putchar]
  exact ⟨newlines_row memory (Nat.le_refl 24), Or.inl rfl⟩

theorem scrolled_cursor_behind_screen : ¬ ∀ (d : Crtc) (memory : ℕ → BitVec 16) (calls : List Call),
    CursorFollows d (booted memory) calls := by
  -- a newline in each row of a cleared screen
  intro h
  have hf := h ⟨0, fun _ => 0⟩ (fun _ => 0) _ ((List.replicate 24 0x0A).map .putchar) 0x0A (List.prefix_refl _)
  exact (after_follows_iff _ _ _ _).mp hf (newlines_scroll _)

end TinuOS.Monitor
