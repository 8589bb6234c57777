import TinuOS.Monitor.Layout
import TinuOS.Monitor.Session

/-! Carriage return and backspace, which change the row and then are stored like other characters. -/

namespace TinuOS.Monitor

def SameScreen (t t' : Terminal) : Prop := ∀ i < 25 * 80, t'.buffer i = t.buffer i

def ReturnsHome (t : Terminal) : Prop :=
  let t' := terminalPutchar t 0x0D
  t'.row = t.row ∧ t'.column = 0 ∧ SameScreen t t'

def StepsBack (t : Terminal) : Prop :=
  let t' := terminalPutchar t 0x08
  t'.row = t.row ∧ t'.column + 1 = t.column ∧ SameScreen t t'

def TakesBack (t : Terminal) (text : List (BitVec 8)) : Prop :=
  let t' := terminalWrite t (text ++ List.replicate text.length 0x08)
  t'.row = t.row ∧ t'.column = t.column

structure ControlsMove (t : Terminal) : Prop where
  home : ReturnsHome t
  back : 0 < t.column → StepsBack t
  inverse : ∀ text, (∀ c ∈ text, Printable c) → t.column + text.length < 80 → TakesBack t text

variable {t : Terminal} {c : BitVec 8} {text : List (BitVec 8)} {m : ℕ}

lemma putchar_cursor (h : t.OnScreen) (hcol : (control t c).column = t.column)
    (hrow : (control t c).row < 25) (hend : t.column = 79 → (control t c).row < 24) :
    (terminalPutchar t c).row = (if t.column = 79 then (control t c).row + 1 else (control t c).row) ∧
    (terminalPutchar t c).column = (t.column + 1) % 80 ∧
    (terminalPutchar t c).buffer = (placed t c).buffer := by
  have hc := h.2
  rw [← hcol, ← placed_column] at hend ⊢
  rw [← hcol, ← placed_column] at hc
  rw [← placed_row] at hrow hend ⊢
  have hadv : (advance (placed t c)).row =
      if (placed t c).column = 79 then (placed t c).row + 1 else (placed t c).row := by
    rw [advance_row]
    split_ifs <;> omega
  have hlt : (advance (placed t c)).row < 25 := by
    rw [hadv]
    split_ifs with hm
    · exact Nat.succ_lt_succ (hend hm)
    · exact hrow
  refine ⟨?_, ?_, putchar_buffer_of_lt hlt⟩
  · rw [putchar_row, Nat.min_eq_left (by omega), hadv]
  · rw [putchar_eq, scroll_column, moveCursor_column, advance_column hc]

section Return

lemma return_cursor (h : t.OnScreen) : (terminalPutchar t 0x0D).row = (if t.column = 79 then 1 else 0) ∧
    (terminalPutchar t 0x0D).column = (t.column + 1) % 80 ∧
    (terminalPutchar t 0x0D).buffer = Function.update t.buffer t.column (vgaEntry 0x0D t.attrib) := by
  have hc : control t 0x0D = { t with row := 0 } := control_return
  obtain ⟨hrow, hcol, hbuf⟩ := putchar_cursor (c := 0x0D) h (by rw [hc]) (by rw [hc]; exact Nat.succ_pos 24)
    (fun _ => by rw [hc]; exact Nat.succ_pos 23)
  refine ⟨?_, hcol, ?_⟩
  · rw [hrow, hc]
  · rw [hbuf, placed, hc]
    change Function.update t.buffer (0 * 80 + t.column) _ = _
    rw [Nat.zero_mul, Nat.zero_add]

lemma returnsHome_iff (h : t.OnScreen) : ReturnsHome t ↔
    t.row = 1 ∧ t.column = 79 ∧ t.buffer 79 = vgaEntry 0x0D t.attrib := by
  obtain ⟨hrow, hcol, hbuf⟩ := return_cursor h
  have hlt := h.2
  simp only [ReturnsHome, SameScreen, hrow, hcol, hbuf]
  constructor
  · rintro ⟨hr, hc, hs⟩
    have hm : t.column = 79 := by omega
    rw [if_pos hm] at hr
    have h79 := hs 79 (by omega)
    rw [hm, Function.update_self] at h79
    exact ⟨hr.symm, hm, h79.symm⟩
  · rintro ⟨hr, hm, h79⟩
    refine ⟨by rw [if_pos hm, hr], by rw [hm], fun i _ => ?_⟩
    rw [hm, ← h79, Function.update_eq_self]

end Return

section Backspace

lemma backspace_cursor (h : t.OnScreen) :
    (terminalPutchar t 0x08).row = (if t.column = 79 then t.row - 1 + 1 else t.row - 1) ∧
    (terminalPutchar t 0x08).column = (t.column + 1) % 80 := by
  have hr := h.1
  have hc : control t 0x08 = { t with row := t.row - 1 } := control_backspace (by omega)
  have hrow : (control t 0x08).row = t.row - 1 := by rw [hc]
  obtain ⟨hrow', hcol, -⟩ := putchar_cursor (c := 0x08) h (by rw [hc]) (by omega) (fun _ => by omega)
  rw [hrow] at hrow'
  exact ⟨hrow', hcol⟩

lemma not_stepsBack (h : t.OnScreen) : ¬ StepsBack t := by
  intro hb
  have hc := hb.2.1
  rw [(backspace_cursor h).2] at hc
  have := h.2
  omega

lemma backspaces_cursor (h : t.OnScreen) (hm : t.column + m < 80) :
    (terminalWrite t (List.replicate m 0x08)).row = t.row - m ∧
    (terminalWrite t (List.replicate m 0x08)).column = t.column + m := by
  induction m generalizing t with
  | zero => exact ⟨rfl, rfl⟩
  | succ m ih =>
    obtain ⟨hrow, hcol⟩ := backspace_cursor h
    have hne : t.column ≠ 79 := by omega
    rw [if_neg hne] at hrow
    rw [Nat.mod_eq_of_lt (by omega)] at hcol
    have hon : (terminalPutchar t 0x08).OnScreen := putchar_onScreen h.1 h.2
    obtain ⟨hrow', hcol'⟩ := ih hon (by omega)
    rw [List.replicate_succ, terminalWrite_cons, hrow', hcol', hrow, hcol]
    omega

lemma backspaces_wrap (h : t.OnScreen) (hm : 80 ≤ t.column + m) (hm' : m < 80) :
    (terminalWrite t (List.replicate m 0x08)).row = t.row - (79 - t.column) - 1 + 1 - (t.column + m - 80) ∧
    (terminalWrite t (List.replicate m 0x08)).column = t.column + m - 80 := by
  -- the backspaces run through the margin once
  have hlt := h.2
  have hsplit : List.replicate m (0x08 : BitVec 8) =
      List.replicate (79 - t.column) 0x08 ++ 0x08 :: List.replicate (t.column + m - 80) 0x08 := by
    rw [← List.replicate_succ, List.replicate_append_replicate]
    congr 1
    omega
  obtain ⟨hrow, hcol⟩ := backspaces_cursor (m := 79 - t.column) h (by omega)
  rw [hsplit, terminalWrite_append, terminalWrite_cons]
  generalize terminalWrite t (List.replicate (79 - t.column) 0x08) = u at hrow hcol ⊢
  have hu : u.OnScreen := ⟨by have := h.1; omega, by omega⟩
  obtain ⟨hrow', hcol'⟩ := backspace_cursor hu
  rw [if_pos (by omega)] at hrow'
  have hon : (terminalPutchar u 0x08).OnScreen := putchar_onScreen hu.1 hu.2
  obtain ⟨hrow'', hcol''⟩ := backspaces_cursor (m := t.column + m - 80) hon (by omega)
  rw [hrow'', hcol'', hrow', hcol']
  omega

end Backspace

lemma printable_cursor (h : t.OnScreen) (hp : ∀ c ∈ text, Printable c) (hfit : t.column + text.length < 80) :
    (terminalWrite t text).row = t.row ∧ (terminalWrite t text).column = t.column + text.length := by
  induction text generalizing t with
  | nil => exact ⟨rfl, rfl⟩
  | cons c text ih =>
    obtain ⟨hb, hret, hn⟩ := (hp c List.mem_cons_self).ne
    have hr := h.1
    have hc : control t c = t := control_of_other (by omega) hb hret hn
    rw [List.length_cons] at hfit ⊢
    obtain ⟨hrow, hcol, -⟩ := putchar_cursor (c := c) h (by rw [hc]) (by rw [hc]; exact hr) (fun _ => by omega)
    rw [if_neg (by omega), hc] at hrow
    rw [Nat.mod_eq_of_lt (by omega)] at hcol
    have hon : (terminalPutchar t c).OnScreen := putchar_onScreen h.1 h.2
    obtain ⟨hrow', hcol'⟩ := ih hon (fun d hd => hp d (List.mem_cons_of_mem c hd)) (by omega)
    rw [terminalWrite_cons, hrow', hcol', hrow, hcol]
    omega

lemma takesBack_iff (h : t.OnScreen) (hp : ∀ c ∈ text, Printable c) (hfit : t.column + text.length < 80) :
    TakesBack t text ↔ text = [] ∨
      (text.length = 40 ∧ (t.row = 0 ∧ 0 < t.column ∨ t.row = 1 ∧ t.column = 0)) := by
  obtain ⟨hrow, hcol⟩ := printable_cursor h hp hfit
  have hr := h.1
  simp only [TakesBack, terminalWrite_append, ← List.length_eq_zero_iff]
  generalize terminalWrite t text = u at hrow hcol ⊢
  have hu : u.OnScreen := ⟨by omega, by omega⟩
  by_cases hm : u.column + text.length < 80
  · obtain ⟨hrow', hcol'⟩ := backspaces_cursor hu hm
    rw [hrow', hcol']
    omega
  · obtain ⟨hrow', hcol'⟩ := backspaces_wrap hu (Nat.le_of_not_lt hm) (by omega)
    rw [hrow', hcol']
    omega

theorem controls_never_move (memory : ℕ → BitVec 16) (calls : List Call) :
    let t := (booted memory).after calls
    (ReturnsHome t ↔ t.row = 1 ∧ t.column = 79 ∧ t.buffer 79 = vgaEntry 0x0D t.attrib) ∧
    ¬ StepsBack t ∧
    (∀ text, (∀ c ∈ text, Printable c) → t.column + text.length < 80 → (TakesBack t text ↔
      text = [] ∨ (text.length = 40 ∧ (t.row = 0 ∧ 0 < t.column ∨ t.row = 1 ∧ t.column = 0)))) ∧
    ¬ ControlsMove t := by
  intro t
  have h : t.OnScreen := after_onScreen memory calls
  refine ⟨returnsHome_iff h, not_stepsBack h, fun text => takesBack_iff h, fun hm => ?_⟩
  have hcol := ((returnsHome_iff h).mp hm.home).2.1
  exact not_stepsBack h (hm.back (by omega))

theorem return_at_origin : ¬ ∀ (memory : ℕ → BitVec 16) (calls : List Call),
    ControlsMove ((booted memory).after calls) := by
  intro h
  have hhome := (h (fun _ => 0) []).home
  rw [after_nil, returnsHome_iff (booted_onScreen _), booted_row] at hhome
  exact absurd hhome.1 (by decide)

end TinuOS.Monitor
