import TinuOS.Monitor.Model

/-! The cursor and the stores of `terminal_putchar`, whatever the character. -/

namespace TinuOS.Monitor

def defaultAttrib : BitVec 8 := vgaEntryColor vgaColorLightGreen vgaColorBlack

variable {t : Terminal} {c : BitVec 8} {text more : List (BitVec 8)} {memory : ℕ → BitVec 16}
  {value : Terminal → ℕ → BitVec 16} {indices : List ℕ}

section StoreLoop

lemma storeLoop_cons (i : ℕ) : t.storeLoop (i :: indices) value =
    (t.store i (value t i)).storeLoop indices value := rfl

lemma storeLoop_eq (indices : List ℕ) (value : Terminal → ℕ → BitVec 16) (t : Terminal) :
    ∃ b, t.storeLoop indices value = { t with buffer := b, stores := t.stores ++ indices } := by
  induction indices generalizing t with
  | nil => exact ⟨t.buffer, by rw [List.append_nil]; rfl⟩
  | cons i indices ih =>
    obtain ⟨b, hb⟩ := ih (t.store i (value t i))
    refine ⟨b, ?_⟩
    rw [storeLoop_cons, hb]
    simp only [Terminal.store, List.append_assoc, List.singleton_append]

@[simp] lemma storeLoop_row : (t.storeLoop indices value).row = t.row := by
  obtain ⟨b, hb⟩ := storeLoop_eq indices value t
  rw [hb]

@[simp] lemma storeLoop_column : (t.storeLoop indices value).column = t.column := by
  obtain ⟨b, hb⟩ := storeLoop_eq indices value t
  rw [hb]

@[simp] lemma storeLoop_attrib : (t.storeLoop indices value).attrib = t.attrib := by
  obtain ⟨b, hb⟩ := storeLoop_eq indices value t
  rw [hb]

@[simp] lemma storeLoop_stores : (t.storeLoop indices value).stores = t.stores ++ indices := by
  obtain ⟨b, hb⟩ := storeLoop_eq indices value t
  rw [hb]

lemma foldl_storeLoop (line : ℕ → List ℕ) (value : Terminal → ℕ → BitVec 16) (ys : List ℕ)
    (t : Terminal) :
    let t' := ys.foldl (fun t y => t.storeLoop (line y) value) t
    t'.row = t.row ∧ t'.column = t.column ∧ t'.attrib = t.attrib ∧
      t'.stores = t.stores ++ ys.flatMap line := by
  induction ys generalizing t with
  | nil => simp
  | cons y ys ih =>
    have h := ih (t.storeLoop (line y) value)
    simpa only [storeLoop_row, storeLoop_column, storeLoop_attrib, storeLoop_stores, List.append_assoc,
      List.foldl_cons, List.flatMap_cons] using h

end StoreLoop

lemma terminalWrite_nil : terminalWrite t [] = t := rfl

lemma terminalWrite_cons : terminalWrite t (c :: text) = terminalWrite (terminalPutchar t c) text := rfl

lemma terminalWrite_append : terminalWrite t (text ++ more) = terminalWrite (terminalWrite t text) more :=
  List.foldl_append

lemma terminalWrite_snoc : terminalWrite t (text ++ [c]) = terminalPutchar (terminalWrite t text) c :=
  List.foldl_concat ..

section Booted

lemma booted_eq : booted memory = (List.range vgaHeight).foldl
    (fun t y => t.storeLoop (List.range' (y * vgaWidth) vgaWidth) fun t _ => vgaEntry 0x20 t.attrib)
    ⟨0, 0, defaultAttrib, memory, [], []⟩ := rfl

lemma booted_row : (booted memory).row = 0 := by
  rw [booted_eq]
  exact (foldl_storeLoop _ _ _ _).1

lemma booted_column : (booted memory).column = 0 := by
  rw [booted_eq]
  exact (foldl_storeLoop _ _ _ _).2.1

lemma booted_attrib : (booted memory).attrib = defaultAttrib := by
  rw [booted_eq]
  exact (foldl_storeLoop _ _ _ _).2.2.1

lemma booted_stores : ∀ i ∈ (booted memory).stores, i < 25 * 80 := by
  intro i hi
  rw [booted_eq, (foldl_storeLoop _ _ _ _).2.2.2, List.nil_append, List.mem_flatMap] at hi
  obtain ⟨y, hy, hi⟩ := hi
  rw [List.mem_range, vgaHeight] at hy
  rw [List.mem_range'_1, vgaWidth] at hi
  omega

end Booted

section Scroll

lemma scroll_of_lt (h : t.row < 25) : scroll t = { t with attrib := defaultAttrib } := by
  have hr : ¬ vgaHeight ≤ t.row := Nat.not_le.mpr h
  simp only [scroll, if_neg hr]
  rfl

@[simp] lemma scroll_row : (scroll t).row = min t.row 24 := by
  by_cases hr : vgaHeight ≤ t.row
  · simp only [scroll, if_pos hr]
    rw [vgaHeight] at hr
    omega
  · rw [scroll_of_lt (Nat.lt_of_not_le hr)]
    rw [vgaHeight] at hr
    change t.row = min t.row 24
    omega

@[simp] lemma scroll_column : (scroll t).column = t.column := by
  simp only [scroll]
  split_ifs <;> simp

@[simp] lemma scroll_attrib : (scroll t).attrib = defaultAttrib := by
  simp only [scroll]
  split_ifs <;> simp [defaultAttrib]

lemma scroll_stores : ∃ is, (scroll t).stores = t.stores ++ is ∧ ∀ i ∈ is, i < 25 * 80 := by
  by_cases hr : vgaHeight ≤ t.row
  · simp only [scroll, if_pos hr, storeLoop_stores, List.append_assoc]
    refine ⟨_, rfl, fun i hi => ?_⟩
    rcases List.mem_append.mp hi with hi | hi <;> rw [List.mem_range'_1] at hi <;> omega
  · rw [scroll_of_lt (Nat.lt_of_not_le hr)]
    exact ⟨[], by simp, by simp⟩

end Scroll

section Putchar

lemma control_of_other (hr : t.row < 80) (hb : c ≠ 0x08) (hc : c ≠ 0x0D) (hn : c ≠ 0x0A) :
    control t c = t := by
  simp only [control, if_neg hb, if_neg hc, if_neg hn]
  exact if_neg (by omega)

lemma control_newline (hr : t.row < 79) : control t 0x0A = { t with column := 0, row := t.row + 1 } := by
  have hb : ¬ (0x0A : BitVec 8) = 0x08 := by decide
  have hc : ¬ (0x0A : BitVec 8) = 0x0D := by decide
  simp only [control, if_neg hb, if_neg hc, if_true]
  exact if_neg (show ¬ 80 ≤ t.row + 1 by omega)

lemma control_return : control t 0x0D = { t with row := 0 } := by
  have hb : ¬ (0x0D : BitVec 8) = 0x08 := by decide
  simp only [control, if_neg hb, if_true]
  exact if_neg (show ¬ 80 ≤ 0 by omega)

lemma control_backspace (hr : t.row < 80) : control t 0x08 = { t with row := t.row - 1 } := by
  simp only [control, if_true]
  by_cases h0 : t.row = 0
  · rw [if_neg (not_not.mpr h0), if_neg (by omega)]
    cases t
    simp_all only
  · rw [if_pos h0]
    exact if_neg (show ¬ 80 ≤ t.row - 1 by omega)

lemma control_cases (hr : t.row < 25) (c : BitVec 8) : (control t c).stores = t.stores ∧
    (c = 0x0A ∧ (control t c).row = t.row + 1 ∧ (control t c).column = 0 ∨
      c ≠ 0x0A ∧ (control t c).row ≤ t.row ∧ (control t c).column = t.column) := by
  by_cases hn : c = 0x0A
  · subst hn
    rw [control_newline (by omega)]
    exact ⟨rfl, Or.inl ⟨rfl, rfl, rfl⟩⟩
  · by_cases hb : c = 0x08
    · subst hb
      rw [control_backspace (by omega)]
      exact ⟨rfl, Or.inr ⟨hn, Nat.sub_le t.row 1, rfl⟩⟩
    · by_cases hc : c = 0x0D
      · subst hc
        rw [control_return]
        exact ⟨rfl, Or.inr ⟨hn, Nat.zero_le t.row, rfl⟩⟩
      · rw [control_of_other (by omega) hb hc hn]
        exact ⟨rfl, Or.inr ⟨hn, Nat.le_refl _, rfl⟩⟩

@[simp] lemma control_buffer : (control t c).buffer = t.buffer := by
  simp only [control]
  split_ifs <;> rfl

@[simp] lemma control_attrib : (control t c).attrib = t.attrib := by
  simp only [control]
  split_ifs <;> rfl

lemma advance_of_lt (hc : t.column < 79) : advance t = { t with column := t.column + 1 } := by
  have hw : ¬ t.column + 1 = vgaWidth := by
    rw [vgaWidth]
    omega
  simp only [advance, if_neg hw]

lemma advance_margin (hc : t.column = 79) :
    advance t = { t with column := 0, row := if t.row = 24 then 26 else t.row + 1 } := by
  have hw : t.column + 1 = vgaWidth := by
    rw [vgaWidth]
    omega
  simp only [advance, if_pos hw]
  by_cases hr : t.row = 24
  · have hh : t.row + 1 = vgaHeight := by
      rw [vgaHeight]
      omega
    rw [if_pos hh, if_pos hr, hr]
  · have hh : ¬ t.row + 1 = vgaHeight := by
      rw [vgaHeight]
      omega
    rw [if_neg hh, if_neg hr]

lemma advance_column (hc : t.column < 80) : (advance t).column = (t.column + 1) % 80 := by
  by_cases hw : t.column + 1 = vgaWidth
  · have h0 : (t.column + 1) % 80 = 0 := by
      rw [hw]
      rfl
    rw [h0]
    simp only [advance, if_pos hw]
    split_ifs <;> rfl
  · simp only [advance, if_neg hw]
    rw [vgaWidth] at hw
    omega

lemma advance_row : (advance t).row =
    if t.column = 79 then (if t.row = 24 then 26 else t.row + 1) else t.row := by
  by_cases hc : t.column = 79
  · rw [advance_margin hc, if_pos hc]
  · have hw : ¬ t.column + 1 = vgaWidth := by
      rw [vgaWidth]
      omega
    rw [if_neg hc]
    simp only [advance, if_neg hw]

lemma advance_row_le : (advance t).row ≤ t.row + 2 := by
  rw [advance_row]
  split_ifs <;> omega

@[simp] lemma advance_buffer : (advance t).buffer = t.buffer := by
  simp only [advance]
  split_ifs <;> rfl

@[simp] lemma advance_stores : (advance t).stores = t.stores := by
  simp only [advance]
  split_ifs <;> rfl

def placed (t : Terminal) (c : BitVec 8) : Terminal :=
  terminalPutentryat (control t c) c (control t c).attrib (control t c).column (control t c).row

@[simp] lemma moveCursor_row : (moveCursor t).row = t.row := rfl
@[simp] lemma moveCursor_column : (moveCursor t).column = t.column := rfl
@[simp] lemma moveCursor_stores : (moveCursor t).stores = t.stores := rfl
@[simp] lemma moveCursor_buffer : (moveCursor t).buffer = t.buffer := rfl

@[simp] lemma placed_row : (placed t c).row = (control t c).row := rfl
@[simp] lemma placed_column : (placed t c).column = (control t c).column := rfl

lemma placed_stores : (placed t c).stores =
    (control t c).stores ++ [(control t c).row * 80 + (control t c).column] := rfl

lemma putchar_eq : terminalPutchar t c = scroll (moveCursor (advance (placed t c))) := rfl

lemma putchar_row : (terminalPutchar t c).row = min (advance (placed t c)).row 24 := by
  rw [putchar_eq, scroll_row, moveCursor_row]

lemma putchar_column (h : (control t c).column < 80) :
    (terminalPutchar t c).column = ((control t c).column + 1) % 80 := by
  rw [← placed_column] at h ⊢
  rw [putchar_eq, scroll_column, moveCursor_column, advance_column h]

lemma putchar_newline (hr : t.row < 25) :
    (terminalPutchar t 0x0A).row = min (t.row + 1) 24 ∧ (terminalPutchar t 0x0A).column = 1 := by
  have hc : control t 0x0A = { t with column := 0, row := t.row + 1 } := control_newline (by omega)
  have hp : (placed t 0x0A).column = 0 := by
    rw [placed_column, hc]
  constructor
  · rw [putchar_row, advance_of_lt (by omega)]
    change min (placed t 0x0A).row 24 = _
    rw [placed_row, hc]
  · have hcol : (control t 0x0A).column = 0 := by rw [hc]
    rw [putchar_column (by omega), hcol]

lemma putchar_onScreen (hr : t.row < 25) (hc : t.column < 80) :
    (terminalPutchar t c).row < 25 ∧ (terminalPutchar t c).column < 80 := by
  have hcol : (control t c).column < 80 := by
    rcases (control_cases hr c).2 with hn | hn <;> omega
  rw [putchar_row, putchar_column hcol]
  exact ⟨by omega, Nat.mod_lt _ (by omega)⟩

lemma putchar_attrib : (terminalPutchar t c).attrib = defaultAttrib := by
  rw [putchar_eq, scroll_attrib]

lemma putchar_stores : ∃ is, (terminalPutchar t c).stores = (control t c).stores ++
    ((control t c).row * 80 + (control t c).column) :: is ∧ ∀ i ∈ is, i < 25 * 80 := by
  obtain ⟨is, hs, hi⟩ := scroll_stores (t := moveCursor (advance (placed t c)))
  refine ⟨is, ?_, hi⟩
  rw [putchar_eq, hs, moveCursor_stores, advance_stores, placed_stores, List.append_assoc,
    List.singleton_append]

lemma write_onScreen (memory : ℕ → BitVec 16) (text : List (BitVec 8)) :
    (terminalWrite (booted memory) text).row < 25 ∧ (terminalWrite (booted memory) text).column < 80 := by
  induction text using List.reverseRecOn with
  | nil =>
    rw [terminalWrite_nil, booted_row, booted_column]
    omega
  | append_singleton text c ih =>
    rw [terminalWrite_snoc]
    exact putchar_onScreen ih.1 ih.2

lemma write_attrib (memory : ℕ → BitVec 16) (text : List (BitVec 8)) :
    (terminalWrite (booted memory) text).attrib = defaultAttrib := by
  induction text using List.reverseRecOn with
  | nil => rw [terminalWrite_nil, booted_attrib]
  | append_singleton text c _ => rw [terminalWrite_snoc, putchar_attrib]

end Putchar

end TinuOS.Monitor
