import TinuOS.Monitor.Cursor

/-! Which characters make `terminal_putchar` store behind the screen. -/

namespace TinuOS.Monitor

structure Safe (t : Terminal) : Prop where
  stores : ∀ i ∈ t.stores, i < 25 * 80
  row : t.row < 25
  column : t.column < 80

variable {t : Terminal} {c : BitVec 8} {memory : ℕ → BitVec 16} {text pre : List (BitVec 8)}

lemma putchar_stores_lt (hr : t.row < 25) (hc : t.column < 80) (hs : ∀ i ∈ t.stores, i < 25 * 80)
    (hn : c = 0x0A → t.row ≠ 24) : ∀ i ∈ (terminalPutchar t c).stores, i < 25 * 80 := by
  intro i hi
  obtain ⟨hsame, hcase⟩ := control_cases hr c
  obtain ⟨is, he, his⟩ := putchar_stores (t := t) (c := c)
  rw [he, hsame, List.mem_append, List.mem_cons] at hi
  rcases hi with hi | rfl | hi
  · exact hs i hi
  · rcases hcase with ⟨hc, hrow, hcol⟩ | ⟨-, hrow, hcol⟩
    · have := hn hc
      omega
    · omega
  · exact his i hi

lemma newline_stores (h : t.row = 24) : 25 * 80 ∈ (terminalPutchar t 0x0A).stores := by
  obtain ⟨is, he, -⟩ := putchar_stores (t := t) (c := 0x0A)
  rw [he, control_newline (by omega), h]
  simp

theorem writes_safe_iff : (∀ pre, pre <+: text → Safe (terminalWrite (booted memory) pre)) ↔
    ∀ pre, pre ++ [0x0A] <+: text → (terminalWrite (booted memory) pre).row ≠ 24 := by
  constructor
  · intro h pre hp hr
    have hs := (h _ hp).stores (25 * 80)
    rw [terminalWrite_snoc] at hs
    exact Nat.lt_irrefl _ (hs (newline_stores hr))
  · intro h pre hp
    obtain ⟨hrow, hcol⟩ := write_onScreen memory pre
    refine ⟨?_, hrow, hcol⟩
    induction pre using List.reverseRecOn with
    | nil =>
      rw [terminalWrite_nil]
      exact booted_stores
    | append_singleton pre c ih =>
      have hpre := (List.prefix_append pre [c]).trans hp
      obtain ⟨hr, hc⟩ := write_onScreen memory pre
      rw [terminalWrite_snoc]
      refine putchar_stores_lt hr hc (ih hpre hr hc) ?_
      rintro rfl
      exact h pre hp

lemma newlines_row (memory : ℕ → BitVec 16) {k : ℕ} (hk : k ≤ 24) :
    (terminalWrite (booted memory) (List.replicate k 0x0A)).row = k := by
  induction k with
  | zero => rw [List.replicate_zero, terminalWrite_nil, booted_row]
  | succ k ih =>
    have hrow := ih (by omega)
    rw [List.replicate_succ', terminalWrite_snoc, (putchar_newline (by omega)).1, hrow]
    omega

theorem last_row_newline_unsafe : ¬ ∀ (memory : ℕ → BitVec 16) (text pre : List (BitVec 8)),
    pre <+: text → Safe (terminalWrite (booted memory) pre) := by
  intro h
  have hs := (h (fun _ => 0) _ (List.replicate 25 0x0A) (List.prefix_refl _)).stores (25 * 80)
  rw [List.replicate_succ', terminalWrite_snoc] at hs
  exact Nat.lt_irrefl _ (hs (newline_stores (newlines_row _ (Nat.le_refl _))))

end TinuOS.Monitor
