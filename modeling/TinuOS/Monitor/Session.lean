import TinuOS.Monitor.Cursor

/-! The states of the terminal that any sequence of calls leads to. -/

namespace TinuOS.Monitor

inductive Call
  | init
  | setcolor (color : BitVec 8)
  | putentryat (c color : BitVec 8) (x y : ℕ)
  | putchar (c : BitVec 8)

namespace Terminal

def exec (t : Terminal) : Call → Terminal
  | .init => terminalInitialize t
  | .setcolor color => terminalSetcolor t color
  | .putentryat c color x y => terminalPutentryat t c color x y
  | .putchar c => terminalPutchar t c

def after (t : Terminal) (calls : List Call) : Terminal := calls.foldl exec t

def OnScreen (t : Terminal) : Prop := t.row < 25 ∧ t.column < 80

end Terminal

variable {t : Terminal} {c : BitVec 8} {call : Call} {calls : List Call}

lemma after_nil : t.after [] = t := rfl

lemma after_snoc : t.after (calls ++ [call]) = (t.after calls).exec call := List.foldl_concat ..

lemma after_putchar {text : List (BitVec 8)} : t.after (text.map .putchar) = terminalWrite t text :=
  List.foldl_map ..

lemma terminalInitialize_onScreen (t : Terminal) : (terminalInitialize t).OnScreen := by
  obtain ⟨hr, hc, -⟩ := foldl_storeLoop (fun y => List.range' (y * vgaWidth) vgaWidth)
    (fun t _ => vgaEntry 0x20 t.attrib) (List.range vgaHeight)
    { t with row := 0, column := 0, attrib := vgaEntryColor vgaColorLightGreen vgaColorBlack }
  exact ⟨hr.trans_lt Nat.succ_pos', hc.trans_lt Nat.succ_pos'⟩

lemma booted_onScreen (memory : ℕ → BitVec 16) : (booted memory).OnScreen := by
  rw [Terminal.OnScreen, booted_row, booted_column]
  omega

lemma exec_onScreen (h : t.OnScreen) : (t.exec call).OnScreen := by
  cases call with
  | init => exact terminalInitialize_onScreen t
  | setcolor color => exact h
  | putentryat c color x y => exact h
  | putchar c => exact putchar_onScreen h.1 h.2

lemma Terminal.OnScreen.after (h : t.OnScreen) : (t.after calls).OnScreen := by
  induction calls generalizing t with
  | nil => exact h
  | cons call calls ih => exact ih (exec_onScreen h)

lemma Terminal.OnScreen.write (h : t.OnScreen) {text : List (BitVec 8)} : (terminalWrite t text).OnScreen := by
  rw [← after_putchar]
  exact h.after

lemma after_onScreen (memory : ℕ → BitVec 16) (calls : List Call) :
    ((booted memory).after calls).OnScreen := (booted_onScreen memory).after

end TinuOS.Monitor
