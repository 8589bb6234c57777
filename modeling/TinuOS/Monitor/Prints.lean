import TinuOS.Monitor.WriteHex
import TinuOS.Monitor.Written

/-! Calls of `kprintf` and `terminal_write_hex` one after the other, and the screen behind them. -/

namespace TinuOS.Monitor

open Library Printk

structure Kprintf where
  mem : Memory
  data : BitVec 32
  args : ℕ → BitVec 32
  buf : ℕ → Char8
  text : List Char8
  format : StringAt 0 (mem.bytes data) 0 text
  whole : .conv 0 ∉ directives text

inductive Print
  | kprintf (call : Kprintf)
  | writeHex (n : BitVec 32)

section

variable {σ : Type*} (putchar : σ → Char8 → σ)

def Print.exec : Print → σ → ℕ → Option σ
  | .kprintf p, t, fuel => (Monitor.kprintf putchar p.mem p.data p.args p.buf t fuel).map Printing.terminal
  | .writeHex n, t, _ => some (terminalWriteHex putchar n t)

def printAll : List Print → σ → ℕ → Option σ
  | [], t, _ => some t
  | p :: ps, t, fuel => (p.exec putchar t fuel).bind fun t => printAll ps t fuel

end

def chars (s : String) : List Char8 := s.toList.map ch

/-- Where the program has its strings, and what is on the stack. -/
structure Literals (ss : List String) where
  mem : Memory
  address : String → BitVec 32
  literal_at : ∀ s ∈ ss, StringAt 0 (mem.bytes (address s)) 0 (chars s)
  words : ℕ → BitVec 32
  buf : ℕ → Char8

def Print.output : Print → List Char8
  | .kprintf p => expand p.mem p.args 0 (directives p.text)
  | .writeHex n => numeral 16 n.toNat

variable {σ : Type*} {putchar : σ → Char8 → σ} {ss : List String} {ps : List Print} {t : σ} {memory : ℕ → BitVec 16}

lemma numeral_printable {b n : ℕ} {c : Char8} (hb : 1 < b) (hb' : b ≤ 16) (h : c ∈ numeral b n) :
    Printable c := by
  obtain ⟨d, hd, rfl⟩ := mem_numeral hb hb' h
  have hp : ∀ d < 16, 0x20 ≤ ch (Nat.digitChar d) ∧ ch (Nat.digitChar d) ≤ 0x7E := by decide
  exact hp d hd

lemma directives_plain {cs : List Char8} (h : ch '%' ∉ cs) : directives cs = cs.map .lit := by
  induction cs with
  | nil => simp [directives]
  | cons c cs ih =>
    rw [List.mem_cons, not_or] at h
    rw [directives, if_pos (Ne.symm h.1), ih h.2, List.map_cons]

lemma plain_whole {cs : List Char8} (h : ch '%' ∉ cs) : .conv 0 ∉ directives cs := by
  rw [directives_plain h]
  simp

lemma expand_plain {mem : Memory} {args : ℕ → BitVec 32} {k : ℕ} (cs : List Char8) :
    expand mem args k (cs.map .lit) = cs := by
  induction cs with
  | nil => rfl
  | cons c cs ih => rw [List.map_cons, expand, ih]

def Literals.say (I : Literals ss) (s : String) (h : s ∈ ss) (hp : ch '%' ∉ chars s) : Print :=
  .kprintf ⟨I.mem, I.address s, I.words, I.buf, chars s, I.literal_at s h, plain_whole hp⟩

@[simp] lemma say_output {I : Literals ss} {s : String} (h : s ∈ ss) (hp : ch '%' ∉ chars s) :
    (I.say s h hp).output = chars s := by
  rw [Literals.say, Print.output, directives_plain hp, expand_plain]

section Settled

variable {mem : Memory} {data : BitVec 32} {args : ℕ → BitVec 32} {cells : ℕ → Char8} {p : ℕ} {c : Char8}
  {s : Printing σ}

end Settled

lemma Print.exec_returns (p : Print) (t : σ) : Returns (p.exec putchar t) (p.output.foldl putchar t) := by
  cases p with
  | kprintf p =>
    obtain ⟨s, hrun, hp⟩ := kprintf_printed putchar p.args p.buf t p.format p.whole
    rw [Print.output, ← hp.terminal]
    exact hrun.map Printing.terminal
  | writeHex n =>
    rw [Print.output, ← terminalWriteHex_eq]
    exact ⟨0, fun _ _ => rfl⟩

lemma printAll_returns (ps : List Print) (t : σ) :
    Returns (printAll putchar ps t) ((ps.flatMap Print.output).foldl putchar t) := by
  induction ps generalizing t with
  | nil => exact ⟨0, fun _ _ => rfl⟩
  | cons p ps ih =>
    rw [List.flatMap_cons, List.foldl_append]
    exact (Returns.bind_iff (p.exec_returns t)).mpr (ih _)

theorem printAll_shows (memory : ℕ → BitVec 16) (h : ∀ c ∈ ps.flatMap Print.output, c = 0x0A ∨ Printable c) :
    ∃ t, Returns (printAll terminalPutchar ps (booted memory)) t ∧ Shows t (written (ps.flatMap Print.output)) :=
  ⟨_, printAll_returns ps _, written_shows memory h⟩

lemma directives_line : directives [ch 'A', 0x0A] = [.lit (ch 'A'), .lit 0x0A] := by
  simp [directives, ch]

def oneLine : Kprintf where
  mem := Memory.holding [ch 'A', 0x0A]
  data := 0
  args := fun _ => 0
  buf := fun _ => 0
  text := [ch 'A', 0x0A]
  format := by decide
  whole := by
    rw [directives_line]
    decide

lemma oneLine_output : [Print.kprintf oneLine].flatMap Print.output = [ch 'A', 0x0A] := by
  rw [List.flatMap_singleton, Print.output, oneLine, directives_line]
  rfl

theorem printAll_shows_line : ∃ t, Returns (printAll terminalPutchar [.kprintf oneLine] (booted fun _ => 0)) t ∧
    Shows t (written ([Print.kprintf oneLine].flatMap Print.output)) :=
  printAll_shows (fun _ => 0) (by
    rw [oneLine_output, List.forall_mem_cons, List.forall_mem_singleton]
    exact ⟨Or.inr ⟨by decide, by decide⟩, Or.inl rfl⟩)

end TinuOS.Monitor
