import TinuOS.Library.Reverse
import TinuOS.Printk.Model

/-! `monitor.c`: the formatted output to the terminal, for any `terminal_putchar`. The arguments of
`kprintf` are the words behind `data` on the stack. -/

namespace TinuOS.Monitor

open Library Printk

abbrev Memory := BitVec 32 → Char8

def Memory.bytes (mem : Memory) (p : BitVec 32) (i : ℕ) : Char8 := mem (p + BitVec.ofNat 32 i)

def divisor (base : Char8) : BitVec 32 := if base = ch 'x' then 16#32 else 10#32

lemma one_lt_divisor (base : Char8) : 1 < (divisor base).toNat := by
  rw [divisor]
  split <;> decide

lemma udiv_lt {ud v : BitVec 32} (hv : 1 < v.toNat) (h : ud / v ≠ 0) : (ud / v).toNat < ud.toNat := by
  have hpos : 0 < ud.toNat := by
    refine Nat.pos_of_ne_zero fun h0 => h ?_
    apply BitVec.eq_of_toNat_eq
    rw [BitVec.toNat_udiv, h0, Nat.zero_div]
    rfl
  rw [BitVec.toNat_udiv]
  exact Nat.div_lt_self hpos hv

def itoaDigit (remainder : BitVec 32) : Char8 :=
  if remainder < 10#32 then remainder.setWidth 8 + ch '0' else remainder.setWidth 8 + ch 'a' - 10#8

def itoaDigits (base : Char8) (ud : BitVec 32) (p : Out Char8) : Out Char8 :=
  let p := p.put (itoaDigit (ud % divisor base))
  let ud' := ud / divisor base
  if ud' ≠ 0 then itoaDigits base ud' p else p
termination_by ud.toNat
decreasing_by
  rename_i h
  exact udiv_lt (one_lt_divisor base) h

def itoaUnsigned (buf : Out Char8) (base : Char8) (ud : BitVec 32) : Out Char8 :=
  let p := itoaDigits base ud buf
  (p.store p.ptr 0).reverse buf.ptr (p.ptr - 1)

def itoa (buf : Out Char8) (base : Char8) (d : BitVec 32) : Out Char8 :=
  if base = ch 'd' ∧ d.slt 0 then itoaUnsigned (buf.put (ch '-')) base (-d)
  else itoaUnsigned buf base d

section

variable {σ : Type*} (putchar : σ → Char8 → σ)

def hexChar (tmp : BitVec 32) : Char8 :=
  if 0xA#32 ≤ tmp then tmp.setWidth 8 - 0xA#8 + ch 'a' else tmp.setWidth 8 + ch '0'

def writeHexLoop (n : BitVec 32) : ℕ → Bool → σ → σ
  | 0, _, t => t
  | i + 1, noZeroes, t =>
    let tmp := n >>> (4 * (i + 1)) &&& 0xF#32
    if tmp = 0 ∧ noZeroes then writeHexLoop n i noZeroes t
    else writeHexLoop n i false (putchar t (hexChar tmp))

def terminalWriteHex (n : BitVec 32) (t : σ) : σ :=
  putchar (writeHexLoop putchar n 7 true t) (hexChar (n &&& 0xF#32))

/-- The variables of `kprintf`, with the indices of the bytes read through `data`. -/
structure Printing (σ : Type*) where
  data : ℕ
  arg : ℕ
  buf : Out Char8
  reads : List ℕ
  terminal : σ

def Printing.advance (s : Printing σ) : Printing σ :=
  { s with data := s.data + 1, reads := s.reads ++ [s.data] }

def putString : ℕ → (ℕ → Char8) → ℕ → σ → Option σ
  | 0, _, _, _ => none
  | fuel + 1, cells, p, t =>
    if cells p ≠ 0 then putString fuel cells (p + 1) (putchar t (cells p)) else some t

def nullText : List Char8 := "(null)".toList.map ch

variable (mem : Memory) (data : BitVec 32) (args : ℕ → BitVec 32)

def kprintfSwitch (fuel : ℕ) (c : Char8) (s : Printing σ) : Option (Printing σ) :=
  let word := args s.arg
  let s := { s with arg := s.arg + 1 }
  if c = ch 'd' ∨ c = ch 'u' ∨ c = ch 'x' then
    let s := { s with buf := itoa ⟨s.buf.cells, 0, s.buf.stores⟩ c word }
    (putString putchar fuel s.buf.cells 0 s.terminal).map fun t => { s with terminal := t }
  else if c = ch 's' then
    let p := if word = 0 then (nullText.getD · 0) else mem.bytes word
    (putString putchar fuel p 0 s.terminal).map fun t => { s with terminal := t }
  else some { s with terminal := putchar s.terminal (word.setWidth 8) }

def kprintfLoop : ℕ → Printing σ → Option (Printing σ)
  | 0, _ => none
  | fuel + 1, s =>
    let c := mem.bytes data s.data
    let s := s.advance
    if c = 0 then some s
    else if c ≠ ch '%' then kprintfLoop fuel { s with terminal := putchar s.terminal c }
    else (kprintfSwitch putchar mem args fuel (mem.bytes data s.data) s.advance).bind (kprintfLoop fuel)

/-- The content of `buf` is whatever the stack held. -/
def kprintf (buf : ℕ → Char8) (t : σ) (fuel : ℕ) : Option (Printing σ) :=
  kprintfLoop putchar mem data args fuel ⟨0, 0, ⟨buf, 0, []⟩, [], t⟩

end

end TinuOS.Monitor
