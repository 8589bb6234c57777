import TinuOS.Library.Output

/-! `printk.c`: the formatted output to a buffer. A string is the list of its characters, and the
position of a loop in a string is what is left of it. -/

namespace TinuOS.Printk

open Library

abbrev Char8 := BitVec 8

def ch (c : Char) : Char8 := BitVec.ofNat 8 c.toNat

def uint32Max : BitVec 32 := 0xffffffff#32

lemma bound_grows {bound base : BitVec 32} (h : bound < uint32Max) (hb : 2 ∣ base.toNat)
    (h0 : 0 < base.toNat) :
    32 - padicValNat 2 ((bound * base + (base - 1#32)).toNat + 1) < 32 - padicValNat 2 (bound.toNat + 1) := by
  have hlt : bound.toNat + 1 < 2 ^ 32 := by
    simp only [uint32Max] at h
    bv_omega
  have hdvd : 2 ^ padicValNat 2 (bound.toNat + 1) ∣ bound.toNat + 1 := pow_padicValNat_dvd
  have hv : padicValNat 2 (bound.toNat + 1) < 32 :=
    (Nat.pow_lt_pow_iff_right (by norm_num)).mp ((Nat.le_of_dvd (Nat.succ_pos _) hdvd).trans_lt hlt)
  have hnext : (bound * base + (base - 1#32)).toNat =
      (bound.toNat * base.toNat + (base.toNat - 1)) % 2 ^ 32 := by
    have hone : (base - 1#32).toNat = base.toNat - 1 := by bv_omega
    rw [BitVec.toNat_add, BitVec.toNat_mul, hone, Nat.mod_add_mod]
  have hpow : 2 ^ (padicValNat 2 (bound.toNat + 1) + 1) ∣ (bound * base + (base - 1#32)).toNat + 1 := by
    have hmul : 2 ^ (padicValNat 2 (bound.toNat + 1) + 1) ∣ (bound.toNat + 1) * base.toNat := by
      rw [pow_succ]
      exact mul_dvd_mul hdvd hb
    have hsum : (bound.toNat + 1) * base.toNat =
        2 ^ 32 * ((bound.toNat * base.toNat + (base.toNat - 1)) / 2 ^ 32) +
          ((bound * base + (base - 1#32)).toNat + 1) := by
      have hdiv := Nat.div_add_mod (bound.toNat * base.toNat + (base.toNat - 1)) (2 ^ 32)
      rw [hnext, ← Nat.add_assoc, hdiv, Nat.add_mul]
      omega
    rw [hsum] at hmul
    exact (Nat.dvd_add_right (Dvd.dvd.mul_right (pow_dvd_pow 2 hv) _)).mp hmul
  have hle : padicValNat 2 (bound.toNat + 1) + 1 ≤
      padicValNat 2 ((bound * base + (base - 1#32)).toNat + 1) :=
    (padicValNat_dvd_iff_le (Nat.succ_ne_zero _)).mp hpow
  omega

def decWidth (va nWidth i : BitVec 32) : BitVec 32 :=
  if i < va ∧ i < uint32Max then decWidth va (nWidth + 1#32) (i * 10#32 + 9#32) else nWidth
termination_by 32 - padicValNat 2 (i.toNat + 1)
decreasing_by
  rename_i h
  exact bound_grows h.2 (by decide) (by decide)

def decPad (nWidth printed argWidth : BitVec 32) (o : Out Char8) : Out Char8 :=
  if nWidth + printed < argWidth then decPad nWidth (printed + 1#32) argWidth (o.put (ch '0')) else o
termination_by (argWidth - (nWidth + printed)).toNat
decreasing_by all_goals bv_omega

def decDigits : ℕ → BitVec 32 → Out Char8 → Out Char8
  | 0, _, o => o
  | i + 1, va, o =>
    let n := va / 10#32
    let r := va % 10#32
    decDigits i n (o.store (o.ptr + (i + 1) - 1) (r.setWidth 8 + ch '0'))

def printDec (va argWidth : BitVec 32) (o : Out Char8) : Out Char8 :=
  let nWidth := decWidth va 1 9
  let o := decPad nWidth 0 argWidth o
  let o := decDigits nWidth.toNat va o
  o.advance nWidth.toNat

def hexWidth (va nWidth j : BitVec 32) : BitVec 32 :=
  if j < va ∧ j < uint32Max then hexWidth va (nWidth + 1#32) (j * 0x10#32 + 0x0F#32) else nWidth
termination_by 32 - padicValNat 2 (j.toNat + 1)
decreasing_by
  rename_i h
  exact bound_grows h.2 (by decide) (by decide)

lemma toInt_sub_one {n i : BitVec 32} (h : n.slt i) : (i - 1#32).toInt = i.toInt - 1 := by
  rw [BitVec.slt_iff_toInt_lt] at h
  have hn := BitVec.le_toInt n
  have hi := BitVec.toInt_lt (x := i)
  have hone : (1#32).toInt = 1 := by decide
  rw [BitVec.toInt_sub, hone]
  apply Int.bmod_eq_of_le <;> omega

def hexPad (nWidth i : BitVec 32) (o : Out Char8) : Out Char8 :=
  if nWidth.slt i then hexPad nWidth (i - 1#32) (o.put (ch '0')) else o
termination_by (i.toInt - nWidth.toInt).toNat
decreasing_by
  rename_i h
  have hi := toInt_sub_one h
  rw [BitVec.slt_iff_toInt_lt] at h
  omega

def hexDigit (n : BitVec 32) : Char8 := ("0123456789abcdef".toList.map ch).getD n.toNat 0

def hexDigits : ℕ → BitVec 32 → Out Char8 → Out Char8
  | 0, _, o => o
  | i + 1, va, o => hexDigits i va (o.put (hexDigit (va >>> (i * 4) &&& 0xF#32)))

def printHex (va argWidth : BitVec 32) (o : Out Char8) : Out Char8 :=
  let i := if argWidth = 0 then 8#32 else argWidth
  let nWidth := hexWidth va 1 0x0F
  let o := hexPad nWidth i o
  hexDigits nWidth.toNat va o

inductive Arg
  | str (s : List Char8)
  | word (v : BitVec 32)
  deriving DecidableEq

def cstr (s : List Char8) : List Char8 := s.takeWhile (· ≠ 0)

def argWidth (w : BitVec 32) : List Char8 → BitVec 32 × List Char8
  | [] => (w, [])
  | c :: fmt =>
    if ch '0' ≤ c ∧ c ≤ ch '9' then argWidth (w + (c - ch '0').setWidth 32) fmt else (w, c :: fmt)

/-- The `switch` of `vasprintf`; there is no result where the next argument is not of the type that
is asked for. -/
def convert (c : Char8) (w : BitVec 32) (args : List Arg) (o : Out Char8) :
    Option (Out Char8 × List Arg) :=
  if c = ch 's' then
    match args with
    | .str s :: args => some ((cstr s).foldl Out.put o, args)
    | _ => none
  else if c = ch 'c' then
    match args with
    | .word v :: args => some (o.put (v.setWidth 8), args)
    | _ => none
  else if c = ch 'x' then
    match args with
    | .word v :: args => some (printHex v w o, args)
    | _ => none
  else if c = ch 'd' then
    match args with
    | .word v :: args => some (printDec v w o, args)
    | _ => none
  else if c = ch '%' then some (o.put (ch '%'), args)
  else some (o.put c, args)

lemma argWidth_length (w : BitVec 32) (fmt : List Char8) : (argWidth w fmt).2.length ≤ fmt.length := by
  induction fmt generalizing w with
  | nil => exact le_rfl
  | cons c fmt ih =>
    rw [argWidth]
    split
    · exact (ih _).trans (Nat.le_succ _)
    · exact le_rfl

def vasprintfLoop : List Char8 → List Arg → Out Char8 → Option (Out Char8)
  | [], _, o => some o
  | c :: fmt, args, o =>
    if c ≠ ch '%' then vasprintfLoop fmt args (o.put c)
    else
      let r := argWidth 0#32 fmt
      (convert (r.2.headD 0) r.1 args o).bind fun (o, args) => vasprintfLoop r.2.tail args o
termination_by fmt => fmt.length
decreasing_by
  · exact Nat.lt_succ_self _
  · have := argWidth_length 0#32 fmt
    simp only [List.length_tail, List.length_cons]
    omega

def vasprintf (buf : ℕ → Char8) (fmt : List Char8) (args : List Arg) : Option (ℕ × Out Char8) :=
  (vasprintfLoop (cstr fmt) args ⟨buf, 0, []⟩).map fun o => (o.ptr, o.store o.ptr 0)

end TinuOS.Printk
