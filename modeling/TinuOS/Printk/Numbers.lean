import TinuOS.Library.Word
import TinuOS.Printk.Model

/-! What `print_dec` and `print_hex` append to the buffer. -/

namespace TinuOS.Printk

open Library Out

def decText : ℕ → BitVec 32 → List Char8
  | 0, _ => []
  | i + 1, va => decText i (va / 10#32) ++ [(va % 10#32).setWidth 8 + ch '0']

def hexText : ℕ → BitVec 32 → List Char8
  | 0, _ => []
  | i + 1, va => hexDigit (va >>> (i * 4) &&& 0xF#32) :: hexText i va

def decLength (va : BitVec 32) : ℕ := (decWidth va 1 9).toNat

def hexLength (va : BitVec 32) : ℕ := (hexWidth va 1 0x0F).toNat

def decField (va : BitVec 32) (w : ℕ) : List Char8 :=
  List.replicate (w - decLength va) (ch '0') ++ decText (decLength va) va

def hexField (va : BitVec 32) (w : ℕ) : List Char8 :=
  List.replicate ((if w = 0 then 8 else w) - hexLength va) (ch '0') ++ hexText (hexLength va) va

variable {va n w i j p : BitVec 32} {k : ℕ} {o : Out Char8}

@[simp] lemma decText_length : (decText k va).length = k := by
  induction k generalizing va with
  | zero => rfl
  | succ k ih => rw [decText, List.length_append, ih, List.length_singleton]

lemma decPad_wrote :
    o.Wrote (decPad n p w o) (List.replicate (w.toNat - (n + p).toNat) (ch '0')) := by
  fun_induction decPad n p w o with
  | case1 p o h ih =>
    have hk : w.toNat - (n + p).toNat = w.toNat - (n + (p + 1#32)).toNat + 1 := by bv_omega
    rw [hk, List.replicate_succ]
    exact wrote_put.trans ih
  | case2 p o h =>
    have hk : w.toNat - (n + p).toNat = 0 := by bv_omega
    rw [hk]
    exact wrote_nil

lemma hexPad_eq :
    hexPad n i o = (List.replicate (i.toInt - n.toInt).toNat (ch '0')).foldl Out.put o := by
  fun_induction hexPad n i o with
  | case1 i o h ih =>
    have hi := toInt_sub_one h
    rw [BitVec.slt_iff_toInt_lt] at h
    have hk : (i.toInt - n.toInt).toNat = ((i - 1#32).toInt - n.toInt).toNat + 1 := by omega
    rw [hk, List.replicate_succ, List.foldl_cons, ih]
  | case2 i o h =>
    rw [BitVec.slt_iff_toInt_lt] at h
    have hk : (i.toInt - n.toInt).toNat = 0 := by omega
    rw [hk]
    rfl

lemma decDigits_wrote : o.Wrote ((decDigits k va o).advance k) (decText k va) := by
  induction k generalizing va o with
  | zero => exact wrote_nil
  | succ k ih =>
    have h := @ih (va / 10#32) (o.store (o.ptr + k) ((va % 10#32).setWidth 8 + ch '0'))
    exact Wrote.ahead (by rwa [decText_length])

lemma hexDigits_eq : hexDigits k va o = (hexText k va).foldl Out.put o := by
  induction k generalizing o with
  | zero => rfl
  | succ k ih => rw [hexDigits, ih, hexText, List.foldl_cons]

lemma printDec_wrote : o.Wrote (printDec va w o) (decField va w.toNat) := by
  have hpad := decPad_wrote (n := decWidth va 1 9) (p := 0#32) (w := w) (o := o)
  rw [BitVec.add_zero] at hpad
  exact hpad.trans decDigits_wrote

lemma printHex_eq (va w : BitVec 32) (o : Out Char8) : printHex va w o = (List.replicate
    ((if w = 0 then 8#32 else w).toInt - (hexWidth va 1 0x0F).toInt).toNat (ch '0') ++
      hexText (hexLength va) va).foldl Out.put o := by
  rw [List.foldl_append, ← hexPad_eq, ← hexDigits_eq]
  rfl

lemma printHex_wrote (va w : BitVec 32) (o : Out Char8) : o.Wrote (printHex va w o) (List.replicate
    ((if w = 0 then 8#32 else w).toInt - (hexWidth va 1 0x0F).toInt).toNat (ch '0') ++
      hexText (hexLength va) va) := by
  rw [printHex_eq]
  exact wrote_foldl_put

lemma hexWidth_spec (hn : n.toNat ≤ 8) (hj : j.toNat + 1 = 16 ^ n.toNat) :
    n.toNat ≤ (hexWidth va n j).toNat ∧ (hexWidth va n j).toNat ≤ 8 ∧
    va.toNat < 16 ^ (hexWidth va n j).toNat ∧
    ∀ k, n.toNat ≤ k → k < (hexWidth va n j).toNat → 16 ^ k ≤ va.toNat := by
  fun_induction hexWidth va n j with
  | case1 n j h ih =>
    have hlt : j.toNat + 1 < 16 ^ 8 := by
      have hmax := h.2
      simp only [uint32Max] at hmax
      bv_omega
    have hn8 : n.toNat < 8 := (Nat.pow_lt_pow_iff_right (by norm_num)).mp (hj ▸ hlt)
    have hn1 : (n + 1#32).toNat = n.toNat + 1 := by bv_omega
    have hpow : j.toNat + 1 ≤ 16 ^ 7 := hj ▸ Nat.pow_le_pow_right (by norm_num) (by omega)
    have hnext : (j * 0x10#32 + 0x0F#32).toNat = j.toNat * 16 + 15 := by bv_omega
    have hj1 : (j * 0x10#32 + 0x0F#32).toNat + 1 = 16 ^ (n + 1#32).toNat := by
      rw [hn1, hnext, pow_succ, ← hj]
      omega
    obtain ⟨hle, h8, hbound, hleast⟩ := ih (by omega) hj1
    refine ⟨by omega, h8, hbound, fun k hk hk' => ?_⟩
    rcases hk.eq_or_lt with rfl | hk
    · rw [← hj]
      exact h.1
    · exact hleast k (by omega) hk'
  | case2 n j h =>
    refine ⟨le_rfl, hn, ?_, fun k hk hk' => by omega⟩
    rw [← hj]
    simp only [uint32Max] at h
    bv_omega

lemma hexLength_spec (va : BitVec 32) : 0 < hexLength va ∧ hexLength va ≤ 8 ∧ va.toNat < 16 ^ hexLength va ∧
    ∀ k, 0 < k → k < hexLength va → 16 ^ k ≤ va.toNat :=
  hexWidth_spec (n := 1) (j := 0x0F) (by decide) (by decide)

lemma hexLength_le (va : BitVec 32) : hexLength va ≤ 8 := (hexLength_spec va).2.1

lemma hexWidth_toInt (va : BitVec 32) : (hexWidth va 1 0x0F).toInt = hexLength va := by
  have h := hexLength_le va
  rw [hexLength] at h ⊢
  exact BitVec.toInt_eq_toNat_of_lt (by omega)

lemma hexPad_length (hw : 0 ≤ w.toInt) :
    ((if w = 0 then 8#32 else w).toInt - (hexWidth va 1 0x0F).toInt).toNat =
      (if w.toNat = 0 then 8 else w.toNat) - hexLength va := by
  rw [hexWidth_toInt]
  by_cases h0 : w = 0
  · have hn : w.toNat = 0 := by
      rw [h0]
      rfl
    have h8 : (8#32).toInt = 8 := by decide
    rw [if_pos h0, if_pos hn, h8]
    omega
  · have hn : w.toNat ≠ 0 := fun hn => h0 (BitVec.eq_of_toNat_eq hn)
    rw [if_neg h0, if_neg hn, toInt_of_nonneg hw, Int.toNat_sub]

lemma printHex_field (hw : 0 ≤ w.toInt) : printHex va w o = (hexField va w.toNat).foldl Out.put o := by
  rw [printHex_eq, hexPad_length hw, hexField]

end TinuOS.Printk
