import TinuOS.Printk.Decimal

/-! The field that `print_hex` writes is the padded hexadecimal numeral of its argument. -/

namespace TinuOS.Printk

open Library Out

lemma hexDigit_nibble (va : BitVec 32) (k : ℕ) :
    hexDigit (va >>> (k * 4) &&& 0xF#32) = ch (Nat.digitChar (va.toNat / 16 ^ k % 16)) := by
  have hlt := Nat.mod_lt (va.toNat / 16 ^ k) (by decide : 0 < 16)
  rw [Nat.mul_comm k 4, nibble_eq (by decide)]
  generalize va.toNat / 16 ^ k % 16 = d at hlt
  revert d
  decide

lemma hexText_eq (k : ℕ) (va : BitVec 32) : hexText k va = (lowDigits 16 k va.toNat).map ch := by
  induction k with
  | zero => rfl
  | succ k ih => rw [hexText, hexDigit_nibble, ih, lowDigits_succ, List.map_cons]

lemma hexLength_eq (va : BitVec 32) : hexLength va = (numeral 16 va.toNat).length := by
  obtain ⟨hpos, -, hbound, hleast⟩ := hexLength_spec va
  rw [numeral, List.length_map]
  exact (length_toDigits_eq (by decide) hpos hbound hleast).symm

lemma hexField_eq (va : BitVec 32) (k : ℕ) :
    hexField va k = padded (if k = 0 then 8 else k) (numeral 16 va.toNat) := by
  have hdigits : hexText (hexLength va) va = numeral 16 va.toNat := by
    rw [hexText_eq, hexLength_eq, numeral, List.length_map, lowDigits_length_toDigits (by decide)]
  rw [hexField, hdigits, hexLength_eq, padded]

theorem printHex_padded (va : BitVec 32) {w : BitVec 32} (hw : 0 ≤ w.toInt) (o : Out Char8) :
    let width := if w.toNat = 0 then 8 else w.toNat
    let field := padded width (numeral 16 va.toNat)
    o.Wrote (printHex va w o) field ∧
    (printHex va w o).stores = o.stores ++ List.range' o.ptr field.length ∧
    (printHex va w o).ptr = o.ptr + max width (numeral 16 va.toNat).length := by
  intro width field
  have hfield : printHex va w o = field.foldl Out.put o := by
    rw [printHex_field hw, hexField_eq]
  have hwrote : o.Wrote (printHex va w o) field := by
    rw [hfield]
    exact wrote_foldl_put
  refine ⟨hwrote, ?_, ?_⟩
  · rw [hfield]
    exact foldl_put_stores
  · rw [hwrote.ptr, padded_length]

theorem printHex_padded_wide : let field := padded 10 (numeral 16 48879)
    let o : Out Char8 := ⟨fun _ => 0, 3, []⟩
    o.Wrote (printHex 0xBEEF 10 o) field ∧
    (printHex 0xBEEF 10 o).stores = o.stores ++ List.range' o.ptr field.length ∧
    (printHex 0xBEEF 10 o).ptr = o.ptr + max 10 (numeral 16 48879).length :=
  printHex_padded 0xBEEF (by decide) ⟨fun _ => 0, 3, []⟩

end TinuOS.Printk
