import TinuOS.Library.Numeral
import TinuOS.Printk.Numbers

/-! When the field that `print_dec` writes is the decimal numeral of its argument. -/

namespace TinuOS.Printk

open Library Out

def numeral (b n : ℕ) : List Char8 := (Nat.toDigits b n).map ch

def padded (w : ℕ) (s : List Char8) : List Char8 := List.replicate (w - s.length) (ch '0') ++ s

def decBound (k : ℕ) : ℕ := (10 ^ k - 1) % 2 ^ 32

variable {va n i w : BitVec 32} {k : ℕ} {o o' : Out Char8} {s : List Char8}

@[simp] lemma padded_length : (padded k s).length = max k s.length := by
  rw [padded, List.length_append, List.length_replicate]
  omega

lemma decText_eq (k : ℕ) (va : BitVec 32) : decText k va = (lowDigits 10 k va.toNat).map ch := by
  induction k generalizing va with
  | zero => rfl
  | succ k ih =>
    have hd : (va % 10#32).setWidth 8 + ch '0' = ch (Nat.digitChar (va.toNat % 10)) := by
      have hlt := Nat.mod_lt va.toNat (by decide : 0 < 10)
      have hm : (va % 10#32).setWidth 8 = BitVec.ofNat 8 (va.toNat % 10) := by
        apply BitVec.eq_of_toNat_eq
        simp [BitVec.toNat_umod]
      rw [hm]
      generalize va.toNat % 10 = d at hlt
      revert d
      decide
    rw [decText, ih, lowDigits, List.map_append, List.map_singleton, hd, BitVec.toNat_udiv]
    rfl

lemma decBound_succ (k : ℕ) : (decBound k * 10 + 9) % 2 ^ 32 = decBound (k + 1) := by
  have hpos : 0 < 10 ^ k := Nat.pow_pos (by decide)
  rw [decBound, decBound, Nat.add_mod, Nat.mod_mul_mod, ← Nat.add_mod, pow_succ]
  congr 1
  omega

lemma decBound_lt (k : ℕ) : decBound k < 10 ^ k := by
  have hpos : 0 < 10 ^ k := Nat.pow_pos (by decide)
  exact (Nat.mod_le _ _).trans_lt (by omega)

lemma decWidth_spec (hn : 0 < n.toNat) (hn' : n.toNat ≤ 32) (hi : i.toNat = decBound n.toNat) :
    n.toNat ≤ (decWidth va n i).toNat ∧ va.toNat ≤ decBound (decWidth va n i).toNat ∧
    ∀ k, n.toNat ≤ k → k < (decWidth va n i).toNat → decBound k < va.toNat := by
  fun_induction decWidth va n i with
  | case1 n i h ih =>
    obtain ⟨hva, hmax⟩ := h
    have hlt : n.toNat < 32 := by
      refine lt_of_le_of_ne hn' fun h32 => ?_
      have hb : decBound 32 = 2 ^ 32 - 1 := by decide
      rw [h32, hb] at hi
      simp only [uint32Max] at hmax
      bv_omega
    have hn1 : (n + 1#32).toNat = n.toNat + 1 := by bv_omega
    have hnext : (i * 10#32 + 9#32).toNat = decBound (n + 1#32).toNat := by
      rw [hn1, ← decBound_succ, ← hi, BitVec.toNat_add, BitVec.toNat_mul]
      simp
    obtain ⟨hle, hbound, hleast⟩ := ih (by omega) (by omega) hnext
    refine ⟨by omega, hbound, fun k hk hk' => ?_⟩
    rcases hk.eq_or_lt with rfl | hk
    · rw [← hi]
      exact hva
    · exact hleast k (by omega) hk'
  | case2 n i h =>
    refine ⟨le_rfl, ?_, fun k hk hk' => by omega⟩
    rw [← hi]
    simp only [uint32Max] at h
    bv_omega

lemma decLength_spec (va : BitVec 32) : 0 < decLength va ∧ va.toNat ≤ decBound (decLength va) ∧
    ∀ k, 0 < k → k < decLength va → decBound k < va.toNat :=
  decWidth_spec (n := 1) (i := 9) (by decide) (by decide) (by decide)

lemma numeral_length_le {b m : ℕ} (hb : 1 < b) (hk : 0 < k) : (numeral b m).length ≤ k ↔ m < b ^ k := by
  rw [numeral, List.length_map, Nat.length_toDigits_le_iff hb hk]

lemma numeral_length_pos (b m : ℕ) : 0 < (numeral b m).length := by
  rw [numeral, List.length_map]
  exact Nat.length_toDigits_pos

lemma numeral_le_decLength (va : BitVec 32) : (numeral 10 va.toNat).length ≤ decLength va := by
  obtain ⟨hpos, hbound, -⟩ := decLength_spec va
  exact (numeral_length_le (by decide) hpos).mpr (hbound.trans_lt (decBound_lt _))

lemma decLength_eq_iff (va : BitVec 32) :
    decLength va = (numeral 10 va.toNat).length ↔ va ≤ 1410065407#32 := by
  obtain ⟨hpos, hbound, hleast⟩ := decLength_spec va
  have hle := numeral_le_decLength va
  have hlen : (numeral 10 va.toNat).length ≤ 10 := (numeral_length_le (by decide) (by decide)).mpr (by bv_omega)
  constructor
  · intro he
    have hmax : ∀ k ≤ 10, decBound k ≤ 1410065407 := by decide
    exact BitVec.le_def.mpr (hbound.trans (hmax _ (he ▸ hlen)))
  · intro hva
    replace hva : va.toNat ≤ 1410065407 := BitVec.le_def.mp hva
    refine le_antisymm (Nat.le_of_not_lt fun hlt => ?_) hle
    have hlast := hleast _ (numeral_length_pos 10 _) hlt
    have hnum := (numeral_length_le (by decide) (numeral_length_pos 10 va.toNat)).mp le_rfl
    generalize (numeral 10 va.toNat).length = L at hlen hlast hnum
    have hwhole : ∀ L ≤ 10, 10 ^ L ≤ decBound L + 1 ∨ 1410065407 ≤ decBound L := by decide
    rcases hwhole L hlen with h | h <;> omega

lemma decField_eq_iff (va : BitVec 32) (k : ℕ) :
    decField va k = padded k (numeral 10 va.toNat) ↔ va ≤ 1410065407#32 ∨ decLength va ≤ k := by
  obtain ⟨hpos, hbound, -⟩ := decLength_spec va
  have hle := numeral_le_decLength va
  have hdigits : decText (decLength va) va =
      List.replicate (decLength va - (numeral 10 va.toNat).length) (ch '0') ++ numeral 10 va.toNat := by
    rw [decText_eq, lowDigits_eq_toDigits (by decide) hpos (hbound.trans_lt (decBound_lt _)),
      List.map_append, List.map_replicate, numeral, List.length_map]
  rw [decField, hdigits, ← List.append_assoc, ← List.replicate_add, padded, pad_eq_iff,
    ← decLength_eq_iff]
  omega

lemma printDec_padded {va w : BitVec 32} {o : Out Char8} :
    o.Wrote (printDec va w o) (padded w.toNat (numeral 10 va.toNat)) ↔
      va ≤ 1410065407#32 ∨ decLength va ≤ w.toNat := by
  rw [← decField_eq_iff]
  exact ⟨fun h => printDec_wrote.unique h, fun h => h ▸ printDec_wrote⟩

theorem printDec_padded_iff (va w : BitVec 32) (o : Out Char8) :
    o.Wrote (printDec va w o) (padded w.toNat (numeral 10 va.toNat)) ↔
      va ≤ 1410065407#32 ∨ ∃ k ≤ w.toNat, va.toNat ≤ (10 ^ k - 1) % 2 ^ 32 := by
  obtain ⟨-, hbound, hleast⟩ := decLength_spec va
  rw [printDec_padded]
  constructor
  · rintro (h | h)
    · exact Or.inl h
    · exact Or.inr ⟨_, h, hbound⟩
  · rintro (h | ⟨k, hk, hva⟩)
    · exact Or.inl h
    · rcases Nat.eq_zero_or_pos k with rfl | hpos
      · left
        simp only [pow_zero, Nat.sub_self, Nat.zero_mod] at hva
        bv_omega
      · right
        by_contra hlt
        exact absurd (hleast k hpos (by omega)) (not_lt.mpr hva)

theorem two_billion_zero_padded : ¬ ∀ (va w : BitVec 32) (o : Out Char8),
    o.Wrote (printDec va w o) (padded w.toNat (numeral 10 va.toNat)) := by
  intro h
  rcases printDec_padded.mp (h 2000000000 0 ⟨fun _ => 0, 0, []⟩) with hva | hw
  · exact absurd hva (by decide)
  · exact absurd hw (not_le.mpr (decLength_spec _).1)

end TinuOS.Printk
