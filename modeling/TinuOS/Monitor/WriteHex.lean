import TinuOS.Library.Word
import TinuOS.Monitor.Expansion

/-! `terminal_write_hex` prints what `kprintf` prints for `%x`. -/

namespace TinuOS.Monitor

open Library Printk

variable {σ : Type*} {putchar : σ → Char8 → σ} {n : BitVec 32} {t : σ} {i : ℕ}

lemma hexChar_nibble (n : BitVec 32) (k : ℕ) :
    hexChar (n >>> (4 * k) &&& 0xF#32) = ch (Nat.digitChar (n.toNat / 16 ^ k % 16)) := by
  rw [nibble_eq (by decide)]
  have hlt := Nat.mod_lt (n.toNat / 16 ^ k) (by decide : 0 < 16)
  generalize n.toNat / 16 ^ k % 16 = r at hlt
  revert r
  decide

lemma nibble_eq_zero_iff (n : BitVec 32) (k : ℕ) :
    n >>> (4 * k) &&& 0xF#32 = 0 ↔ n.toNat / 16 ^ k % 16 = 0 := by
  have hlt := Nat.mod_lt (n.toNat / 16 ^ k) (by decide : 0 < 16)
  rw [nibble_eq (by decide)]
  constructor
  · intro h
    have h0 := congrArg BitVec.toNat h
    rwa [BitVec.toNat_ofNat, Nat.mod_eq_of_lt (hlt.trans (by decide))] at h0
  · intro h
    rw [h]
    rfl

lemma div_place (m i : ℕ) : m / 16 ^ (i + 1) = m / 16 / 16 ^ i := by
  rw [pow_succ', Nat.div_div_eq_div_mul]

lemma writeHexLoop_rest : writeHexLoop putchar n i false t =
    ((lowDigits 16 i (n.toNat / 16)).map ch).foldl putchar t := by
  induction i generalizing t with
  | zero => rfl
  | succ i ih =>
    rw [writeHexLoop, if_neg (fun h => Bool.false_ne_true h.2), ih, hexChar_nibble, div_place,
      lowDigits_succ, List.map_cons, List.foldl_cons]

lemma writeHexLoop_first (h : n.toNat / 16 < 16 ^ i) : writeHexLoop putchar n i true t =
    (if n.toNat / 16 = 0 then [] else numeral 16 (n.toNat / 16)).foldl putchar t := by
  induction i generalizing t with
  | zero =>
    rw [if_pos (by simpa using h)]
    rfl
  | succ i ih =>
    have hpos : 0 < 16 ^ i := Nat.pow_pos (by decide)
    have htop : n.toNat / 16 / 16 ^ i < 16 := Nat.div_lt_of_lt_mul (by rwa [← pow_succ])
    have hzero := nibble_eq_zero_iff n (i + 1)
    rw [div_place, Nat.mod_eq_of_lt htop] at hzero
    rw [writeHexLoop]
    by_cases hlt : n.toNat / 16 < 16 ^ i
    · rw [if_pos ⟨hzero.mpr (Nat.div_eq_of_lt hlt), rfl⟩]
      exact ih hlt
    · have hne : n.toNat / 16 / 16 ^ i ≠ 0 := (Nat.div_pos (not_lt.mp hlt) hpos).ne'
      have hleast : ∀ j, 0 < j → j < i + 1 → 16 ^ j ≤ n.toNat / 16 := fun j _ hj =>
        (Nat.pow_le_pow_right (by decide) (Nat.le_of_lt_succ hj)).trans (not_lt.mp hlt)
      have hlen : (Nat.toDigits 16 (n.toNat / 16)).length = i + 1 :=
        length_toDigits_eq (by decide) (Nat.succ_pos i) h hleast
      have hdigits := lowDigits_length_toDigits (by decide : 1 < 16) (n.toNat / 16)
      rw [hlen] at hdigits
      have h0 : n.toNat / 16 ≠ 0 := fun h0 => hne (by rw [h0, Nat.zero_div])
      rw [if_neg fun hz => hne (hzero.mp hz.1), writeHexLoop_rest, hexChar_nibble, div_place,
        if_neg h0, numeral, ← hdigits, lowDigits_succ, List.map_cons, List.foldl_cons]

lemma terminalWriteHex_eq : terminalWriteHex putchar n t = (numeral 16 n.toNat).foldl putchar t := by
  have hlast : hexChar (n &&& 0xF#32) = ch (Nat.digitChar (n.toNat % 16)) := by
    simpa using hexChar_nibble n 0
  have hbound : n.toNat / 16 < 16 ^ 7 := Nat.div_lt_of_lt_mul (n.isLt.trans_le (by decide))
  rw [terminalWriteHex, writeHexLoop_first hbound, hlast]
  split_ifs with h0
  · have hlt : n.toNat < 16 := by omega
    rw [numeral, Nat.toDigits_of_lt_base hlt, Nat.mod_eq_of_lt hlt]
    rfl
  · have hle : 16 ≤ n.toNat := by omega
    rw [numeral, numeral, Nat.toDigits_of_base_le (by decide) hle, List.map_append, List.foldl_append]
    rfl

theorem terminalWriteHex_kprintf (putchar : σ → Char8 → σ) {mem : Memory} {data : BitVec 32}
    (args : ℕ → BitVec 32) (buf : ℕ → Char8) (t : σ)
    (hf : StringAt 0 (mem.bytes data) 0 [ch '%', ch 'x']) :
    ∃ s, Returns (kprintf putchar mem data args buf t) s ∧
      s.terminal = terminalWriteHex putchar (args 0) t := by
  have hd : directives [ch '%', ch 'x'] = [.conv (ch 'x')] := by simp [directives]
  have hcut : .conv 0 ∉ directives [ch '%', ch 'x'] := by
    rw [hd]
    decide
  obtain ⟨s, hrun, hp⟩ := kprintf_printed putchar args buf t hf hcut
  refine ⟨s, hrun, ?_⟩
  rw [hp.terminal, terminalWriteHex_eq, hd, expand, expand, List.append_nil]
  rfl

theorem terminalWriteHex_kprintf_word : ∃ s,
    Returns (kprintf (fun t c => t ++ [c]) (Memory.holding [ch '%', ch 'x']) 0 (fun _ => 0x10C00)
      (fun _ => 0) []) s ∧ s.terminal = terminalWriteHex (fun t c => t ++ [c]) 0x10C00 [] :=
  terminalWriteHex_kprintf (fun t c => t ++ [c]) (fun _ => 0x10C00) (fun _ => 0) [] (by decide)

end TinuOS.Monitor
