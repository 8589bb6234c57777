import TinuOS.System.Model

/-! When `strcpy` comes back and when `strncpy` ends its copy, for strings that may overlap with it. -/

namespace TinuOS.System

open Library Mem

variable {m : Mem} {dest src a : Addr} {L n i k fuel : ℕ}

structure Ends (m : Mem) (a : Addr) (L : ℕ) : Prop where
  lt : L < 2 ^ 32
  null : m.byte (a + BitVec.ofNat 32 L) = 0
  before : ∀ j < L, m.byte (a + BitVec.ofNat 32 j) ≠ 0

def Reached (dest src : Addr) (L : ℕ) : Prop := dest = src ∨ L < (dest - src).toNat

lemma exists_ends_le (hi : i < 2 ^ 32) (h : m.byte (a + BitVec.ofNat 32 i) = 0) : ∃ L ≤ i, Ends m a L := by
  classical
  have hex : ∃ j, m.byte (a + BitVec.ofNat 32 j) = 0 := ⟨i, h⟩
  have hle : Nat.find hex ≤ i := Nat.find_min' hex h
  exact ⟨Nat.find hex, hle, hle.trans_lt hi, Nat.find_spec hex, fun j hj => Nat.find_min hex hj⟩

lemma ofNat_succ (i : ℕ) : BitVec.ofNat 32 i + 1 = BitVec.ofNat 32 (i + 1) := (BitVec.ofNat_add i 1).symm

lemma Reached.mod (h : Reached dest src L) (hi : i ≤ L) : i % (dest - src).toNat = i := by
  rcases h with rfl | h
  · rw [BitVec.sub_self, BitVec.toNat_zero, Nat.mod_zero]
  · exact Nat.mod_eq_of_lt (by omega)

lemma strcpyLoop_ends (he : Ends m src L) (hr : Reached dest src L) (hi : i ≤ L) (hf : L < fuel + i) :
    strcpyLoop dest src fuel (m.copied dest src i) (BitVec.ofNat 32 i) = some (m.copied dest src (L + 1)) := by
  have hlt := he.lt
  induction fuel generalizing i with
  | zero => omega
  | succ fuel ih =>
    rw [strcpyLoop, copied_succ (by omega), copied_source (by omega), hr.mod hi]
    rcases Nat.lt_or_ge i L with hiL | hiL
    · rw [if_pos (he.before i hiL), ofNat_succ]
      exact ih (by omega) (by omega)
    · obtain rfl : i = L := by omega
      rw [if_neg (not_not.mpr he.null)]

lemma strcpy_ends (he : Ends m src L) (hr : Reached dest src L) :
    Returns (fun fuel => strcpy fuel m dest src) (dest, m.copied dest src (L + 1)) := by
  refine .of_fuel (N := L + 1) fun fuel hf => ?_
  have hloop : strcpyLoop dest src fuel (m.copied dest src 0) 0 = _ :=
    strcpyLoop_ends he hr (Nat.zero_le L) (by omega)
  rw [copied_zero] at hloop
  exact congrArg (Option.map _) hloop

def Window (m : Mem) (dest src : Addr) (i : BitVec 32) : Prop :=
  ∀ j < (dest - src).toNat, m.byte (src + i + BitVec.ofNat 32 j) ≠ 0

lemma Window.step {i : BitVec 32} {c : BitVec 8} (h : Window m dest src i) (hc : c ≠ 0) :
    Window (m.store8 (dest + i) c) dest src (i + 1) := by
  intro j hj
  by_cases hx : src + (i + 1) + BitVec.ofNat 32 j = dest + i
  · rw [hx, store8_self]
    exact hc
  · have hlt : j + 1 < (dest - src).toNat := by
      by_contra hle
      apply hx
      bv_omega
    have hold := h (j + 1) hlt
    have haddr : src + i + BitVec.ofNat 32 (j + 1) = src + (i + 1) + BitVec.ofNat 32 j := by bv_omega
    rw [haddr] at hold
    simpa only [store8, if_neg hx] using hold

lemma strcpyLoop_window {i : BitVec 32} (hne : dest ≠ src) (h : Window m dest src i) :
    strcpyLoop dest src fuel m i = none := by
  induction fuel generalizing m i with
  | zero => rfl
  | succ fuel ih =>
    have hpos : 0 < (dest - src).toNat := by bv_omega
    have hread := h 0 hpos
    rw [BitVec.add_zero] at hread
    rw [strcpyLoop, if_pos hread]
    exact ih (h.step hread)

lemma strcpyLoop_endless {i : BitVec 32} (h : ∀ x, m.byte x ≠ 0) : strcpyLoop dest src fuel m i = none := by
  induction fuel generalizing m i with
  | zero => rfl
  | succ fuel ih =>
    rw [strcpyLoop, if_pos (h _)]
    refine ih fun x => ?_
    simp only [store8]
    split_ifs
    · exact h _
    · exact h x

lemma exists_ends (h : ∃ x, m.byte x = 0) (a : Addr) : ∃ L, Ends m a L := by
  obtain ⟨x, hx⟩ := h
  have hxa : a + BitVec.ofNat 32 (x - a).toNat = x := by bv_omega
  rw [← hxa] at hx
  obtain ⟨L, -, he⟩ := exists_ends_le (BitVec.isLt _) hx
  exact ⟨L, he⟩

theorem strcpy_returns_iff (m : Mem) (dest src : Addr) :
    (∀ L, Ends m src L → Reached dest src L →
      Returns (fun fuel => strcpy fuel m dest src) (dest, m.copied dest src (L + 1))) ∧
    ((∃ r, Returns (fun fuel => strcpy fuel m dest src) r) ↔ ∃ L, Ends m src L ∧ Reached dest src L) := by
  refine ⟨fun L => strcpy_ends, ?_, fun ⟨L, he, hr⟩ => ⟨_, strcpy_ends he hr⟩⟩
  rintro ⟨r, hret⟩
  obtain ⟨fuel, hfuel⟩ := hret.exists_fuel
  by_contra hnot
  have hnone : strcpyLoop dest src fuel m 0 = none := by
    by_cases hnull : ∃ x, m.byte x = 0
    · obtain ⟨L, he⟩ := exists_ends hnull src
      have hr : ¬ Reached dest src L := fun hr => hnot ⟨L, he, hr⟩
      obtain ⟨hne, hle⟩ := not_or.mp hr
      refine strcpyLoop_window hne fun j hj => ?_
      have haddr : src + 0 + BitVec.ofNat 32 j = src + BitVec.ofNat 32 j :=
        congrArg (· + BitVec.ofNat 32 j) (BitVec.add_zero src)
      rw [haddr]
      exact he.before j (by omega)
    · exact strcpyLoop_endless fun x hx => hnull ⟨x, hx⟩
  rw [strcpy, hnone] at hfuel
  exact Option.some_ne_none r hfuel.symm

lemma strncpyCopy_ends (he : Ends m src L) (hr : Reached dest src L) (hi : i ≤ L) (hk : L < k + i) :
    strncpyCopy dest src k (m.copied dest src i) (BitVec.ofNat 32 i) =
      (BitVec.ofNat 32 L, m.copied dest src L) := by
  have hlt := he.lt
  induction k generalizing i with
  | zero => omega
  | succ k ih =>
    rw [strncpyCopy, copied_succ (by omega), copied_source (by omega), hr.mod hi]
    rcases Nat.lt_or_ge i L with hiL | hiL
    · rw [if_pos (he.before i hiL), ofNat_succ]
      exact ih (by omega) (by omega)
    · obtain rfl : i = L := by omega
      rw [if_neg (not_not.mpr he.null)]

lemma strncpyCopy_full (hn : i + k ≤ 2 ^ 32)
    (hc : ∀ j < i + k, m.byte (src + BitVec.ofNat 32 (j % (dest - src).toNat)) ≠ 0) :
    strncpyCopy dest src k (m.copied dest src i) (BitVec.ofNat 32 i) =
      (BitVec.ofNat 32 (i + k), m.copied dest src (i + k)) := by
  induction k generalizing i with
  | zero => rfl
  | succ k ih =>
    have hnext : i + 1 + k = i + (k + 1) := by omega
    rw [strncpyCopy, copied_succ (by omega), copied_source (by omega), if_pos (hc i (by omega)), ofNat_succ,
      ih (by omega) (hnext ▸ hc), hnext]

lemma strncpyPad_eq (m : Mem) (dest : Addr) (h : n + k ≤ 2 ^ 32) :
    strncpyPad dest k (m.fill (dest + BitVec.ofNat 32 i) 0 n) (BitVec.ofNat 32 (i + n)) =
      m.fill (dest + BitVec.ofNat 32 i) 0 (n + k) := by
  induction k generalizing n with
  | zero => rfl
  | succ k ih =>
    have haddr : dest + BitVec.ofNat 32 (i + n) = dest + BitVec.ofNat 32 i + BitVec.ofNat 32 n := by
      rw [BitVec.ofNat_add, BitVec.add_assoc]
    rw [strncpyPad, haddr, fill_succ 0 (by omega), ofNat_succ, Nat.add_assoc i n 1, ih (by omega),
      Nat.add_assoc n 1 k, Nat.add_comm 1 k]

lemma exists_reached (hi : i < 2 ^ 32) (h : m.byte (src + BitVec.ofNat 32 (i % (dest - src).toNat)) = 0) :
    ∃ L ≤ i, Ends m src L ∧ Reached dest src L := by
  have hmod := Nat.mod_le i (dest - src).toNat
  obtain ⟨L, hle, he⟩ := exists_ends_le (hmod.trans_lt hi) h
  refine ⟨L, hle.trans hmod, he, ?_⟩
  by_cases hd : (dest - src).toNat = 0
  · exact Or.inl (by bv_omega)
  · exact Or.inr (hle.trans_lt (Nat.mod_lt i (Nat.pos_of_ne_zero hd)))

lemma strncpy_ends {n : BitVec 32} (he : Ends m src L) (hr : Reached dest src L) (hL : L < n.toNat) :
    strncpy m dest src n =
      (dest, (m.copied dest src L).fill (dest + BitVec.ofNat 32 L) 0 (n.toNat - L)) := by
  have hcopy : strncpyCopy dest src n.toNat (m.copied dest src 0) 0 = _ :=
    strncpyCopy_ends he hr (Nat.zero_le L) (by omega)
  have hpad := strncpyPad_eq (m.copied dest src L) dest (i := L) (n := 0) (k := n.toNat - L) (by omega)
  have hnat : (BitVec.ofNat 32 L).toNat = L := Nat.mod_eq_of_lt he.lt
  rw [copied_zero] at hcopy
  rw [fill_zero, Nat.zero_add] at hpad
  rw [strncpy, hcopy]
  simp only [hnat]
  exact congrArg (dest, ·) hpad

lemma strncpy_full {n : BitVec 32} (h : ∀ L < n.toNat, Ends m src L → ¬ Reached dest src L) :
    strncpy m dest src n = (dest, m.copied dest src n.toNat) := by
  have hn := n.isLt
  have hc : ∀ j < 0 + n.toNat, m.byte (src + BitVec.ofNat 32 (j % (dest - src).toNat)) ≠ 0 := by
    intro j hj hnull
    obtain ⟨L, hle, he, hr⟩ := exists_reached (by omega) hnull
    exact h L (by omega) he hr
  have hcopy : strncpyCopy dest src n.toNat (m.copied dest src 0) 0 = _ :=
    strncpyCopy_full (by omega) hc
  rw [copied_zero, Nat.zero_add] at hcopy
  rw [strncpy, hcopy]
  simp only [BitVec.toNat_ofNat, Nat.mod_eq_of_lt hn, Nat.sub_self]
  rfl

theorem strncpy_exact (m : Mem) (dest src : Addr) (n : BitVec 32) :
    (∀ L < n.toNat, Ends m src L → Reached dest src L → strncpy m dest src n =
      (dest, (m.copied dest src L).fill (dest + BitVec.ofNat 32 L) 0 (n.toNat - L))) ∧
    ((∀ L < n.toNat, Ends m src L → ¬ Reached dest src L) →
      strncpy m dest src n = (dest, m.copied dest src n.toNat)) ∧
    ((∃ j < n.toNat, (strncpy m dest src n).2.byte (dest + BitVec.ofNat 32 j) = 0) ↔
      ∃ L < n.toNat, Ends m src L ∧ Reached dest src L) := by
  have hn := n.isLt
  refine ⟨fun L hL he hr => strncpy_ends he hr hL, strncpy_full, ?_, ?_⟩
  · rintro ⟨j, hj, hnull⟩
    by_contra hnot
    have hfull : strncpy m dest src n = (dest, m.copied dest src n.toNat) :=
      strncpy_full fun L hL he hr => hnot ⟨L, hL, he, hr⟩
    rw [hfull, copied_byte hj (by omega)] at hnull
    obtain ⟨L, hle, he, hr⟩ := exists_reached (by omega) hnull
    exact hnot ⟨L, by omega, he, hr⟩
  · rintro ⟨L, hL, he, hr⟩
    refine ⟨L, hL, ?_⟩
    rw [strncpy_ends he hr hL]
    apply fill_byte
    rw [mem_span, BitVec.sub_self, BitVec.toNat_zero]
    omega

end TinuOS.System
