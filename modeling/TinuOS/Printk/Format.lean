import TinuOS.Printk.Numbers

/-! `vasprintf` over formats whose percent signs start a directive. -/

namespace TinuOS.Printk

open Library Out

def digitChar (d : Fin 10) : Char8 := ch '0' + BitVec.ofNat 8 d

def runValue (run : List (Fin 10)) : ℕ := Nat.ofDigits 10 (run.map Fin.val).reverse

def runSum (run : List (Fin 10)) : ℕ := (run.map Fin.val).sum

/-- One construct of a format, with the argument that belongs to it. -/
inductive Piece
  | lit (c : Char8) (hc : c ≠ ch '%' ∧ c ≠ 0)
  | str (run : List (Fin 10)) (s : List Char8)
  | chr (run : List (Fin 10)) (v : BitVec 32)
  | hex (run : List (Fin 10)) (v : BitVec 32)
  | dec (run : List (Fin 10)) (v : BitVec 32)
  | percent (run : List (Fin 10))

namespace Piece

def directive (run : List (Fin 10)) (c : Char) : List Char8 := ch '%' :: (run.map digitChar ++ [ch c])

def text : Piece → List Char8
  | .lit c _ => [c]
  | .str run _ => directive run 's'
  | .chr run _ => directive run 'c'
  | .hex run _ => directive run 'x'
  | .dec run _ => directive run 'd'
  | .percent run => directive run '%'

def args : Piece → List Arg
  | .str _ s => [.str s]
  | .chr _ v | .hex _ v | .dec _ v => [.word v]
  | .lit _ _ | .percent _ => []

def expected : Piece → List Char8
  | .lit c _ => [c]
  | .str _ s => cstr s
  | .chr _ v => [v.setWidth 8]
  | .hex run v => hexField v (runValue run)
  | .dec run v => decField v (runValue run)
  | .percent _ => [ch '%']

def Fits : Piece → Prop
  | .hex run v => runValue run < 10 ∨ runValue run ≤ hexLength v
  | .dec run v => runValue run < 10 ∨ runValue run ≤ decLength v
  | _ => True

def printed : Piece → List Char8
  | .hex run v =>
    let w := BitVec.ofNat 32 (runSum run)
    List.replicate ((if w = 0 then 8#32 else w).toInt - (hexWidth v 1 0x0F).toInt).toNat (ch '0') ++
      hexText (hexLength v) v
  | .dec run v => decField v (BitVec.ofNat 32 (runSum run)).toNat
  | p => p.expected

end Piece

def Produces (buf : ℕ → Char8) (fmt : List Char8) (args : List Arg) (out : List Char8) : Prop :=
  ∃ o, vasprintf buf fmt args = some (out.length, o) ∧
    (∀ i (h : i < out.length), o.cells i = out[i]) ∧ o.cells out.length = 0

variable {run : List (Fin 10)} {v w : BitVec 32} {fmt rest : List Char8} {l : List Arg}
  {o : Out Char8} {p : Piece} {ps : List Piece} {c : Char8} {d : Fin 10}

lemma digits_sum_le {L : List ℕ} : L.sum ≤ Nat.ofDigits 10 L :=
  Nat.ofDigits_one L ▸ Nat.ofDigits_monotone L (by norm_num)

lemma digits_sum_eq_iff {L : List ℕ} (h : ∀ d ∈ L, d < 10) :
    L.sum = Nat.ofDigits 10 L ↔ Nat.ofDigits 10 L < 10 := by
  cases L with
  | nil => simp
  | cons d L =>
    have hd := h d List.mem_cons_self
    have hle := digits_sum_le (L := L)
    rw [List.sum_cons, Nat.ofDigits_cons]
    omega

lemma runSum_le (run : List (Fin 10)) : runSum run ≤ runValue run := by
  rw [runSum, ← List.sum_reverse]
  exact digits_sum_le

lemma runSum_eq_iff (run : List (Fin 10)) : runSum run = runValue run ↔ runValue run < 10 := by
  rw [runSum, ← List.sum_reverse]
  refine digits_sum_eq_iff fun d hd => ?_
  obtain ⟨a, -, rfl⟩ := List.mem_map.mp (List.mem_reverse.mp hd)
  exact a.isLt

lemma digitChar_digit (d : Fin 10) : (ch '0' ≤ digitChar d ∧ digitChar d ≤ ch '9') ∧
    (digitChar d - ch '0').setWidth 32 = BitVec.ofNat 32 d := by
  revert d
  decide

lemma argWidth_run (hc : ¬ (ch '0' ≤ c ∧ c ≤ ch '9')) :
    argWidth w (run.map digitChar ++ c :: fmt) = (w + BitVec.ofNat 32 (runSum run), c :: fmt) := by
  induction run generalizing w with
  | nil => simp [argWidth, hc, runSum]
  | cons d run ih =>
    obtain ⟨hd, hv⟩ := digitChar_digit d
    rw [List.map_cons, List.cons_append, argWidth, if_pos hd, hv, ih, runSum, runSum, List.map_cons,
      List.sum_cons, BitVec.ofNat_add, BitVec.add_assoc]

lemma loop_lit (hc : c ≠ ch '%') :
    vasprintfLoop (c :: fmt) l o = vasprintfLoop fmt l (o.put c) := by
  rw [vasprintfLoop, if_pos hc]

lemma loop_directive {k : Char} (hk : ¬ (ch '0' ≤ ch k ∧ ch k ≤ ch '9')) :
    vasprintfLoop (Piece.directive run k ++ fmt) l o =
      (convert (ch k) (BitVec.ofNat 32 (runSum run)) l o).bind fun r => vasprintfLoop fmt r.2 r.1 := by
  rw [Piece.directive, List.cons_append, List.append_assoc, List.singleton_append, vasprintfLoop,
    if_neg (not_not.mpr rfl), argWidth_run hk, BitVec.zero_add]
  rfl

lemma loop_piece (p : Piece) (fmt : List Char8) (l : List Arg) (o : Out Char8) : ∃ o', o.Wrote o' p.printed ∧
    vasprintfLoop (p.text ++ fmt) (p.args ++ l) o = vasprintfLoop fmt l o' := by
  cases p with
  | lit c hc => exact ⟨o.put c, wrote_put, loop_lit hc.1⟩
  | str run s => exact ⟨_, wrote_foldl_put, loop_directive (by decide)⟩
  | chr run v => exact ⟨_, wrote_put, loop_directive (by decide)⟩
  | hex run v => exact ⟨_, printHex_wrote _ _ _, loop_directive (by decide)⟩
  | dec run v => exact ⟨_, printDec_wrote, loop_directive (by decide)⟩
  | percent run => exact ⟨_, wrote_put, loop_directive (by decide)⟩

lemma loop_pieces (ps : List Piece) : ∃ o', o.Wrote o' (ps.flatMap Piece.printed) ∧
    vasprintfLoop (ps.flatMap Piece.text) (ps.flatMap Piece.args ++ l) o = some o' := by
  induction ps generalizing o with
  | nil => exact ⟨o, wrote_nil, by simp [vasprintfLoop]⟩
  | cons p ps ih =>
    obtain ⟨o₁, h₁, hp⟩ := loop_piece p (ps.flatMap Piece.text) (ps.flatMap Piece.args ++ l) o
    obtain ⟨o₂, h₂, hps⟩ := ih (o := o₁)
    refine ⟨o₂, h₁.trans h₂, ?_⟩
    rw [List.flatMap_cons, List.flatMap_cons, List.append_assoc, hp, hps]

lemma directive_ne_zero {k : Char} (hk : ch k ≠ 0) (h : c ∈ Piece.directive run k) : c ≠ 0 := by
  rw [Piece.directive, List.mem_cons, List.mem_append, List.mem_singleton, List.mem_map] at h
  rcases h with rfl | ⟨d, -, rfl⟩ | rfl
  · decide
  · revert d
    decide
  · exact hk

lemma text_ne_zero (h : c ∈ p.text) : c ≠ 0 := by
  cases p with
  | lit a ha =>
    obtain rfl : c = a := by simpa [Piece.text] using h
    exact ha.2
  | str run s => exact directive_ne_zero (by decide) h
  | chr run v => exact directive_ne_zero (by decide) h
  | hex run v => exact directive_ne_zero (by decide) h
  | dec run v => exact directive_ne_zero (by decide) h
  | percent run => exact directive_ne_zero (by decide) h

lemma cstr_text : cstr (ps.flatMap Piece.text) = ps.flatMap Piece.text := by
  rw [cstr, List.takeWhile_eq_self_iff]
  intro c hc
  obtain ⟨p, -, hp⟩ := List.mem_flatMap.mp hc
  exact decide_eq_true (text_ne_zero hp)

lemma decPadding (n : ℕ) : (BitVec.ofNat 32 (runSum run)).toNat - n ≤ runValue run - n ∧
    ((BitVec.ofNat 32 (runSum run)).toNat - n = runValue run - n ↔
      runValue run < 10 ∨ runValue run ≤ n) := by
  have hle := runSum_le run
  have heq := runSum_eq_iff run
  rw [BitVec.toNat_ofNat]
  have hmod := Nat.mod_le (runSum run) (2 ^ 32)
  refine ⟨by omega, fun h => ?_, fun h => ?_⟩
  · omega
  · rcases h with h | h
    · rw [Nat.mod_eq_of_lt (by omega), heq.mpr h]
    · omega

def hexWidthArg (run : List (Fin 10)) : ℤ :=
  (if BitVec.ofNat 32 (runSum run) = 0 then 8#32 else BitVec.ofNat 32 (runSum run)).toInt

lemma hexWidthArg_spec (run : List (Fin 10)) :
    (runValue run < 10 → hexWidthArg run = if runValue run = 0 then 8 else (runValue run : ℤ)) ∧
    (10 ≤ runValue run → hexWidthArg run < runValue run) := by
  have hle := runSum_le run
  have heq := runSum_eq_iff run
  have hmod := Nat.mod_le (runSum run) (2 ^ 32)
  have hnat : (BitVec.ofNat 32 (runSum run)).toNat = runSum run % 2 ^ 32 := BitVec.toNat_ofNat _ _
  have hint := BitVec.toInt_eq_toNat_cond (BitVec.ofNat 32 (runSum run))
  rw [hnat] at hint
  unfold hexWidthArg
  by_cases hz : BitVec.ofNat 32 (runSum run) = 0
  · have hs : runSum run % 2 ^ 32 = 0 := by
      rw [← hnat, hz]
      rfl
    rw [if_pos hz]
    refine ⟨fun hv => ?_, fun hv => ?_⟩
    · rw [if_pos (by omega)]
      rfl
    · change (8 : ℤ) < _
      omega
  · have hs : runSum run % 2 ^ 32 ≠ 0 := fun hs => hz (BitVec.eq_of_toNat_eq (hnat.trans hs))
    rw [if_neg hz, hint]
    refine ⟨fun hv => ?_, fun hv => ?_⟩ <;> split_ifs <;> omega

lemma hexPadding (run : List (Fin 10)) {n : ℕ} (hn : n ≤ 8) :
    (hexWidthArg run - n).toNat ≤ (if runValue run = 0 then 8 else runValue run) - n ∧
    ((hexWidthArg run - n).toNat = (if runValue run = 0 then 8 else runValue run) - n ↔
      runValue run < 10 ∨ runValue run ≤ n) := by
  obtain ⟨hsmall, hlarge⟩ := hexWidthArg_spec run
  by_cases hv : runValue run < 10
  · rw [hsmall hv]
    split_ifs <;> omega
  · have := hlarge (by omega)
    rw [if_neg (by omega)]
    omega

lemma printed_length_le (p : Piece) : p.printed.length ≤ p.expected.length := by
  cases p with
  | hex run v =>
    have h := (hexPadding run (hexLength_le v)).1
    rw [← hexWidth_toInt] at h
    simp only [Piece.printed, Piece.expected, hexField, List.length_append, List.length_replicate]
    exact Nat.add_le_add_right h _
  | dec run v =>
    simp only [Piece.printed, Piece.expected, decField, List.length_append, List.length_replicate]
    exact Nat.add_le_add_right (decPadding _).1 _
  | _ => exact le_rfl

lemma printed_eq_iff (p : Piece) : p.printed = p.expected ↔ p.Fits := by
  cases p with
  | hex run v =>
    have h := (hexPadding run (hexLength_le v)).2
    rw [← hexWidth_toInt] at h
    exact pad_eq_iff.trans h
  | dec run v => exact pad_eq_iff.trans (decPadding _).2
  | _ => exact iff_of_true rfl trivial

lemma vasprintf_pieces (buf : ℕ → Char8) (ps : List Piece) (l : List Arg) : ∃ o,
    vasprintf buf (ps.flatMap Piece.text) (ps.flatMap Piece.args ++ l) =
      some ((ps.flatMap Piece.printed).length, o) ∧
    (∀ i (h : i < (ps.flatMap Piece.printed).length), o.cells i = (ps.flatMap Piece.printed)[i]) ∧
    o.cells (ps.flatMap Piece.printed).length = 0 := by
  obtain ⟨o, hw, hl⟩ := loop_pieces ps (l := l) (o := ⟨buf, 0, []⟩)
  have hp : o.ptr = (ps.flatMap Piece.printed).length := by simpa using hw.ptr
  refine ⟨o.store o.ptr 0, ?_, fun i hi => ?_, ?_⟩
  · rw [vasprintf, cstr_text, hl, ← hp]
    rfl
  · have hc := hw.cells i hi
    rw [Nat.zero_add] at hc
    exact (Function.update_of_ne (by omega) _ _).trans hc
  · rw [← hp]
    exact Function.update_self _ _ _

theorem vasprintf_iff (buf : ℕ → Char8) (ps : List Piece) (extra : List Arg) :
    Produces buf (ps.flatMap Piece.text) (ps.flatMap Piece.args ++ extra) (ps.flatMap Piece.expected) ↔
      ∀ p ∈ ps, p.Fits := by
  simp only [← printed_eq_iff]
  rw [← flatMap_eq_iff printed_length_le]
  obtain ⟨o, hv, hcells, hnul⟩ := vasprintf_pieces buf ps extra
  constructor
  · rintro ⟨o', hv', hcells', -⟩
    obtain ⟨hlen, rfl⟩ := Prod.mk.inj (Option.some.inj (hv.symm.trans hv'))
    exact List.ext_getElem hlen fun i h₁ h₂ => (hcells i h₁).symm.trans (hcells' i h₂)
  · intro he
    rw [← he]
    exact ⟨o, hv, hcells, hnul⟩

theorem width_digits_summed : ¬ ∀ (buf : ℕ → Char8) (ps : List Piece) (extra : List Arg),
    Produces buf (ps.flatMap Piece.text) (ps.flatMap Piece.args ++ extra)
      (ps.flatMap Piece.expected) := by
  intro h
  have hn : decLength 5#32 = 1 := by
    rw [decLength, decWidth]
    decide
  obtain ⟨o', hv', -⟩ := h (fun _ => 0) [.dec [1, 0] 5] []
  obtain ⟨o, hv, -⟩ := vasprintf_pieces (fun _ => 0) [.dec [1, 0] 5] []
  have hlen := (Prod.mk.inj (Option.some.inj (hv.symm.trans hv'))).1
  have hgap : 1 - decLength 5#32 = 10 - decLength 5#32 := by
    simpa [Piece.printed, Piece.expected, decField, runSum, runValue, Nat.ofDigits] using hlen
  rw [hn] at hgap
  exact absurd hgap (by decide)

end TinuOS.Printk
