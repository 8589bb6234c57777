import TinuOS.Library.Text
import TinuOS.Printk.Decimal

/-! What `vasprintf` leaves in the buffer for any format, also for one that ends too early. -/

namespace TinuOS.Printk

open Library Out

/-- A conversion that is cut off by the end of the format has the NUL for its character. -/
inductive Token
  | lit (c : Char8)
  | conv (w : BitVec 32) (c : Char8)
  deriving DecidableEq

def tokens : List Char8 → List Token
  | [] => []
  | c :: fmt =>
    if c ≠ ch '%' then .lit c :: tokens fmt
    else
      let r := argWidth 0#32 fmt
      .conv r.1 (r.2.headD 0) :: tokens r.2.tail
termination_by fmt => fmt.length
decreasing_by
  · exact Nat.lt_succ_self _
  · have := argWidth_length 0#32 fmt
    simp only [List.length_tail, List.length_cons]
    omega

inductive Kind
  | str
  | word
  deriving DecidableEq

def Arg.kind : Arg → Kind
  | .str _ => .str
  | .word _ => .word

namespace Token

def takes : Token → Option Kind
  | .lit _ => none
  | .conv _ c =>
    if c = ch 's' then some .str
    else if c = ch 'c' ∨ c = ch 'x' ∨ c = ch 'd' then some .word
    else none

def emit (r : Out Char8 × List Arg) : Token → Option (Out Char8 × List Arg)
  | .lit c => some (r.1.put c, r.2)
  | .conv w c => convert c w r.2 r.1

end Token

def Supplied (ts : List Token) (args : List Arg) : Prop :=
  ts.filterMap Token.takes <+: args.map Arg.kind

instance (ts : List Token) (args : List Arg) : Decidable (Supplied ts args) :=
  inferInstanceAs (Decidable (_ <+: _))

def CutOff (ts : List Token) : Prop := ∃ w, Token.conv w 0 ∈ ts

def Blank (ts : List Token) (args : List Arg) : Prop :=
  ∃ w v, (Token.conv w (ch 'c'), Arg.word v) ∈ (ts.filter (·.takes.isSome)).zip args ∧
    v.setWidth 8 = (0 : Char8)

def LeavesString (buf : ℕ → Char8) (fmt : List Char8) (args : List Arg) : Prop :=
  ∃ o s, vasprintf buf fmt args = some (s.length, o) ∧ StringAt 0 o.cells 0 s ∧
    ∀ i, i ∈ o.stores ↔ i ≤ s.length

variable {t : Token} {ts : List Token} {args : List Arg} {o : Out Char8} {c : Char8} {w v : BitVec 32}
  {fmt : List Char8} {k : ℕ}

lemma loop_tokens (fmt : List Char8) : ∀ args o,
    vasprintfLoop fmt args o = ((tokens fmt).foldlM Token.emit (o, args)).map Prod.fst := by
  fun_induction tokens fmt with
  | case1 => simp [vasprintfLoop]
  | case2 c fmt hc ih =>
    intro args o
    rw [vasprintfLoop, if_pos hc, ih]
    rfl
  | case3 c fmt hc r ih =>
    intro args o
    rw [vasprintfLoop, if_neg hc, List.foldlM_cons, Option.bind_eq_bind, Option.map_bind]
    exact Option.bind_congr fun p _ => ih p.2 p.1

lemma argWidth_suffix (w : BitVec 32) (fmt : List Char8) : (argWidth w fmt).2 <:+ fmt := by
  induction fmt generalizing w with
  | nil => exact List.suffix_rfl
  | cons c fmt ih =>
    rw [argWidth]
    split
    · exact (ih _).trans (List.suffix_cons c fmt)
    · exact List.suffix_rfl

lemma lowDigits_ne_zero {n : ℕ} {d : Char} (h : d ∈ lowDigits 10 k n) : ch d ≠ 0 := by
  induction k generalizing n with
  | zero => simp [lowDigits] at h
  | succ k ih =>
    rw [lowDigits, List.mem_append, List.mem_singleton] at h
    rcases h with h | rfl
    · exact ih h
    · have hd : ∀ e < 10, ch (Nat.digitChar e) ≠ 0 := by decide
      exact hd _ (Nat.mod_lt n (by decide))

lemma lit_ne_zero (hf : 0 ∉ fmt) (ht : Token.lit c ∈ tokens fmt) : c ≠ 0 := by
  fun_induction tokens fmt with
  | case1 => simp at ht
  | case2 d fmt hd ih =>
    rw [List.mem_cons, not_or] at hf
    rw [List.mem_cons, Token.lit.injEq] at ht
    rcases ht with rfl | ht
    · exact Ne.symm hf.1
    · exact ih hf.2 ht
  | case3 d fmt hd r ih =>
    refine ih (fun h0 => hf ?_) ((List.mem_cons.mp ht).resolve_left (by simp))
    exact List.mem_cons_of_mem d ((argWidth_suffix 0 fmt).subset (List.mem_of_mem_tail h0))

lemma decField_ne_zero (h : c ∈ decField v k) : c ≠ 0 := by
  rw [decField, List.mem_append, decText_eq] at h
  rcases h with h | h
  · rw [List.eq_of_mem_replicate h]
    decide
  · obtain ⟨d, hd, rfl⟩ := List.mem_map.mp h
    exact lowDigits_ne_zero hd

lemma hexText_ne_zero (h : c ∈ hexText k v) : c ≠ 0 := by
  induction k with
  | zero => simp [hexText] at h
  | succ k ih =>
    rw [hexText, List.mem_cons] at h
    rcases h with rfl | h
    · have hd : ∀ n < 16, hexDigit (BitVec.ofNat 32 n) ≠ 0 := by decide
      have hlt : (v >>> (k * 4) &&& 0xF#32).toNat < 16 := by
        rw [BitVec.toNat_and]
        exact Nat.and_lt_two_pow (n := 4) _ (by decide)
      have he := hd _ hlt
      rwa [BitVec.ofNat_toNat, BitVec.setWidth_eq] at he
    · exact ih h

lemma cstr_ne_zero {s : List Char8} (h : c ∈ cstr s) : c ≠ 0 := by
  simpa using List.mem_takeWhile_imp h

lemma emit_free (o : Out Char8) (args : List Arg) (ht : t.takes = none)
    (hl : ∀ c, t = .lit c → c ≠ 0) : ∃ o' cs, t.emit (o, args) = some (o', args) ∧
      o.Wrote o' cs ∧ (0 ∈ cs ↔ ∃ w, t = .conv w 0) := by
  cases t with
  | lit c =>
    refine ⟨o.put c, [c], rfl, wrote_put, iff_of_false (fun h0 => ?_) ?_⟩
    · exact hl c rfl (List.mem_singleton.mp h0).symm
    · rintro ⟨w, he⟩
      cases he
  | conv w c =>
    refine ⟨o.put c, [c], ?_, wrote_put, ?_⟩
    · simp only [Token.takes] at ht
      split_ifs at ht with hs hw
      rw [not_or, not_or] at hw
      simp only [Token.emit, convert, if_neg hs, if_neg hw.1, if_neg hw.2.1, if_neg hw.2.2]
      split_ifs with hp
      · rw [hp]
      · rfl
    · rw [List.mem_singleton]
      exact ⟨fun h0 => ⟨w, h0 ▸ rfl⟩, fun ⟨_, he⟩ => (Token.conv.inj he).2.symm⟩

lemma emit_taking {a : Arg} (o : Out Char8) (args : List Arg) (ht : t.takes = some a.kind) : ∃ o' cs,
    t.emit (o, a :: args) = some (o', args) ∧ o.Wrote o' cs ∧
      (0 ∈ cs ↔ ∃ w v, t = .conv w (ch 'c') ∧ a = .word v ∧ v.setWidth 8 = (0 : Char8)) := by
  cases t with
  | lit c => simp [Token.takes] at ht
  | conv w c =>
    simp only [Token.takes] at ht
    split_ifs at ht with hs hw
    · cases a with
      | word v => simp [Arg.kind] at ht
      | str s =>
        refine ⟨_, cstr s, if_pos hs, wrote_foldl_put, ?_⟩
        refine iff_of_false (fun h0 => cstr_ne_zero h0 rfl) ?_
        rintro ⟨-, v, -, he, -⟩
        cases he
    · cases a with
      | str s => simp [Arg.kind] at ht
      | word v =>
        by_cases hc : c = ch 'c'
        · refine ⟨o.put (v.setWidth 8), _, ?_, wrote_put, ?_⟩
          · simp only [Token.emit, convert, if_neg hs, if_pos hc]
          · rw [List.mem_singleton, hc]
            exact ⟨fun h0 => ⟨w, v, rfl, rfl, h0.symm⟩, fun ⟨_, _, _, he, h0⟩ => by
              rw [Arg.word.inj he, h0]⟩
        · have hne : ¬ ∃ w' v', Token.conv w c = .conv w' (ch 'c') ∧ Arg.word v = .word v' ∧
              v'.setWidth 8 = (0 : Char8) := by
            rintro ⟨_, _, he, -⟩
            exact hc (Token.conv.inj he).2
          by_cases hx : c = ch 'x'
          · refine ⟨printHex v w o, _, ?_, printHex_wrote v w o, iff_of_false ?_ hne⟩
            · simp only [Token.emit, convert, if_neg hs, if_neg hc, if_pos hx]
            · intro h0
              rcases List.mem_append.mp h0 with h0 | h0
              · exact absurd (List.eq_of_mem_replicate h0) (by decide)
              · exact hexText_ne_zero h0 rfl
          · have hd : c = ch 'd' := (hw.resolve_left hc).resolve_left hx
            refine ⟨printDec v w o, _, ?_, printDec_wrote, iff_of_false ?_ hne⟩
            · simp only [Token.emit, convert, if_neg hs, if_neg hc, if_neg hx, if_pos hd]
            · exact fun h0 => decField_ne_zero h0 rfl

lemma cutOff_cons : CutOff (t :: ts) ↔ (∃ w, t = .conv w 0) ∨ CutOff ts := by
  simp only [CutOff, List.mem_cons, exists_or, eq_comm]

lemma blank_skip (ht : t.takes = none) : Blank (t :: ts) args ↔ Blank ts args := by
  have hn : ¬ t.takes.isSome := by simp [ht]
  simp only [Blank, List.filter_cons_of_neg (p := fun t : Token => t.takes.isSome) hn]

lemma blank_cons {a : Arg} (ht : t.takes.isSome) : Blank (t :: ts) (a :: args) ↔
    (∃ w v, t = .conv w (ch 'c') ∧ a = .word v ∧ v.setWidth 8 = (0 : Char8)) ∨ Blank ts args := by
  simp only [Blank, List.filter_cons_of_pos (p := fun t : Token => t.takes.isSome) ht,
    List.zip_cons_cons, List.mem_cons, Prod.mk.injEq, or_and_right, exists_or, and_assoc]
  simp only [eq_comm (b := t), eq_comm (b := a)]

lemma emit_all (hs : Supplied ts args) (hl : ∀ c, .lit c ∈ ts → c ≠ 0) : ∃ r cs,
    ts.foldlM Token.emit (o, args) = some r ∧ o.Wrote r.1 cs ∧ (0 ∈ cs ↔ CutOff ts ∨ Blank ts args) := by
  induction ts generalizing args o with
  | nil => exact ⟨(o, args), [], rfl, wrote_nil, by simp [CutOff, Blank]⟩
  | cons t ts ih =>
    have hl' : ∀ c, .lit c ∈ ts → c ≠ 0 := fun c hc => hl c (List.mem_cons_of_mem t hc)
    cases ht : t.takes with
    | none =>
      rw [Supplied, List.filterMap_cons_none ht] at hs
      obtain ⟨o₁, cs₁, he, hw, h0⟩ := emit_free o args ht
        fun c hc => hl c (hc ▸ List.mem_cons_self)
      obtain ⟨r, cs₂, he', hw', h0'⟩ := ih (o := o₁) hs hl'
      refine ⟨r, cs₁ ++ cs₂, ?_, hw.trans hw', ?_⟩
      · rw [List.foldlM_cons, he]
        exact he'
      · rw [List.mem_append, h0, h0', cutOff_cons, blank_skip ht, or_assoc]
    | some k =>
      rw [Supplied, List.filterMap_cons_some ht] at hs
      cases args with
      | nil => simp at hs
      | cons a args =>
        rw [List.map_cons, List.cons_prefix_cons] at hs
        obtain ⟨rfl, hs⟩ := hs
        obtain ⟨o₁, cs₁, he, hw, h0⟩ := emit_taking o args ht
        obtain ⟨r, cs₂, he', hw', h0'⟩ := ih (o := o₁) hs hl'
        refine ⟨r, cs₁ ++ cs₂, ?_, hw.trans hw', ?_⟩
        · rw [List.foldlM_cons, he]
          exact he'
        · have hc : ¬ ∃ w, t = .conv w 0 := by
            rintro ⟨w, rfl⟩
            have hz : (Token.conv w 0).takes = none := rfl
            cases hz.symm.trans ht
          rw [List.mem_append, h0, h0', cutOff_cons, or_iff_right hc, blank_cons (by simp [ht]),
            or_left_comm]

lemma vasprintf_wrote (buf : ℕ → Char8) (hs : Supplied (tokens (cstr fmt)) args) : ∃ o cs,
    vasprintf buf fmt args = some (cs.length, o.store cs.length 0) ∧ Out.Wrote ⟨buf, 0, []⟩ o cs ∧
      (0 ∈ cs ↔ CutOff (tokens (cstr fmt)) ∨ Blank (tokens (cstr fmt)) args) := by
  obtain ⟨r, cs, he, hw, h0⟩ := emit_all (o := ⟨buf, 0, []⟩) hs fun c hc =>
    lit_ne_zero (fun h0 => cstr_ne_zero h0 rfl) hc
  have hptr : r.1.ptr = cs.length := hw.ptr.trans (Nat.zero_add _)
  refine ⟨r.1, cs, ?_, hw, h0⟩
  rw [vasprintf, loop_tokens, he, Option.map_some, Option.map_some, hptr]

lemma leavesString_of_wrote {buf : ℕ → Char8} {cs : List Char8}
    (hv : vasprintf buf fmt args = some (cs.length, o.store cs.length 0))
    (hw : Out.Wrote ⟨buf, 0, []⟩ o cs) : LeavesString buf fmt args ↔ 0 ∉ cs := by
  have hp : o.ptr = cs.length := hw.ptr.trans (Nat.zero_add _)
  constructor
  · rintro ⟨o', s, hv', hat, -⟩ hmem
    obtain ⟨hlen, rfl⟩ := Prod.mk.inj (Option.some.inj (hv.symm.trans hv'))
    obtain ⟨hns, hcs, -⟩ := StringAt.iff_getElem.mp hat
    obtain ⟨j, hj, hz⟩ := List.getElem_of_mem hmem
    have hcell : (o.store cs.length 0).cells (0 + j) = cs[j] :=
      (Function.update_of_ne (by omega) _ _).trans (hw.cells j hj)
    apply hns
    rw [← hz, ← hcell, hcs j (hlen ▸ hj)]
    exact List.getElem_mem _
  · intro hmem
    have hat := hw.stringAt hmem
    rw [hp] at hat
    refine ⟨_, cs, hv, hat, fun i => ?_⟩
    change i ∈ o.stores ++ [cs.length] ↔ _
    rw [List.mem_append, hw.stores, List.mem_singleton]
    simp only [List.not_mem_nil, false_or, Nat.zero_add, Nat.zero_le, true_and]
    omega

theorem leavesString_iff (buf : ℕ → Char8) (hs : Supplied (tokens (cstr fmt)) args) :
    LeavesString buf fmt args ↔ ¬ CutOff (tokens (cstr fmt)) ∧ ¬ Blank (tokens (cstr fmt)) args := by
  obtain ⟨o, cs, hv, hw, h0⟩ := vasprintf_wrote buf hs
  rw [leavesString_of_wrote hv hw, h0, not_or]

lemma tokens_decimal : tokens (cstr [ch '%', ch 'd']) = [.conv 0 (ch 'd')] := by
  simp [tokens, argWidth, cstr, ch]

lemma tokens_percent : tokens (cstr [ch '%']) = [.conv 0 0] := by
  simp [tokens, argWidth, cstr, ch]

theorem leavesString_iff_decimal : LeavesString (fun _ => 0) [ch '%', ch 'd'] [.word 7] ↔
    ¬ CutOff (tokens (cstr [ch '%', ch 'd'])) ∧
      ¬ Blank (tokens (cstr [ch '%', ch 'd'])) [.word 7] :=
  leavesString_iff (fun _ => 0) (by
    rw [tokens_decimal]
    decide)

theorem percent_left_unterminated : ¬ ∀ (buf : ℕ → Char8) (fmt : List Char8) (args : List Arg),
    Supplied (tokens (cstr fmt)) args →
    (∀ w v, (Token.conv w (ch 'c'), Arg.word v) ∈
      ((tokens (cstr fmt)).filter (·.takes.isSome)).zip args → v ≠ 0) →
    LeavesString buf fmt args := by
  intro h
  have hs : Supplied (tokens (cstr [ch '%'])) [] := by
    rw [tokens_percent]
    decide
  obtain ⟨o, cs, hv, hw, h0⟩ := vasprintf_wrote (fun _ => 0) hs
  refine (leavesString_of_wrote hv hw).mp (h _ _ _ hs ?_) (h0.mpr (Or.inl ⟨0, ?_⟩))
  · simp
  · rw [tokens_percent]
    exact List.mem_singleton.mpr rfl

end TinuOS.Printk
