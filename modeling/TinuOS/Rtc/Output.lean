import TinuOS.Monitor.Expansion
import TinuOS.Rtc.Model

/-! What `rtc_print_struct` prints. -/

namespace TinuOS.Rtc

open Library Printk Monitor

def line (weekday month hour minute second year : List Char8) : List Char8 :=
  weekday ++ ch ' ' :: month ++ ch ' ' :: hour ++ ch ':' :: minute ++ ch ':' :: second ++ text " UTC " ++
    year ++ [ch '\n']

def hex (v : BitVec 8) : List Char8 := numeral 16 v.toNat

def Time.line (t : Time) : List Char8 :=
  Rtc.line (datesStr.getD (t.dayOfWeek.toNat - 2) []) (monthsStr.getD (t.month.toNat - 1) [])
    (hex t.hour) (hex t.minute) (hex t.second) (hex t.century ++ hex t.year)

variable {σ : Type*} {putchar : σ → Char8 → σ} {I : Image} {U : Unset} {mem : Memory}
  {p q : BitVec 32} {m n fuel : ℕ} {object dest : ℕ → Char8} {s : List Char8} {z z' : Screen σ}
  {table : List (List Char8)} {limit num : BitVec 8} {message word : BitVec 32} {index : ℤ} {t : Time}

lemma strcpy_at (dest : ℕ → Char8) (h : 0 ∉ s) : StringAt 0 (strcpy dest s) 0 s := by
  have hs : cstr s = s := List.takeWhile_eq_self_iff.mpr fun c hc => by
    simpa using fun h0 : c = 0 => h (h0 ▸ hc)
  rw [strcpy, hs]
  exact Out.wrote_foldl_put.stringAt h

lemma overlay_at (mem : Memory) (p : BitVec 32) (hs : StringAt 0 object 0 s)
    (hn : s.length < n) (hn' : n ≤ 2 ^ 32) : StringAt 0 ((overlay mem p n object).bytes p) 0 s := by
  refine hs.congr fun j hj => ?_
  have ha : (p + BitVec.ofNat 32 (0 + j) - p).toNat = 0 + j := by
    rw [add_sub_cancel_left, BitVec.toNat_ofNat, Nat.mod_eq_of_lt (by omega)]
  rw [Memory.bytes, overlay, ha, if_pos (by omega)]

lemma overlay_apart (object : ℕ → Char8) (hs : StringAt 0 (mem.bytes q) 0 s) (ha : Apart q m p n)
    (hm : s.length < m) : StringAt 0 ((overlay mem p n object).bytes q) 0 s := by
  refine hs.congr fun j hj => ?_
  exact if_neg (not_lt.mpr (ha _ (by omega)))

lemma toText_lookup {o : ℕ → Char8}
    (h : toText putchar I U table limit message index num z fuel = some (o, z')) :
    z'.lookups = z.lookups ++ [(index, table.length)] := by
  obtain ⟨t, -, he⟩ := Option.map_eq_some_iff.mp h
  rw [← (Prod.mk.inj he).2]

lemma toText_inside (h1 : 1 ≤ num) (hl : num ≤ limit) (h0 : 0 ≤ index) (hi : index < table.length) :
    toText putchar I U table limit message index num z fuel =
      some (strcpy U.bytes (table.getD index.toNat []),
        ⟨z.terminal, z.lookups ++ [(index, table.length)]⟩) := by
  have hnum : ¬ (num < 1 ∨ limit < num) := 
    not_or.mpr ⟨BitVec.not_lt.mpr h1, BitVec.not_lt.mpr hl⟩
  rw [toText, if_neg hnum, Option.map_some, if_pos ⟨h0, hi⟩]

lemma rtcPrintStruct_lookups (h : rtcPrintStruct putchar I U t z fuel = some z') :
    z'.lookups = z.lookups ++ [((t.dayOfWeek.toNat : ℤ) - 2, 7), ((t.month.toNat : ℤ) - 1, 12)] := by
  obtain ⟨⟨o₁, z₁⟩, hw, h⟩ := Option.bind_eq_some_iff.mp h
  obtain ⟨⟨o₂, z₂⟩, hm, h⟩ := Option.bind_eq_some_iff.mp h
  obtain ⟨r, -, rfl⟩ := Option.map_eq_some_iff.mp h
  have hl := toText_lookup hm
  rw [toText_lookup hw, List.append_assoc] at hl
  exact hl

lemma directives_format : directives dateFormat =
    [.conv (ch 's'), .lit (ch ' '), .conv (ch 's'), .lit (ch ' '), .conv (ch 'x'), .lit (ch ':'),
      .conv (ch 'x'), .lit (ch ':'), .conv (ch 'x'), .lit (ch ' '), .lit (ch 'U'), .lit (ch 'T'),
      .lit (ch 'C'), .lit (ch ' '), .conv (ch 'x'), .conv (ch 'x'), .lit (ch '\n')] := by
  have hf : dateFormat = ['%', 's', ' ', '%', 's', ' ', '%', 'x', ':', '%', 'x', ':', '%', 'x', ' ', 'U',
      'T', 'C', ' ', '%', 'x', '%', 'x', '\n'].map ch := rfl
  rw [hf]
  simp [directives, ch]

lemma conversionText_hex (v : BitVec 8) : conversionText mem (ch 'x') (v.setWidth 32) = hex v := by
  have hv : (v.setWidth 32).toNat = v.toNat := by
    rw [BitVec.toNat_setWidth, Nat.mod_eq_of_lt (v.isLt.trans (by decide))]
  rw [conversionText, if_pos (by decide), numberText, if_neg (by decide), if_pos rfl, hv, hex]

lemma dates_fit : ∀ s ∈ datesStr, 0 ∉ s ∧ s.length < strSize := by decide

lemma months_fit : ∀ s ∈ monthsStr, 0 ∉ s ∧ s.length < strSize := by decide

lemma getD_mem (h : n < table.length) : table.getD n [] ∈ table := by
  rw [List.getD_eq_getElem _ _ h]
  exact List.getElem_mem h

lemma dateToText_eq (h2 : 2 ≤ num.toNat) (h7 : num.toNat ≤ 7) :
    dateToText putchar I U num z fuel =
      some (strcpy U.bytes (datesStr.getD (num.toNat - 2) []),
        ⟨z.terminal, z.lookups ++ [((num.toNat : ℤ) - 2, 7)]⟩) := by
  have hlen : datesStr.length = 7 := rfl
  have hi : ((num.toNat : ℤ) - 2).toNat = num.toNat - 2 := by omega
  have h1 : 1 ≤ num := BitVec.le_def.mpr (le_trans (by decide) h2)
  have hl : num ≤ 7 := BitVec.le_def.mpr h7
  rw [dateToText, toText_inside h1 hl (by omega) (by omega), hi, hlen]

lemma monthToText_eq (h1 : 1 ≤ num.toNat) (h12 : num.toNat ≤ 12) :
    monthToText putchar I U num z fuel =
      some (strcpy U.bytes (monthsStr.getD (num.toNat - 1) []),
        ⟨z.terminal, z.lookups ++ [((num.toNat : ℤ) - 1, 12)]⟩) := by
  have hlen : monthsStr.length = 12 := rfl
  have hi : ((num.toNat : ℤ) - 1).toNat = num.toNat - 1 := by omega
  have h1' : 1 ≤ num := BitVec.le_def.mpr h1
  have hl : num ≤ 12 := BitVec.le_def.mpr h12
  rw [monthToText, toText_inside h1' hl (by omega) (by omega), hi, hlen]

lemma rtcPrintStruct_prints (putchar : σ → Char8 → σ) (I : Image) (U : Unset) (z : Screen σ)
    (h2 : 2 ≤ t.dayOfWeek.toNat) (h7 : t.dayOfWeek.toNat ≤ 7)
    (h1 : 1 ≤ t.month.toNat) (h12 : t.month.toNat ≤ 12) :
    ∃ z', Returns (rtcPrintStruct putchar I U t z) z' ∧
      z'.terminal = t.line.foldl putchar z.terminal := by
  have hlen : datesStr.length = 7 := rfl
  have hlen' : monthsStr.length = 12 := rfl
  obtain ⟨hw0, hwl⟩ := dates_fit _ (getD_mem (n := t.dayOfWeek.toNat - 2) (by omega))
  obtain ⟨hm0, hml⟩ := months_fit _ (getD_mem (n := t.month.toNat - 1) (by omega))
  have hweekday := strcpy_at U.bytes hw0
  have hmonth := strcpy_at U.bytes hm0
  generalize hdate : strcpy U.bytes (datesStr.getD (t.dayOfWeek.toNat - 2) []) = weekday at hweekday
  generalize hname : strcpy U.bytes (monthsStr.getD (t.month.toNat - 1) []) = month at hmonth
  have hw := overlay_apart month (overlay_at I.mem I.weekday hweekday hwl (by decide)) I.locals_apart hwl
  have hm := overlay_at (overlay I.mem I.weekday strSize weekday) I.month hmonth hml (by decide)
  have hf := overlay_apart month (overlay_apart weekday I.format_at I.weekday_apart (Nat.lt_succ_self _))
    I.month_apart (Nat.lt_succ_self _)
  generalize hmem : overlay (overlay I.mem I.weekday strSize weekday) I.month strSize month = mem
    at hw hm hf
  have hcut : .conv 0 ∉ directives dateFormat := by
    rw [directives_format]
    decide
  obtain ⟨s, hrun, hp⟩ := kprintf_printed putchar
    (fun i => [I.weekday, I.month, t.hour.setWidth 32, t.minute.setWidth 32, t.second.setWidth 32,
      t.century.setWidth 32, t.year.setWidth 32].getD i (U.words i)) U.bytes z.terminal hf hcut
  refine ⟨⟨s.terminal, z.lookups ++ [((t.dayOfWeek.toNat : ℤ) - 2, 7)] ++
    [((t.month.toNat : ℤ) - 1, 12)]⟩, ?_, ?_⟩
  · obtain ⟨N, hN⟩ := hrun
    refine ⟨N, fun fuel hf => ?_⟩
    rw [rtcPrintStruct, dateToText_eq h2 h7, Option.bind_some]
    dsimp only
    rw [monthToText_eq h1 h12, Option.bind_some]
    dsimp only
    rw [hdate, hname, hmem, hN fuel hf, Option.map_some]
  · rw [hp.terminal, directives_format]
    simp only [expand, List.getD_cons_zero, List.getD_cons_succ, conversionText_hex,
      conversionText_string I.weekday_ne, conversionText_string I.month_ne, string_eq hw, string_eq hm]
    rw [Time.line, line]
    simp [text]

end TinuOS.Rtc
