import TinuOS.Rtc.Output
import TinuOS.Rtc.Reading

/-! Which dates are printed as they are, by a clock that stands still. -/

namespace TinuOS.Rtc

open Library Printk Monitor

structure Cmos where
  index : BitVec 8
  file : BitVec 8 → BitVec 8

def cmos : Device Cmos where
  outb v port c :=
    if port = cmosAddress then { c with index := v }
    else if port = cmosData then { c with file := Function.update c.file c.index v }
    else c
  inb port c := (if port = cmosData then c.file c.index else 0, c)

def Cmos.time (file : BitVec 8 → BitVec 8) : Time where
  second := file 0x00
  minute := file 0x02
  hour := file 0x04
  dayOfWeek := file 0x06
  dayOfMonth := file 0x07
  month := file 0x08
  year := file 0x09
  century := file 0x32

/-- The week starts with Sunday, as day 1. -/
structure Date where
  weekday : ℕ
  month : ℕ
  day : ℕ
  year : ℕ
  hour : ℕ
  minute : ℕ
  second : ℕ
  weekday_range : 1 ≤ weekday ∧ weekday ≤ 7
  month_range : 1 ≤ month ∧ month ≤ 12
  day_range : 1 ≤ day ∧ day ≤ 31
  year_lt : year < 10000
  hour_lt : hour < 24
  minute_lt : minute < 60
  second_lt : second < 60

def weekdayNames : List (List Char8) := ["Sun", "Mon", "Tue", "Wed", "Thu", "Fri", "Sat"].map text

def Date.text (c : Date) : List Char8 :=
  line (weekdayNames.getD (c.weekday - 1) []) (monthsStr.getD (c.month - 1) []) (numeral 10 c.hour)
    (numeral 10 c.minute) (numeral 10 c.second) (numeral 10 c.year)

def encode (binary : Bool) (n : ℕ) : BitVec 8 :=
  if binary then BitVec.ofNat 8 n else BitVec.ofNat 8 (n / 10 * 16 + n % 10)

def binaryMode (file : BitVec 8 → BitVec 8) : Bool := (file 0x0B).getLsbD 2

structure Holds (file : BitVec 8 → BitVec 8) (c : Date) : Prop where
  second : file 0x00 = encode (binaryMode file) c.second
  minute : file 0x02 = encode (binaryMode file) c.minute
  hour : file 0x04 = encode (binaryMode file) c.hour
  weekday : file 0x06 = encode (binaryMode file) c.weekday
  day : file 0x07 = encode (binaryMode file) c.day
  month : file 0x08 = encode (binaryMode file) c.month
  year : file 0x09 = encode (binaryMode file) (c.year % 100)
  century : file 0x32 = encode (binaryMode file) (c.year / 100)

def Date.file (c : Date) (binary : Bool) (reg : BitVec 8) : BitVec 8 :=
  if reg = 0x00 then encode binary c.second
  else if reg = 0x02 then encode binary c.minute
  else if reg = 0x04 then encode binary c.hour
  else if reg = 0x06 then encode binary c.weekday
  else if reg = 0x07 then encode binary c.day
  else if reg = 0x08 then encode binary c.month
  else if reg = 0x09 then encode binary (c.year % 100)
  else if reg = 0x32 then encode binary (c.year / 100)
  else if reg = 0x0B then (if binary then 0x04 else 0x00)
  else 0x00

/-- The clock is shown as this date, and no name was looked up outside of its table. -/
def Shows (I : Image) (U : Unset) (currentTime : Time) (c : Cmos) (date : Date) : Prop :=
  ∃ s, Returns (showClock (fun t a => t ++ [a]) I U cmos currentTime c []) s ∧
    (∀ i n, (i, n) ∈ s.lookups → 0 ≤ i ∧ i < n) ∧ s.terminal = date.text

variable {σ : Type*} {putchar : σ → Char8 → σ} {I : Image} {U : Unset} {currentTime : Time} {c : Cmos}
  {date : Date} {reg v : BitVec 8} {file : BitVec 8 → BitVec 8} {binary : Bool} {m n : ℕ} {t : σ}

lemma Date.holds (date : Date) (binary : Bool) : Holds (date.file binary) date := by
  have hb : binaryMode (date.file binary) = binary := by
    cases binary
    · simp [binaryMode, Date.file]
    · simp [binaryMode, Date.file]
  constructor <;> rw [hb] <;> rfl

@[simp] lemma readRegister_cmos : readRegister cmos reg c = (c.file reg, { c with index := reg }) := rfl

@[simp] lemma writeRegister_cmos :
    writeRegister cmos reg v c = ⟨reg, Function.update c.file reg v⟩ := rfl

lemma readTime_cmos : (readTime cmos c).1 = Cmos.time c.file := rfl

lemma rtcInstall_time : Cmos.time (rtcInstall cmos c).2.file = Cmos.time c.file := by
  simp [rtcInstall, Cmos.time]

lemma showClock_returns {z : Screen σ} : Returns (showClock putchar I U cmos currentTime c t) z ↔
    Returns (rtcPrintStruct putchar I U (Cmos.time c.file) ⟨t, []⟩) z := by
  obtain ⟨r, hr, ht, -⟩ := rtcHandler_once cmos U.curr currentTime (rtcInstall cmos c).2
  replace ht := congrArg Prod.fst ht
  rw [readTime_cmos, rtcInstall_time] at ht
  rw [← ht]
  exact hr.bind_iff

lemma encode_digit (h : n < 10) : (encode binary n).toNat = n := by
  rw [encode]
  split_ifs
  · rw [BitVec.toNat_ofNat]
    omega
  · rw [BitVec.toNat_ofNat]
    omega

lemma encode_ten (h : 10 ≤ n) (h' : n < 20) : (encode false n).toNat = n + 6 := by
  rw [encode, if_neg Bool.false_ne_true, BitVec.toNat_ofNat]
  omega

lemma hex_bcd (h : n < 100) : hex (encode false n) = numeral 10 n := by
  revert n
  decide +kernel

lemma hex_binary (h : n < 100) : (hex (encode true n)).length ≤ (numeral 10 n).length ∧
    (hex (encode true n)).length ≤ 2 ∧ hex (encode true n) ≠ (lowDigits 10 2 n).map ch ∧
    hex 0 ++ hex (encode true n) ≠ numeral 10 n := by
  revert n
  decide +kernel

lemma numeral_bcd (h : n < 100) : (numeral 10 n = (lowDigits 10 2 n).map ch ↔ 10 ≤ n) ∧
    numeral 10 0 ++ numeral 10 n ≠ numeral 10 n := by
  revert n
  decide +kernel

lemma numeral_year (hn : 100 ≤ n) :
    numeral 10 n = numeral 10 (n / 100) ++ (lowDigits 10 2 (n % 100)).map ch := by
  have hsum : n / 100 * 10 ^ 2 + n % 100 = n := Nat.div_add_mod' n 100
  have hd := toDigits_append_lowDigits (b := 10) (k := 2) (n := n % 100) (by decide)
    (Nat.div_pos hn (by decide)) (Nat.mod_lt n (by decide))
  rw [hsum] at hd
  rw [numeral, numeral, ← List.map_append, ← hd]

lemma year_iff (binary : Bool) (hn : n < 10000) :
    hex (encode binary (n / 100)) ++ hex (encode binary (n % 100)) = numeral 10 n ↔
      binary = false ∧ 100 ≤ n ∧ 10 ≤ n % 100 := by
  have hc : n / 100 < 100 := Nat.div_lt_of_lt_mul hn
  have hy : n % 100 < 100 := Nat.mod_lt n (by decide)
  cases binary with
  | false =>
    rw [hex_bcd hc, hex_bcd hy]
    by_cases h100 : 100 ≤ n
    · rw [numeral_year h100, List.append_cancel_left_eq, (numeral_bcd hy).1]
      exact ⟨fun h => ⟨rfl, h100, h⟩, fun h => h.2.2⟩
    · have hlt : n < 100 := by omega
      rw [Nat.div_eq_of_lt hlt, Nat.mod_eq_of_lt hlt]
      exact iff_of_false (numeral_bcd hlt).2 fun h => h100 h.2.1
  | true =>
    refine iff_of_false (fun h => ?_) fun h => Bool.false_ne_true h.1.symm
    by_cases h100 : 100 ≤ n
    · obtain ⟨hle, -, -, -⟩ := hex_binary hc
      obtain ⟨-, hle', hne, -⟩ := hex_binary hy
      rw [numeral_year h100] at h
      have hlen := congrArg List.length h
      rw [List.length_append, List.length_append, List.length_map, lowDigits_length] at hlen
      exact hne (List.append_inj h (by omega)).2
    · have hlt : n < 100 := by omega
      rw [Nat.div_eq_of_lt hlt, Nat.mod_eq_of_lt hlt] at h
      exact (hex_binary hlt).2.2.2 h

lemma space_notMem_numeral (hb : 1 < m) (hb' : m ≤ 16) : ch ' ' ∉ numeral m n := by
  intro h
  obtain ⟨d, hd, h0⟩ := mem_numeral hb hb' h
  have hne : ∀ d < 16, ch ' ' ≠ ch (Nat.digitChar d) := by decide
  exact hne d hd h0

lemma line_eq (w m h i s y : List Char8) : line w m h i s y =
    w ++ ch ' ' :: m ++ ch ' ' :: h ++ ch ':' :: i ++ ch ':' :: s ++ text " UTC" ++
      ch ' ' :: (y ++ [ch '\n']) := by
  simp [line, text]

lemma space_notMem_year (v v' : BitVec 8) : ch ' ' ∉ hex v ++ hex v' := fun hmem =>
  (List.mem_append.mp hmem).elim (space_notMem_numeral (by decide) (by decide))
    (space_notMem_numeral (by decide) (by decide))

lemma line_year {w m h i s y w' m' h' i' s' y' : List Char8}
    (he : line w m h i s y = line w' m' h' i' s' y') (hy : ch ' ' ∉ y) (hy' : ch ' ' ∉ y') : y = y' := by
  have hn : ch ' ' ∉ [ch '\n'] := by decide
  rw [line_eq, line_eq] at he
  have hend := append_cons_inj_right he (fun h => (List.mem_append.mp h).elim hy hn)
    fun h => (List.mem_append.mp h).elim hy' hn
  exact List.append_cancel_right hend

lemma date_name (h2 : 2 ≤ n) (h7 : n ≤ 7) :
    datesStr.getD (n - 2) [] = weekdayNames.getD (n - 1) [] := by
  have hall : ∀ n ≤ 7, 2 ≤ n → datesStr.getD (n - 2) [] = weekdayNames.getD (n - 1) [] := by decide
  exact hall n h7 h2

lemma holds_weekday (h : Holds file date) : (Cmos.time file).dayOfWeek.toNat = date.weekday := by
  have hr := date.weekday_range
  rw [Cmos.time, h.weekday]
  exact encode_digit (by omega)

lemma holds_month (h : Holds file date) (hm : date.month ≤ 9) :
    (Cmos.time file).month.toNat = date.month := by
  rw [Cmos.time, h.month]
  exact encode_digit (by omega)

lemma time_line (h : Holds file date) (hb : binaryMode file = false) (hw : 2 ≤ date.weekday)
    (hm : date.month ≤ 9) (hy : 100 ≤ date.year) (hy' : 10 ≤ date.year % 100) :
    (Cmos.time file).line = date.text := by
  have hyear := (year_iff false date.year_lt).mpr ⟨rfl, hy, hy'⟩
  have hhour := date.hour_lt
  have hminute := date.minute_lt
  have hsecond := date.second_lt
  rw [Time.line, Date.text, holds_weekday h, holds_month h hm, date_name hw date.weekday_range.2]
  simp only [Cmos.time]
  rw [h.hour, h.minute, h.second, h.century, h.year, hb, hyear, hex_bcd (by omega), hex_bcd (by omega),
    hex_bcd (by omega)]

lemma showClock_line (I : Image) (U : Unset) (currentTime : Time)
    (h2 : 2 ≤ (Cmos.time c.file).dayOfWeek.toNat) (h7 : (Cmos.time c.file).dayOfWeek.toNat ≤ 7)
    (h1 : 1 ≤ (Cmos.time c.file).month.toNat) (h12 : (Cmos.time c.file).month.toNat ≤ 12) : ∃ z,
    Returns (showClock (fun t a => t ++ [a]) I U cmos currentTime c []) z ∧
      z.terminal = (Cmos.time c.file).line := by
  obtain ⟨z, hrun, ht⟩ := rtcPrintStruct_prints (fun (t : List Char8) a => t ++ [a]) I U ⟨[], []⟩
    h2 h7 h1 h12
  refine ⟨z, showClock_returns.mpr hrun, ?_⟩
  rw [ht, List.foldl_append_eq_append, ← List.flatMap_def, List.flatMap_singleton',
    List.nil_append]

lemma showClock_lookups {z : Screen (List Char8)}
    (h : Returns (showClock (fun t a => t ++ [a]) I U cmos currentTime c []) z) : z.lookups =
      [(((Cmos.time c.file).dayOfWeek.toNat : ℤ) - 2, 7),
        (((Cmos.time c.file).month.toNat : ℤ) - 1, 12)] := by
  obtain ⟨fuel, hr⟩ := (showClock_returns.mp h).exists_fuel
  exact rtcPrintStruct_lookups hr

theorem shows_iff (I : Image) (U : Unset) (currentTime : Time) (h : Holds c.file date) :
    Shows I U currentTime c date ↔ binaryMode c.file = false ∧ date.weekday ≠ 1 ∧ date.month ≤ 9 ∧
      100 ≤ date.year ∧ 10 ≤ date.year % 100 := by
  have hw := holds_weekday h
  have hr := date.weekday_range
  have hr' := date.month_range
  constructor
  · rintro ⟨z, hrun, hin, htext⟩
    have hl := showClock_lookups hrun
    have hin₁ := hin _ _ (hl ▸ List.mem_cons_self)
    have hin₂ := hin _ _ (hl ▸ List.mem_cons_of_mem _ List.mem_cons_self)
    obtain ⟨z', hrun', hline⟩ := showClock_line I U currentTime (c := c) (by omega) (by omega)
      (by omega) (by omega)
    obtain rfl := hrun.unique hrun'
    have hyear := line_year (hline.symm.trans htext) (space_notMem_year _ _)
      (space_notMem_numeral (by decide) (by decide))
    simp only [Cmos.time] at hyear hin₂
    rw [h.century, h.year, year_iff _ date.year_lt] at hyear
    obtain ⟨hb, hy, hy'⟩ := hyear
    refine ⟨hb, by omega, ?_, hy, hy'⟩
    by_contra hm
    rw [h.month, hb, encode_ten (by omega) (by omega)] at hin₂
    omega
  · rintro ⟨hb, hw1, hm, hy, hy'⟩
    have hmonth := holds_month h hm
    obtain ⟨z, hrun, hline⟩ := showClock_line I U currentTime (c := c) (by omega) (by omega)
      (by omega) (by omega)
    refine ⟨z, hrun, fun i n hmem => ?_, hline.trans (time_line h hb (by omega) hm hy hy')⟩
    rw [showClock_lookups hrun, hw, hmonth] at hmem
    simp only [List.mem_cons, Prod.mk.injEq, List.not_mem_nil, or_false] at hmem
    omega

def formats : List Char8 :=
  text "Invalid Week" ++ 0 :: text "Invalid Month" ++ 0 :: dateFormat

def smallImage : Image where
  mem a := formats.getD (a - 0x1000#32).toNat 0
  invalidWeek := 0x1000
  invalidMonth := 0x100D
  format := 0x101B
  weekday := 0x2000
  month := 0x20C8
  week_at := by decide +kernel
  month_at := by decide +kernel
  format_at := by decide +kernel
  weekday_ne := by decide
  month_ne := by decide
  locals_apart i hi := by
    rw [strSize] at hi ⊢
    bv_omega
  weekday_apart i hi := by
    have hlen : dateFormat.length = 24 := rfl
    rw [hlen] at hi
    rw [strSize]
    bv_omega
  month_apart i hi := by
    have hlen : dateFormat.length = 24 := rfl
    rw [hlen] at hi
    rw [strSize]
    bv_omega

def zeroed : Unset := ⟨fun _ => 0, fun _ => 0, fun _ => [], ⟨0, 0, 0, 0, 0, 0, 0, 0⟩⟩

def newYear : Date :=
  ⟨1, 1, 1, 2012, 0, 0, 0, by decide, by decide, by decide, by decide, by decide, by decide, by decide⟩

def monday : Date :=
  ⟨2, 1, 2, 2012, 9, 30, 5, by decide, by decide, by decide, by decide, by decide, by decide, by decide⟩

theorem shows_iff_monday : Shows smallImage zeroed zeroed.curr ⟨0, monday.file false⟩ monday := by
  have hiff := shows_iff smallImage zeroed zeroed.curr (c := ⟨0, monday.file false⟩) (monday.holds false)
  exact hiff.mpr (by decide)

theorem sunday_not_shown : ¬ ∀ (I : Image) (U : Unset) (currentTime : Time) (c : Cmos) (date : Date),
    Holds c.file date → Shows I U currentTime c date := by
  intro h
  obtain ⟨z, hrun, hin, -⟩ := h smallImage zeroed zeroed.curr ⟨0, newYear.file false⟩ newYear
    (newYear.holds false)
  have hlow := (hin _ _ (showClock_lookups hrun ▸ List.mem_cons_self)).1
  rw [holds_weekday (newYear.holds false)] at hlow
  exact absurd hlow (by decide)

end TinuOS.Rtc
