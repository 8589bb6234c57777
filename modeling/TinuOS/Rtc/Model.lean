import TinuOS.Monitor.Kprintf

/-! `drivers/rtc/clock.c`: the clock in the CMOS, read through its two I/O ports and printed. -/

namespace TinuOS.Rtc

open Library Printk Monitor

structure Device (δ : Type*) where
  outb : BitVec 8 → BitVec 16 → δ → δ
  inb : BitVec 16 → δ → BitVec 8 × δ

structure Time where
  second : BitVec 8
  minute : BitVec 8
  hour : BitVec 8
  dayOfWeek : BitVec 8
  dayOfMonth : BitVec 8
  month : BitVec 8
  year : BitVec 8
  century : BitVec 8
  deriving DecidableEq

def Time.bytes (t : Time) : List (BitVec 8) :=
  [t.second, t.minute, t.hour, t.dayOfWeek, t.dayOfMonth, t.month, t.year, t.century]

def memcmp : List (BitVec 8) → List (BitVec 8) → ℤ
  | u1 :: s1, u2 :: s2 => if u1 ≠ u2 then u1.toNat - u2.toNat else memcmp s1 s2
  | _, _ => 0

def cmosAddress : BitVec 16 := 0x70
def cmosData : BitVec 16 := 0x71

section

variable {δ : Type*} (D : Device δ)

def readRegister (reg : BitVec 8) (d : δ) : BitVec 8 × δ := D.inb cmosData (D.outb reg cmosAddress d)

def writeRegister (reg value : BitVec 8) (d : δ) : δ := D.outb value cmosData (D.outb reg cmosAddress d)

def readTime (d : δ) : Time × δ :=
  let (second, d) := readRegister D 0x00 d
  let (minute, d) := readRegister D 0x02 d
  let (hour, d) := readRegister D 0x04 d
  let (month, d) := readRegister D 0x08 d
  let (year, d) := readRegister D 0x09 d
  let (dayOfWeek, d) := readRegister D 0x06 d
  let (dayOfMonth, d) := readRegister D 0x07 d
  let (century, d) := readRegister D 0x32 d
  ({ second, minute, hour, dayOfWeek, dayOfMonth, month, year, century }, d)

/-- Beside its variables the loop keeps what each of its passes has read. -/
structure Reading (δ : Type*) where
  curr : Time
  last : Time
  currentTime : Time
  device : δ
  passes : List Time

def Reading.pass (r : Reading δ) : Reading δ :=
  let (t, d) := readTime D r.device
  { r with currentTime := t, device := d, passes := r.passes ++ [t], last := r.curr }

def rtcLoop : ℕ → Reading δ → Option (Reading δ)
  | 0, _ => none
  | fuel + 1, r =>
    if memcmp r.curr.bytes r.last.bytes ≠ 0 then rtcLoop fuel (r.pass D) else some r

def rtcHandler (curr currentTime : Time) (d : δ) (fuel : ℕ) : Option (Reading δ) :=
  rtcLoop D fuel
    { curr := { curr with year := 0 }
      last := ⟨0xFF, 0xFF, 0xFF, 0xFF, 0xFF, 0xFF, 0xFF, 0xFF⟩
      currentTime
      device := d
      passes := [] }

def rtcInstall (d : δ) : Bool × δ :=
  let (status, d) := readRegister D 0x0B d
  let status := status ||| 0x02#8
  let status := status ||| 0x10#8
  let status := status &&& ~~~0x20#8
  let status := status &&& ~~~0x40#8
  let bcd := !status.getLsbD 2
  let d := writeRegister D 0x0B status d
  (bcd, (readRegister D 0x0C d).2)

end

def text (s : String) : List Char8 := s.toList.map ch

def datesStr : List (List Char8) := ["Mon", "Tue", "Wed", "Thu", "Fri", "Sat", "Sun"].map text

def monthsStr : List (List Char8) :=
  ["Jan", "Feb", "Mar", "Apr", "May", "Jun", "Jul", "Aug", "Sept", "Oct", "Nov", "Dec"].map text

def dateFormat : List Char8 := text "%s %s %x:%x:%x UTC %x%x\n"

/-- The bytes of the object at `p` lie over those of the memory. -/
def overlay (mem : Memory) (p : BitVec 32) (n : ℕ) (object : ℕ → Char8) : Memory :=
  fun a => if (a - p).toNat < n then object (a - p).toNat else mem a

def strSize : ℕ := 200

def Apart (p : BitVec 32) (m : ℕ) (q : BitVec 32) (n : ℕ) : Prop :=
  ∀ i < m, n ≤ (p + BitVec.ofNat 32 i - q).toNat

/-- Where the program has the three formats and, in the frame of `rtc_print_struct`, the locals
`weekday` and `month`. -/
structure Image where
  mem : Memory
  invalidWeek : BitVec 32
  invalidMonth : BitVec 32
  format : BitVec 32
  weekday : BitVec 32
  month : BitVec 32
  week_at : StringAt 0 (mem.bytes invalidWeek) 0 (text "Invalid Week")
  month_at : StringAt 0 (mem.bytes invalidMonth) 0 (text "Invalid Month")
  format_at : StringAt 0 (mem.bytes format) 0 dateFormat
  weekday_ne : weekday ≠ 0
  month_ne : month ≠ 0
  locals_apart : Apart weekday strSize month strSize
  weekday_apart : Apart format (dateFormat.length + 1) weekday strSize
  month_apart : Apart format (dateFormat.length + 1) month strSize

/-- What the code reads without having set it: words and bytes of the stack, and what it takes for
strings at the words around a table, which need not be any. -/
structure Unset where
  words : ℕ → BitVec 32
  bytes : ℕ → Char8
  strings : ℤ → List Char8
  curr : Time

def strcpy (dest : ℕ → Char8) (src : List Char8) : ℕ → Char8 :=
  let o := (cstr src).foldl Out.put ⟨dest, 0, []⟩
  (o.store o.ptr 0).cells

structure Screen (σ : Type*) where
  terminal : σ
  lookups : List (ℤ × ℕ)

section

variable {σ : Type*} (putchar : σ → Char8 → σ) (I : Image) (U : Unset)

def toText (table : List (List Char8)) (limit : BitVec 8) (message : BitVec 32) (index : ℤ)
    (num : BitVec 8) (s : Screen σ) (fuel : ℕ) : Option ((ℕ → Char8) × Screen σ) :=
  let printed :=
    if num < 1 ∨ limit < num then
      (kprintf putchar I.mem message U.words U.bytes s.terminal fuel).map Printing.terminal
    else some s.terminal
  printed.map fun t =>
    let name := if 0 ≤ index ∧ index < table.length then table.getD index.toNat [] else U.strings index
    (strcpy U.bytes name, ⟨t, s.lookups ++ [(index, table.length)]⟩)

def dateToText (num : BitVec 8) (s : Screen σ) (fuel : ℕ) : Option ((ℕ → Char8) × Screen σ) :=
  toText putchar I U datesStr 7 I.invalidWeek (num.toNat - 2) num s fuel

def monthToText (num : BitVec 8) (s : Screen σ) (fuel : ℕ) : Option ((ℕ → Char8) × Screen σ) :=
  toText putchar I U monthsStr 12 I.invalidMonth (num.toNat - 1) num s fuel

def rtcPrintStruct (t : Time) (s : Screen σ) (fuel : ℕ) : Option (Screen σ) :=
  (dateToText putchar I U t.dayOfWeek s fuel).bind fun (weekday, s) =>
  (monthToText putchar I U t.month s fuel).bind fun (month, s) =>
    let mem := overlay (overlay I.mem I.weekday strSize weekday) I.month strSize month
    let args := [I.weekday, I.month, t.hour.setWidth 32, t.minute.setWidth 32, t.second.setWidth 32,
      t.century.setWidth 32, t.year.setWidth 32]
    (kprintf putchar mem I.format (fun i => args.getD i (U.words i)) U.bytes s.terminal fuel).map
      fun p => { s with terminal := p.terminal }

def showClock {δ : Type*} (D : Device δ) (currentTime : Time) (d : δ) (t : σ) (fuel : ℕ) :
    Option (Screen σ) :=
  (rtcHandler D U.curr currentTime (rtcInstall D d).2 fuel).bind fun r =>
    rtcPrintStruct putchar I U r.currentTime ⟨t, []⟩ fuel

end

end TinuOS.Rtc
