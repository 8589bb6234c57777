import TinuOS.Devices.Serial
import TinuOS.Monitor.Kprintf

/-! `devices/tty.c`, `printf.c` and `cpu.c`: formatted text for the screen of the BIOS and for the serial
port, which `serial_enable` of `devices/early_serial_printk.c` has set up. -/

namespace TinuOS.Console

open Library Printk Devices

def ierReg : BitVec 16 := ioBase + 1
def msReg : BitVec 16 := ioBase + 1
def iirReg : BitVec 16 := ioBase + 2
def lcrReg : BitVec 16 := ioBase + 3
def mcrReg : BitVec 16 := ioBase + 4

/-- The port at `IO_BASE`. `status k` is what the `k`th read of the line status returns, `ready` is
whether the last of them showed room for a byte, and the bytes on the wire are kept with that. -/
structure Uart where
  ier : BitVec 8
  fcr : BitVec 8
  lcr : BitVec 8
  mcr : BitVec 8
  divisor : BitVec 16
  status : ℕ → BitVec 8
  reads : ℕ
  ready : Bool
  wire : List (BitVec 8 × Bool)

def xmtrdy : BitVec 8 := 0x20

namespace Uart

def dlab (u : Uart) : Bool := u.lcr.getLsbD 7

def outb (u : Uart) (v : BitVec 8) (port : BitVec 16) : Uart :=
  if port = thrReg then
    if u.dlab then { u with divisor := u.divisor.extractLsb' 8 8 ++ v }
    else { u with wire := u.wire ++ [(v, u.ready)], ready := false }
  else if port = ierReg then
    if u.dlab then { u with divisor := v ++ u.divisor.extractLsb' 0 8 } else { u with ier := v }
  else if port = iirReg then { u with fcr := v }
  else if port = lcrReg then { u with lcr := v }
  else if port = mcrReg then { u with mcr := v }
  else u

def inbLsr (u : Uart) : BitVec 8 × Uart :=
  (u.status u.reads, { u with reads := u.reads + 1, ready := u.status u.reads &&& xmtrdy ≠ 0 })

end Uart

def serialEnable (u : Uart) : Uart :=
  let u := u.outb 0x00 ierReg
  let u := u.outb 0x80 lcrReg
  let u := u.outb 0x03 lsReg
  let u := u.outb 0x00 msReg
  let u := u.outb 0x03 lcrReg
  let u := u.outb 0xC7 iirReg
  u.outb 0x0B mcrReg

def consoleInit (u : Uart) : Uart := serialEnable u

def waitReady : ℕ → Uart → Uart
  | 0, u => u
  | timeout + 1, u =>
    let (v, u) := u.inbLsr
    if v &&& xmtrdy = 0 then waitReady timeout u else u

def serialPutchar (ch : BitVec 8) (u : Uart) : Uart := (waitReady 0xFFFF u).outb ch thrReg

structure Tty where
  bios : List (BitVec 8)
  uart : Uart

def biosputchar (ch : BitVec 8) (t : Tty) : Tty := { t with bios := t.bios ++ [ch] }

def emit (t : Tty) (ch : BitVec 8) : Tty :=
  let t := biosputchar ch t
  { t with uart := serialPutchar ch t.uart }

def putchar (t : Tty) (ch : BitVec 8) : Tty :=
  let t := if ch = 0x0A then emit t 0x0D else t
  emit t ch

def puts (fuel : ℕ) (cells : ℕ → Char8) (str : ℕ) (t : Tty) : Option Tty :=
  Monitor.putString putchar fuel cells str t

structure Printed where
  printed : ℕ
  buf : Out Char8
  tty : Tty

def printf (buf : ℕ → Char8) (fmt : List Char8) (args : List Arg) (t : Tty) (fuel : ℕ) : Option Printed :=
  (vasprintf buf fmt args).bind fun (printed, o) =>
    (puts fuel o.cells 0 t).map fun t => ⟨printed, o, t⟩

/-- A call of `printf`; `buf` is what the stack held. -/
structure Printf where
  buf : ℕ → Char8
  fmt : List Char8
  args : List Arg

def printfs : List Printf → Tty → ℕ → Option (List (Out Char8) × Tty)
  | [], t, _ => some ([], t)
  | p :: ps, t, fuel =>
    (printf p.buf p.fmt p.args t fuel).bind fun r =>
      (printfs ps r.tty fuel).map fun (bufs, t) => (r.buf :: bufs, t)

end TinuOS.Console
