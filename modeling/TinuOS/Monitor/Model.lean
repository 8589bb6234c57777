import Mathlib

/-! `monitor.c`: the text screen. Beside its variables the terminal keeps the indices of its
stores into `terminal_buffer` and the bytes that went to I/O ports. -/

namespace TinuOS.Monitor

def vgaWidth : ℕ := 80
def vgaHeight : ℕ := 25

def vgaColorBlack : BitVec 8 := 0
def vgaColorLightGreen : BitVec 8 := 10

def vgaEntryColor (fg bg : BitVec 8) : BitVec 8 := fg ||| bg <<< 4

def vgaEntry (uc color : BitVec 8) : BitVec 16 := uc.setWidth 16 ||| color.setWidth 16 <<< 8

structure Terminal where
  row : ℕ
  column : ℕ
  attrib : BitVec 8
  buffer : ℕ → BitVec 16
  stores : List ℕ
  outs : List (BitVec 8 × BitVec 16)

namespace Terminal

def store (t : Terminal) (index : ℕ) (v : BitVec 16) : Terminal :=
  { t with buffer := Function.update t.buffer index v, stores := t.stores ++ [index] }

def storeLoop (t : Terminal) (indices : List ℕ) (value : Terminal → ℕ → BitVec 16) : Terminal :=
  indices.foldl (fun t i => t.store i (value t i)) t

def outb (t : Terminal) (v : BitVec 8) (port : BitVec 16) : Terminal :=
  { t with outs := t.outs ++ [(v, port)] }

end Terminal

def moveCursor (t : Terminal) : Terminal :=
  let cursorLocation := BitVec.ofNat 16 (t.row * vgaWidth + t.column)
  let t := t.outb 14 0x3D4
  let t := t.outb ((cursorLocation >>> 8).setWidth 8) 0x3D5
  let t := t.outb 15 0x3D4
  t.outb (cursorLocation.setWidth 8) 0x3D5

def scroll (t : Terminal) : Terminal :=
  let t := { t with attrib := vgaEntryColor vgaColorLightGreen vgaColorBlack }
  let blank := vgaEntry 0x20 t.attrib
  if vgaHeight ≤ t.row then
    let t := t.storeLoop (List.range' (0 * 80) (24 * 80)) fun t i => t.buffer (i + 80)
    let t := t.storeLoop (List.range' (24 * 80) 80) fun _ _ => blank
    { t with row := 24 }
  else t

def terminalInitialize (t : Terminal) : Terminal :=
  let t := { t with
    row := 0
    column := 0
    attrib := vgaEntryColor vgaColorLightGreen vgaColorBlack }
  (List.range vgaHeight).foldl (fun t y =>
    t.storeLoop (List.range' (y * vgaWidth) vgaWidth) fun t _ => vgaEntry 0x20 t.attrib) t

def terminalPutentryat (t : Terminal) (c color : BitVec 8) (x y : ℕ) : Terminal :=
  t.store (y * vgaWidth + x) (vgaEntry c color)

def terminalSetcolor (t : Terminal) (color : BitVec 8) : Terminal := { t with attrib := color }

/-- What `terminal_putchar` does with the cursor before it stores the character. -/
def control (t : Terminal) (c : BitVec 8) : Terminal :=
  let t :=
    if c = 0x08 then (if t.row ≠ 0 then { t with row := t.row - 1 } else t)
    else if c = 0x0D then { t with row := 0 }
    else if c = 0x0A then { t with column := 0, row := t.row + 1 }
    else t
  if 80 ≤ t.row then { t with column := 0, row := t.row + 1 } else t

def advance (t : Terminal) : Terminal :=
  let t := { t with column := t.column + 1 }
  if t.column = vgaWidth then
    let t := { t with column := 0, row := t.row + 1 }
    if t.row = vgaHeight then { t with row := t.row + 1 } else t
  else t

def terminalPutchar (t : Terminal) (c : BitVec 8) : Terminal :=
  let t := control t c
  let t := terminalPutentryat t c t.attrib t.column t.row
  scroll (moveCursor (advance t))

def terminalWrite (t : Terminal) (data : List (BitVec 8)) : Terminal := data.foldl terminalPutchar t

def booted (memory : ℕ → BitVec 16) : Terminal := terminalInitialize ⟨0, 0, 0, memory, [], []⟩

end TinuOS.Monitor
