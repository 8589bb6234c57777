import TinuOS.Library.Chain
import TinuOS.Library.Significand
import TinuOS.Umalloc.Header

/-! `mmu/umalloc.c`: the kernel heap. The address of the array `heap` that `ksbrk` keeps is a
parameter, and each loop takes a number of turns after which it gives up with `none`. -/

namespace TinuOS.Umalloc

open Library

inductive Output
  | kprintf (data : String)
  | terminalWriteHex (n : BitVec 32)
  deriving DecidableEq

structure Heap where
  mem : Mem
  heapBottom : Addr
  heapTop : Addr
  gKbrk : Addr

def toFloat (v : ℕ) : ℕ := roundEven 24 v

def floatExponent (v : ℕ) : ℕ := (toFloat v).log2 + 0x7f

def nextPowerOfTwo (v : BitVec 32) : BitVec 32 :=
  if 1 < v then
    -- the processor takes the shift count of a 32-bit shift modulo 32
    let t := 1#32 <<< ((floatExponent v.toNat - 0x7f) % 32)
    t <<< (if t < v then 1 else 0)
  else 1

def totalSize (size : BitVec 32) : BitVec 32 := nextPowerOfTwo size + BitVec.ofNat 32 sizeofHeader

section Free

def mergeAt : ℕ → Mem → Addr → Option Mem
  | 0, _, _ => none
  | fuel + 1, mem, m =>
    -- the second test is made also when there is no next block, on the header at address 0
    if !(header mem m).isHole ∧ !(header mem (next mem m)).isHole ∧ next mem m ≠ 0 then
      let mem := setSize mem m
        ((header mem m).size + ((header mem (next mem m)).size + BitVec.ofNat 32 sizeofHeader))
      mergeAt fuel (setNext mem m (next mem (next mem m))) m
    else some mem

def coalesce : ℕ → Mem → Addr → Option Mem
  | 0, _, _ => none
  | fuel + 1, mem, m =>
    if m = 0 then some mem
    else (mergeAt fuel mem m).bind fun mem => coalesce fuel mem (next mem m)

def free (fuel : ℕ) (h : Heap) (ap : Addr) : Option (List Output × Heap) :=
  let m := ap - BitVec.ofNat 32 sizeofHeader
  if (header h.mem m).magic ≠ heapMagic then some ([.kprintf "Free() is corrupted!\n"], h)
  else (seek (next h.mem) 0 (· = m) fuel h.heapBottom).bind fun n =>
    if n = 0 then
      some ([.kprintf "Tried to free the memory at 0x", .terminalWriteHex ap,
        .kprintf " which does not exist!\n"], h)
    else
      (coalesce fuel (setIsHole h.mem m false) h.heapBottom).map fun mem => ([], { h with mem := mem })

end Free

section Malloc

variable (heap : Addr)

def Heap.opened (h : Heap) : Heap :=
  if h.heapBottom = 0 then
    { h with heapBottom := heap, gKbrk := heap, heapTop := heap + BitVec.ofNat 32 maxHeap }
  else h

def ksbrk (h : Heap) (allocate : BitVec 32) : Addr × List Output × Heap :=
  if allocate = 0 then (0, [.kprintf "Could not allocate NULL block!\n"], h)
  else
    let h := h.opened heap
    let newBrk := h.gKbrk + allocate
    if newBrk ≤ h.heapBottom then (0, [], h)
    else if h.heapTop ≤ newBrk then (0, [], h)
    else (h.gKbrk, [], { h with gKbrk := newBrk })

-- the hole `m` becomes a block in use, followed by a new hole in what is left of it
def split (mem : Mem) (m : Addr) (size total : BitVec 32) : Mem :=
  let n := m + total
  let mem := setSize mem n ((header mem m).size - total)
  let mem := setMagic mem n heapMagic
  let mem := setNext mem n (next mem m)
  let mem := setIsHole mem n false
  let mem := setSize mem m size
  let mem := setNext mem m n
  setIsHole mem m true

def grow (h : Heap) (size : BitVec 32) : Addr × List Output × Heap :=
  let (p, out, h) := ksbrk heap h (totalSize size)
  if p = 0 then (0, out, h)
  else
    let mem := setSize h.mem p size
    let mem := setMagic mem p heapMagic
    let mem := setIsHole mem p true
    -- the test `(int) total_size == allocate` before this store always succeeds
    let mem := setNext mem p 0
    (p + BitVec.ofNat 32 sizeofHeader, out, { h with mem := mem })

def malloc (fuel : ℕ) (h : Heap) (size : BitVec 32) : Option (Addr × List Output × Heap) :=
  if size = 0 then some (0, [], h)
  else if h.heapBottom ≠ 0 then
    if (header h.mem h.heapBottom).magic ≠ heapMagic then
      some (0, [.kprintf "Malloc() is corrupted!\n"], h)
    else
      (seek (next h.mem) 0 (fun m => !(header h.mem m).isHole) fuel
        h.heapBottom).map fun m =>
          if m = 0 then grow heap h size
          else (m + BitVec.ofNat 32 sizeofHeader, [],
            { h with mem := split h.mem m size (totalSize size) })
  else some (grow heap h size)

end Malloc

end TinuOS.Umalloc
