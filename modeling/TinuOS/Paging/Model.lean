import TinuOS.Kmem.Model

/-! `mmu/mmu.c`: page directories, and the table walk of the processor that they are written for. -/

namespace TinuOS.Paging

open Library Kmem

def extMem : Addr := 0x100000#32
def devSpace : Addr := 0xFE000000#32
def kernLink : Addr := kernBase + extMem

def pde (va : Addr) : BitVec 32 := (va >>> 22) &&& 0x3FF#32
def pte (va : Addr) : BitVec 32 := (va >>> 12) &&& 0x3FF#32

def pteP : BitVec 32 := 1#32 <<< 0
def pteRW : BitVec 32 := 1#32 <<< 1

def pagePresent : BitVec 32 := 0#32 <<< 1
def pageUser : BitVec 32 := 1#32 <<< 2
def pageRead : BitVec 32 := 1#32 <<< 3
def pageWrite : BitVec 32 := 1#32 <<< 4

def slot (table : Addr) (i : BitVec 32) : Addr := table + 4#32 * i

def pagewalk (σ : Machine) (pgdir va : Addr) (_alloc : BitVec 32) : Addr × Machine :=
  let entry := slot pgdir (pde va)
  if σ.mem.load32 entry &&& pteP ≠ 0 then (slot (p2v (σ.mem.load32 entry)) (pte va), σ)
  else
    let (table, σ) := kalloc σ
    let mem := σ.mem.fill table 0 pageSize
    let mem := mem.store32 entry (v2p table ||| pagePresent ||| pageRead ||| pageWrite ||| pageUser)
    (slot table (pte va), { σ with mem := mem })

section Mappages

-- `*pte = (pagewalk(..)) == 0` stores through the pointer `pte`, which nothing ever sets
variable (stray : Addr)

def mapLoop : ℕ → Machine → Addr → Addr → Addr → BitVec 32 → BitVec 32 → Option (BitVec 32 × Machine)
  | 0, _, _, _, _, _, _ => none
  | fuel + 1, σ, pgdir, start, stop, pa, perm =>
    let (found, σ) := pagewalk σ pgdir start 1
    let v : BitVec 32 := if found = 0 then 1 else 0
    let mem := σ.mem.store32 stray v
    if v ≠ 0 then some (-1, { σ with mem := mem })
    else if mem.load32 stray &&& pteP ≠ 0 then
      some (0, { σ with mem := mem }.emit (.kprintf "remapped"))
    else
      let mem := mem.store32 stray (pa ||| perm ||| pteP)
      if start = stop then some (0, { σ with mem := mem })
      else
        mapLoop fuel { σ with mem := mem } pgdir (start + BitVec.ofNat 32 pageSize)
          (stop + BitVec.ofNat 32 pageSize) pa perm

def mappages (fuel : ℕ) (σ : Machine) (pgdir va : Addr) (size pa perm : BitVec 32) :
    Option (BitVec 32 × Machine) :=
  mapLoop stray fuel σ pgdir va (va + size - 1) pa perm

end Mappages

structure Kmap where
  virt : Addr
  phyStart : BitVec 32
  phyEnd : BitVec 32
  perm : BitVec 32
  deriving DecidableEq

-- `data` is the address of the linker symbol
def kmap (data : Addr) : List Kmap :=
  [⟨kernBase, 0, extMem, pteRW⟩, ⟨kernLink, v2p kernLink, v2p data, 0⟩,
    ⟨data, v2p data, physTop, pteRW⟩, ⟨devSpace, devSpace, 0, pteRW⟩]

section Init

variable (stray : Kmap → Addr)

def install (fuel : ℕ) (pgdir : Addr) : Machine → List Kmap → Option (Addr × Machine)
  | σ, [] => some (pgdir, σ)
  | σ, k :: ks =>
    (mappages (stray k) fuel σ pgdir k.virt (k.phyEnd - k.phyStart) k.phyStart k.perm).bind
      -- the comparison is unsigned, as `mappages` returns a `u32`
      fun (r, σ) => if r < 0 then some (0, σ) else install fuel pgdir σ ks

def pagetableInit (fuel : ℕ) (σ : Machine) (data : Addr) : Option (Addr × Machine) :=
  let (pgdir, σ) := kalloc σ
  if pgdir = 0 then some (0, σ)
  else install stray fuel pgdir { σ with mem := σ.mem.fill pgdir 0 pageSize } (kmap data)

end Init

def translate (m : Mem) (pgdir va : Addr) : Option (Addr × Bool) :=
  let entry := m.load32 (slot pgdir (pde va))
  if entry.getLsbD 0 then
    let table := m.load32 (slot (p2v (entry &&& 0xFFFFF000#32)) (pte va))
    if table.getLsbD 0 then
      some ((table &&& 0xFFFFF000#32) + (va &&& 0xFFF#32), entry.getLsbD 1 && table.getLsbD 1)
    else none
  else none

end TinuOS.Paging
