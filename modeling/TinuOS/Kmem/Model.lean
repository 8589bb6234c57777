import TinuOS.Library.Page

/-! `mmu/kmalloc.c`: the list of free pages. The flag `use_lock` is cleared by `kinit1` and set
nowhere, so the calls of `acquire` and `release` are left out. -/

namespace TinuOS.Kmem

open Library

def kernBase : Addr := 0x80000000#32
def physTop : Addr := 0xE000000#32

def v2p (a : Addr) : Addr := a - kernBase
def p2v (a : Addr) : Addr := a + kernBase

def pgRoundUp (p : Addr) : Addr := (p + BitVec.ofNat 32 pageSize - 1) &&& ~~~(BitVec.ofNat 32 pageSize - 1)

inductive Event
  | kprintf (data : String)
  | kalloc (ret : Addr)
  deriving DecidableEq

structure Machine where
  mem : Mem
  freelist : Addr
  events : List Event

def Machine.emit (σ : Machine) (e : Event) : Machine := { σ with events := σ.events ++ [e] }

def kfree (σ : Machine) (p : Addr) : Machine :=
  let σ := if v2p physTop ≤ p then σ.emit (.kprintf "kfree") else σ
  let mem := σ.mem.fill p 1 pageSize
  { σ with mem := mem.store32 p σ.freelist, freelist := p }

def kalloc (σ : Machine) : Addr × Machine :=
  let r := σ.freelist
  let σ := σ.emit (.kalloc r)
  (r, if r ≠ 0 then { σ with freelist := σ.mem.load32 r } else σ)

def freerange : ℕ → Machine → Addr → Addr → Option Machine
  | 0, _, _, _ => none
  | fuel + 1, σ, p, vend =>
    if p + BitVec.ofNat 32 pageSize ≤ vend then
      freerange fuel (kfree σ p) (p + BitVec.ofNat 32 pageSize) vend
    else some σ

def kinit1 (fuel : ℕ) (σ : Machine) (vstart vend : Addr) : Option Machine :=
  freerange fuel σ (pgRoundUp vstart) vend

end TinuOS.Kmem
