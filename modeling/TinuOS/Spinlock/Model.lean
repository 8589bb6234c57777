import TinuOS.Library.Run

/-! `mmu/spinlock.c` on one CPU. Interrupts are on where `intr` is set. `read_eflags` pops the
last register that `pushal` pushed, which is EDI and not the flags. -/

namespace TinuOS.Spinlock

def interruptFlag : BitVec 32 := 0x200#32

structure Lock where
  locked : BitVec 32
  name : String
  deriving DecidableEq

structure Machine (L : Type*) where
  lock : L → Lock
  intr : Bool
  edi : BitVec 32
  printed : List String

/-- `holding` does not look at who holds the lock. -/
def holding (lk : Lock) : Bool := lk.locked ≠ 0

def xchg (lk : Lock) (newval : BitVec 32) : BitVec 32 × Lock := (lk.locked, { lk with locked := newval })

namespace Machine

variable {L : Type*} (σ : Machine L)

def kprintf (data : String) : Machine L := { σ with printed := σ.printed ++ [data] }

def warn (c : Bool) (data : String) : Machine L := if c then σ.kprintf data else σ

def set [DecidableEq L] (lk : L) (v : Lock) : Machine L := { σ with lock := Function.update σ.lock lk v }

def readEflags : BitVec 32 := σ.edi

def cli : Machine L := { σ with intr := false }

def sti : Machine L := { σ with intr := true }

end Machine

section

variable {L : Type*} (σ : Machine L) (c : Bool) (data : String)

@[simp] lemma warn_lock : (σ.warn c data).lock = σ.lock := by
  unfold Machine.warn
  split <;> rfl

@[simp] lemma warn_intr : (σ.warn c data).intr = σ.intr := by
  unfold Machine.warn
  split <;> rfl

end

variable {L : Type*}

/-- The value read by `read_eflags` is dropped: what would save it is commented out. -/
def pushcli (σ : Machine L) : Machine L := σ.cli

@[simp] lemma pushcli_lock (σ : Machine L) : (pushcli σ).lock = σ.lock := rfl

def popcli (σ : Machine L) : Machine L :=
  (σ.warn (σ.readEflags &&& interruptFlag ≠ 0) "popcli - interruptable").sti

variable [DecidableEq L]

def initlock (σ : Machine L) (lk : L) (name : String) : Machine L := σ.set lk ⟨0, name⟩

def spin : ℕ → Machine L → L → Option (Machine L)
  | 0, _, _ => none
  | fuel + 1, σ, lk =>
    let r := xchg (σ.lock lk) 1
    let σ := σ.set lk r.2
    if r.1 ≠ 0 then spin fuel σ lk else some σ

def acquire (fuel : ℕ) (σ : Machine L) (lk : L) : Option (Machine L) :=
  let σ := pushcli σ
  spin fuel (σ.warn (holding (σ.lock lk)) "acquire\n") lk

def release (σ : Machine L) (lk : L) : Machine L :=
  let σ := σ.warn (!holding (σ.lock lk)) "release"
  let σ := σ.set lk { σ.lock lk with locked := 0 }
  popcli σ

end TinuOS.Spinlock
