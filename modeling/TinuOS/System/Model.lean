import TinuOS.Library.Copy
import TinuOS.Library.Fuel
import TinuOS.Rtc.Model

/-! `system.c`: the functions on memory and on strings. -/

namespace TinuOS.System

open Library Mem

/-- `rep movsb` with the direction flag clear: the memory and the destination register after it. -/
def repMovsb : ℕ → Mem → Addr → Addr → Mem × Addr
  | 0, m, dest, _ => (m, dest)
  | n + 1, m, dest, src => repMovsb n (m.store8 dest (m.byte src)) (dest + 1) (src + 1)

/-- The register is an output for `dest`, so that the pointer behind the copy is returned. -/
def memcpy (m : Mem) (dest src : Addr) (n : BitVec 32) : Addr × Mem :=
  let (m, dest) := repMovsb n.toNat m dest src
  (dest, m)

def repStosb : ℕ → Mem → Addr → BitVec 8 → Mem × Addr
  | 0, m, b, _ => (m, b)
  | n + 1, m, b, al => repStosb n (m.store8 b al) (b + 1) al

def memset (m : Mem) (b : Addr) (val : BitVec 32) (count : BitVec 32) : Addr × Mem :=
  let (m, b) := repStosb count.toNat m b (val.setWidth 8)
  (b, m)

def memcmpLoop (m : Mem) : ℕ → Addr → Addr → ℤ
  | 0, _, _ => 0
  | n + 1, s1, s2 =>
    let u1 := m.byte s1
    let u2 := m.byte s2
    if u1 ≠ u2 then u1.toNat - u2.toNat else memcmpLoop m n (s1 + 1) (s2 + 1)

def memcmp (m : Mem) (s1 s2 : Addr) (n : BitVec 32) : ℤ := memcmpLoop m n.toNat s1 s2

def strcpyLoop (dest src : Addr) : ℕ → Mem → BitVec 32 → Option Mem
  | 0, _, _ => none
  | fuel + 1, m, i =>
    let c := m.byte (src + i)
    let m := m.store8 (dest + i) c
    if c ≠ 0 then strcpyLoop dest src fuel m (i + 1) else some m

def strcpy (fuel : ℕ) (m : Mem) (dest src : Addr) : Option (Addr × Mem) :=
  (strcpyLoop dest src fuel m 0).map fun m => (dest, m)

def strncpyCopy (dest src : Addr) : ℕ → Mem → BitVec 32 → BitVec 32 × Mem
  | 0, m, i => (i, m)
  | k + 1, m, i =>
    if m.byte (src + i) ≠ 0 then strncpyCopy dest src k (m.store8 (dest + i) (m.byte (src + i))) (i + 1)
    else (i, m)

def strncpyPad (dest : Addr) : ℕ → Mem → BitVec 32 → Mem
  | 0, m, _ => m
  | k + 1, m, i => strncpyPad dest k (m.store8 (dest + i) 0) (i + 1)

def strncpy (m : Mem) (dest src : Addr) (n : BitVec 32) : Addr × Mem :=
  let (i, m) := strncpyCopy dest src n.toNat m 0
  (dest, strncpyPad dest (n.toNat - i.toNat) m i)

variable {m : Mem} {dest src b x : Addr} {n i k : ℕ} {v : BitVec 8}

lemma addr_succ (a : Addr) (i : ℕ) : a + BitVec.ofNat 32 i + 1 = a + BitVec.ofNat 32 (i + 1) := by
  rw [BitVec.ofNat_add, BitVec.add_assoc]
  rfl

lemma repMovsb_eq (m : Mem) (dest src : Addr) (h : i + n ≤ 2 ^ 32) :
    repMovsb n (m.copied dest src i) (dest + BitVec.ofNat 32 i) (src + BitVec.ofNat 32 i) =
      (m.copied dest src (i + n), dest + BitVec.ofNat 32 (i + n)) := by
  induction n generalizing i with
  | zero => rfl
  | succ n ih =>
    rw [repMovsb, copied_succ (by omega), addr_succ, addr_succ, ih (by omega), Nat.add_right_comm,
      ← Nat.add_assoc]

lemma memcpy_eq (m : Mem) (dest src : Addr) (n : BitVec 32) :
    memcpy m dest src n = (dest + n, m.copied dest src n.toNat) := by
  have hrep := repMovsb_eq m dest src (i := 0) (n := n.toNat) (by omega)
  rw [copied_zero, Nat.zero_add, BitVec.add_zero, BitVec.add_zero] at hrep
  rw [memcpy, hrep]
  exact congrArg (·, _) (congrArg (dest + ·) (BitVec.ofNat_toNat 32 n))

lemma repStosb_eq (h : i + n ≤ 2 ^ 32) : repStosb n (m.fill b v i) (b + BitVec.ofNat 32 i) v =
    (m.fill b v (i + n), b + BitVec.ofNat 32 (i + n)) := by
  induction n generalizing i with
  | zero => rfl
  | succ n ih =>
    rw [repStosb, fill_succ v (by omega), addr_succ, ih (by omega), Nat.add_right_comm, ← Nat.add_assoc]

lemma memset_eq (m : Mem) (b : Addr) (val count : BitVec 32) :
    memset m b val count = (b + count, m.fill b (val.setWidth 8) count.toNat) := by
  have hrep := repStosb_eq (m := m) (b := b) (v := val.setWidth 8) (i := 0) (n := count.toNat) (by omega)
  rw [fill_zero, Nat.zero_add, BitVec.add_zero] at hrep
  rw [memset, hrep]
  exact congrArg (·, _) (congrArg (b + ·) (BitVec.ofNat_toNat 32 count))

def bytes (m : Mem) (a : Addr) : ℕ → List (BitVec 8)
  | 0 => []
  | n + 1 => m.byte a :: bytes m (a + 1) n

lemma memcmpLoop_eq (m : Mem) (n : ℕ) (s1 s2 : Addr) :
    memcmpLoop m n s1 s2 = Rtc.memcmp (bytes m s1 n) (bytes m s2 n) := by
  induction n generalizing s1 s2 with
  | zero => rfl
  | succ n ih =>
    rw [memcmpLoop, bytes, bytes, Rtc.memcmp, ih]

end TinuOS.System
