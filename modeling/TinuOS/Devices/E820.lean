import Mathlib

/-! `devices/memory.c`: the memory map that the BIOS reports. The answers of the BIOS are given one
after the other; `desc` counts entries of `e820_map`, and the map goes on behind its 128 entries. -/

namespace TinuOS.Devices

def smap : BitVec 32 := 0x534d4150#32
def x86EflagsCF : BitVec 32 := 0x1#32
def e820Max : ℕ := 128

structure E820Entry where
  addr : BitVec 64
  size : BitVec 64
  type : BitVec 32
  deriving DecidableEq

structure Answer where
  ebx : BitVec 32
  eax : BitVec 32
  eflags : BitVec 32
  buf : E820Entry
  deriving DecidableEq

structure Detection where
  count : BitVec 32
  ebx : BitVec 32
  desc : ℕ
  map : ℕ → E820Entry
  stores : List ℕ

inductive Exit
  | waiting
  | carry
  | mismatch
  | last
  deriving DecidableEq

def Detection.store (s : Detection) (buf : E820Entry) : Detection :=
  { s with
    map := Function.update s.map s.desc buf
    stores := s.stores ++ [s.desc]
    desc := s.desc + 1
    count := s.count + 1 }

def detectLoop : List Answer → Detection → Exit × Detection
  | [], s => (.waiting, s)
  | oreg :: rest, s =>
    let s := { s with ebx := oreg.ebx }
    if oreg.eflags &&& x86EflagsCF ≠ 0 then (.carry, s)
    else if oreg.eax ≠ smap then (.mismatch, { s with count := 0 })
    else
      let s := s.store oreg.buf
      if oreg.ebx ≠ 0 ∧ e820Max ≠ 0 then detectLoop rest s else (.last, s)

/-- What is left in `boot_params`, and the result; the last two fields count for nothing while the
loop waits for an answer. -/
structure Detected where
  exit : Exit
  e820Map : ℕ → E820Entry
  stores : List ℕ
  e820Entries : BitVec 8
  ret : BitVec 32

/-- `junk` is what the variable `count` holds, which is not set before the loop. -/
def detectMemoryE820 (junk : BitVec 32) (map : ℕ → E820Entry) (answers : List Answer) : Detected :=
  let (exit, s) := detectLoop answers ⟨junk, 0, 0, map, []⟩
  let e820Entries := s.count.setWidth 8
  ⟨exit, s.map, s.stores, e820Entries, e820Entries.setWidth 32⟩

def detectMemory (d : Detected) : BitVec 32 := if (0#32).slt d.ret then 0 else -1

def Answer.accepted (a : Answer) : Prop := a.eflags &&& x86EflagsCF = 0 ∧ a.eax = smap

instance (a : Answer) : Decidable a.accepted := inferInstanceAs (Decidable (_ ∧ _))

def accepted : List Answer → List E820Entry
  | [] => []
  | a :: rest =>
    if a.accepted then a.buf :: (if a.ebx ≠ 0 then accepted rest else []) else []

def Finished (e : Exit) : Prop := e = .carry ∨ e = .last

instance (e : Exit) : Decidable (Finished e) := inferInstanceAs (Decidable (_ ∨ _))

structure Sound (junk : BitVec 32) (map : ℕ → E820Entry) (answers : List Answer) : Prop where
  inside : ∀ i ∈ (detectMemoryE820 junk map answers).stores, i < e820Max
  counted : Finished (detectMemoryE820 junk map answers).exit →
    (detectMemoryE820 junk map answers).e820Entries.toNat = (accepted answers).length ∧
    (detectMemoryE820 junk map answers).ret.toNat = (accepted answers).length
  reported : Finished (detectMemoryE820 junk map answers).exit →
    ∀ i (h : i < (accepted answers).length),
      (detectMemoryE820 junk map answers).e820Map i = (accepted answers)[i]

def ending : List Answer → Exit
  | [] => .waiting
  | a :: rest =>
    if a.eflags &&& x86EflagsCF ≠ 0 then .carry
    else if a.eax ≠ smap then .mismatch
    else if a.ebx ≠ 0 then ending rest else .last

structure Loaded (s t : Detection) (es : List E820Entry) : Prop where
  stores : t.stores = s.stores ++ List.range' s.desc es.length
  below : ∀ i < s.desc, t.map i = s.map i
  entries : ∀ i (h : i < es.length), t.map (s.desc + i) = es[i]

variable {s t : Detection} {a : Answer} {e : E820Entry} {es : List E820Entry}
  {answers rest : List Answer} {junk b : BitVec 32} {map : ℕ → E820Entry}

lemma loaded_nil (hs : t.stores = s.stores) (hm : t.map = s.map) : Loaded s t [] :=
  ⟨by simpa using hs, fun _ _ => by rw [hm], fun _ h => absurd h (Nat.not_lt_zero _)⟩

lemma Loaded.cons (h : Loaded (s.store e) t es) : Loaded s t (e :: es) := by
  refine ⟨?_, fun i hi => ?_, fun i hi => ?_⟩
  · rw [h.stores, List.length_cons, List.range'_succ]
    simp [Detection.store]
  · rw [h.below i (Nat.lt_succ_of_lt hi)]
    exact Function.update_of_ne hi.ne _ _
  · cases i with
    | zero =>
      rw [Nat.add_zero, h.below _ (Nat.lt_succ_self _)]
      exact Function.update_self _ _ _
    | succ i =>
      rw [← Nat.add_assoc, Nat.add_right_comm]
      exact h.entries i (Nat.lt_of_succ_lt_succ hi)

lemma Loaded.of_ebx (h : Loaded { s with ebx := b } t es) : Loaded s t es := ⟨h.stores, h.below, h.entries⟩

lemma detectLoop_accepted (h : a.accepted) : detectLoop (a :: rest) s =
    if a.ebx ≠ 0 then detectLoop rest ({ s with ebx := a.ebx }.store a.buf)
    else (.last, { s with ebx := a.ebx }.store a.buf) := by
  have hmax : e820Max ≠ 0 := by decide
  simp only [detectLoop, h.1, h.2, ne_eq, not_true_eq_false, if_false, hmax, not_false_eq_true,
    and_true]

lemma ending_accepted (h : a.accepted) :
    ending (a :: rest) = if a.ebx ≠ 0 then ending rest else .last := by
  simp only [ending, h.1, h.2, ne_eq, not_true_eq_false, if_false]

lemma detectLoop_refused (s : Detection) (rest : List Answer) (h : ¬ a.accepted) :
    detectLoop (a :: rest) s = (ending (a :: rest),
      { s with ebx := a.ebx, count := if ending (a :: rest) = .mismatch then 0 else s.count }) := by
  by_cases hc : a.eflags &&& x86EflagsCF = 0#32
  · have hm : a.eax ≠ smap := fun hm => h ⟨hc, hm⟩
    simp [detectLoop, ending, hc, hm]
  · simp [detectLoop, ending, hc]

lemma detectLoop_spec (answers : List Answer) (s : Detection) : (detectLoop answers s).1 = ending answers ∧
    Loaded s (detectLoop answers s).2 (accepted answers) ∧
    (detectLoop answers s).2.count = if ending answers = .mismatch then 0
      else s.count + BitVec.ofNat 32 (accepted answers).length := by
  induction answers generalizing s with
  | nil => exact ⟨rfl, loaded_nil rfl rfl, by simp [detectLoop, ending, accepted]⟩
  | cons a rest ih =>
    by_cases ha : a.accepted
    · rw [detectLoop_accepted ha, ending_accepted ha, accepted, if_pos ha]
      by_cases hb : a.ebx ≠ 0
      · simp only [if_pos hb]
        obtain ⟨he, hl, hc⟩ := ih ({ s with ebx := a.ebx }.store a.buf)
        refine ⟨he, hl.cons.of_ebx, hc.trans (if_congr Iff.rfl rfl ?_)⟩
        rw [Detection.store, List.length_cons]
        bv_omega
      · simp only [if_neg hb]
        exact ⟨trivial, (loaded_nil rfl rfl).cons.of_ebx, rfl⟩
    · rw [detectLoop_refused s rest ha, accepted, if_neg ha]
      refine ⟨rfl, loaded_nil rfl rfl, if_congr Iff.rfl rfl ?_⟩
      exact (BitVec.add_zero s.count).symm

lemma detectMemoryE820_exit : (detectMemoryE820 junk map answers).exit = ending answers :=
  (detectLoop_spec _ _).1

lemma detectMemoryE820_stores :
    (detectMemoryE820 junk map answers).stores = List.range' 0 (accepted answers).length :=
  (detectLoop_spec _ _).2.1.stores.trans (List.nil_append _)

lemma detectMemoryE820_map {i : ℕ} (h : i < (accepted answers).length) :
    (detectMemoryE820 junk map answers).e820Map i = (accepted answers)[i] := by
  have hi := (detectLoop_spec answers ⟨junk, 0, 0, map, []⟩).2.1.entries i h
  rwa [Nat.zero_add] at hi

lemma detectMemoryE820_entries (h : Finished (ending answers)) :
    (detectMemoryE820 junk map answers).e820Entries =
      (junk + BitVec.ofNat 32 (accepted answers).length).setWidth 8 := by
  refine congrArg (BitVec.setWidth 8) ((detectLoop_spec _ _).2.2.trans (if_neg ?_))
  rcases h with h | h <;> rw [h] <;> decide

lemma detectMemoryE820_ret (junk : BitVec 32) (map : ℕ → E820Entry) (answers : List Answer) :
    (detectMemoryE820 junk map answers).ret.toNat = (detectMemoryE820 junk map answers).e820Entries.toNat := by
  change (BitVec.setWidth 32 (detectMemoryE820 junk map answers).e820Entries).toNat = _
  exact BitVec.toNat_setWidth_of_le (by decide)

theorem sound_iff : Sound junk map answers ↔
    (accepted answers).length ≤ e820Max ∧ (Finished (ending answers) → junk.setWidth 8 = 0#8) := by
  constructor
  · intro h
    have hlen : (accepted answers).length ≤ e820Max := by
      by_contra hn
      have hmem : e820Max ∈ (detectMemoryE820 junk map answers).stores := by
        rw [detectMemoryE820_stores, List.mem_range'_1]
        omega
      exact absurd (h.inside _ hmem) (lt_irrefl _)
    refine ⟨hlen, fun hf => ?_⟩
    have hc := (h.counted (detectMemoryE820_exit ▸ hf)).1
    rw [detectMemoryE820_entries hf] at hc
    simp only [e820Max] at hlen
    bv_omega
  · rintro ⟨hlen, hj⟩
    refine ⟨fun i hi => ?_, fun hf => ?_, fun _ i hi => detectMemoryE820_map hi⟩
    · rw [detectMemoryE820_stores, List.mem_range'_1] at hi
      omega
    · rw [detectMemoryE820_exit] at hf
      have hj' := hj hf
      rw [detectMemoryE820_ret, and_self, detectMemoryE820_entries hf]
      simp only [e820Max] at hlen
      bv_omega

def oneMegabyte : Answer := ⟨0, smap, 0, ⟨0, 0x100000, 1⟩⟩

theorem count_unset_table_overrun : ¬ Sound 1 (fun _ => ⟨0, 0, 0⟩) [oneMegabyte] ∧
    ¬ Sound 0 (fun _ => ⟨0, 0, 0⟩) (List.replicate 129 { oneMegabyte with ebx := 1 }) := by
  refine ⟨fun h => ?_, fun h => ?_⟩
  · exact absurd (h.counted (by decide)).1 (by decide)
  · exact absurd (h.inside 128 (by decide +kernel)) (by decide)

lemma detectMemory_eq_zero (d : Detected) (h : d.ret = d.e820Entries.setWidth 32) :
    detectMemory d = 0 ↔ d.e820Entries ≠ 0 := by
  have hlt := d.e820Entries.isLt
  have hret : d.ret.toNat = d.e820Entries.toNat := by
    rw [h]
    exact BitVec.toNat_setWidth_of_le (by decide)
  have hint := BitVec.toInt_eq_toNat_of_lt (x := d.ret) (by omega)
  have hpos : (0#32).slt d.ret = true ↔ d.e820Entries ≠ 0 := by
    rw [BitVec.slt_iff_toInt_lt, hint, hret, BitVec.toInt_zero, Nat.cast_pos, Nat.pos_iff_ne_zero,
      ne_eq, ne_eq, ← BitVec.toNat_inj]
    rfl
  rw [← hpos, detectMemory]
  split_ifs with hs
  · exact iff_of_true rfl hs
  · exact iff_of_false (by decide) hs

theorem detectMemory_iff (h : ending answers ≠ .waiting) :
    detectMemory (detectMemoryE820 junk map answers) = 0 ↔
      Finished (ending answers) ∧ (junk.toNat + (accepted answers).length) % 256 ≠ 0 := by
  rw [detectMemory_eq_zero _ rfl]
  by_cases hf : Finished (ending answers)
  · rw [detectMemoryE820_entries hf, and_iff_right hf, ne_eq, ne_eq, ← BitVec.toNat_inj]
    refine not_congr (iff_of_eq (congrArg (· = 0) ?_))
    simp [BitVec.toNat_setWidth, BitVec.toNat_add]
  · have hm : ending answers = .mismatch := by
      cases he : ending answers <;> simp_all [Finished]
    have hc := (detectLoop_spec answers ⟨junk, 0, 0, map, []⟩).2.2
    rw [if_pos hm] at hc
    refine iff_of_false (not_not.mpr ?_) (fun h => hf h.1)
    exact congrArg (BitVec.setWidth 8) hc

theorem detectMemory_iff_found : detectMemory (detectMemoryE820 0 (fun _ => ⟨0, 0, 0⟩) [oneMegabyte]) = 0 ↔
    Finished (ending [oneMegabyte]) ∧ ((0 : BitVec 32).toNat + (accepted [oneMegabyte]).length) % 256 ≠ 0 :=
  detectMemory_iff (by decide)

end TinuOS.Devices
