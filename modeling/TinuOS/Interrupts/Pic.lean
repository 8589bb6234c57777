import Mathlib

/-! The two interrupt controllers, the slave on line 2 of the master, and how `io/irq.c` programs them. -/

namespace TinuOS.Interrupts

inductive Expect
  | icw2
  | icw3
  | icw4
  | ocw1
  deriving DecidableEq

structure Chip where
  expect : Expect
  icw1 : BitVec 8
  icw2 : BitVec 8
  icw3 : BitVec 8
  icw4 : BitVec 8
  imr : Fin 8 → Bool
  irr : Fin 8 → Bool
  isr : Fin 8 → Bool
  deriving DecidableEq

namespace Chip

def first (r : Fin 8 → Bool) : Option (Fin 8) := Fin.find? r

def eoi (c : Chip) : Chip :=
  match first c.isr with
  | some i => { c with isr := Function.update c.isr i false }
  | none => c

/-- Bit 4 starts the set-up; of the other commands only the non-specific end of interrupt is used here. -/
def command (c : Chip) (v : BitVec 8) : Chip :=
  if v.getLsbD 4 then
    { expect := .icw2, icw1 := v, icw2 := c.icw2, icw3 := c.icw3, icw4 := 0, imr := fun _ => false,
      irr := fun _ => false, isr := fun _ => false }
  else if v = 0x20 then c.eoi
  else c

def afterIcw3 (c : Chip) : Expect := if c.icw1.getLsbD 0 then .icw4 else .ocw1

def data (c : Chip) (v : BitVec 8) : Chip :=
  match c.expect with
  | .icw2 => { c with icw2 := v, expect := if c.icw1.getLsbD 1 then c.afterIcw3 else .icw3 }
  | .icw3 => { c with icw3 := v, expect := c.afterIcw3 }
  | .icw4 => { c with icw4 := v, expect := .ocw1 }
  | .ocw1 => { c with imr := fun i => v.getLsbD i }

def pending (c : Chip) (i : Fin 8) : Bool := c.irr i && !c.imr i

def request (c : Chip) : Option (Fin 8) :=
  match first (fun i => c.pending i || c.isr i) with
  | some i => if c.isr i then none else some i
  | none => none

def vector (c : Chip) (i : Fin 8) : BitVec 8 := (c.icw2 &&& 0xF8) ||| BitVec.ofNat 8 i

def spuriousVector (c : Chip) : BitVec 8 := c.vector 7

def accept (c : Chip) (i : Fin 8) : Chip :=
  { c with
    irr := Function.update c.irr i false
    isr := if c.icw4.getLsbD 1 then c.isr else Function.update c.isr i true }

def raise (c : Chip) (i : Fin 8) : Chip := { c with irr := Function.update c.irr i true }

def withdraw (c : Chip) (i : Fin 8) : Chip := { c with irr := Function.update c.irr i false }

def idle (icw2 icw3 : BitVec 8) (irr : Fin 8 → Bool) : Chip :=
  ⟨.ocw1, 0x11, icw2, icw3, 0x01, fun _ => false, irr, fun _ => false⟩

variable {icw2 icw3 : BitVec 8} {r irr : Fin 8 → Bool} {i j : Fin 8}

lemma first_eq_some : first r = some i ↔ r i = true ∧ ∀ j < i, r j = false := by
  simp [first]

lemma first_eq_none : first r = none ↔ ∀ i, r i = false := by
  simp [first]

lemma idle_request : (idle icw2 icw3 irr).request = first irr := by
  have hp : (fun i => (idle icw2 icw3 irr).pending i || (idle icw2 icw3 irr).isr i) = irr := by
    funext i
    simp [idle, pending]
  rw [request, hp]
  cases first irr <;> rfl

lemma eoi_idle : (idle icw2 icw3 irr).eoi = idle icw2 icw3 irr := by
  have hf : first (idle icw2 icw3 irr).isr = none := first_eq_none.mpr fun _ => rfl
  rw [eoi, hf]

lemma eoi_accept : ((idle icw2 icw3 irr).accept i).eoi = idle icw2 icw3 (Function.update irr i false) := by
  have hisr : ((idle icw2 icw3 irr).accept i).isr = Function.update (fun _ => false) i true := by
    simp [accept, idle]
  have hf : first ((idle icw2 icw3 irr).accept i).isr = some i := by
    rw [hisr, first_eq_some]
    refine ⟨Function.update_self _ _ _, fun j hj => ?_⟩
    exact Function.update_of_ne hj.ne _ _
  rw [eoi, hf]
  simp only [hisr, Function.update_idem]
  have hoff : Function.update (fun _ : Fin 8 => false) i false = fun _ => false :=
    Function.update_eq_self i _
  rw [hoff]
  rfl

end Chip

structure Pics where
  master : Chip
  slave : Chip
  deriving DecidableEq

namespace Pics

def outb (p : Pics) (v : BitVec 8) (port : BitVec 16) : Pics :=
  if port = 0x20 then { p with master := p.master.command v }
  else if port = 0x21 then { p with master := p.master.data v }
  else if port = 0xA0 then { p with slave := p.slave.command v }
  else if port = 0xA1 then { p with slave := p.slave.data v }
  else p

def irqRemap (p : Pics) : Pics :=
  let p := p.outb 0x11 0x20
  let p := p.outb 0x11 0xA0
  let p := p.outb 0x20 0x21
  let p := p.outb 0x28 0xA1
  let p := p.outb 0x04 0x21
  let p := p.outb 0x02 0xA1
  let p := p.outb 0x01 0x21
  let p := p.outb 0x01 0xA1
  let p := p.outb 0x00 0x21
  p.outb 0x00 0xA1

def select (p : Pics) (slave : Bool) : Option (Fin 8) :=
  { p.master with irr := Function.update p.master.irr 2 slave }.request

def selected (p : Pics) : Option (Fin 8) := p.select p.slave.request.isSome

def acknowledge (p : Pics) : Option (Fin 8) → BitVec 8 × Pics
  | none => (p.master.spuriousVector, p)
  | some i =>
    let p := { p with master := p.master.accept i }
    if p.master.icw3.getLsbD i ∧ p.slave.icw3 &&& 7 = BitVec.ofNat 8 i then
      match p.slave.request with
      | some j => (p.slave.vector j, { p with slave := p.slave.accept j })
      | none => (p.slave.spuriousVector, p)
    else (p.master.vector i, p)

def endOfInterrupt (p : Pics) (intNo : BitVec 32) : Pics :=
  let p := if 40 ≤ intNo then p.outb 0x20 0xA0 else p
  p.outb 0x20 0x20

def low (i : Fin 8) : Fin 16 := ⟨i, by omega⟩

def high (i : Fin 8) : Fin 16 := ⟨8 + i, by omega⟩

def set (p : Pics) (n : Fin 16) (b : Bool) : Pics :=
  if h : n.val < 8 then { p with master.irr := Function.update p.master.irr ⟨n, h⟩ b }
  else { p with slave.irr := Function.update p.slave.irr ⟨n.val - 8, by omega⟩ b }

def latched (p : Pics) (n : Fin 16) : Bool :=
  if h : n.val < 8 then p.master.irr ⟨n, h⟩ else p.slave.irr ⟨n.val - 8, by omega⟩

def idle (q : Fin 16 → Bool) : Pics :=
  ⟨.idle 0x20 0x04 fun i => q (low i), .idle 0x28 0x02 fun i => q (high i)⟩

def urgency (n : Fin 16) : ℕ :=
  if n.val < 2 then n.val else if 8 ≤ n.val then n.val - 6 else n.val + 7

variable {q : Fin 16 → Bool} {n : Fin 16} {i j : Fin 8} {b : Bool}

lemma irqRemap_eq (p : Pics) : p.irqRemap = idle fun _ => false := by
  simp [irqRemap, outb, Chip.command, Chip.data, Chip.afterIcw3, idle, Chip.idle]

lemma update_low : (fun i => Function.update q (low j) b (low i)) = Function.update (fun i => q (low i)) j b := by
  funext i
  have hlow : low i = low j ↔ i = j := by simp [low, Fin.ext_iff]
  simp only [Function.update_apply, hlow]

lemma update_high : (fun i => Function.update q (high j) b (high i)) = Function.update (fun i => q (high i)) j b := by
  funext i
  have hhigh : high i = high j ↔ i = j := by simp [high, Fin.ext_iff]
  simp only [Function.update_apply, hhigh]

lemma low_ne_high (i j : Fin 8) : low i ≠ high j := by
  simp only [low, high, ne_eq, Fin.ext_iff]
  omega

lemma low_or_high (n : Fin 16) : (∃ i, n = low i) ∨ ∃ j, n = high j := by
  rcases Nat.lt_or_ge n 8 with h | h
  · exact Or.inl ⟨⟨n, h⟩, rfl⟩
  · exact Or.inr ⟨⟨n - 8, by omega⟩, Fin.ext (by simp only [high]; omega)⟩

lemma idle_update_low : idle (Function.update q (low i) b) =
    ⟨.idle 0x20 0x04 (Function.update (fun i => q (low i)) i b), .idle 0x28 0x02 fun i => q (high i)⟩ := by
  have hhigh : (fun j => Function.update q (low i) b (high j)) = fun j => q (high j) := by
    funext j
    exact Function.update_of_ne (low_ne_high i j).symm _ _
  rw [idle, update_low, hhigh]

lemma idle_update_high : idle (Function.update q (high j) b) =
    ⟨.idle 0x20 0x04 fun i => q (low i), .idle 0x28 0x02 (Function.update (fun i => q (high i)) j b)⟩ := by
  have hlow : (fun i => Function.update q (high j) b (low i)) = fun i => q (low i) := by
    funext i
    exact Function.update_of_ne (low_ne_high i j) _ _
  rw [idle, update_high, hlow]

lemma high_not_lt (j : Fin 8) : ¬ (high j).val < 8 := by
  simp only [high]
  omega

lemma high_sub (j : Fin 8) : (⟨(high j).val - 8, by omega⟩ : Fin 8) = j :=
  Fin.ext (Nat.add_sub_cancel_left 8 j)

lemma ne_two (h2 : q 2 = false) (hi : q (low i) = true) : i ≠ 2 := by
  rintro rfl
  exact Bool.false_ne_true (h2.symm.trans hi)

lemma idle_set (q : Fin 16 → Bool) (n : Fin 16) (b : Bool) : (idle q).set n b = idle (Function.update q n b) := by
  rcases low_or_high n with ⟨i, rfl⟩ | ⟨j, rfl⟩
  · rw [idle_update_low]
    exact dif_pos i.isLt
  · rw [idle_update_high, set, dif_neg (high_not_lt j), high_sub]
    rfl

lemma idle_latched (q : Fin 16 → Bool) (n : Fin 16) : (idle q).latched n = q n := by
  rcases low_or_high n with ⟨i, rfl⟩ | ⟨j, rfl⟩
  · exact dif_pos i.isLt
  · rw [latched, dif_neg (high_not_lt j), high_sub]
    rfl

lemma idle_select : (idle q).select b = Chip.first (Function.update (fun i => q (low i)) 2 b) :=
  Chip.idle_request

lemma idle_selected : (idle q).selected =
    Chip.first (Function.update (fun i => q (low i)) 2 (Chip.first fun i => q (high i)).isSome) := by
  rw [selected, idle_select]
  exact congrArg (fun o : Option (Fin 8) => Chip.first (Function.update _ 2 o.isSome)) Chip.idle_request

lemma acknowledge_master (h : i ≠ 2) : (idle q).acknowledge (some i) =
    (32 + BitVec.ofNat 8 (low i), { idle q with master := (idle q).master.accept i }) := by
  have hv : ∀ i : Fin 8, ((0x20 : BitVec 8) &&& 0xF8) ||| BitVec.ofNat 8 i = 32 + BitVec.ofNat 8 i := by decide
  have hc : ∀ i : Fin 8, i ≠ 2 → (0x04 : BitVec 8).getLsbD i = false := by decide
  refine (if_neg fun hm => ?_).trans (congrArg (·, _) (hv i))
  exact Bool.false_ne_true ((hc i h).symm.trans hm.1)

lemma cascade_agrees : (0x04 : BitVec 8).getLsbD (2 : Fin 8) = true ∧
    (0x02 : BitVec 8) &&& 7 = BitVec.ofNat 8 (2 : Fin 8) := by decide

lemma acknowledge_slave (h : Chip.first (fun i => q (high i)) = some j) : (idle q).acknowledge (some 2) =
    (32 + BitVec.ofNat 8 (high j), ⟨(idle q).master.accept 2, (idle q).slave.accept j⟩) := by
  have hv : ∀ j : Fin 8, ((0x28 : BitVec 8) &&& 0xF8) ||| BitVec.ofNat 8 j = 32 + BitVec.ofNat 8 (high j) := by
    decide
  have hr : (idle q).slave.request = some j := Chip.idle_request.trans h
  refine (if_pos cascade_agrees).trans ?_
  simp only [hr]
  exact congrArg (·, _) (hv j)

lemma acknowledge_late (h : Chip.first (fun i => q (high i)) = none) : (idle q).acknowledge (some 2) =
    (47, { idle q with master := (idle q).master.accept 2 }) := by
  have hr : (idle q).slave.request = none := Chip.idle_request.trans h
  have hv : ((0x28 : BitVec 8) &&& 0xF8) ||| BitVec.ofNat 8 (7 : Fin 8) = 47 := by decide
  refine (if_pos cascade_agrees).trans ?_
  simp only [hr]
  exact congrArg (·, _) hv

def serve (p : Pics) (i : Option (Fin 8)) : BitVec 8 × Pics :=
  let (v, p) := p.acknowledge i
  (v, p.endOfInterrupt (v.setWidth 32))

lemma outb_eoi_master (p : Pics) : p.outb 0x20 0x20 = { p with master := p.master.eoi } := by
  rfl

lemma outb_eoi_slave (p : Pics) : p.outb 0x20 0xA0 = { p with slave := p.slave.eoi } := by
  rfl

lemma serve_master (h : i ≠ 2) : (idle q).serve (some i) =
    (32 + BitVec.ofNat 8 (low i), idle (Function.update q (low i) false)) := by
  have hlt : ∀ i : Fin 8, ¬ (40 : BitVec 32) ≤ (32 + BitVec.ofNat 8 (low i)).setWidth 32 := by decide
  rw [serve, acknowledge_master h]
  simp only [endOfInterrupt, if_neg (hlt i), outb_eoi_master]
  rw [idle_update_low]
  exact congrArg (fun c => (_, (⟨c, _⟩ : Pics))) Chip.eoi_accept

lemma update_two (h2 : q 2 = false) : Function.update (fun i => q (low i)) 2 false = fun i => q (low i) := by
  funext i
  rw [Function.update_apply]
  split_ifs with hi
  · rw [hi]
    exact h2.symm
  · rfl

lemma eoi_cascade (h2 : q 2 = false) :
    ((idle q).master.accept 2).eoi = (idle q).master :=
  Chip.eoi_accept.trans (congrArg _ (update_two h2))

lemma serve_slave (h : Chip.first (fun i => q (high i)) = some j) (h2 : q 2 = false) :
    (idle q).serve (some 2) =
      (32 + BitVec.ofNat 8 (high j), idle (Function.update q (high j) false)) := by
  have hle : ∀ j : Fin 8, (40 : BitVec 32) ≤ (32 + BitVec.ofNat 8 (high j)).setWidth 32 := by decide
  rw [serve, acknowledge_slave h]
  simp only [endOfInterrupt, if_pos (hle j), outb_eoi_slave, outb_eoi_master]
  rw [idle_update_high]
  exact congrArg (_, ·) (congrArg₂ Pics.mk (eoi_cascade h2) Chip.eoi_accept)

lemma serve_late (h : Chip.first (fun i => q (high i)) = none) (h2 : q 2 = false) :
    (idle q).serve (some 2) = (47, idle q) := by
  have hle : (40 : BitVec 32) ≤ (47 : BitVec 8).setWidth 32 := by decide
  rw [serve, acknowledge_late h]
  simp only [endOfInterrupt, if_pos hle, outb_eoi_slave, outb_eoi_master]
  exact congrArg (_, ·) (congrArg₂ Pics.mk (eoi_cascade h2) Chip.eoi_idle)

lemma serve_none (q : Fin 16 → Bool) : (idle q).serve none = (39, idle q) := by
  have hv : ((0x20 : BitVec 8) &&& 0xF8) ||| BitVec.ofNat 8 (7 : Fin 8) = 39 := by decide
  have hlt : ¬ (40 : BitVec 32) ≤ (39 : BitVec 8).setWidth 32 := by decide
  have hack : (idle q).acknowledge none = (39, idle q) := congrArg (·, _) hv
  rw [serve, hack]
  simp only [endOfInterrupt, if_neg hlt, outb_eoi_master]
  exact congrArg (fun c => (_, (⟨c, _⟩ : Pics))) Chip.eoi_idle

lemma selected_eq_none (h2 : q 2 = false) : (idle q).selected = none ↔ ∀ n, q n = false := by
  rw [idle_selected, Chip.first_eq_none]
  constructor
  · intro h n
    have hslave : Chip.first (fun i => q (high i)) = none := by
      have htwo := h 2
      rw [Function.update_self] at htwo
      exact Option.not_isSome_iff_eq_none.mp (by rw [htwo]; exact Bool.false_ne_true)
    rcases low_or_high n with ⟨i, rfl⟩ | ⟨j, rfl⟩
    · by_cases hi : i = 2
      · rw [hi]
        exact h2
      · have hu := h i
        rwa [Function.update_of_ne hi] at hu
    · exact Chip.first_eq_none.mp hslave j
  · intro h i
    have hslave : Chip.first (fun i => q (high i)) = none := Chip.first_eq_none.mpr fun j => h (high j)
    rw [hslave]
    exact (congrFun (update_two h2) i).trans (h _)

lemma urgency_high (j : Fin 8) : urgency (high j) = j + 2 := by
  have h : ∀ j : Fin 8, urgency (high j) = j + 2 := by decide
  exact h j

lemma urgency_low_first (h : ¬ 2 < i) (hi : i ≠ 2) : urgency (low i) < 2 := by
  have hlow : ∀ i : Fin 8, ¬ 2 < i → i ≠ 2 → urgency (low i) < 2 := by decide
  exact hlow i h hi

lemma urgency_low_last (h : ¬ i < 2) (hi : i ≠ 2) : 10 ≤ urgency (low i) := by
  have hlow : ∀ i : Fin 8, ¬ i < 2 → i ≠ 2 → 10 ≤ urgency (low i) := by decide
  exact hlow i h hi

lemma urgency_low_mono (h : ¬ j < i) : urgency (low i) ≤ urgency (low j) := by
  have hlow : ∀ i j : Fin 8, ¬ j < i → urgency (low i) ≤ urgency (low j) := by decide
  exact hlow i j h

lemma serve_selected (h2 : q 2 = false) (h : (idle q).selected = some i) :
    ∃ n, n ≠ 2 ∧ q n = true ∧ (∀ m, q m = true → urgency n ≤ urgency m) ∧
      (idle q).serve (some i) = (32 + BitVec.ofNat 8 n, idle (Function.update q n false)) := by
  rw [idle_selected] at h
  obtain ⟨hi, hbelow⟩ := Chip.first_eq_some.mp h
  -- what is asked for and is not on line 2 itself
  have hlow : ∀ k, q (low k) = true → ¬ k < i := by
    intro k hk hlt
    have hf := hbelow k hlt
    rw [Function.update_of_ne (ne_two h2 hk)] at hf
    exact Bool.false_ne_true (hf.symm.trans hk)
  by_cases hi2 : i = 2
  · subst hi2
    rw [Function.update_self] at hi
    obtain ⟨j, hj⟩ := Option.isSome_iff_exists.mp hi
    obtain ⟨hqj, hfirst⟩ := Chip.first_eq_some.mp hj
    refine ⟨high j, (low_ne_high 2 j).symm, hqj, fun m hm => ?_, serve_slave hj h2⟩
    rcases low_or_high m with ⟨k, rfl⟩ | ⟨k, rfl⟩
    · have hk := urgency_low_last (hlow k hm) (ne_two h2 hm)
      rw [urgency_high]
      omega
    · have hk : ¬ k < j := fun hlt => Bool.false_ne_true ((hfirst k hlt).symm.trans hm)
      rw [urgency_high, urgency_high]
      exact Nat.add_le_add_right (not_lt.mp hk) 2
  · rw [Function.update_of_ne hi2] at hi
    have hne : low i ≠ 2 := by
      intro he
      exact hi2 (Fin.ext (congrArg (fun n : Fin 16 => n.val) he))
    refine ⟨low i, hne, hi, fun m hm => ?_, serve_master hi2⟩
    rcases low_or_high m with ⟨k, rfl⟩ | ⟨k, rfl⟩
    · exact urgency_low_mono (hlow k hm)
    · have hsome : (Chip.first fun i => q (high i)).isSome = true := by
        rw [Option.isSome_iff_ne_none]
        intro hn
        exact Bool.false_ne_true ((Chip.first_eq_none.mp hn k).symm.trans hm)
      have hk : ¬ 2 < i := by
        intro hlt
        have hf := hbelow 2 hlt
        rw [Function.update_self] at hf
        exact Bool.false_ne_true (hf.symm.trans hsome)
      rw [urgency_high]
      exact (urgency_low_first hk hi2).le.trans (Nat.le_add_left 2 k)

end Pics

end TinuOS.Interrupts
