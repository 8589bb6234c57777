import TinuOS.Interrupts.Segments
import TinuOS.Trap.Context

/-! `io/idt.c`: the interrupt gates, as `set_idt` packs them and as the processor reads them. -/

namespace TinuOS.Interrupts

open Library Trap

@[ext] structure IdtEntry where
  offsetLow : BitVec 16
  selector : BitVec 16
  zero : BitVec 8
  flags : BitVec 8
  offsetHigh : BitVec 16
  deriving DecidableEq

abbrev Idt := BitVec 8 → IdtEntry

/-- `num` is an `u32`; all callers name an entry of the table. -/
def setIdt (id : Idt) (num : BitVec 8) (offset : BitVec 32) (selector : BitVec 16) (flags : BitVec 8) : Idt :=
  Function.update id num {
    offsetLow := (offset &&& 0xFFFF).setWidth 16
    offsetHigh := ((offset >>> 16) &&& 0xFFFF).setWidth 16
    selector := selector
    zero := 0
    flags := flags ||| 0x60 }

def setIrq (stubs : Interrupt → Addr) (id : Idt) : Idt :=
  (List.finRange 16).foldl (fun id n => setIdt id (32 + BitVec.ofNat 8 n.val) (stubs (.irq n)) 0x08 0x8E) id

def idtEntries (stubs : Interrupt → Addr) : Idt :=
  let id : Idt := fun _ => ⟨0, 0, 0, 0, 0⟩
  let id := (List.finRange 32).foldl
    (fun id n => setIdt id (BitVec.ofNat 8 n.val) (stubs (.exception n)) 0x08 0x8E) id
  setIrq stubs id

def IdtEntry.packed (e : IdtEntry) : BitVec 64 :=
  e.offsetHigh ++ e.flags ++ e.zero ++ e.selector ++ e.offsetLow

structure Gate where
  offset : Addr
  selector : BitVec 16
  type : BitVec 4
  system : Bool
  dpl : BitVec 2
  present : Bool
  deriving DecidableEq

def gate (w : BitVec 64) : Gate where
  offset := w.extractLsb' 48 16 ++ w.extractLsb' 0 16
  selector := w.extractLsb' 16 16
  type := w.extractLsb' 40 4
  system := !w.getLsbD 44
  dpl := w.extractLsb' 45 2
  present := w.getLsbD 47

variable {id : Idt} {num n : BitVec 8} {offset : BitVec 32} {selector : BitVec 16} {flags : BitVec 8}
  {stubs : Interrupt → Addr}

lemma gate_packed (e : IdtEntry) : gate e.packed =
    ⟨e.offsetHigh ++ e.offsetLow, e.selector, e.flags.extractLsb' 0 4, !e.flags.getLsbD 4,
      e.flags.extractLsb' 5 2, e.flags.getLsbD 7⟩ := by
  rw [gate, IdtEntry.packed, Gate.mk.injEq]
  refine ⟨?_, ?_, ?_, ?_, ?_, ?_⟩
  case refine_4 | refine_6 =>
    simp only [BitVec.getLsbD_append]
    rfl
  all_goals
    apply BitVec.eq_of_getLsbD_eq
    intro i hi
    simp only [BitVec.getLsbD_append, BitVec.getLsbD_extractLsb']
    grind

lemma split_offset (offset : BitVec 32) :
    ((offset >>> 16) &&& 0xFFFF).setWidth 16 ++ (offset &&& 0xFFFF).setWidth 16 = offset := by
  have h0 : (offset &&& 0xFFFF).setWidth 16 = offset.extractLsb' 0 16 :=
    field_eq (m := 16) offset 0 (by decide)
  have h1 : ((offset >>> 16) &&& 0xFFFF).setWidth 16 = offset.extractLsb' 16 16 :=
    field_eq (m := 16) offset 16 (by decide)
  have hall : offset.extractLsb' 16 16 ++ offset.extractLsb' 0 16 = offset.extractLsb' 0 32 :=
    BitVec.extractLsb'_append_extractLsb'_eq_extractLsb' rfl
  rw [h0, h1]
  exact hall.trans BitVec.extractLsb'_eq_self

lemma setIdt_self : gate (setIdt id num offset selector flags num).packed =
    ⟨offset, selector, flags.extractLsb' 0 4, !flags.getLsbD 4, 3, flags.getLsbD 7⟩ := by
  have hb : ∀ i < 8, (0x60 : BitVec 8).getLsbD i = decide (i = 5 ∨ i = 6) := by decide
  rw [gate_packed, setIdt, Function.update_self, Gate.mk.injEq]
  refine ⟨split_offset offset, rfl, ?_, ?_, ?_, ?_⟩
  · apply BitVec.eq_of_getLsbD_eq
    intro i hi
    rw [BitVec.getLsbD_extractLsb', BitVec.getLsbD_or, BitVec.getLsbD_extractLsb', hb _ (by omega)]
    grind
  · rw [BitVec.getLsbD_or, hb 4 (by decide)]
    simp
  · apply BitVec.eq_of_getLsbD_eq
    intro i hi
    have hthree : ∀ i < 2, (3 : BitVec 2).getLsbD i = true := by decide
    rw [BitVec.getLsbD_extractLsb', BitVec.getLsbD_or, hb _ (by omega), hthree i hi]
    grind
  · rw [BitVec.getLsbD_or, hb 7 (by decide)]
    simp

lemma setIdt_of_ne (h : n ≠ num) : setIdt id num offset selector flags n = id n :=
  Function.update_of_ne h _ _

section

variable {ι : Type*} {κ : ι → BitVec 8} {f : ι → Addr} {l : List ι} {i : ι}

def kernelGate (offset : Addr) : Gate := ⟨offset, 0x08, 0xE, true, 3, true⟩

lemma foldl_setIdt_of_mem (hκ : Function.Injective κ) (h : i ∈ l) :
    gate (l.foldl (fun id i => setIdt id (κ i) (f i) 0x08 0x8E) id (κ i)).packed = kernelGate (f i) := by
  induction l using List.reverseRecOn with
  | nil => exact absurd h List.not_mem_nil
  | append_singleton l j ih =>
    rw [List.foldl_append, List.foldl_cons, List.foldl_nil]
    by_cases hij : i = j
    · rw [hij]
      exact setIdt_self
    · have hl : i ∈ l := by simpa [hij] using h
      rw [setIdt_of_ne (fun he => hij (hκ he))]
      exact ih hl

lemma foldl_setIdt_of_notMem (h : ∀ i ∈ l, n ≠ κ i) :
    l.foldl (fun id i => setIdt id (κ i) (f i) 0x08 0x8E) id n = id n := by
  induction l using List.reverseRecOn with
  | nil => rfl
  | append_singleton l j ih =>
    rw [List.foldl_append, List.foldl_cons, List.foldl_nil, setIdt_of_ne (h j (by simp))]
    exact ih fun i hi => h i (List.mem_append_left _ hi)

end

lemma idtEntries_irq (stubs : Interrupt → Addr) (k : Fin 16) :
    gate (idtEntries stubs (32 + BitVec.ofNat 8 k.val)).packed = kernelGate (stubs (.irq k)) := by
  apply foldl_setIdt_of_mem (κ := fun k : Fin 16 => 32 + BitVec.ofNat 8 k.val)
  · decide
  · exact List.mem_finRange k

lemma idtEntries_exception (stubs : Interrupt → Addr) (k : Fin 32) :
    gate (idtEntries stubs (BitVec.ofNat 8 k.val)).packed = kernelGate (stubs (.exception k)) := by
  have hne : ∀ (i : Fin 16), BitVec.ofNat 8 k.val ≠ 32 + BitVec.ofNat 8 i.val := by
    intro i
    bv_omega
  rw [idtEntries, setIrq, foldl_setIdt_of_notMem (fun i _ => hne i)]
  apply foldl_setIdt_of_mem (κ := fun k : Fin 32 => BitVec.ofNat 8 k.val)
  · decide
  · exact List.mem_finRange k

lemma idtEntries_above (stubs : Interrupt → Addr) (h : 48 ≤ n) : (gate (idtEntries stubs n).packed).present = false := by
  have hirq : ∀ i : Fin 16, n ≠ 32 + BitVec.ofNat 8 i.val := by
    intro i
    bv_omega
  have hexception : ∀ i : Fin 32, n ≠ BitVec.ofNat 8 i.val := by
    intro i
    bv_omega
  rw [idtEntries, setIrq, foldl_setIdt_of_notMem (fun i _ => hirq i),
    foldl_setIdt_of_notMem (fun i _ => hexception i)]
  rfl

def selected (gp : Gdt) (selector : BitVec 16) : Option Segment :=
  if h : (selector >>> 3).toNat < 6 then some (segment (gp ⟨_, h⟩).packed) else none

def entry (id : Idt) (gp : Gdt) (v : BitVec 8) : Option Addr :=
  let g := gate (id v).packed
  if g.present ∧ g.system ∧ g.type = 0xE then
    match selected gp g.selector with
    | some s => if s.present ∧ s.code then s.linear g.offset else none
    | none => none
  else none

lemma selected_kernelCode (gp : Gdt) : selected (gdt gp) 0x08 = some ⟨0, 0xFFFFF, 0x9A, 0xC⟩ := by
  refine (dif_pos (by decide)).trans (congrArg some ?_)
  exact gdt_segment (by decide) (by decide)

lemma entry_kernelGate (gp : Gdt) {v : BitVec 8} {a : Addr} (h : gate (id v).packed = kernelGate a) :
    entry id (gdt gp) v = some a := by
  have hlin : (⟨0, 0xFFFFF, 0x9A, 0xC⟩ : Segment).linear a = some a := by
    rw [linear_eq rfl rfl]
    exact congrArg some (BitVec.zero_add a)
  rw [entry, h]
  refine (if_pos ⟨rfl, rfl, rfl⟩).trans ?_
  rw [kernelGate, selected_kernelCode]
  exact (if_pos ⟨rfl, rfl⟩).trans hlin

lemma entry_irq (stubs : Interrupt → Addr) (gp : Gdt) (k : Fin 16) :
    entry (idtEntries stubs) (gdt gp) (32 + BitVec.ofNat 8 k.val) = some (stubs (.irq k)) :=
  entry_kernelGate gp (idtEntries_irq stubs k)

lemma gate_idtEntries (stubs : Interrupt → Addr) {v : BitVec 8} {i : Interrupt} (h : i.vector = v.toNat) :
    gate (idtEntries stubs v).packed = kernelGate (stubs i) := by
  cases i with
  | exception k =>
    have hv : v = BitVec.ofNat 8 k.val := by
      simp only [Interrupt.vector] at h
      bv_omega
    rw [hv]
    exact idtEntries_exception stubs k
  | irq k =>
    have hv : v = 32 + BitVec.ofNat 8 k.val := by
      simp only [Interrupt.vector] at h
      bv_omega
    rw [hv]
    exact idtEntries_irq stubs k

lemma exists_vector {v : BitVec 8} (h : ¬ 48 ≤ v) : ∃ i : Interrupt, i.vector = v.toNat := by
  by_cases hv : v.toNat < 32
  · exact ⟨.exception ⟨v.toNat, hv⟩, rfl⟩
  · refine ⟨.irq ⟨v.toNat - 32, by bv_omega⟩, ?_⟩
    simp only [Interrupt.vector]
    omega

lemma present_idtEntries (stubs : Interrupt → Addr) (v : BitVec 8) :
    (gate (idtEntries stubs v).packed).present = true ↔ ∃ i : Interrupt, i.vector = v.toNat := by
  refine ⟨fun h => exists_vector fun hv => ?_, fun ⟨i, hi⟩ => ?_⟩
  · rw [idtEntries_above stubs hv] at h
    exact Bool.false_ne_true h
  · rw [gate_idtEntries stubs hi]
    rfl

theorem entry_iff (stubs : Interrupt → Addr) (gp : Gdt) (v : BitVec 8) (a : Addr) :
    (entry (idtEntries stubs) (gdt gp) v = some a ↔ ∃ i : Interrupt, i.vector = v.toNat ∧ stubs i = a) ∧
      ((gate (idtEntries stubs v).packed).present = true ↔ ∃ i : Interrupt, i.vector = v.toNat) := by
  have hpresent := present_idtEntries stubs v
  refine ⟨⟨fun h => ?_, ?_⟩, hpresent⟩
  · have hp : (gate (idtEntries stubs v).packed).present = true := by
      by_contra hp
      rw [entry, if_neg (by simp [hp])] at h
      exact Option.some_ne_none a h.symm
    obtain ⟨i, hi⟩ := hpresent.mp hp
    have he := entry_kernelGate gp (gate_idtEntries stubs hi)
    exact ⟨i, hi, Option.some.inj (he.symm.trans h)⟩
  · rintro ⟨i, hi, rfl⟩
    exact entry_kernelGate gp (gate_idtEntries stubs hi)

end TinuOS.Interrupts
