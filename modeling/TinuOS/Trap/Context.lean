import TinuOS.Trap.Model

/-! The way into a handler and out again keeps the interrupted context, where the stub pushes an
error code of its own for just those vectors that come without one. -/

namespace TinuOS.Trap

open Library Mem

def Holds (σ : Cpu) (ws : List (BitVec 32)) : Prop := Top σ.mem (σ.reg .esp) ws

variable {σ τ : Cpu} {v w : BitVec 32} {ws : List (BitVec 32)} {r : Reg}

@[simp] lemma push_esp : (σ.push v).reg .esp = σ.reg .esp - 4#32 := rfl

lemma push_reg (h : r ≠ .esp) : (σ.push v).reg r = σ.reg r := Function.update_of_ne h _ _

lemma Holds.push (h : Holds σ ws) (v : BitVec 32) (hl : ws.length ≤ 16) : Holds (σ.push v) (v :: ws) :=
  Top.push h (by omega)

lemma saveContext_holds (h : Holds σ ws) (hl : ws.length ≤ 7) : Holds (σ.run saveContext)
    (((σ.reg .eax).extractLsb' 16 16 ++ σ.seg .ds) :: σ.reg .edi :: σ.reg .esi :: σ.reg .ebp ::
      σ.reg .esp :: σ.reg .ebx :: σ.reg .edx :: σ.reg .ecx :: σ.reg .eax :: ws) := by
  have h8 := (((((((h.push (σ.reg .eax) (by omega)).push (σ.reg .ecx) ?_).push (σ.reg .edx) ?_).push
    (σ.reg .ebx) ?_).push (σ.reg .esp) ?_).push (σ.reg .ebp) ?_).push (σ.reg .esi) ?_).push
    (σ.reg .edi) ?_
  · exact h8.push _ (by simp only [List.length_cons]; omega)
  all_goals simp only [List.length_cons]; omega

lemma saveContext_esp : (σ.run saveContext).reg .esp = σ.reg .esp - 36#32 := by
  simp [Cpu.run, saveContext, Cpu.exec, Cpu.setLow, Cpu.set]
  bv_omega

lemma restoreContext_spec {d di si bp x bx dx cx ax no err : BitVec 32}
    (h : Holds σ (d :: di :: si :: bp :: x :: bx :: dx :: cx :: ax :: no :: err :: ws)) :
    (σ.run restoreContext).reg .eax = ax ∧ (σ.run restoreContext).reg .ecx = cx ∧
    (σ.run restoreContext).reg .edx = dx ∧ (σ.run restoreContext).reg .ebx = bx ∧
    (σ.run restoreContext).reg .ebp = bp ∧ (σ.run restoreContext).reg .esi = si ∧
    (σ.run restoreContext).reg .edi = di ∧ (∀ s, (σ.run restoreContext).seg s = d.setWidth 16) ∧
    (σ.run restoreContext).reg .esp = σ.reg .esp + 44#32 ∧ Holds (σ.run restoreContext) ws := by
  obtain ⟨hd, hdi, hsi, hbp, hx, hbx, hdx, hcx, hax, hno, herr, hws⟩ := h
  simp only [Cpu.run, restoreContext, List.foldl, Cpu.exec, Cpu.pop, Cpu.drop, Cpu.set, Cpu.top,
    Function.update_apply, reduceCtorEq, if_true, if_false]
  refine ⟨hax, hcx, hdx, hbx, hbp, hsi, hdi, ?_, ?_, ?_⟩
  · intro s
    rw [hd]
    cases s <;> rfl
  · bv_omega
  · rw [BitVec.add_assoc _ 4#32 4#32] at hws
    exact hws

section

variable {handler : Cpu → Cpu} {ret no err : BitVec 32} {i : Interrupt} {f : Frame}

lemma Returns.holds (hr : Returns handler) (h : Holds σ (w :: ws)) (hl : ws.length ≤ 16) :
    Holds ((handler σ).drop 4#32) ws := by
  have he : ((handler σ).drop 4#32).reg .esp = σ.reg .esp + 4#32 := by
    change (handler σ).reg .esp + 4#32 = _
    rw [hr.esp]
  unfold Holds
  rw [he]
  refine Top.congr h.2 ((hr.frame σ).mono (span_subset ?_)) (by omega)
  rw [BitVec.sub_self, BitVec.toNat_zero, sizeofBiosregs]
  omega

structure Through (handler : Cpu → Cpu) (ret no err : BitVec 32) (ws : List (BitVec 32)) (σ : Cpu) :
    Prop where
  intNo : (commonStub handler ret σ).1.intNo = no
  errCode : (commonStub handler ret σ).1.errCode = err
  reg : ∀ r, r ≠ .esp → (commonStub handler ret σ).2.reg r = σ.reg r
  seg : ∀ s, (commonStub handler ret σ).2.seg s = σ.seg .ds
  esp : (commonStub handler ret σ).2.reg .esp = σ.reg .esp + 8#32
  holds : Holds (commonStub handler ret σ).2 ws

lemma through (ret : BitVec 32) (hr : Returns handler) (h : Holds σ (no :: err :: ws)) (hl : ws.length ≤ 5) :
    Through handler ret no err ws σ := by
  have hsave := saveContext_holds h (by simp only [List.length_cons]; omega)
  have hcall := hsave.push ret (by simp only [List.length_cons]; omega)
  have hback := hr.holds hcall (by simp only [List.length_cons]; omega)
  have hesp : ((handler ((σ.run saveContext).push ret)).drop 4#32).reg .esp = σ.reg .esp - 36#32 := by
    change (handler _).reg .esp + 4#32 = _
    rw [hr.esp, push_esp, saveContext_esp, BitVec.sub_add_cancel]
  obtain ⟨hax, hcx, hdx, hbx, hbp, hsi, hdi, hseg, hsp, hws⟩ := restoreContext_spec hback
  refine ⟨?_, ?_, ?_, ?_, ?_, hws⟩
  · exact hcall.2.load (i := 9) (by simp)
  · exact hcall.2.load (i := 10) (by simp)
  · intro r hr
    cases r with
    | eax => exact hax
    | ecx => exact hcx
    | edx => exact hdx
    | ebx => exact hbx
    | esp => exact absurd rfl hr
    | ebp => exact hbp
    | esi => exact hsi
    | edi => exact hdi
  · intro s
    exact (hseg s).trans (BitVec.setWidth_append_eq_right ..)
  · refine hsp.trans ?_
    rw [hesp]
    bv_omega

end

structure Pushed (σ τ : Cpu) (ws : List (BitVec 32)) : Prop where
  reg : ∀ r, r ≠ .esp → τ.reg r = σ.reg r
  seg : τ.seg = σ.seg
  esp : τ.reg .esp = σ.reg .esp - BitVec.ofNat 32 (4 * ws.length)
  holds : Holds τ ws

lemma pushed_nil : Pushed σ σ [] := ⟨fun _ _ => rfl, rfl, by simp, trivial⟩

lemma Pushed.push (h : Pushed σ τ ws) (v : BitVec 32) (hl : ws.length ≤ 16) :
    Pushed σ (τ.push v) (v :: ws) := by
  refine ⟨fun r hr => (push_reg hr).trans (h.reg r hr), h.seg, ?_, h.holds.push v hl⟩
  rw [push_esp, h.esp, List.length_cons]
  bv_omega

lemma Pushed.cli (h : Pushed σ τ ws) : Pushed σ { τ with intr := false } ws :=
  ⟨h.reg, h.seg, h.esp, h.holds⟩

/-- The vectors that have neither an error code from the processor nor a zero from their stub. -/
def bareVectors : List ℕ := [18, 19, 20, 22, 23, 24, 25, 26, 27, 28, 31]

variable {i : Interrupt} {f : Frame} {handler : Cpu → Cpu} {ret : BitVec 32}

lemma stub_eq (i : Interrupt) : i.stub =
    if i.pushesError ∨ i.vector ∈ bareVectors then isrErrorcode i.vector else isrNoerrorcode i.vector := by
  cases i with
  | exception n =>
    have hn : ∀ n : Fin 32, n.val ∈ errorcodeStubs ↔
        n.val ∈ Interrupt.errorVectors ∨ n.val ∈ bareVectors := by decide
    exact if_congr (hn n) rfl rfl
  | irq n =>
    have hn : ∀ n : Fin 16, ¬ (32 + n.val ∈ Interrupt.errorVectors ∨ 32 + n.val ∈ bareVectors) := by
      decide
    exact (if_neg (hn n)).symm

lemma not_bare_of_pushesError (h : i.pushesError) : i.vector ∉ bareVectors := by
  have hd : ∀ n ∈ Interrupt.errorVectors, n ∉ bareVectors := by decide
  exact hd _ h

lemma pushed_frame : Pushed σ (((σ.push f.eflags).push f.cs).push f.eip) [f.eip, f.cs, f.eflags] :=
  ((pushed_nil.push _ (by decide)).push _ (by simp)).push _ (by simp)

lemma pushed_of_not_bare (h : i.vector ∉ bareVectors) : Pushed σ ((deliver i f σ).run i.stub)
    [BitVec.ofNat 32 i.vector, if i.pushesError then f.err else 0, f.eip, f.cs, f.eflags] := by
  rw [stub_eq, deliver]
  by_cases he : i.pushesError
  · rw [if_pos (Or.inl he), if_pos he, if_pos he]
    exact ((pushed_frame.push f.err (by simp)).cli).push _ (by simp)
  · rw [if_neg (not_or.mpr ⟨he, h⟩), if_neg he, if_neg he]
    exact (pushed_frame.cli.push 0 (by simp)).push _ (by simp)

lemma pushed_of_bare (h : i.vector ∈ bareVectors) : Pushed σ ((deliver i f σ).run i.stub)
    [BitVec.ofNat 32 i.vector, f.eip, f.cs, f.eflags] := by
  have he : ¬ i.pushesError := fun he => not_bare_of_pushesError he h
  rw [stub_eq, deliver, if_pos (Or.inr h), if_neg he]
  exact pushed_frame.cli.push _ (by simp)

structure Preserved (handler : Cpu → Cpu) (ret : BitVec 32) (i : Interrupt) (f : Frame) (σ : Cpu) :
    Prop where
  reg : ∀ r, r ≠ .esp → (trap handler ret i f σ).2.reg r = σ.reg r
  seg : ∀ s, (trap handler ret i f σ).2.seg s = σ.seg s
  esp : (trap handler ret i f σ).2.reg .esp = (((σ.push f.eflags).push f.cs).push f.eip).reg .esp
  frame : Holds (trap handler ret i f σ).2 [f.eip, f.cs, f.eflags]
  intNo : (trap handler ret i f σ).1.intNo = BitVec.ofNat 32 i.vector
  errCode : (trap handler ret i f σ).1.errCode = if i.pushesError then f.err else 0

lemma trap_esp_of_bare (hr : Returns handler) (h : i.vector ∈ bareVectors) :
    (trap handler ret i f σ).2.reg .esp = σ.reg .esp - 8#32 := by
  have hp := pushed_of_bare (f := f) (σ := σ) h
  refine (through ret hr hp.holds (by simp)).esp.trans ?_
  rw [hp.esp, List.length_cons, List.length_cons, List.length_cons, List.length_cons, List.length_nil]
  bv_omega

theorem preserved_iff (hr : Returns handler) (hs : ∀ s, σ.seg s = σ.seg .ds) :
    Preserved handler ret i f σ ↔ i.vector ∉ bareVectors := by
  constructor
  · intro h hb
    have he := h.esp
    rw [trap_esp_of_bare hr hb, push_esp, push_esp, push_esp] at he
    bv_omega
  · intro hb
    have hp := pushed_of_not_bare (f := f) (σ := σ) hb
    have ht := through ret hr hp.holds (by simp)
    refine ⟨?_, ?_, ?_, ht.holds, ht.intNo, ht.errCode⟩
    · intro r hne
      exact (ht.reg r hne).trans (hp.reg r hne)
    · intro s
      rw [hs s, ← hp.seg]
      exact ht.seg s
    · refine ht.esp.trans ?_
      rw [hp.esp, push_esp, push_esp, push_esp]
      simp only [List.length_cons, List.length_nil]
      bv_omega

def kernelMode : Cpu := ⟨fun _ => 0x80100000#32, fun _ => 0x10#16, true, ⟨fun _ => 0⟩⟩

def touchEax (σ : Cpu) : Cpu := σ.set .eax 0

lemma touchEax_returns : Returns touchEax := ⟨fun _ => rfl, fun _ _ _ => rfl⟩

theorem preserved_iff_page_fault :
    Preserved touchEax 0x80100100#32 (.exception 14) ⟨0x80100200#32, 8, 0x202, 2⟩ kernelMode ↔
      (Interrupt.exception 14).vector ∉ bareVectors :=
  preserved_iff touchEax_returns fun _ => rfl

theorem simd_exception_shifted : ¬ ∀ (handler : Cpu → Cpu) (ret : BitVec 32) (i : Interrupt)
    (f : Frame) (σ : Cpu), Returns handler → (∃ sel, ∀ s, σ.seg s = sel) →
      Preserved handler ret i f σ := by
  intro h
  have he := (h touchEax 0x80100100#32 (.exception 19) ⟨0x80100200#32, 8, 0x202, 0⟩ kernelMode
    touchEax_returns ⟨0x10#16, fun _ => rfl⟩).esp
  rw [trap_esp_of_bare touchEax_returns (by decide)] at he
  exact absurd he (by decide)

end TinuOS.Trap
