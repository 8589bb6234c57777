import TinuOS.Trap.Context

/-! What a handler finds in its argument: the processor as it was when the interrupt came. -/

namespace TinuOS.Trap

open Library Mem

/-- The last two fields are not pushed: without a change of privilege they are what was on the stack. -/
def savedRegs (i : Interrupt) (f : Frame) (σ : Cpu) : Biosregs where
  ds := (σ.reg .eax).extractLsb' 16 16 ++ σ.seg .ds
  edi := σ.reg .edi
  esi := σ.reg .esi
  ebp := σ.reg .ebp
  esp := σ.reg .esp - 20#32
  ebx := σ.reg .ebx
  edx := σ.reg .edx
  ecx := σ.reg .ecx
  eax := σ.reg .eax
  intNo := BitVec.ofNat 32 i.vector
  errCode := if i.pushesError then f.err else 0
  eip := f.eip
  cs := f.cs
  eflags := f.eflags
  useresp := σ.mem.load32 (σ.reg .esp)
  ss := σ.mem.load32 (σ.reg .esp + 4#32)

variable {i : Interrupt} {f : Frame} {σ τ : Cpu} {ws : List (BitVec 32)} {ret : BitVec 32}
  {handler : Cpu → Cpu}

lemma Holds.cli (h : Holds σ ws) : Holds { σ with intr := false } ws := h

lemma stub_holds (h : Holds σ ws) (hb : i.vector ∉ bareVectors) (hl : ws.length ≤ 12) :
    Holds ((deliver i f σ).run i.stub)
      (BitVec.ofNat 32 i.vector :: (if i.pushesError then f.err else 0) :: f.eip :: f.cs :: f.eflags :: ws) := by
  have hf := ((h.push f.eflags (by omega)).push f.cs (by simp only [List.length_cons]; omega)).push f.eip
    (by simp only [List.length_cons]; omega)
  rw [stub_eq, deliver]
  by_cases he : i.pushesError
  · rw [if_pos (Or.inl he), if_pos he, if_pos he]
    refine ((hf.push f.err ?_).cli).push _ ?_
    all_goals simp only [List.length_cons]; omega
  · rw [if_neg (not_or.mpr ⟨he, hb⟩), if_neg he, if_neg he]
    refine (hf.cli.push 0 ?_).push _ ?_
    all_goals simp only [List.length_cons]; omega

lemma biosregs_of_holds {w₀ w₁ w₂ w₃ w₄ w₅ w₆ w₇ w₈ w₉ w₁₀ w₁₁ w₁₂ w₁₃ w₁₄ w₁₅ : BitVec 32} {m : Mem} {a : Addr}
    (h : Top m a [w₀, w₁, w₂, w₃, w₄, w₅, w₆, w₇, w₈, w₉, w₁₀, w₁₁, w₁₂, w₁₃, w₁₄, w₁₅]) :
    biosregs m a = ⟨w₀, w₁, w₂, w₃, w₄, w₅, w₆, w₇, w₈, w₉, w₁₀, w₁₁, w₁₂, w₁₃, w₁₄, w₁₅⟩ := by
  rw [biosregs, Biosregs.mk.injEq]
  refine ⟨h.1, h.load (i := 1) (by simp), h.load (i := 2) (by simp), h.load (i := 3) (by simp),
    h.load (i := 4) (by simp), h.load (i := 5) (by simp), h.load (i := 6) (by simp),
    h.load (i := 7) (by simp), h.load (i := 8) (by simp), h.load (i := 9) (by simp),
    h.load (i := 10) (by simp), h.load (i := 11) (by simp), h.load (i := 12) (by simp),
    h.load (i := 13) (by simp), h.load (i := 14) (by simp), h.load (i := 15) (by simp)⟩

lemma trap_regs (hb : i.vector ∉ bareVectors) : (trap handler ret i f σ).1 = savedRegs i f σ := by
  have hbase : Holds σ [σ.mem.load32 (σ.reg .esp), σ.mem.load32 (σ.reg .esp + 4#32)] := ⟨rfl, rfl, trivial⟩
  have hp := pushed_of_not_bare (f := f) (σ := σ) hb
  have hsave := saveContext_holds (stub_holds (f := f) hbase hb (by simp)) (by simp)
  have hcall := (hsave.push ret (by simp)).2
  have hesp : ((deliver i f σ).run i.stub).reg .esp = σ.reg .esp - 20#32 := hp.esp
  refine (biosregs_of_holds hcall).trans ?_
  simp only [hp.reg _ (by decide : Reg.eax ≠ .esp), hp.reg _ (by decide : Reg.ecx ≠ .esp),
    hp.reg _ (by decide : Reg.edx ≠ .esp), hp.reg _ (by decide : Reg.ebx ≠ .esp),
    hp.reg _ (by decide : Reg.ebp ≠ .esp), hp.reg _ (by decide : Reg.esi ≠ .esp),
    hp.reg _ (by decide : Reg.edi ≠ .esp), hesp, hp.seg]
  rfl

end TinuOS.Trap
