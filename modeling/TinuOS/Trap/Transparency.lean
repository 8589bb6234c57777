import TinuOS.Library.Run
import TinuOS.Trap.Context

/-! A program that interrupts come into at any time is in step with the program that none comes into,
up to the bytes that it does not need. -/

namespace TinuOS.Trap

open Library Mem

structure Context where
  cpu : Cpu
  eip : BitVec 32
  cs : BitVec 32
  eflags : BitVec 32

def flagIf : ℕ := 9

def iretl (σ : Cpu) : Context where
  cpu := { σ.drop 12#32 with intr := (σ.mem.load32 (σ.reg .esp + 8#32)).getLsbD flagIf }
  eip := σ.mem.load32 (σ.reg .esp)
  cs := σ.mem.load32 (σ.reg .esp + 4#32)
  eflags := σ.mem.load32 (σ.reg .esp + 8#32)

def Context.interrupt (handler : Cpu → Cpu) (ret : BitVec 32) (i : Interrupt) (err : BitVec 32)
    (c : Context) : Context :=
  iretl (trap handler ret i ⟨c.eip, c.cs, c.eflags, err⟩ c.cpu).2

inductive Event
  | instruction
  | interrupt (i : Interrupt) (err : BitVec 32)
  deriving DecidableEq

section Model

variable (program : Context → Context) (handler : Interrupt → Cpu → Cpu) (ret : BitVec 32)

inductive Context.Step : Context → Event → Context → Prop
  | instruction (c : Context) : Step c .instruction (program c)
  | interrupt (c : Context) {i : Interrupt} (err : BitVec 32) (hi : ∀ n, i = .irq n → c.cpu.intr = true) :
    Step c (.interrupt i err) (c.interrupt (handler i) ret i err)

end Model

def stubDepth : ℕ := 60

def scratch (depth : ℕ) (own : Set Addr) (c : Context) : Set Addr :=
  span (c.cpu.reg .esp - BitVec.ofNat 32 (depth + stubDepth)) (depth + stubDepth) ∪ own

structure Confined (depth : ℕ) (own : Set Addr) (handler : Cpu → Cpu) : Prop where
  returns : Returns handler
  mem : ∀ σ, Agree (handler σ).mem σ.mem (span (σ.reg .esp - BitVec.ofNat 32 depth) depth ∪ own)ᶜ

structure Same (live : Context → Set Addr) (c d : Context) : Prop where
  reg : c.cpu.reg = d.cpu.reg
  seg : c.cpu.seg = d.cpu.seg
  intr : c.cpu.intr = d.cpu.intr
  eip : c.eip = d.eip
  cs : c.cs = d.cs
  eflags : c.eflags = d.eflags
  mem : Agree c.cpu.mem d.cpu.mem (live d)

/-- What is asked of a program, in the run of it that no interrupt comes into: an instruction depends
on nothing but the registers and the bytes that are live, and these are not scratch. -/
structure Undisturbed (program : Context → Context) (live : Context → Set Addr) (depth : ℕ)
    (own : Set Addr) (start : Context) : Prop where
  reads : ∀ k c, Same live c (program^[k] start) → Same live (program c) (program (program^[k] start))
  apart : ∀ k, Disjoint (live (program^[k] start)) (scratch depth own (program^[k] start))
  flat : ∀ k s, (program^[k] start).cpu.seg s = (program^[k] start).cpu.seg .ds
  flag : ∀ k, (program^[k] start).cpu.intr = (program^[k] start).eflags.getLsbD flagIf

structure Lowered (σ τ : Cpu) (n : ℕ) : Prop where
  esp : τ.reg .esp = σ.reg .esp - BitVec.ofNat 32 (4 * n)
  mem : Agree τ.mem σ.mem (span (σ.reg .esp - BitVec.ofNat 32 (4 * n)) (4 * n))ᶜ

variable {σ τ : Cpu} {n depth : ℕ} {v ret err : BitVec 32} {handler : Cpu → Cpu} {i : Interrupt} {f : Frame}
  {own : Set Addr} {c d : Context}

lemma lowered_zero (h : σ.reg .esp = τ.reg .esp) (hm : τ.mem = σ.mem) : Lowered σ τ 0 :=
  ⟨by rw [h, Nat.mul_zero, BitVec.sub_zero], fun x _ => by rw [hm]⟩

lemma Lowered.push (h : Lowered σ τ n) (v : BitVec 32) (hn : n < 16) : Lowered σ (τ.push v) (n + 1) := by
  have he : τ.reg .esp - 4#32 = σ.reg .esp - BitVec.ofNat 32 (4 * (n + 1)) := by
    rw [h.esp]
    bv_omega
  refine ⟨he, ?_⟩
  have hm : Agree (τ.push v).mem τ.mem (span (τ.reg .esp - 4#32) 4)ᶜ := store32_agree v
  rw [he] at hm
  refine (hm.mono ?_).trans (h.mem.mono ?_)
  · exact Set.compl_subset_compl.mpr (span_subset (by bv_omega))
  · exact Set.compl_subset_compl.mpr (span_subset (by bv_omega))

lemma Lowered.cli (h : Lowered σ τ n) : Lowered σ { τ with intr := false } n := ⟨h.esp, h.mem⟩

lemma lowered_stub (hb : i.vector ∉ bareVectors) : Lowered σ ((deliver i f σ).run i.stub) 5 := by
  have hf : Lowered σ (((σ.push f.eflags).push f.cs).push f.eip) 3 :=
    (((lowered_zero rfl rfl).push _ (by decide)).push _ (by decide)).push _ (by decide)
  rw [stub_eq, deliver]
  by_cases he : i.pushesError
  · rw [if_pos (Or.inl he), if_pos he]
    exact ((hf.push f.err (by decide)).cli).push _ (by decide)
  · rw [if_neg (not_or.mpr ⟨he, hb⟩), if_neg he]
    exact (hf.cli.push 0 (by decide)).push _ (by decide)

lemma Lowered.saveContext (h : Lowered σ τ n) (hn : n ≤ 7) : Lowered σ (τ.run saveContext) (n + 9) := by
  have h8 := (((((((h.push (τ.reg .eax) (by omega)).push (τ.reg .ecx) (by omega)).push (τ.reg .edx)
    (by omega)).push (τ.reg .ebx) (by omega)).push (τ.reg .esp) (by omega)).push (τ.reg .ebp)
    (by omega)).push (τ.reg .esi) (by omega)).push (τ.reg .edi) (by omega)
  have h9 := h8.push ((τ.reg .eax).extractLsb' 16 16 ++ τ.seg .ds) (by omega)
  exact ⟨h9.esp, h9.mem⟩

lemma iretl_esp : (iretl σ).cpu.reg .esp = σ.reg .esp + 12#32 := by
  simp only [iretl, Cpu.drop, Cpu.set, Function.update_self]

lemma iretl_reg {r : Reg} (h : r ≠ .esp) : (iretl σ).cpu.reg r = σ.reg r := Function.update_of_ne h _ _

lemma trap_mem (hc : Confined depth own handler) (hb : i.vector ∉ bareVectors) (ret : BitVec 32) (f : Frame)
    (σ : Cpu) :
    Agree (trap handler ret i f σ).2.mem σ.mem
      (span (σ.reg .esp - BitVec.ofNat 32 (depth + stubDepth)) (depth + stubDepth) ∪ own)ᶜ := by
  have hlow := ((lowered_stub (σ := σ) (f := f) hb).saveContext (by decide)).push ret (by decide)
  have hesp : ((((deliver i f σ).run i.stub).run saveContext).push ret).reg .esp = σ.reg .esp - 60#32 := hlow.esp
  have hcall := hc.mem ((((deliver i f σ).run i.stub).run saveContext).push ret)
  rw [hesp] at hcall
  refine (hcall.mono ?_).trans (hlow.mem.mono ?_)
  · refine Set.compl_subset_compl.mpr (Set.union_subset_union_left own fun x hx => ?_)
    rw [mem_span] at hx ⊢
    rw [stubDepth]
    bv_omega
  · refine Set.compl_subset_compl.mpr (Set.subset_union_of_subset_left ?_ own)
    intro x hx
    rw [mem_span] at hx ⊢
    rw [stubDepth]
    bv_omega

lemma trap_through (hr : Returns handler) (hb : i.vector ∉ bareVectors) (ret : BitVec 32) (f : Frame) (σ : Cpu) :
    Through handler ret (BitVec.ofNat 32 i.vector) (if i.pushesError then f.err else 0)
      [f.eip, f.cs, f.eflags] ((deliver i f σ).run i.stub) :=
  through ret hr (pushed_of_not_bare hb).holds (by simp)

structure Resumed (depth : ℕ) (own : Set Addr) (c d : Context) : Prop where
  reg : d.cpu.reg = c.cpu.reg
  seg : d.cpu.seg = c.cpu.seg
  intr : d.cpu.intr = c.eflags.getLsbD flagIf
  eip : d.eip = c.eip
  cs : d.cs = c.cs
  eflags : d.eflags = c.eflags
  mem : Agree d.cpu.mem c.cpu.mem (scratch depth own c)ᶜ

lemma iretl_resumed (hreg : ∀ r, r ≠ .esp → τ.reg r = c.cpu.reg r) (hseg : ∀ s, τ.seg s = c.cpu.seg s)
    (hesp : τ.reg .esp = c.cpu.reg .esp - 12#32) (hh : Holds τ [c.eip, c.cs, c.eflags])
    (hm : Agree τ.mem c.cpu.mem (scratch depth own c)ᶜ) : Resumed depth own c (iretl τ) := by
  obtain ⟨heip, hcs, heflags, -⟩ := hh
  rw [BitVec.add_assoc _ 4#32 4#32] at heflags
  refine ⟨?_, funext hseg, congrArg (fun w : BitVec 32 => w.getLsbD flagIf) heflags, heip, hcs, heflags, hm⟩
  funext r
  by_cases hr : r = .esp
  · rw [hr, iretl_esp, hesp, BitVec.sub_add_cancel]
  · rw [iretl_reg hr, hreg r hr]

lemma interrupt_resumed (hc : Confined depth own handler) (hb : i.vector ∉ bareVectors)
    (hs : ∀ s, c.cpu.seg s = c.cpu.seg .ds) : Resumed depth own c (c.interrupt handler ret i err) := by
  have hp := pushed_of_not_bare (f := ⟨c.eip, c.cs, c.eflags, err⟩) (σ := c.cpu) hb
  have ht := trap_through hc.returns hb ret ⟨c.eip, c.cs, c.eflags, err⟩ c.cpu
  have hm := trap_mem hc hb ret ⟨c.eip, c.cs, c.eflags, err⟩ c.cpu
  refine iretl_resumed ?_ ?_ ?_ ht.holds hm
  · intro r hr
    exact (ht.reg r hr).trans (hp.reg r hr)
  · intro s
    rw [hs s, ← hp.seg]
    exact ht.seg s
  · refine ht.esp.trans ?_
    rw [hp.esp]
    simp only [List.length_cons, List.length_nil]
    bv_omega

lemma Same.interrupt {live : Context → Set Addr} (hc : Confined depth own handler) (hb : i.vector ∉ bareVectors)
    (hs : ∀ s, d.cpu.seg s = d.cpu.seg .ds) (hf : d.cpu.intr = d.eflags.getLsbD flagIf)
    (hd : Disjoint (live d) (scratch depth own d)) (h : Same live c d) :
    Same live (c.interrupt handler ret i err) d := by
  have hflat : ∀ s, c.cpu.seg s = c.cpu.seg .ds := by
    rw [h.seg]
    exact hs
  have hr : Resumed depth own c (c.interrupt handler ret i err) := interrupt_resumed hc hb hflat
  refine ⟨hr.reg.trans h.reg, hr.seg.trans h.seg, ?_, hr.eip.trans h.eip, hr.cs.trans h.cs,
    hr.eflags.trans h.eflags, ?_⟩
  · rw [hr.intr, h.eflags, hf]
  · have hsc : scratch depth own c = scratch depth own d := by rw [scratch, scratch, h.reg]
    refine (hr.mem.mono ?_).trans h.mem
    rw [hsc]
    exact hd.subset_compl_right

section Runs

variable {program : Context → Context} {handlers : Interrupt → Cpu → Cpu} {live : Context → Set Addr}
  {start : Context} {events : List Event}

lemma Undisturbed.same (hu : Undisturbed program live depth own start)
    (hc : ∀ i, Confined depth own (handlers i)) (hb : ∀ i err, .interrupt i err ∈ events → i.vector ∉ bareVectors)
    (h : Run (Context.Step program handlers ret) start events c) :
    Same live c (program^[events.count .instruction] start) := by
  induction events using List.reverseRecOn generalizing c with
  | nil =>
    cases h
    exact ⟨rfl, rfl, rfl, rfl, rfl, rfl, fun _ _ => rfl⟩
  | append_singleton events e ih =>
    obtain ⟨b, hrun, hstep⟩ := Run.snoc_iff.mp h
    have hsame := ih (fun i err hm => hb i err (List.mem_append_left _ hm)) hrun
    rw [List.count_append]
    cases hstep with
    | instruction =>
      rw [List.count_singleton_self, Function.iterate_succ_apply']
      exact hu.reads _ b hsame
    | @interrupt i err _ =>
      rw [List.count_singleton, beq_eq_false_iff_ne.mpr (by simp)]
      exact hsame.interrupt (hc i) (hb i err (by simp)) (hu.flat _) (hu.flag _) (hu.apart _)

end Runs

end TinuOS.Trap
