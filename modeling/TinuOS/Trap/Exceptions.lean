import TinuOS.Monitor.Prints
import TinuOS.Trap.Context

/-! `isr_handler` of `io/isrs.c` and `page_fault` of `mmu/mmu.c`: what the screen says of exceptions. -/

namespace TinuOS.Trap

open Library Printk Monitor

def literals : List String :=
  ["Recieved interrupt:", "%d", "\n", "Page Fault! ( ", "present ", "read-only ", "user-mode ", ") at 0x"]

abbrev Image := Literals literals

/-- `regs` of `boot.h`, the variable that `page_fault` takes the error code from: it is set nowhere. -/
def globalRegs : Biosregs := ⟨0, 0, 0, 0, 0, 0, 0, 0, 0, 0, 0, 0, 0, 0, 0, 0⟩

structure Fault where
  n : Fin 32
  frame : Frame
  cpu : Cpu
  cr2 : BitVec 32

def Fault.regs (ret : BitVec 32) (e : Fault) : Biosregs :=
  (trap (fun σ => σ) ret (.exception e.n) e.frame e.cpu).1

lemma directives_number : directives (chars "%d") = [.conv (ch 'd')] := by
  have hd : chars "%d" = [ch '%', ch 'd'] := rfl
  rw [hd]
  simp [directives]

lemma number_whole : .conv 0 ∉ directives (chars "%d") := by
  rw [directives_number]
  decide

section Model

variable (I : Image)

def sayNumber (v : BitVec 32) : Print :=
  .kprintf ⟨I.mem, I.address "%d", fun i => if i = 0 then v else I.words i, I.buf, chars "%d",
    I.literal_at _ (by decide), number_whole⟩

def pageFault (regs : Biosregs) (cr2 : BitVec 32) : List Print :=
  let present := regs.errCode &&& 0x1#32 = 0
  let rw := regs.errCode &&& 0x2#32 ≠ 0
  let us := regs.errCode &&& 0x8#32 ≠ 0
  [I.say "Page Fault! ( " (by decide) (by decide)] ++
    (if present then [I.say "present " (by decide) (by decide)] else []) ++
    (if rw then [I.say "read-only " (by decide) (by decide)] else []) ++
    (if us then [I.say "user-mode " (by decide) (by decide)] else []) ++
    [I.say ") at 0x" (by decide) (by decide), .writeHex cr2, I.say "\n" (by decide) (by decide)]

def isrHandler (regs : Biosregs) (cr2 : BitVec 32) : List Print :=
  [I.say "Recieved interrupt:" (by decide) (by decide), sayNumber I regs.intNo, I.say "\n" (by decide) (by decide)] ++
    if regs.intNo = 14 then pageFault I globalRegs cr2 else []

/-- `page_fault` ends in `die`, with interrupts off: the flag is that nothing follows. -/
def handleAll (ret : BitVec 32) : List Fault → Terminal → ℕ → Option (Terminal × Bool)
  | [], t, _ => some (t, false)
  | e :: es, t, fuel =>
    (printAll terminalPutchar (isrHandler I (e.regs ret) e.cr2) t fuel).bind fun t =>
      if (e.regs ret).intNo = 14 then some (t, true) else handleAll ret es t fuel

end Model

def Fault.report (e : Fault) : List Char8 :=
  chars "Recieved interrupt:" ++ numeral 10 e.n ++ chars "\n" ++
    if e.n = 14 then chars "Page Fault! ( present ) at 0x" ++ numeral 16 e.cr2.toNat ++ chars "\n" else []

def reports : List Fault → List Char8
  | [] => []
  | e :: es => e.report ++ if e.n = 14 then [] else reports es

variable {I : Image} {ret cr2 : BitVec 32} {e : Fault} {es : List Fault} {t : Terminal} {before : List Char8}

lemma Fault.regs_intNo (ret : BitVec 32) (e : Fault) : (e.regs ret).intNo = BitVec.ofNat 32 e.n := by
  have hr : Returns (fun σ => σ) := ⟨fun _ => rfl, fun _ _ _ => rfl⟩
  by_cases hb : (Interrupt.exception e.n).vector ∈ bareVectors
  · exact (through ret hr (pushed_of_bare hb).holds (by simp)).intNo
  · exact (through ret hr (pushed_of_not_bare hb).holds (by simp)).intNo

lemma Fault.regs_intNo_iff : (e.regs ret).intNo = 14 ↔ e.n = 14 := by
  have hn : ∀ n : Fin 32, BitVec.ofNat 32 n.val = 14 ↔ n = 14 := by decide
  rw [e.regs_intNo, hn]

lemma sayNumber_output (n : Fin 32) : (sayNumber I (BitVec.ofNat 32 n)).output = numeral 10 n := by
  have hn : ∀ n : Fin 32, 0 ≤ (BitVec.ofNat 32 n.val).toInt ∧ (BitVec.ofNat 32 n.val).toInt.natAbs = n.val := by
    decide
  obtain ⟨hpos, habs⟩ := hn n
  rw [sayNumber, Print.output, directives_number, expand, expand, List.append_nil, conversionText,
    if_pos (Or.inl rfl), numberText, if_pos rfl]
  refine (if_neg (not_lt.mpr hpos)).trans (congrArg (numeral 10) habs)

lemma pageFault_output : (pageFault I globalRegs cr2).flatMap Print.output =
    chars "Page Fault! ( present ) at 0x" ++ numeral 16 cr2.toNat ++ chars "\n" := by
  have h1 : globalRegs.errCode &&& 0x1#32 = 0 := by decide
  have h2 : ¬ globalRegs.errCode &&& 0x2#32 ≠ 0 := by decide
  have h8 : ¬ globalRegs.errCode &&& 0x8#32 ≠ 0 := by decide
  have hx : (Print.writeHex cr2).output = numeral 16 cr2.toNat := rfl
  simp only [pageFault, if_pos h1, if_neg h2, if_neg h8, List.append_nil, List.flatMap_append, List.flatMap_cons,
    List.flatMap_nil, say_output, hx, List.append_assoc]
  rfl

lemma isrHandler_output : (isrHandler I (e.regs ret) e.cr2).flatMap Print.output = e.report := by
  rw [isrHandler, List.flatMap_append, Fault.report]
  congr 1
  · rw [e.regs_intNo, List.flatMap_cons, List.flatMap_cons, List.flatMap_singleton, sayNumber_output,
      say_output, say_output, List.append_assoc]
  · by_cases h : e.n = 14
    · rw [if_pos h, if_pos (Fault.regs_intNo_iff.mpr h), pageFault_output]
    · rw [if_neg h, if_neg (mt Fault.regs_intNo_iff.mp h), List.flatMap_nil]

lemma Fault.report_printable (e : Fault) : ∀ c ∈ e.report, c = 0x0A ∨ Printable c := by
  have hfirst : ∀ c ∈ chars "Recieved interrupt:", c = 0x0A ∨ 0x20 ≤ c ∧ c ≤ 0x7E := by decide
  have hfault : ∀ c ∈ chars "Page Fault! ( present ) at 0x", c = 0x0A ∨ 0x20 ≤ c ∧ c ≤ 0x7E := by decide
  have hend : ∀ c ∈ chars "\n", c = 0x0A ∨ 0x20 ≤ c ∧ c ≤ 0x7E := by decide
  have hnum : ∀ {b n : ℕ}, 1 < b → b ≤ 16 → ∀ c ∈ numeral b n, c = 0x0A ∨ Printable c :=
    fun hb hb' c hc => Or.inr (numeral_printable hb hb' hc)
  rw [Fault.report, List.forall_mem_append, List.forall_mem_append, List.forall_mem_append]
  refine ⟨⟨⟨hfirst, hnum (by decide) (by decide)⟩, hend⟩, ?_⟩
  split_ifs
  · rw [List.forall_mem_append, List.forall_mem_append]
    exact ⟨⟨hfault, hnum (by decide) (by decide)⟩, hend⟩
  · exact List.forall_mem_nil _

lemma reports_printable (es : List Fault) : ∀ c ∈ reports es, c = 0x0A ∨ Printable c := by
  induction es with
  | nil => exact List.forall_mem_nil _
  | cons e es ih =>
    rw [reports, List.forall_mem_append]
    refine ⟨e.report_printable, ?_⟩
    split_ifs
    · exact List.forall_mem_nil _
    · exact ih

lemma handleAll_returns (I : Image) (ret : BitVec 32) (es : List Fault) (t : Terminal) :
    Library.Returns (handleAll I ret es t) (terminalWrite t (reports es), decide (∃ e ∈ es, e.n = 14)) := by
  induction es generalizing t with
  | nil => exact ⟨0, fun _ _ => rfl⟩
  | cons e es ih =>
    have hprint : Library.Returns (printAll terminalPutchar (isrHandler I (e.regs ret) e.cr2) t) _ :=
      printAll_returns _ t
    rw [isrHandler_output] at hprint
    refine (Library.Returns.bind_iff hprint).mpr ?_
    by_cases h : e.n = 14
    · have hd : ∃ e' ∈ e :: es, e'.n = 14 := ⟨e, List.mem_cons_self, h⟩
      simp only [if_pos (Fault.regs_intNo_iff.mpr h), reports, if_pos h, List.append_nil, decide_eq_true hd]
      exact ⟨0, fun _ _ => rfl⟩
    · have hd : (∃ e' ∈ e :: es, e'.n = 14) ↔ ∃ e' ∈ es, e'.n = 14 := by simp [h]
      simp only [if_neg (mt Fault.regs_intNo_iff.mp h), reports, if_neg h, hd, terminalWrite_append]
      exact ih _

theorem exceptions_reported (I : Image) (ret : BitVec 32) (es : List Fault) (memory : ℕ → BitVec 16)
    (h : ∀ c ∈ before, c = 0x0A ∨ Printable c) :
    ∃ t, Library.Returns (handleAll I ret es (terminalWrite (booted memory) before))
        (t, decide (∃ e ∈ es, e.n = 14)) ∧
      Shows t (written (before ++ reports es)) := by
  refine ⟨_, handleAll_returns I ret es _, ?_⟩
  rw [← terminalWrite_append]
  exact written_shows memory (List.forall_mem_append.mpr ⟨h, reports_printable es⟩)

def stored : Image where
  mem := Memory.holding (literals.flatMap fun s => chars s ++ [0])
  address s := BitVec.ofNat 32 ((literals.takeWhile (· ≠ s)).flatMap fun s => chars s ++ [0]).length
  literal_at := by decide
  words := fun _ => 0
  buf := fun _ => 0

theorem exceptions_reported_page_fault : ∃ t,
    Library.Returns (handleAll stored 0x80100100 [⟨14, ⟨0x80100200, 8, 0x202, 2⟩, kernelMode, 0x1000⟩]
      (terminalWrite (booted fun _ => 0) [0x41, 0x0A]))
        (t, decide (∃ e ∈ [(⟨14, ⟨0x80100200, 8, 0x202, 2⟩, kernelMode, 0x1000⟩ : Fault)], e.n = 14)) ∧
      Shows t (written ([0x41, 0x0A] ++ reports [⟨14, ⟨0x80100200, 8, 0x202, 2⟩, kernelMode, 0x1000⟩])) :=
  exceptions_reported stored 0x80100100 _ (fun _ => 0) (by
    rw [List.forall_mem_cons, List.forall_mem_singleton]
    exact ⟨Or.inr ⟨by decide, by decide⟩, Or.inl rfl⟩)

end TinuOS.Trap
