import TinuOS.Library.Fuel
import TinuOS.Monitor.Itoa

/-! What `kprintf` passes to `terminal_putchar`. -/

namespace TinuOS.Monitor

open Library Printk

/-- A `%` at the end of the format has the NUL for its character. -/
inductive Directive
  | lit (c : Char8)
  | conv (c : Char8)
  deriving DecidableEq

def Directive.takes : Directive → Bool
  | .lit _ => false
  | .conv _ => true

def directives : List Char8 → List Directive
  | [] => []
  | c :: fmt =>
    if c ≠ ch '%' then .lit c :: directives fmt
    else .conv (fmt.headD 0) :: directives fmt.tail
termination_by fmt => fmt.length
decreasing_by
  · exact Nat.lt_succ_self _
  · rw [List.length_tail, List.length_cons]
    omega

@[irreducible] def Memory.string (mem : Memory) (p : BitVec 32) : List Char8 :=
  ((List.range' 0 (2 ^ 32)).map (mem.bytes p)).takeWhile (· ≠ 0)

def conversionText (mem : Memory) (c : Char8) (word : BitVec 32) : List Char8 :=
  if c = ch 'd' ∨ c = ch 'u' ∨ c = ch 'x' then numberText c word
  else if c = ch 's' then (if word = 0 then nullText else mem.string word)
  else [word.setWidth 8]

def expand (mem : Memory) (args : ℕ → BitVec 32) : ℕ → List Directive → List Char8
  | _, [] => []
  | k, .lit c :: ds => c :: expand mem args k ds
  | k, .conv c :: ds => conversionText mem c (args k) ++ expand mem args (k + 1) ds

def conversions : List Char8 := "duxsc".toList.map ch

variable {σ : Type*} {putchar : σ → Char8 → σ} {mem : Memory} {data p : BitVec 32}
  {args : ℕ → BitVec 32} {s s' s'' : Printing σ} {t : σ} {c : Char8} {text cs cs' : List Char8}
  {ds : List Directive} {cells : ℕ → Char8} {i j k m n fuel : ℕ}

lemma Memory.string_at (h : ∃ a, mem a = 0) (p : BitVec 32) :
    StringAt 0 (mem.bytes p) 0 (mem.string p) := by
  obtain ⟨a, ha⟩ := h
  rw [Memory.string]
  refine StringAt.takeWhile ⟨(a - p).toNat, (a - p).isLt, ?_⟩
  rw [Nat.zero_add, Memory.bytes, BitVec.ofNat_toNat, BitVec.setWidth_eq, add_sub_cancel]
  exact ha

lemma string_eq (h : StringAt 0 (mem.bytes p) 0 cs) : mem.string p = cs :=
  (mem.string_at ⟨_, (StringAt.iff_getElem.mp h).2.2⟩ p).unique h

lemma conversionText_string (h : p ≠ 0) : conversionText mem (ch 's') p = mem.string p := by
  rw [conversionText, if_neg (by decide), if_pos rfl, if_neg h]

lemma putString_eq (h : StringAt 0 cells i cs) (hf : cs.length < fuel) :
    putString putchar fuel cells i t = some (cs.foldl putchar t) := by
  induction cs generalizing fuel i t with
  | nil =>
    obtain ⟨fuel, rfl⟩ := Nat.exists_eq_add_of_lt hf
    exact if_neg (not_not.mpr h)
  | cons c cs ih =>
    obtain ⟨rfl, h0, hs⟩ := h
    obtain ⟨fuel, rfl⟩ : ∃ m, fuel = m + 1 := ⟨fuel - 1, by omega⟩
    rw [putString, if_pos h0]
    exact ih hs (by simpa using hf)

lemma putString_returns (h : StringAt 0 cells i cs) :
    Returns (putString putchar · cells i t) (cs.foldl putchar t) :=
  Returns.of_fuel fun _ hf => putString_eq h (Nat.lt_of_succ_le hf)

structure Printing.Printed (putchar : σ → Char8 → σ) (s s' : Printing σ) (n k : ℕ)
    (cs : List Char8) : Prop where
  data : s'.data = s.data + n
  reads : s'.reads = s.reads ++ List.range' s.data n
  arg : s'.arg = s.arg + k
  terminal : s'.terminal = cs.foldl putchar s.terminal
  stores : ∀ i ∈ s'.buf.stores, i ∈ s.buf.stores ∨ i < 20

open Printing

lemma Printing.Printed.trans (h : Printed putchar s s' m i cs) (h' : Printed putchar s' s'' n j cs') :
    Printed putchar s s'' (m + n) (i + j) (cs ++ cs') := by
  refine ⟨?_, ?_, ?_, ?_, fun a ha => ?_⟩
  · rw [h'.data, h.data, Nat.add_assoc]
  · rw [h'.reads, h.reads, h.data, List.append_assoc, ← List.range'_append_1]
  · rw [h'.arg, h.arg, Nat.add_assoc]
  · rw [h'.terminal, h.terminal, List.foldl_append]
  · rcases h'.stores a ha with ha | ha
    · exact h.stores a ha
    · exact Or.inr ha

lemma printed_advance : Printed putchar s s.advance 1 0 [] :=
  ⟨rfl, rfl, rfl, rfl, fun _ => Or.inl⟩

lemma printed_lit :
    Printed putchar s { s.advance with terminal := putchar s.terminal c } 1 0 [c] :=
  ⟨rfl, rfl, rfl, rfl, fun _ => Or.inl⟩

lemma takes_lit : (Directive.lit c :: ds).countP Directive.takes = 0 + ds.countP Directive.takes := by
  rw [Nat.zero_add]
  exact List.countP_cons_of_neg Bool.false_ne_true

lemma takes_conv :
    (Directive.conv c :: ds).countP Directive.takes = 0 + 0 + 1 + ds.countP Directive.takes := by
  rw [List.countP_cons_of_pos (rfl : (Directive.conv c).takes = true), Nat.add_comm]

lemma kprintfSwitch_printed (putchar : σ → Char8 → σ) (args : ℕ → BitVec 32) (h : ∃ a, mem a = 0)
    (c : Char8) (s : Printing σ) :
    ∃ s', Returns (kprintfSwitch putchar mem args · c s) s' ∧
      Printed putchar s s' 0 1 (conversionText mem c (args s.arg)) := by
  rw [conversionText]
  by_cases hn : c = ch 'd' ∨ c = ch 'u' ∨ c = ch 'x'
  · have hs := itoa_stringAt ⟨s.buf.cells, 0, s.buf.stores⟩ c (args s.arg)
    refine ⟨{ s with
      arg := s.arg + 1
      buf := itoa ⟨s.buf.cells, 0, s.buf.stores⟩ c (args s.arg)
      terminal := (numberText c (args s.arg)).foldl putchar s.terminal }, ?_, ?_⟩
    · simp only [kprintfSwitch, if_pos hn]
      exact (putString_returns hs).map _
    · rw [if_pos hn]
      refine ⟨rfl, (List.append_nil _).symm, rfl, rfl, fun i hi => ?_⟩
      rcases itoa_stores hi with hi | ⟨-, hlt⟩
      · exact Or.inl hi
      · simp only at hlt
        exact Or.inr (by omega)
  · by_cases hc : c = ch 's'
    · have hs : StringAt 0 (if args s.arg = 0 then (nullText.getD · 0) else mem.bytes (args s.arg)) 0
          (if args s.arg = 0 then nullText else mem.string (args s.arg)) := by
        split_ifs with h0
        · exact StringAt.getD (by decide)
        · exact mem.string_at h _
      rw [if_neg hn, if_pos hc]
      generalize (if args s.arg = 0 then nullText else mem.string (args s.arg)) = cs at hs ⊢
      refine ⟨{ s with
        arg := s.arg + 1
        terminal := cs.foldl putchar s.terminal }, ?_, ?_⟩
      · simp only [kprintfSwitch, if_neg hn, if_pos hc]
        exact (putString_returns hs).map _
      · exact ⟨rfl, (List.append_nil _).symm, rfl, rfl, fun _ => Or.inl⟩
    · refine ⟨{ s with
        arg := s.arg + 1
        terminal := putchar s.terminal ((args s.arg).setWidth 8) }, ?_, ?_⟩
      · simp only [kprintfSwitch, if_neg hn, if_neg hc]
        exact ⟨0, fun _ _ => rfl⟩
      · rw [if_neg hn, if_neg hc]
        exact ⟨rfl, (List.append_nil _).symm, rfl, rfl, fun _ => Or.inl⟩

lemma kprintfLoop_end (hz : mem.bytes data s.data = 0) :
    kprintfLoop putchar mem data args (fuel + 1) s = some s.advance := if_pos hz

lemma kprintfLoop_lit (hl : mem.bytes data s.data = c) (h0 : c ≠ 0) (hc : c ≠ ch '%') :
    kprintfLoop putchar mem data args (fuel + 1) s =
      kprintfLoop putchar mem data args fuel
        { s.advance with terminal := putchar s.terminal c } := by
  rw [kprintfLoop, hl, if_neg h0, if_pos hc]
  rfl

lemma kprintfLoop_conv (hp : mem.bytes data s.data = ch '%') (hl : mem.bytes data (s.data + 1) = c) :
    kprintfLoop putchar mem data args (fuel + 1) s =
      (kprintfSwitch putchar mem args fuel c s.advance.advance).bind
        (kprintfLoop putchar mem data args fuel) := by
  have h0 : ch '%' ≠ 0 := by decide
  rw [kprintfLoop, hp, if_neg h0, if_neg (not_not.mpr rfl), ← hl]
  rfl

lemma kprintfLoop_printed (putchar : σ → Char8 → σ) (args : ℕ → BitVec 32) (h0 : ∃ a, mem a = 0)
    (text : List Char8) : ∀ s : Printing σ,
    StringAt 0 (mem.bytes data) s.data text → .conv 0 ∉ directives text →
    ∃ s', Returns (kprintfLoop putchar mem data args · s) s' ∧
      Printed putchar s s' (text.length + 1) ((directives text).countP Directive.takes)
        (expand mem args s.arg (directives text)) := by
  fun_induction directives text with
  | case1 =>
    intro s hs _
    refine ⟨s.advance, Returns.of_fuel fun fuel (hf : 1 ≤ fuel) => ?_, printed_advance⟩
    obtain ⟨fuel, rfl⟩ : ∃ m, fuel = m + 1 := ⟨fuel - 1, by omega⟩
    exact kprintfLoop_end hs
  | case2 c fmt hc ih =>
    intro s hat hcut
    obtain ⟨hl, hn, hs⟩ := hat
    obtain ⟨s', hrun, hp⟩ := ih { s.advance with terminal := putchar s.terminal c } hs
      fun h => hcut (List.mem_cons_of_mem _ h)
    refine ⟨s', hrun.turn fun fuel => kprintfLoop_lit hl hn hc, ?_⟩
    have hlen : (c :: fmt).length + 1 = 1 + (fmt.length + 1) := Nat.add_comm _ _
    rw [hlen, takes_lit]
    exact printed_lit.trans hp
  | case3 c fmt hc ih =>
    intro s hat hcut
    obtain ⟨hl, hn, hs⟩ := hat
    cases fmt with
    | nil => exact (hcut List.mem_cons_self).elim
    | cons d fmt =>
      obtain ⟨hl', hn', hs'⟩ := hs
      obtain ⟨s₁, hsw, hp₁⟩ := kprintfSwitch_printed putchar args h0 d s.advance.advance
      have hs₁ : StringAt 0 (mem.bytes data) s₁.data fmt := by
        rw [hp₁.data]
        exact hs'
      obtain ⟨s', hrun, hp₂⟩ := ih s₁ hs₁ fun h => hcut (List.mem_cons_of_mem _ h)
      refine ⟨s', (hsw.bind_iff.mpr hrun).turn fun fuel =>
        kprintfLoop_conv (hl.trans (not_not.mp hc)) hl', ?_⟩
      have hlen : (c :: d :: fmt).length + 1 = 1 + 1 + 0 + (fmt.length + 1) := by
        simp only [List.length_cons]
        omega
      rw [hp₁.arg] at hp₂
      rw [hlen, takes_conv]
      exact ((printed_advance.trans printed_advance).trans hp₁).trans hp₂

lemma kprintf_printed (putchar : σ → Char8 → σ) (args : ℕ → BitVec 32) (buf : ℕ → Char8) (t : σ)
    (hf : StringAt 0 (mem.bytes data) 0 text) (hcut : .conv 0 ∉ directives text) :
    ∃ s, Returns (kprintf putchar mem data args buf t) s ∧
      Printed putchar ⟨0, 0, ⟨buf, 0, []⟩, [], t⟩ s (text.length + 1)
        ((directives text).countP Directive.takes) (expand mem args 0 (directives text)) :=
  kprintfLoop_printed putchar args ⟨_, hf.ends⟩ text _ hf hcut

theorem kprintf_expands (putchar : σ → Char8 → σ) (args : ℕ → BitVec 32) (buf : ℕ → Char8) (t : σ)
    (hf : StringAt 0 (mem.bytes data) 0 text)
    (hc : ∀ c, .conv c ∈ directives text → c ∈ conversions) :
    ∃ s, Returns (kprintf putchar mem data args buf t) s ∧
      s.terminal = (expand mem args 0 (directives text)).foldl putchar t ∧
      s.arg = (directives text).countP Directive.takes ∧ ∀ i ∈ s.buf.stores, i < 20 := by
  have hcut : .conv 0 ∉ directives text := fun h => absurd (hc 0 h) (by decide)
  obtain ⟨s, hrun, hp⟩ := kprintf_printed putchar args buf t hf hcut
  refine ⟨s, hrun, hp.terminal, hp.arg.trans (Nat.zero_add _), fun i hi => ?_⟩
  exact (hp.stores i hi).resolve_left (List.not_mem_nil (a := i))

def Memory.holding (text : List Char8) : Memory := fun a => text.getD a.toNat 0

theorem kprintf_expands_least : ∃ s,
    Returns (kprintf (fun t c => t ++ [c]) (Memory.holding [ch '%', ch 'd']) 0 (fun _ => 0x80000000)
      (fun _ => 0) []) s ∧
    s.terminal = (expand (Memory.holding [ch '%', ch 'd']) (fun _ => 0x80000000) 0
      (directives [ch '%', ch 'd'])).foldl (fun t c => t ++ [c]) [] ∧
    s.arg = (directives [ch '%', ch 'd']).countP Directive.takes ∧ ∀ i ∈ s.buf.stores, i < 20 :=
  kprintf_expands (fun t c => t ++ [c]) (fun _ => 0x80000000) (fun _ => 0) [] (by decide) (by
    have hd : directives [ch '%', ch 'd'] = [.conv (ch 'd')] := by simp [directives]
    intro c hc
    rw [hd, List.mem_singleton, Directive.conv.injEq] at hc
    rw [hc]
    decide)

end TinuOS.Monitor
