import TinuOS.Monitor.Expansion
import TinuOS.Monitor.Model

/-! How far `kprintf` reads its format. -/

namespace TinuOS.Monitor

open Library Printk

def ReadsWithin {σ : Type*} (putchar : σ → Char8 → σ) (mem : Memory) (data : BitVec 32)
    (args : ℕ → BitVec 32) (buf : ℕ → Char8) (t : σ) (n : ℕ) : Prop :=
  ∃ s, Returns (kprintf putchar mem data args buf t) s ∧ ∀ i ∈ s.reads, i ≤ n

variable {σ : Type*} {putchar : σ → Char8 → σ} {mem : Memory} {data : BitVec 32}
  {args : ℕ → BitVec 32} {s s' : Printing σ} {c : Char8} {text : List Char8} {fuel : ℕ}

lemma kprintfSwitch_data (h : kprintfSwitch putchar mem args fuel c s = some s') :
    s'.data = s.data ∧ s'.reads = s.reads := by
  by_cases hn : c = ch 'd' ∨ c = ch 'u' ∨ c = ch 'x'
  · rw [kprintfSwitch, if_pos hn] at h
    obtain ⟨t, -, rfl⟩ := Option.map_eq_some_iff.mp h
    exact ⟨rfl, rfl⟩
  · by_cases hc : c = ch 's'
    · rw [kprintfSwitch, if_neg hn, if_pos hc] at h
      obtain ⟨t, -, rfl⟩ := Option.map_eq_some_iff.mp h
      exact ⟨rfl, rfl⟩
    · rw [kprintfSwitch, if_neg hn, if_neg hc] at h
      obtain rfl := Option.some.inj h
      exact ⟨rfl, rfl⟩

lemma kprintfLoop_reads (h : kprintfLoop putchar mem data args fuel s = some s') :
    s.data ∈ s'.reads ∧ s.reads ⊆ s'.reads := by
  induction fuel generalizing s with
  | zero => cases h
  | succ fuel ih =>
    have hadv : s.data ∈ s.advance.reads ∧ s.reads ⊆ s.advance.reads :=
      ⟨List.mem_append_right _ (List.mem_singleton.mpr rfl), List.subset_append_left _ _⟩
    have hthrough : s.advance.reads ⊆ s'.reads → s.data ∈ s'.reads ∧ s.reads ⊆ s'.reads :=
      fun hsub => ⟨hsub hadv.1, List.Subset.trans hadv.2 hsub⟩
    apply hthrough
    rw [kprintfLoop] at h
    split_ifs at h
    · obtain rfl := Option.some.inj h
      exact List.Subset.refl _
    · exact (ih h).2
    · obtain ⟨s₁, hs, h⟩ := Option.bind_eq_some_iff.mp h
      have hsub := (ih h).2
      rw [(kprintfSwitch_data hs).2] at hsub
      exact List.Subset.trans (List.subset_append_left _ _) hsub

lemma kprintfLoop_overruns (text : List Char8) : ∀ (s : Printing σ) (fuel : ℕ),
    StringAt 0 (mem.bytes data) s.data text → .conv 0 ∈ directives text →
    kprintfLoop putchar mem data args fuel s = some s' → s.data + text.length + 1 ∈ s'.reads := by
  fun_induction directives text with
  | case1 =>
    intro s fuel _ hcut
    cases hcut
  | case2 c fmt hc ih =>
    intro s fuel hat hcut h
    obtain ⟨hl, hn, hs⟩ := hat
    cases fuel with
    | zero => cases h
    | succ fuel =>
      rw [kprintfLoop_lit hl hn hc] at h
      have hread := ih _ fuel hs ((List.mem_cons.mp hcut).resolve_left (by simp)) h
      have hlen : s.data + (c :: fmt).length + 1 = s.data + 1 + fmt.length + 1 := by
        rw [List.length_cons]
        omega
      rw [hlen]
      exact hread
  | case3 c fmt hc ih =>
    intro s fuel hat hcut h
    obtain ⟨hl, hn, hs⟩ := hat
    cases fuel with
    | zero => cases h
    | succ fuel =>
      cases fmt with
      | nil =>
        rw [kprintfLoop_conv (hl.trans (not_not.mp hc)) hs] at h
        obtain ⟨s₁, hsw, h⟩ := Option.bind_eq_some_iff.mp h
        have hread := (kprintfLoop_reads h).1
        rw [(kprintfSwitch_data hsw).1] at hread
        exact hread
      | cons d fmt =>
        obtain ⟨hl', hn', hs'⟩ := hs
        rw [kprintfLoop_conv (hl.trans (not_not.mp hc)) hl'] at h
        obtain ⟨s₁, hsw, h⟩ := Option.bind_eq_some_iff.mp h
        have hd : s₁.data = s.data + 1 + 1 := (kprintfSwitch_data hsw).1
        have hcut' : .conv 0 ∈ directives fmt := by
          refine (List.mem_cons.mp hcut).resolve_left fun he => hn' ?_
          exact (Directive.conv.inj he).symm
        have hread := ih s₁ fuel (by rw [hd]; exact hs') hcut' h
        have hlen : s.data + (c :: d :: fmt).length + 1 = s₁.data + fmt.length + 1 := by
          simp only [hd, List.length_cons]
          omega
        rw [hlen]
        exact hread

theorem readsWithin_iff (putchar : σ → Char8 → σ) (args : ℕ → BitVec 32) (buf : ℕ → Char8) (t : σ)
    (hf : StringAt 0 (mem.bytes data) 0 text) :
    ReadsWithin putchar mem data args buf t text.length ↔ .conv 0 ∉ directives text := by
  constructor
  · rintro ⟨s, hrun, hreads⟩ hcut
    obtain ⟨fuel, hr⟩ := hrun.exists_fuel
    have hread := hreads _ (kprintfLoop_overruns text _ fuel hf hcut hr)
    rw [Nat.zero_add] at hread
    exact absurd hread (Nat.not_succ_le_self _)
  · intro hcut
    obtain ⟨s, hrun, hp⟩ := kprintf_printed putchar args buf t hf hcut
    refine ⟨s, hrun, fun i hi => ?_⟩
    rw [hp.reads, List.nil_append, List.mem_range'_1, Nat.zero_add] at hi
    exact Nat.le_of_lt_succ hi.2

theorem readsWithin_iff_decimal :
    ReadsWithin (fun t c => t ++ [c]) (Memory.holding [ch '%', ch 'd']) 0 (fun _ => 7) (fun _ => 0) [] 2 ↔
      .conv 0 ∉ directives [ch '%', ch 'd'] :=
  readsWithin_iff _ _ _ _ (by decide : StringAt 0 ((Memory.holding [ch '%', ch 'd']).bytes 0) 0
    [ch '%', ch 'd'])

theorem percent_overrun : ¬ ∀ (mem : Memory) (data : BitVec 32) (args : ℕ → BitVec 32)
    (buf : ℕ → Char8) (t : Terminal) (text : List Char8), StringAt 0 (mem.bytes data) 0 text →
    ReadsWithin terminalPutchar mem data args buf t text.length := by
  intro h
  have hat : StringAt 0 ((Memory.holding [ch '%']).bytes 0) 0 [ch '%'] := by decide
  have hcut : .conv 0 ∈ directives [ch '%'] := by simp [directives]
  obtain ⟨s, hrun, hreads⟩ := h _ 0 (fun _ => 0) (fun _ => 0) (booted fun _ => 0) _ hat
  obtain ⟨fuel, hr⟩ := hrun.exists_fuel
  exact absurd (hreads _ (kprintfLoop_overruns _ _ fuel hat hcut hr)) (by decide)

end TinuOS.Monitor
