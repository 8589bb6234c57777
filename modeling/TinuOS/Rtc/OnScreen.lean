import TinuOS.Monitor.Prints
import TinuOS.Rtc.Display

/-! What the screen shows when `rtc_print_struct` is done. -/

namespace TinuOS.Rtc

open Library Printk Monitor

variable {σ δ : Type*} {putchar : σ → Char8 → σ} {I : Image} {U : Unset} {D : Device δ}
  {z : Screen σ} {r : Reading δ} {time : Time} {memory : ℕ → BitVec 16}

variable (putchar U z) in
lemma toText_returns (table : List (List Char8)) (limit num : BitVec 8) (index : ℤ) {message : BitVec 32}
    {cs : List Char8} (hf : StringAt 0 (I.mem.bytes message) 0 cs) (hcut : .conv 0 ∉ directives cs) :
    ∃ o, Returns (toText putchar I U table limit message index num z) o := by
  unfold toText
  by_cases hn : num < 1 ∨ limit < num
  · simp only [if_pos hn]
    obtain ⟨s, hrun, -⟩ := kprintf_printed putchar U.words U.bytes z.terminal hf hcut
    exact ⟨_, (hrun.map Printing.terminal).map _⟩
  · simp only [if_neg hn]
    exact ⟨_, 0, fun _ _ => rfl⟩

lemma rtcPrintStruct_returns (putchar : σ → Char8 → σ) (I : Image) (U : Unset) (time : Time) (z : Screen σ) :
    ∃ z', Returns (rtcPrintStruct putchar I U time z) z' := by
  obtain ⟨⟨weekday, z₁⟩, hw⟩ := toText_returns putchar U z datesStr 7 time.dayOfWeek (time.dayOfWeek.toNat - 2)
    I.week_at (plain_whole (by decide))
  obtain ⟨⟨month, z₂⟩, hm⟩ := toText_returns putchar U z₁ monthsStr 12 time.month (time.month.toNat - 1)
    I.month_at (plain_whole (by decide))
  have hf := overlay_apart month (overlay_apart weekday I.format_at I.weekday_apart (Nat.lt_succ_self _))
    I.month_apart (Nat.lt_succ_self _)
  have hcut : .conv 0 ∉ directives dateFormat := by
    rw [directives_format]
    decide
  obtain ⟨s, hrun, -⟩ := kprintf_printed putchar (fun i => [I.weekday, I.month, time.hour.setWidth 32,
    time.minute.setWidth 32, time.second.setWidth 32, time.century.setWidth 32, time.year.setWidth 32].getD i
      (U.words i)) U.bytes z₂.terminal hf hcut
  exact ⟨_, (Returns.bind_iff hw).mpr ((Returns.bind_iff hm).mpr
    (hrun.map fun p => { z₂ with terminal := p.terminal }))⟩

end TinuOS.Rtc
