import TinuOS.Console.Model
import TinuOS.Monitor.Expansion
import TinuOS.Printk.Format
import TinuOS.Printk.Terminated

/-! What `printf` puts on the serial line, and when it and `cpu_name` stay in their buffers. -/

namespace TinuOS.Console

open Library Printk Devices

def crlf (cs : List (BitVec 8)) : List (BitVec 8) := cs.flatMap fun c => if c = 0x0A then [0x0D, 0x0A] else [c]

def Uart.settings (u : Uart) : BitVec 8 × BitVec 8 × BitVec 8 × BitVec 8 × BitVec 16 × (ℕ → BitVec 8) :=
  (u.ier, u.fcr, u.lcr, u.mcr, u.divisor, u.status)

/-- From `u` the bytes `cs` went on the wire, with no more than `0xFFFF` reads of the
status for each, and all of them in time if the transmitter is never busy for so long. -/
structure Sent (u u' : Uart) (cs : List (BitVec 8)) : Prop where
  settings : u'.settings = u.settings
  reads : u.reads ≤ u'.reads ∧ u'.reads ≤ u.reads + 0xFFFF * cs.length
  wire : ∃ ws, u'.wire = u.wire ++ ws ∧ ws.map Prod.fst = cs ∧
    ((∀ k, ∃ i < 0xFFFF, u.status (k + i) &&& xmtrdy ≠ 0) → ∀ w ∈ ws, w.2 = true)

variable {u u' u'' : Uart} {cs ds : List (BitVec 8)} {c : BitVec 8} {n : ℕ} {t : Tty}

lemma sent_nil : Sent u u [] := ⟨rfl, ⟨le_rfl, le_rfl⟩, [], by simp, rfl, by simp⟩

lemma Sent.dlab (h : Sent u u' cs) : u'.dlab = u.dlab :=
  congrArg (fun s => s.2.2.1.getLsbD 7) h.settings

lemma Sent.status (h : Sent u u' cs) : u'.status = u.status := congrArg (fun s => s.2.2.2.2.2) h.settings

lemma Sent.trans (h : Sent u u' cs) (h' : Sent u' u'' ds) : Sent u u'' (cs ++ ds) := by
  obtain ⟨ws, hw, hm, hready⟩ := h.wire
  obtain ⟨vs, hv, hm', hready'⟩ := h'.wire
  have hr := h.reads
  have hr' := h'.reads
  refine ⟨h'.settings.trans h.settings, ?_, ws ++ vs, ?_, ?_, ?_⟩
  · rw [List.length_append]
    omega
  · rw [hv, hw, List.append_assoc]
  · rw [List.map_append, hm, hm']
  · intro hs w hmem
    rcases List.mem_append.mp hmem with hmem | hmem
    · exact hready hs w hmem
    · exact hready' (by rwa [h.status]) w hmem

lemma waitReady_spec (n : ℕ) (u : Uart) : ∃ k ready, k ≤ n ∧
    waitReady n u = { u with reads := u.reads + k, ready := ready } ∧
    ((∃ i < n, u.status (u.reads + i) &&& xmtrdy ≠ 0) → ready = true) := by
  induction n generalizing u with
  | zero => exact ⟨0, u.ready, le_rfl, rfl, by simp⟩
  | succ n ih =>
    rw [waitReady]
    by_cases h : u.status u.reads &&& xmtrdy = 0
    · obtain ⟨k, ready, hk, he, hready⟩ := ih u.inbLsr.2
      refine ⟨k + 1, ready, by omega, ?_, ?_⟩
      · refine (if_pos h).trans (he.trans ?_)
        simp only [Uart.inbLsr, Nat.add_assoc, Nat.add_comm 1 k]
      · rintro ⟨i, hi, hroom⟩
        cases i with
        | zero => exact absurd h hroom
        | succ i =>
          refine hready ⟨i, by omega, ?_⟩
          simp only [Uart.inbLsr]
          rwa [Nat.add_assoc, Nat.add_comm 1 i]
    · refine ⟨1, true, by omega, ?_, fun _ => rfl⟩
      refine (if_neg h).trans ?_
      simp only [Ne, h, not_false_eq_true, decide_true]

lemma serialPutchar_sent (hd : u.dlab = false) (c : BitVec 8) : Sent u (serialPutchar c u) [c] := by
  obtain ⟨k, ready, hk, he, hready⟩ := waitReady_spec 0xFFFF u
  have hw : serialPutchar c u =
      { u with reads := u.reads + k, ready := false, wire := u.wire ++ [(c, ready)] } := by
    rw [serialPutchar, he, Uart.outb, if_pos rfl]
    exact if_neg (by simpa [Uart.dlab] using hd)
  rw [hw]
  refine ⟨rfl, ⟨by simp, by simpa using hk⟩, [(c, ready)], rfl, rfl, fun hs w hmem => ?_⟩
  rw [List.mem_singleton.mp hmem]
  exact hready (hs u.reads)

lemma emit_sent (hd : t.uart.dlab = false) (c : BitVec 8) :
    (emit t c).bios = t.bios ++ [c] ∧ Sent t.uart (emit t c).uart [c] :=
  ⟨rfl, serialPutchar_sent hd c⟩

lemma putchar_sent (hd : t.uart.dlab = false) (c : BitVec 8) :
    (putchar t c).bios = t.bios ++ crlf [c] ∧ Sent t.uart (putchar t c).uart (crlf [c]) := by
  rw [crlf, List.flatMap_singleton]
  by_cases h : c = 0x0A
  · obtain ⟨hb, hs⟩ := emit_sent hd 0x0D
    obtain ⟨hb', hs'⟩ := emit_sent (hs.dlab.trans hd) c
    rw [putchar, if_pos h, if_pos h]
    refine ⟨?_, ?_⟩
    · rw [hb', hb, h, List.append_assoc]
      rfl
    · have htwo := hs.trans hs'
      rwa [h] at htwo ⊢
  · rw [putchar, if_neg h, if_neg h]
    exact emit_sent hd c

lemma foldl_putchar_sent (hd : t.uart.dlab = false) (cs : List (BitVec 8)) :
    (cs.foldl putchar t).bios = t.bios ++ crlf cs ∧ Sent t.uart (cs.foldl putchar t).uart (crlf cs) := by
  induction cs generalizing t with
  | nil => exact ⟨(List.append_nil _).symm, sent_nil⟩
  | cons c cs ih =>
    obtain ⟨hb, hs⟩ := putchar_sent hd c
    obtain ⟨hb', hs'⟩ := ih (hs.dlab.trans hd)
    have hcons : crlf (c :: cs) = crlf [c] ++ crlf cs := by
      rw [crlf, crlf, crlf, List.flatMap_cons, List.flatMap_singleton]
    rw [List.foldl_cons, hcons]
    exact ⟨by rw [hb', hb, List.append_assoc], hs.trans hs'⟩

section Setup

lemma outb_ier (u : Uart) (v : BitVec 8) : u.outb v ierReg =
    if u.dlab then { u with divisor := v ++ u.divisor.extractLsb' 0 8 } else { u with ier := v } := rfl

lemma outb_lcr (u : Uart) (v : BitVec 8) : u.outb v lcrReg = { u with lcr := v } := rfl

lemma outb_divisor (u : Uart) (v w : BitVec 8) (h : u.dlab = true) :
    (u.outb v lsReg).outb w msReg = { u with divisor := w ++ v } := by
  have hls : u.outb v lsReg = { u with divisor := u.divisor.extractLsb' 8 8 ++ v } := if_pos h
  have hms : (u.outb v lsReg).outb w msReg =
      { u with divisor := w ++ (u.divisor.extractLsb' 8 8 ++ v).extractLsb' 0 8 } := by
    rw [hls]
    exact if_pos h
  rw [hms, BitVec.extractLsb'_append_eq_right]

lemma consoleInit_eq (u : Uart) : consoleInit u =
    { u with
      ier := if u.dlab then u.ier else 0
      divisor := 3
      lcr := 0x03
      fcr := 0xC7
      mcr := 0x0B } := by
  obtain ⟨d, hd⟩ : ∃ d, (u.outb 0x00 ierReg) =
      { u with
        ier := if u.dlab then u.ier else 0
        divisor := d } := by
    rw [outb_ier]
    split_ifs
    · exact ⟨_, rfl⟩
    · exact ⟨u.divisor, rfl⟩
  have h80 : (0x80 : BitVec 8).getLsbD 7 = true := by decide
  rw [consoleInit, serialEnable, hd, outb_divisor]
  · rfl
  · simp only [Uart.dlab, outb_lcr, h80]

end Setup

section Printf

variable {buf : ℕ → Char8} {ps : List Piece} {extra : List Arg} {cells : ℕ → Char8}

lemma stringAt_cstr (hc : ∀ i (h : i < cs.length), cells i = cs[i]) (h0 : cells cs.length = 0) :
    StringAt 0 cells 0 (cstr cs) := by
  have hmap : (List.range' 0 (cs.length + 1)).map cells = cs ++ [0] := by
    refine List.ext_getElem (by simp) fun i h1 h2 => ?_
    rw [List.getElem_map, List.getElem_range', Nat.one_mul, Nat.zero_add, List.getElem_append]
    split_ifs with h
    · exact hc i h
    · obtain rfl : i = cs.length := by
        simp only [List.length_append, List.length_singleton] at h2
        omega
      simpa using h0
  have hcut : (cs ++ [0]).takeWhile (· ≠ (0 : Char8)) = cs.takeWhile (· ≠ 0) := by
    rw [List.takeWhile_append]
    split_ifs with h
    · rw [(List.takeWhile_prefix _).eq_of_length h]
      simp
    · rfl
  have hend : ∃ j < cs.length + 1, cells (0 + j) = 0 := ⟨cs.length, Nat.lt_succ_self _, by rwa [Nat.zero_add]⟩
  have hs := StringAt.takeWhile hend
  rwa [hmap, hcut] at hs

lemma vasprintf_wrote (buf : ℕ → Char8) (ps : List Piece) (extra : List Arg) : ∃ o,
    vasprintf buf (ps.flatMap Piece.text) (ps.flatMap Piece.args ++ extra) = some (o.ptr, o.store o.ptr 0) ∧
    (⟨buf, 0, []⟩ : Out Char8).Wrote o (ps.flatMap Piece.printed) := by
  obtain ⟨o, hw, hl⟩ := loop_pieces ps (l := extra) (o := ⟨buf, 0, []⟩)
  refine ⟨o, ?_, hw⟩
  rw [vasprintf, cstr_text, hl]
  rfl

lemma wrote_stores {o : Out Char8} (hw : (⟨buf, 0, []⟩ : Out Char8).Wrote o cs) (i : ℕ) :
    i ∈ (o.store o.ptr 0).stores ↔ i ≤ cs.length := by
  have hptr : o.ptr = cs.length := by simpa using hw.ptr
  rw [Out.store, List.mem_append, List.mem_singleton, hw.stores, hptr]
  simp only [List.not_mem_nil, false_or, Nat.zero_add, Nat.zero_le, true_and]
  omega

lemma wrote_string {o : Out Char8} (hw : (⟨buf, 0, []⟩ : Out Char8).Wrote o cs) :
    StringAt 0 (o.store o.ptr 0).cells 0 (cstr cs) := by
  have hptr : o.ptr = cs.length := by simpa using hw.ptr
  refine stringAt_cstr (fun i hi => ?_) ?_
  · have hc := hw.cells i hi
    rw [Nat.zero_add] at hc
    exact (Function.update_of_ne (by omega) _ _).trans hc
  · rw [← hptr]
    exact Function.update_self _ _ _

lemma printf_returns (buf : ℕ → Char8) (ps : List Piece) (extra : List Arg) (t : Tty) : ∃ o,
    Returns (printf buf (ps.flatMap Piece.text) (ps.flatMap Piece.args ++ extra) t)
      ⟨(ps.flatMap Piece.printed).length, o, (cstr (ps.flatMap Piece.printed)).foldl putchar t⟩ ∧
    ∀ i, i ∈ o.stores ↔ i ≤ (ps.flatMap Piece.printed).length := by
  obtain ⟨o, hv, hw⟩ := vasprintf_wrote buf ps extra
  have hptr : o.ptr = (ps.flatMap Piece.printed).length := by simpa using hw.ptr
  have hput : Returns (puts · (o.store o.ptr 0).cells 0 t) _ := Monitor.putString_returns (wrote_string hw)
  obtain ⟨N, hN⟩ := hput.map fun t => (⟨o.ptr, o.store o.ptr 0, t⟩ : Printed)
  refine ⟨o.store o.ptr 0, ⟨N, fun fuel hf => ?_⟩, wrote_stores hw⟩
  rw [printf, hv, Option.bind_some, ← hptr]
  exact hN fuel hf

structure Call where
  buf : ℕ → Char8
  pieces : List Piece
  extra : List Arg

namespace Call

def printf (c : Call) : Printf := ⟨c.buf, c.pieces.flatMap Piece.text, c.pieces.flatMap Piece.args ++ c.extra⟩

def text (c : Call) : List Char8 := c.pieces.flatMap Piece.printed

def output (c : Call) : List Char8 := cstr c.text

end Call

variable {calls : List Call}

lemma printfs_returns (calls : List Call) (t : Tty) : ∃ bufs,
    Returns (printfs (calls.map Call.printf) t) (bufs, (calls.flatMap Call.output).foldl putchar t) ∧
    List.Forall₂ (fun (o : Out Char8) c => ∀ i, i ∈ o.stores ↔ i ≤ c.text.length) bufs calls := by
  induction calls generalizing t with
  | nil => exact ⟨[], ⟨0, fun _ _ => rfl⟩, .nil⟩
  | cons c calls ih =>
    obtain ⟨o, hrun, ho⟩ := printf_returns c.buf c.pieces c.extra t
    obtain ⟨bufs, hruns, hbufs⟩ := ih (c.output.foldl putchar t)
    refine ⟨o :: bufs, ?_, .cons ho hbufs⟩
    rw [List.flatMap_cons, List.foldl_append]
    exact hrun.bind_iff.mpr (hruns.map fun r => (o :: r.1, r.2))

lemma below_iff {S : List ℕ} {m n : ℕ} (h : ∀ i, i ∈ S ↔ i ≤ m) : (∀ i ∈ S, i < n) ↔ m < n :=
  ⟨fun hs => hs m ((h m).mpr le_rfl), fun hm i hi => ((h i).mp hi).trans_lt hm⟩

lemma stores_lt_iff {bufs : List (Out Char8)} {n : ℕ}
    (h : List.Forall₂ (fun (o : Out Char8) (c : Call) => ∀ i, i ∈ o.stores ↔ i ≤ c.text.length) bufs calls) :
    (∀ o ∈ bufs, ∀ i ∈ o.stores, i < n) ↔ ∀ c ∈ calls, c.text.length < n := by
  induction h with
  | nil => simp
  | @cons o c bufs calls ho _ ih =>
    rw [List.forall_mem_cons, List.forall_mem_cons, ih, below_iff ho]

theorem console_prints (u : Uart) (calls : List Call) : ∃ bufs t,
    Returns (printfs (calls.map Call.printf) ⟨[], consoleInit u⟩) (bufs, t) ∧
    t.bios = crlf (calls.flatMap Call.output) ∧
    Sent (consoleInit u) t.uart (crlf (calls.flatMap Call.output)) ∧
    t.uart.settings = (if u.dlab then u.ier else 0, 0xC7, 0x03, 0x0B, 3, u.status) ∧
    ((∀ o ∈ bufs, ∀ i ∈ o.stores, i < 1024) ↔ ∀ c ∈ calls, c.text.length < 1024) := by
  obtain ⟨bufs, hrun, hbufs⟩ := printfs_returns calls ⟨[], consoleInit u⟩
  have hd : (consoleInit u).dlab = false := by
    rw [consoleInit_eq]
    exact (by decide : (0x03 : BitVec 8).getLsbD 7 = false)
  obtain ⟨hb, hs⟩ := foldl_putchar_sent (t := ⟨[], consoleInit u⟩) hd (calls.flatMap Call.output)
  refine ⟨bufs, _, hrun, hb.trans (List.nil_append _), hs, ?_, stores_lt_iff hbufs⟩
  refine hs.settings.trans ?_
  rw [consoleInit_eq]
  rfl

end Printf

section Names

end Names

end TinuOS.Console
