import TinuOS.Devices.E820

/-! `devices/edd.c`: what the BIOS knows about the disk drives. The BIOS is a parameter with a state of
its own; each call of `intcall` may fill the parameter block that `si` points to. -/

namespace TinuOS.Devices

def eddmaxnr : ℕ := 6
def eddmagic1 : BitVec 16 := 0x55AA
def eddmagic2 : BitVec 16 := 0xAA55

structure EddDeviceParams where
  length : BitVec 8
  rest : List (BitVec 8)
  deriving DecidableEq

def sizeofEddDeviceParams : BitVec 8 := 64

structure EddInfo where
  version : BitVec 8
  physicalNumberOfCylinders : BitVec 16
  physicalNumberOfHeads : BitVec 8
  sectorsPerTrack : BitVec 8
  params : EddDeviceParams
  deriving DecidableEq

structure BiosRegs where
  ah : BitVec 8
  bx : BitVec 16
  ch : BitVec 8
  cl : BitVec 8
  dh : BitVec 8
  dl : BitVec 8
  si : BitVec 16
  es : BitVec 16
  eflags : BitVec 32

structure Bios (β : Type*) where
  ds : BitVec 16
  paramsAddress : BitVec 16
  address0 : β → EddInfo
  intcall : BiosRegs → EddDeviceParams → β → BiosRegs × EddDeviceParams × β

/-- The pointer `edp` is kept as the index of its slot. The loop advances `ebp`, a name that is declared
nowhere. -/
structure Probing (β : Type*) where
  eddbuf : ℕ → EddInfo
  eddbufEntries : BitVec 8
  edp : ℕ
  ebp : ℕ
  stores : List ℕ
  bios : β

section

variable {β : Type*} (B : Bios β)

def initregs : BiosRegs := ⟨0, 0, 0, 0, 0, 0, 0, B.ds, 0⟩

def getEddInfo (devno : BitVec 8) (b : β) : BitVec 32 × EddInfo × β :=
  -- `memcpy (ei, 0, sizeof *ei)` where `memset` would clear the structure
  let ei := B.address0 b
  let ireg := { initregs B with ah := 0x41, bx := eddmagic1, dl := devno }
  let (oreg, params, b) := B.intcall ireg ei.params b
  let ei := { ei with params }
  if oreg.eflags &&& x86EflagsCF ≠ 0 then (-1, ei, b)
  else if oreg.bx ≠ eddmagic2 then (-1, ei, b)
  else
    let ei := { ei with
      version := oreg.ah
      params := { ei.params with length := sizeofEddDeviceParams } }
    let ireg := { ireg with ah := 0x48, dl := devno, si := B.paramsAddress }
    let (_, params, b) := B.intcall ireg ei.params b
    let ei := { ei with params }
    let ireg := { ireg with ah := 0x08, dl := devno, es := 0 }
    let (oreg, params, b) := B.intcall ireg ei.params b
    let ei := { ei with params }
    if oreg.eflags &&& x86EflagsCF = 0 then
      (0, { ei with
        physicalNumberOfCylinders := oreg.ch.setWidth 16 + (oreg.cl &&& 0xC0).setWidth 16 <<< 2
        physicalNumberOfHeads := oreg.dh
        sectorsPerTrack := oreg.cl &&& 0x3F }, b)
    else (0, ei, b)

def Probing.store (s : Probing β) (ei : EddInfo) : Probing β :=
  { s with
    eddbuf := Function.update s.eddbuf s.edp ei
    stores := s.stores ++ [s.edp]
    ebp := s.ebp + 1
    eddbufEntries := s.eddbufEntries + 1 }

def Probing.probe (s : Probing β) (devno : BitVec 8) : Probing β :=
  let (ret, ei, b) := getEddInfo B devno s.bios
  let s := { s with bios := b }
  if ret = 0 ∧ s.eddbufEntries.toNat < eddmaxnr then s.store ei else s

def drives (eddMbrSigMax : ℕ) : List (BitVec 8) := (List.range' 0x80 eddMbrSigMax).map (BitVec.ofNat 8)

def queryEdd (eddMbrSigMax : ℕ) (s : Probing β) : Probing β :=
  (drives eddMbrSigMax).foldl (Probing.probe B) { s with edp := 0 }

def answering : List (BitVec 8) → β → List EddInfo
  | [], _ => []
  | devno :: devnos, b =>
    let (ret, ei, b) := getEddInfo B devno b
    if ret = 0 then ei :: answering devnos b else answering devnos b

structure Recorded (eddMbrSigMax : ℕ) (s : Probing β) : Prop where
  count : (queryEdd B eddMbrSigMax s).eddbufEntries.toNat =
    min eddmaxnr (answering B (drives eddMbrSigMax) s.bios).length
  slots : ∀ i (h : i < (answering B (drives eddMbrSigMax) s.bios).length), i < eddmaxnr →
    (queryEdd B eddMbrSigMax s).eddbuf i = (answering B (drives eddMbrSigMax) s.bios)[i]
  inside : ∀ i ∈ (queryEdd B eddMbrSigMax s).stores, i < eddmaxnr

end

variable {β : Type*} {B : Bios β} {s : Probing β} {devno : BitVec 8} {devnos : List (BitVec 8)}
  {ei : EddInfo} {eis : List EddInfo} {n : ℕ}

def overwritten (buf : ℕ → EddInfo) (eis : List EddInfo) : ℕ → EddInfo :=
  eis.foldl (fun buf ei => Function.update buf 0 ei) buf

lemma overwritten_eq (buf : ℕ → EddInfo) (eis : List EddInfo) :
    overwritten buf eis = eis.getLast?.elim buf (Function.update buf 0) := by
  induction eis using List.reverseRecOn with
  | nil => rfl
  | append_singleton eis ei ih =>
    rw [overwritten, List.foldl_concat, List.getLast?_concat]
    change Function.update (overwritten buf eis) 0 ei = Function.update buf 0 ei
    rw [ih]
    cases eis.getLast? with
    | none => rfl
    | some last => exact Function.update_idem ..

structure Filled (s t : Probing β) (eis : List EddInfo) : Prop where
  count : t.eddbufEntries.toNat = s.eddbufEntries.toNat + eis.length
  buf : t.eddbuf = overwritten s.eddbuf eis
  stores : t.stores = s.stores ++ List.replicate eis.length 0

lemma answering_cons (b : β) : answering B (devno :: devnos) b =
    if (getEddInfo B devno b).1 = 0
    then (getEddInfo B devno b).2.1 :: answering B devnos (getEddInfo B devno b).2.2
    else answering B devnos (getEddInfo B devno b).2.2 := rfl

lemma probe_cases (devno : BitVec 8) (s : Probing β) :
    (((getEddInfo B devno s.bios).1 ≠ 0 ∨ eddmaxnr ≤ s.eddbufEntries.toNat) ∧
      s.probe B devno = { s with bios := (getEddInfo B devno s.bios).2.2 }) ∨
    ((getEddInfo B devno s.bios).1 = 0 ∧ s.eddbufEntries.toNat < eddmaxnr ∧
      s.probe B devno = Probing.store { s with bios := (getEddInfo B devno s.bios).2.2 }
        (getEddInfo B devno s.bios).2.1) := by
  simp only [Probing.probe]
  split_ifs with h
  · exact Or.inr ⟨h.1, h.2, rfl⟩
  · exact Or.inl ⟨by rwa [not_and_or, Nat.not_lt] at h, rfl⟩

lemma filled_nil (s : Probing β) : Filled s s [] := ⟨rfl, rfl, by simp⟩

lemma store_count (s : Probing β) (ei : EddInfo) (hlt : s.eddbufEntries.toNat < eddmaxnr) :
    (s.store ei).eddbufEntries.toNat = s.eddbufEntries.toNat + 1 := by
  change (s.eddbufEntries + 1).toNat = _
  rw [eddmaxnr] at hlt
  bv_omega

lemma Filled.of_bios {t : Probing β} {b : β} (h : Filled { s with bios := b } t eis) : Filled s t eis :=
  ⟨h.count, h.buf, h.stores⟩

lemma Filled.cons {t : Probing β} (h0 : s.edp = 0) (hlt : s.eddbufEntries.toNat < eddmaxnr)
    (h : Filled (s.store ei) t eis) : Filled s t (ei :: eis) := by
  refine ⟨?_, ?_, ?_⟩
  · rw [h.count, store_count s ei hlt, List.length_cons]
    omega
  · rw [h.buf]
    change overwritten (Function.update s.eddbuf s.edp ei) eis = _
    rw [h0]
    rfl
  · rw [h.stores]
    change s.stores ++ [s.edp] ++ _ = _
    rw [h0, List.length_cons, List.replicate_succ, List.append_assoc, List.singleton_append]

lemma take_answering_cons {b : β} {k : ℕ} (h : (getEddInfo B devno b).1 ≠ 0 ∨ k = 0) :
    (answering B (devno :: devnos) b).take k =
      (answering B devnos (getEddInfo B devno b).2.2).take k := by
  rcases h with hret | rfl
  · rw [answering_cons, if_neg hret]
  · rw [List.take_zero, List.take_zero]

lemma probes_filled {k : ℕ} (h0 : s.edp = 0) (hk : s.eddbufEntries.toNat + k = eddmaxnr) :
    Filled s (devnos.foldl (Probing.probe B) s) ((answering B devnos s.bios).take k) := by
  induction devnos generalizing s k with
  | nil =>
    rw [answering, List.take_nil]
    exact filled_nil s
  | cons devno devnos ih =>
    rw [List.foldl_cons]
    rcases probe_cases (B := B) devno s with ⟨hskip, hp⟩ | ⟨hret, hlt, hp⟩
    · rw [hp, take_answering_cons (hskip.imp_right fun hfull => by omega)]
      exact Filled.of_bios (ih h0 hk)
    · obtain ⟨k, rfl⟩ : ∃ m, k = m + 1 := ⟨k - 1, by omega⟩
      rw [hp, answering_cons, if_pos hret, List.take_succ_cons]
      refine Filled.of_bios (Filled.cons (s := { s with bios := (getEddInfo B devno s.bios).2.2 }) h0 hlt ?_)
      refine ih (s := Probing.store { s with bios := (getEddInfo B devno s.bios).2.2 } _) h0 ?_
      rw [store_count { s with bios := (getEddInfo B devno s.bios).2.2 } _ hlt]
      change s.eddbufEntries.toNat + 1 + k = eddmaxnr
      omega

lemma queryEdd_filled (buf : ℕ → EddInfo) (b : β) :
    Filled ⟨buf, 0, 0, 0, [], b⟩ (queryEdd B n ⟨buf, 0, 0, 0, [], b⟩)
      ((answering B (drives n) b).take eddmaxnr) :=
  probes_filled rfl rfl

lemma overwritten_zero (buf : ℕ → EddInfo) (h : eis ≠ []) : some (overwritten buf eis 0) = eis.getLast? := by
  rw [overwritten_eq, List.getLast?_eq_some_getLast h, Option.elim_some, Function.update_self]

lemma overwritten_pos (buf : ℕ → EddInfo) {i : ℕ} (h : 0 < i) : overwritten buf eis i = buf i := by
  rw [overwritten_eq]
  cases eis.getLast? with
  | none => rfl
  | some last => exact Function.update_of_ne h.ne' _ _

lemma overwritten_slots_iff (buf : ℕ → EddInfo) (eis : List EddInfo) :
    (∀ i < eis.length, eis[i]? = some (overwritten buf eis i)) ↔ eis.length ≤ 1 ∨
      (eis.head? = eis.getLast? ∧ ∀ i, 0 < i → i < eis.length → eis[i]? = some (buf i)) := by
  rcases Nat.eq_zero_or_pos eis.length with h0 | hpos
  · exact iff_of_true (fun i hi => by omega) (Or.inl (by omega))
  · have hne : eis ≠ [] := List.length_pos_iff.mp hpos
    rw [List.head?_eq_getElem?, ← overwritten_zero buf hne]
    constructor
    · intro h
      refine Or.inr ⟨h 0 hpos, fun i hi hlt => ?_⟩
      rw [h i hlt, overwritten_pos buf hi]
    · intro h i hlt
      rcases Nat.eq_zero_or_pos i with rfl | hi
      · rcases h with h1 | ⟨h0, -⟩
        · rw [overwritten_zero buf hne, List.getLast?_eq_getElem?]
          congr 1
          omega
        · exact h0
      · rw [overwritten_pos buf hi]
        exact (h.resolve_left (by omega)).2 i hi hlt

theorem recorded_iff {β : Type*} (B : Bios β) (eddMbrSigMax : ℕ) (buf : ℕ → EddInfo) (b : β) :
    let s : Probing β := ⟨buf, 0, 0, 0, [], b⟩
    let eis := (answering B (drives eddMbrSigMax) b).take eddmaxnr
    Recorded B eddMbrSigMax s ↔ eis.length ≤ 1 ∨
      (eis.head? = eis.getLast? ∧ ∀ i, 0 < i → i < eis.length → eis[i]? = some (buf i)) := by
  intro s eis
  have hf : Filled s (queryEdd B eddMbrSigMax s) eis := queryEdd_filled buf b
  rw [← overwritten_slots_iff]
  have hlen : eis.length = min eddmaxnr (answering B (drives eddMbrSigMax) b).length := List.length_take
  have hget : ∀ i < eddmaxnr, eis[i]? = (answering B (drives eddMbrSigMax) b)[i]? :=
    fun i hi => List.getElem?_take_of_lt hi
  constructor
  · intro h i hi
    have hs := h.slots i (by change i < (answering B (drives eddMbrSigMax) b).length; omega) (by omega)
    rw [hget i (by omega), List.getElem?_eq_getElem (by omega), ← hf.buf, hs]
  · intro h
    refine ⟨?_, fun i hi h6 => ?_, fun i hi => ?_⟩
    · rw [hf.count, ← hlen]
      exact Nat.zero_add _
    · have hi' : i < (answering B (drives eddMbrSigMax) b).length := hi
      have hs := h i (by omega)
      rw [hget i h6, List.getElem?_eq_getElem hi', Option.some_inj] at hs
      rw [hf.buf]
      exact hs.symm
    · rw [hf.stores] at hi
      rw [List.eq_of_mem_replicate hi]
      exact Nat.succ_pos 5

def twoDrives : Bios Unit where
  ds := 0
  paramsAddress := 0
  address0 _ := ⟨0, 0, 0, 0, ⟨0, []⟩⟩
  intcall ireg params _ := ({ ireg with ah := ireg.dl, bx := eddmagic2 }, params, ())

theorem second_drive_overwrites_first : ¬ ∀ (β : Type) (B : Bios β) (eddMbrSigMax : ℕ) (buf : ℕ → EddInfo)
    (b : β), 0 < eddMbrSigMax → Recorded B eddMbrSigMax ⟨buf, 0, 0, 0, [], b⟩ := by
  intro h
  have hs := (h Unit twoDrives 2 (fun _ => ⟨0, 0, 0, 0, ⟨0, []⟩⟩) () (by decide)).slots 0 (by decide) (by decide)
  exact absurd hs (by decide)

end TinuOS.Devices
