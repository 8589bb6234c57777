import TinuOS.Library.Run

/-! `drivers/ide.c`: the registers of the two IDE channels. The accesses to I/O ports are kept in
order; what the devices answer may depend on all of them. -/

namespace TinuOS.Ide

inductive Channel
  | primary
  | secondary
  deriving DecidableEq

structure IDEChannelRegisters where
  base : BitVec 16
  ctrl : BitVec 16
  bmide : BitVec 16
  nIEN : BitVec 8
  deriving DecidableEq

inductive Access
  | outb (v : BitVec 8) (port : BitVec 16)
  | inb (port : BitVec 16)
  | insl (port : BitVec 16) (addr cnt : BitVec 32)
  deriving DecidableEq

structure Driver where
  channels : Channel → IDEChannelRegisters
  accesses : List Access

/-- The answers of the devices, and what a variable holds that no branch has set. -/
structure World where
  inb : List Access → BitVec 16 → BitVec 8
  unset : BitVec 8

def ataRegStatus : BitVec 8 := 0x07#8
def ataRegControl : BitVec 8 := 0x0C#8
def ataRegAltstatus : BitVec 8 := 0x0C#8

def ataSrBsy : BitVec 8 := 0x80#8
def ataSrDf : BitVec 8 := 0x20#8
def ataSrDrq : BitVec 8 := 0x08#8
def ataSrErr : BitVec 8 := 0x01#8

def High (reg : BitVec 8) : Prop := 0x07#8 < reg ∧ reg < 0x0C#8

instance (reg : BitVec 8) : Decidable (High reg) := inferInstanceAs (Decidable (_ ∧ _))

def IDEChannelRegisters.port (c : IDEChannelRegisters) (reg : BitVec 8) : Option (BitVec 16) :=
  if reg < 0x08#8 then some (c.base + reg.setWidth 16 - 0x00#16)
  else if reg < 0x0C#8 then some (c.base + reg.setWidth 16 - 0x06#16)
  else if reg < 0x0E#8 then some (c.ctrl + reg.setWidth 16 - 0x0A#16)
  else if reg < 0x16#8 then some (c.bmide + reg.setWidth 16 - 0x0E#16)
  else none

def Driver.access (σ : Driver) (a : Access) : Driver := { σ with accesses := σ.accesses ++ [a] }

def Driver.accessAt (σ : Driver) (channel : Channel) (reg : BitVec 8) (a : BitVec 16 → Access) : Driver :=
  match (σ.channels channel).port reg with
  | some p => σ.access (a p)
  | none => σ

def ideWrite (σ : Driver) (channel : Channel) (reg data : BitVec 8) : Driver :=
  let σ := if High reg then ideWrite σ channel ataRegControl (0x80#8 ||| (σ.channels channel).nIEN) else σ
  let σ := σ.accessAt channel reg (.outb data)
  if High reg then ideWrite σ channel ataRegControl (σ.channels channel).nIEN else σ
termination_by if High reg then 1 else 0
decreasing_by all_goals simp_all [High, ataRegControl]

def ideRead (W : World) (σ : Driver) (channel : Channel) (reg : BitVec 8) : BitVec 8 × Driver :=
  let σ := if High reg then ideWrite σ channel ataRegControl (0x80#8 ||| (σ.channels channel).nIEN) else σ
  let result := ((σ.channels channel).port reg).elim W.unset (W.inb σ.accesses)
  let σ := σ.accessAt channel reg .inb
  let σ := if High reg then ideWrite σ channel ataRegControl (σ.channels channel).nIEN else σ
  (result, σ)

/-- The segment register ES, saved and set around the access, is left out, and so are the words
that arrive at `buffer`. -/
def ideReadBuffer (σ : Driver) (channel : Channel) (reg : BitVec 8) (buffer quads : BitVec 32) : Driver :=
  let σ := if High reg then ideWrite σ channel ataRegControl (0x80#8 ||| (σ.channels channel).nIEN) else σ
  let σ := σ.accessAt channel reg (.insl · buffer quads)
  if High reg then ideWrite σ channel ataRegControl (σ.channels channel).nIEN else σ

def waitBusy : ℕ → World → Driver → Channel → Option Driver
  | 0, _, _, _ => none
  | fuel + 1, W, σ, channel =>
    let r := ideRead W σ channel ataRegStatus
    if r.1 &&& ataSrBsy ≠ 0 then waitBusy fuel W r.2 channel else some r.2

def idePolling (fuel : ℕ) (W : World) (σ : Driver) (channel : Channel) (advancedCheck : BitVec 32) :
    Option (BitVec 8 × Driver) :=
  let σ := (ideRead W σ channel ataRegAltstatus).2
  let σ := (ideRead W σ channel ataRegAltstatus).2
  let σ := (ideRead W σ channel ataRegAltstatus).2
  let σ := (ideRead W σ channel ataRegAltstatus).2
  (waitBusy fuel W σ channel).map fun σ =>
    if advancedCheck ≠ 0 then
      let state := ideRead W σ channel ataRegStatus
      if state.1 &&& ataSrErr ≠ 0 then (2, state.2)
      else if state.1 &&& ataSrDf ≠ 0 then (1, state.2)
      else if state.1 &&& ataSrDrq = 0 then (3, state.2)
      else (0, state.2)
    else (0, σ)

def barPort (bar : BitVec 32) (legacy : BitVec 32) : BitVec 16 :=
  let bar := bar &&& 0xFFFFFFFC#32
  (bar + legacy * (if bar = 0 then 1 else 0)).setWidth 16

def ideInitialize (σ : Driver) (bar0 bar1 bar2 bar3 bar4 : BitVec 32) : Driver :=
  let channels
    | .primary => { σ.channels .primary with
        base := barPort bar0 0x1F0
        ctrl := barPort bar1 0x3F4
        bmide := ((bar4 &&& 0xFFFFFFFC#32) + 0).setWidth 16 }
    | .secondary => { σ.channels .secondary with
        base := barPort bar2 0x170
        ctrl := barPort bar3 0x374
        bmide := ((bar4 &&& 0xFFFFFFFC#32) + 8).setWidth 16 }
  let σ : Driver := { σ with channels }
  let σ := ideWrite σ .primary ataRegControl 2
  ideWrite σ .secondary ataRegControl 2

def booted : Driver := ⟨fun _ => ⟨0, 0, 0, 0⟩, []⟩

end TinuOS.Ide
