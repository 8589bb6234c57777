import TinuOS.Library.Run
import TinuOS.Umalloc.Model

/-! Runs of `malloc` and `free` calls by clients that free only what they hold. -/

namespace TinuOS.Umalloc

open Library

/-- Where the kernel image puts the array `heap`, and memory as the loader leaves it. -/
structure Image where
  heap : Addr
  mem : Mem
  heap_ne_null : heap ≠ 0
  heap_end : heap.toNat + maxHeap < 2 ^ 32
  bss : ∀ x ∈ span heap maxHeap, mem.byte x = 0

def smallKernel : Image where
  heap := 0x80110000#32
  mem := ⟨fun _ => 0⟩
  heap_ne_null := by decide
  heap_end := by decide
  bss _ _ := rfl

inductive Call
  | malloc (size : BitVec 32)
  | free (ap : Addr)
  deriving DecidableEq

structure Reply where
  ret : Addr
  printed : List Output
  deriving DecidableEq

structure Live where
  ptr : Addr
  size : BitVec 32
  deriving DecidableEq

structure Session where
  heap : Heap
  live : List Live

def Image.start (I : Image) : Session := ⟨⟨I.mem, 0, 0, 0⟩, []⟩

namespace Session

variable (heap : Addr)

def exec (fuel : ℕ) (s : Session) : Call → Option (Reply × Session)
  | .malloc size => (Umalloc.malloc heap fuel s.heap size).map fun (p, out, h) =>
      (⟨p, out⟩, ⟨h, if p = 0 then s.live else ⟨p, size⟩ :: s.live⟩)
  | .free ap =>
    if s.live.any (·.ptr = ap) then
      (Umalloc.free fuel s.heap ap).map fun (out, h) =>
        (⟨0, out⟩, ⟨h, s.live.eraseP (·.ptr = ap)⟩)
    else none

def replies (fuel : ℕ) : Session → List Call → Option (List Reply)
  | _, [] => some []
  | s, c :: cs => (s.exec heap fuel c).bind fun (r, s) => (replies fuel s cs).map (r :: ·)

def advance (fuel : ℕ) (s : Session) (c : Call) : Option Session := (s.exec heap fuel c).map Prod.snd

def Step (s : Session) (c : Call) (s' : Session) : Prop :=
  ∃ fuel r, s.exec heap fuel c = some (r, s')

end Session

inductive Route
  | refuse
  | reuse (m : Addr)
  | extend
  deriving DecidableEq

def route (fuel : ℕ) (h : Heap) (size : BitVec 32) : Option Route :=
  if size = 0 then some .refuse
  else if h.heapBottom = 0 then some .extend
  else if (header h.mem h.heapBottom).magic ≠ heapMagic then some .refuse
  else (seek (next h.mem) 0 (fun m => !(header h.mem m).isHole) fuel h.heapBottom).map fun m =>
    if m = 0 then .extend else .reuse m

def Heap.Fits (heap : Addr) (h : Heap) (allocate : BitVec 32) : Prop :=
  allocate ≠ 0 ∧ (h.opened heap).heapBottom < (h.opened heap).gKbrk + allocate ∧
    (h.opened heap).gKbrk + allocate < (h.opened heap).heapTop

instance (heap : Addr) (h : Heap) (allocate : BitVec 32) : Decidable (h.Fits heap allocate) :=
  inferInstanceAs (Decidable (_ ∧ _ ∧ _))

namespace Route

variable (heap : Addr) (h : Heap) (size : BitVec 32)

/-- The route does not reach the places where `malloc` lacks a check: a reused hole has room for
the rounded request, and the rounding does not wrap. -/
def Roomy : Route → Prop
  | .refuse => True
  | .reuse m => size ≤ 0x80000000#32 ∧ totalSize size ≤ (header h.mem m).size
  | .extend => size ≤ 0x80000000#32 ∨ ¬ h.Fits heap (totalSize size)

/-- The route takes no new region behind a block list, which would stay unlinked. -/
def Linking : Route → Prop
  | .extend => h.heapBottom = 0 ∨ ¬ h.Fits heap (totalSize size)
  | _ => True

instance : DecidablePred (Roomy heap h size) := fun r => by
  cases r <;> unfold Roomy <;> infer_instance

instance : DecidablePred (Linking heap h size) := fun r => by
  cases r <;> unfold Linking <;> infer_instance

end Route

namespace Session

variable (ok : Heap → BitVec 32 → Route → Prop)

def OnRoute (s : Session) : Call → Prop
  | .malloc size => ∀ fuel r, route fuel s.heap size = some r → ok s.heap size r
  | .free _ => True

def StepOn (heap : Addr) (s : Session) (c : Call) (s' : Session) : Prop :=
  s.Step heap c s' ∧ s.OnRoute ok c

variable [∀ h size, DecidablePred (ok h size)]

def checkRoute (fuel : ℕ) (s : Session) : Call → Bool
  | .malloc size => (route fuel s.heap size).any fun r => ok s.heap size r
  | .free _ => true

def execOn (heap : Addr) (fuel : ℕ) (s : Session) (c : Call) : Option Session :=
  if s.checkRoute ok fuel c then s.advance heap fuel c else none

end Session

variable {heap : Addr} {fuel n : ℕ} {h : Heap} {size : BitVec 32} {r r' : Route} {s s' : Session}
  {c : Call} {ok : Heap → BitVec 32 → Route → Prop}

lemma route_unique (hr : route fuel h size = some r) (hr' : route n h size = some r') : r = r' := by
  rw [route] at hr hr'
  split_ifs at hr hr' with hs hb hm
  · exact Option.some.inj (hr.symm.trans hr')
  · exact Option.some.inj (hr.symm.trans hr')
  · exact Option.some.inj (hr.symm.trans hr')
  · obtain ⟨a, ha, rfl⟩ := Option.map_eq_some_iff.mp hr
    obtain ⟨b, hb, rfl⟩ := Option.map_eq_some_iff.mp hr'
    rw [seek_unique ha hb]

lemma reuse_cases {m : Addr} (hr : route fuel h size = some (.reuse m)) :
    m ≠ 0 ∧ size ≠ 0 ∧ h.heapBottom ≠ 0 ∧ (header h.mem h.heapBottom).magic = heapMagic ∧
      seek (next h.mem) 0 (fun m => !(header h.mem m).isHole) fuel h.heapBottom = some m := by
  rw [route] at hr
  split_ifs at hr with hs hb hm
  · cases Option.some.inj hr
  · cases Option.some.inj hr
  · cases Option.some.inj hr
  · obtain ⟨a, ha, he⟩ := Option.map_eq_some_iff.mp hr
    split_ifs at he with h0
    cases he
    exact ⟨h0, hs, hb, not_not.mp hm, ha⟩

lemma Session.OnRoute.imp {ok' : Heap → BitVec 32 → Route → Prop} (h : s.OnRoute ok c)
    (hi : ∀ g size r, ok g size r → ok' g size r) : s.OnRoute ok' c := by
  cases c with
  | malloc size => exact fun fuel r hr => hi _ _ _ (h fuel r hr)
  | free ap => trivial

lemma Session.StepOn.imp {ok' : Heap → BitVec 32 → Route → Prop} (h : s.StepOn ok heap c s')
    (hi : ∀ g size r, ok g size r → ok' g size r) : s.StepOn ok' heap c s' := ⟨h.1, h.2.imp hi⟩

lemma step_of_advance (h : s.advance heap fuel c = some s') : s.Step heap c s' := by
  obtain ⟨⟨r, t⟩, ht, rfl⟩ := Option.map_eq_some_iff.mp h
  exact ⟨fuel, r, ht⟩

lemma onRoute_of_checkRoute [∀ h size, DecidablePred (ok h size)]
    (hc : s.checkRoute ok fuel c = true) : s.OnRoute ok c := by
  cases c with
  | free ap => trivial
  | malloc size =>
    intro k q hq
    obtain ⟨q', hq', hok⟩ := (Option.any_eq_true _ _).mp hc
    rw [route_unique hq hq']
    exact of_decide_eq_true hok

lemma stepOn_of_execOn [∀ h size, DecidablePred (ok h size)]
    (he : s.execOn ok heap fuel c = some s') : s.StepOn ok heap c s' := by
  rw [Session.execOn] at he
  split_ifs at he with hc
  exact ⟨step_of_advance he, onRoute_of_checkRoute hc⟩

end TinuOS.Umalloc
