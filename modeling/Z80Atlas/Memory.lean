import Z80Atlas.Memory.Marks
import Z80Atlas.Space
import Z80Atlas.Word.Hex

/-!
# The memory image

A memory is a byte and a set of marks for every address.  Loading a region writes its bytes and
marks them as assigned; it is refused as a whole when it would run past the top.  Reading wraps
around, marking does not.
-/

namespace Z80Atlas

/-- The bytes of the address space and the marks on them. -/
structure Memory where
  bytes : Space Byte
  marking : Space Marks

/-- A region that does not fit: it starts at `origin` and has `length` bytes. -/
structure RegionError where
  origin : Address
  length : Nat
deriving DecidableEq

/-- The text of the error. -/
def RegionError.message (e : RegionError) : String :=
  s!"Memory region out of range: origin {e.origin.display0x} with {e.length} bytes exceeds 64K"

namespace Memory

/-- The memory before anything is loaded: zero bytes without marks. -/
def empty : Memory where
  bytes := Space.replicate 0
  marking := Space.replicate ∅

/-! ### Reading -/

/-- The byte at an address. -/
def byte (m : Memory) (a : Address) : Byte := m.bytes.get a

/-- The byte `k` places after an address, around the top if need be. -/
def fetch (m : Memory) (a : Address) (k : Nat) : Byte := m.byte (a + UInt16.ofNat k)

/-- The word at an address, low byte first. -/
def word (m : Memory) (a : Address) : Address := Address.ofBytes (m.byte a) (m.byte (a + 1))

/-- The word at an address, high byte first. -/
def wordBigEndian (m : Memory) (a : Address) : Address :=
  Address.ofBytes (m.byte (a + 1)) (m.byte a)

/-- `length` bytes from an address on, around the top if need be. -/
def slice (m : Memory) (a : Address) (length : Nat) : List Byte :=
  (List.range length).map (m.fetch a)

/-- The marks on an address. -/
def marks (m : Memory) (a : Address) : Marks := m.marking.get a

/-- The marks at a position, none when it is outside the address space. -/
def marksAt (m : Memory) (i : Nat) : Marks :=
  if i < 65536 then m.marks (UInt16.ofNat i) else ∅

/-! ### Loading -/

/-- Write bytes one after the other, marking each place as assigned. -/
def write (m : Memory) (a : Address) : List Byte → Memory
  | [] => m
  | b :: rest =>
    let written : Memory :=
      { bytes := m.bytes.set a b
        marking := m.marking.modify a (· ∪ { assigned := true }) }
    written.write (a + 1) rest

/-- Load a region, unless it runs past the top. -/
def load (m : Memory) (origin : Address) (data : List Byte) : Except RegionError Memory :=
  if origin.toNat + data.length ≤ 65536 then .ok (m.write origin data)
  else .error { origin, length := data.length }

/-! ### Marking -/

/-- Change the marks at `length` positions from `start` on, as far as they lie in the address
space. -/
def modifyMarks (m : Memory) (start length : Nat) (f : Marks → Marks) : Memory :=
  if start < 65536 then
    { m with
      marking := Space.modifyFrom f m.marking (UInt16.ofNat start) (min length (65536 - start)) }
  else m

/-- Add marks at `length` positions from `start` on. -/
def mark (m : Memory) (start length : Nat) (k : Marks) : Memory :=
  m.modifyMarks start length (· ∪ k)

/-- Replace the marks at `length` positions from `start` on. -/
def remark (m : Memory) (start length : Nat) (k : Marks) : Memory :=
  m.modifyMarks start length fun _ => k

/-- Take marks away everywhere. -/
def unmark (m : Memory) (k : Marks) : Memory :=
  { m with marking := m.marking.map (· \ k) }

/-! ### Searching -/

/-- The first of `n` addresses from `a` on whose marks satisfy `p`. -/
def findFrom (m : Memory) (p : Marks → Bool) (a : Address) : (n : Nat) → Option Address
  | 0 => none
  | n + 1 => if p (m.marks a) then some a else m.findFrom p (a + 1) n

/-- The first of `length` positions from `start` on that has one of the marks. -/
def find (m : Memory) (k : Marks) (start length : Nat) : Option Address :=
  if start < 65536 then
    m.findFrom (·.meets k) (UInt16.ofNat start) (min length (65536 - start))
  else none

/-- The nearest opening at `a` or at most `back` places before it. -/
def openingBefore (m : Memory) (a : Address) : (back : Nat) → Option Address
  | 0 => if (m.marks a).opening then some a else none
  | back + 1 =>
    if (m.marks a).opening then some a
    else if a = 0 then none
    else m.openingBefore (a - 1) back

/-! ### What the operations do to bytes and marks -/

theorem ext {m n : Memory} (hb : ∀ a, m.byte a = n.byte a) (hm : ∀ a, m.marks a = n.marks a) :
    m = n := by
  obtain ⟨mb, mm⟩ := m
  obtain ⟨nb, nm⟩ := n
  congr
  · exact Space.ext hb
  · exact Space.ext hm

@[simp] theorem byte_modifyMarks (m : Memory) (start length : Nat) (f : Marks → Marks)
    (a : Address) :
    (m.modifyMarks start length f).byte a = m.byte a := by
  unfold modifyMarks
  split <;> rfl

@[simp] theorem byte_mark (m : Memory) (start length : Nat) (k : Marks) (a : Address) :
    (m.mark start length k).byte a = m.byte a := byte_modifyMarks ..

@[simp] theorem byte_unmark (m : Memory) (k : Marks) (a : Address) :
    (m.unmark k).byte a = m.byte a := rfl

@[simp] theorem marks_unmark (m : Memory) (k : Marks) (a : Address) :
    (m.unmark k).marks a = m.marks a \ k :=
  Space.get_map ..

theorem marks_modifyMarks (m : Memory) (start length : Nat) (f : Marks → Marks) (a : Address) :
    (m.modifyMarks start length f).marks a =
      if start ≤ a.toNat ∧ a.toNat < start + length then f (m.marks a) else m.marks a := by
  have ha := a.toNat_lt
  unfold modifyMarks marks
  split
  next h =>
    have hs : (UInt16.ofNat start).toNat = start := UInt16.toNat_ofNat_of_lt' h
    rw [Space.get_modifyFrom _ _ _ _ (by rw [hs]; omega), hs]
    have : (start ≤ a.toNat ∧ a.toNat < start + min length (65536 - start)) ↔
        (start ≤ a.toNat ∧ a.toNat < start + length) := by omega
    simp only [this]
  next h => rw [if_neg (by omega)]

theorem marks_mark (m : Memory) (start length : Nat) (k : Marks) (a : Address) :
    (m.mark start length k).marks a =
      if start ≤ a.toNat ∧ a.toNat < start + length then m.marks a ∪ k else m.marks a :=
  marks_modifyMarks ..

end Memory

end Z80Atlas
