/-!
# Marks on an address

What is known about one byte of the image: whether it was loaded, and what the analysis found there.
Marks form a set, and are combined as sets.
-/

namespace Z80Atlas

/-- The set of marks on an address. -/
structure Marks where
  /-- Part of the loaded image. -/
  assigned : Bool := false
  /-- Part of a claimed instruction. -/
  code : Bool := false
  /-- First byte of a claimed instruction. -/
  opening : Bool := false
  /-- Referred to as data. -/
  data : Bool := false
  /-- Visited while following the flow of control. -/
  traced : Bool := false
  /-- First byte of a return instruction that belongs to a node. -/
  returns : Bool := false
deriving DecidableEq

namespace Marks

instance : EmptyCollection Marks := ⟨{}⟩

instance : Union Marks where
  union m k :=
    { assigned := m.assigned || k.assigned
      code := m.code || k.code
      opening := m.opening || k.opening
      data := m.data || k.data
      traced := m.traced || k.traced
      returns := m.returns || k.returns }

instance : SDiff Marks where
  sdiff m k :=
    { assigned := m.assigned && !k.assigned
      code := m.code && !k.code
      opening := m.opening && !k.opening
      data := m.data && !k.data
      traced := m.traced && !k.traced
      returns := m.returns && !k.returns }

/-- Whether the two sets have a mark in common. -/
def meets (m k : Marks) : Bool :=
  m.assigned && k.assigned || m.code && k.code || m.opening && k.opening || m.data && k.data ||
    m.traced && k.traced || m.returns && k.returns

/-- Every mark but `assigned`: what an analysis leaves behind. -/
def findings : Marks :=
  { code := true, opening := true, data := true, traced := true, returns := true }

@[simp] theorem assigned_union (m k : Marks) : (m ∪ k).assigned = (m.assigned || k.assigned) := rfl

@[simp] theorem code_union (m k : Marks) : (m ∪ k).code = (m.code || k.code) := rfl

@[simp] theorem opening_union (m k : Marks) : (m ∪ k).opening = (m.opening || k.opening) := rfl

@[simp] theorem data_union (m k : Marks) : (m ∪ k).data = (m.data || k.data) := rfl

@[simp] theorem traced_union (m k : Marks) : (m ∪ k).traced = (m.traced || k.traced) := rfl

@[simp] theorem returns_union (m k : Marks) : (m ∪ k).returns = (m.returns || k.returns) := rfl

theorem ext {x y : Marks} (ha : x.assigned = y.assigned) (hc : x.code = y.code)
    (ho : x.opening = y.opening) (hd : x.data = y.data) (ht : x.traced = y.traced)
    (hr : x.returns = y.returns) : x = y := by
  cases x
  cases y
  simp only at ha hc ho hd ht hr
  rw [ha, hc, ho, hd, ht, hr]

theorem sdiff_findings (m : Marks) : m \ findings = { assigned := m.assigned } := by
  cases m
  simp [SDiff.sdiff, findings]

end Marks

end Z80Atlas
