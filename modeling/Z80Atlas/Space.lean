import Z80Atlas.Space.Table
import Z80Atlas.Word

/-!
# Values and sets over the address space

`Space α` is a value for each of the 65536 addresses and `AddressSet` a set of addresses.  Both are
determined by what they say about each address, and a count over all addresses gives loops that use
addresses up their measure.
-/

namespace Z80Atlas

/-- A value for every address. -/
structure Space (α : Type) where
  table : Table α 16

namespace Space

variable {α β : Type}

/-- The same value at every address. -/
def replicate (v : α) : Space α := ⟨Table.replicate 16 v⟩

/-- The value at an address. -/
def get (s : Space α) (a : Address) : α := s.table.get a.toNat

/-- Change the value at an address. -/
def modify (s : Space α) (a : Address) (f : α → α) : Space α := ⟨s.table.modify f a.toNat⟩

/-- Replace the value at an address. -/
def set (s : Space α) (a : Address) (v : α) : Space α := s.modify a fun _ => v

/-- Change the value at every address. -/
def map (s : Space α) (f : α → β) : Space β := ⟨s.table.map f⟩

/-- At how many addresses the value satisfies `p`. -/
def count (s : Space α) (p : α → Bool) : Nat := s.table.count p

/-- Change the values at `n` consecutive addresses, going up from `a`. -/
def modifyFrom (f : α → α) (s : Space α) (a : Address) : (n : Nat) → Space α
  | 0 => s
  | n + 1 => modifyFrom f (s.modify a f) (a + 1) n

@[simp] theorem get_replicate (v : α) (a : Address) : (replicate v).get a = v :=
  Table.get_replicate ..

@[simp] theorem get_map (s : Space α) (f : α → β) (a : Address) : (s.map f).get a = f (s.get a) :=
  Table.get_map ..

theorem get_modify (s : Space α) (f : α → α) (a b : Address) :
    (s.modify a f).get b = if b = a then f (s.get b) else s.get b := by
  have h := Table.get_modify f s.table a.toNat_lt b.toNat_lt
  simp only [UInt16.toNat_inj] at h
  exact h

theorem get_set (s : Space α) (v : α) (a b : Address) :
    (s.set a v).get b = if b = a then v else s.get b :=
  get_modify ..

theorem ext {s t : Space α} (h : ∀ a, s.get a = t.get a) : s = t := by
  obtain ⟨s⟩ := s
  obtain ⟨t⟩ := t
  congr 1
  refine Table.ext fun i hi => ?_
  have := h (UInt16.ofNat i)
  simpa [get, UInt16.toNat_ofNat_of_lt' (show i < UInt16.size from hi)] using this

theorem count_modify (s : Space α) (p : α → Bool) (f : α → α) (a : Address) :
    (s.modify a f).count p + (if p (s.get a) then 1 else 0) =
      s.count p + (if p (f (s.get a)) then 1 else 0) :=
  Table.count_modify ..

theorem count_modify_le (s : Space α) {p : α → Bool} {f : α → α} {a : Address}
    (h : p (f (s.get a)) = true → p (s.get a) = true) : (s.modify a f).count p ≤ s.count p := by
  have hcount := count_modify s p f a
  cases hnew : p (f (s.get a)) with
  | true =>
    rw [hnew, h hnew] at hcount
    exact Nat.le_of_eq (Nat.add_right_cancel hcount)
  | false =>
    rw [hnew] at hcount
    exact Nat.le.intro hcount

theorem count_modifyFrom_le (s : Space α) {p : α → Bool} {f : α → α} (h : ∀ v, p (f v) → p v)
    (a : Address) (n : Nat) : (modifyFrom f s a n).count p ≤ s.count p := by
  induction n generalizing s a with
  | zero => exact Nat.le_refl _
  | succ n ih => exact Nat.le_trans (ih _ _) (s.count_modify_le (h _))

theorem get_modifyFrom (f : α → α) (s : Space α) (a b : Address) {n : Nat}
    (hn : a.toNat + n ≤ 65536) :
    (modifyFrom f s a n).get b =
      if a.toNat ≤ b.toNat ∧ b.toNat < a.toNat + n then f (s.get b) else s.get b := by
  induction n generalizing s a with
  | zero =>
    have : ¬(a.toNat ≤ b.toNat ∧ b.toNat < a.toNat + 0) := by omega
    rw [if_neg this]
    rfl
  | succ n ih =>
    have hb := b.toNat_lt
    cases n with
    | zero =>
      rw [modifyFrom, modifyFrom, get_modify]
      have : b = a ↔ a.toNat ≤ b.toNat ∧ b.toNat < a.toNat + (0 + 1) := by
        rw [← UInt16.toNat_inj]; omega
      simp only [this]
    | succ k =>
      have hs : (a + 1).toNat = a.toNat + 1 := by
        rw [UInt16.toNat_add]
        simp only [UInt16.reduceToNat]
        omega
      rw [modifyFrom, ih _ _ (by omega), get_modify, hs]
      by_cases hba : b = a
      · subst hba
        have h1 : ¬(b.toNat + 1 ≤ b.toNat ∧ b.toNat < b.toNat + 1 + (k + 1)) := by omega
        have h2 : b.toNat ≤ b.toNat ∧ b.toNat < b.toNat + (k + 1 + 1) := by omega
        rw [if_neg h1, if_pos h2, if_pos rfl]
      · have hne : b.toNat ≠ a.toNat := fun h => hba (UInt16.toNat_inj.mp h)
        have : (a.toNat + 1 ≤ b.toNat ∧ b.toNat < a.toNat + 1 + (k + 1)) ↔
            (a.toNat ≤ b.toNat ∧ b.toNat < a.toNat + (k + 1 + 1)) := by omega
        rw [if_neg hba]
        simp only [this]

end Space

/-- A set of addresses. -/
structure AddressSet where
  members : Space Bool

namespace AddressSet

/-- The set without members. -/
def empty : AddressSet := ⟨Space.replicate false⟩

/-- Whether an address is a member. -/
def contains (s : AddressSet) (a : Address) : Bool := s.members.get a

/-- Add an address. -/
def insert (s : AddressSet) (a : Address) : AddressSet := ⟨s.members.set a true⟩

/-- How many addresses are not members. -/
def missing (s : AddressSet) : Nat := s.members.count (! ·)

instance : Membership Address AddressSet := ⟨fun s a => s.contains a = true⟩

instance (s : AddressSet) (a : Address) : Decidable (a ∈ s) :=
  inferInstanceAs (Decidable (s.contains a = true))

theorem mem_iff {s : AddressSet} {a : Address} : a ∈ s ↔ s.members.get a = true := Iff.rfl

@[simp] theorem not_mem_empty (a : Address) : a ∉ empty := by
  simp [mem_iff, empty]

@[simp] theorem mem_insert {s : AddressSet} {a b : Address} : b ∈ s.insert a ↔ b = a ∨ b ∈ s := by
  rw [mem_iff, mem_iff, insert, Space.get_set]
  by_cases h : b = a <;> simp [h]

theorem ext {s t : AddressSet} (h : ∀ a, a ∈ s ↔ a ∈ t) : s = t := by
  obtain ⟨s⟩ := s
  obtain ⟨t⟩ := t
  congr 1
  refine Space.ext fun a => ?_
  have := h a
  simp only [mem_iff] at this
  exact Bool.eq_iff_iff.mpr this

theorem missing_insert_le (s : AddressSet) (a : Address) : (s.insert a).missing ≤ s.missing :=
  s.members.count_modify_le fun hnew => absurd hnew Bool.false_ne_true

theorem missing_insert_lt {s : AddressSet} {a : Address} (h : a ∉ s) :
    (s.insert a).missing < s.missing := by
  have hcount := Space.count_modify s.members (! ·) (fun _ => true) a
  have ha : s.members.get a = false := by simpa [mem_iff] using h
  rw [ha] at hcount
  exact Nat.le_of_eq hcount

end AddressSet

end Z80Atlas
