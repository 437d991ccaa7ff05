/-!
# Tables with one entry for every index

A `Table α n` holds a value for every index below `width n`, as a perfect binary tree.  Equal
subtrees are shared, so a constant table costs `n` nodes, and an update copies one path and leaves
the old table intact.  Two tables with the same entries are the same tree (`Table.ext`).
-/

namespace Z80Atlas

/-- A value for every index below the `n`-th power of two: at each fork the lowest bit of the index
picks the side. -/
inductive Table (α : Type) : Nat → Type
  | leaf (value : α) : Table α 0
  | fork {n : Nat} (even odd : Table α n) : Table α (n + 1)

namespace Table

variable {α β : Type} {n : Nat}

/-- How many entries a table has: the `n`-th power of two. -/
def width : (n : Nat) → Nat
  | 0 => 1
  | n + 1 => 2 * width n

/-- The table with the same value everywhere. -/
def replicate : (n : Nat) → α → Table α n
  | 0, v => leaf v
  | n + 1, v =>
    let half := replicate n v
    fork half half

/-- The entry at index `i`. -/
def get : {n : Nat} → Table α n → Nat → α
  | _, leaf v, _ => v
  | _, fork even odd, i => if i % 2 = 0 then even.get (i / 2) else odd.get (i / 2)

/-- Change the entry at index `i`. -/
def modify (f : α → α) : {n : Nat} → Table α n → Nat → Table α n
  | _, leaf v, _ => leaf (f v)
  | _, fork even odd, i =>
    if i % 2 = 0 then fork (even.modify f (i / 2)) odd else fork even (odd.modify f (i / 2))

/-- Change every entry. -/
def map (f : α → β) : {n : Nat} → Table α n → Table β n
  | _, leaf v => leaf (f v)
  | _, fork even odd => fork (even.map f) (odd.map f)

/-- How many entries satisfy `p`. -/
def count (p : α → Bool) : {n : Nat} → Table α n → Nat
  | _, leaf v => if p v then 1 else 0
  | _, fork even odd => even.count p + odd.count p

@[simp] theorem get_replicate (n : Nat) (v : α) (i : Nat) : (replicate n v).get i = v := by
  induction n generalizing i with
  | zero => rfl
  | succ n ih => simp [replicate, get, ih]

@[simp] theorem get_map (f : α → β) (t : Table α n) (i : Nat) : (t.map f).get i = f (t.get i) := by
  induction t generalizing i with
  | leaf v => rfl
  | fork even odd ihe iho => simp only [map, get, ihe, iho]; split <;> rfl

theorem get_modify (f : α → α) (t : Table α n) {i j : Nat} (hi : i < width n) (hj : j < width n) :
    (t.modify f i).get j = if j = i then f (t.get j) else t.get j := by
  induction t generalizing i j with
  | leaf v =>
    have : j = i := by unfold width at hi hj; omega
    simp [modify, get, this]
  | fork even odd ihe iho =>
    have hi' : i / 2 < width _ := Nat.div_lt_of_lt_mul hi
    have hj' : j / 2 < width _ := Nat.div_lt_of_lt_mul hj
    by_cases hie : i % 2 = 0 <;> by_cases hje : j % 2 = 0
    · have hiff : j / 2 = i / 2 ↔ j = i := by omega
      simp [modify, get, hie, hje, ihe hi' hj', hiff]
    · have hne : j ≠ i := by omega
      simp [modify, get, hie, hje, hne]
    · have hne : j ≠ i := by omega
      simp [modify, get, hie, hje, hne]
    · have hiff : j / 2 = i / 2 ↔ j = i := by omega
      simp [modify, get, hie, hje, iho hi' hj', hiff]

/-- Two tables with the same entries are the same. -/
theorem ext {t u : Table α n} (h : ∀ i < width n, t.get i = u.get i) : t = u := by
  induction t with
  | leaf v =>
    cases u with
    | leaf w => exact congrArg leaf (h 0 Nat.one_pos)
  | fork even odd ihe iho =>
    cases u with
    | fork even' odd' =>
      congr 1
      · refine ihe fun i hi => ?_
        have := h (2 * i) (by rw [width]; omega)
        simpa [get] using this
      · refine iho fun i hi => ?_
        have := h (2 * i + 1) (by rw [width]; omega)
        have hm : (2 * i + 1) % 2 = 1 := by omega
        have hd : (2 * i + 1) / 2 = i := by omega
        simpa [get, hm, hd] using this

theorem count_modify (p : α → Bool) (f : α → α) (t : Table α n) (i : Nat) :
    (t.modify f i).count p + (if p (t.get i) then 1 else 0) =
      t.count p + (if p (f (t.get i)) then 1 else 0) := by
  induction t generalizing i with
  | leaf v => exact Nat.add_comm _ _
  | fork even odd ihe iho =>
    by_cases h : i % 2 = 0
    · have := ihe (i / 2)
      simp only [modify, count, get, h, if_true]
      omega
    · have := iho (i / 2)
      simp only [modify, count, get, h, if_false]
      omega

end Table

end Z80Atlas
