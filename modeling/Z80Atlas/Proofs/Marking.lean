import Z80Atlas.Flow.Discover

/-!
# Marks cut the code into instructions

An image before a survey has no marks but those of loaded bytes.  Claiming instructions keeps the
memory `Parsed`: the claimed instructions are loaded as a whole, no two of them overlap, and
together they are exactly the bytes that are marked as code.  What a survey asks of a memory is
stated here in terms of single bytes: whether an instruction is loaded, what stands in the way of
claiming it, and what a walk finds.
-/

namespace Z80Atlas

/-! ### Ranges of addresses -/

namespace Address

/-- Whether `b` is one of the `n` addresses from `a` on. -/
def InRange (a : Address) (n : Nat) (b : Address) : Prop :=
  a.toNat ≤ b.toNat ∧ b.toNat < a.toNat + n

instance (a : Address) (n : Nat) (b : Address) : Decidable (InRange a n b) :=
  inferInstanceAs (Decidable (_ ∧ _))

theorem toNat_add_one {a : Address} (h : a.toNat + 1 < 65536) : (a + 1).toNat = a.toNat + 1 := by
  rw [UInt16.toNat_add]
  simp only [UInt16.reduceToNat]
  omega

theorem toNat_add_one_le (a : Address) : (a + 1).toNat ≤ a.toNat + 1 := by
  rw [UInt16.toNat_add]
  exact Nat.mod_le _ _

theorem not_inRange_zero (a b : Address) : ¬InRange a 0 b := by
  rintro ⟨h, h'⟩
  omega

theorem inRange_self {a : Address} {n : Nat} (h : 0 < n) : InRange a n a := by
  constructor <;> omega

theorem inRange_succ {a b : Address} {n : Nat} (h : a.toNat + (n + 1) ≤ 65536) :
    InRange a (n + 1) b ↔ b = a ∨ InRange (a + 1) n b := by
  unfold InRange
  rw [← UInt16.toNat_inj]
  cases n with
  | zero =>
    have hb := b.toNat_lt
    constructor
    · intro hr
      left
      omega
    · rintro (hr | hr)
      · omega
      · omega
  | succ n =>
    rw [toNat_add_one (by omega)]
    omega

end Address

open Address (InRange)

namespace Memory

variable {m : Memory} {v : Opcode.Variant}

/-- The instruction at `a` has a byte at `b`. -/
def Covers (m : Memory) (v : Opcode.Variant) (a b : Address) : Prop :=
  InRange a (m.decode v a).length b

/-- The instruction at `a` lies below the top, and every byte of it has been loaded. -/
def FullyLoaded (m : Memory) (v : Opcode.Variant) (a : Address) : Prop :=
  a.toNat + (m.decode v a).length ≤ 65536 ∧ ∀ b, m.Covers v a b → (m.marks b).assigned = true

/-- Nothing is known about the memory but what has been loaded. -/
def Unexplored (m : Memory) : Prop := ∀ a, m.marks a = { assigned := (m.marks a).assigned }

theorem unexplored_empty : Memory.empty.Unexplored := by
  intro a
  have hmarks : Memory.empty.marks a = ∅ := Space.get_replicate ∅ a
  rw [hmarks]
  rfl

theorem unexplored_unmark (m : Memory) : (m.unmark Marks.findings).Unexplored := by
  intro a
  rw [marks_unmark, Marks.sdiff_findings]

/-- Loading leaves no marks but those of loaded bytes. -/
theorem Unexplored.write (h : m.Unexplored) (a : Address) (data : List Byte) :
    (m.write a data).Unexplored := by
  induction data generalizing m a with
  | nil => exact h
  | cons b rest ih =>
    refine ih ?_ (a + 1)
    intro c
    have hmarks :
        ({ bytes := m.bytes.set a b
           marking := m.marking.modify a (· ∪ { assigned := true }) } : Memory).marks c =
          if c = a then m.marks c ∪ { assigned := true } else m.marks c := Space.get_modify ..
    rw [hmarks]
    split
    · rw [h c]
      simp [Union.union]
    · exact h c

theorem covers_self (m : Memory) (v : Opcode.Variant) (a : Address) : m.Covers v a a :=
  Address.inRange_self (m.length_decode_pos v a)

theorem allAssigned_iff {a : Address} {n : Nat} (h : a.toNat + n ≤ 65536) :
    m.allAssigned a n = true ↔ ∀ b, InRange a n b → (m.marks b).assigned = true := by
  induction n generalizing a with
  | zero =>
    constructor
    · intro _ b hb
      exact absurd hb (Address.not_inRange_zero a b)
    · intro _
      rfl
  | succ n ih =>
    rw [allAssigned, Bool.and_eq_true]
    have hle := a.toNat_add_one_le
    rw [ih (by omega)]
    simp only [Address.inRange_succ h]
    constructor
    · rintro ⟨ha, hr⟩ b (rfl | hb)
      · exact ha
      · exact hr b hb
    · intro hall
      exact ⟨hall a (.inl rfl), fun b hb => hall b (.inr hb)⟩

theorem isLoaded_iff {a : Address} : m.isLoaded v a = true ↔ m.FullyLoaded v a := by
  unfold isLoaded FullyLoaded
  rw [Bool.and_eq_true, decide_eq_true_eq]
  constructor
  · rintro ⟨hfit, hall⟩
    exact ⟨hfit, (allAssigned_iff hfit).mp hall⟩
  · rintro ⟨hfit, hall⟩
    exact ⟨hfit, (allAssigned_iff hfit).mpr hall⟩

/-- What stands in the way of claiming some bytes is one of them. -/
theorem obstacle?_spec {a : Address} {n : Nat} (h : a.toNat + n ≤ 65536) :
    match m.obstacle? a n with
    | none => ∀ b, InRange a n b → (m.marks b).assigned = true ∧ (m.marks b).traced = false
    | some .unassigned => ∃ b, InRange a n b ∧ (m.marks b).assigned = false
    | some .taken => ∃ b, InRange a n b ∧ (m.marks b).traced = true := by
  induction n generalizing a with
  | zero =>
    intro b hb
    exact absurd hb (Address.not_inRange_zero a b)
  | succ n ih =>
    have hself : InRange a (n + 1) a := Address.inRange_self (Nat.succ_pos n)
    rw [obstacle?]
    cases hassigned : (m.marks a).assigned with
    | false => exact ⟨a, hself, hassigned⟩
    | true =>
      cases htraced : (m.marks a).traced with
      | true => exact ⟨a, hself, htraced⟩
      | false =>
        simp only [Bool.not_true, Bool.false_eq_true, if_false, Address.inRange_succ h]
        -- At the very top `a + 1` wraps, but then no byte is left to look at.
        have hle := a.toNat_add_one_le
        have hrest := ih (a := a + 1) (by omega)
        split at hrest
        next =>
          rintro b (rfl | hb)
          · exact ⟨hassigned, htraced⟩
          · exact hrest b hb
        next =>
          obtain ⟨b, hb, hmark⟩ := hrest
          exact ⟨b, .inr hb, hmark⟩
        next =>
          obtain ⟨b, hb, hmark⟩ := hrest
          exact ⟨b, .inr hb, hmark⟩

/-! ### Memories that differ in findings only -/

theorem decode_congr {m m' : Memory} (h : ∀ a, m'.byte a = m.byte a) (v : Opcode.Variant)
    (a : Address) :
    m'.decode v a = m.decode v a := by
  have hfetch : m'.fetch a = m.fetch a := by
    funext k
    exact h _
  unfold decode
  rw [hfetch]

theorem covers_congr {m m' : Memory} (h : ∀ a, m'.byte a = m.byte a) (v : Opcode.Variant)
    (a b : Address) :
    m'.Covers v a b ↔ m.Covers v a b := by
  unfold Covers
  rw [decode_congr h]

theorem fullyLoaded_congr {m m' : Memory} (hb : ∀ a, m'.byte a = m.byte a)
    (ha : ∀ a, (m'.marks a).assigned = (m.marks a).assigned) (v : Opcode.Variant) (a : Address) :
    m'.FullyLoaded v a ↔ m.FullyLoaded v a := by
  unfold FullyLoaded
  simp only [decode_congr hb, covers_congr hb, ha]

/-- The two memories hold the same bytes, loaded at the same places and claimed as the same
instructions. -/
structure SameCode (m m' : Memory) : Prop where
  byte : ∀ a, m'.byte a = m.byte a
  assigned : ∀ a, (m'.marks a).assigned = (m.marks a).assigned
  code : ∀ a, (m'.marks a).code = (m.marks a).code
  opening : ∀ a, (m'.marks a).opening = (m.marks a).opening
  traced : ∀ a, (m'.marks a).traced = (m.marks a).traced

namespace SameCode

variable {m m' m'' : Memory} {v : Opcode.Variant}

theorem refl (m : Memory) : SameCode m m :=
  ⟨fun _ => rfl, fun _ => rfl, fun _ => rfl, fun _ => rfl, fun _ => rfl⟩

theorem trans (h : SameCode m m') (h' : SameCode m' m'') : SameCode m m'' where
  byte a := (h'.byte a).trans (h.byte a)
  assigned a := (h'.assigned a).trans (h.assigned a)
  code a := (h'.code a).trans (h.code a)
  opening a := (h'.opening a).trans (h.opening a)
  traced a := (h'.traced a).trans (h.traced a)

theorem decode (h : SameCode m m') (v : Opcode.Variant) (a : Address) :
    m'.decode v a = m.decode v a :=
  decode_congr h.byte v a

theorem fullyLoaded_iff (h : SameCode m m') (a : Address) :
    m'.FullyLoaded v a ↔ m.FullyLoaded v a :=
  fullyLoaded_congr h.byte h.assigned v a

end SameCode

/-- Marks that say nothing about code leave the code as it is. -/
theorem sameCode_mark (m : Memory) (start length : Nat) {k : Marks} (ha : k.assigned = false)
    (hc : k.code = false) (ho : k.opening = false) (ht : k.traced = false) :
    SameCode m (m.mark start length k) := by
  have key : ∀ a, ((m.mark start length k).marks a).assigned = (m.marks a).assigned ∧
      ((m.mark start length k).marks a).code = (m.marks a).code ∧
      ((m.mark start length k).marks a).opening = (m.marks a).opening ∧
      ((m.mark start length k).marks a).traced = (m.marks a).traced := by
    intro a
    rw [marks_mark]
    split
    · simp [ha, hc, ho, ht]
    · exact ⟨rfl, rfl, rfl, rfl⟩
  exact ⟨fun a => byte_mark .., fun a => (key a).1, fun a => (key a).2.1, fun a => (key a).2.2.1,
    fun a => (key a).2.2.2⟩

/-! ### Claiming -/

theorem marks_claim (m : Memory) (i : Instruction) (b : Address) (hl : 0 < i.length) :
    (m.claim i).marks b =
      if b = i.address then m.marks b ∪ { traced := true, code := true, opening := true }
      else if InRange i.address i.length b then m.marks b ∪ { traced := true, code := true }
      else m.marks b := by
  unfold claim InRange
  rw [marks_mark, marks_mark]
  by_cases hb : b = i.address
  · subst hb
    rw [if_pos ⟨Nat.le_refl _, Nat.lt_succ_self _⟩, if_pos ⟨Nat.le_refl _, by omega⟩, if_pos rfl]
    simp [Union.union]
  · have hne : b.toNat ≠ i.address.toNat := fun h => hb (UInt16.toNat_inj.mp h)
    rw [if_neg (by omega : ¬(i.address.toNat ≤ b.toNat ∧ b.toNat < i.address.toNat + 1)), if_neg hb]
    rfl

theorem traced_claim {i : Instruction} {b : Address} (hl : 0 < i.length) :
    ((m.claim i).marks b).traced = true ↔
      (m.marks b).traced = true ∨ InRange i.address i.length b := by
  rw [marks_claim m i b hl]
  split
  next hb => simp [hb, Address.inRange_self hl]
  next =>
    split
    next hr => simp [hr]
    next hr => simp [hr]

theorem code_claim {i : Instruction} {b : Address} (hl : 0 < i.length) :
    ((m.claim i).marks b).code = true ↔ (m.marks b).code = true ∨ InRange i.address i.length b := by
  rw [marks_claim m i b hl]
  split
  next hb => simp [hb, Address.inRange_self hl]
  next =>
    split
    next hr => simp [hr]
    next hr => simp [hr]

theorem opening_claim {i : Instruction} {b : Address} (hl : 0 < i.length) :
    ((m.claim i).marks b).opening = true ↔ (m.marks b).opening = true ∨ b = i.address := by
  rw [marks_claim m i b hl]
  split
  · simp_all
  · split <;> simp_all

@[simp] theorem assigned_claim (m : Memory) (i : Instruction) (b : Address) :
    ((m.claim i).marks b).assigned = (m.marks b).assigned := by
  unfold claim
  rw [marks_mark, marks_mark]
  split <;> split <;> simp

@[simp] theorem byte_claim (m : Memory) (i : Instruction) (b : Address) :
    (m.claim i).byte b = m.byte b := by
  simp [claim]

theorem fullyLoaded_claim {i : Instruction} {a : Address} :
    (m.claim i).FullyLoaded v a ↔ m.FullyLoaded v a :=
  fullyLoaded_congr (byte_claim m i) (assigned_claim m i) v a

/-! ### The cut -/

/-- The claimed instructions are loaded, do not overlap, and are all that is marked as code. -/
structure Parsed (m : Memory) (v : Opcode.Variant) : Prop where
  loaded : ∀ {a}, (m.marks a).opening = true → m.FullyLoaded v a
  apart : ∀ {a b}, (m.marks a).opening = true → (m.marks b).opening = true → m.Covers v a b → a = b
  traced_iff : ∀ b, (m.marks b).traced = true ↔ ∃ a, (m.marks a).opening = true ∧ m.Covers v a b
  code_eq : ∀ b, (m.marks b).code = (m.marks b).traced

theorem Unexplored.parsed (h : m.Unexplored) (v : Opcode.Variant) : m.Parsed v := by
  have hopening : ∀ a, (m.marks a).opening = false := fun a => by rw [h a]
  have htraced : ∀ a, (m.marks a).traced = false := fun a => by rw [h a]
  refine ⟨?_, ?_, ?_, ?_⟩
  · intro a ha
    exact absurd (ha.symm.trans (hopening a)) (by decide)
  · intro a b ha
    exact absurd (ha.symm.trans (hopening a)) (by decide)
  · intro b
    constructor
    · intro hb
      exact absurd (hb.symm.trans (htraced b)) (by decide)
    · rintro ⟨a, ha, -⟩
      exact absurd (ha.symm.trans (hopening a)) (by decide)
  · intro b
    rw [htraced, h b]

theorem Parsed.traced_of_opening (h : m.Parsed v) {a : Address} (ha : (m.marks a).opening = true) :
    (m.marks a).traced = true :=
  (h.traced_iff a).mpr ⟨a, ha, m.covers_self v a⟩

/-- Claiming an instruction that is loaded, and of which no byte is taken, keeps the cut. -/
theorem Parsed.claim {a : Address} (h : m.Parsed v) (hl : m.FullyLoaded v a)
    (hfree : ∀ b, m.Covers v a b → (m.marks b).traced = false) :
    (m.claim (m.decode v a)).Parsed v := by
  have hpos : 0 < (m.decode v a).length := m.length_decode_pos v a
  have hcovers := covers_congr (byte_claim m (m.decode v a)) v
  have hself : InRange (m.decode v a).address (m.decode v a).length = m.Covers v a := rfl
  refine ⟨?_, ?_, ?_, ?_⟩
  · intro x hx
    rw [opening_claim hpos] at hx
    rw [fullyLoaded_claim]
    rcases hx with hx | rfl
    · exact h.loaded hx
    · exact hl
  · intro x y hx hy hc
    rw [opening_claim hpos] at hx hy
    rw [hcovers] at hc
    rcases hx with hx | rfl
    · rcases hy with hy | rfl
      · exact h.apart hx hy hc
      · -- The new instruction would start inside of an old one.
        have htaken := (h.traced_iff _).mpr ⟨x, hx, hc⟩
        exact absurd (htaken.symm.trans (hfree _ (m.covers_self v _))) (by decide)
    · rcases hy with hy | rfl
      · exact absurd ((h.traced_of_opening hy).symm.trans (hfree y hc)) (by decide)
      · rfl
  · intro b
    rw [traced_claim hpos, hself, h.traced_iff]
    constructor
    · rintro (⟨x, hx, hc⟩ | hc)
      · exact ⟨x, (opening_claim hpos).mpr (.inl hx), (hcovers x b).mpr hc⟩
      · exact ⟨a, (opening_claim hpos).mpr (.inr rfl), (hcovers a b).mpr hc⟩
    · rintro ⟨x, hx, hc⟩
      rw [opening_claim hpos] at hx
      rw [hcovers] at hc
      rcases hx with hx | rfl
      · exact .inl ⟨x, hx, hc⟩
      · exact .inr hc
  · intro b
    rw [Bool.eq_iff_iff, code_claim hpos, traced_claim hpos, h.code_eq]

end Memory

end Z80Atlas
