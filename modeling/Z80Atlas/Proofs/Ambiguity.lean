import Z80Atlas.Proofs.Charted

/-!
# Ambiguous addresses and nodes

An address is ambiguous if discovery or filling refused to start an instruction there.  The two
refuse for different reasons: discovery because the instruction would hit claimed code, filling
because the address was visited or the instruction is loaded as a whole.  They disagree on
instructions that hit claimed code and run out of the image, and only there does an ambiguous
address get a node.
-/

namespace Z80Atlas

namespace Memory

variable {m m' : Memory} {v : Opcode.Variant} {k : Skips} {a : Address}

/-- The instruction at `a` starts where nothing was visited, hits claimed code, and has not been
loaded as a whole. -/
structure Frayed (m : Memory) (v : Opcode.Variant) (a : Address) : Prop where
  free : (m.marks a).traced = false
  hits : ∃ b, m.Covers v a b ∧ (m.marks b).traced = true
  torn : ¬m.FullyLoaded v a

/-- Control goes from a claimed instruction to `a`, and a node has to start there. -/
def Targeted (m : Memory) (v : Opcode.Variant) (k : Skips) (a : Address) : Prop :=
  ∃ p, (m.marks p).opening = true ∧ m.Leads k (m.decode v p) a

theorem SameCode.frayed_iff (h : m.SameCode m') : m'.Frayed v a ↔ m.Frayed v a := by
  constructor
  · intro ⟨hfree, ⟨b, hb, ht⟩, htorn⟩
    refine ⟨(h.traced a).symm.trans hfree,
      ⟨b, (covers_congr h.byte v a b).mp hb, (h.traced b).symm.trans ht⟩, ?_⟩
    rw [← h.fullyLoaded_iff]
    exact htorn
  · intro ⟨hfree, ⟨b, hb, ht⟩, htorn⟩
    refine ⟨(h.traced a).trans hfree,
      ⟨b, (covers_congr h.byte v a b).mpr hb, (h.traced b).trans ht⟩, ?_⟩
    rw [h.fullyLoaded_iff]
    exact htorn

theorem SameCode.targeted_iff (h : m.SameCode m') : m'.Targeted v k a ↔ m.Targeted v k a := by
  unfold Targeted Leads
  simp only [h.opening, h.decode]

end Memory

namespace Survey

variable {m : Memory} {a : Address}

/-- An ambiguous address is missing only if discovery refused it and it is frayed. -/
theorem Charted.missing_iff_frayed {v : Opcode.Variant} {k : Skips}
    {amb : Address → Prop} {s : Survey} (h : Charted m v k amb s)
    (hamb : ∀ t, amb t → ∃ b, m.Covers v t b ∧ (m.marks b).traced = true)
    (ha : s.diagnostics.has .ambiguous a = true) : m.Missing v a ↔ m.Frayed v a := by
  constructor
  · intro hmiss
    rcases (h.tally.ambiguous a).mp ha with hold | ⟨-, hover⟩
    · exact ⟨hmiss.1, hamb a hold, hmiss.2⟩
    · exact absurd hmiss (Memory.not_missing_of_overlaps hover)
  · intro hfrayed
    exact ⟨hfrayed.free, hfrayed.torn⟩

/-- What becomes of an ambiguous address: it has a node exactly if control is sent there and the
instruction is frayed, and then it is unassigned too. -/
structure AmbiguousStart (v : Opcode.Variant) (k : Skips) (s : Survey) (a : Address) : Prop where
  contains_iff : s.graph.contains a = true ↔ s.memory.Targeted v k a ∧ s.memory.Frayed v a
  unassigned_iff : s.diagnostics.has .unassigned a = true ↔ s.graph.contains a = true

/-- An ambiguous address of a charted image has no node, unless control is sent there and the
instruction is not loaded as a whole, and then the address is said to be unassigned too. -/
theorem ambiguous_start_iff (hm : m.Unexplored) (v : Opcode.Variant) (k : Skips)
    (entries : List Address) (names : NameTable)
    (ha : ((fresh m v k).chart entries names).1.diagnostics.has .ambiguous a = true) :
    AmbiguousStart v k ((fresh m v k).chart entries names).1 a := by
  have hexplored := explored_discover hm v k entries
  have h := charted_chart hm v k entries names
  have hamb : ∀ t, ((fresh m v k).discover entries).diagnostics.has .ambiguous t = true →
      ((fresh m v k).discover entries).Blocked t := fun t ht => hexplored.blocked ht
  unfold Blocked at hamb
  rw [hexplored.variant] at hamb
  have hclosed : (((fresh m v k).discover entries).memory.marks a).opening = false := by
    rcases (h.tally.ambiguous a).mp ha with hold | ⟨-, hover⟩
    · exact (hamb a hold).1
    · exact hover.1
  have hmiss := h.missing_iff_frayed (fun t ht => (hamb t ht).2) ha
  have hsame := h.stamped.same
  have hnode := h.tally.vacant a hclosed
  constructor
  · rw [hnode, hmiss, hsame.frayed_iff, hsame.targeted_iff]
    rfl
  · rw [hnode, h.tally.unassigned]

/-- `LD A,5`, `JR NZ,8001h` and `RET` at `8000h`. -/
def loopingInside : Memory := Memory.empty.write 0x8000 [0x3E, 0x05, 0x20, 0xFD, 0xC9]

/-- The jump leads into the middle of an instruction that was visited, and no node starts there. -/
theorem ambiguous_start_iff_visited :
    loopingInside.Unexplored ∧
      ((fresh loopingInside .z80 {}).chart [0x8000] ∅).1.diagnostics.has .ambiguous 0x8001 = true ∧
      AmbiguousStart .z80 {} ((fresh loopingInside .z80 {}).chart [0x8000] ∅).1 0x8001 ∧
      ((fresh loopingInside .z80 {}).chart [0x8000] ∅).1.graph.addresses = [0x8000, 0x8004] := by
  have hm : loopingInside.Unexplored := Memory.unexplored_empty.write _ _
  have ha : ((fresh loopingInside .z80 {}).chart [0x8000] ∅).1.diagnostics.has .ambiguous
      0x8001 = true := by decide +kernel
  refine ⟨hm, ha, ambiguous_start_iff hm .z80 {} [0x8000] ∅ ha, ?_⟩
  decide +kernel

/-- `LD HL,nn` at `8000h`, of which the last byte is not loaded and the one before it is a `RET`,
and `JP 8000h` at `9000h`. -/
def jumpingOntoFrayed : Memory :=
  (Memory.empty.write 0x8000 [0x21, 0xC9]).write 0x9000 [0xC3, 0x00, 0x80]

/-- The `RET` is an entry, so the instruction at `8000h` would hit it: discovery says that `8000h`
is ambiguous, and filling makes a node there and says that it is unassigned. -/
theorem frayed_start_has_node :
    ((fresh jumpingOntoFrayed .z80 {}).chart [0x8001, 0x9000] ∅).1.diagnostics.has .ambiguous
        0x8000 = true ∧
      ((fresh jumpingOntoFrayed .z80 {}).chart [0x8001, 0x9000] ∅).1.graph.contains 0x8000 = true ∧
      ((fresh jumpingOntoFrayed .z80 {}).chart [0x8001, 0x9000] ∅).1.diagnostics.has .unassigned
        0x8000 = true := by
  decide +kernel

end Survey

end Z80Atlas
