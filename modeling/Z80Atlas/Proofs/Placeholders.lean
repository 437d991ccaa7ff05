import Z80Atlas.Proofs.Operations

/-!
# Placeholders

A target that was not loaded gets an empty node, which is never filled, and a diagnostic.  Both are
made at the first reference, and later ones find the node.  In a chart the two stand for the same
addresses, whatever the order of filling; each placeholder is entered from the node whose
instruction leads to it, and every other node has been filled with claimed instructions.
-/

namespace Z80Atlas

theorem Node.isPlaceholder_iff {n : Node} :
    n.isPlaceholder = true ↔ n.length = 0 ∧ n.instructions = #[] := by
  simp [isPlaceholder]

namespace Survey

variable {m : Memory} {v : Opcode.Variant} {k : Skips} {amb : Address → Prop} {s : Survey}
  {a : Address} {n : Node}

/-- What a placeholder looks like: it is entered, nothing leaves it, and no instruction could be
claimed there. -/
structure Vacant (v : Opcode.Variant) (s : Survey) (n : Node) : Prop where
  entered : (∃ b, b ∈ n.predecessors) ∨ ∃ b, b ∈ n.callers
  successors : n.successors = #[]
  callee : n.callee = none
  dataRefs : n.dataRefs = #[]
  code : (s.memory.marks n.start).code = false
  torn : ¬s.memory.FullyLoaded v n.start

/-- Placeholders and diagnostics of unassigned memory correspond to each other. -/
structure PlaceholdersExact (v : Opcode.Variant) (s : Survey) : Prop where
  unassigned_iff : ∀ a, s.diagnostics.has .unassigned a = true ↔
    ∃ n, s.graph.get? a = some n ∧ n.length = 0 ∧ n.instructions = #[]
  once : ((s.diagnostics.ofKind .unassigned).map (·.address)).Nodup
  vacant : ∀ {a n}, s.graph.get? a = some n → n.isPlaceholder = true → Vacant v s n
  opening : ∀ {a n}, s.graph.get? a = some n → n.isPlaceholder = false →
    (s.memory.marks n.start).opening = true
  sameBank : ∀ d ∈ s.diagnostics.toList, d.kind ≠ .differentBank

namespace Charted

/-- The edge to a missing target leaves the node that holds the instruction leading there. -/
theorem edge_to_missing (h : Charted m v k amb s)
    (hr : ∃ p, (m.marks p).opening = true ∧ m.Leads k (m.decode v p) a) (hmiss : m.Missing v a) :
    ∃ b n, s.graph.get? b = some n ∧ (a ∈ n.successors ∨ n.callee = some a) := by
  obtain ⟨p, ho, hlead⟩ := hr
  obtain ⟨b, body, hbody, i, hi, haddr⟩ := (h.holds_iff p).mpr ho
  obtain ⟨n, hn, rfl⟩ := FlowGraph.bodyAt_eq_some_iff.mp hbody
  obtain ⟨-, q, hq⟩ := h.filled_of_mem hn hi
  have hmem : m.decode v p ∈ n.instructions.toList := by
    rw [← haddr, ← (hq.stretch.of_mem i hi).1]
    exact hi
  have hover : ¬m.Overlaps v a := fun hov => Memory.not_missing_of_overlaps hov hmiss
  refine ⟨b, n, hn, ?_⟩
  rcases (Memory.leads_iff (m.lawful_decode v p)).mp hlead with ⟨hcall, ht⟩ | ⟨hexit, -⟩
  · cases hq.called _ hmem hcall a ht with
    | inl hcallee => exact .inr hcallee
    | inr hamb => exact absurd hamb.1 hover
  · cases hq.stretch.next_mem hmem with
    | inl hlast =>
      rw [hlast] at hexit
      cases hq.complete a hexit with
      | inl hsucc => exact .inl hsucc
      | inr hamb => exact absurd hamb.1 hover
    | inr hinside =>
      -- Control goes straight on inside of the node, to a claimed instruction.
      obtain ⟨c, hnext, hc⟩ := hinside
      have hac : a = c := hexit.eq_next (m.lawful_decode v p) hnext
      have hopen : (m.marks a).opening = true := by
        rw [hac]
        exact (hq.stretch.of_mem _ hc).2
      exact absurd (hopen.symm.trans (h.tally.parsed.opening_of_missing hmiss)) (by decide)

theorem vacant (h : Charted m v k amb s) (hg : s.graph.Paired) (hn : s.graph.get? a = some n)
    (hempty : n.isPlaceholder = true) : Vacant v s n := by
  have ho := (h.isPlaceholder_iff hn).mp hempty
  have hbody := h.blank_node hn ho
  obtain ⟨hr, hmiss⟩ := (h.tally.vacant a ho).mp (FlowGraph.contains_iff.mpr ⟨n, hn⟩)
  have hsame := h.stamped.same
  refine ⟨?_, congrArg Node.successors hbody, congrArg Node.callee hbody,
    congrArg Node.dataRefs hbody, ?_, ?_⟩
  · obtain ⟨b, n', hn', hedge⟩ := h.edge_to_missing hr hmiss
    have hflow := hg.flow b a
    have hcall := hg.call b a
    rw [FlowGraph.nodeAt_eq hn', FlowGraph.nodeAt_eq hn] at hflow hcall
    cases hedge with
    | inl hsucc => exact .inl ⟨b, hflow.mp hsucc⟩
    | inr hcallee => exact .inr ⟨b, hcall.mp hcallee⟩
  · rw [h.start_eq hn, hsame.code, h.tally.parsed.code_eq]
    exact hmiss.1
  · rw [h.start_eq hn, hsame.fullyLoaded_iff]
    exact hmiss.2

/-- A diagnostic of unassigned memory is given by its address, so none is kept twice. -/
theorem nodup_unassigned (h : Charted m v k amb s) :
    ((s.diagnostics.ofKind .unassigned).map (·.address)).Nodup := by
  have hinj : ∀ d ∈ s.diagnostics.ofKind .unassigned, d = .unassignedAt d.address := by
    intro d hd
    obtain ⟨hmem, hkind⟩ := List.mem_filter.mp hd
    cases h.tally.noted d hmem with
    | inr hd' => exact hd'
    | inl hd' =>
      rw [hd'] at hkind
      cases of_decide_eq_true hkind
  refine List.Nodup.map_on ?_ (h.tally.distinct.filter _)
  intro d hd e he heq
  rw [hinj d hd, hinj e he, heq]

theorem placeholdersExact (h : Charted m v k amb s) (hg : s.graph.Paired) :
    PlaceholdersExact v s := by
  refine ⟨?_, h.nodup_unassigned, h.vacant hg, ?_, h.tally.sameBank⟩
  · intro a
    rw [h.tally.unassigned, ← h.placeholder_iff]
    simp only [← Node.isPlaceholder_iff]
    cases s.graph.get? a <;> simp
  · intro a n hn hfull
    rw [h.start_eq hn, h.stamped.same.opening]
    exact h.opening_of_full hn hfull

end Charted

/-- In a charted image the placeholders are the addresses with a diagnostic of unassigned memory,
one for each, and each stands for a target that is not loaded as a whole. -/
theorem placeholders_exact (hm : m.Unexplored) (v : Opcode.Variant) (k : Skips)
    (entries : List Address) (names : NameTable) :
    PlaceholdersExact v ((fresh m v k).chart entries names).1 :=
  (charted_chart hm v k entries names).placeholdersExact (built_chart m v k entries names).paired

/-- `JP Z,9000h`, `JP C,9000h`, `CALL A000h` and `CALL 8000h` at `8000h`. -/
def leadingOut : Memory :=
  Memory.empty.write 0x8000 [0xCA, 0x00, 0x90, 0xDA, 0x00, 0x90, 0xCD, 0x00, 0xA0, 0xCD, 0x00, 0x80]

/-- Two jumps share a placeholder, a call has one, and so has the place behind the last call, where
the image ends. -/
theorem placeholders_exact_twice :
    leadingOut.Unexplored ∧
      PlaceholdersExact .z80 ((fresh leadingOut .z80 {}).chart [0x8000] ∅).1 ∧
      (((fresh leadingOut .z80 {}).chart [0x8000] ∅).1.graph.toList.filter (·.isPlaceholder)).map
          (fun n => (n.start, n.predecessors, n.callers)) =
        [(0x800C, #[0x8009], #[]), (0x9000, #[0x8000, 0x8003], #[]), (0xA000, #[], #[0x8006])] ∧
      (((fresh leadingOut .z80 {}).chart [0x8000] ∅).1.diagnostics.ofKind .unassigned).map
        (·.address) = [0x9000, 0xA000, 0x800C] := by
  have hm : leadingOut.Unexplored := Memory.unexplored_empty.write _ _
  refine ⟨hm, placeholders_exact hm .z80 {} [0x8000] ∅, ?_⟩
  decide +kernel

end Survey

end Z80Atlas
