import Z80Atlas.Proofs.Edges

/-!
# Edges into the node behind

A node that control does not stop at falls into the node that starts right behind it.  A call, a
branch or a return at its end resolves the address behind it, so the edge is there whatever that
node is.  Behind any other instruction only the nodes count that were there when the node was
filled.  All nodes that hold code are among them, and a placeholder may be made later.
-/

namespace Z80Atlas

theorem Skips.landing_empty (a : Address) : ({} : Skips).landing a = some a := by
  unfold landing
  simp

theorem Skips.landingAfter_empty (i : Instruction) : ({} : Skips).landingAfter i = i.next? := by
  unfold landingAfter
  cases i.next? with
  | none => rfl
  | some a => exact landing_empty a

/-- Where nothing is stepped over, control leaves for the address behind an instruction that can be
gone on from, unless the instruction does not concern the flow of control. -/
theorem Skips.exit_next {i : Instruction} {b : Address} (hi : i.Lawful) (hh : i.halts = false)
    (hc : i.course ≠ .onward) (hn : i.next? = some b) : ({} : Skips).Exit i b := by
  have hland : ({} : Skips).landingAfter i = some b := (landingAfter_empty i).trans hn
  unfold Instruction.halts at hh
  obtain ⟨hcourse, -⟩ | ⟨u, -, -, hb, hcall, -, -⟩ | ⟨u, hcourse, -, hb, -, -⟩ |
    ⟨hcourse, -, -, hr⟩ | ⟨hcourse, -⟩ :=
    hi.course_cases
  · exact absurd hcourse hc
  · exact .landing hb (.inl hcall) hland
  · rw [hcourse] at hh
    exact .landing hb (.inr (by simpa using hh)) hland
  · rw [hcourse] at hh
    exact .conditional hr (by simpa using hh) hn
  · rw [hcourse] at hh
    cases hh

namespace Survey

variable {m : Memory} {v : Opcode.Variant} {k : Skips} {amb : Address → Prop} {s : Survey}
  {a b p : Address} {n : Node}

theorem Filled.stopAt_eq (h : Filled m v k s n p) : n.stopAt = m.behind v p := by
  unfold Node.stopAt
  rw [h.length]
  exact h.stretch.sum_length

theorem Filled.next?_eq (h : Filled m v k s n p) (hb : n.stopAt = b.toNat) :
    (m.decode v p).next? = some b :=
  Address.after?_eq_some_iff.mpr (hb.symm.trans h.stopAt_eq)

/-- A node does not start where something overlaps. -/
theorem Charted.not_overlaps (h : Charted m v k amb s) (hb : s.graph.contains b = true) :
    ¬m.Overlaps v b := by
  intro hover
  have hmiss := ((h.tally.vacant b hover.1).mp hb).2
  exact Memory.not_missing_of_overlaps hover hmiss

theorem Charted.edge_behind (h : Charted m v {} amb s) (hp : Filled m v {} s n p)
    (hstop : n.stop = false) (hend : n.stopAt = b.toNat) (hb : s.graph.contains b = true) :
    b ∈ n.successors ∨ ((m.marks b).opening = false ∧ (m.decode v p).course = .onward) := by
  have hnext := hp.next?_eq hend
  have hhalts : (m.decode v p).halts = false := hp.stop.symm.trans hstop
  by_cases hc : (m.decode v p).course = .onward
  · cases ho : (m.marks b).opening with
    | false => exact .inr ⟨rfl, hc⟩
    | true =>
      have honward : (({} : Skips).onward (m.decode v p)).next = some b := by
        simp only [Skips.onward, hc, hnext]
      exact .inl (hp.runs b honward ho)
  · have hexit := Skips.exit_next (m.lawful_decode v p) hhalts hc hnext
    cases hp.complete b hexit with
    | inl hmem => exact .inl hmem
    | inr hover => exact absurd hover.1 (h.not_overlaps hb)

/-- Each node has an edge into the node that it falls into.  Missing may be, at most, the edge into
a placeholder behind an instruction that does not concern the flow of control. -/
def FallsThrough (g : FlowGraph) : Prop :=
  ∀ {a b : Address} {n next : Node}, g.get? a = some n → n.isPlaceholder = false →
    g.get? b = some next → n.fallsInto next = true →
    b ∈ n.successors ∨
      (next.isPlaceholder = true ∧ ∃ i, n.instructions.back? = some i ∧ i.course = .onward)

/-- Without skipped data, no node of a charted image lacks the edge into the node that it falls
into, but for the one into a placeholder behind an instruction that does not concern the flow of
control. -/
theorem fallthrough_edges (hm : m.Unexplored) (v : Opcode.Variant) (entries : List Address)
    (names : NameTable) :
    FallsThrough ((fresh m v {}).chart entries names).1.graph := by
  intro a b n next hn hfull hnext hfalls
  have h := charted_chart hm v {} entries names
  obtain ⟨-, p, hp⟩ := h.filled_node hn (h.opening_of_full hn hfull)
  have hstart : next.start = b := (h.tiled.node hnext).1
  simp only [Node.fallsInto, hstart, Bool.and_eq_true, Bool.not_eq_true', beq_iff_eq] at hfalls
  have hcontains := FlowGraph.contains_iff.mpr ⟨next, hnext⟩
  cases h.edge_behind hp hfalls.1 hfalls.2 hcontains with
  | inl hmem => exact .inl hmem
  | inr hmiss => exact .inr ⟨(h.isPlaceholder_iff hnext).mpr hmiss.1, _, hp.back?, hmiss.2⟩

/-- `NOP`, `JR NZ,8000h` and `JP Z,8006h` at `8000h`. -/
def fallingThrough : Memory := Memory.empty.write 0x8000 [0x00, 0x20, 0xFD, 0xCA, 0x06, 0x80]

/-- A node falls into another one, and the last jump falls out of the image into a placeholder.  The
edges are there. -/
theorem fallthrough_edges_loop :
    fallingThrough.Unexplored ∧
      FallsThrough ((fresh fallingThrough .z80 {}).chart [0x8000, 0x8001] ∅).1.graph ∧
      ((fresh fallingThrough .z80 {}).chart [0x8000, 0x8001] ∅).1.graph.toList.map
          (fun n => (n.start, n.stopAt, n.stop, n.isPlaceholder, n.successors)) =
        [(0x8000, 0x8001, false, false, #[0x8001]),
          (0x8001, 0x8003, false, false, #[0x8000, 0x8003]),
          (0x8003, 0x8006, false, false, #[0x8006]), (0x8006, 0x8006, false, true, #[])] := by
  have hm : fallingThrough.Unexplored := Memory.unexplored_empty.write _ _
  refine ⟨hm, fallthrough_edges hm .z80 [0x8000, 0x8001] ∅, ?_⟩
  decide +kernel

/-- A `NOP` at `8000h`, where the image ends, and `JP 8001h` at `9000h`. -/
def fallingOut : Memory := (Memory.empty.write 0x8000 [0x00]).write 0x9000 [0xC3, 0x01, 0x80]

/-- The target of the jump lies behind the `NOP` and is filled later: the `NOP` falls into the
placeholder and has no edge. -/
theorem fallthrough_edge_missed :
    ∃ n next : Node,
      ((fresh fallingOut .z80 {}).chart [0x8000, 0x9000] ∅).1.graph.get? 0x8000 = some n ∧
      ((fresh fallingOut .z80 {}).chart [0x8000, 0x9000] ∅).1.graph.get? 0x8001 = some next ∧
      n.isPlaceholder = false ∧ n.fallsInto next = true ∧ 0x8001 ∉ n.successors := by
  have hn : (((fresh fallingOut .z80 {}).chart [0x8000, 0x9000] ∅).1.graph.get? 0x8000).map
      (fun n => (n.isPlaceholder, n.stop, n.stopAt, n.successors)) =
        some (false, false, 0x8001, #[]) := by decide +kernel
  have hnext : (((fresh fallingOut .z80 {}).chart [0x8000, 0x9000] ∅).1.graph.get? 0x8001).map
      (·.start) = some 0x8001 := by decide +kernel
  obtain ⟨n, hget, hfields⟩ := Option.map_eq_some_iff.mp hn
  obtain ⟨next, hget', hstart⟩ := Option.map_eq_some_iff.mp hnext
  simp only [Prod.mk.injEq] at hfields
  obtain ⟨hfull, hstop, hend, hsucc⟩ := hfields
  refine ⟨n, next, hget, hget', hfull, ?_, ?_⟩
  · simp [Node.fallsInto, hstop, hend, hstart]
  · simp [hsucc]

end Survey

end Z80Atlas
