import Z80Atlas.Proofs.Tiling

/-!
# Edges are the transfers of control

The edges of a node are read off its instructions: the callee is the target of its call, and the
successors are where control leaves behind its last instruction.  A transfer that has no edge leads
to an ambiguous address.
-/

namespace Z80Atlas

/-- The edges of a node with the last instruction `i` are the transfers of control out of it, but
for those to ambiguous addresses. -/
structure Node.Transfers (n : Node) (k : Skips) (ds : Diagnostics) (i : Instruction) : Prop where
  called : ∀ c ∈ n.instructions, c.effects.call = true → ∃ t, c.branchTarget? = some t ∧
    (n.callee = some t ∨ ds.has .ambiguous t = true)
  left : ∀ t, k.Exit i t → t ∈ n.successors ∨ ds.has .ambiguous t = true
  callee : ∀ t, n.callee = some t →
    ∃ c, n.instructions.toList.filter (·.effects.call) = [c] ∧ c.branchTarget? = some t
  /-- Behind an instruction that does not concern the flow of control, control goes on into the next
  node. -/
  successors : ∀ t ∈ n.successors, k.Exit i t ∨
    (i.effects.branch = false ∧ i.effects.ret = false ∧ i.effects.stop = false ∧ t.toNat = n.stopAt)

namespace Survey

variable {m : Memory} {v : Opcode.Variant} {k : Skips} {amb : Address → Prop} {s : Survey}
  {a p : Address} {n : Node}

theorem Filled.back? (h : Filled m v k s n p) : n.instructions.back? = some (m.decode v p) := by
  rw [← Array.getLast?_toList]
  exact h.stretch.getLast?_eq

/-- A node has one call at most, so any call in it is the only one. -/
theorem Filled.filter_call {c : Instruction} (h : Filled m v k s n p)
    (hc : c ∈ n.instructions.toList) (hcall : c.effects.call = true) :
    n.instructions.toList.filter (·.effects.call) = [c] := by
  have hlength : (n.instructions.toList.filter (·.effects.call)).length ≤ 1 := by
    rw [← List.countP_eq_length_filter]
    exact h.stretch.countP_call_le
  have hmem : c ∈ n.instructions.toList.filter (·.effects.call) := List.mem_filter.mpr ⟨hc, hcall⟩
  obtain ⟨e, he⟩ :=
    List.length_eq_one_iff.mp (Nat.le_antisymm hlength (List.length_pos_of_mem hmem))
  rw [he, List.mem_singleton] at hmem
  rw [he, hmem]

theorem Filled.transfers (h : Filled m v k s n p) : n.Transfers k s.diagnostics (m.decode v p) := by
  refine ⟨?_, ?_, ?_, ?_⟩
  · intro c hc hcall
    rw [← Array.mem_toList_iff] at hc
    have hlawful : c.Lawful := by
      rw [(h.stretch.of_mem c hc).1]
      exact m.lawful_decode v c.address
    have htarget := hlawful.branchTarget
    rw [if_pos (hlawful.branch_of_call hcall)] at htarget
    refine ⟨_, htarget, ?_⟩
    cases h.called c hc hcall _ htarget with
    | inl hcallee => exact .inl hcallee
    | inr hover => exact .inr hover.2
  · intro t ht
    cases h.complete t ht with
    | inl hmem => exact .inl hmem
    | inr hover => exact .inr hover.2
  · intro t ht
    obtain ⟨c, hc, hcall, htarget⟩ := h.callee t ht
    exact ⟨c, h.filter_call hc hcall, htarget⟩
  · intro t ht
    cases h.sound t ht with
    | inl hexit => exact .inl hexit
    | inr hnext =>
      obtain ⟨-, ⟨hb, hr, hs⟩ | ⟨hc, hl⟩⟩ := (Skips.next_eq_some_iff (m.lawful_decode v p)).mp hnext
      · refine .inr ⟨hb, hr, hs, ?_⟩
        unfold Node.stopAt
        rw [h.length, h.stretch.sum_length]
        exact Memory.toNat_of_next hnext
      · exact .inl ((Skips.exit_iff_of_call (m.lawful_decode v p) hc).mpr hl)

/-- The edges of every node are the transfers of control out of it. -/
structure EdgesExact (k : Skips) (s : Survey) : Prop where
  placeholder : ∀ {a n}, s.graph.get? a = some n → n.isPlaceholder = true →
    n.successors = #[] ∧ n.callee = none
  filled : ∀ {a n}, s.graph.get? a = some n → n.isPlaceholder = false →
    ∃ i, n.instructions.back? = some i ∧ n.Transfers k s.diagnostics i

/-- The edges in a charted image are the transfers of control, and none is left out but for those to
ambiguous addresses.  Placeholders have no edges. -/
theorem edges_are_transfers (hm : m.Unexplored) (v : Opcode.Variant) (k : Skips)
    (entries : List Address) (names : NameTable) :
    EdgesExact k ((fresh m v k).chart entries names).1 := by
  have h := charted_chart hm v k entries names
  constructor
  · intro a n hn hempty
    have hbody := h.blank_node hn ((h.isPlaceholder_iff hn).mp hempty)
    exact ⟨congrArg Node.successors hbody, congrArg Node.callee hbody⟩
  · intro a n hn hfull
    have ho : (((fresh m v k).discover entries).memory.marks a).opening = true := by
      rw [← Bool.not_eq_false, ← h.isPlaceholder_iff hn, hfull]
      exact Bool.false_ne_true
    obtain ⟨-, p, hp⟩ := h.filled_node hn ho
    exact ⟨_, hp.back?, hp.transfers⟩

/-- `JP Z,9000h`, `CALL 800Ah`, `LD A,3Eh`, `JR NC,8007h` and `RET` at `8000h`. -/
def leavingThrice : Memory :=
  Memory.empty.write 0x8000 [0xCA, 0x00, 0x90, 0xCD, 0x0A, 0x80, 0x3E, 0x3E, 0x30, 0xFD, 0xC9]

/-- The jump into unloaded memory leads to a placeholder, the call has its target for the callee,
and the jump into the middle of an instruction has no edge. -/
theorem edges_are_transfers_overlap :
    leavingThrice.Unexplored ∧
      EdgesExact {} ((fresh leavingThrice .z80 {}).chart [0x8000] ∅).1 ∧
      ((fresh leavingThrice .z80 {}).chart [0x8000] ∅).1.graph.toList.map
          (fun n => (n.start, n.isPlaceholder, n.successors, n.callee)) =
        [(0x8000, false, #[0x9000, 0x8003], none), (0x8003, false, #[0x800A], some 0x800A),
          (0x800A, false, #[], none), (0x9000, true, #[], none)] ∧
      ((fresh leavingThrice .z80 {}).chart [0x8000] ∅).1.diagnostics.has .ambiguous
        0x8007 = true := by
  have hm : leavingThrice.Unexplored := Memory.unexplored_empty.write _ _
  refine ⟨hm, edges_are_transfers hm .z80 {} [0x8000] ∅, ?_⟩
  decide +kernel

end Survey

end Z80Atlas
