import Z80Atlas.Proofs.DataOperands
import Z80Atlas.Proofs.Fallthrough
import Z80Atlas.Proofs.Operations

/-!
# Operands that lead to a node

A jump, call or restart that leads to a node makes an edge to it, and a node that an edge leads to
gets a name: as the leader of a block in any case, and inside of a block unless control comes only
from the node right before it.  But a conditional jump to the next instruction makes just such an
edge, and then its operand has no name.  This is the only way for a branch that leads to a node to
stay without one.
-/

namespace Z80Atlas

/-! ### Edges into a node -/

namespace Survey

variable {m : Memory} {v : Opcode.Variant} {k : Skips} {amb : Address → Prop} {s : Survey}
  {a b p q t : Address}
variable {n n' next : Node} {i : Instruction}

/-- A branch to a node makes an edge to it. -/
theorem Charted.leads (h : Charted m v k amb s) (hp : Filled m v k s n p)
    (hi : i ∈ n.instructions.toList) (ht : i.branchTarget? = some t)
    (hc : s.graph.contains t = true) :
    n.callee = some t ∨
    (i.course = .branch t (!i.effects.stop) ∧ i = m.decode v p ∧ t ∈ n.successors) := by
  have hover := h.not_overlaps hc
  have hdecode := (hp.stretch.of_mem i hi).1
  have hlawful : i.Lawful := by
    rw [hdecode]
    exact m.lawful_decode v i.address
  have hnone : i.effects.branch = false → False := by
    intro hb
    unfold Instruction.branchTarget? at ht
    rw [hb, if_neg Bool.false_ne_true] at ht
    cases ht
  obtain ⟨-, hb, -⟩ | ⟨u, -, -, -, hcall, -, -⟩ | ⟨u, hcourse, hu, hb, hcall, -⟩ |
    ⟨-, hb, -⟩ | ⟨-, hb, -⟩ :=
    hlawful.course_cases
  · exact (hnone hb).elim
  · cases hp.called i hi hcall t ht with
    | inl hcallee => exact .inl hcallee
    | inr hmiss => exact absurd hmiss.1 hover
  · obtain rfl : u = t := Option.some.inj (hu.symm.trans ht)
    -- Control does not go straight on from a branch, so it is the last instruction.
    have hlast : i.address = p := by
      rw [hdecode] at hi
      rcases hp.stretch.next_mem hi with hlast | ⟨c, hnext, -⟩
      · exact hlast
      · rw [← hdecode] at hnext
        simp [Skips.onward, hcourse] at hnext
    rw [hlast] at hdecode
    refine .inr ⟨hcourse, hdecode, ?_⟩
    have hexit : k.Exit (m.decode v p) u := by
      rw [← hdecode]
      exact .jump hb hcall ht
    cases hp.complete u hexit with
    | inl hmem => exact hmem
    | inr hmiss => exact absurd hmiss.1 hover
  · exact (hnone hb).elim
  · exact (hnone hb).elim

/-- A node with a successor has been filled. -/
theorem Charted.filled_of_successor (h : Charted m v k amb s) (hn : s.graph.get? a = some n)
    (ht : t ∈ n.successors) :
    ∃ p, Filled m v k s n p := by
  cases ho : (m.marks a).opening with
  | true => exact (h.filled_node hn ho).2
  | false =>
    have hnone : n.successors = #[] := congrArg Node.successors (h.blank_node hn ho)
    rw [hnone] at ht
    exact absurd ht (Array.not_mem_empty t)

/-- Only one node ends at a place. -/
theorem Charted.eq_of_stopAt (h : Charted m v k amb s) (hn : s.graph.get? a = some n)
    (hn' : s.graph.get? b = some n') (hp : Filled m v k s n p) (hq : Filled m v k s n' q)
    (he : n.stopAt = n'.stopAt) : a = b := by
  have hsame : p = q := by
    refine h.tally.parsed.behind_inj hp.stretch.opening_last hq.stretch.opening_last ?_
    rw [← hp.stopAt_eq, ← hq.stopAt_eq, he]
  exact h.node_eq hn hn' hp.stretch.mem_last hq.stretch.mem_last hsame

/-- Control comes to a node only by going on if it comes from one node only, which ends right before
it. -/
theorem Charted.jumpsTo_eq_nil (h : Charted m v k amb s) (hg : s.graph.Paired)
    (hn : s.graph.get? a = some n) (hp : Filled m v k s n p) (ht : t ∈ n.successors)
    (hnext : s.graph.get? t = some next) :
    s.graph.jumpsTo next = [] ↔
      n.stop = false ∧ n.stopAt = t.toNat ∧ ∀ b ∈ next.predecessors, b = a := by
  have hstart : next.start = t := h.start_eq hnext
  have hpaired : ∀ {b n'}, s.graph.get? b = some n' →
      (t ∈ n'.successors ↔ b ∈ next.predecessors) := by
    intro b n' hn'
    have hflow := hg.flow b t
    rw [FlowGraph.nodeAt_eq hn', FlowGraph.nodeAt_eq hnext] at hflow
    exact hflow
  have hfalls : ∀ n' : Node, n'.fallsInto next = true ↔ n'.stop = false ∧ n'.stopAt = t.toNat := by
    intro n'
    rw [Node.fallsInto, hstart, Bool.and_eq_true, Bool.not_eq_true', beq_iff_eq]
  unfold FlowGraph.jumpsTo
  rw [List.filter_eq_nil_iff]
  constructor
  · intro hall
    have hinto : ∀ {b n'}, s.graph.get? b = some n' → b ∈ next.predecessors →
        n'.fallsInto next = true := by
      intro b n' hn' hb
      have hno := hall b (Array.mem_toList_iff.mpr hb)
      rw [hn', Option.any_some, Bool.not_eq_true, Bool.not_eq_false'] at hno
      exact hno
    obtain ⟨hstop, hend⟩ := (hfalls n).mp (hinto hn ((hpaired hn).mp ht))
    refine ⟨hstop, hend, ?_⟩
    intro b hb
    cases hn' : s.graph.get? b with
    | none =>
      -- There is no edge from a place where no node starts.
      have hedge := (hg.flow b t).mpr (by rw [FlowGraph.nodeAt_eq hnext]; exact hb)
      unfold FlowGraph.nodeAt at hedge
      rw [hn'] at hedge
      exact absurd hedge (Array.not_mem_empty t)
    | some n' =>
      obtain ⟨q, hq⟩ := h.filled_of_successor hn' ((hpaired hn').mpr hb)
      have hend' := ((hfalls n').mp (hinto hn' hb)).2
      exact h.eq_of_stopAt hn' hn hq hp (hend'.trans hend.symm)
  · rintro ⟨hstop, hend, honly⟩ b hb
    rw [honly b (Array.mem_toList_iff.mp hb), hn, Option.any_some, (hfalls n).mpr ⟨hstop, hend⟩]
    decide

/-- A branch to a node is recorded there: as a call, or as an edge from the node that it ends. -/
theorem Charted.enters (h : Charted m v k amb s) (hg : s.graph.Paired)
    (hn : s.graph.get? a = some n) (hp : Filled m v k s n p) (hi : i ∈ n.instructions.toList)
    (ht : i.branchTarget? = some t) (hnext : s.graph.get? t = some next) :
    a ∈ next.callers ∨
      (i.course = .branch t (!i.effects.stop) ∧ i = m.decode v p ∧ t ∈ n.successors ∧
        a ∈ next.predecessors) := by
  have hcall := hg.call a t
  have hflow := hg.flow a t
  rw [FlowGraph.nodeAt_eq hn, FlowGraph.nodeAt_eq hnext] at hcall hflow
  rcases h.leads hp hi ht (FlowGraph.contains_iff.mpr ⟨next, hnext⟩) with hcallee |
    ⟨hcourse, hlast, hsucc⟩
  · exact .inl (hcall.mp hcallee)
  · exact .inr ⟨hcourse, hlast, hsucc, hflow.mp hsucc⟩

/-- A node that a branch ends falls into its target if the branch is a conditional one to the next
instruction. -/
theorem Filled.falls_iff (hp : Filled m v k s n p)
    (hcourse : i.course = .branch t (!i.effects.stop)) (hlast : i = m.decode v p) :
    n.stop = false ∧ n.stopAt = t.toNat ↔ i.course = .branch t true ∧ i.next? = some t := by
  have hstop : n.stop = i.effects.stop := by
    rw [hp.stop, ← hlast, Instruction.halts, hcourse]
    exact Bool.not_not _
  have hend : n.stopAt = t.toNat ↔ i.next? = some t := by
    rw [hp.stopAt_eq, hlast]
    exact eq_comm.trans Address.after?_eq_some_iff.symm
  rw [hend, hstop, hcourse]
  simp

theorem Charted.division (h : Charted m v k amb s) :
    FlowGraph.Division s.graph.markSubroutines.placement := by
  refine FlowGraph.division_placement (FlowGraph.toList_ascending ?_)
  intro a n hn
  rw [FlowGraph.markSubroutines, FlowGraph.get?_mapNodes] at hn
  obtain ⟨n₀, hn₀, rfl⟩ := Option.map_eq_some_iff.mp hn
  have hstart : n₀.start = a := h.start_eq hn₀
  exact hstart

/-- A branch to a node leaves it without a label only if it is a conditional jump to the next
instruction, inside of a block, and no other node leads there. -/
theorem Charted.label_eq_none (h : Charted m v k amb s) (hg : s.graph.Paired) (stems : Stems)
    (hn : s.graph.get? a = some n) (hi : i ∈ n.instructions.toList) (ht : i.branchTarget? = some t)
    (hnext : s.graph.get? t = some next) :
    (s.graph.markSubroutines.named stems).labelAt? t = none ↔
      next.label = none ∧ s.graph.markSubroutines.blocks.isLeader t = false ∧
        (i.course = .branch t true ∧ i.next? = some t) ∧ ∀ b ∈ next.predecessors, b = a := by
  obtain ⟨-, p, hp⟩ := h.filled_of_mem hn hi
  have hstart := h.start_eq hnext
  obtain ⟨flag, hmarked⟩ := FlowGraph.exists_marked hnext
  have hjumps : s.graph.markSubroutines.jumpsTo { next with isSubroutine := flag } =
      s.graph.jumpsTo next :=
    ((FlowGraph.sameButNames_markSubroutines s.graph).jumpsTo_eq next).symm
  have henters := h.enters hg hn hp hi ht hnext
  cases hl : s.graph.markSubroutines.blocks.isLeader t with
  | true =>
    refine iff_of_false ?_ fun hall => absurd hall.2.1 (by decide)
    intro hnone
    have hunmarked := FlowGraph.label_eq_none_of_leader h.division hmarked hl hnone
    have hunused : next.isReferenced = false := hunmarked
    rw [Node.isReferenced, Bool.or_eq_false_iff, Bool.not_eq_false', Bool.not_eq_false',
      Array.isEmpty_iff, Array.isEmpty_iff] at hunused
    rw [hunused.1, hunused.2] at henters
    simp at henters
  | false =>
    have hunmarked := FlowGraph.callers_of_interior h.division hmarked hstart hl
    have huncalled : next.callers = #[] := hunmarked
    rw [huncalled] at henters
    obtain ⟨hcourse, hlast, hsucc, -⟩ := henters.resolve_left (Array.not_mem_empty a)
    rw [FlowGraph.label_eq_none_of_interior h.division hmarked hstart hl, hjumps,
      h.jumpsTo_eq_nil hg hn hp hsucc hnext, ← and_assoc (a := n.stop = false),
      hp.falls_iff hcourse hlast]
    simp

end Survey

/-! ### Sessions -/

namespace Session

variable {s : Session} {a t : Address} {n : Node} {i : Instruction}

/-- No node starts inside of an instruction, so the name of a node is the one it was given. -/
theorem best?_of_node (hc : s.charted.graph.contains t = true) :
    s.analyse.names.best? t = s.analyse.names.given? t := by
  have h := s.charted_analyse
  have hcode :
      ((s.charted.memory.marks t).code && !(s.charted.memory.marks t).opening) = false := by
    rw [h.stamped.same.code, h.stamped.same.opening]
    cases ho : ((s.survey.discover s.entries.toList).memory.marks t).opening with
    | true => simp
    | false =>
      have hmissing := ((h.tally.vacant t ho).mp hc).2
      rw [h.tally.parsed.code_eq, hmissing.1]
      rfl
  have hmemory : s.analyse.names.memory = s.charted.memory := by rw [names_analyse]
  unfold Names.best?
  cases s.analyse.names.given? t with
  | some name => rfl
  | none =>
    dsimp only
    rw [hmemory, hcode, if_neg Bool.false_ne_true]

/-- The way in which a node that the instruction `i` of the node at `a` branches to stays without a
name. -/
structure PassedOver (s : Session) (a : Address) (i : Instruction) (t : Address) : Prop where
  external : s.labels.contains t = false
  other : s.atlas.other.contains t = false
  interior : s.atlas.blocks.isLeader t = false
  conditional : i.course = .branch t true
  next : i.next? = some t
  only : ∀ b ∈ (s.atlas.graph.nodeAt t).predecessors, b = a

theorem scoped?_eq_none (hn : s.analyse.atlas.graph.get? a = some n)
    (hi : i ∈ n.instructions.toList) (ht : i.branchTarget? = some t)
    (hc : s.analyse.atlas.graph.contains t = true) :
    s.analyse.names.scoped? t i.address = none ↔ s.analyse.PassedOver a i t := by
  obtain ⟨next, hnext⟩ := FlowGraph.contains_iff.mp hc
  obtain ⟨n₀, hn₀, heq⟩ := s.graph_analyse.symm.exists_node hn
  obtain ⟨next₀, hnext₀, heq'⟩ := s.graph_analyse.symm.exists_node hnext
  have hi₀ : i ∈ n₀.instructions.toList := by
    show i ∈ n₀.anonymous.instructions.toList
    rw [heq]
    exact hi
  have hpredecessors : (s.analyse.atlas.graph.nodeAt t).predecessors = next₀.predecessors := by
    rw [FlowGraph.nodeAt_eq hnext]
    show next.anonymous.predecessors = next₀.anonymous.predecessors
    rw [heq']
  have hgraph : s.analyse.names.graph = s.charted.graph.markSubroutines.named s.settings.stems :=
    congrArg Names.graph s.names_analyse
  have hblocks : s.analyse.atlas.blocks = s.charted.graph.markSubroutines.blocks :=
    congrArg Names.blocks s.names_analyse
  have hseed : s.labels.contains t = false → next₀.label = none := by
    intro hnone
    rw [← Std.ExtTreeMap.isSome_getElem?_eq_contains, Option.isSome_eq_false_iff,
      Option.isNone_iff_eq_none] at hnone
    have hlabel := labelAt?_charted hnone
    unfold FlowGraph.labelAt? at hlabel
    rw [hnext₀] at hlabel
    exact hlabel
  have hlabel := s.charted_analyse.label_eq_none s.paired_charted s.settings.stems hn₀ hi₀ ht hnext₀
  unfold Names.scoped?
  rw [Option.map_eq_none_iff, best?_of_node (FlowGraph.contains_iff.mpr ⟨next₀, hnext₀⟩),
    Names.given?_eq_none_iff, hgraph, hlabel, names_other]
  constructor
  · intro ⟨hexternal, ⟨_, hinterior, ⟨hcourse, hbehind⟩, honly⟩, hother⟩
    refine ⟨hexternal, hother, ?_, hcourse, hbehind, ?_⟩
    · rw [hblocks]
      exact hinterior
    · rw [hpredecessors]
      exact honly
  · intro hpassed
    have hinterior := hpassed.interior
    have honly := hpassed.only
    rw [hblocks] at hinterior
    rw [hpredecessors] at honly
    exact ⟨hpassed.external,
      ⟨hseed hpassed.external, hinterior, ⟨hpassed.conditional, hpassed.next⟩, honly⟩,
      hpassed.other⟩

/-- A branch to a node has a name for its operand, which is then written, unless it is a conditional
jump to the next instruction and the node there, inside of a block, is entered from nowhere else and
named for no other reason. -/
theorem branch_operands_named (s : Session) (entries : List Address)
    (hn : (s.run entries).atlas.graph.get? a = some n) (hi : i ∈ n.instructions.toList)
    (ht : i.branchTarget? = some t) (hc : (s.run entries).atlas.graph.contains t = true) :
    ((s.run entries).names.resolve t i.kind i.address = none ↔ (s.run entries).PassedOver a i t) ∧
      ∀ name, (s.run entries).names.resolve t i.kind i.address = some name →
        ∀ numbers, i.valueText (s.run entries).names.resolve numbers = name := by
  have htarget : i.target? = some t := by
    unfold Instruction.branchTarget? at ht
    split at ht
    · exact ht
    · cases ht
  constructor
  · rw [Names.resolve_of_target htarget]
    exact scoped?_eq_none hn hi ht hc
  · intro name hname
    exact Instruction.valueText_of_name htarget hname

/-- A branch that is looked for by its target, its kind and its address. -/
theorem exists_branch (g : FlowGraph) (a t : Address) (kind : OperandKind) (source : Address)
    (h : (g.get? a).map (fun n => n.instructions.toList.any fun i =>
      i.branchTarget? == some t && i.kind == kind && i.address == source) = some true) :
    ∃ n i, g.get? a = some n ∧ i ∈ n.instructions.toList ∧ i.branchTarget? = some t ∧
      i.kind = kind ∧ i.address = source := by
  obtain ⟨n, hn, hany⟩ := Option.map_eq_some_iff.mp h
  obtain ⟨i, hi, hfields⟩ := List.any_eq_true.mp hany
  rw [Bool.and_eq_true, Bool.and_eq_true, beq_iff_eq, beq_iff_eq, beq_iff_eq] at hfields
  exact ⟨n, i, hn, hi, hfields.1.1, hfields.1.2, hfields.2⟩

/-- The jump to `8006h` from the leader of the block is written with the local part of a name. -/
theorem branch_operands_named_crossing :
    ∃ n i, (crossing.run [0x8000]).atlas.graph.get? 0x8000 = some n ∧ i ∈ n.instructions.toList ∧
      i.branchTarget? = some 0x8006 ∧ (crossing.run [0x8000]).atlas.graph.contains 0x8006 = true ∧
      ¬(crossing.run [0x8000]).PassedOver 0x8000 i 0x8006 ∧
      (crossing.run [0x8000]).names.resolve 0x8006 i.kind i.address = some ".L1" ∧
      ∀ numbers, i.valueText (crossing.run [0x8000]).names.resolve numbers = ".L1" := by
  obtain ⟨n, i, hn, hi, ht, hkind, haddress⟩ :=
    exists_branch (crossing.run [0x8000]).atlas.graph 0x8000 0x8006 .relative 0x8000
      (by decide +kernel)
  have hc : (crossing.run [0x8000]).atlas.graph.contains 0x8006 = true := by decide +kernel
  have hname : (crossing.run [0x8000]).names.resolve 0x8006 i.kind i.address = some ".L1" := by
    rw [hkind, haddress]
    decide +kernel
  obtain ⟨hnone, hwritten⟩ := branch_operands_named crossing [0x8000] hn hi ht hc
  refine ⟨n, i, hn, hi, ht, hc, ?_, hname, hwritten ".L1" hname⟩
  rw [← hnone, hname]
  exact Option.some_ne_none _

/-- `JR Z,8002h` and `RET` at `8000h`. -/
def steppingOn : Session where
  memory := Memory.empty.write 0x8000 [0x28, 0x00, 0xC9]

/-- The target of the jump is a node, and has no name. -/
theorem branch_operand_nameless_steppingOn :
    ∃ n i, (steppingOn.run [0x8000]).atlas.graph.get? 0x8000 = some n ∧ i ∈ n.instructions.toList ∧
      i.branchTarget? = some 0x8002 ∧ (steppingOn.run [0x8000]).atlas.graph.contains 0x8002 = true ∧
      (steppingOn.run [0x8000]).names.resolve 0x8002 i.kind i.address = none := by
  obtain ⟨n, i, hn, hi, ht, hkind, haddress⟩ :=
    exists_branch (steppingOn.run [0x8000]).atlas.graph 0x8000 0x8002 .relative 0x8000
      (by decide +kernel)
  refine ⟨n, i, hn, hi, ht, by decide +kernel, ?_⟩
  rw [hkind, haddress]
  decide +kernel

end Session

end Z80Atlas
