import Z80Atlas.Proofs.Growth
import Z80Atlas.Proofs.Independence
import Z80Atlas.Proofs.Pairing
import Z80Atlas.Proofs.Passes

/-!
# Graphs that are put together by operations

Edges are only ever changed by operations on the graph, which touch both of their ends.  A graph
that has come about by such operations, and by changes to nodes that concern neither their place nor
their edges, is `Built`.  In a built graph the two ends of every edge agree and are nodes, and no
edge is kept twice (`FlowGraph.Synced`).  Every pass of a survey, and every analysis, ends with a
graph that is built.
-/

namespace Z80Atlas

/-- The addresses that the edges of a node mention. -/
def Node.neighbours (n : Node) : List Address :=
  n.successors.toList ++ n.predecessors.toList ++ n.callee.toList ++ n.callers.toList

/-- Where a node stands and what its edges are. -/
def Node.frame (n : Node) :
    Address × Array Address × Array Address × Option Address × Array Address :=
  (n.start, n.edges)

theorem nodup_addOnce {xs : Array Address} (h : xs.toList.Nodup) (a : Address) :
    (addOnce xs a).toList.Nodup := by
  unfold addOnce
  split
  · exact h
  next hnew =>
    rw [Array.toList_push, List.nodup_append]
    refine ⟨h, List.nodup_singleton a, ?_⟩
    intro x hx y hy heq
    rw [List.mem_singleton] at hy
    rw [heq, hy, Array.mem_toList_iff] at hx
    exact hnew (Array.contains_iff_mem.mpr hx)

namespace FlowGraph

variable {g h : FlowGraph} {a b source target : Address} {n : Node}

/-! ### Operations -/

/-- What can be done to the nodes and edges of a graph. -/
inductive Operation
  | ensure (a : Address)
  | addBranch (source target : Address)
  | setCallee (source target : Address)
  | clear

/-- Carry out an operation. -/
def operate (g : FlowGraph) : Operation → FlowGraph
  | .ensure a => g.ensure a
  | .addBranch source target => g.addBranch source target
  | .setCallee source target => g.setCallee source target
  | .clear => {}

/-- The two graphs have nodes at the same places, with the same edges. -/
def SameEdges (g h : FlowGraph) : Prop := ∀ a, (g.get? a).map Node.frame = (h.get? a).map Node.frame

/-- A graph that operations have put together, with changes between them to anything but places and
edges. -/
inductive Built : FlowGraph → Prop
  | empty : Built {}
  | operate {g : FlowGraph} (o : Operation) (hg : Built g) : Built (g.operate o)
  | edit {g h : FlowGraph} (hgh : SameEdges g h) (hg : Built g) : Built h

theorem built_foldl_operate (ops : List Operation) (hg : g.Built) :
    (ops.foldl operate g).Built := by
  induction ops generalizing g with
  | nil => exact hg
  | cons o rest ih => exact ih (.operate o hg)

theorem sameEdges_modify {f : Node → Node} (hf : ∀ n, (f n).frame = n.frame) (g : FlowGraph)
    (a : Address) :
    SameEdges g (g.modify a f) := by
  intro b
  rw [get?_modify]
  split
  · cases g.get? b with
    | none => rfl
    | some n => exact congrArg some (hf n).symm
  · rfl

theorem SameButNames.sameEdges (hgh : SameButNames g h) : SameEdges g h := by
  have hframe : ∀ o : Option Node, o.map Node.frame = (o.map Node.anonymous).map Node.frame := by
    intro o
    cases o <;> rfl
  intro a
  rw [hframe, hframe (h.get? a), hgh a]

theorem SameEdges.frame_nodeAt (hgh : SameEdges g h) (a : Address) :
    (h.nodeAt a).frame = (g.nodeAt a).frame := by
  have hsame := hgh a
  unfold nodeAt
  cases hg : g.get? a with
  | none =>
    rw [hg, Option.map_none, eq_comm, Option.map_eq_none_iff] at hsame
    rw [hsame]
  | some n =>
    rw [hg, Option.map_some, eq_comm, Option.map_eq_some_iff] at hsame
    obtain ⟨n', hn', hframe⟩ := hsame
    rw [hn', Option.getD_some, Option.getD_some, hframe]

/-! ### Places and lists of edges -/

/-- Every node stands at its place, and no list of edges has an address twice. -/
structure Tidy (g : FlowGraph) : Prop where
  start : ∀ a, (g.nodeAt a).start = a
  successors : ∀ a, (g.nodeAt a).successors.toList.Nodup
  predecessors : ∀ a, (g.nodeAt a).predecessors.toList.Nodup
  callers : ∀ a, (g.nodeAt a).callers.toList.Nodup

theorem nodeAt_empty (a : Address) : ({} : FlowGraph).nodeAt a = { start := a } := by
  have hnone : ({} : FlowGraph).get? a = none := Std.ExtTreeMap.getElem?_empty
  unfold nodeAt
  rw [hnone, Option.getD_none]

theorem tidy_empty : Tidy {} := by
  refine ⟨?_, ?_, ?_, ?_⟩ <;> intro a <;> rw [nodeAt_empty]
  all_goals exact List.nodup_nil

theorem Tidy.congr (hg : g.Tidy) (hgh : SameEdges g h) : h.Tidy := by
  have hfields : ∀ a, (h.nodeAt a).start = (g.nodeAt a).start ∧
      (h.nodeAt a).successors = (g.nodeAt a).successors ∧
      (h.nodeAt a).predecessors = (g.nodeAt a).predecessors ∧
      (h.nodeAt a).callers = (g.nodeAt a).callers := by
    intro a
    have heq := hgh.frame_nodeAt a
    simp only [Node.frame, Node.edges, Prod.mk.injEq] at heq
    exact ⟨heq.1, heq.2.1, heq.2.2.1, heq.2.2.2.2⟩
  refine ⟨?_, ?_, ?_, ?_⟩
  · intro a
    rw [(hfields a).1]
    exact hg.start a
  · intro a
    rw [(hfields a).2.1]
    exact hg.successors a
  · intro a
    rw [(hfields a).2.2.1]
    exact hg.predecessors a
  · intro a
    rw [(hfields a).2.2.2]
    exact hg.callers a

theorem Tidy.ensure (hg : g.Tidy) (x : Address) : (g.ensure x).Tidy := by
  refine ⟨?_, ?_, ?_, ?_⟩ <;> intro a <;> rw [nodeAt_ensure]
  · exact hg.start a
  · exact hg.successors a
  · exact hg.predecessors a
  · exact hg.callers a

theorem Tidy.addBranch (hg : g.Tidy) (source target : Address) :
    (g.addBranch source target).Tidy := by
  refine ⟨?_, ?_, ?_, ?_⟩ <;> intro a <;> rw [nodeAt_addBranch] <;> dsimp only
  · exact hg.start a
  · split
    · exact nodup_addOnce (hg.successors a) target
    · exact hg.successors a
  · split
    · exact nodup_addOnce (hg.predecessors a) source
    · exact hg.predecessors a
  · exact hg.callers a

theorem Tidy.setCallee (hg : g.Tidy) (source target : Address) :
    (g.setCallee source target).Tidy := by
  refine ⟨?_, ?_, ?_, ?_⟩ <;> intro a <;> rw [nodeAt_setCallee, nodeAt_detach] <;> dsimp only
  · exact hg.start a
  · exact hg.successors a
  · exact hg.predecessors a
  · -- The former callee loses a caller, the new one gets it.
    have hdetached : (if (g.nodeAt source).callee = some a ∧ a ≠ target then
        (g.nodeAt a).callers.filter (· ≠ source) else (g.nodeAt a).callers).toList.Nodup := by
      split
      · rw [Array.toList_filter]
        exact (hg.callers a).filter _
      · exact hg.callers a
    split
    · exact nodup_addOnce hdetached source
    · exact hdetached

/-! ### Both ends -/

/-- Nodes stand at their places, the records at both ends of each edge agree, all edges lead from
nodes to nodes, and none is kept twice. -/
structure Synced (g : FlowGraph) : Prop where
  start : ∀ {a n}, g.get? a = some n → n.start = a
  flow : ∀ {a b n n'}, g.get? a = some n → g.get? b = some n' →
    (b ∈ n.successors ↔ a ∈ n'.predecessors)
  call : ∀ {a b n n'}, g.get? a = some n → g.get? b = some n' → (n.callee = some b ↔ a ∈ n'.callers)
  closed : ∀ {a n}, g.get? a = some n → ∀ b ∈ n.neighbours, g.contains b = true
  nodup : ∀ {a n}, g.get? a = some n →
    n.successors.toList.Nodup ∧ n.predecessors.toList.Nodup ∧ n.callers.toList.Nodup

/-- What is no node has no edges. -/
theorem contains_of_neighbours {x : Address} (hx : x ∈ (g.nodeAt a).neighbours) :
    g.contains a = true := by
  cases hg : g.get? a with
  | some n => exact contains_iff.mpr ⟨n, hg⟩
  | none =>
    unfold nodeAt at hx
    rw [hg, Option.getD_none] at hx
    cases hx

/-- Each neighbour has the node among its own neighbours. -/
theorem Paired.neighbours_symm (hg : g.Paired) (hb : b ∈ (g.nodeAt a).neighbours) :
    a ∈ (g.nodeAt b).neighbours := by
  simp only [Node.neighbours, List.mem_append, Array.mem_toList_iff, Option.mem_toList] at hb ⊢
  rcases hb with ((hs | hp) | hc) | hc
  · exact .inl (.inl (.inr ((hg.flow a b).mp hs)))
  · exact .inl (.inl (.inl ((hg.flow b a).mpr hp)))
  · exact .inr ((hg.call a b).mp hc)
  · exact .inl (.inr ((hg.call b a).mpr hc))

theorem Paired.synced (hg : g.Paired) (ht : g.Tidy) : g.Synced := by
  refine ⟨?_, ?_, ?_, ?_, ?_⟩
  · intro a n hn
    rw [← nodeAt_eq hn]
    exact ht.start a
  · intro a b n n' hn hn'
    rw [← nodeAt_eq hn, ← nodeAt_eq hn']
    exact hg.flow a b
  · intro a b n n' hn hn'
    rw [← nodeAt_eq hn, ← nodeAt_eq hn']
    exact hg.call a b
  · intro a n hn b hb
    rw [← nodeAt_eq hn] at hb
    exact contains_of_neighbours (hg.neighbours_symm hb)
  · intro a n hn
    rw [← nodeAt_eq hn]
    exact ⟨ht.successors a, ht.predecessors a, ht.callers a⟩

namespace Built

theorem paired (hg : g.Built) : g.Paired := by
  have hnone : Paired {} := by
    constructor
    · intro a b
      rw [nodeAt_empty, nodeAt_empty]
      simp
    · intro a b
      rw [nodeAt_empty, nodeAt_empty]
      simp
  induction hg with
  | empty => exact hnone
  | edit hgh _ ih => exact ih.congr fun a => congrArg Prod.snd (hgh.frame_nodeAt a)
  | operate o _ ih =>
    cases o with
    | ensure a => exact ih.congr fun b => by rw [FlowGraph.operate, nodeAt_ensure]
    | addBranch source target => exact ih.addBranch source target
    | setCallee source target => exact ih.setCallee source target
    | clear => exact hnone

theorem tidy (hg : g.Built) : g.Tidy := by
  induction hg with
  | empty => exact tidy_empty
  | edit hgh _ ih => exact ih.congr hgh
  | operate o _ ih =>
    cases o with
    | ensure a => exact ih.ensure a
    | addBranch source target => exact ih.addBranch source target
    | setCallee source target => exact ih.setCallee source target
    | clear => exact tidy_empty

theorem synced (hg : g.Built) : g.Synced := hg.paired.synced hg.tidy

theorem ensure (hg : g.Built) (a : Address) : (g.ensure a).Built := .operate (.ensure a) hg

theorem modify {f : Node → Node} (hg : g.Built) (hf : ∀ n, (f n).frame = n.frame) (a : Address) :
    (g.modify a f).Built := .edit (sameEdges_modify hf g a) hg

theorem mapNodes {f : Node → Node} (hg : g.Built) (hf : ∀ n, (f n).frame = n.frame) :
    (g.mapNodes f).Built := by
  refine .edit ?_ hg
  intro a
  rw [get?_mapNodes, Option.map_map]
  exact congrArg (Option.map · (g.get? a)) (funext fun n => (hf n).symm)

end Built

theorem kept_built : Kept Built where
  ensure a hg := hg.ensure a
  fill a d hg := hg.modify (f := d.fill) (fun _ => rfl) a
  addBranch source target hg := .operate (.addBranch source target) hg
  setCallee source target hg := .operate (.setCallee source target) hg

end FlowGraph

/-! ### Surveys and analyses -/

namespace Survey

variable {s : Survey}

theorem built_walk (hg : s.graph.Built) (start a : Address) (queue : Queue Address) :
    (s.walk start a queue).1.graph.Built := by
  have henter : ∀ {s : Survey} (i : Instruction), s.graph.Built →
      (s.enter start i).graph.Built := by
    intro s i hs
    unfold enter
    split
    · exact hs.ensure start
    · exact hs
  fun_induction walk s start a queue with
  | case1 => exact hg
  | case2 s a queue _ => exact hg.ensure a
  | case3 => exact hg
  | case4 s a queue i _ _ => exact henter i hg
  | case5 s a queue i _ b _ ih => exact ih (henter i hg)

theorem built_discoverFrom (hg : s.graph.Built) (queue : Queue Address) :
    (s.discoverFrom queue).graph.Built := by
  fun_induction discoverFrom s queue with
  | case1 => exact hg
  | case2 s queue a rest _ r ih => exact ih (built_walk hg a a rest)

theorem built_seed (hg : s.graph.Built) (names : NameTable) : (s.seed names).1.graph.Built := by
  refine seed_keeps (P := (·.graph.Built)) ?_ names hg
  intro r a name hr
  unfold seedName
  split
  · exact (hr.ensure a).modify (f := fun n => { n with label := some name }) (fun _ => rfl) a
  · exact hr

theorem built_perform (hg : s.graph.Built) (p : Pass) : (s.perform p).graph.Built := by
  cases p with
  | discover entries => exact built_discoverFrom hg _
  | seed names => exact built_seed hg names
  | fill => exact FlowGraph.kept_built.fillPending hg

theorem built_performAll (hg : s.graph.Built) (passes : List Pass) :
    (s.performAll passes).graph.Built := by
  induction passes generalizing s with
  | nil => exact hg
  | cons p rest ih => exact ih (built_perform hg p)

theorem built_chart (m : Memory) (v : Opcode.Variant) (k : Skips) (entries : List Address)
    (names : NameTable) :
    ((fresh m v k).chart entries names).1.graph.Built :=
  built_performAll (s := fresh m v k) .empty [.discover entries, .seed names, .fill]

end Survey

theorem Session.paired_charted (s : Session) : s.charted.graph.Paired :=
  (Survey.built_chart _ _ _ _ _).paired

theorem Session.built_analyse (s : Session) : s.analyse.atlas.graph.Built :=
  .edit s.graph_analyse.sameEdges (Survey.built_chart _ _ _ _ _)

/-- The two ends of every edge stay in sync: in every graph that operations put together, after any
passes of a survey, and in the graph of every analysis. -/
theorem FlowGraph.edges_stay_synced :
    (∀ ops : List Operation, (ops.foldl operate {}).Synced) ∧
      (∀ m v k (passes : List Survey.Pass), ((Survey.fresh m v k).performAll passes).graph.Synced) ∧
      ∀ s : Session, s.analyse.atlas.graph.Synced := by
  refine ⟨?_, ?_, ?_⟩
  · intro ops
    exact (built_foldl_operate ops .empty).synced
  · intro m v k passes
    have hnone : (Survey.fresh m v k).graph.Built := .empty
    exact (Survey.built_performAll hnone passes).synced
  · intro s
    exact s.built_analyse.synced

end Z80Atlas
