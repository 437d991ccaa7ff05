import Z80Atlas.Proofs.Partition
import Z80Atlas.Proofs.Subroutines

/-!
# Subroutines and what they call

A subroutine has the nodes to which control can go from its start without a call, and calls what
these call.  Going on from subroutine to subroutine along the calls gives the call graph.  Both are
searches over graphs that may have cycles: what they find is what can be reached, and each node
counts once, however many ways lead to it.
-/

namespace Z80Atlas

namespace FlowGraph

variable {g : FlowGraph} {a b x y start : Address} {n : Node}

/-! ### Nodes that control can go to -/

theorem mem_successorsOf : b ∈ g.successorsOf a ↔ b ∈ (g.nodeAt a).successors := by
  unfold successorsOf nodeAt
  cases g.get? a <;> simp

theorem mem_reach_successorsOf : x ∈ reach g.successorsOf [start] ↔ g.Reaches start x := by
  have hstep : (fun a b => b ∈ g.successorsOf a) = fun a b => b ∈ (g.nodeAt a).successors := by
    funext a b
    exact propext mem_successorsOf
  rw [mem_reach, hstep]
  simp [Reaches]

/-- Control stays on nodes, since edges lead to nodes only. -/
theorem Built.contains_of_reaches (hg : g.Built) (hs : g.contains start = true)
    (hx : g.Reaches start x) :
    g.contains x = true := by
  induction hx with
  | refl => exact hs
  | tail _ hstep ih =>
    obtain ⟨n, hn⟩ := contains_iff.mp ih
    rw [nodeAt_eq hn] at hstep
    refine hg.synced.closed hn _ ?_
    simp [Node.neighbours, hstep]

end FlowGraph

/-! ### The subroutine at a node -/

namespace Subroutine

open FlowGraph

variable {g : FlowGraph} {nodes : List Node} {r : Subroutine} {s : AddressSet}
  {x y start : Address} {n : Node}

theorem mem_nodesIn (hg : g.Built) : n ∈ nodesIn g s ↔ g.get? n.start = some n ∧ n.start ∈ s := by
  unfold nodesIn
  rw [List.mem_filter, decide_eq_true_eq, mem_toList]
  refine and_congr_left fun _ => ?_
  constructor
  · intro ⟨a, ha⟩
    rw [hg.synced.start ha]
    exact ha
  · intro hn
    exact ⟨n.start, hn⟩

theorem nodup_nodesIn (hg : g.Built) (s : AddressSet) : ((nodesIn g s).map (·.start)).Nodup := by
  refine nodup_of_ascending ?_
  rw [List.pairwise_map]
  exact (FlowGraph.toList_ascending hg.synced.start).filter _

theorem mem_nodes_ofNodes : x ∈ (ofNodes start nodes).nodes ↔ x ∈ nodes.map (·.start) := by
  show x ∈ Std.ExtTreeSet.ofList (nodes.map (·.start)) ↔ _
  rw [Std.ExtTreeSet.mem_ofList, List.contains_iff_mem]

theorem mem_callees_ofNodes :
    y ∈ (ofNodes start nodes).callees ↔ ∃ n ∈ nodes, n.callee = some y := by
  show y ∈ Std.ExtTreeSet.ofList (nodes.filterMap (·.callee)) ↔ _
  rw [Std.ExtTreeSet.mem_ofList, List.contains_iff_mem, List.mem_filterMap]

/-- A set lists each of its members once, so nodes that are listed once have the lengths of its
members. -/
theorem size_ofNodes (hn : (nodes.map (·.start)).Nodup)
    (hg : ∀ n ∈ nodes, g.get? n.start = some n) :
    (ofNodes start nodes).size =
      ((ofNodes start nodes).nodes.toList.map fun x => (g.nodeAt x).length).sum := by
  have hlengths :
      nodes.map (·.length) = (nodes.map (·.start)).map fun x => (g.nodeAt x).length := by
    rw [List.map_map]
    refine List.map_congr_left ?_
    intro n hmem
    exact congrArg Node.length (nodeAt_eq (hg n hmem)).symm
  have hlisted : (ofNodes start nodes).nodes.toList.Nodup := by
    refine Std.ExtTreeSet.distinct_toList.imp ?_
    intro a b hne heq
    exact hne (Std.compare_eq_iff_eq.mpr heq)
  have hperm : (nodes.map (·.start)).Perm (ofNodes start nodes).nodes.toList := by
    rw [List.perm_ext_iff_of_nodup hn hlisted]
    intro x
    rw [Std.ExtTreeSet.mem_toList, mem_nodes_ofNodes]
  calc (ofNodes start nodes).size
      = (nodes.map (·.length)).sum := List.sum_eq_foldr.symm
    _ = ((nodes.map (·.start)).map fun x => (g.nodeAt x).length).sum := by rw [hlengths]
    _ = _ := (hperm.map _).sum_nat

/-- The subroutine has the nodes that control can reach from `start`, each of them once, and calls
what they call. -/
structure ClosureOf (g : FlowGraph) (start : Address) (r : Subroutine) : Prop where
  starts : r.start = start
  known : ∀ x ∈ r.nodes, g.contains x = true
  nodes : ∀ x, x ∈ r.nodes ↔ g.Reaches start x
  callees : ∀ y, y ∈ r.callees ↔ ∃ x ∈ r.nodes, (g.nodeAt x).callee = some y
  size : r.size = (r.nodes.toList.map fun x => (g.nodeAt x).length).sum

theorem of?_eq_none : of? g start = none ↔ g.contains start = false := by
  unfold of?
  cases g.contains start <;> simp

theorem closureOf_of? (hg : g.Built) (hr : of? g start = some r) : ClosureOf g start r := by
  unfold of? at hr
  split at hr
  next hs =>
    rw [Option.some.injEq] at hr
    have hmem : ∀ n, n ∈ nodesIn g (reach g.successorsOf [start]) ↔
        g.get? n.start = some n ∧ g.Reaches start n.start := by
      intro n
      rw [mem_nodesIn hg, mem_reach_successorsOf]
    have hnodes : ∀ x, x ∈ r.nodes ↔ g.Reaches start x := by
      intro x
      rw [← hr, mem_nodes_ofNodes, List.mem_map]
      constructor
      · intro ⟨n, hn, hx⟩
        rw [← hx]
        exact ((hmem n).mp hn).2
      · intro hx
        obtain ⟨n, hn⟩ := contains_iff.mp (hg.contains_of_reaches hs hx)
        have hplace : n.start = x := hg.synced.start hn
        exact ⟨n, (hmem n).mpr (by rw [hplace]; exact ⟨hn, hx⟩), hplace⟩
    refine ⟨?_, ?_, hnodes, ?_, ?_⟩
    · rw [← hr]
      rfl
    · intro x hx
      exact hg.contains_of_reaches hs ((hnodes x).mp hx)
    · intro y
      rw [← hr, mem_callees_ofNodes, hr]
      constructor
      · intro ⟨n, hn, hy⟩
        obtain ⟨hget, hreach⟩ := (hmem n).mp hn
        refine ⟨n.start, (hnodes _).mpr hreach, ?_⟩
        rw [nodeAt_eq hget]
        exact hy
      · intro ⟨x, hx, hy⟩
        have hreach := (hnodes x).mp hx
        obtain ⟨n, hn⟩ := contains_iff.mp (hg.contains_of_reaches hs hreach)
        rw [nodeAt_eq hn] at hy
        exact ⟨n, (hmem n).mpr (by rw [hg.synced.start hn]; exact ⟨hn, hreach⟩), hy⟩
    · rw [← hr]
      exact size_ofNodes (nodup_nodesIn hg _) fun n hn => ((hmem n).mp hn).1
  next => cases hr

end Subroutine

/-! ### The call graph -/

namespace FlowGraph

variable {g : FlowGraph} {entries entries' : List Address} {r : Subroutine} {a x y : Address}

/-- The subroutine at `x` calls the node at `y`. -/
def Calls (g : FlowGraph) (x y : Address) : Prop := ∃ r, Subroutine.of? g x = some r ∧ y ∈ r.callees

theorem mem_calleesFrom : y ∈ g.calleesFrom x ↔ g.Calls x y := by
  unfold calleesFrom Calls
  cases Subroutine.of? g x with
  | none => simp
  | some r => simp [Std.ExtTreeSet.mem_toList]

/-- Calls lead to nodes. -/
theorem Built.contains_of_calls (hg : g.Built) (h : g.Calls x y) : g.contains y = true := by
  obtain ⟨r, hr, hy⟩ := h
  have hclosure := Subroutine.closureOf_of? hg hr
  obtain ⟨a, ha, hcallee⟩ := (hclosure.callees y).mp hy
  obtain ⟨n, hn⟩ := contains_iff.mp (hclosure.known a ha)
  rw [nodeAt_eq hn] at hcallee
  refine hg.synced.closed hn y ?_
  simp [Node.neighbours, hcallee]

/-- Some entry that is a node leads to a node by calls. -/
def CalledFrom (g : FlowGraph) (entries : List Address) (x : Address) : Prop :=
  ∃ e ∈ entries, g.contains e = true ∧ Relation.ReflTransGen g.Calls e x

theorem Built.contains_of_calledFrom (hg : g.Built) (h : g.CalledFrom entries x) :
    g.contains x = true := by
  obtain ⟨e, -, he, hpath⟩ := h
  cases hpath with
  | refl => exact he
  | tail _ hlast => exact hg.contains_of_calls hlast

theorem mem_reach_calleesFrom :
    x ∈ reach g.calleesFrom (entries.filter g.contains) ↔ g.CalledFrom entries x := by
  have hstep : (fun a b => b ∈ g.calleesFrom a) = g.Calls := by
    funext a b
    exact propext mem_calleesFrom
  unfold CalledFrom
  rw [mem_reach, hstep]
  simp only [List.mem_filter, and_assoc]

theorem mem_callGraph (hg : g.Built) :
    r ∈ g.callGraph entries ↔ Subroutine.of? g r.start = some r ∧ g.CalledFrom entries r.start := by
  unfold callGraph
  simp only [List.mem_filterMap, List.mem_filter, decide_eq_true_eq, mem_reach_calleesFrom]
  constructor
  · intro ⟨a, ⟨_, hcalled⟩, hr⟩
    rw [(Subroutine.closureOf_of? hg hr).starts]
    exact ⟨hr, hcalled⟩
  · intro ⟨hr, hcalled⟩
    exact ⟨r.start, ⟨mem_addresses.mpr (hg.contains_of_calledFrom hcalled), hcalled⟩, hr⟩

/-- The entries matter only as a set. -/
theorem callGraph_congr (h : ∀ a, a ∈ entries ↔ a ∈ entries') :
    g.callGraph entries = g.callGraph entries' := by
  have hreach :
      reach g.calleesFrom (entries.filter g.contains) =
        reach g.calleesFrom (entries'.filter g.contains) := by
    apply AddressSet.ext
    intro x
    simp only [mem_reach_calleesFrom, CalledFrom, h]
  unfold callGraph
  rw [hreach]

theorem callGraph_ascending (hg : g.Built) (entries : List Address) :
    ((g.callGraph entries).map (·.start)).Pairwise fun x y => x.toNat < y.toNat := by
  unfold callGraph
  rw [List.pairwise_map, List.pairwise_filterMap]
  refine (g.addresses_ascending.filter _).imp ?_
  intro x y hlt r hr r' hr'
  rw [(Subroutine.closureOf_of? hg hr).starts, (Subroutine.closureOf_of? hg hr').starts]
  exact hlt

end FlowGraph

namespace Session

variable {s : Session} {entries : List Address}

/-- The subroutines are those at the nodes that calls lead to from the entries, one for each such
node. -/
structure CallGraphOf (s : Session) (entries : List Address) (rs : List Subroutine) : Prop where
  keys : ∀ x, x ∈ rs.map (·.start) ↔ s.atlas.graph.CalledFrom entries x
  mapped : ∀ r ∈ rs, s.subroutine r.start = .ok r
  ascending : (rs.map (·.start)).Pairwise fun x y => x.toNat < y.toNat

theorem subroutine_eq_ok {start : Address} {r : Subroutine} :
    s.subroutine start = .ok r ↔ Subroutine.of? s.atlas.graph start = some r := by
  unfold subroutine
  cases Subroutine.of? s.atlas.graph start <;> simp

theorem callGraphOf_callGraph (hg : s.atlas.graph.Built) (entries : List Address) :
    s.CallGraphOf entries (s.callGraph entries) := by
  refine ⟨?_, ?_, FlowGraph.callGraph_ascending hg entries⟩
  · intro x
    rw [List.mem_map]
    constructor
    · intro ⟨r, hr, hx⟩
      rw [← hx]
      exact ((FlowGraph.mem_callGraph hg).mp hr).2
    · intro hx
      cases hr : Subroutine.of? s.atlas.graph x with
      | none =>
        have hno := Subroutine.of?_eq_none.mp hr
        rw [hg.contains_of_calledFrom hx] at hno
        cases hno
      | some r =>
        have hstart := (Subroutine.closureOf_of? hg hr).starts
        exact ⟨r, (FlowGraph.mem_callGraph hg).mpr (by rw [hstart]; exact ⟨hr, hx⟩), hstart⟩
  · intro r hr
    exact subroutine_eq_ok.mpr ((FlowGraph.mem_callGraph hg).mp hr).1

/-- A session may hold any graph.  If it is built, asking for the subroutine at an address fails
exactly if no node starts there, and else gives all that control can reach from there; the call
graph has a subroutine for each node that calls lead to, and depends on the entries only as a
set. -/
theorem subroutines_exact (hg : s.atlas.graph.Built) :
    (∀ start, s.subroutine start = .error (.unknownNode start) ↔
      s.atlas.graph.contains start = false) ∧
      (∀ start, s.atlas.graph.contains start = true →
        ∃ r, s.subroutine start = .ok r ∧ r.ClosureOf s.atlas.graph start) ∧
      (∀ entries, s.CallGraphOf entries (s.callGraph entries)) ∧
      ∀ entries entries', (∀ a, a ∈ entries ↔ a ∈ entries') →
      s.callGraph entries = s.callGraph entries' := by
  refine ⟨?_, ?_, callGraphOf_callGraph hg, fun _ _ => FlowGraph.callGraph_congr⟩
  · intro start
    rw [← Subroutine.of?_eq_none]
    unfold subroutine
    cases Subroutine.of? s.atlas.graph start <;> simp
  · intro start hs
    cases hr : Subroutine.of? s.atlas.graph start with
    | none =>
      rw [Subroutine.of?_eq_none, hs] at hr
      cases hr
    | some r => exact ⟨r, subroutine_eq_ok.mpr hr, Subroutine.closureOf_of? hg hr⟩

/-- Two subroutines that share their last node, which calls one of them; that one is a loop and
calls the other. -/
def sharingTail : Session where
  atlas := {
    graph := ([.addBranch 0x100 0x102, .addBranch 0x102 0x100, .addBranch 0x102 0x300,
      .addBranch 0x200 0x300, .setCallee 0x102 0x200, .setCallee 0x300 0x100] :
        List FlowGraph.Operation).foldl FlowGraph.operate {}
        |>.mapNodes fun n => { n with length := 2 } }

theorem subroutines_exact_sharingTail :
    sharingTail.atlas.graph.Built ∧ sharingTail.subroutine 0x101 = .error (.unknownNode 0x101) ∧
      (∃ r, sharingTail.subroutine 0x100 = .ok r ∧ r.ClosureOf sharingTail.atlas.graph 0x100 ∧
        r.nodes.toList = [0x100, 0x102, 0x300] ∧ r.callees.toList = [0x100, 0x200] ∧ r.size = 6) ∧
      sharingTail.CallGraphOf [0x7777, 0x200] (sharingTail.callGraph [0x7777, 0x200]) ∧
      (sharingTail.callGraph [0x7777, 0x200]).map (·.start) = [0x100, 0x200] ∧
      sharingTail.callGraph [0x200, 0x7777, 0x200] = sharingTail.callGraph [0x7777, 0x200] := by
  have hbuilt : sharingTail.atlas.graph.Built :=
    (FlowGraph.built_foldl_operate _ .empty).mapNodes fun _ => rfl
  obtain ⟨hunknown, hknown, hcalls, hset⟩ := subroutines_exact hbuilt
  obtain ⟨r, hr, hclosure⟩ := hknown 0x100 (by decide)
  have hvalue :
      (sharingTail.subroutine 0x100).toOption.map
        (fun r => (r.nodes.toList, r.callees.toList, r.size)) =
          some ([0x100, 0x102, 0x300], [0x100, 0x200], 6) := by decide +kernel
  rw [hr] at hvalue
  simp only [Except.toOption, Option.map_some, Option.some.injEq, Prod.mk.injEq] at hvalue
  refine ⟨hbuilt, (hunknown 0x101).mpr (by decide), ⟨r, hr, hclosure, hvalue⟩,
    hcalls _, by decide +kernel, hset _ _ ?_⟩
  intro a
  simp only [List.mem_cons, List.not_mem_nil, or_false]
  grind

end Session

end Z80Atlas
