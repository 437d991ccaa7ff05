import Std.Data.ExtTreeSet
import Z80Atlas.Flow.Graph
import Z80Atlas.Flow.Reach

/-!
# Subroutines

A node belongs to a subroutine if it is called, or if control can go from it to a return.  The
subroutine that starts at a node consists of all nodes that control can go to from there without a
call.
-/

namespace Z80Atlas

namespace FlowGraph

/-- The successors of a node. -/
def successorsOf (g : FlowGraph) (a : Address) : List Address :=
  ((g.get? a).map (·.successors.toList)).getD []

/-- The predecessors of a node. -/
def predecessorsOf (g : FlowGraph) (a : Address) : List Address :=
  ((g.get? a).map (·.predecessors.toList)).getD []

/-- The nodes from which control can go to a node that is marked. -/
def leadingToMarked (g : FlowGraph) : AddressSet :=
  reach g.predecessorsOf ((g.toList.filter (·.isSubroutine)).map (·.start))

/-- Mark the nodes that belong to subroutines: those from which control can go to a marked node, and
those that are called. -/
def markSubroutines (g : FlowGraph) : FlowGraph :=
  let marked := g.leadingToMarked
  g.mapNodes fun n =>
    { n with isSubroutine := n.isSubroutine || n.start ∈ marked || !n.callers.isEmpty }

end FlowGraph

/-- The part of a flow graph that control can reach from a node without a call. -/
structure Subroutine where
  start : Address
  /-- The nodes. -/
  nodes : Std.ExtTreeSet Address
  /-- What they call. -/
  callees : Std.ExtTreeSet Address
  /-- How many bytes they have. -/
  size : Nat

namespace Subroutine

/-- The nodes of the graph in a set. -/
def nodesIn (g : FlowGraph) (s : AddressSet) : List Node :=
  g.toList.filter (·.start ∈ s)

/-- The subroutine that consists of some nodes. -/
def ofNodes (start : Address) (nodes : List Node) : Subroutine where
  start
  nodes := .ofList (nodes.map (·.start))
  callees := .ofList (nodes.filterMap (·.callee))
  size := (nodes.map (·.length)).foldr (· + ·) 0

/-- The subroutine that starts at an address, if a node starts there. -/
def of? (g : FlowGraph) (start : Address) : Option Subroutine :=
  if g.contains start then some (ofNodes start (nodesIn g (reach g.successorsOf [start]))) else none

end Subroutine

namespace FlowGraph

/-- What the subroutine at an address calls. -/
def calleesFrom (g : FlowGraph) (a : Address) : List Address :=
  ((Subroutine.of? g a).map (·.callees.toList)).getD []

/-- The subroutines that can be reached from the entries by calls. -/
def callGraph (g : FlowGraph) (entries : List Address) : List Subroutine :=
  let reached := reach g.calleesFrom (entries.filter g.contains)
  (g.addresses.filter (· ∈ reached)).filterMap (Subroutine.of? g)

end FlowGraph

end Z80Atlas
