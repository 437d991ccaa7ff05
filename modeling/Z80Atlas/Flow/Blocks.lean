import Z80Atlas.Flow.Graph
import Z80Atlas.Flow.Reach

/-!
# Blocks

Neighbouring nodes are joined into blocks, in ascending order.  A node is joined to the block before
it if nothing calls it, it has code, it starts where the block ends, and control can go to it from
the first node of the block without entering a node that is called.  Local names are local to a
block.
-/

namespace Z80Atlas

/-- A division of the nodes into blocks. -/
structure Blocks where
  /-- The block that covers an address, named by its first node. -/
  owners : Space (Option Address) := .replicate none
  /-- The nodes of each block, ascending, by its first node. -/
  members : Std.ExtTreeMap Address (Array Address) := ∅

namespace Blocks

/-- The first node of the block that covers an address. -/
def leaderOf? (b : Blocks) (a : Address) : Option Address := b.owners.get a

/-- Whether a block starts with the node at an address. -/
def isLeader (b : Blocks) (a : Address) : Bool := b.members.contains a

/-- The nodes of the block that starts with a node. -/
def membersOf (b : Blocks) (leader : Address) : List Address := (b.members.getD leader #[]).toList

/-- The first nodes of the blocks, ascending. -/
def leaders (b : Blocks) : List Address := b.members.keys

/-- The blocks, ascending: the first node and all nodes. -/
def toList (b : Blocks) : List (Address × List Address) :=
  b.members.toList.map fun p => (p.1, p.2.toList)

/-- How many blocks there are. -/
def size (b : Blocks) : Nat := b.members.size

/-- Whether one block covers both addresses. -/
def together (b : Blocks) (x y : Address) : Bool :=
  (b.leaderOf? x).isSome && b.leaderOf? x == b.leaderOf? y

/-- Put a node into the block of a leader, which then covers it. -/
def join (b : Blocks) (leader : Address) (n : Node) : Blocks where
  owners := Space.modifyFrom (fun _ => some leader) b.owners n.start
    (min n.stopAt 65536 - n.start.toNat)
  members := b.members.alter leader fun nodes => some ((nodes.getD #[]).push n.start)

end Blocks

namespace FlowGraph

/-- The successors of a node that nothing calls. -/
def uncalledSuccessors (g : FlowGraph) (a : Address) : List Address :=
  match g.get? a with
  | some n => n.successors.toList.filter fun b => (g.get? b).any (·.callers.isEmpty)
  | none => []

/-- A block that is being put together. -/
structure OpenBlock where
  leader : Address
  /-- Where control can go from the leader without entering a node that is called. -/
  reached : AddressSet
  /-- The first position behind the block. -/
  stopAt : Nat

/-- Whether a node goes on with a block. -/
def OpenBlock.continuesWith (o : OpenBlock) (n : Node) : Bool :=
  n.callers.isEmpty && !n.isPlaceholder && n.start.toNat == o.stopAt && n.start ∈ o.reached

/-- The block that a node belongs to: the one that is open, or a new one. -/
def blockFor (g : FlowGraph) (current : Option OpenBlock) (n : Node) : OpenBlock :=
  match current.filter (·.continuesWith n) with
  | some o => { o with stopAt := n.stopAt }
  | none =>
    { leader := n.start, reached := reach g.uncalledSuccessors [n.start], stopAt := n.stopAt }

/-- Put nodes into blocks, one after the other. -/
def divide (g : FlowGraph) (b : Blocks) (current : Option OpenBlock) : List Node → Blocks
  | [] => b
  | n :: rest =>
    let o := g.blockFor current n
    g.divide (b.join o.leader n) (some o) rest

/-- The blocks of a flow graph. -/
def blocks (g : FlowGraph) : Blocks := g.divide {} none g.toList

end FlowGraph

end Z80Atlas
