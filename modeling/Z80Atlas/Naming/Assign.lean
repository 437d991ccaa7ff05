import Z80Atlas.Flow.Blocks
import Z80Atlas.Flow.Fill
import Z80Atlas.Settings

/-!
# Making up names

The first node of a block gets a global name if anything leads to it.  The other nodes of the block
get local names under it if control enters them other than by going on from the node before: loops
are told apart from the rest, and each group is numbered in ascending order.  Data that instructions
refer to gets a name with its address, and so does code that is referred to as data.  A name that is
there stays as it is.
-/

namespace Z80Atlas

namespace Stems

/-- The name of a place in the program. -/
def globalName (s : Stems) (a : Address) (isSubroutine : Bool) : String :=
  if isSubroutine then
    if a < 0x40 && a % 8 == 0 then s.restart ++ upperHex 2 a.toNat
    else s.subroutine ++ upperHex 4 a.toNat
  else s.target ++ upperHex 4 a.toNat

/-- The name of a node in a block that has no name. -/
def targetName (s : Stems) (a : Address) : String := s.target ++ upperHex 4 a.toNat

end Stems

/-- A name inside of a block. -/
def localName (block : String) (name : String) : String := block ++ "." ++ name

namespace FlowGraph

/-- The label of the node that starts at an address. -/
def labelAt? (g : FlowGraph) (a : Address) : Option String := (g.get? a).bind (·.label)

/-- Give a label to the node that starts at an address. -/
def setLabel (g : FlowGraph) (a : Address) (name : String) : FlowGraph :=
  g.modify a fun n => { n with label := some name }

/-! ### Global names -/

/-- Give a global name to a node that something leads to, unless it has a name. -/
def nameNode (stems : Stems) (n : Node) : Node :=
  if n.label.isNone && n.isReferenced then
    { n with label := some (stems.globalName n.start n.isSubroutine) }
  else n

/-- Name the first nodes of blocks. -/
def nameLeaders (g : FlowGraph) (b : Blocks) (stems : Stems) : FlowGraph :=
  b.leaders.foldl (fun g a => g.modify a (nameNode stems)) g

/-! ### Local names -/

/-- Why a node inside of a block needs a name. -/
inductive Role
  /-- Control comes back to it from further down in its block. -/
  | loop
  /-- Control enters it in some other way than by going on. -/
  | target
deriving DecidableEq

/-- The nodes from which control enters a node other than by going on. -/
def jumpsTo (g : FlowGraph) (n : Node) : List Address :=
  n.predecessors.toList.filter fun p => (g.get? p).any fun pred => !pred.fallsInto n

/-- Why a node without a name needs one. -/
def roleOf? (g : FlowGraph) (b : Blocks) (n : Node) : Option Role :=
  if n.label.isSome then none
  else if (g.jumpsTo n).any fun p => n.start ≤ p && b.together p n.start then some .loop
  else if !n.callers.isEmpty || !(g.jumpsTo n).isEmpty then some .target
  else none

/-- Those of some nodes that need a name for the given reason. -/
def withRole (g : FlowGraph) (b : Blocks) (role : Role) (nodes : List Address) : List Address :=
  nodes.filter fun a => (g.get? a).bind (g.roleOf? b) = some role

/-- Number some names from one on. -/
def numbered (stem : String) (nodes : List Address) : List (Address × String) :=
  (nodes.zipIdx 1).map fun p => (p.1, stem ++ toString p.2)

/-- The names for the loops of a block: a single one is not numbered. -/
def loopNames (stem : String) : List Address → List (Address × String)
  | [a] => [(a, stem)]
  | nodes => numbered stem nodes

/-- The names for the nodes of a block behind the first one. -/
def interiorNames (g : FlowGraph) (b : Blocks) (stems : Stems) (leader : Address)
    (members : List Address) :
    List (Address × String) :=
  let loops := g.withRole b .loop members.tail
  let targets := g.withRole b .target members.tail
  match g.labelAt? leader with
  | some block =>
    loopNames (localName block stems.loop) loops ++
      numbered (localName block stems.interior) targets
  | none => (loops ++ targets).map fun a => (a, stems.targetName a)

/-- Name the nodes of blocks behind the first ones. -/
def nameInteriors (g : FlowGraph) (b : Blocks) (stems : Stems) : FlowGraph :=
  let names := b.toList.flatMap fun p => g.interiorNames b stems p.1 p.2
  names.foldl (fun g p => g.setLabel p.1 p.2) g

/-! ### Names of data -/

/-- The name of data, or of code that is referred to as data. -/
def dataName (g : FlowGraph) (b : Blocks) (m : Memory) (stems : Stems) (a : Address) : String :=
  if (m.marks a).code then
    match (b.leaderOf? a).bind g.labelAt? with
    | some block => localName block (stems.code ++ upperHex 4 a.toNat)
    | none => stems.code ++ upperHex 4 a.toNat
  else stems.data ++ upperHex 4 a.toNat

/-- Name the data at an address, unless it has a name. -/
def nameDatum (g : FlowGraph) (b : Blocks) (m : Memory) (external : NameTable) (stems : Stems)
    (other : NameTable) (a : Address) : NameTable :=
  if external.contains a || other.contains a || (g.labelAt? a).isSome then other
  else other.insert a (g.dataName b m stems a)

/-- Name all data that instructions refer to. -/
def nameData (g : FlowGraph) (b : Blocks) (m : Memory) (external : NameTable) (stems : Stems)
    (other : NameTable) :
    NameTable :=
  (g.toList.flatMap (·.dataRefs.toList)).foldl (g.nameDatum b m external stems) other

/-! ### All names -/

/-- Name nodes and data. -/
def assignNames (g : FlowGraph) (b : Blocks) (m : Memory) (external : NameTable) (stems : Stems)
    (other : NameTable) :
    FlowGraph × NameTable :=
  let g := (g.nameLeaders b stems).nameInteriors b stems
  (g, g.nameData b m external stems other)

end FlowGraph

end Z80Atlas
