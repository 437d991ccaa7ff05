import Z80Atlas.Instruction.Render
import Z80Atlas.Naming.Assign

/-!
# Looking names up

A name that was given from outside wins over the label of a node, and that over the name of data.  A
place inside of an instruction is named after the instruction.  Within a block the names of its
nodes are shortened to their local part.
-/

namespace Z80Atlas

/-- All that names are looked up in. -/
structure Names where
  /-- Names that were given from outside. -/
  external : NameTable
  graph : FlowGraph
  /-- Names of data, and names from outside that are not at an instruction. -/
  other : NameTable
  blocks : Blocks
  memory : Memory

namespace Names

/-- The name given to an address. -/
def given? (ns : Names) (a : Address) : Option String :=
  ns.external[a]?.or ((ns.graph.labelAt? a).or ns.other[a]?)

/-- The name of an address, or of the instruction around it with the distance from there. -/
def best? (ns : Names) (a : Address) : Option String :=
  match ns.given? a with
  | some name => some name
  | none =>
    if (ns.memory.marks a).code && !(ns.memory.marks a).opening then do
      let start ← ns.memory.instructionAt? a
      let name ← ns.given? start
      return name ++ "+" ++ toString (a.toNat - start.toNat)
    else none

/-- What is left of a name behind the name of its block, point included. -/
def localPart? (block name : String) : Option String :=
  match block.toList.isPrefixOf? name.toList with
  | some ('.' :: rest) => some (String.ofList ('.' :: rest))
  | _ => none

/-- The label of the block that covers an address. -/
def blockLabel? (ns : Names) (a : Address) : Option String :=
  (ns.blocks.leaderOf? a).bind ns.graph.labelAt?

/-- The name of an address as code at `source` writes it. -/
def scoped? (ns : Names) (a source : Address) : Option String :=
  (ns.best? a).map fun name =>
    if ns.blocks.together a source then ((ns.blockLabel? a).bind (localPart? · name)).getD name
    else name

/-- The name of an operand.  A constant is named only if it is an address that has a name itself. -/
def resolve (ns : Names) : Resolver := fun target kind source =>
  match kind with
  | .word | .wordBigEndian => ns.given? target
  | _ => ns.scoped? target source

end Names

end Z80Atlas
