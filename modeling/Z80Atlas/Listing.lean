import Z80Atlas.Naming.Names

/-!
# Listings

The program as text: a line for each name of a node and a line for each instruction, in ascending
order.
-/

namespace Z80Atlas

/-- A line of a listing. -/
inductive Line
  | label (address : Address) (name : String)
  | instruction (address : Address) (bytes : List Byte) (text : String)
deriving DecidableEq

/-- A text made at least `width` characters long by blanks at its end. -/
def padded (width : Nat) (s : String) : String :=
  s ++ String.ofList (List.replicate (width - s.length) ' ')

/-- The text of a line. -/
def Line.display : Line → String
  | .label _ name => name ++ ":"
  | .instruction address bytes text =>
    let hex := String.intercalate " " (bytes.map fun b => upperHex 2 b.toNat)
    "    " ++ upperHex 4 address.toNat ++ "  " ++ padded 12 hex ++ " " ++ text

namespace Names

/-- The texts of the instructions of a node. -/
def renderNode (ns : Names) (settings : Settings) (n : Node) : List String :=
  n.instructions.toList.map fun i => i.render ns.resolve settings

/-- The line of an instruction. -/
def instructionLine (ns : Names) (settings : Settings) (i : Instruction) : Line :=
  .instruction i.address (ns.memory.slice i.address i.length) (i.render ns.resolve settings)

/-- The lines of a node. -/
def nodeLines (ns : Names) (settings : Settings) (n : Node) : List Line :=
  ((ns.scoped? n.start n.start).map (.label n.start ·)).toList ++
    n.instructions.toList.map (ns.instructionLine settings)

/-- The lines of all nodes that have code. -/
def listing (ns : Names) (settings : Settings) : List Line :=
  (ns.graph.toList.filter (!·.isPlaceholder)).flatMap (ns.nodeLines settings)

end Names

end Z80Atlas
