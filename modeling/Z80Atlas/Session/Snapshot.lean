import Z80Atlas.Json
import Z80Atlas.Session

/-!
# Snapshots

All that an analysis found out, as a JSON value for other programs.
-/

namespace Z80Atlas

open Json (ofNat ofOption ofList)

/-- An address as a number. -/
def Address.toJson (a : Address) : Json := ofNat a.toNat

/-- The name under which a kind of diagnostic is exported. -/
def DiagnosticKind.exportName : DiagnosticKind → String
  | .ambiguous => "AmbiguousDisassembly"
  | .unassigned => "UnassignedMemory"
  | .differentBank => "DifferentBank"

/-- A diagnostic as an object. -/
def Diagnostic.toJson (d : Diagnostic) : Json :=
  .object [
    ("address", d.address.toJson), ("kind", .string d.kind.exportName),
    ("message", .string d.message)]

/-- A node as an object, with the given texts of its instructions. -/
def Node.toJson (n : Node) (texts : List String) : Json :=
  .object [
    ("start", n.start.toJson),
    ("length", ofNat n.length),
    ("label", ofOption .string n.label),
    ("is_subroutine", .bool n.isSubroutine),
    ("stop", .bool n.stop),
    ("branch_nodes", ofList Address.toJson n.successors.toList),
    ("predecessors", ofList Address.toJson n.predecessors.toList),
    ("callee", ofOption Address.toJson n.callee),
    ("callers", ofList Address.toJson n.callers.toList),
    ("data_refs", ofList Address.toJson n.dataRefs.toList),
    ("instructions", ofList .string texts)]

/-- All that the last analysis found out. -/
def Session.snapshot (s : Session) : Json :=
  .object [
    ("nodes", ofList (fun n => n.toJson (s.names.renderNode s.settings n)) s.atlas.graph.toList),
    ("blocks", ofList Address.toJson s.atlas.blocks.leaders),
    ("other_labels", .object (s.atlas.other.toList.map fun p => (toString p.1.toNat, .string p.2))),
    ("diagnostics", ofList Diagnostic.toJson s.atlas.diagnostics.sorted)]

end Z80Atlas
