import Z80Atlas.Main
import Z80Atlas.Proofs.Additions
import Z80Atlas.Proofs.AddressText
import Z80Atlas.Proofs.Ambiguity
import Z80Atlas.Proofs.BranchOperands
import Z80Atlas.Proofs.CallGraph
import Z80Atlas.Proofs.Enclosing
import Z80Atlas.Proofs.Numbering
import Z80Atlas.Proofs.Partition
import Z80Atlas.Proofs.Placeholders
import Z80Atlas.Proofs.Rendering
import Z80Atlas.Proofs.Scope
import Z80Atlas.Proofs.Subroutines
import Z80Atlas.Proofs.Worklists
