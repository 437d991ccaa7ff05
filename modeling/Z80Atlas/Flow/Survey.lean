import Z80Atlas.Flow.Diagnostics
import Z80Atlas.Flow.Graph
import Z80Atlas.Flow.Queue
import Z80Atlas.Flow.Skips
import Z80Atlas.Instruction.Decode

/-!
# The state of a survey

A survey finds the code in a memory image and arranges it as a flow graph.  It first discovers
instructions, then starts nodes at the places that have been named, and last fills the nodes.  This
module holds the state that the three share and the questions they ask of the memory.
-/

namespace Z80Atlas

namespace Memory

/-- How many addresses have not been visited. -/
def untraced (m : Memory) : Nat := m.marking.count (!·.traced)

/-- Whether `n` bytes from `a` on have all been loaded. -/
def allAssigned (m : Memory) (a : Address) : (n : Nat) → Bool
  | 0 => true
  | n + 1 => (m.marks a).assigned && m.allAssigned (a + 1) n

/-- Whether the instruction at an address has been loaded as a whole. -/
def isLoaded (m : Memory) (v : Opcode.Variant) (a : Address) : Bool :=
  a.toNat + (m.decode v a).length ≤ 65536 && m.allAssigned a (m.decode v a).length

/-- Claim the bytes of an instruction. -/
def claim (m : Memory) (i : Instruction) : Memory :=
  (m.mark i.address.toNat i.length { traced := true, code := true }).mark i.address.toNat 1
    { opening := true }

/-- The longest instruction has so many bytes. -/
def longestInstruction : Nat := 4

/-- Where the instruction stands that has a byte at `a`. -/
def instructionAt? (m : Memory) (a : Address) : Option Address :=
  m.openingBefore a (longestInstruction - 1)

/-- What a reference to data at `a` refers to: in code, the instruction that it hits. -/
def referent (m : Memory) (a : Address) : Address :=
  if (m.marks a).code then (m.instructionAt? a).getD a else a

theorem untraced_mark_le (m : Memory) (start length : Nat) (k : Marks) :
    (m.mark start length k).untraced ≤ m.untraced := by
  unfold mark modifyMarks untraced
  split
  · exact Space.count_modifyFrom_le _ (by intro v; cases hv : v.traced <;> simp [hv]) _ _
  · exact Nat.le_refl _

theorem untraced_mark_lt {m : Memory} {a : Address} {length : Nat} {k : Marks}
    (ha : (m.marks a).traced = false) (hl : 0 < length) (hk : k.traced = true) :
    (m.mark a.toNat length k).untraced < m.untraced := by
  have hlt := a.toNat_lt
  obtain ⟨n, hn⟩ : ∃ n, min length (65536 - a.toNat) = n + 1 :=
    ⟨min length (65536 - a.toNat) - 1, by omega⟩
  unfold mark modifyMarks untraced
  rw [if_pos hlt, hn, UInt16.ofNat_toNat, Space.modifyFrom]
  refine Nat.lt_of_le_of_lt
    (Space.count_modifyFrom_le _ (by intro v; cases hv : v.traced <;> simp [hv]) _ _) ?_
  have hc := Space.count_modify m.marking (!·.traced) (· ∪ k) a
  have ha' : (m.marking.get a).traced = false := ha
  simp only [Marks.traced_union, ha', hk] at hc
  simp at hc
  omega

theorem untraced_claim_lt {m : Memory} {i : Instruction} (ha : (m.marks i.address).traced = false)
    (hl : 0 < i.length) : (m.claim i).untraced < m.untraced :=
  Nat.lt_of_le_of_lt (untraced_mark_le ..) (untraced_mark_lt ha hl rfl)

end Memory

/-- The state of a survey. -/
structure Survey where
  memory : Memory
  variant : Opcode.Variant := .z80
  skips : Skips := {}
  graph : FlowGraph := {}
  diagnostics : Diagnostics := {}
  /-- Nodes to fill. -/
  pending : Queue Address := {}
  /-- Nodes that have been filled, or are not to be. -/
  filled : AddressSet := .empty

namespace Survey

/-- The instruction at an address. -/
def decode (s : Survey) (a : Address) : Instruction := s.memory.decode s.variant a

/-- Have a node start at an address. -/
def ensure (s : Survey) (a : Address) : Survey := { s with graph := s.graph.ensure a }

/-- Add a diagnostic. -/
def note (s : Survey) (d : Diagnostic) : Survey := { s with diagnostics := s.diagnostics.add d }

@[simp] theorem memory_ensure (s : Survey) (a : Address) : (s.ensure a).memory = s.memory := rfl

@[simp] theorem memory_note (s : Survey) (d : Diagnostic) : (s.note d).memory = s.memory := rfl

@[simp] theorem address_decode (s : Survey) (a : Address) : (s.decode a).address = a := rfl

theorem length_decode_pos (s : Survey) (a : Address) : 0 < (s.decode a).length :=
  s.memory.length_decode_pos s.variant a

end Survey

end Z80Atlas
