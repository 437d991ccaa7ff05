import Std.Data.ExtTreeSet
import Z80Atlas.Flow.Survey

/-!
# Discovering code

Code is discovered by walks.  A walk starts at an address and claims one instruction after the
other, as long as control goes straight on; the other places that control can reach are put in a
queue and walked later.  A walk ends where code has been claimed before, where nothing is loaded, or
where it would cut into a claimed instruction.

Each instruction is claimed once and puts at most two addresses into the queue, so the walks come to
an end (`Survey.walk_work`).
-/

namespace Z80Atlas

/-- What stands in the way of claiming some bytes. -/
inductive Obstacle
  /-- A byte is not loaded. -/
  | unassigned
  /-- A byte belongs to another instruction. -/
  | taken
deriving DecidableEq

/-- What stands in the way of claiming `n` bytes from `a` on: the first byte that is not free
decides. -/
def Memory.obstacle? (m : Memory) (a : Address) : (n : Nat) → Option Obstacle
  | 0 => none
  | n + 1 =>
    if !(m.marks a).assigned then some .unassigned
    else if (m.marks a).traced then some .taken
    else m.obstacle? (a + 1) n

/-- What a walk finds at an address. -/
inductive Finding
  /-- No instruction is loaded. -/
  | blank
  /-- An instruction that has been claimed starts here. -/
  | joined
  /-- The bytes belong to instructions with other starts. -/
  | overlap
  /-- A new instruction. -/
  | fresh (i : Instruction)

namespace Survey

/-- What a walk finds at an address. -/
def finding (s : Survey) (a : Address) : Finding :=
  if !(s.memory.marks a).assigned then .blank
  else if (s.memory.marks a).traced then
    if (s.memory.marks a).opening then .joined else .overlap
  else if 65536 < a.toNat + (s.decode a).length then .blank
  else match s.memory.obstacle? a (s.decode a).length with
    | none => .fresh (s.decode a)
    | some .unassigned => .blank
    | some .taken => .overlap

theorem finding_fresh {s : Survey} {a : Address} {i : Instruction} (h : s.finding a = .fresh i) :
    i = s.decode a ∧ (s.memory.marks a).traced = false := by
  unfold finding at h
  split at h
  · simp at h
  · split at h
    · split at h <;> simp at h
    next ht =>
      split at h
      · simp at h
      · split at h
        · exact ⟨(Finding.fresh.inj h).symm, by simpa using ht⟩
        · simp at h
        · simp at h

/-- Claim an instruction; the first one of a walk starts a node. -/
def enter (s : Survey) (start : Address) (i : Instruction) : Survey :=
  if i.address = start then { s with memory := s.memory.claim i, graph := s.graph.ensure start }
  else { s with memory := s.memory.claim i }

@[simp] theorem memory_enter (s : Survey) (start : Address) (i : Instruction) :
    (s.enter start i).memory = s.memory.claim i := by
  unfold enter
  split <;> rfl

/-- Walk on at `a`, in a walk from `start`; `queue` holds the addresses that are still to be
walked. -/
def walk (s : Survey) (start a : Address) (queue : Queue Address) : Survey × Queue Address :=
  match _hf : s.finding a with
  | .blank => (s, queue)
  | .joined => (s.ensure a, queue)
  | .overlap => (s.note (.ambiguousAt a), queue)
  | .fresh i =>
    match _hn : (s.skips.onward i).next with
    | none => (s.enter start i, queue.append (s.skips.onward i).targets)
    | some b => (s.enter start i).walk start b (queue.append (s.skips.onward i).targets)
termination_by 65536 - a.toNat
decreasing_by
  obtain ⟨rfl, -⟩ := finding_fresh _hf
  have hb := Address.after?_eq_some_iff.mp (Skips.next_onward _hn)
  have hl := s.length_decode_pos a
  rw [address_decode] at hb
  have := b.toNat_lt
  omega

/-- A walk adds no more than two addresses for each address that it visits. -/
theorem walk_work (s : Survey) (start a : Address) (queue : Queue Address) :
    2 * (s.walk start a queue).1.memory.untraced + (s.walk start a queue).2.size ≤
      2 * s.memory.untraced + queue.size := by
  fun_induction walk s start a queue with
  | case1 | case2 | case3 => simp
  | case4 s a queue i hf hn =>
    obtain ⟨rfl, ht⟩ := finding_fresh hf
    have hu := Memory.untraced_claim_lt (i := s.decode a) ht (s.length_decode_pos a)
    have hl := s.skips.length_targets_onward (s.decode a)
    simp only [memory_enter, Queue.size_append]
    omega
  | case5 s a queue i hf b hn ih =>
    obtain ⟨rfl, ht⟩ := finding_fresh hf
    have hu := Memory.untraced_claim_lt (i := s.decode a) ht (s.length_decode_pos a)
    have hl := s.skips.length_targets_onward (s.decode a)
    simp only [memory_enter, Queue.size_append] at ih
    omega

/-- Walk from every address in the queue. -/
def discoverFrom (s : Survey) (queue : Queue Address) : Survey :=
  match _h : queue.pop? with
  | none => s
  | some (a, rest) =>
    let r := s.walk a a rest
    r.1.discoverFrom r.2
termination_by 2 * s.memory.untraced + queue.size
decreasing_by
  have hw := s.walk_work a a rest
  have hs := Queue.size_of_pop? _h
  omega

/-- Discover the code that control can reach from the entries. -/
def discover (s : Survey) (entries : List Address) : Survey :=
  s.discoverFrom (.ofList (Std.ExtTreeSet.ofList entries).toList)

end Survey

end Z80Atlas
