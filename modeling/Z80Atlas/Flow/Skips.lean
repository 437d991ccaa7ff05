import Std.Data.ExtTreeMap
import Z80Atlas.Instruction

/-!
# Where control goes after an instruction

A call or branch may be followed by data that the program steps over.  A skip at an address says how
many bytes of data stand there; skips may follow each other.  `Skips.onward` says which addresses
control can reach from an instruction.
-/

namespace Z80Atlas

/-- The bytes of data to step over, by the address where they stand. -/
structure Skips where
  lengths : Std.ExtTreeMap Address Nat := ∅

/-- What happens after an instruction. -/
inductive Course
  /-- The following instruction is next. -/
  | onward
  /-- A subroutine is called, and control comes back behind the instruction. -/
  | call (target : Address)
  /-- Control goes to the target, or behind the instruction if `falls`. -/
  | branch (target : Address) (falls : Bool)
  /-- Control goes back to the caller, or to the following instruction if `falls`. -/
  | ret (falls : Bool)
  /-- Control goes to an unknown place. -/
  | stop
deriving DecidableEq

/-- What happens after the instruction. -/
def Instruction.course (i : Instruction) : Course :=
  match i.branchTarget? with
  | some target => if i.effects.call then .call target else .branch target !i.effects.stop
  | none =>
    if i.effects.ret then .ret i.effects.conditional else if i.effects.stop then .stop else .onward

theorem Instruction.call_of_course (i : Instruction) {target : Address}
    (h : i.course = .call target) : i.effects.call = true := by
  unfold Instruction.course at h
  split at h
  · split at h
    next hcall => exact hcall
    next => cases h
  · split at h
    · cases h
    · split at h <;> cases h

/-- Where control goes from an instruction: to addresses that have to be looked at, and straight
on. -/
structure Onward where
  /-- The addresses to look at, in order. -/
  targets : List Address := []
  /-- The address at which the same walk goes on. -/
  next : Option Address := none

namespace Skips

/-- Say that `length` bytes of data stand at an address. -/
def set (s : Skips) (a : Address) (length : Nat) : Skips := ⟨s.lengths.insert a length⟩

/-- The first address from `a` on where no data is stepped over. -/
def landing (s : Skips) (a : Address) : Option Address :=
  match s.lengths[a]? with
  | none => some a
  | some length =>
    if 0 < length then
      match _h : Address.after? a length with
      | some b => s.landing b
      | none => none
    else some a
termination_by 65536 - a.toNat
decreasing_by
  have := Address.after?_eq_some_iff.mp _h
  have := b.toNat_lt
  omega

/-- Where control comes back to, or goes on, behind an instruction. -/
def landingAfter (s : Skips) (i : Instruction) : Option Address := i.next?.bind s.landing

/-- Where control goes from an instruction.  A walk goes straight on behind a call only if nothing
is stepped over. -/
def onward (s : Skips) (i : Instruction) : Onward :=
  match i.course with
  | .onward => { next := i.next? }
  | .call target =>
    if (s.landingAfter i).isSome && s.landingAfter i = i.next? then
      { targets := [target], next := i.next? }
    else { targets := target :: (s.landingAfter i).toList }
  | .branch target falls =>
    { targets := target :: (if falls then (s.landingAfter i).toList else []) }
  | .ret falls => { targets := if falls then i.next?.toList else [] }
  | .stop => {}

theorem next_onward {s : Skips} {i : Instruction} {a : Address} (h : (s.onward i).next = some a) :
    i.next? = some a := by
  unfold onward at h
  split at h
  · exact h
  · split at h
    · exact h
    · simp at h
  all_goals simp at h

theorem length_targets_onward (s : Skips) (i : Instruction) : (s.onward i).targets.length ≤ 2 := by
  have hn : i.next?.toList.length ≤ 1 := by cases i.next? <;> simp
  unfold onward
  split
  · simp
  · split <;> simp
  · split <;> simp
  · dsimp only
    split
    · omega
    · simp
  · simp

end Skips

end Z80Atlas
