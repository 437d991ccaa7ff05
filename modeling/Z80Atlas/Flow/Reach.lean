import Z80Atlas.Space

/-!
# What can be reached

The addresses that can be reached from some addresses by any number of steps.
-/

namespace Z80Atlas

theorem notMem_of_dropWhile {seen : AddressSet} {pending rest : List Address} {a : Address}
    (h : pending.dropWhile (· ∈ seen) = a :: rest) : a ∉ seen := by
  have hhead := List.head?_dropWhile_not (fun x => decide (x ∈ seen)) pending
  rw [h] at hhead
  exact of_decide_eq_false hhead

/-- Add to `seen` the addresses in `pending` and all that can be reached from them by steps of
`next`, where nothing has to be done for the addresses that have been seen. -/
def spread (next : Address → List Address) (seen : AddressSet) (pending : List Address) :
    AddressSet :=
  match _h : pending.dropWhile (· ∈ seen) with
  | [] => seen
  | a :: rest => spread next (seen.insert a) (next a ++ rest)
termination_by seen.missing
decreasing_by exact AddressSet.missing_insert_lt (notMem_of_dropWhile _h)

/-- The addresses that can be reached from the given ones by steps of `next`. -/
def reach (next : Address → List Address) (starts : List Address) : AddressSet :=
  spread next .empty starts

end Z80Atlas
