/-!
# First in, first out

Work that is done in the order in which it came up.  A queue is what `toList` says: `push` puts an
element at the end of that list, `pop?` takes one off its front.
-/

namespace Z80Atlas

/-- A queue: the front in order, then the back in reverse. -/
structure Queue (α : Type) where
  front : List α := []
  back : List α := []

namespace Queue

variable {α : Type}

/-- The elements, next one first. -/
def toList (q : Queue α) : List α := q.front ++ q.back.reverse

/-- How many elements there are. -/
def size (q : Queue α) : Nat := q.front.length + q.back.length

/-- The queue with the given elements. -/
def ofList (xs : List α) : Queue α := { front := xs }

/-- Put an element at the end. -/
def push (q : Queue α) (a : α) : Queue α := { q with back := a :: q.back }

/-- Put elements at the end, one after the other. -/
def append (q : Queue α) (xs : List α) : Queue α := xs.foldl push q

/-- Take the next element off. -/
def pop? (q : Queue α) : Option (α × Queue α) :=
  match q.front with
  | a :: rest => some (a, { q with front := rest })
  | [] =>
    match q.back.reverse with
    | a :: rest => some (a, { front := rest })
    | [] => none

@[simp] theorem toList_ofList (xs : List α) : (ofList xs).toList = xs := by
  simp [ofList, toList]

@[simp] theorem toList_push (q : Queue α) (a : α) : (q.push a).toList = q.toList ++ [a] := by
  simp [push, toList]

@[simp] theorem size_push (q : Queue α) (a : α) : (q.push a).size = q.size + 1 := by
  simp only [push, size, List.length_cons]
  omega

@[simp] theorem toList_append (q : Queue α) (xs : List α) :
    (q.append xs).toList = q.toList ++ xs := by
  induction xs generalizing q with
  | nil => simp [append]
  | cons a rest ih =>
    have := ih (q.push a)
    simp only [append, List.foldl_cons] at this ⊢
    rw [this, toList_push, List.append_assoc, List.singleton_append]

theorem length_toList (q : Queue α) : q.toList.length = q.size := by
  simp [toList, size]

@[simp] theorem size_append (q : Queue α) (xs : List α) :
    (q.append xs).size = q.size + xs.length := by
  rw [← length_toList, toList_append, List.length_append, length_toList]

theorem toList_of_pop? {q rest : Queue α} {a : α} (h : q.pop? = some (a, rest)) :
    q.toList = a :: rest.toList := by
  unfold pop? at h
  split at h
  next hf =>
    simp only [Option.some.injEq, Prod.mk.injEq] at h
    obtain ⟨rfl, rfl⟩ := h
    simp [toList, hf]
  next hf =>
    split at h
    next hb =>
      simp only [Option.some.injEq, Prod.mk.injEq] at h
      obtain ⟨rfl, rfl⟩ := h
      simp [toList, hf, hb]
    next => simp at h

theorem toList_of_pop?_none {q : Queue α} (h : q.pop? = none) : q.toList = [] := by
  unfold pop? at h
  split at h
  · simp at h
  next hf =>
    split at h
    · simp at h
    next hb => simp [toList, hf, hb]

theorem size_of_pop? {q rest : Queue α} {a : α} (h : q.pop? = some (a, rest)) :
    q.size = rest.size + 1 := by
  rw [← length_toList, toList_of_pop? h, List.length_cons, length_toList]

end Queue

end Z80Atlas
