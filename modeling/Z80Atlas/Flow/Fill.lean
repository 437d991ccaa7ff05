import Z80Atlas.Flow.Discover

/-!
# Naming and filling nodes

Nodes start where walks started, where code that was claimed before is joined, and where an
instruction has a name.  Filling a node collects its instructions up to a decision about the flow of
control, and adds the edges that leave it.  A branch target that is no instruction yet has a node
made for it if it was claimed; a target that was not loaded gets an empty node, which stays empty.
-/

namespace Z80Atlas

/-- Names, by address. -/
abbrev NameTable := Std.ExtTreeMap Address String

/-- What has been collected for a node. -/
structure Draft where
  instructions : Array Instruction := #[]
  length : Nat := 0
  dataRefs : Array Address := #[]
  callee : Option Address := none
  /-- Whether there is a call among the instructions. -/
  calls : Bool := false
  /-- Where control leaves to. -/
  edges : Array Address := #[]
  stop : Bool := false
  /-- Whether there is a return among the instructions. -/
  returns : Bool := false

/-- Put an instruction at the end. -/
def Draft.push (d : Draft) (i : Instruction) : Draft :=
  { d with instructions := d.instructions.push i, length := d.length + i.length }

/-- Have control leave to an address. -/
def Draft.leave (d : Draft) (a : Address) : Draft := { d with edges := d.edges.push a }

/-- How many calls can still be put into the node. -/
def Draft.room (d : Draft) : Nat := if d.calls then 0 else 1

namespace Survey

/-! ### Names -/

/-- Give a name to the instruction at an address if there is one, and otherwise to the address. -/
def seedName (r : Survey × NameTable) (a : Address) (name : String) : Survey × NameTable :=
  if (r.1.memory.marks a).opening then
    ({ r.1 with graph := (r.1.graph.ensure a).modify a fun n => { n with label := some name } },
      r.2)
  else (r.1, r.2.insert a name)

/-- Start a node at every named instruction.  The names that are left over come back. -/
def seed (s : Survey) (names : NameTable) : Survey × NameTable :=
  names.toList.foldl (fun r p => seedName r p.1 p.2) (s, ∅)

/-! ### Targets -/

/-- Have a node start at an address, to be filled later. -/
def await (s : Survey) (a : Address) : Survey :=
  { s with graph := s.graph.ensure a, pending := s.pending.push a }

/-- Have an empty node stand for a target that was not loaded. -/
def reserve (s : Survey) (a : Address) : Survey :=
  { s.note (.unassignedAt a) with graph := s.graph.ensure a, filled := s.filled.insert a }

/-- The node for a branch target, if there can be one. -/
def resolve (s : Survey) (target : Address) : Survey × Option Address :=
  if s.graph.contains target then (s, some target)
  else if (s.memory.marks target).opening then (s.await target, some target)
  else if (s.memory.marks target).traced || s.memory.isLoaded s.variant target then
    (s.note (.ambiguousAt target), none)
  else (s.reserve target, some target)

/-- Have control leave to a branch target. -/
def link (s : Survey) (d : Draft) (target : Address) : Survey × Draft :=
  let r := s.resolve target
  match r.2 with
  | some a => (r.1, d.leave a)
  | none => (r.1, d)

/-- Have control leave to a branch target, if there is one. -/
def linkAll (s : Survey) (d : Draft) : Option Address → Survey × Draft
  | some target => s.link d target
  | none => (s, d)

/-! ### Filling -/

/-- Note the data that an instruction refers to. -/
def noteData (s : Survey) (d : Draft) (i : Instruction) : Survey × Draft :=
  match i.kind, i.target? with
  | .data, some a =>
    ({ s with memory := s.memory.mark a.toNat 1 { data := true } },
      { d with dataRefs := addOnce d.dataRefs (s.memory.referent a) })
  | _, _ => (s, d)

/-- Follow the flow of control from the last instruction of a draft, and say whether it goes
straight on. -/
def follow (s : Survey) (d : Draft) (i : Instruction) : (Survey × Draft) × Bool :=
  match i.course with
  | .onward => ((s, d), true)
  | .call target =>
    let r := s.resolve target
    let d := { d with calls := true, callee := r.2.or d.callee }
    match s.skips.landingAfter i with
    | some a =>
      if some a = i.next? && (s.memory.marks a).opening then ((r.1, d), true)
      else (r.1.link d a, false)
    | none => ((r.1, d), false)
  | .branch target falls =>
    let r := s.link d target
    if falls then (r.1.linkAll r.2 (s.skips.landingAfter i), false)
    else ((r.1, { r.2 with stop := true }), false)
  | .ret falls =>
    let s := { s with memory := s.memory.mark i.address.toNat 1 { returns := true } }
    let d := { d with returns := true }
    if falls then (s.linkAll d i.next?, false) else ((s, { d with stop := true }), false)
  | .stop => ((s, { d with stop := true }), false)

/-- Collect an instruction, and say whether control goes straight on. -/
def collect (s : Survey) (d : Draft) (i : Instruction) : (Survey × Draft) × Bool :=
  let r := s.noteData d i
  r.1.follow (r.2.push i) i

/-- Collect instructions from `a` on for the node that starts at `start`.  Another node, or a second
call, ends it. -/
def fillFrom (s : Survey) (start a : Address) (d : Draft) : Survey × Draft :=
  if a ≠ start && s.graph.contains a then (s, d.leave a)
  else if !(s.memory.marks a).opening then (s, d)
  else if (s.decode a).effects.call && d.calls then (s.await a, d.leave a)
  else
    let r := s.collect d (s.decode a)
    match _h : (s.decode a).next? with
    | some b => if r.2 then r.1.1.fillFrom start b r.1.2 else r.1
    | none => r.1
termination_by 65536 - a.toNat
decreasing_by
  have hb := Address.after?_eq_some_iff.mp _h
  have hl := s.length_decode_pos a
  rw [address_decode] at hb
  have := b.toNat_lt
  omega

/-- Put what has been collected into the node. -/
def settle (s : Survey) (start : Address) (d : Draft) : Survey :=
  let g := s.graph.modify start fun n =>
    { n with
      length := d.length
      instructions := d.instructions
      dataRefs := d.dataRefs
      stop := d.stop
      isSubroutine := n.isSubroutine || d.returns }
  let g := match d.callee with
    | some target => g.setCallee start target
    | none => g
  { s with graph := d.edges.foldl (fun g target => g.addBranch start target) g }

/-- Fill the node that starts at an address. -/
def fillNode (s : Survey) (start : Address) : Survey :=
  let r := s.fillFrom start start {}
  r.1.settle start r.2

/-- How many turns filling takes at most: a node that is filled has up to three others wait. -/
def workLeft (s : Survey) : Nat := 4 * s.filled.missing + s.pending.size

theorem workLeft_await (s : Survey) (a : Address) : (s.await a).workLeft = s.workLeft + 1 :=
  congrArg (4 * s.filled.missing + ·) (Queue.size_push ..)

theorem workLeft_reserve_le (s : Survey) (a : Address) : (s.reserve a).workLeft ≤ s.workLeft :=
  Nat.add_le_add_right (Nat.mul_le_mul_left 4 (AddressSet.missing_insert_le ..)) _

theorem workLeft_resolve_le (s : Survey) (a : Address) :
    (s.resolve a).1.workLeft ≤ s.workLeft + 1 := by
  unfold resolve
  split
  · exact Nat.le_succ _
  · split
    · exact Nat.le_of_eq (workLeft_await ..)
    · split
      · exact Nat.le_succ _
      · exact Nat.le_succ_of_le (workLeft_reserve_le ..)

theorem workLeft_link_le (s : Survey) (d : Draft) (a : Address) :
    (s.link d a).1.workLeft ≤ s.workLeft + 1 := by
  unfold link
  dsimp only
  split <;> exact workLeft_resolve_le ..

theorem workLeft_linkAll_le (s : Survey) (d : Draft) (a : Option Address) :
    (s.linkAll d a).1.workLeft ≤ s.workLeft + 1 := by
  cases a with
  | none => exact Nat.le_succ _
  | some a => exact workLeft_link_le ..

theorem workLeft_noteData (s : Survey) (d : Draft) (i : Instruction) :
    (s.noteData d i).1.workLeft = s.workLeft := by
  unfold noteData
  split <;> rfl

theorem calls_noteData (s : Survey) (d : Draft) (i : Instruction) :
    (s.noteData d i).2.calls = d.calls := by
  unfold noteData
  split <;> rfl

theorem workLeft_follow_le (s : Survey) (d : Draft) (i : Instruction) :
    (s.follow d i).1.1.workLeft ≤ s.workLeft + 2 := by
  unfold follow
  split
  · exact Nat.le_add_right ..
  · dsimp only
    split
    · split
      · exact Nat.le_succ_of_le (workLeft_resolve_le ..)
      · exact Nat.le_trans (workLeft_link_le ..) (Nat.succ_le_succ (workLeft_resolve_le ..))
    · exact Nat.le_succ_of_le (workLeft_resolve_le ..)
  · dsimp only
    split
    · exact Nat.le_trans (workLeft_linkAll_le ..) (Nat.succ_le_succ (workLeft_link_le ..))
    · exact Nat.le_succ_of_le (workLeft_link_le ..)
  · dsimp only
    split
    · exact Nat.le_succ_of_le (workLeft_linkAll_le ..)
    · exact Nat.le_add_right ..
  · exact Nat.le_add_right ..

/-- Going straight on is free, but for a call, and there is room for one only. -/
theorem workLeft_follow_of_straight {s : Survey} {d : Draft} {i : Instruction}
    (hroom : (i.effects.call && d.calls) = false) (h : (s.follow d i).2 = true) :
    (s.follow d i).1.1.workLeft + (s.follow d i).1.2.room ≤ s.workLeft + d.room := by
  cases hc : i.course with
  | onward =>
    simp only [follow, hc]
    exact Nat.le_refl _
  | call target =>
    rw [i.call_of_course hc, Bool.true_and] at hroom
    have hone : d.room = 1 := by
      unfold Draft.room
      rw [hroom]
      rfl
    simp only [follow, hc] at h ⊢
    split at h
    next a hland =>
      split at h
      next hnext =>
        rw [if_pos hnext, hone]
        exact workLeft_resolve_le ..
      next => cases h
    next => cases h
  | branch target falls => cases falls <;> simp [follow, hc] at h
  | ret falls => cases falls <;> simp [follow, hc] at h
  | stop => simp [follow, hc] at h

theorem workLeft_collect_le (s : Survey) (d : Draft) (i : Instruction) :
    (s.collect d i).1.1.workLeft ≤ s.workLeft + 2 := by
  have hfollow := workLeft_follow_le (s.noteData d i).1 ((s.noteData d i).2.push i) i
  rw [workLeft_noteData] at hfollow
  exact hfollow

theorem workLeft_collect_of_straight {s : Survey} {d : Draft} {i : Instruction}
    (hroom : (i.effects.call && d.calls) = false) (h : (s.collect d i).2 = true) :
    (s.collect d i).1.1.workLeft + (s.collect d i).1.2.room ≤ s.workLeft + d.room := by
  have hcalls : ((s.noteData d i).2.push i).calls = d.calls := calls_noteData ..
  have hsame : ((s.noteData d i).2.push i).room = d.room := by
    unfold Draft.room
    rw [hcalls]
  rw [← hcalls] at hroom
  have hfollow := workLeft_follow_of_straight hroom h
  rw [workLeft_noteData, hsame] at hfollow
  exact hfollow

theorem workLeft_fillFrom_le (s : Survey) (start a : Address) (d : Draft) :
    (s.fillFrom start a d).1.workLeft ≤ s.workLeft + d.room + 2 := by
  have hlast : ∀ {s s' : Survey} {d : Draft}, s'.workLeft ≤ s.workLeft + 2 →
      s'.workLeft ≤ s.workLeft + d.room + 2 := by
    intro s s' d h
    omega
  fun_induction fillFrom s start a d with
  | case1 => exact hlast (Nat.le_add_right ..)
  | case2 => exact hlast (Nat.le_add_right ..)
  | case3 => exact hlast (Nat.le_succ_of_le (Nat.le_of_eq (workLeft_await ..)))
  | case4 s a d _ _ hroom r b _ hgo ih =>
    have hstep := workLeft_collect_of_straight (Bool.eq_false_iff.mpr hroom) hgo
    exact Nat.le_trans ih (Nat.add_le_add_right hstep 2)
  | case5 => exact hlast (workLeft_collect_le ..)
  | case6 => exact hlast (workLeft_collect_le ..)

theorem workLeft_fillNode_le (s : Survey) (start : Address) :
    (s.fillNode start).workLeft ≤ s.workLeft + 3 :=
  workLeft_fillFrom_le s start start {}

section

variable {s : Survey} {a : Address} {rest : Queue Address} (h : s.pending.pop? = some (a, rest))
include h

theorem workLeft_pop_lt : { s with pending := rest }.workLeft < s.workLeft := by
  have hsize := Queue.size_of_pop? h
  simp only [workLeft]
  omega

theorem workLeft_fillNode_lt (ha : a ∉ s.filled) :
    ({ s with pending := rest, filled := s.filled.insert a }.fillNode a).workLeft < s.workLeft := by
  have hfill := workLeft_fillNode_le { s with pending := rest, filled := s.filled.insert a } a
  have hsize := Queue.size_of_pop? h
  have hmissing := AddressSet.missing_insert_lt ha
  simp only [workLeft] at hfill ⊢
  omega

end

/-- Fill the nodes that are waiting, and those that come up on the way. -/
def fillPending (s : Survey) : Survey :=
  match _h : s.pending.pop? with
  | none => s
  | some (a, rest) =>
    if _ha : a ∈ s.filled then { s with pending := rest }.fillPending
    else ({ s with pending := rest, filled := s.filled.insert a }.fillNode a).fillPending
termination_by s.workLeft
decreasing_by
  · exact workLeft_pop_lt _h
  · exact workLeft_fillNode_lt _h _ha

/-- Fill every node that has not been filled. -/
def fill (s : Survey) : Survey :=
  { s with pending := s.pending.append s.graph.addresses }.fillPending

/-! ### The whole survey -/

/-- Discover code from the entries, start nodes at the names, and fill all nodes.  The names of
other places come back. -/
def chart (s : Survey) (entries : List Address) (names : NameTable) : Survey × NameTable :=
  let r := (s.discover entries).seed names
  (r.1.fill, r.2)

end Survey

end Z80Atlas
