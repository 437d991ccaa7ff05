import Z80Atlas.Proofs.Bodies
import Z80Atlas.Proofs.Passes
import Z80Atlas.Proofs.Walks

/-!
# The nodes that are filled

Filling is written down as the list of the nodes that were filled, each with the addresses that were
looked at for it.  An address is filled only if it has not been filled before, and stays filled.  A
node that is made on the way is put into the queue or counts as filled from the beginning, so that
in the end all nodes have been filled.
-/

namespace Z80Atlas

namespace FlowGraph

variable {g : FlowGraph} {a source target : Address}

theorem contains_addBranch_iff :
    (g.addBranch source target).contains a = true ↔
      g.contains a = true ∨ a = source ∨ a = target := by
  unfold addBranch
  rw [contains_modify, contains_modify, contains_ensure, contains_ensure, or_assoc]

theorem contains_setCallee_iff :
    (g.setCallee source target).contains a = true ↔
      g.contains a = true ∨ a = source ∨ a = target := by
  have hensure : ((g.ensure source).ensure target).contains a = true ↔
      g.contains a = true ∨ a = source ∨ a = target := by
    rw [contains_ensure, contains_ensure, or_assoc]
  unfold setCallee
  rw [contains_modify, contains_modify]
  split
  · split
    · exact hensure
    · rw [dropCaller, contains_modify]
      exact hensure
  · exact hensure

theorem contains_of_foldl_addBranch (targets : List Address) :
    (targets.foldl (fun g t => g.addBranch source t) g).contains a = true →
      g.contains a = true ∨ a = source ∨ a ∈ targets := by
  induction targets generalizing g with
  | nil => exact .inl
  | cons t rest ih =>
    intro h
    rcases ih h with hg | hs | hrest
    · rcases contains_addBranch_iff.mp hg with hg | hs | ht
      · exact .inl hg
      · exact .inr (.inl hs)
      · exact .inr (.inr (List.mem_cons.mpr (.inl ht)))
    · exact .inr (.inl hs)
    · exact .inr (.inr (List.mem_cons_of_mem t hrest))

end FlowGraph

namespace Survey

variable {m : Memory} {v : Opcode.Variant} {s s' : Survey} {start a t : Address} {d : Draft}

/-! ### Nodes that are dealt with -/

/-- The node at an address has been filled, or it is waiting. -/
def Handled (s : Survey) (a : Address) : Prop := a ∈ s.filled ∨ a ∈ s.pending.toList

/-- While a node is being filled, what was filled before stays filled, and all nodes and targets are
dealt with.  What is filled besides stands for a target where no instruction of the memory `m` was
claimed. -/
structure Accounted (m : Memory) (before : AddressSet) (r : Survey × Draft) : Prop where
  same : m.SameCode r.1.memory
  kept : ∀ a ∈ before, a ∈ r.1.filled
  reserved : ∀ a ∈ r.1.filled, a ∈ before ∨ (m.marks a).opening = false
  nodes : ∀ a, r.1.graph.contains a = true → r.1.Handled a
  edges : ∀ t ∈ r.2.edges, r.1.Handled t
  callee : ∀ t, r.2.callee = some t → r.1.Handled t

namespace Accounted

variable {before : AddressSet} {d' : Draft}

/-- Marks that do not concern the code, and changes of a draft other than its targets, make no
difference. -/
theorem alike (h : Accounted m before (s, d)) (hm : s.memory.SameCode s'.memory)
    (hf : s'.filled = s.filled) (hp : s'.pending = s.pending) (hg : s'.graph = s.graph)
    (he : d'.edges = d.edges) (hc : d'.callee = d.callee) :
    Accounted m before (s', d') := by
  have hhandled : ∀ a, s.Handled a → s'.Handled a := by
    intro a ha
    unfold Handled
    rw [hf, hp]
    exact ha
  refine ⟨h.same.trans hm, ?_, ?_, ?_, ?_, ?_⟩
  · intro a ha
    rw [hf]
    exact h.kept a ha
  · intro a ha
    rw [hf] at ha
    exact h.reserved a ha
  · intro a ha
    rw [hg] at ha
    exact hhandled a (h.nodes a ha)
  · intro t ht
    rw [he] at ht
    exact hhandled t (h.edges t ht)
  · intro t ht
    rw [hc] at ht
    exact hhandled t (h.callee t ht)

/-- A survey may make a node for a target that is dealt with. -/
theorem ensure (h : Accounted m before (s, d)) (hm : s'.memory = s.memory)
    (hg : s'.graph = s.graph.ensure t)
    (hf : ∀ a, a ∈ s'.filled → a ∈ s.filled ∨ (s.memory.marks a).opening = false)
    (hf' : ∀ a ∈ s.filled, a ∈ s'.filled) (hp : ∀ a ∈ s.pending.toList, a ∈ s'.pending.toList)
    (ht : s'.Handled t) : Accounted m before (s', d) := by
  have hhandled : ∀ a, s.Handled a → s'.Handled a := fun a ha => ha.imp (hf' a) (hp a)
  refine ⟨?_, fun a ha => hf' a (h.kept a ha), ?_, ?_, fun u hu => hhandled u (h.edges u hu),
    fun u hu => hhandled u (h.callee u hu)⟩
  · rw [hm]
    exact h.same
  · intro a ha
    rcases hf a ha with hold | hclosed
    · exact h.reserved a hold
    · rw [h.same.opening] at hclosed
      exact .inr hclosed
  · intro a ha
    rw [hg] at ha
    rcases FlowGraph.contains_ensure.mp ha with hold | rfl
    · exact hhandled a (h.nodes a hold)
    · exact ht

theorem await (h : Accounted m before (s, d)) (t : Address) :
    Accounted m before (s.await t, d) ∧ (s.await t).Handled t := by
  have hpending : (s.await t).pending.toList = s.pending.toList ++ [t] := Queue.toList_push ..
  have hself : (s.await t).Handled t := by
    refine .inr ?_
    rw [hpending]
    exact List.mem_append_right _ List.mem_cons_self
  refine ⟨h.ensure rfl rfl (fun _ ha => .inl ha) (fun _ ha => ha) ?_ hself, hself⟩
  intro a ha
  rw [hpending]
  exact List.mem_append_left _ ha

theorem reserve (h : Accounted m before (s, d)) (ht : (s.memory.marks t).opening = false) :
    Accounted m before (s.reserve t, d) ∧ (s.reserve t).Handled t := by
  have hself : (s.reserve t).Handled t := .inl (AddressSet.mem_insert.mpr (.inl rfl))
  refine ⟨h.ensure rfl rfl ?_ (fun a ha => AddressSet.mem_insert.mpr (.inr ha))
    (fun _ ha => ha) hself, hself⟩
  intro a ha
  rcases AddressSet.mem_insert.mp ha with rfl | hold
  · exact .inr ht
  · exact .inl hold

theorem resolve (h : Accounted m before (s, d)) (t : Address) :
    Accounted m before ((s.resolve t).1, d) ∧ ∀ u, (s.resolve t).2 = some u →
    (s.resolve t).1.Handled u := by
  have hsome : ∀ s' : Survey, s'.Handled t → ∀ u, some t = some u → s'.Handled u := by
    intro s' hs' u hu
    cases hu
    exact hs'
  unfold Survey.resolve
  split
  next hnode => exact ⟨h, hsome s (h.nodes t hnode)⟩
  next =>
    split
    · exact ⟨(h.await t).1, hsome _ (h.await t).2⟩
    next hclosed =>
      split
      · exact ⟨h.alike (.refl _) rfl rfl rfl rfl rfl, fun u hu => by cases hu⟩
      · have hreserve := h.reserve (Bool.eq_false_iff.mpr hclosed)
        exact ⟨hreserve.1, hsome _ hreserve.2⟩

theorem leave (h : Accounted m before (s, d)) (ht : s.Handled t) :
    Accounted m before (s, d.leave t) := by
  refine ⟨h.same, h.kept, h.reserved, h.nodes, ?_, h.callee⟩
  intro u hu
  rcases Array.mem_push.mp hu with hold | rfl
  · exact h.edges u hold
  · exact ht

theorem link (h : Accounted m before (s, d)) (t : Address) : Accounted m before (s.link d t) := by
  obtain ⟨hresolve, htarget⟩ := h.resolve t
  unfold Survey.link
  dsimp only
  split
  next u hu => exact hresolve.leave (htarget u hu)
  next => exact hresolve

theorem linkAll (h : Accounted m before (s, d)) (o : Option Address) :
    Accounted m before (s.linkAll d o) := by
  cases o with
  | none => exact h
  | some t => exact h.link t

theorem follow (h : Accounted m before (s, d)) (i : Instruction) :
    Accounted m before (s.follow d i).1 := by
  unfold Survey.follow
  cases i.course with
  | onward => exact h
  | call t =>
    obtain ⟨hresolve, htarget⟩ := h.resolve t
    have hcall : Accounted m before
        ((s.resolve t).1, { d with calls := true, callee := (s.resolve t).2.or d.callee }) := by
      refine ⟨hresolve.same, hresolve.kept, hresolve.reserved, hresolve.nodes, hresolve.edges, ?_⟩
      intro u hu
      rcases Option.or_eq_some_iff.mp hu with hnew | ⟨-, hold⟩
      · exact htarget u hnew
      · exact hresolve.callee u hold
    dsimp only
    split
    · split
      · exact hcall
      · exact hcall.link _
    · exact hcall
  | branch t falls =>
    have hlink := h.link t
    dsimp only
    split
    · exact hlink.linkAll _
    · exact hlink.alike (.refl _) rfl rfl rfl rfl rfl
  | ret falls =>
    have hmark : s.memory.SameCode (s.memory.mark i.address.toNat 1 { returns := true }) :=
      Memory.sameCode_mark _ _ _ rfl rfl rfl rfl
    have hret : Accounted m before
        ({ s with memory := s.memory.mark i.address.toNat 1 { returns := true } },
        { d with returns := true }) := h.alike hmark rfl rfl rfl rfl rfl
    dsimp only
    split
    · exact hret.linkAll _
    · exact hret.alike (.refl _) rfl rfl rfl rfl rfl
  | stop => exact h.alike (.refl _) rfl rfl rfl rfl rfl

theorem collect (h : Accounted m before (s, d)) (i : Instruction) :
    Accounted m before (s.collect d i).1 := by
  unfold Survey.collect
  refine follow ?_ i
  unfold noteData
  split
  · exact h.alike (Memory.sameCode_mark _ _ _ rfl rfl rfl rfl) rfl rfl rfl rfl rfl
  · exact h.alike (.refl _) rfl rfl rfl rfl rfl

theorem fillFrom (h : Accounted m before (s, d)) (start a : Address) :
    Accounted m before (s.fillFrom start a d) := by
  fun_induction Survey.fillFrom s start a d with
  | case1 s a d hnode =>
    rw [Bool.and_eq_true] at hnode
    exact h.leave (h.nodes a hnode.2)
  | case2 s a d _ _ => exact h
  | case3 s a d _ _ _ => exact (h.await a).1.leave (h.await a).2
  | case4 s a d _ _ _ r b _ _ ih => exact ih (h.collect _)
  | case5 s a d _ _ _ r b _ _ => exact h.collect _
  | case6 s a d _ _ _ r _ => exact h.collect _

theorem settle (h : Accounted m before (s, d)) (hstart : start ∈ before) :
    ∀ a, (s.settle start d).graph.contains a = true → (s.settle start d).Handled a := by
  intro a ha
  have hhandled : s.Handled a → (s.settle start d).Handled a := id
  have hself : s.Handled start := .inl (h.kept start hstart)
  apply hhandled
  rw [graph_settle] at ha
  rcases FlowGraph.contains_of_foldl_addBranch _ ha with hnode | rfl | hedge
  · cases hcallee : d.callee with
    | none =>
      rw [hcallee, FlowGraph.setCallee?, FlowGraph.contains_modify] at hnode
      exact h.nodes a hnode
    | some t =>
      rw [hcallee, FlowGraph.setCallee?, FlowGraph.contains_setCallee_iff,
        FlowGraph.contains_modify] at hnode
      rcases hnode with hold | rfl | rfl
      · exact h.nodes a hold
      · exact hself
      · exact h.callee a hcallee
  · exact hself
  · exact h.edges a (by simpa using hedge)

end Accounted

/-! ### One node -/

/-- The addresses that are looked at to fill a node. -/
def looks (s : Survey) (start a : Address) (d : Draft) : List Address :=
  if a ≠ start && s.graph.contains a then [a]
  else if !(s.memory.marks a).opening then [a]
  else if (s.decode a).effects.call && d.calls then [a]
  else
    let r := s.collect d (s.decode a)
    match _h : (s.decode a).next? with
    | some b => if r.2 then a :: r.1.1.looks start b r.1.2 else [a]
    | none => [a]
termination_by 65536 - a.toNat
decreasing_by
  have hb := Address.after?_eq_some_iff.mp _h
  have hl := s.length_decode_pos a
  rw [address_decode] at hb
  have := b.toNat_lt
  omega

theorem ascends_looks (s : Survey) (start a : Address) (d : Draft) :
    Ascends a (s.looks start a d) := by
  fun_induction looks s start a d with
  | case1 | case2 | case3 | case5 | case6 => exact .singleton _
  | case4 s a d _ _ _ r b hnext _ ih =>
    have hb := Address.after?_eq_some_iff.mp hnext
    have hl := s.length_decode_pos a
    rw [address_decode] at hb
    exact .cons (by omega) ih

/-- What is done about an address that is looked at for the node at `start`. -/
def glance (start : Address) (r : Survey × Draft) (a : Address) : Survey × Draft :=
  if a ≠ start && r.1.graph.contains a then (r.1, r.2.leave a)
  else if !(r.1.memory.marks a).opening then r
  else if (r.1.decode a).effects.call && r.2.calls then (r.1.await a, r.2.leave a)
  else (r.1.collect r.2 (r.1.decode a)).1

theorem glance_of_claimed (hnode : ¬(a ≠ start && s.graph.contains a) = true)
    (hopen : ¬(!(s.memory.marks a).opening) = true)
    (hcall : ¬((s.decode a).effects.call && d.calls) = true) :
    glance start (s, d) a = (s.collect d (s.decode a)).1 :=
  (if_neg hnode).trans ((if_neg hopen).trans (if_neg hcall))

/-- A node is filled by looking at one address after the other. -/
theorem fillFrom_eq_glance (s : Survey) (start a : Address) (d : Draft) :
    s.fillFrom start a d = (s.looks start a d).foldl (glance start) (s, d) := by
  fun_induction looks s start a d with
  | case1 s a d hnode =>
    rw [fillFrom, if_pos hnode]
    exact (if_pos hnode).symm
  | case2 s a d hnode hclosed =>
    rw [fillFrom, if_neg hnode, if_pos hclosed]
    exact ((if_neg hnode).trans (if_pos hclosed)).symm
  | case3 s a d hnode hopen hcall =>
    rw [fillFrom, if_neg hnode, if_neg hopen, if_pos hcall]
    exact ((if_neg hnode).trans ((if_neg hopen).trans (if_pos hcall))).symm
  | case4 s a d hnode hopen hcall r b hnext hon ih =>
    have hglance : glance start (s, d) a = r.1 := glance_of_claimed hnode hopen hcall
    rw [fillFrom, if_neg hnode, if_neg hopen, if_neg hcall, List.foldl_cons, hglance]
    dsimp only
    split
    next c hc =>
      obtain rfl : b = c := Option.some.inj (hnext.symm.trans hc)
      rw [if_pos hon]
      exact ih
    next hc => rw [hnext] at hc; cases hc
  | case5 s a d hnode hopen hcall r b hnext hon =>
    have hglance : glance start (s, d) a = r.1 := glance_of_claimed hnode hopen hcall
    rw [fillFrom, if_neg hnode, if_neg hopen, if_neg hcall, List.foldl_cons, hglance]
    dsimp only
    split
    · exact if_neg hon
    · rfl
  | case6 s a d hnode hopen hcall hnext =>
    rw [fillFrom, if_neg hnode, if_neg hopen, if_neg hcall, List.foldl_cons,
      glance_of_claimed hnode hopen hcall]
    dsimp only
    split
    next c hc => rw [hnext] at hc; cases hc
    next => rfl

theorem length_link (s : Survey) (d : Draft) (t : Address) : (s.link d t).2.length = d.length := by
  unfold link
  dsimp only
  split <;> rfl

theorem length_linkAll (s : Survey) (d : Draft) (o : Option Address) :
    (s.linkAll d o).2.length = d.length := by
  cases o with
  | none => rfl
  | some t => exact length_link s d t

theorem length_follow (s : Survey) (d : Draft) (i : Instruction) :
    (s.follow d i).1.2.length = d.length := by
  unfold follow
  cases i.course with
  | onward | stop => rfl
  | call t =>
    dsimp only
    split
    · split
      · rfl
      · exact length_link ..
    · rfl
  | branch t falls =>
    dsimp only
    split
    · rw [length_linkAll, length_link]
    · exact length_link ..
  | ret falls =>
    dsimp only
    split
    · exact length_linkAll ..
    · rfl

theorem length_collect (s : Survey) (d : Draft) (i : Instruction) :
    (s.collect d i).1.2.length = d.length + i.length := by
  unfold collect
  rw [length_follow]
  unfold noteData
  split <;> rfl

/-- The claimed instructions do not go past the top, so neither does a node. -/
theorem Cuts.length_fillFrom_le (h : Cuts m v s) (hd : start.toNat + d.length = a.toNat) :
    start.toNat + (s.fillFrom start a d).2.length ≤ 65536 := by
  fun_induction Survey.fillFrom s start a d with
  | case1 s a d _ | case2 s a d _ _ | case3 s a d _ _ _ =>
    have ha := a.toNat_lt
    show start.toNat + d.length ≤ 65536
    omega
  | case4 s a d _ ho _ r b hnext _ ih =>
    have hlength : r.1.2.length = d.length + (s.decode a).length := length_collect ..
    have hb := Address.after?_eq_some_iff.mp hnext
    rw [address_decode] at hb
    exact ih (h.collect (by simpa using ho) d) (by omega)
  | case5 s a d _ ho _ r b hnext _ =>
    have hlength : r.1.2.length = d.length + (s.decode a).length := length_collect ..
    have hb := Address.after?_eq_some_iff.mp hnext
    have hlt := b.toNat_lt
    rw [address_decode] at hb
    omega
  | case6 s a d _ ho _ r _ =>
    have hlength : r.1.2.length = d.length + (s.decode a).length := length_collect ..
    have hloaded := (h.parsed.loaded (by simpa using ho)).1
    have hdecode : s.decode a = s.memory.decode v a := by rw [Survey.decode, h.variant]
    rw [← hdecode] at hloaded
    omega

/-! ### All nodes -/

/-- A node as it was filled: the survey when its turn came, and where it starts. -/
structure FillLog where
  before : Survey
  start : Address

/-- The addresses that were looked at. -/
def FillLog.looks (f : FillLog) : List Address := f.before.looks f.start f.start {}

/-- The first position behind the instructions that were put into the node. -/
def FillLog.stopAt (f : FillLog) : Nat :=
  f.start.toNat + (f.before.fillFrom f.start f.start {}).2.length

/-- A survey that turns to the next waiting node. -/
def busy (s : Survey) (a : Address) (rest : Queue Address) : Survey :=
  { s with pending := rest, filled := s.filled.insert a }

/-- The nodes that are filled when the waiting ones are filled and those that come up on the way. -/
def fills (s : Survey) : List FillLog :=
  match _h : s.pending.pop? with
  | none => []
  | some (a, rest) =>
    if _ha : a ∈ s.filled then { s with pending := rest }.fills
    else { before := s.busy a rest, start := a } :: ((s.busy a rest).fillNode a).fills
termination_by s.workLeft
decreasing_by
  · exact workLeft_pop_lt _h
  · exact workLeft_fillNode_lt _h _ha

theorem fills_of_empty (h : s.pending.pop? = none) : s.fills = [] := by
  rw [fills]
  split
  next => rfl
  next hpop => rw [h] at hpop; cases hpop

theorem fills_of_filled {rest : Queue Address} (h : s.pending.pop? = some (a, rest))
    (ha : a ∈ s.filled) :
    s.fills = { s with pending := rest }.fills := by
  rw [fills]
  split
  next hpop => rw [h] at hpop; cases hpop
  next hpop =>
    rw [h] at hpop
    cases hpop
    rw [dif_pos ha]

theorem fills_of_new {rest : Queue Address} (h : s.pending.pop? = some (a, rest))
    (ha : a ∉ s.filled) :
    s.fills = { before := s.busy a rest, start := a } :: ((s.busy a rest).fillNode a).fills := by
  rw [fills]
  split
  next hpop => rw [h] at hpop; cases hpop
  next hpop =>
    rw [h] at hpop
    cases hpop
    rw [dif_neg ha]

/-- One survey comes from another by filling nodes that have not been filled, one after the other.
Nodes that have been filled may cease to wait at any time. -/
inductive Turns : Survey → List FillLog → Survey → Prop
  | nil (s : Survey) (rest : Queue Address) : Turns s [] { s with pending := rest }
  | cons {s s' : Survey} {a : Address} {logs : List FillLog} (rest : Queue Address)
      (ha : a ∉ s.filled) (h : Turns ((s.busy a rest).fillNode a) logs s') :
      Turns s ({ before := s.busy a rest, start := a } :: logs) s'

/-- What a turn does depends on the queue at that turn, not on what was waiting before. -/
theorem Turns.of_pending {rest : Queue Address} {logs : List FillLog}
    (h : Turns { s with pending := rest } logs s') :
    Turns s logs s' := by
  cases h with
  | nil _ rest' => exact .nil s rest'
  | cons rest' ha h => exact .cons rest' ha h

theorem Turns.stopAt_le {logs : List FillLog} (h : Turns s logs s') (hs : Cuts m v s) :
    ∀ f ∈ logs, f.stopAt ≤ 65536 := by
  induction h with
  | nil => exact List.forall_mem_nil _
  | @cons s s' a logs rest _ _ ih =>
    have hbusy : Cuts m v (s.busy a rest) := hs.of_memory rfl rfl
    intro f hf
    rcases List.mem_cons.mp hf with rfl | hf
    · exact hbusy.length_fillFrom_le rfl
    · exact ih ((hbusy.fillFrom a a {}).of_memory rfl rfl) f hf

/-- All nodes have been filled or are waiting. -/
def Tended (s : Survey) : Prop := ∀ a, s.graph.contains a = true → s.Handled a

/-- The next waiting node need not wait any more once it counts as filled. -/
theorem Tended.next {rest : Queue Address} (h : s.Tended) (hpop : s.pending.pop? = some (a, rest))
    (hp : s'.pending = rest) (hg : s'.graph = s.graph) (ha : a ∈ s'.filled)
    (hf : ∀ b ∈ s.filled, b ∈ s'.filled) :
    s'.Tended := by
  intro b hb
  rw [hg] at hb
  rcases h b hb with hfilled | hwaiting
  · exact .inl (hf b hfilled)
  · rw [Queue.toList_of_pop? hpop] at hwaiting
    rcases List.mem_cons.mp hwaiting with rfl | hrest
    · exact .inl ha
    · exact .inr (by rw [hp]; exact hrest)

/-- Filling a node keeps what is filled, and reserves targets where no instruction was claimed. -/
theorem Tended.fillNode (h : s.Tended) (hstart : start ∈ s.filled) :
    (s.fillNode start).Tended ∧ s.memory.SameCode (s.fillNode start).memory ∧
      (∀ a ∈ s.filled, a ∈ (s.fillNode start).filled) ∧
      ∀ a ∈ (s.fillNode start).filled, a ∈ s.filled ∨ (s.memory.marks a).opening = false := by
  have hbegin : Accounted s.memory s.filled (s, {}) :=
    ⟨.refl _, fun _ ha => ha, fun _ ha => .inl ha, h, by simp, by simp⟩
  have hend := hbegin.fillFrom start start
  exact ⟨hend.settle hstart, hend.same, hend.kept, hend.reserved⟩

/-- The nodes `logs` are filled on the way from `s` to `s'`, where nothing is waiting and all nodes
are filled.  Each address is filled at most once, and not again if it had been filled before; what
is filled besides stands for a target where no instruction was claimed. -/
structure Drained (s : Survey) (logs : List FillLog) (s' : Survey) : Prop where
  made : Turns s logs s'
  idle : s'.pending.toList = []
  nodes : ∀ a, s'.graph.contains a = true → a ∈ s'.filled
  once : (logs.map (·.start)).Nodup
  fresh : ∀ f ∈ logs, f.start ∉ s.filled
  filled : ∀ f ∈ logs, f.start ∈ s'.filled
  kept : ∀ a ∈ s.filled, a ∈ s'.filled
  reserved : ∀ a ∈ s'.filled, a ∈ s.filled ∨ a ∈ logs.map (·.start) ∨
    (s.memory.marks a).opening = false

theorem Drained.of_pending {rest : Queue Address} {logs : List FillLog}
    (h : Drained { s with pending := rest } logs s') :
    Drained s logs s' :=
  ⟨h.made.of_pending, h.idle, h.nodes, h.once, h.fresh, h.filled, h.kept, h.reserved⟩

theorem Tended.drained_nil (h : s.Tended) (hpop : s.pending.pop? = none) : Drained s [] s := by
  have hidle : s.pending.toList = [] := Queue.toList_of_pop?_none hpop
  refine ⟨.nil s s.pending, hidle, ?_,
    List.nodup_nil, by simp, by simp, fun _ ha => ha, fun _ ha => .inl ha⟩
  intro a ha
  rcases h a ha with hfilled | hwaiting
  · exact hfilled
  · rw [hidle] at hwaiting
    cases hwaiting

theorem Tended.drained_cons {rest : Queue Address} {logs : List FillLog}
    (h : (s.busy a rest).Tended) (ha : a ∉ s.filled)
    (hrest : Drained ((s.busy a rest).fillNode a) logs s') :
    Drained s ({ before := s.busy a rest, start := a } :: logs) s' := by
  have hself : a ∈ (s.busy a rest).filled := AddressSet.mem_insert.mpr (.inl rfl)
  have hbusy : ∀ b ∈ s.filled, b ∈ (s.busy a rest).filled :=
    fun b hb => AddressSet.mem_insert.mpr (.inr hb)
  obtain ⟨-, hsame, hgrown, hreserved⟩ := h.fillNode hself
  refine ⟨.cons rest ha hrest.made, hrest.idle, hrest.nodes, List.nodup_cons.mpr ⟨?_, hrest.once⟩,
    ?_, ?_, ?_, ?_⟩
  · intro hmem
    obtain ⟨f, hf, heq⟩ := List.mem_map.mp hmem
    have hstart : f.start = a := heq
    refine hrest.fresh f hf ?_
    rw [hstart]
    exact hgrown a hself
  · intro f hf
    rcases List.mem_cons.mp hf with rfl | hf
    · exact ha
    · exact fun hold => hrest.fresh f hf (hgrown _ (hbusy _ hold))
  · intro f hf
    rcases List.mem_cons.mp hf with rfl | hf
    · exact hrest.kept a (hgrown a hself)
    · exact hrest.filled f hf
  · intro b hb
    exact hrest.kept b (hgrown b (hbusy b hb))
  · intro b hb
    rw [List.map_cons, List.mem_cons]
    rcases hrest.reserved b hb with hnode | hlogs | hclosed
    · rcases hreserved b hnode with hfilled | hclosed
      · rcases AddressSet.mem_insert.mp hfilled with rfl | hold
        · exact .inr (.inl (.inl rfl))
        · exact .inl hold
      · exact .inr (.inr hclosed)
    · exact .inr (.inl (.inr hlogs))
    · rw [hsame.opening] at hclosed
      exact .inr (.inr hclosed)

theorem Tended.drained (h : s.Tended) : Drained s s.fills s.fillPending := by
  fun_induction fillPending s with
  | case1 s hpop =>
    rw [fills_of_empty hpop]
    exact h.drained_nil hpop
  | case2 s a rest hpop ha ih =>
    rw [fills_of_filled hpop ha]
    exact (ih (h.next hpop rfl rfl ha fun _ hb => hb)).of_pending
  | case3 s a rest hpop ha ih =>
    have hself : a ∈ (s.busy a rest).filled := AddressSet.mem_insert.mpr (.inl rfl)
    have hbusy : (s.busy a rest).Tended :=
      h.next hpop rfl rfl hself fun b hb => AddressSet.mem_insert.mpr (.inr hb)
    rw [fills_of_new hpop ha]
    exact hbusy.drained_cons ha (ih (hbusy.fillNode hself).1)

/-! ### All passes -/

/-- A survey in which all nodes wait for being filled. -/
def roused (s : Survey) : Survey := { s with pending := s.pending.append s.graph.addresses }

theorem tended_roused (s : Survey) : s.roused.Tended := by
  intro a ha
  refine .inr ?_
  show a ∈ (s.pending.append s.graph.addresses).toList
  rw [Queue.toList_append]
  exact List.mem_append_right _ (FlowGraph.mem_addresses.mpr ha)

theorem drained_fill (s : Survey) : Drained s s.roused.fills s.fill :=
  s.tended_roused.drained.of_pending

/-- The nodes that are filled in a pass. -/
def fillsIn (s : Survey) : Pass → List FillLog
  | .fill => s.roused.fills
  | _ => []

/-- The nodes that are filled in passes, one after the other. -/
def fillsOver (s : Survey) : List Pass → List FillLog
  | [] => []
  | p :: rest => s.fillsIn p ++ (s.perform p).fillsOver rest

theorem filled_seed (s : Survey) (names : NameTable) : (s.seed names).1.filled = s.filled := by
  refine seed_keeps (P := fun s' => s'.filled = s.filled) ?_ names rfl
  intro r a name hr
  unfold seedName
  split <;> exact hr

theorem filled_discover (s : Survey) (entries : List Address) :
    (s.discover entries).filled = s.filled :=
  (claims_walks s _).filled

/-- A pass fills no address twice, and none that had been filled before; what is filled stays so. -/
theorem perform_fills (s : Survey) (p : Pass) : ((s.fillsIn p).map (·.start)).Nodup ∧
    (∀ f ∈ s.fillsIn p, f.start ∉ s.filled ∧ f.start ∈ (s.perform p).filled) ∧
    ∀ a ∈ s.filled, a ∈ (s.perform p).filled := by
  cases p with
  | discover entries =>
    refine ⟨List.nodup_nil, List.forall_mem_nil _, ?_⟩
    intro a ha
    rw [perform, filled_discover]
    exact ha
  | seed names =>
    refine ⟨List.nodup_nil, List.forall_mem_nil _, ?_⟩
    intro a ha
    rw [perform, filled_seed]
    exact ha
  | fill =>
    have h := s.drained_fill
    exact ⟨h.once, fun f hf => ⟨h.fresh f hf, h.filled f hf⟩, h.kept⟩

/-- No address is filled twice, however many passes there are. -/
theorem nodup_fillsOver (s : Survey) (passes : List Pass) :
    ((s.fillsOver passes).map (·.start)).Nodup ∧ ∀ f ∈ s.fillsOver passes, f.start ∉ s.filled := by
  induction passes generalizing s with
  | nil => exact ⟨List.nodup_nil, List.forall_mem_nil _⟩
  | cons p rest ih =>
    obtain ⟨honce, hnew, hkept⟩ := s.perform_fills p
    obtain ⟨honce', hnew'⟩ := ih (s.perform p)
    unfold fillsOver
    refine ⟨?_, ?_⟩
    · rw [List.map_append, List.nodup_append]
      refine ⟨honce, honce', ?_⟩
      -- A later pass finds the node filled.
      intro a ha b hb heq
      obtain ⟨f, hf, hfa⟩ := List.mem_map.mp ha
      obtain ⟨f', hf', hfb⟩ := List.mem_map.mp hb
      have hstart : f'.start = f.start := hfb.trans (heq.symm.trans hfa.symm)
      refine hnew' f' hf' ?_
      rw [hstart]
      exact (hnew f hf).2
    · intro f hf
      rcases List.mem_append.mp hf with hfirst | hlater
      · exact (hnew f hfirst).1
      · exact fun hold => hnew' f hlater (hkept _ hold)

theorem stopAt_fillsOver_le (h : Cuts m v s) (passes : List Pass) :
    ∀ f ∈ s.fillsOver passes, f.stopAt ≤ 65536 := by
  induction passes generalizing s with
  | nil => exact List.forall_mem_nil _
  | cons p rest ih =>
    intro f hf
    rcases List.mem_append.mp hf with hfirst | hlater
    · cases p with
      | discover entries | seed names => cases hfirst
      | fill => exact s.drained_fill.made.stopAt_le h f hfirst
    · exact ih (h.perform p) f hlater

end Survey

end Z80Atlas
