import Z80Atlas.Flow.Fill

/-!
# What adding edges does to nodes

An edge is kept at both of its ends.  The far end only gets a longer list of where it is entered
from; everything else is the `body` of a node, which changes in the node that the edge leaves and
nowhere else.  Putting a draft into a node therefore changes the body of that node alone.
-/

namespace Z80Atlas

/-- A node without the record of where it is entered from. -/
def Node.body (n : Node) : Node := { n with predecessors := #[], callers := #[] }

namespace FlowGraph

variable {g : FlowGraph} {a b source target : Address}

theorem ensure_of_contains (h : g.contains a = true) : g.ensure a = g := by
  unfold ensure
  rw [if_pos h]

@[simp] theorem contains_modify (g : FlowGraph) (a b : Address) (f : Node → Node) :
    (g.modify a f).contains b = g.contains b := by
  rw [Bool.eq_iff_iff, contains_iff, contains_iff, get?_modify]
  cases g.get? b <;> split <;> simp

/-- The body of the node at an address. -/
def bodyAt (g : FlowGraph) (a : Address) : Option Node := (g.get? a).map Node.body

theorem bodyAt_eq_some {n : Node} (h : g.get? a = some n) : g.bodyAt a = some n.body := by
  unfold bodyAt
  rw [h]
  rfl

theorem bodyAt_eq_some_iff {n : Node} :
    g.bodyAt a = some n ↔ ∃ n', g.get? a = some n' ∧ n'.body = n := by
  unfold bodyAt
  exact Option.map_eq_some_iff

theorem contains_iff_bodyAt : g.contains a = true ↔ ∃ n, g.bodyAt a = some n := by
  rw [contains_iff]
  constructor
  · intro ⟨n, hn⟩
    exact ⟨n.body, bodyAt_eq_some hn⟩
  · intro ⟨n, hn⟩
    obtain ⟨n', hn', -⟩ := bodyAt_eq_some_iff.mp hn
    exact ⟨n', hn'⟩

theorem bodyAt_ensure (g : FlowGraph) (a b : Address) :
    (g.ensure a).bodyAt b =
      if a = b then some ((g.bodyAt b).getD { start := b }) else g.bodyAt b := by
  unfold bodyAt
  rw [get?_ensure]
  split
  · cases g.get? b <;> rfl
  · rfl

theorem bodyAt_modify (g : FlowGraph) (a b : Address) {f e : Node → Node}
    (h : ∀ n, (f n).body = e n.body) :
    (g.modify a f).bodyAt b = if b = a then (g.bodyAt b).map e else g.bodyAt b := by
  unfold bodyAt
  rw [get?_modify]
  by_cases hab : a = b
  · rw [if_pos hab, if_pos hab.symm]
    cases g.get? b with
    | none => rfl
    | some n => exact congrArg some (h n)
  · rw [if_neg hab, if_neg (Ne.symm hab)]

/-- A change of where a node is entered from is no change of bodies. -/
theorem bodyAt_modify_of_body (g : FlowGraph) (a b : Address) {f : Node → Node}
    (h : ∀ n, (f n).body = n.body) :
    (g.modify a f).bodyAt b = g.bodyAt b := by
  rw [bodyAt_modify g a b (e := id) h, Option.map_id, id_eq, ite_self]

theorem contains_addBranch (hs : g.contains source = true) (ht : g.contains target = true) :
    (g.addBranch source target).contains a = g.contains a := by
  unfold addBranch
  rw [ensure_of_contains hs, ensure_of_contains ht, contains_modify, contains_modify]

theorem bodyAt_addBranch (hs : g.contains source = true) (ht : g.contains target = true) :
    (g.addBranch source target).bodyAt a =
      if a = source then
        (g.bodyAt a).map fun n => { n with successors := addOnce n.successors target }
      else g.bodyAt a := by
  unfold addBranch
  rw [ensure_of_contains hs, ensure_of_contains ht, bodyAt_modify_of_body]
  · exact bodyAt_modify g source a fun _ => rfl
  · exact fun _ => rfl

theorem contains_setCallee (hs : g.contains source = true) (ht : g.contains target = true) :
    (g.setCallee source target).contains a = g.contains a := by
  unfold setCallee
  rw [ensure_of_contains hs, ensure_of_contains ht, contains_modify, contains_modify]
  split
  · split
    · rfl
    · exact contains_modify ..
  · rfl

theorem bodyAt_dropCaller (g : FlowGraph) (source former a : Address) :
    (g.dropCaller source former).bodyAt a = g.bodyAt a :=
  bodyAt_modify_of_body g former a fun _ => rfl

theorem bodyAt_setCallee (hs : g.contains source = true) (ht : g.contains target = true) :
    (g.setCallee source target).bodyAt a =
      if a = source then (g.bodyAt a).map fun n => { n with callee := some target }
      else g.bodyAt a := by
  -- Forgetting a former callee concerns the callers of that node only.
  have key : ∀ g' : FlowGraph, g'.bodyAt a = g.bodyAt a →
      ((g'.modify source fun n => { n with callee := some target }).modify target fun n =>
        { n with callers := addOnce n.callers source }).bodyAt a =
        if a = source then (g.bodyAt a).map fun n => { n with callee := some target }
        else g.bodyAt a := by
    intro g' hg
    rw [bodyAt_modify_of_body, bodyAt_modify _ _ _ (e := fun n => { n with callee := some target }),
      hg]
    · exact fun _ => rfl
    · exact fun _ => rfl
  unfold setCallee
  dsimp only
  rw [ensure_of_contains hs, ensure_of_contains ht]
  split
  · split
    · exact key g rfl
    · exact key _ (bodyAt_dropCaller ..)
  · exact key g rfl

/-- Have a node call another one, if there is one to call. -/
def setCallee? (g : FlowGraph) (source : Address) : Option Address → FlowGraph
  | some target => g.setCallee source target
  | none => g

theorem contains_setCallee? {callee : Option Address} (hs : g.contains source = true)
    (ht : ∀ t, callee = some t → g.contains t = true) :
    (g.setCallee? source callee).contains a = g.contains a := by
  cases callee with
  | none => rfl
  | some t => exact contains_setCallee hs (ht t rfl)

theorem bodyAt_setCallee? {callee : Option Address} (hs : g.contains source = true)
    (ht : ∀ t, callee = some t → g.contains t = true) :
    (g.setCallee? source callee).bodyAt a =
      if a = source then (g.bodyAt a).map fun n => { n with callee := callee.or n.callee }
      else g.bodyAt a := by
  cases callee with
  | none =>
    split
    · exact (congrFun Option.map_id _).symm
    · rfl
  | some t => exact bodyAt_setCallee hs (ht t rfl)

theorem contains_foldl_addBranch (edges : List Address) (hs : g.contains source = true)
    (he : ∀ t ∈ edges, g.contains t = true) :
    (edges.foldl (fun g t => g.addBranch source t) g).contains a = g.contains a := by
  induction edges generalizing g with
  | nil => rfl
  | cons t rest ih =>
    have ht := he t List.mem_cons_self
    rw [List.foldl_cons, ih, contains_addBranch hs ht]
    · rw [contains_addBranch hs ht]
      exact hs
    · intro u hu
      rw [contains_addBranch hs ht]
      exact he u (List.mem_cons_of_mem t hu)

theorem bodyAt_foldl_addBranch (edges : List Address) (hs : g.contains source = true)
    (he : ∀ t ∈ edges, g.contains t = true) :
    (edges.foldl (fun g t => g.addBranch source t) g).bodyAt a =
      if a = source then
        (g.bodyAt a).map fun n => { n with successors := edges.foldl addOnce n.successors }
      else g.bodyAt a := by
  induction edges generalizing g with
  | nil =>
    rw [List.foldl_nil]
    split
    · exact (congrFun Option.map_id _).symm
    · rfl
  | cons t rest ih =>
    have ht := he t List.mem_cons_self
    rw [List.foldl_cons, ih, bodyAt_addBranch hs ht]
    · split
      · rw [Option.map_map]
        rfl
      · rfl
    · rw [contains_addBranch hs ht]
      exact hs
    · intro u hu
      rw [contains_addBranch hs ht]
      exact he u (List.mem_cons_of_mem t hu)

end FlowGraph

theorem mem_foldl_addOnce {edges : List Address} {xs : Array Address} {t : Address} :
    t ∈ edges.foldl addOnce xs ↔ t ∈ xs ∨ t ∈ edges := by
  induction edges generalizing xs with
  | nil => simp
  | cons u rest ih =>
    rw [List.foldl_cons, ih, mem_addOnce, List.mem_cons, or_assoc]

/-! ### Drafts -/

/-- What a draft says about the instructions of a node. -/
def Draft.fill (d : Draft) (n : Node) : Node :=
  { n with
    length := d.length
    instructions := d.instructions
    dataRefs := d.dataRefs
    stop := d.stop
    isSubroutine := n.isSubroutine || d.returns }

/-- The body of a node once a draft has been put into it. -/
def Draft.into (d : Draft) (n : Node) : Node :=
  { d.fill n with
    callee := d.callee.or n.callee
    successors := d.edges.toList.foldl addOnce n.successors }

namespace Survey

variable {s : Survey} {start a : Address} {d : Draft}

theorem graph_settle (s : Survey) (start : Address) (d : Draft) :
    (s.settle start d).graph = d.edges.toList.foldl (fun g t => g.addBranch start t)
      ((s.graph.modify start d.fill).setCallee? start d.callee) := by
  rw [Array.foldl_toList]
  unfold settle FlowGraph.setCallee?
  cases d.callee <;> rfl

theorem contains_settle (hs : s.graph.contains start = true)
    (hc : ∀ t, d.callee = some t → s.graph.contains t = true)
    (he : ∀ t ∈ d.edges, s.graph.contains t = true) :
    (s.settle start d).graph.contains a = s.graph.contains a := by
  have hcallee : ∀ b, ((s.graph.modify start d.fill).setCallee? start d.callee).contains b =
      s.graph.contains b := by
    intro b
    rw [FlowGraph.contains_setCallee?, FlowGraph.contains_modify]
    · rw [FlowGraph.contains_modify]
      exact hs
    · intro t ht
      rw [FlowGraph.contains_modify]
      exact hc t ht
  rw [graph_settle, FlowGraph.contains_foldl_addBranch, hcallee]
  · rw [hcallee]
    exact hs
  · intro t ht
    rw [hcallee]
    exact he t (by simpa using ht)

theorem bodyAt_settle (hs : s.graph.contains start = true)
    (hc : ∀ t, d.callee = some t → s.graph.contains t = true)
    (he : ∀ t ∈ d.edges, s.graph.contains t = true) :
    (s.settle start d).graph.bodyAt a =
      if a = start then (s.graph.bodyAt a).map d.into else s.graph.bodyAt a := by
  have hfill : ∀ b, (s.graph.modify start d.fill).contains b = s.graph.contains b :=
    fun b => FlowGraph.contains_modify ..
  have hstart : (s.graph.modify start d.fill).contains start = true := (hfill start).trans hs
  have htarget : ∀ t, d.callee = some t → (s.graph.modify start d.fill).contains t = true :=
    fun t ht => (hfill t).trans (hc t ht)
  rw [graph_settle, FlowGraph.bodyAt_foldl_addBranch, FlowGraph.bodyAt_setCallee? hstart htarget,
    FlowGraph.bodyAt_modify _ _ _ (e := d.fill)]
  · split
    · rw [Option.map_map, Option.map_map]
      rfl
    · rfl
  · exact fun _ => rfl
  · rw [FlowGraph.contains_setCallee? hstart htarget]
    exact hstart
  · intro t ht
    rw [FlowGraph.contains_setCallee? hstart htarget, hfill]
    exact he t (by simpa using ht)

end Survey

end Z80Atlas
