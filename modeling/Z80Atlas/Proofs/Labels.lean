import Z80Atlas.Proofs.Blocks
import Z80Atlas.Proofs.Growth
import Z80Atlas.Proofs.Independence
import Z80Atlas.Proofs.Spelling

/-!
# Where labels come from

Filling makes nodes and edges and touches no label, so the labels of a chart are those that were
given from outside.  If there are none, each label is made up: the leader of a block has a global
name, and any other node has a local name under that of its leader, or a global one if the leader
has none.  No made-up name starts with the point of a local name.
-/

namespace Z80Atlas

/-! ### Filling -/

namespace FlowGraph

variable {g : FlowGraph} {f : Node → Node}

theorem labelAt?_eq {a : Address} {n : Node} (hn : g.get? a = some n) : g.labelAt? a = n.label := by
  unfold labelAt?
  rw [hn, Option.bind_some]

theorem labelAt?_modify (g : FlowGraph) (a b : Address) (hf : ∀ n, (f n).label = n.label) :
    (g.modify a f).labelAt? b = g.labelAt? b := by
  unfold labelAt?
  rw [get?_modify]
  split
  · cases g.get? b with
    | none => rfl
    | some n => exact hf n
  · rfl

@[simp] theorem labelAt?_ensure (g : FlowGraph) (a b : Address) :
    (g.ensure a).labelAt? b = g.labelAt? b := by
  unfold labelAt?
  rw [get?_ensure]
  split
  · cases g.get? b <;> rfl
  · rfl

@[simp] theorem labelAt?_addBranch (g : FlowGraph) (source target a : Address) :
    (g.addBranch source target).labelAt? a = g.labelAt? a := by
  unfold addBranch
  rw [labelAt?_modify, labelAt?_modify, labelAt?_ensure, labelAt?_ensure]
  · exact fun _ => rfl
  · exact fun _ => rfl

@[simp] theorem labelAt?_setCallee (g : FlowGraph) (source target a : Address) :
    (g.setCallee source target).labelAt? a = g.labelAt? a := by
  unfold setCallee
  dsimp only
  rw [labelAt?_modify, labelAt?_modify]
  · split
    · split
      · simp
      · unfold dropCaller
        rw [labelAt?_modify]
        · simp
        · exact fun _ => rfl
    · simp
  · exact fun _ => rfl
  · exact fun _ => rfl

/-- Filling leaves all labels as they are. -/
theorem kept_labels (labels : Address → Option String) :
    Kept fun g => ∀ a, g.labelAt? a = labels a where
  ensure _ h a := (labelAt?_ensure ..).trans (h a)
  fill b d h a := (labelAt?_modify (f := d.fill) _ b a fun _ => rfl).trans (h a)
  addBranch _ _ h a := (labelAt?_addBranch ..).trans (h a)
  setCallee _ _ h a := (labelAt?_setCallee ..).trans (h a)

theorem labelAt?_markSubroutines (g : FlowGraph) (a : Address) :
    g.markSubroutines.labelAt? a = g.labelAt? a := by
  unfold labelAt? markSubroutines
  rw [get?_mapNodes]
  cases g.get? a <;> rfl

end FlowGraph

namespace Survey

/-- The labels of a chart are those with which filling began. -/
theorem labelAt?_chart (s : Survey) (entries : List Address) (names : NameTable) (a : Address) :
    (s.chart entries names).1.graph.labelAt? a =
      ((s.discover entries).seed names).1.graph.labelAt? a :=
  (FlowGraph.kept_labels _).chart entries names (fun _ => rfl) a

theorem seed_empty (s : Survey) : s.seed ∅ = (s, ∅) := by
  have hnil : (∅ : NameTable).toList = [] := by
    rw [← List.length_eq_zero_iff, Std.ExtTreeMap.length_toList]
    exact Std.ExtTreeMap.size_empty
  unfold seed
  rw [hnil]
  rfl

theorem labelAt?_seedName {r : Survey × NameTable} {x a : Address} (hx : x ≠ a) (name : String) :
    (seedName r x name).1.graph.labelAt? a = r.1.graph.labelAt? a := by
  unfold seedName
  split
  · show ((r.1.graph.ensure x).modify x _).labelAt? a = _
    rw [← FlowGraph.labelAt?_ensure r.1.graph x a]
    unfold FlowGraph.labelAt?
    rw [FlowGraph.get?_modify, if_neg hx]
  · rfl

theorem labelAt?_foldl_seedName {a : Address} {names : List (Address × String)}
    (h : ∀ p ∈ names, p.1 ≠ a) (r : Survey × NameTable) :
    (names.foldl (fun r p => seedName r p.1 p.2) r).1.graph.labelAt? a = r.1.graph.labelAt? a := by
  induction names generalizing r with
  | nil => rfl
  | cons p rest ih =>
    rw [List.foldl_cons, ih fun q hq => h q (List.mem_cons_of_mem p hq),
      labelAt?_seedName (h p List.mem_cons_self)]

/-- What has no name from outside has no label before names are made up. -/
theorem labelAt?_chart_of_none {m : Memory} (hm : m.Unexplored) (v : Opcode.Variant) (k : Skips)
    (entries : List Address) {names : NameTable} {a : Address} (ha : names[a]? = none) :
    ((fresh m v k).chart entries names).1.graph.labelAt? a = none := by
  have hother : ∀ p ∈ names.toList, p.1 ≠ a := by
    intro p hp heq
    rw [← heq, Std.ExtTreeMap.mem_toList_iff_getElem?_eq_some.mp hp] at ha
    cases ha
  rw [labelAt?_chart, seed, labelAt?_foldl_seedName hother]
  unfold FlowGraph.labelAt?
  cases hn : ((fresh m v k).discover entries).graph.get? a with
  | none => rfl
  | some n =>
    obtain ⟨hnode, -⟩ := (explored_discover hm v k entries).node hn
    rw [hnode]
    rfl

end Survey

/-! ### Labels of nodes -/

namespace FlowGraph

variable {g : FlowGraph} {b : Blocks} {stems : Stems} {a leader : Address} {name : String}

theorem get?_foldl_modify {f : Node → Node} (hf : ∀ n, f (f n) = f n) (xs : List Address)
    (g : FlowGraph) (a : Address) :
    (xs.foldl (fun g x => g.modify x f) g).get? a =
      if a ∈ xs then (g.get? a).map f else g.get? a := by
  induction xs generalizing g with
  | nil => rfl
  | cons x rest ih =>
    rw [List.foldl_cons, ih, get?_modify]
    by_cases hx : x = a
    · by_cases hrest : a ∈ rest
      · simp [hx, hrest, Function.comp_def, hf]
      · simp [hx, hrest]
    · simp [hx, Ne.symm hx]

theorem nameNode_nameNode (stems : Stems) (n : Node) :
    nameNode stems (nameNode stems n) = nameNode stems n := by
  by_cases h : (n.label.isNone && n.isReferenced) = true
  · have hnamed :
        nameNode stems n = { n with label := some (stems.globalName n.start n.isSubroutine) } :=
          if_pos h
    rw [hnamed]
    exact if_neg (by simp)
  · have hsame : nameNode stems n = n := if_neg h
    rw [hsame, hsame]

theorem get?_nameLeaders (g : FlowGraph) (b : Blocks) (stems : Stems) (a : Address) :
    (g.nameLeaders b stems).get? a =
      if b.isLeader a = true then (g.get? a).map (nameNode stems) else g.get? a := by
  unfold nameLeaders
  rw [get?_foldl_modify (nameNode_nameNode stems)]
  simp only [Blocks.mem_leaders]

/-- Only leaders get global names. -/
theorem label_nameLeaders (hg : ∀ a, g.labelAt? a = none)
    (hs : ∀ {a n}, g.get? a = some n → n.start = a)
    (h : (g.nameLeaders b stems).labelAt? a = some name) :
    b.isLeader a = true ∧ ∃ isSubroutine, name = stems.globalName a isSubroutine := by
  have hnone := hg a
  unfold labelAt? at h hnone
  rw [get?_nameLeaders] at h
  split at h
  next hleader =>
    refine ⟨hleader, ?_⟩
    cases hn : g.get? a with
    | none =>
      rw [hn] at h
      cases h
    | some n =>
      rw [hn, Option.bind_some] at hnone
      rw [hn, Option.map_some, Option.bind_some] at h
      unfold nameNode at h
      split at h
      · rw [hs hn, Option.some.injEq] at h
        exact ⟨n.isSubroutine, h.symm⟩
      · rw [hnone] at h
        cases h
  next =>
    rw [hnone] at h
    cases h

theorem labelAt?_setLabel (g : FlowGraph) (x : Address) (name : String) (a : Address) :
    (g.setLabel x name).labelAt? a =
      if x = a then (g.get? a).map fun _ => name else g.labelAt? a := by
  unfold setLabel labelAt?
  rw [get?_modify]
  split
  · cases g.get? a <;> rfl
  · rfl

theorem label_foldl_setLabel {names : List (Address × String)}
    (h : (names.foldl (fun g p => g.setLabel p.1 p.2) g).labelAt? a = some name) :
    g.labelAt? a = some name ∨ (a, name) ∈ names := by
  induction names generalizing g with
  | nil => exact .inl h
  | cons p rest ih =>
    cases ih h with
    | inr hrest => exact .inr (List.mem_cons_of_mem p hrest)
    | inl hset =>
      rw [labelAt?_setLabel] at hset
      split at hset
      next heq =>
        obtain ⟨n, -, hname⟩ := Option.map_eq_some_iff.mp hset
        rw [← heq, ← hname]
        exact .inr List.mem_cons_self
      next => exact .inl hset

theorem labelAt?_foldl_setLabel {names : List (Address × String)} (h : ∀ p ∈ names, p.1 ≠ a) :
    (names.foldl (fun g p => g.setLabel p.1 p.2) g).labelAt? a = g.labelAt? a := by
  induction names generalizing g with
  | nil => rfl
  | cons p rest ih =>
    rw [List.foldl_cons, ih fun q hq => h q (List.mem_cons_of_mem p hq), labelAt?_setLabel,
      if_neg (h p List.mem_cons_self)]

theorem mem_numbered {stem : String} {nodes : List Address} (h : (a, name) ∈ numbered stem nodes) :
    ∃ k : Nat, nodes[k]? = some a ∧ name = stem ++ toString (k + 1) := by
  unfold numbered at h
  obtain ⟨p, hp, heq⟩ := List.mem_map.mp h
  obtain ⟨rfl, rfl⟩ := Prod.mk.inj heq
  obtain ⟨hpos, hk⟩ := List.mem_zipIdx_iff_le_and_getElem?_sub.mp hp
  refine ⟨p.2 - 1, hk, ?_⟩
  rw [Nat.sub_add_cancel hpos]

theorem mem_loopNames {stem : String} {nodes : List Address}
    (h : (a, name) ∈ loopNames stem nodes) :
    nodes = [a] ∧ name = stem ∨
      nodes.length ≠ 1 ∧ ∃ k : Nat, nodes[k]? = some a ∧ name = stem ++ toString (k + 1) := by
  unfold loopNames at h
  split at h
  · rw [List.mem_singleton] at h
    obtain ⟨rfl, rfl⟩ := Prod.mk.inj h
    exact .inl ⟨rfl, rfl⟩
  next hmany =>
    refine .inr ⟨?_, mem_numbered h⟩
    intro hone
    obtain ⟨x, hx⟩ := List.length_eq_one_iff.mp hone
    exact hmany x hx

theorem localName_append (block stem text : String) :
    localName block stem ++ text = localName block (stem ++ text) := by
  unfold localName
  rw [String.append_assoc]

/-- A name for a node behind the leader: local if the leader has a label. -/
inductive Interior (stems : Stems) (loops targets : List Address) (a : Address)
    (block : Option String) (name : String) :
    Prop
  | inside (block' text : String) (stem : Stem) (hb : block = some block')
      (ht : stems.Inside loops targets a text stem) (h : name = localName block' text)
  | alone (hb : block = none) (h : name = stems.targetName a)

theorem mem_interiorNames {members : List Address}
    (h : (a, name) ∈ g.interiorNames b stems leader members) :
    a ∈ members.tail ∧
      Interior stems (g.withRole b .loop members.tail) (g.withRole b .target members.tail) a
        (g.labelAt? leader) name := by
  have hrole : ∀ {role}, a ∈ g.withRole b role members.tail → a ∈ members.tail :=
    fun hmem => (List.mem_filter.mp hmem).1
  unfold interiorNames at h
  dsimp only at h
  cases hblock : g.labelAt? leader with
  | none =>
    rw [hblock] at h
    obtain ⟨x, hx, heq⟩ := List.mem_map.mp h
    obtain ⟨rfl, rfl⟩ := Prod.mk.inj heq
    refine ⟨?_, .alone rfl rfl⟩
    cases List.mem_append.mp hx with
    | inl hloop => exact hrole hloop
    | inr htarget => exact hrole htarget
  | some block =>
    rw [hblock] at h
    cases List.mem_append.mp h with
    | inl hloop =>
      rcases mem_loopNames hloop with ⟨honly, hname⟩ | ⟨hmany, k, hk, hname⟩
      · have hmem : a ∈ g.withRole b .loop members.tail := by
          rw [honly]
          exact List.mem_singleton.mpr rfl
        exact ⟨hrole hmem, .inside block _ _ rfl (.onlyLoop honly rfl) hname⟩
      · exact ⟨hrole (List.mem_of_getElem? hk),
          .inside block _ _ rfl (.loop k hk hmany rfl) (hname.trans (localName_append ..))⟩
    | inr htarget =>
      obtain ⟨k, hk, hname⟩ := mem_numbered htarget
      exact ⟨hrole (List.mem_of_getElem? hk),
        .inside block _ _ rfl (.target k hk rfl) (hname.trans (localName_append ..))⟩

/-- The nodes of a block behind its leader that need a name for the given reason. -/
def needy (g : FlowGraph) (b : Blocks) (leader : Address) (role : Role) : List Address :=
  g.withRole b role (b.membersOf leader).tail

theorem mem_names_interiors {p : Address × String}
    (h : p ∈ b.toList.flatMap fun q => g.interiorNames b stems q.1 q.2) :
    ∃ leader, p.1 ∈ (b.membersOf leader).tail ∧
      Interior stems (g.needy b leader .loop) (g.needy b leader .target) p.1
        (g.labelAt? leader) p.2 := by
  obtain ⟨q, hq, hp⟩ := List.mem_flatMap.mp h
  obtain ⟨-, hmembers⟩ := Blocks.mem_toList.mp hq
  obtain ⟨htail, hname⟩ := mem_interiorNames hp
  rw [hmembers] at htail hname
  exact ⟨q.1, htail, hname⟩

/-- The graph with a name for each node that needs one. -/
def named (g : FlowGraph) (stems : Stems) : FlowGraph :=
  (g.nameLeaders g.blocks stems).nameInteriors g.blocks stems

theorem assignNames_blocks (g : FlowGraph) (m : Memory) (external : NameTable) (stems : Stems)
    (other : NameTable) :
    g.assignNames g.blocks m external stems other =
      (g.named stems, (g.named stems).nameData g.blocks m external stems other) := rfl

theorem sameButNames_named (g : FlowGraph) (stems : Stems) : SameButNames g (g.named stems) :=
  (sameButNames_nameLeaders g g.blocks stems).trans (sameButNames_nameInteriors _ g.blocks stems)

/-- The labels of a graph with made-up names.  The nodes that had a role before they got their names
are given by `roles`, for each block. -/
structure Labelled (g : FlowGraph) (stems : Stems) (roles : Address → Role → List Address) :
    Prop where
  leader : ∀ {a name}, g.blocks.isLeader a = true → g.labelAt? a = some name →
    ∃ isSubroutine, name = stems.globalName a isSubroutine
  interior : ∀ {a name}, g.blocks.isLeader a = false → g.labelAt? a = some name →
    ∃ leader, a ∈ (g.blocks.membersOf leader).tail ∧
      Interior stems (roles leader .loop) (roles leader .target) a (g.labelAt? leader) name

theorem isLeader_eq_false_of_mem_tail (hd : Division g.placement)
    (ha : a ∈ (g.blocks.membersOf leader).tail) :
    g.blocks.isLeader a = false := by
  obtain ⟨n, hn, hstart, hne⟩ := (mem_tail_iff hd).mp ha
  rw [← Bool.not_eq_true]
  intro hleader
  obtain ⟨n', hn'⟩ := isLeader_blocks.mp hleader
  have hself : leader = n.start := hd.leads_itself hn' hn hstart.symm
  exact hne (hstart.symm.trans hself.symm)

theorem isLeader_of_mem_tail (hd : Division g.placement)
    (ha : a ∈ (g.blocks.membersOf leader).tail) :
    g.blocks.isLeader leader = true := by
  obtain ⟨n, hn, -, -⟩ := (mem_tail_iff hd).mp ha
  exact isLeader_blocks.mpr ⟨n, hn⟩

/-- No leader is inside of a block, so naming what is inside does not change the labels of
leaders. -/
theorem labelAt?_named_of_leader (hd : Division g.placement) (hl : g.blocks.isLeader a = true) :
    (g.named stems).labelAt? a = (g.nameLeaders g.blocks stems).labelAt? a := by
  refine labelAt?_foldl_setLabel ?_
  intro p hp heq
  obtain ⟨leader, htail, -⟩ := mem_names_interiors hp
  rw [heq] at htail
  exact absurd (hl.symm.trans (isLeader_eq_false_of_mem_tail hd htail)) (by decide)

theorem labelled_named (hg : ∀ a, g.labelAt? a = none)
    (hs : ∀ {a n}, g.get? a = some n → n.start = a) (hd : Division g.placement) (stems : Stems) :
    Labelled (g.named stems) stems ((g.nameLeaders g.blocks stems).needy g.blocks) := by
  have hblocks : (g.named stems).blocks = g.blocks := (g.sameButNames_named stems).blocks_eq.symm
  constructor
  · intro a name hleader hlabel
    rw [hblocks] at hleader
    rw [labelAt?_named_of_leader hd hleader] at hlabel
    exact (label_nameLeaders hg hs hlabel).2
  · intro a name hleader hlabel
    rw [hblocks] at hleader ⊢
    cases label_foldl_setLabel hlabel with
    | inl hglobal =>
      have hself := (label_nameLeaders hg hs hglobal).1
      exact absurd (hself.symm.trans hleader) (by decide)
    | inr hmem =>
      obtain ⟨leader, htail, hname⟩ := mem_names_interiors hmem
      refine ⟨leader, htail, ?_⟩
      rw [labelAt?_named_of_leader hd (isLeader_of_mem_tail hd htail)]
      exact hname

end FlowGraph

/-! ### Nodes without a label -/

namespace FlowGraph

variable {g h : FlowGraph} {b : Blocks} {stems : Stems} {a leader : Address} {n : Node}

theorem map_fst_numbered (stem : String) (nodes : List Address) :
    (numbered stem nodes).map (·.1) = nodes := by
  unfold numbered
  rw [List.map_map]
  exact List.zipIdx_map_fst 1 nodes

theorem map_fst_interiorNames (g : FlowGraph) (b : Blocks) (stems : Stems) (leader : Address)
    (members : List Address) :
    (g.interiorNames b stems leader members).map (·.1) =
      g.withRole b .loop members.tail ++ g.withRole b .target members.tail := by
  have hloops : ∀ stem nodes, (loopNames stem nodes).map (·.1) = nodes := by
    intro stem nodes
    unfold loopNames
    split
    · rfl
    · exact map_fst_numbered stem nodes
  unfold interiorNames
  dsimp only
  cases g.labelAt? leader with
  | none =>
    rw [List.map_map]
    exact List.map_id _
  | some block => rw [List.map_append, hloops, map_fst_numbered]

theorem labelAt?_foldl_setLabel_eq_none {names : List (Address × String)} (hn : g.get? a = some n) :
    (names.foldl (fun g p => g.setLabel p.1 p.2) g).labelAt? a = none ↔
      g.labelAt? a = none ∧ a ∉ names.map (·.1) := by
  constructor
  · intro hnone
    have hmem : a ∉ names.map (·.1) := by
      induction names generalizing g n with
      | nil => exact List.not_mem_nil
      | cons p rest ih =>
        have hset : (g.setLabel p.1 p.2).get? a =
            some (if p.1 = a then { n with label := some p.2 } else n) := by
          unfold setLabel
          rw [get?_modify, hn]
          split <;> rfl
        have hrest := ih hset hnone
        intro hmem
        rcases List.mem_cons.mp hmem with heq | hmem
        · have hlabel := labelAt?_foldl_setLabel (g := g.setLabel p.1 p.2) (a := a)
            fun q hq heq => hrest (List.mem_map.mpr ⟨q, hq, heq⟩)
          rw [List.foldl_cons, hlabel, labelAt?_setLabel, if_pos heq.symm, hn] at hnone
          cases hnone
        · exact hrest hmem
    rw [labelAt?_foldl_setLabel fun p hp heq => hmem (List.mem_map.mpr ⟨p, hp, heq⟩)] at hnone
    exact ⟨hnone, hmem⟩
  · intro ⟨hnone, hmem⟩
    rw [labelAt?_foldl_setLabel fun p hp heq => hmem (List.mem_map.mpr ⟨p, hp, heq⟩)]
    exact hnone

theorem roleOf?_eq_none (hl : n.label = none) :
    g.roleOf? b n = none ↔ n.callers = #[] ∧ g.jumpsTo n = [] := by
  unfold roleOf?
  rw [hl]
  constructor
  · intro hnone
    rw [if_neg (by simp)] at hnone
    split at hnone
    · cases hnone
    · split at hnone
      · cases hnone
      next hrest => simpa using hrest
  · intro ⟨hcallers, hjumps⟩
    rw [hcallers, hjumps]
    rfl

theorem SameButNames.jumpsTo_eq (hgh : SameButNames g h) (n : Node) :
    g.jumpsTo n = h.jumpsTo n := by
  have hflag : ∀ o : Option Node,
      (o.any fun pred => !pred.fallsInto n) =
        ((o.map Node.anonymous).any fun pred => !pred.fallsInto n) := by
    intro o
    cases o <;> rfl
  have hany : ∀ p, ((g.get? p).any fun pred => !pred.fallsInto n) =
      (h.get? p).any fun pred => !pred.fallsInto n := by
    intro p
    rw [hflag, hflag (h.get? p), hgh p]
  unfold jumpsTo
  simp only [hany]

theorem exists_marked (hn : g.get? a = some n) :
    ∃ flag, g.markSubroutines.get? a = some { n with isSubroutine := flag } := by
  rw [markSubroutines, get?_mapNodes, hn]
  exact ⟨_, rfl⟩

/-- A leader stays without a label if nothing leads to it. -/
theorem label_eq_none_of_leader (hd : Division g.placement) (hn : g.get? a = some n)
    (hl : g.blocks.isLeader a = true) (hnone : (g.named stems).labelAt? a = none) :
    n.isReferenced = false := by
  rw [labelAt?_named_of_leader hd hl] at hnone
  unfold labelAt? at hnone
  rw [get?_nameLeaders, if_pos hl, hn, Option.map_some, Option.bind_some] at hnone
  unfold nameNode at hnone
  split at hnone
  · cases hnone
  next hno =>
    rw [hnone] at hno
    simpa using hno

theorem exists_mem_tail (hd : Division g.placement) (hn : g.get? a = some n) (hs : n.start = a)
    (hl : g.blocks.isLeader a = false) :
    ∃ leader, (leader, n) ∈ g.placement ∧ a ∈ (g.blocks.membersOf leader).tail := by
  have hmem : n ∈ g.placement.map (·.2) := by
    rw [map_snd_placement]
    exact mem_toList.mpr ⟨a, hn⟩
  obtain ⟨p, hp, heq⟩ := List.mem_map.mp hmem
  have hplaced : (p.1, n) ∈ g.placement := by
    rw [← heq]
    exact hp
  refine ⟨p.1, hplaced, (mem_tail_iff hd).mpr ⟨n, hplaced, hs, ?_⟩⟩
  intro hself
  rw [hself, isLeader_blocks.mpr ⟨n, hplaced⟩] at hl
  cases hl

theorem callers_of_interior (hd : Division g.placement) (hn : g.get? a = some n) (hs : n.start = a)
    (hl : g.blocks.isLeader a = false) : n.callers = #[] := by
  obtain ⟨leader, hplaced, htail⟩ := exists_mem_tail hd hn hs hl
  obtain ⟨-, -, -, hne⟩ := (mem_tail_iff hd).mp htail
  exact hd.callers_eq_empty hplaced fun hself => hne (hs.symm.trans hself)

/-- The nodes inside of blocks that get names are those with a role. -/
theorem mem_map_names (stems : Stems) (htail : a ∈ (b.membersOf leader).tail)
    (hleader : b.isLeader leader = true) (hn : g.get? a = some n) :
    a ∈ (b.toList.flatMap fun p => g.interiorNames b stems p.1 p.2).map (·.1) ↔
      ∃ role, g.roleOf? b n = some role := by
  have hrole : ∀ role nodes, a ∈ g.withRole b role nodes ↔
      a ∈ nodes ∧ g.roleOf? b n = some role := by
    intro role nodes
    unfold withRole
    rw [List.mem_filter, decide_eq_true_eq, hn, Option.bind_some]
  rw [List.map_flatMap, List.mem_flatMap]
  simp only [map_fst_interiorNames, List.mem_append, hrole]
  constructor
  · intro ⟨p, _, hmem⟩
    rcases hmem with ⟨_, hloop⟩ | ⟨_, htarget⟩
    · exact ⟨.loop, hloop⟩
    · exact ⟨.target, htarget⟩
  · intro ⟨role, hsome⟩
    refine ⟨(leader, b.membersOf leader), Blocks.mem_toList.mpr ⟨hleader, rfl⟩, ?_⟩
    cases role with
    | loop => exact .inl ⟨htail, hsome⟩
    | target => exact .inr ⟨htail, hsome⟩

/-- Another node stays without a label if control comes to it only by going on. -/
theorem label_eq_none_of_interior (hd : Division g.placement) (hn : g.get? a = some n)
    (hs : n.start = a) (hl : g.blocks.isLeader a = false) :
    (g.named stems).labelAt? a = none ↔ n.label = none ∧ g.jumpsTo n = [] := by
  obtain ⟨leader, -, htail⟩ := exists_mem_tail hd hn hs hl
  have hcallers := callers_of_interior hd hn hs hl
  have hsame : (g.nameLeaders g.blocks stems).get? a = some n := by
    rw [get?_nameLeaders, hl, if_neg Bool.false_ne_true, hn]
  have hnames := mem_map_names stems htail (isLeader_of_mem_tail hd htail) hsame
  have hjumps := (sameButNames_nameLeaders g g.blocks stems).jumpsTo_eq n
  show ((g.nameLeaders g.blocks stems).nameInteriors g.blocks stems).labelAt? a = none ↔ _
  unfold nameInteriors
  rw [labelAt?_foldl_setLabel_eq_none hsame, labelAt?_eq hsame, hnames]
  refine and_congr_right ?_
  intro hnone
  have hrole := roleOf?_eq_none (g := g.nameLeaders g.blocks stems) (b := g.blocks) hnone
  rw [hcallers, ← hjumps] at hrole
  rw [← Option.isSome_iff_exists, Bool.not_eq_true, Option.isSome_eq_false_iff,
    Option.isNone_iff_eq_none, hrole]
  exact and_iff_right rfl

end FlowGraph

/-! ### Names of data -/

namespace FlowGraph

variable {g : FlowGraph} {b : Blocks} {m : Memory} {external other : NameTable} {stems : Stems}
  {a x : Address}
variable {name : String}

theorem getElem?_nameDatum (h : other[a]? = some name) :
    (g.nameDatum b m external stems other x)[a]? = some name := by
  unfold nameDatum
  split
  · exact h
  next hnew =>
    have hother : x ≠ a := by
      intro heq
      have hin : other.contains x = true := by
        rw [heq, ← Std.ExtTreeMap.isSome_getElem?_eq_contains, h]
        rfl
      simp [hin] at hnew
    rw [Std.ExtTreeMap.getElem?_insert, if_neg fun heq => hother (Std.compare_eq_iff_eq.mp heq)]
    exact h

/-- Names of data stay in the table. -/
theorem getElem?_foldl_nameDatum (refs : List Address) (h : other[a]? = some name) :
    (refs.foldl (g.nameDatum b m external stems) other)[a]? = some name := by
  induction refs generalizing other with
  | nil => exact h
  | cons x rest ih => exact ih (getElem?_nameDatum h)

/-- What is added to the table is the name of data that some node refers to. -/
theorem getElem?_nameData (h : (g.nameData b m external stems other)[a]? = some name) :
    other[a]? = some name ∨ (∃ n ∈ g.toList, a ∈ n.dataRefs) ∧ name = g.dataName b m stems a := by
  have hrefs : ∀ x, x ∈ g.toList.flatMap (·.dataRefs.toList) → ∃ n ∈ g.toList, x ∈ n.dataRefs := by
    intro x hx
    obtain ⟨n, hn, hin⟩ := List.mem_flatMap.mp hx
    exact ⟨n, hn, Array.mem_toList_iff.mp hin⟩
  unfold nameData at h
  generalize g.toList.flatMap (·.dataRefs.toList) = refs at h hrefs
  induction refs generalizing other with
  | nil => exact .inl h
  | cons x rest ih =>
    rcases ih h fun y hy => hrefs y (List.mem_cons_of_mem x hy) with hdatum | hdata
    · unfold nameDatum at hdatum
      split at hdatum
      · exact .inl hdatum
      · rw [Std.ExtTreeMap.getElem?_insert] at hdatum
        split at hdatum
        next heq =>
          rw [Std.compare_eq_iff_eq.mp heq, Option.some.injEq] at hdatum
          rw [Std.compare_eq_iff_eq.mp heq] at hrefs
          exact .inr ⟨hrefs a List.mem_cons_self, hdatum.symm⟩
        next => exact .inl hdatum
    · exact .inr hdata

/-- Data without a name from outside and without a label is in the table afterwards. -/
theorem contains_nameData {n : Node} (hn : n ∈ g.toList) (ha : a ∈ n.dataRefs)
    (he : external.contains a = false) (hl : g.labelAt? a = none) :
    (g.nameData b m external stems other).contains a = true := by
  have hmem : a ∈ g.toList.flatMap (·.dataRefs.toList) :=
    List.mem_flatMap.mpr ⟨n, hn, Array.mem_toList_iff.mpr ha⟩
  unfold nameData
  obtain ⟨before, after, hsplit⟩ := List.append_of_mem hmem
  rw [hsplit, List.foldl_append, List.foldl_cons]
  generalize before.foldl (g.nameDatum b m external stems) other = table
  have hnamed : (g.nameDatum b m external stems table a).contains a = true := by
    unfold nameDatum
    rw [he, hl]
    cases ht : table.contains a with
    | true => exact ht
    | false => exact Std.ExtTreeMap.contains_insert_self
  rw [← Std.ExtTreeMap.isSome_getElem?_eq_contains] at hnamed ⊢
  obtain ⟨name, hname⟩ := Option.isSome_iff_exists.mp hnamed
  rw [getElem?_foldl_nameDatum after hname]
  rfl

end FlowGraph

end Z80Atlas
