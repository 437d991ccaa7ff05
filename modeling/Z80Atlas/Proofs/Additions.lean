import Z80Atlas.Proofs.Labels

/-!
# Naming adds names, and is done once

Making up names goes over the graph three times: for the leaders of blocks, for the nodes behind
them, and for data.  Only what has no name gets one, so all names that were there are kept.
Afterwards nothing is left that needs a name, and where nothing needs a name none is made up: naming
a second time changes nothing.  None of this depends on how the blocks were made, so it also holds
for blocks of an earlier state of the graph.
-/

namespace Z80Atlas

/-- A node without its label. -/
def Node.unlabelled (n : Node) : Node := { n with label := none }

namespace FlowGraph

variable {g h h' : FlowGraph} {b : Blocks} {m : Memory} {external other : NameTable} {stems : Stems}
variable {a x : Address} {n : Node} {role : Role}

/-! ### Labels are kept -/

/-- `h` has the nodes of `g`, with labels for some of those that had none. -/
structure Relabelled (g h : FlowGraph) : Prop where
  nodes : ∀ a, (h.get? a).map Node.unlabelled = (g.get? a).map Node.unlabelled
  labels : ∀ {a name}, g.labelAt? a = some name → h.labelAt? a = some name

theorem Relabelled.trans (hgh : Relabelled g h) (hh : Relabelled h h') : Relabelled g h' :=
  ⟨fun a => (hh.nodes a).trans (hgh.nodes a), fun hname => hh.labels (hgh.labels hname)⟩

theorem Relabelled.sameButNames (hgh : Relabelled g h) : SameButNames g h := by
  have hanonymous :
      ∀ o : Option Node, o.map Node.anonymous = (o.map Node.unlabelled).map Node.anonymous := by
    intro o
    cases o <;> rfl
  intro a
  rw [hanonymous, hanonymous (h.get? a), hgh.nodes a]

theorem Relabelled.exists_node (hgh : Relabelled g h) (hn : h.get? a = some n) :
    ∃ n', g.get? a = some n' ∧ n'.unlabelled = n.unlabelled := by
  have hsame := hgh.nodes a
  rw [hn, Option.map_some, eq_comm] at hsame
  exact Option.map_eq_some_iff.mp hsame

theorem relabelled_nameLeaders (g : FlowGraph) (b : Blocks) (stems : Stems) :
    Relabelled g (g.nameLeaders b stems) := by
  constructor
  · intro a
    have hnode : ∀ n, (nameNode stems n).unlabelled = n.unlabelled := by
      intro n
      unfold nameNode
      split <;> rfl
    rw [get?_nameLeaders]
    split
    · cases g.get? a with
      | none => rfl
      | some n => exact congrArg some (hnode n)
    · rfl
  · intro a name hname
    obtain ⟨n, hn, hlabel⟩ := Option.bind_eq_some_iff.mp hname
    have hsame : nameNode stems n = n := if_neg (by simp [hlabel])
    unfold labelAt?
    rw [get?_nameLeaders, hn]
    split
    · rw [Option.map_some, hsame, Option.bind_some, hlabel]
    · rw [Option.bind_some, hlabel]

theorem label_of_roleOf? (h : g.roleOf? b n = some role) : n.label = none := by
  unfold roleOf? at h
  split at h
  · cases h
  next hnone => simpa using hnone

/-- Local names are made up for nodes without a label only. -/
theorem labelAt?_of_mem_names {p : Address × String}
    (hp : p ∈ b.toList.flatMap fun q => g.interiorNames b stems q.1 q.2) :
    g.labelAt? p.1 = none := by
  obtain ⟨q, -, hname⟩ := List.mem_flatMap.mp hp
  have hmem := List.mem_map_of_mem (f := fun p : Address × String => p.1) hname
  have hrole : ∀ {role}, p.1 ∈ g.withRole b role q.2.tail → g.labelAt? p.1 = none := by
    intro role hin
    obtain ⟨n, hn, hsome⟩ :=
      Option.bind_eq_some_iff.mp (of_decide_eq_true (List.mem_filter.mp hin).2)
    rw [labelAt?_eq hn]
    exact label_of_roleOf? hsome
  rw [map_fst_interiorNames, List.mem_append] at hmem
  rcases hmem with hloop | htarget
  · exact hrole hloop
  · exact hrole htarget

theorem unlabelled_foldl_setLabel (names : List (Address × String)) (g : FlowGraph) (a : Address) :
    ((names.foldl (fun g p => g.setLabel p.1 p.2) g).get? a).map Node.unlabelled =
      (g.get? a).map Node.unlabelled := by
  induction names generalizing g with
  | nil => rfl
  | cons p rest ih =>
    rw [List.foldl_cons, ih, setLabel, get?_modify]
    split
    · cases g.get? a <;> rfl
    · rfl

theorem relabelled_nameInteriors (g : FlowGraph) (b : Blocks) (stems : Stems) :
    Relabelled g (g.nameInteriors b stems) := by
  refine ⟨unlabelled_foldl_setLabel _ g, ?_⟩
  intro a name hname
  unfold nameInteriors
  rw [labelAt?_foldl_setLabel]
  · exact hname
  · intro p hp heq
    rw [← heq, labelAt?_of_mem_names hp] at hname
    cases hname

theorem relabelled_assignNames (g : FlowGraph) (b : Blocks) (m : Memory) (external : NameTable)
    (stems : Stems) (other : NameTable) : Relabelled g (g.assignNames b m external stems other).1 :=
  (relabelled_nameLeaders g b stems).trans (relabelled_nameInteriors _ b stems)

/-! ### Nothing is left to name -/

/-- No leader of a block, no node behind one and no data needs a name. -/
structure AllNamed (g : FlowGraph) (b : Blocks) (external other : NameTable) : Prop where
  leaders : ∀ {a n}, b.isLeader a = true → g.get? a = some n → n.label = none →
    n.isReferenced = false
  interiors : ∀ {p a n}, p ∈ b.toList → a ∈ p.2.tail → g.get? a = some n → n.label = none →
    n.callers = #[] ∧ g.jumpsTo n = []
  data : ∀ {n a}, n ∈ g.toList → a ∈ n.dataRefs →
    external.contains a = true ∨ other.contains a = true ∨ (g.labelAt? a).isSome = true

theorem nameLeaders_eq_self (h : ∀ {a n}, b.isLeader a = true → g.get? a = some n → n.label = none →
    n.isReferenced = false) (stems : Stems) : g.nameLeaders b stems = g := by
  apply FlowGraph.ext
  intro a
  rw [get?_nameLeaders]
  split
  next hleader =>
    cases hn : g.get? a with
    | none => rfl
    | some n =>
      have hsame : nameNode stems n = n := by
        refine if_neg ?_
        cases hlabel : n.label with
        | none => simp [h hleader hn hlabel]
        | some name => simp
      rw [Option.map_some, hsame]
  next => rfl

theorem nameInteriors_eq_self
    (h : ∀ {p a n}, p ∈ b.toList → a ∈ p.2.tail → g.get? a = some n → n.label = none →
      n.callers = #[] ∧ g.jumpsTo n = [])
    (stems : Stems) : g.nameInteriors b stems = g := by
  have hrole : ∀ {p}, p ∈ b.toList → ∀ role, g.withRole b role p.2.tail = [] := by
    intro p hp role
    refine List.filter_eq_nil_iff.mpr ?_
    intro a ha hsome
    obtain ⟨n, hn, hrole⟩ := Option.bind_eq_some_iff.mp (of_decide_eq_true hsome)
    have hlabel := label_of_roleOf? hrole
    rw [(roleOf?_eq_none hlabel).mpr (h hp ha hn hlabel)] at hrole
    cases hrole
  have hnames : (b.toList.flatMap fun p => g.interiorNames b stems p.1 p.2) = [] := by
    refine List.flatMap_eq_nil_iff.mpr ?_
    intro p hp
    rw [← List.map_eq_nil_iff (f := fun p : Address × String => p.1), map_fst_interiorNames,
      hrole hp, hrole hp, List.append_nil]
  unfold nameInteriors
  rw [hnames]
  rfl

theorem nameData_eq_self
    (h : ∀ {n a}, n ∈ g.toList → a ∈ n.dataRefs →
      external.contains a = true ∨ other.contains a = true ∨ (g.labelAt? a).isSome = true)
    (m : Memory) (stems : Stems) : g.nameData b m external stems other = other := by
  have hnamed : ∀ a ∈ g.toList.flatMap (·.dataRefs.toList),
      g.nameDatum b m external stems other a = other := by
    intro a ha
    obtain ⟨n, hn, hin⟩ := List.mem_flatMap.mp ha
    refine if_pos ?_
    simpa [or_assoc] using h hn (Array.mem_toList_iff.mp hin)
  unfold nameData
  generalize g.toList.flatMap (·.dataRefs.toList) = refs at hnamed
  induction refs with
  | nil => rfl
  | cons a rest ih =>
    rw [List.foldl_cons, hnamed a List.mem_cons_self]
    exact ih fun x hx => hnamed x (List.mem_cons_of_mem a hx)

/-- Where nothing needs a name, naming changes nothing. -/
theorem AllNamed.assignNames_eq (h : g.AllNamed b external other) (m : Memory) (stems : Stems) :
    g.assignNames b m external stems other = (g, other) := by
  unfold assignNames
  dsimp only
  rw [nameLeaders_eq_self h.leaders, nameInteriors_eq_self h.interiors, nameData_eq_self h.data]

/-- A leader that something leads to has a label once leaders are named, and keeps it. -/
theorem leaders_assignNames (hleader : b.isLeader a = true)
    (hn : ((g.nameLeaders b stems).nameInteriors b stems).get? a = some n)
    (hnone : n.label = none) :
    n.isReferenced = false := by
  have hkept := relabelled_nameInteriors (g.nameLeaders b stems) b stems
  obtain ⟨n₁, hn₁, hsame⟩ := hkept.exists_node hn
  have hnone₁ : n₁.label = none := by
    cases hlabel : n₁.label with
    | none => rfl
    | some name =>
      have hnew := hkept.labels ((labelAt?_eq hn₁).trans hlabel)
      rw [labelAt?_eq hn, hnone] at hnew
      cases hnew
  have hreferenced : n₁.isReferenced = n.isReferenced := by
    show n₁.unlabelled.isReferenced = n.unlabelled.isReferenced
    rw [hsame]
  rw [get?_nameLeaders, if_pos hleader] at hn₁
  obtain ⟨n₀, -, rfl⟩ := Option.map_eq_some_iff.mp hn₁
  rw [← hreferenced]
  unfold nameNode at hnone₁ ⊢
  split at hnone₁
  · cases hnone₁
  next hno =>
    rw [if_neg hno]
    simpa [hnone₁] using hno

/-- A node behind a leader that stays without a label had no role, and has none afterwards. -/
theorem interiors_nameInteriors {p : Address × List Address} (hp : p ∈ b.toList)
    (htail : a ∈ p.2.tail) (hn : (g.nameInteriors b stems).get? a = some n)
    (hnone : n.label = none) :
    n.callers = #[] ∧ (g.nameInteriors b stems).jumpsTo n = [] := by
  have hkept := relabelled_nameInteriors g b stems
  obtain ⟨hleader, hmembers⟩ := Blocks.mem_toList.mp hp
  obtain ⟨n₀, hn₀, hsame⟩ := hkept.exists_node hn
  have hlabel : (g.nameInteriors b stems).labelAt? a = none := (labelAt?_eq hn).trans hnone
  unfold nameInteriors at hlabel
  rw [labelAt?_foldl_setLabel_eq_none hn₀] at hlabel
  obtain ⟨hnone₀, hnot⟩ := hlabel
  rw [labelAt?_eq hn₀] at hnone₀
  -- Neither has a label, so it is the same node.
  have heq : n₀ = n := by
    have hself : ∀ k : Node, k.label = none → k.unlabelled = k := by
      intro k hk
      unfold Node.unlabelled
      rw [← hk]
    rw [← hself n₀ hnone₀, hsame, hself n hnone]
  rw [hmembers] at htail
  have hrole : g.roleOf? b n = none := by
    cases hr : g.roleOf? b n with
    | none => rfl
    | some role => exact absurd ((mem_map_names stems htail hleader hn₀).mpr ⟨role, heq ▸ hr⟩) hnot
  rw [← hkept.sameButNames.jumpsTo_eq n]
  exact (roleOf?_eq_none hnone).mp hrole

theorem data_nameData {h : FlowGraph} (hn : n ∈ h.toList) (ha : a ∈ n.dataRefs) :
    external.contains a = true ∨ (h.nameData b m external stems other).contains a = true ∨
      (h.labelAt? a).isSome = true := by
  cases hexternal : external.contains a with
  | true => exact .inl rfl
  | false =>
    cases hlabel : h.labelAt? a with
    | some name => exact .inr (.inr rfl)
    | none => exact .inr (.inl (contains_nameData hn ha hexternal hlabel))

theorem allNamed_assignNames (g : FlowGraph) (b : Blocks) (m : Memory) (external : NameTable)
    (stems : Stems) (other : NameTable) :
    (g.assignNames b m external stems other).1.AllNamed b external
      (g.assignNames b m external stems other).2 :=
  ⟨leaders_assignNames, interiors_nameInteriors, data_nameData⟩

/-! ### What naming adds -/

/-- `g'` and `other'` are `g` and `other` with more names: labels for nodes that had none, and names
for data that some node refers to. -/
structure NamesAdded (g : FlowGraph) (other : NameTable) (g' : FlowGraph) (other' : NameTable) :
    Prop where
  nodes : ∀ a, (g'.get? a).map Node.unlabelled = (g.get? a).map Node.unlabelled
  labels : ∀ {a name}, g.labelAt? a = some name → g'.labelAt? a = some name
  table : ∀ {a : Address} {name}, other[a]? = some name → other'[a]? = some name
  noted : ∀ {a : Address} {name}, other'[a]? = some name →
    other[a]? = some name ∨ ∃ n ∈ g.toList, a ∈ n.dataRefs

/-- Naming keeps all names that are there, adds names to what needs one and changes nothing else.  A
second time it changes nothing at all. -/
theorem naming_only_adds (g : FlowGraph) (b : Blocks) (m : Memory) (external : NameTable)
    (stems : Stems) (other : NameTable) :
    NamesAdded g other (g.assignNames b m external stems other).1
      (g.assignNames b m external stems other).2 ∧
      (g.assignNames b m external stems other).1.AllNamed b external
        (g.assignNames b m external stems other).2 ∧
        (g.assignNames b m external stems other).1.assignNames b m external stems
          (g.assignNames b m external stems other).2 = g.assignNames b m external stems other := by
  have hkept := relabelled_assignNames g b m external stems other
  have hdone := allNamed_assignNames g b m external stems other
  refine ⟨⟨hkept.nodes, hkept.labels, getElem?_foldl_nameDatum _, ?_⟩, hdone,
    hdone.assignNames_eq m stems⟩
  intro a name hname
  refine (getElem?_nameData hname).imp_right ?_
  intro ⟨⟨n', hn', ha⟩, _⟩
  obtain ⟨x, hx⟩ := mem_toList.mp hn'
  obtain ⟨n, hn, hsame⟩ := hkept.exists_node hx
  have hrefs : n.dataRefs = n'.dataRefs := by
    show n.unlabelled.dataRefs = n'.unlabelled.dataRefs
    rw [hsame]
  exact ⟨n, mem_toList.mpr ⟨x, hn⟩, hrefs ▸ ha⟩

end FlowGraph

end Z80Atlas
