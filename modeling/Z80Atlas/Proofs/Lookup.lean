import Z80Atlas.Proofs.Labels

/-!
# Looking up made-up names

Where all names were made up, whoever looks up a name in a block gets one of two things: a name that
stands alone, or what follows the label of the block in it.  So a local name and the label of the
block together are the whole name.
-/

namespace Z80Atlas

/-- Whether a name starts with the point of a local name. -/
def isLocal (name : String) : Bool := name.toList.head? == some '.'

theorem Plain.isLocal_eq {name : String} (h : Plain name) : isLocal name = false := by
  obtain ⟨c, rest, hname, hc⟩ := h
  simp [isLocal, hname, hc]

/-- The nodes stand apart from each other, and those that are not empty in the code. -/
structure FlowGraph.Placed (g : FlowGraph) (m : Memory) : Prop where
  start : ∀ {a n}, g.get? a = some n → n.start = a
  apart : ∀ {a b n n'}, g.get? a = some n → g.get? b = some n' → a ≠ b →
    ∀ x, ¬(n.covers x = true ∧ n'.covers x = true)
  code : ∀ {a n}, g.get? a = some n → n.isPlaceholder = false →
    n.covers a = true ∧ (m.marks a).code = true ∧ (m.marks a).opening = true
  covers : ∀ {a n}, g.get? a = some n → ∀ i ∈ n.instructions.toList, n.covers i.address = true

/-- Names do not matter to where nodes stand. -/
theorem FlowGraph.Placed.of_sameButNames {g h : FlowGraph} {m : Memory} (hp : g.Placed m)
    (hgh : SameButNames g h) :
    h.Placed m := by
  have hnode : ∀ {a n}, h.get? a = some n → ∃ n', g.get? a = some n' ∧ n'.anonymous = n.anonymous :=
    hgh.symm.exists_node
  have hcovers : ∀ {n n' : Node}, n'.anonymous = n.anonymous → ∀ x, n'.covers x = n.covers x :=
    fun heq x => congrArg (·.covers x) heq
  refine ⟨?_, ?_, ?_, ?_⟩
  · intro a n hn
    obtain ⟨n', hn', heq⟩ := hnode hn
    have hstart := hp.start hn'
    show n.anonymous.start = a
    rw [← heq]
    exact hstart
  · intro a b n m hn hm hne x hx
    obtain ⟨n', hn', heq⟩ := hnode hn
    obtain ⟨m', hm', heq'⟩ := hnode hm
    refine hp.apart hn' hm' hne x ?_
    rw [hcovers heq, hcovers heq']
    exact hx
  · intro a n hn hfull
    obtain ⟨n', hn', heq⟩ := hnode hn
    have hempty : n'.isPlaceholder = n.isPlaceholder := congrArg (·.isPlaceholder) heq
    rw [← hcovers heq]
    exact hp.code hn' (hempty.trans hfull)
  · intro a n hn i hi
    obtain ⟨n', hn', heq⟩ := hnode hn
    have hinstructions : n'.anonymous.instructions = n.anonymous.instructions :=
      congrArg Node.instructions heq
    have hmem : i ∈ n.anonymous.instructions.toList := hi
    rw [← hinstructions] at hmem
    rw [← hcovers heq]
    exact hp.covers hn' i hmem

namespace Names

/-! ### Local parts -/

theorem localPart?_eq_some {block name part : String} (h : localPart? block name = some part) :
    name = block ++ part := by
  unfold localPart? at h
  split at h
  next rest hrest =>
    rw [Option.some.injEq] at h
    rw [List.isPrefixOf?_eq_some_iff_append_eq] at hrest
    rw [← String.toList_inj, String.toList_append, ← hrest, ← h, String.toList_ofList]
  next => cases h

theorem localPart?_localName (block text : String) :
    localPart? block (localName block text) = some (String.ofList ('.' :: text.toList)) := by
  have hrest :
      block.toList.isPrefixOf? (localName block text).toList = some ('.' :: text.toList) := by
    rw [List.isPrefixOf?_eq_some_iff_append_eq, localName, String.toList_append,
      String.toList_append, List.append_assoc]
    rfl
  unfold localPart?
  rw [hrest]
  rfl

theorem localPart?_self (block : String) : localPart? block block = none := by
  have hrest : block.toList.isPrefixOf? block.toList = some [] := by
    rw [List.isPrefixOf?_eq_some_iff_append_eq, List.append_nil]
  unfold localPart?
  rw [hrest]

/-! ### Operands -/

theorem resolve_of_target {ns : Names} {i : Instruction} {target source : Address}
    (ht : i.target? = some target) :
    ns.resolve target i.kind source = ns.scoped? target source := by
  unfold Instruction.target? at ht
  unfold resolve
  cases hk : i.kind with
  | word => simp [hk, OperandKind.isAddress, OperandKind.isCode] at ht
  | wordBigEndian => simp [hk, OperandKind.isAddress, OperandKind.isCode] at ht
  | _ => rfl

/-! ### Coherence -/

/-- The names that an analysis makes up where none came from outside: blocks and labels belong to
the graph, and data is named after its place. -/
structure Coherent (ns : Names) (stems : Stems) : Prop where
  valid : stems.fault? = none
  external : ns.external = ∅
  blocks : ns.blocks = ns.graph.blocks
  labelled : ∃ roles, ns.graph.Labelled stems roles
  other : ∀ {a name}, ns.other[a]? = some name →
    name = ns.graph.dataName ns.blocks ns.memory stems a
  placed : ns.graph.Placed ns.memory

variable {ns : Names} {stems : Stems} {a x source leader : Address} {name block : String} {n : Node}
variable {p q : Address × Node}

namespace Coherent

theorem division (h : ns.Coherent stems) : FlowGraph.Division ns.graph.placement :=
  FlowGraph.division_placement (FlowGraph.toList_ascending h.placed.start)

theorem get?_of_placed (h : ns.Coherent stems) (hp : p ∈ ns.graph.placement) :
    ns.graph.get? p.2.start = some p.2 := by
  have hmem : p.2 ∈ ns.graph.toList := by
    rw [← FlowGraph.map_snd_placement]
    exact List.mem_map_of_mem hp
  obtain ⟨a, ha⟩ := FlowGraph.mem_toList.mp hmem
  rw [h.placed.start ha]
  exact ha

/-- A block covers what its nodes cover. -/
theorem leaderOf?_iff (h : ns.Coherent stems) :
    ns.blocks.leaderOf? x = some leader ↔
      ∃ n, (leader, n) ∈ ns.graph.placement ∧ n.covers x = true := by
  rw [h.blocks]
  refine FlowGraph.leaderOf?_blocks ?_
  intro p hp q hq hpx hqx
  by_contra hne
  have hstart : p.2.start ≠ q.2.start := fun heq => hne (h.division.eq_of_start hp hq heq)
  exact h.placed.apart (h.get?_of_placed hp) (h.get?_of_placed hq) hstart x ⟨hpx, hqx⟩

theorem leaderOf?_of_covers (h : ns.Coherent stems) (hp : p ∈ ns.graph.placement)
    (hx : p.2.covers x = true) :
    ns.blocks.leaderOf? x = some p.1 := h.leaderOf?_iff.mpr ⟨p.2, hp, hx⟩

theorem isLeader_of_leaderOf? (h : ns.Coherent stems) (hx : ns.blocks.leaderOf? x = some leader) :
    ns.graph.blocks.isLeader leader = true := by
  obtain ⟨n, hn, -⟩ := h.leaderOf?_iff.mp hx
  exact FlowGraph.isLeader_blocks.mpr ⟨n, hn⟩

/-! ### Names that stand alone -/

theorem given?_eq (h : ns.Coherent stems) (a : Address) :
    ns.given? a = (ns.graph.labelAt? a).or ns.other[a]? := by
  unfold given?
  rw [h.external, Std.ExtTreeMap.getElem?_empty, Option.none_or]

theorem plain_label (h : ns.Coherent stems) (ha : ns.graph.labelAt? a = some name) :
    Plain name := by
  obtain ⟨roles, hlabelled⟩ := h.labelled
  have hleader : ∀ {a name}, ns.graph.blocks.isLeader a = true → ns.graph.labelAt? a = some name →
      Plain name := by
    intro a name hl ha
    obtain ⟨isSubroutine, hname⟩ := hlabelled.leader hl ha
    rw [hname]
    exact Stems.plain_globalName h.valid a isSubroutine
  cases hl : ns.graph.blocks.isLeader a with
  | true => exact hleader hl ha
  | false =>
    obtain ⟨leader, htail, hname⟩ := hlabelled.interior hl ha
    cases hname with
    | alone _ hname =>
      rw [hname]
      exact Stems.plain_targetName h.valid a
    | inside block text _ hb _ hname =>
      rw [hname]
      exact (hleader (FlowGraph.isLeader_of_mem_tail h.division htail) hb).localName text

theorem plain_given (h : ns.Coherent stems) (ha : ns.given? a = some name) : Plain name := by
  rw [h.given?_eq, Option.or_eq_some_iff] at ha
  rcases ha with hlabel | ⟨-, hother⟩
  · exact h.plain_label hlabel
  · rw [h.other hother]
    unfold FlowGraph.dataName
    split
    · split
      next block hblock =>
        obtain ⟨leader, -, hlabel⟩ := Option.bind_eq_some_iff.mp hblock
        exact (h.plain_label hlabel).localName _
      next => exact (Stems.plain_get h.valid .code).append _
    · exact (Stems.plain_get h.valid .data).append _

theorem plain_best (h : ns.Coherent stems) (ha : ns.best? a = some name) : Plain name := by
  unfold best? at ha
  split at ha
  next given hgiven =>
    cases ha
    exact h.plain_given hgiven
  next =>
    split at ha
    · obtain ⟨start, -, hrest⟩ := Option.bind_eq_some_iff.mp ha
      obtain ⟨given, hgiven, hname⟩ := Option.bind_eq_some_iff.mp hrest
      cases hname
      exact ((h.plain_given hgiven).append _).append _
    · cases ha

/-! ### Names in a block -/

/-- A local name is what follows the label of the block where it is written. -/
theorem scoped?_local (h : ns.Coherent stems) (hs : ns.scoped? x source = some name)
    (hl : isLocal name = true) :
    ∃ leader block, ns.blocks.leaderOf? source = some leader ∧
    ns.graph.labelAt? leader = some block ∧
      ns.best? x = some (block ++ name) := by
  unfold scoped? at hs
  obtain ⟨best, hbest, hname⟩ := Option.map_eq_some_iff.mp hs
  have hplain : best ≠ name := by
    intro heq
    rw [heq] at hbest
    exact absurd (hl.symm.trans (h.plain_best hbest).isLocal_eq) (by decide)
  split at hname
  next htogether =>
    cases hpart : (ns.blockLabel? x).bind (localPart? · best) with
    | none =>
      rw [hpart] at hname
      exact absurd hname hplain
    | some part =>
      rw [hpart, Option.getD_some] at hname
      obtain ⟨block, hblock, hpart⟩ := Option.bind_eq_some_iff.mp hpart
      obtain ⟨leader, hleader, hlabel⟩ := Option.bind_eq_some_iff.mp hblock
      unfold Blocks.together at htogether
      rw [Bool.and_eq_true, beq_iff_eq, hleader] at htogether
      refine ⟨leader, block, htogether.2.symm, hlabel, ?_⟩
      rw [hbest, localPart?_eq_some hpart, hname]
  next => exact absurd hname hplain

/-- What a node is called in its own block. -/
theorem scoped?_self (h : ns.Coherent stems) (hp : p ∈ ns.graph.placement)
    (hfull : p.2.isPlaceholder = false) (hblock : ns.graph.labelAt? p.1 = some block) :
    ns.scoped? p.2.start p.2.start = (ns.given? p.2.start).map fun name =>
      (localPart? block name).getD name := by
  obtain ⟨hcovers, -, hopening⟩ := h.placed.code (h.get?_of_placed hp) hfull
  have hleader := h.leaderOf?_of_covers hp hcovers
  have hbest : ns.best? p.2.start = ns.given? p.2.start := by
    unfold best?
    cases ns.given? p.2.start with
    | some name => rfl
    | none => simp [hopening]
  have htogether : ns.blocks.together p.2.start p.2.start = true := by
    simp [Blocks.together, hleader]
  have hlabel : ns.blockLabel? p.2.start = some block := by
    unfold blockLabel?
    rw [hleader, Option.bind_some, hblock]
  unfold scoped?
  rw [hbest]
  simp only [htogether, hlabel, if_true, Option.bind_some]

/-- The leader is called by its label. -/
theorem scoped?_leader (h : ns.Coherent stems) (hp : p ∈ ns.graph.placement)
    (hfull : p.2.isPlaceholder = false) (hself : p.2.start = p.1)
    (hblock : ns.graph.labelAt? p.1 = some block) :
    ns.scoped? p.2.start p.2.start = some block := by
  rw [h.scoped?_self hp hfull hblock, h.given?_eq, hself, hblock, Option.some_or, Option.map_some,
    localPart?_self, Option.getD_none]

/-- Another node of a block with a label has a local name, if it has one. -/
theorem isLocal_scoped? (h : ns.Coherent stems) (hp : p ∈ ns.graph.placement)
    (hfull : p.2.isPlaceholder = false) (hne : p.2.start ≠ p.1)
    (hblock : ns.graph.labelAt? p.1 = some block)
    (hs : ns.scoped? p.2.start p.2.start = some name) : isLocal name = true := by
  obtain ⟨hcovers, hcode, -⟩ := h.placed.code (h.get?_of_placed hp) hfull
  have hleader := h.leaderOf?_of_covers hp hcovers
  have hgiven : ∀ given, ns.given? p.2.start = some given →
      ∃ text, given = localName block text := by
    intro given hg
    rw [h.given?_eq, Option.or_eq_some_iff] at hg
    rcases hg with hlabel | ⟨-, hother⟩
    · have hinside : ns.graph.blocks.isLeader p.2.start = false := by
        rw [← Bool.not_eq_true]
        intro hl
        obtain ⟨n, hn⟩ := FlowGraph.isLeader_blocks.mp hl
        exact hne (h.division.leads_itself hn hp rfl).symm
      obtain ⟨roles, hlabelled⟩ := h.labelled
      obtain ⟨leader, htail, hname⟩ := hlabelled.interior hinside hlabel
      obtain ⟨n, hn, hstart, -⟩ := (FlowGraph.mem_tail_iff h.division).mp htail
      have hsame : (leader, n) = p := h.division.eq_of_start hn hp hstart
      rw [← hsame] at hblock
      cases hname with
      | alone hb _ => exact absurd (hb.symm.trans hblock) (by simp)
      | inside block' text _ hb _ hname =>
        cases hb.symm.trans hblock
        exact ⟨text, hname⟩
    · have hname := h.other hother
      unfold FlowGraph.dataName at hname
      rw [if_pos hcode, hleader, Option.bind_some, hblock] at hname
      exact ⟨_, hname⟩
  rw [h.scoped?_self hp hfull hblock] at hs
  obtain ⟨given, hg, hname⟩ := Option.map_eq_some_iff.mp hs
  obtain ⟨text, htext⟩ := hgiven given hg
  rw [htext, localPart?_localName, Option.getD_some] at hname
  rw [← hname]
  simp [isLocal]

end Coherent

end Names

/-- The names that are made up for a graph whose nodes have none. -/
theorem FlowGraph.coherent_named {g : FlowGraph} {m : Memory} {stems : Stems}
    (hf : stems.fault? = none) (hg : ∀ a, g.labelAt? a = none) (hp : g.Placed m) :
    Names.Coherent
      { external := ∅
        graph := g.named stems
        other := (g.named stems).nameData g.blocks m ∅ stems ∅
        blocks := g.blocks
        memory := m } stems where
  valid := hf
  external := rfl
  blocks := (g.sameButNames_named stems).blocks_eq
  labelled := ⟨_, labelled_named hg hp.start (division_placement (toList_ascending hp.start)) stems⟩
  other := by
    intro a name hname
    cases getElem?_nameData hname with
    | inl hold =>
      rw [Std.ExtTreeMap.getElem?_empty] at hold
      cases hold
    | inr hdata => exact hdata.2
  placed := hp.of_sameButNames (g.sameButNames_named stems)

/-! ### Sessions -/

namespace Session

variable {s : Session}

theorem placed_charted (s : Session) : s.charted.graph.Placed s.charted.memory := by
  have h := s.charted_analyse
  have htiled := h.tiled
  refine ⟨fun hn => (htiled.node hn).1, htiled.apart, ?_, ?_⟩
  · intro a n hn hfull
    have ho := h.opening_of_full hn hfull
    obtain ⟨hstart, p, hp⟩ := h.filled_node hn ho
    have hcovers : n.covers a = true := by
      refine hp.covers_iff.mpr ⟨_, hp.stretch.mem_start, ?_⟩
      rw [Memory.address_decode, hstart]
      exact Memory.covers_self _ _ a
    exact ⟨hcovers, (htiled.union a).mpr ⟨a, n, hn, hcovers⟩, (h.stamped.same.opening a).trans ho⟩
  · intro a n hn i hi
    obtain ⟨-, p, hp⟩ := h.filled_of_mem hn hi
    exact hp.covers_iff.mpr ⟨i, hi, Memory.covers_self _ _ _⟩

theorem labelAt?_charted {a : Address} (ha : s.labels[a]? = none) :
    s.charted.graph.labelAt? a = none :=
  Survey.labelAt?_chart_of_none (Memory.unexplored_unmark s.memory) s.settings.variant s.skips
    s.entries.toList ha

theorem analyse_eq (s : Session) :
    s.analyse =
      { s with
        memory := s.charted.memory
        atlas :=
          { graph :=
              (s.charted.graph.markSubroutines.assignNames s.charted.graph.markSubroutines.blocks
                s.charted.memory s.labels s.settings.stems
                (s.survey.chart s.entries.toList s.labels).2).1
            blocks := s.charted.graph.markSubroutines.blocks
            other :=
              (s.charted.graph.markSubroutines.assignNames s.charted.graph.markSubroutines.blocks
                s.charted.memory s.labels s.settings.stems
                (s.survey.chart s.entries.toList s.labels).2).2
            diagnostics := s.charted.diagnostics } } := rfl

theorem names_graph (s : Session) : s.names.graph = s.atlas.graph := rfl

theorem names_other (s : Session) : s.names.other = s.atlas.other := rfl

/-- What names are looked up in after an analysis. -/
theorem names_analyse (s : Session) :
    s.analyse.names =
      { external := s.labels
        graph := s.charted.graph.markSubroutines.named s.settings.stems
        other := (s.charted.graph.markSubroutines.named s.settings.stems).nameData
          s.charted.graph.markSubroutines.blocks s.charted.memory s.labels s.settings.stems
            (s.survey.chart s.entries.toList s.labels).2
        blocks := s.charted.graph.markSubroutines.blocks
        memory := s.charted.memory } := by
  rw [analyse_eq, FlowGraph.assignNames_blocks]
  dsimp only [names]

/-- An analysis without names from outside makes up all of its names. -/
theorem coherent_analyse (hl : s.labels = ∅) (hf : s.settings.fault? = none) :
    s.analyse.names.Coherent s.settings.stems := by
  have hleft : (s.survey.chart s.entries.toList s.labels).2 = ∅ := by
    rw [hl]
    exact congrArg Prod.snd (Survey.seed_empty _)
  have hplaced :=
    s.placed_charted.of_sameButNames (FlowGraph.sameButNames_markSubroutines s.charted.graph)
  have hnone : ∀ a, s.charted.graph.markSubroutines.labelAt? a = none := by
    intro a
    rw [FlowGraph.labelAt?_markSubroutines]
    refine labelAt?_charted ?_
    rw [hl]
    exact Std.ExtTreeMap.getElem?_empty
  rw [names_analyse, hleft, hl]
  exact FlowGraph.coherent_named hf hnone hplaced

end Session

end Z80Atlas
