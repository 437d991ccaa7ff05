import Mathlib.Data.List.Sort
import Z80Atlas.Proofs.Diagnostics
import Z80Atlas.Proofs.Edges
import Z80Atlas.Proofs.Naming

/-!
# What names and settings cannot change

Names from outside start nodes, and so decide how the code is cut into nodes and in which order
these are filled.  What is found in the end depends on the claimed instructions alone: each of them
is collected once, whatever node it is in.  So two analyses of the same program under different
names and settings differ in nothing but nodes, names and texts.
-/

namespace Z80Atlas

/-! ### Memory -/

theorem Memory.Stamped.unique {m m₁ m₂ : Memory} {v : Opcode.Variant} {C : Address → Prop}
    (h₁ : m.Stamped v C m₁) (h₂ : m.Stamped v C m₂) : m₁ = m₂ := by
  apply Memory.ext
  · intro a
    rw [h₁.same.byte, h₂.same.byte]
  · intro a
    apply Marks.ext
    · rw [h₁.same.assigned, h₂.same.assigned]
    · rw [h₁.same.code, h₂.same.code]
    · rw [h₁.same.opening, h₂.same.opening]
    · rw [Bool.eq_iff_iff, h₁.data, h₂.data]
    · rw [h₁.same.traced, h₂.same.traced]
    · rw [Bool.eq_iff_iff, h₁.returns, h₂.returns]

/-! ### Instructions in the order of the nodes -/

theorem FlowGraph.toList_ascending {g : FlowGraph} (h : ∀ {a n}, g.get? a = some n → n.start = a) :
    g.toList.Pairwise fun n n' => n.start.toNat < n'.start.toNat := by
  unfold toList
  rw [List.pairwise_map]
  refine Std.ExtTreeMap.ordered_keys_toList.imp_of_mem ?_
  intro p q hp hq hlt
  rw [h (Std.ExtTreeMap.mem_toList_iff_getElem?_eq_some.mp hp),
    h (Std.ExtTreeMap.mem_toList_iff_getElem?_eq_some.mp hq)]
  exact UInt16.lt_iff_toNat_lt.mp (Std.compare_eq_lt.mp hlt)

namespace Survey

variable {m : Memory} {v : Opcode.Variant} {k : Skips} {amb : Address → Prop} {s s' : Survey}
  {a : Address} {n : Node}

namespace Charted

theorem start_eq (h : Charted m v k amb s) (hn : s.graph.get? a = some n) : n.start = a :=
  (h.tiled.node hn).1

/-- All instructions of a node stand before the next node. -/
theorem listed_ascending (h : Charted m v k amb s) :
    s.graph.listed.Pairwise fun i j => i.address.toNat < j.address.toNat := by
  unfold FlowGraph.listed
  rw [List.pairwise_flatMap]
  constructor
  · intro n hn
    obtain ⟨a, ha⟩ := FlowGraph.mem_toList.mp hn
    cases ho : (m.marks a).opening with
    | true =>
      obtain ⟨-, p, hp⟩ := h.filled_node ha ho
      exact hp.stretch.ascending
    | false =>
      have hnone : n.instructions = #[] := congrArg Node.instructions (h.blank_node ha ho)
      rw [hnone]
      exact .nil
  · refine (FlowGraph.toList_ascending h.start_eq).imp_of_mem ?_
    intro n n' hn hn' hlt i hi j hj
    obtain ⟨a, ha⟩ := FlowGraph.mem_toList.mp hn
    obtain ⟨b, hb⟩ := FlowGraph.mem_toList.mp hn'
    obtain ⟨-, p, hp⟩ := h.filled_of_mem ha hi
    obtain ⟨hstart, q, hq⟩ := h.filled_of_mem hb hj
    have hbefore : i.address.toNat < n'.start.toNat := by
      refine Nat.lt_of_not_le fun hle => ?_
      have hbound := hp.stretch.bounds i hi
      have hpos := m.length_decode_pos v i.address
      rw [← (hp.stretch.of_mem i hi).1] at hpos
      have hmem :=
        hp.stretch.mem_of_opening h.tally.parsed hq.stretch.opening_start (by omega) (by omega)
      have hnode : s.graph.contains n'.start = true :=
        FlowGraph.contains_iff.mpr ⟨n', hstart.symm ▸ hb⟩
      have hsame : n'.start = n.start := hp.interior _ hmem hnode
      rw [hsame] at hlt
      omega
    have hafter := (hq.stretch.bounds j hj).1
    omega

theorem mem_listed (h : Charted m v k amb s) {i : Instruction} :
    i ∈ s.graph.listed ↔ (m.marks i.address).opening = true ∧ i = m.decode v i.address := by
  unfold FlowGraph.listed
  rw [List.mem_flatMap]
  constructor
  · intro ⟨n, hn, hi⟩
    obtain ⟨a, ha⟩ := FlowGraph.mem_toList.mp hn
    obtain ⟨-, p, hp⟩ := h.filled_of_mem ha hi
    exact (hp.stretch.of_mem i hi).symm
  · intro ⟨ho, hi⟩
    obtain ⟨a, body, hbody, j, hj, haddr⟩ := (h.holds_iff i.address).mpr ho
    obtain ⟨n, hn, rfl⟩ := FlowGraph.bodyAt_eq_some_iff.mp hbody
    obtain ⟨-, p, hp⟩ := h.filled_of_mem hn hj
    have hji : j = i := by rw [(hp.stretch.of_mem j hj).1, haddr, ← hi]
    exact ⟨n, FlowGraph.mem_toList.mpr ⟨a, hn⟩, hji ▸ hj⟩

/-- Two charts of the same claimed code list the same instructions. -/
theorem listed_eq (h : Charted m v k amb s) (h' : Charted m v k amb s') :
    s.graph.listed = s'.graph.listed := by
  have hirrefl : Std.Irrefl fun i j : Instruction => i.address.toNat < j.address.toNat :=
    ⟨fun _ => Nat.lt_irrefl _⟩
  have hantisymm : Std.Antisymm fun i j : Instruction => i.address.toNat < j.address.toNat :=
    ⟨fun _ _ hij hji => absurd hij (Nat.lt_asymm hji)⟩
  refine h.listed_ascending.eq_of_mem_iff h'.listed_ascending ?_
  intro i
  rw [h.mem_listed, h'.mem_listed]

/-- The empty nodes stand for the targets that are missing. -/
theorem placeholder_iff (h : Charted m v k amb s) (a : Address) :
    (s.graph.get? a).any (·.isPlaceholder) = true ↔
      (∃ p, (m.marks p).opening = true ∧ m.Leads k (m.decode v p) a) ∧ m.Missing v a := by
  cases hg : s.graph.get? a with
  | none =>
    refine iff_of_false (by simp) ?_
    intro hr
    have hc := (h.tally.vacant a (h.tally.parsed.opening_of_missing hr.2)).mpr hr
    obtain ⟨n, hn⟩ := FlowGraph.contains_iff.mp hc
    rw [hg] at hn
    cases hn
  | some n =>
    rw [Option.any_some, h.isPlaceholder_iff hg]
    constructor
    · intro ho
      exact (h.tally.vacant a ho).mp (FlowGraph.contains_iff.mpr ⟨n, hg⟩)
    · intro hr
      exact h.tally.parsed.opening_of_missing hr.2

theorem sorted_eq (h : Charted m v k amb s) (h' : Charted m v k amb s') :
    s.diagnostics.sorted = s'.diagnostics.sorted := by
  refine Diagnostics.sorted_eq h.tally.noted h'.tally.noted h.tally.distinct h'.tally.distinct ?_
  intro kind a
  cases kind with
  | ambiguous => rw [h.tally.ambiguous, h'.tally.ambiguous]
  | unassigned => rw [h.tally.unassigned, h'.tally.unassigned]
  | differentBank =>
    have hnone : ∀ {s : Survey}, Charted m v k amb s →
        ¬s.diagnostics.has .differentBank a = true := by
      intro s hs hhas
      obtain ⟨d, hd, -, hkind⟩ := Diagnostics.has_iff.mp hhas
      exact hs.tally.sameBank d hd hkind
    exact iff_of_false (hnone h) (hnone h')

end Charted

end Survey

/-! ### Sessions -/

namespace Session

variable {s t : Session}

/-- The two sessions are about the same program: they agree on what is loaded, where it is entered,
what is stepped over and which instructions there are.  Names, all other settings and earlier
findings are free. -/
structure SameProgram (s t : Session) : Prop where
  memory : s.memory.unmark Marks.findings = t.memory.unmark Marks.findings
  entries : s.entries = t.entries
  skips : s.skips = t.skips
  variant : s.settings.variant = t.settings.variant

/-- The two sessions have found the same code in the same memory, with the same diagnostics. -/
structure SameDisassembly (s t : Session) : Prop where
  memory : s.memory = t.memory
  diagnostics : s.atlas.diagnostics.sorted = t.atlas.diagnostics.sorted
  placeholders :
    ∀ a, (s.atlas.graph.get? a).any (·.isPlaceholder) = (t.atlas.graph.get? a).any (·.isPlaceholder)
  listing : s.listing.filterMap Line.code? = t.listing.filterMap Line.code?

/-- The survey that an analysis starts from. -/
def survey (s : Session) : Survey :=
  .fresh (s.memory.unmark Marks.findings) s.settings.variant s.skips

/-- Where the survey of a session ends. -/
def charted (s : Session) : Survey := (s.survey.chart s.entries.toList s.labels).1

theorem graph_analyse (s : Session) : s.charted.graph.SameButNames s.analyse.atlas.graph := by
  have hnamed : s.analyse.atlas.graph =
      (s.charted.graph.markSubroutines.assignNames s.charted.graph.markSubroutines.blocks
        s.charted.memory s.labels s.settings.stems
          (s.survey.chart s.entries.toList s.labels).2).1 := rfl
  rw [hnamed]
  exact (FlowGraph.sameButNames_markSubroutines _).trans
    (FlowGraph.sameButNames_assignNames _ _ _ _ _ _)

theorem listing_analyse (s : Session) :
    s.analyse.listing.filterMap Line.code? =
      s.charted.graph.listed.map fun i =>
        (i.address, s.charted.memory.slice i.address i.length) := by
  rw [s.graph_analyse.listed_eq]
  exact Names.code_listing ..

theorem charted_analyse (s : Session) :
    Survey.Charted (s.survey.discover s.entries.toList).memory s.settings.variant s.skips
      (fun t => (s.survey.discover s.entries.toList).diagnostics.has .ambiguous t = true)
        s.charted :=
  Survey.charted_chart (Memory.unexplored_unmark s.memory) s.settings.variant s.skips
    s.entries.toList s.labels

theorem SameProgram.survey (h : SameProgram s t) : s.survey = t.survey := by
  unfold Session.survey
  rw [h.memory, h.skips, h.variant]

theorem SameProgram.analyse (h : SameProgram s t) : SameDisassembly s.analyse t.analyse := by
  have hs := s.charted_analyse
  have ht := t.charted_analyse
  rw [← h.survey, ← h.entries, ← h.variant, ← h.skips] at ht
  have hmemory : s.charted.memory = t.charted.memory := hs.stamped.unique ht.stamped
  refine ⟨hmemory, hs.sorted_eq ht, ?_, ?_⟩
  · intro a
    rw [← s.graph_analyse.isPlaceholder_eq, ← t.graph_analyse.isPlaceholder_eq, Bool.eq_iff_iff,
      hs.placeholder_iff, ht.placeholder_iff]
  · rw [listing_analyse, listing_analyse, hs.listed_eq ht, hmemory]

theorem SameProgram.addEntry (h : SameProgram s t) (a : Address) :
    SameProgram (s.addEntry a) (t.addEntry a) :=
  { h with entries := congrArg (·.insert a) h.entries }

theorem SameProgram.foldl_addEntry (h : SameProgram s t) (entries : List Address) :
    SameProgram (entries.foldl Session.addEntry s) (entries.foldl Session.addEntry t) := by
  induction entries generalizing s t with
  | nil => exact h
  | cons a rest ih => exact ih (h.addEntry a)

/-- Names and the settings of the text have no influence on what is found: two sessions with the
same program show the same code, with the same diagnostics. -/
theorem names_keep_disassembly (h : SameProgram s t) (entries : List Address) :
    SameDisassembly (s.run entries) (t.run entries) :=
  (h.foldl_addEntry entries).analyse

/-- `CALL 8006h`, `CALL 9000h` and `RET` at `8000h`. -/
def plainCalls : Session where
  memory := Memory.empty.write 0x8000 [0xCD, 0x06, 0x80, 0xCD, 0x00, 0x90, 0xC9]

/-- The same image, with a name for the second call and small letters. -/
def namedCalls : Session :=
  { plainCalls with
    labels := (∅ : NameTable).insert 0x8003 "second"
    settings := { lowercase := true } }

theorem names_keep_disassembly_two_calls :
    SameProgram plainCalls namedCalls ∧
      SameDisassembly (plainCalls.run [0x8000]) (namedCalls.run [0x8000]) ∧
      (plainCalls.run [0x8000]).bestLabel? 0x8003 = none ∧
      (namedCalls.run [0x8000]).bestLabel? 0x8003 = some "second" := by
  have h : SameProgram plainCalls namedCalls := ⟨rfl, rfl, rfl, rfl⟩
  refine ⟨h, names_keep_disassembly h [0x8000], ?_⟩
  decide +kernel

end Session

end Z80Atlas
