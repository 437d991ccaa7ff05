import Z80Atlas.Proofs.Distinct
import Z80Atlas.Proofs.Rendering

/-!
# Operands that refer to data

Filling notes what each instruction refers to, in code the instruction that is hit; naming gives a
name to all that was noted and has none; looking up a place in an instruction goes back to its
start.  The three agree on where that start is, so the operand of an instruction that refers to data
always has a name.
-/

namespace Z80Atlas

/-- An operand that is an address is written as its name, if it has one. -/
theorem Instruction.valueText_of_name {i : Instruction} {names : Resolver} {t : Address}
    {name : String} (ht : i.target? = some t) (hn : names t i.kind i.address = some name)
    (numbers : NumberFormat) :
    i.valueText names numbers = name := by
  unfold target? at ht
  split at ht
  next hkind =>
    rw [Option.some.injEq] at ht
    rw [valueText_of_isAddress hkind, ht, hn, Option.getD_some]
  next => cases ht

/-! ### Looking up -/

/-- Where a name comes from: it was given to the place, or to the instruction around it and the
distance is added. -/
inductive Names.Located (ns : Names) (v : Opcode.Variant) (t : Address) (name : String) : Prop
  | here (h : ns.given? t = some name)
  | within (start : Address) (label : String) (ho : (ns.memory.marks start).opening = true)
      (hc : ns.memory.Covers v start t) (hpos : 1 ≤ t.toNat - start.toNat)
      (hle : t.toNat - start.toNat ≤ 3) (hnone : ns.given? t = none)
      (hl : ns.given? start = some label)
      (h : name = label ++ "+" ++ toString (t.toNat - start.toNat))

namespace Names

variable {ns : Names} {v : Opcode.Variant} {t : Address} {label : String}

theorem given?_eq_none_iff :
    ns.given? t = none ↔
      ns.external.contains t = false ∧ ns.graph.labelAt? t = none ∧
      ns.other.contains t = false := by
  unfold given?
  rw [Option.or_eq_none_iff, Option.or_eq_none_iff, ← Std.ExtTreeMap.isSome_getElem?_eq_contains,
    ← Std.ExtTreeMap.isSome_getElem?_eq_contains, Option.isSome_eq_false_iff,
    Option.isSome_eq_false_iff, Option.isNone_iff_eq_none, Option.isNone_iff_eq_none]

theorem best?_of_given {name : String} (h : ns.given? t = some name) : ns.best? t = some name := by
  unfold best?
  rw [h]

theorem located_of_referent (hp : ns.memory.Parsed v)
    (h : ns.given? (ns.memory.referent t) = some label) :
    ∃ name, ns.best? t = some name ∧ ns.Located v t name := by
  cases hgiven : ns.given? t with
  | some name => exact ⟨name, best?_of_given hgiven, .here hgiven⟩
  | none =>
    have hcode : (ns.memory.marks t).code = true := by
      cases hc : (ns.memory.marks t).code with
      | true => rfl
      | false =>
        -- Outside of the code the reference is to the place itself.
        have hself : ns.memory.referent t = t := by
          unfold Memory.referent
          rw [hc, if_neg Bool.false_ne_true]
        rw [hself, hgiven] at h
        cases h
    obtain ⟨start, ho, hc, hat⟩ := hp.exists_instruction hcode
    rw [hp.referent_eq ho hc] at h
    have hne : start ≠ t := by
      intro heq
      rw [heq, hgiven] at h
      cases h
    have hclosed : (ns.memory.marks t).opening = false := by
      rw [← Bool.not_eq_true]
      intro hopen
      exact hne (hp.apart ho hopen hc)
    have hlength := ns.memory.length_decode_le v start
    have hnat : start.toNat ≠ t.toNat := fun heq => hne (UInt16.toNat_inj.mp heq)
    have hlow := hc.1
    have hhigh := hc.2
    refine ⟨_, ?_, .within start label ho hc (by omega) (by omega) hgiven h rfl⟩
    unfold best?
    rw [hgiven, hcode, hclosed, hat]
    show (ns.given? start).bind _ = _
    rw [h]
    rfl

end Names

/-! ### Sessions -/

namespace Session

variable {s : Session} {i : Instruction} {t : Address}

theorem parsed_analyse (s : Session) : s.analyse.names.memory.Parsed s.settings.variant := by
  rw [names_analyse]
  exact s.charted_analyse.stamped.same.parsed s.charted_analyse.tally.parsed

theorem given?_referent (hi : i ∈ s.analyse.atlas.graph.listed) (ht : i.RefersTo t) :
    ∃ label, s.analyse.names.given? (s.analyse.names.memory.referent t) = some label := by
  have h := s.charted_analyse
  have hnamed :
      s.charted.graph.SameButNames (s.charted.graph.markSubroutines.named s.settings.stems) :=
    (FlowGraph.sameButNames_markSubroutines _).trans (FlowGraph.sameButNames_named _ _)
  rw [← s.graph_analyse.listed_eq, FlowGraph.listed, List.mem_flatMap] at hi
  obtain ⟨n, hn, hi⟩ := hi
  obtain ⟨a, ha⟩ := FlowGraph.mem_toList.mp hn
  obtain ⟨-, p, hp⟩ := h.filled_of_mem ha hi
  obtain ⟨n', hn', heq⟩ := hnamed.exists_node ha
  have href : s.charted.memory.referent t ∈ n'.dataRefs := by
    show _ ∈ n'.anonymous.dataRefs
    rw [heq, h.stamped.same.referent_eq]
    exact hp.refs i hi t ht
  rw [names_analyse, ← Option.ne_none_iff_exists']
  intro hnone
  obtain ⟨hexternal, hlabel, hother⟩ := Names.given?_eq_none_iff.mp hnone
  dsimp only at hexternal hlabel hother
  rw [FlowGraph.contains_nameData (FlowGraph.mem_toList.mpr ⟨a, hn'⟩) href hexternal
    hlabel] at hother
  cases hother

/-- An instruction that refers to data has a name for its operand, whatever names came from outside:
the one given to the place, or the one given to the instruction around it with the distance.  So the
operand is never written as a number. -/
theorem data_operands_named (s : Session) (entries : List Address)
    (hi : i ∈ (s.run entries).atlas.graph.listed) (ht : i.RefersTo t) :
    (∃ name, (s.run entries).bestLabel? t = some name ∧
      (s.run entries).names.Located s.settings.variant t name) ∧
    ∃ name, (s.run entries).names.resolve t .data i.address = some name ∧
      ∀ numbers, i.valueText (s.run entries).names.resolve numbers = name := by
  have hvariant : (entries.foldl addEntry s).settings.variant = s.settings.variant :=
    congrArg Settings.variant (sameInputs_foldl_addEntry s entries).settings
  have hparsed := (entries.foldl addEntry s).parsed_analyse
  obtain ⟨label, hlabel⟩ := given?_referent hi ht
  obtain ⟨name, hbest, hlocated⟩ := Names.located_of_referent hparsed hlabel
  rw [hvariant] at hlocated
  obtain ⟨hkind, htarget⟩ := ht
  have hscoped : ∃ name, (s.run entries).names.scoped? t i.address = some name :=
    ⟨_, congrArg (Option.map _) hbest⟩
  obtain ⟨written, hwritten⟩ := hscoped
  have hresolve := (Names.resolve_of_target htarget).trans hwritten
  refine ⟨⟨name, hbest, hlocated⟩, written, ?_, Instruction.valueText_of_name htarget hresolve⟩
  rw [← hkind]
  exact hresolve

/-- An instruction that reads its own operand. -/
theorem data_operands_named_selfReading :
    ∃ i ∈ (selfReading.run [0x8000]).atlas.graph.listed, i.RefersTo 0x8001 ∧
      (∃ name, (selfReading.run [0x8000]).bestLabel? 0x8001 = some name ∧
        (selfReading.run [0x8000]).names.Located selfReading.settings.variant 0x8001 name) ∧
      ∃ name, (selfReading.run [0x8000]).names.resolve 0x8001 .data i.address = some name ∧
        ∀ numbers, i.valueText (selfReading.run [0x8000]).names.resolve numbers = name := by
  have hfound : ((selfReading.run [0x8000]).atlas.graph.listed.find?
      fun i => i.kind == .data && i.target? == some 0x8001).isSome = true := by decide +kernel
  obtain ⟨i, hi⟩ := Option.isSome_iff_exists.mp hfound
  have hmem := List.mem_of_find?_eq_some hi
  have hrefers : i.RefersTo 0x8001 := by
    have hboth := List.find?_some hi
    rw [Bool.and_eq_true, beq_iff_eq, beq_iff_eq] at hboth
    exact hboth
  have hnamed := data_operands_named selfReading [0x8000] hmem hrefers
  exact ⟨i, hmem, hrefers, hnamed⟩

end Session

end Z80Atlas
