import Z80Atlas.Proofs.History
import Z80Atlas.Proofs.LookBack
import Z80Atlas.Proofs.Lookup

/-!
# Names tell addresses apart

Every name that is made up shows where it belongs: a global name by its digits, a local name by the
label of its block and by its place among the names in the block.  So two addresses with one name
need stems that clash.  The default stems do not clash, and they leave the sign free that stands
before a distance; with them every name that is looked up, local or not, belongs to one address
only.
-/

namespace Z80Atlas

/-! ### Made-up names -/

/-- A name that can be made up for an address: a global one, or a local one in a block with a global
name.  For each block `roles` has the nodes that need a local name. -/
inductive MadeUp (stems : Stems) (roles : Address → FlowGraph.Role → List Address) (a : Address)
    (name : String) : Prop
  | global (h : stems.Global a name)
  | inside (leader : Address) (block text : String) (stem : Stem) (hb : stems.Global leader block)
      (ht : stems.Inside (roles leader .loop) (roles leader .target) a text stem)
      (h : name = localName block text)

namespace MadeUp

variable {stems : Stems} {roles : Address → FlowGraph.Role → List Address} {a b : Address}
  {name : String}

theorem notMem {c : Char} (h : MadeUp stems roles a name) (hs : stems.Lacks c)
    (hc : c.isAlphanum = false) (hpoint : c ≠ '.') : c ∉ name.toList := by
  cases h with
  | global h => exact h.notMem hs hc
  | inside leader block text stem hb ht h =>
    have hblock := hb.notMem hs hc
    have htext := ht.localText.notMem hs hc
    rw [h, localName, String.toList_append, String.toList_append, List.mem_append, List.mem_append]
    intro hmem
    rcases hmem with (hmem | hmem) | hmem
    · exact hblock hmem
    · exact hpoint (List.mem_singleton.mp hmem)
    · exact htext hmem

theorem not_global_of_localName {block text : String} (hs : stems.Lacks '.')
    (h : stems.Global a (localName block text)) : False :=
  h.notMem hs rfl (mem_append_mark rfl)

theorem eq_or_clash (hs : stems.Lacks '.') (h : MadeUp stems roles a name)
    (h' : MadeUp stems roles b name) :
    a = b ∨ stems.Clash := by
  cases h with
  | global h =>
    cases h' with
    | global h' => exact h.eq_or_clash h'
    | inside leader block text stem hb ht heq =>
      rw [heq] at h
      exact (not_global_of_localName hs h).elim
  | inside leader block text stem hb ht heq =>
    cases h' with
    | global h' =>
      rw [heq] at h'
      exact (not_global_of_localName hs h').elim
    | inside leader' block' text' stem' hb' ht' heq' =>
      obtain ⟨rfl, rfl⟩ :=
        append_mark_inj (c := '.') rfl (hb.notMem hs rfl) (ht.localText.notMem hs rfl)
          (heq.symm.trans heq')
      -- Blocks with the same name are the same, and within a block the text decides.
      rcases hb.eq_or_clash hb' with rfl | hclash
      · exact ht.eq_or_clash ht'
      · exact .inr hclash

end MadeUp

/-! ### Names that are looked up -/

namespace Names

variable {ns : Names} {stems : Stems} {roles : Address → FlowGraph.Role → List Address}
variable {a b source leader : Address} {name block : String}

theorem best?_cases (ha : ns.best? a = some name) :
    ns.given? a = some name ∨ ∃ start label, start.toNat ≤ a.toNat ∧ ns.given? start = some label ∧
      name = label ++ "+" ++ toString (a.toNat - start.toNat) := by
  unfold best? at ha
  split at ha
  next given hgiven =>
    cases ha
    exact .inl hgiven
  next =>
    split at ha
    · obtain ⟨start, hstart, hrest⟩ := Option.bind_eq_some_iff.mp ha
      obtain ⟨label, hlabel, hname⟩ := Option.bind_eq_some_iff.mp hrest
      exact .inr ⟨start, label, Memory.openingBefore_le hstart, hlabel,
        (Option.some.inj hname).symm⟩
    · cases ha

theorem isLocal_of_localPart? {part : String} (h : localPart? block name = some part) :
    isLocal part = true := by
  unfold localPart? at h
  split at h
  next rest _ =>
    cases h
    simp [isLocal]
  next => cases h

theorem best?_of_scoped? (ha : ns.scoped? a source = some name) (hl : isLocal name = false) :
    ns.best? a = some name := by
  unfold scoped? at ha
  obtain ⟨best, hbest, hname⟩ := Option.map_eq_some_iff.mp ha
  rw [hbest]
  split at hname
  next =>
    cases hpart : (ns.blockLabel? a).bind (localPart? · best) with
    | none =>
      rw [hpart, Option.getD_none] at hname
      rw [hname]
    | some part =>
      obtain ⟨block, -, hlocal⟩ := Option.bind_eq_some_iff.mp hpart
      rw [hpart, Option.getD_some] at hname
      rw [← hname, isLocal_of_localPart? hlocal] at hl
      cases hl
  next => rw [hname]

namespace Coherent

theorem global_of_leader (hr : ns.graph.Labelled stems roles)
    (hl : ns.graph.blocks.isLeader leader = true) (hb : ns.graph.labelAt? leader = some block) :
    stems.Global leader block := by
  obtain ⟨isSubroutine, hname⟩ := hr.leader hl hb
  rw [hname]
  exact stems.global_globalName leader isSubroutine

theorem madeUp_label (h : ns.Coherent stems) (hr : ns.graph.Labelled stems roles)
    (ha : ns.graph.labelAt? a = some name) : MadeUp stems roles a name := by
  cases hl : ns.graph.blocks.isLeader a with
  | true => exact .global (global_of_leader hr hl ha)
  | false =>
    obtain ⟨leader, htail, hname⟩ := hr.interior hl ha
    cases hname with
    | alone _ hname => exact .global (.wide .target (by decide) hname)
    | inside block text stem hb ht hname =>
      have hleader := FlowGraph.isLeader_of_mem_tail h.division htail
      exact .inside leader block text stem (global_of_leader hr hleader hb) ht hname

theorem madeUp_dataName (h : ns.Coherent stems) (hr : ns.graph.Labelled stems roles) (a : Address) :
    MadeUp stems roles a (ns.graph.dataName ns.blocks ns.memory stems a) := by
  unfold FlowGraph.dataName
  split
  · split
    next block hblock =>
      obtain ⟨leader, hleader, hb⟩ := Option.bind_eq_some_iff.mp hblock
      exact .inside leader block _ _ (global_of_leader hr (h.isLeader_of_leaderOf? hleader) hb)
        (.code rfl) rfl
    next => exact .global (.wide .code (by decide) rfl)
  · exact .global (.wide .data (by decide) rfl)

theorem madeUp_given (h : ns.Coherent stems) (hr : ns.graph.Labelled stems roles)
    (ha : ns.given? a = some name) :
    MadeUp stems roles a name := by
  rw [h.given?_eq, Option.or_eq_some_iff] at ha
  rcases ha with hlabel | ⟨-, hother⟩
  · exact h.madeUp_label hr hlabel
  · rw [h.other hother]
    exact h.madeUp_dataName hr a

theorem given?_eq_or_clash (h : ns.Coherent stems) (ha : ns.given? a = some name)
    (hb : ns.given? b = some name) :
    a = b ∨ stems.Clash := by
  obtain ⟨roles, hr⟩ := h.labelled
  exact (h.madeUp_given hr ha).eq_or_clash (Stems.lacks_point h.valid) (h.madeUp_given hr hb)

/-- With stems that leave the sign of a distance free, a name with a distance is unlike all
others. -/
theorem best?_inj (h : ns.Coherent stems) (hc : ¬stems.Clash) (hs : stems.Lacks '+')
    (ha : ns.best? a = some name) (hb : ns.best? b = some name) : a = b := by
  obtain ⟨roles, hr⟩ := h.labelled
  have hfree : ∀ {x label}, ns.given? x = some label → '+' ∉ label.toList := fun hx =>
    (h.madeUp_given hr hx).notMem hs rfl (by decide)
  rcases best?_cases ha with ha | ⟨start, label, hle, hstart, heq⟩
  · rcases best?_cases hb with hb | ⟨start', label', hle', hstart', heq'⟩
    · exact (h.given?_eq_or_clash ha hb).resolve_right hc
    · rw [heq'] at ha
      exact (hfree ha (mem_append_mark rfl)).elim
  · rcases best?_cases hb with hb | ⟨start', label', hle', hstart', heq'⟩
    · rw [heq] at hb
      exact (hfree hb (mem_append_mark rfl)).elim
    · have hdistance : '+' ∉ (toString (a.toNat - start.toNat)).toList := by
        intro hmem
        exact absurd (isDigit_of_mem_toString hmem) (by decide)
      obtain ⟨rfl, hdigits⟩ :=
        append_mark_inj (c := '+') rfl (hfree hstart) hdistance (heq.symm.trans heq')
      obtain rfl : start = start' := (h.given?_eq_or_clash hstart hstart').resolve_right hc
      have hnat := Nat.repr_injective hdigits
      exact UInt16.toNat_inj.mp (by omega)

theorem scoped?_inj (h : ns.Coherent stems) (hc : ¬stems.Clash) (hs : stems.Lacks '+')
    (ha : ns.scoped? a source = some name) (hb : ns.scoped? b source = some name) : a = b := by
  cases hlocal : isLocal name with
  | true =>
    -- Both are local to the block of the source.
    obtain ⟨leader, block, hleader, hblock, hbest⟩ := h.scoped?_local ha hlocal
    obtain ⟨leader', block', hleader', hblock', hbest'⟩ := h.scoped?_local hb hlocal
    obtain rfl : leader = leader' := Option.some.inj (hleader.symm.trans hleader')
    obtain rfl : block = block' := Option.some.inj (hblock.symm.trans hblock')
    exact h.best?_inj hc hs hbest hbest'
  | false => exact h.best?_inj hc hs (best?_of_scoped? ha hlocal) (best?_of_scoped? hb hlocal)

end Coherent

end Names

/-! ### Sessions -/

namespace Session

theorem coherent_run {s : Session} (hl : s.labels = ∅) (hf : s.settings.fault? = none)
    (entries : List Address) :
    (s.run entries).names.Coherent s.settings.stems := by
  have hinputs := sameInputs_foldl_addEntry s entries
  have hcoherent := coherent_analyse (hinputs.labels.trans hl) (by rw [hinputs.settings]; exact hf)
  rw [hinputs.settings] at hcoherent
  exact hcoherent

/-- Without names from outside two addresses have the same label only if the stems clash.  Settings
in order do not exclude that. -/
theorem same_label_clash {s : Session} (hl : s.labels = ∅) (hf : s.settings.fault? = none)
    (entries : List Address) {a b : Address} {name : String} (hne : a ≠ b)
    (ha : ((s.run entries).atlas.graph.labelAt? a).or (s.run entries).atlas.other[a]? = some name)
    (hb : ((s.run entries).atlas.graph.labelAt? b).or (s.run entries).atlas.other[b]? = some name) :
    s.settings.stems.Clash := by
  have hcoherent := coherent_run hl hf entries
  have hgiven : ∀ x, (s.run entries).names.given? x =
      ((s.run entries).atlas.graph.labelAt? x).or (s.run entries).atlas.other[x]? := by
    intro x
    rw [hcoherent.given?_eq, names_graph, names_other]
  rw [← hgiven] at ha hb
  exact (hcoherent.given?_eq_or_clash ha hb).resolve_left hne

/-- `JR Z,8006h`, `DJNZ 8002h`, `DJNZ 8004h`, `JR 8000h`, where loops have the stem of other places
in a block. -/
def crossing : Session where
  settings := { stems := { loop := "L" } }
  memory := Memory.empty.write 0x8000 [0x28, 0x04, 0x10, 0xFE, 0x10, 0xFE, 0x18, 0xF8]

theorem labelAt?_crossing :
    (crossing.run [0x8000]).atlas.graph.labelAt? 0x8002 = some "LBL_8000.L1" ∧
      (crossing.run [0x8000]).atlas.graph.labelAt? 0x8006 = some "LBL_8000.L1" := by
  decide +kernel

theorem same_label_clash_crossing :
    ((crossing.run [0x8000]).atlas.graph.labelAt? 0x8002).or
      (crossing.run [0x8000]).atlas.other[(0x8002 : Address)]? =
        some "LBL_8000.L1" ∧
      ((crossing.run [0x8000]).atlas.graph.labelAt? 0x8006).or
        (crossing.run [0x8000]).atlas.other[(0x8006 : Address)]? = some "LBL_8000.L1" ∧
      crossing.settings.stems.Clash := by
  obtain ⟨hloop, htarget⟩ := labelAt?_crossing
  have ha := congrArg (·.or (crossing.run [0x8000]).atlas.other[(0x8002 : Address)]?) hloop
  have hb := congrArg (·.or (crossing.run [0x8000]).atlas.other[(0x8006 : Address)]?) htarget
  exact ⟨ha, hb, same_label_clash rfl (by decide) [0x8000] (by decide) ha hb⟩

/-- Settings in order, and a loop and a jump target with the same label. -/
theorem labels_meet_crossing :
    crossing.labels = ∅ ∧ crossing.settings.fault? = none ∧
      (crossing.run [0x8000]).atlas.graph.labelAt? 0x8002 = some "LBL_8000.L1" ∧
      (crossing.run [0x8000]).atlas.graph.labelAt? 0x8006 = some "LBL_8000.L1" :=
  ⟨rfl, by decide, labelAt?_crossing⟩

/-- With the default stems and without names from outside, no two addresses have the same name,
neither as the code at one place writes names nor as they stand alone. -/
theorem names_tell_apart {s : Session} (hl : s.labels = ∅) (hs : s.settings.stems = {})
    (entries : List Address) {a b : Address} (hne : a ≠ b) :
    (∀ source name, (s.run entries).localLabel? a source = some name →
      (s.run entries).localLabel? b source ≠ some name) ∧
    ∀ name, (s.run entries).bestLabel? a = some name →
    (s.run entries).bestLabel? b ≠ some name := by
  have hf : s.settings.fault? = none := by
    unfold Settings.fault?
    rw [hs]
    decide
  have hcoherent := coherent_run hl hf entries
  rw [hs] at hcoherent
  constructor
  · intro source name ha hb
    exact hne (hcoherent.scoped?_inj Stems.not_clash_default Stems.lacks_plus_default ha hb)
  · intro name ha hb
    exact hne (hcoherent.best?_inj Stems.not_clash_default Stems.lacks_plus_default ha hb)

/-- `LD A,(8001h)`, which reads its own operand, and `RET`. -/
def selfReading : Session where
  memory := Memory.empty.write 0x8000 [0x3A, 0x01, 0x80, 0xC9]

theorem names_tell_apart_selfReading :
    (selfReading.run [0x8000]).bestLabel? 0x8000 = some "CODE_8000" ∧
      (selfReading.run [0x8000]).localLabel? 0x8001 0x8000 = some "CODE_8000+1" ∧
      (∀ source name, (selfReading.run [0x8000]).localLabel? 0x8001 source = some name →
        (selfReading.run [0x8000]).localLabel? 0x8000 source ≠ some name) ∧
      ∀ name, (selfReading.run [0x8000]).bestLabel? 0x8001 = some name →
        (selfReading.run [0x8000]).bestLabel? 0x8000 ≠ some name := by
  refine ⟨?_, ?_, names_tell_apart (s := selfReading) rfl rfl [0x8000] (by decide)⟩
  · decide +kernel
  · decide +kernel

end Session

end Z80Atlas
