import Z80Atlas.Proofs.History
import Z80Atlas.Proofs.Lookup

/-!
# The scope of local names

A listing goes through the blocks one after the other.  Where the leader of a block has a label, the
first line of the block is that label, and no other line up to the end of the block is the label of
a node that is not local.  So a reader who comes to a local name finds the label that it belongs to
by going back to the last label that is not local.
-/

namespace Z80Atlas

/-- Whether the line is a label that is not local. -/
def Line.isGlobal : Line → Bool
  | .label _ name => !isLocal name
  | .instruction _ _ _ => false

theorem exists_of_flatMap_eq {α β : Type} {f : α → List β} {xs : List α}
    {before after : List β} {y : β} (h : xs.flatMap f = before ++ y :: after) :
    ∃ pre x post start rest, xs = pre ++ x :: post ∧ f x = start ++ y :: rest ∧
    before = pre.flatMap f ++ start := by
  induction xs generalizing before with
  | nil => simp at h
  | cons x xs ih =>
    rw [List.flatMap_cons] at h
    rcases List.append_eq_append_iff.mp h with ⟨middle, hbefore, hrest⟩ | ⟨middle, hx, hrest⟩
    · obtain ⟨pre, x', post, start, rest, hxs, hfx, hmiddle⟩ := ih hrest
      refine ⟨x :: pre, x', post, start, rest, ?_, hfx, ?_⟩
      · rw [hxs, List.cons_append]
      · rw [hbefore, hmiddle, List.flatMap_cons, List.append_assoc]
    · cases middle with
      | nil =>
        have hrest : xs.flatMap f = [] ++ y :: after := hrest.symm
        obtain ⟨pre, x', post, start, rest, hxs, hfx, hnil⟩ := ih hrest
        refine ⟨x :: pre, x', post, start, rest, ?_, hfx, ?_⟩
        · rw [hxs, List.cons_append]
        · rw [List.append_nil] at hx
          rw [List.flatMap_cons, List.append_assoc, ← hnil, List.append_nil, hx]
      | cons y' rest =>
        rw [List.cons_append] at hrest
        obtain ⟨rfl, -⟩ := List.cons.inj hrest
        exact ⟨[], x, xs, before, rest, rfl, hx, rfl⟩

namespace Names

variable {ns : Names} {stems : Stems} {settings : Settings} {source target : Address}
  {block name : String}
variable {p : Address × Node} {n : Node} {line : Line} {before after start rest : List Line}

/-! ### The lines of a node -/

theorem filter_instructionLines (ns : Names) (settings : Settings) (is : List Instruction) :
    (is.map (ns.instructionLine settings)).filter (·.isGlobal) = [] := by
  rw [List.filter_eq_nil_iff]
  intro line hline
  obtain ⟨i, -, rfl⟩ := List.mem_map.mp hline
  simp [instructionLine, Line.isGlobal]

theorem nodeLines_of_name (h : ns.scoped? n.start n.start = some name) :
    ns.nodeLines settings n =
      .label n.start name :: n.instructions.toList.map (ns.instructionLine settings) := by
  unfold nodeLines
  rw [h]
  rfl

/-- Behind any line of a node there are instructions only. -/
theorem filter_behind (h : ns.nodeLines settings n = start ++ line :: rest) :
    rest.filter (·.isGlobal) = [] := by
  have hinside : ∀ {start}, n.instructions.toList.map (ns.instructionLine settings) =
      start ++ line :: rest → rest.filter (·.isGlobal) = [] := by
    intro start heq
    have hall := ns.filter_instructionLines settings n.instructions.toList
    rw [heq, List.filter_append, List.filter_cons] at hall
    split at hall
    · simp at hall
    · exact (List.append_eq_nil_iff.mp hall).2
  cases hname : ns.scoped? n.start n.start with
  | none =>
    unfold nodeLines at h
    rw [hname] at h
    exact hinside h
  | some name =>
    rw [nodeLines_of_name hname] at h
    cases start with
    | nil =>
      obtain ⟨-, hrest⟩ := List.cons.inj h
      rw [← hrest]
      exact ns.filter_instructionLines settings _
    | cons first start => exact hinside (List.cons.inj h).2

/-- The lines of a node, none if it is empty. -/
def placedLines (ns : Names) (settings : Settings) (p : Address × Node) : List Line :=
  if p.2.isPlaceholder then [] else ns.nodeLines settings p.2

theorem listing_eq_flatMap (ns : Names) (settings : Settings) :
    ns.listing settings = ns.graph.placement.flatMap (ns.placedLines settings) := by
  unfold listing
  rw [← FlowGraph.map_snd_placement]
  induction ns.graph.placement with
  | nil => rfl
  | cons p ps ih =>
    rw [List.map_cons, List.filter_cons, List.flatMap_cons, ← ih]
    unfold placedLines
    cases p.2.isPlaceholder <;> rfl

namespace Coherent

theorem filter_leader (h : ns.Coherent stems) (hp : p ∈ ns.graph.placement)
    (hfull : p.2.isPlaceholder = false) (hself : p.2.start = p.1)
    (hblock : ns.graph.labelAt? p.1 = some block) :
    (ns.placedLines settings p).filter (·.isGlobal) = [.label p.1 block] := by
  have hglobal : (Line.label p.2.start block).isGlobal = true := by
    simp [Line.isGlobal, (h.plain_label hblock).isLocal_eq]
  unfold placedLines
  rw [hfull, if_neg Bool.false_ne_true, nodeLines_of_name (h.scoped?_leader hp hfull hself hblock),
    List.filter_cons_of_pos hglobal, filter_instructionLines, hself]

theorem filter_interior (h : ns.Coherent stems) (hp : p ∈ ns.graph.placement)
    (hne : p.2.start ≠ p.1) (hblock : ns.graph.labelAt? p.1 = some block) :
    (ns.placedLines settings p).filter (·.isGlobal) = [] := by
  unfold placedLines
  split
  · rfl
  next hfull =>
    rw [Bool.not_eq_true] at hfull
    cases hname : ns.scoped? p.2.start p.2.start with
    | none =>
      unfold nodeLines
      rw [hname]
      exact ns.filter_instructionLines settings _
    | some name =>
      have hlocal : ¬(Line.label p.2.start name).isGlobal = true := by
        simp [Line.isGlobal, h.isLocal_scoped? hp hfull hne hblock hname]
      rw [nodeLines_of_name hname, List.filter_cons_of_neg hlocal, filter_instructionLines]

end Coherent

/-! ### Names on a line -/

/-- The line at `source` writes the name of `target`: it is the label of a node, or an instruction
with that address for its operand. -/
inductive Writes (ns : Names) (settings : Settings) :
    Line → (source target : Address) → (name : String) → Prop
  | label (a : Address) (name : String) : ns.Writes settings (.label a name) a a name
  | operand {i : Instruction} {target : Address} {name : String} (hi : i ∈ ns.graph.listed)
      (ht : i.target? = some target) (hn : ns.resolve target i.kind i.address = some name) :
      ns.Writes settings (ns.instructionLine settings i) i.address target name

theorem Coherent.writes (h : ns.Coherent stems) (hp : p ∈ ns.graph.placement)
    (hfull : p.2.isPlaceholder = false) (hline : line ∈ ns.nodeLines settings p.2)
    (hw : ns.Writes settings line source target name) :
    p.2.covers source = true ∧ ns.scoped? target source = some name := by
  unfold nodeLines at hline
  rw [List.mem_append, Option.mem_toList, Option.map_eq_some_iff, List.mem_map] at hline
  cases hw with
  | label a name =>
    rcases hline with ⟨name', hname, heq⟩ | ⟨i, -, heq⟩
    · cases heq
      exact ⟨(h.placed.code (h.get?_of_placed hp) hfull).1, hname⟩
    · cases heq
  | operand hi ht hn =>
    rcases hline with ⟨name', -, heq⟩ | ⟨j, hj, heq⟩
    · cases heq
    · obtain ⟨haddress, -, -⟩ := Line.instruction.inj heq
      rw [← resolve_of_target ht, ← haddress]
      rw [← haddress] at hn
      exact ⟨h.placed.covers (h.get?_of_placed hp) j hj, hn⟩

/-- The last label before a local name that is not local is that of the block, and both together are
the whole name. -/
theorem Coherent.scope (h : ns.Coherent stems)
    (hlisting : ns.listing settings = before ++ line :: after)
    (hw : ns.Writes settings line source target name) (hlocal : isLocal name = true) :
    ∃ leader block, (before.filter (·.isGlobal)).getLast? = some (.label leader block) ∧
      ns.blocks.leaderOf? source = some leader ∧ ns.graph.labelAt? leader = some block ∧
      ns.best? target = some (block ++ name) := by
  rw [listing_eq_flatMap] at hlisting
  obtain ⟨pre, p, post, start, rest, hplacement, hlines, hbefore⟩ := exists_of_flatMap_eq hlisting
  have hmem : ∀ {q}, q ∈ pre ++ [p] → q ∈ ns.graph.placement := by
    intro q hq
    rw [hplacement]
    simp only [List.mem_append, List.mem_cons, List.not_mem_nil, or_false] at hq ⊢
    rcases hq with hq | hq
    · exact .inl hq
    · exact .inr (.inl hq)
  have hp : p ∈ ns.graph.placement := hmem (by simp)
  have hfull : p.2.isPlaceholder = false := by
    rw [← Bool.not_eq_true]
    intro hempty
    unfold placedLines at hlines
    rw [if_pos hempty] at hlines
    simp at hlines
  have hnode : ns.nodeLines settings p.2 = start ++ line :: rest := by
    unfold placedLines at hlines
    rwa [hfull, if_neg Bool.false_ne_true] at hlines
  obtain ⟨hcovers, hscoped⟩ := h.writes hp hfull (by rw [hnode]; simp) hw
  obtain ⟨leader, block, hleader, hblock, hbest⟩ := h.scoped?_local hscoped hlocal
  obtain rfl : p.1 = leader :=
    Option.some.inj ((h.leaderOf?_of_covers hp hcovers).symm.trans hleader)
  refine ⟨p.1, block, ?_, hleader, hblock, hbest⟩
  obtain ⟨earlier, n, between, hsplit, hstart, hbetween, hnfull⟩ :=
    h.division.split_leader hplacement
  -- Up to the end of the node of the line, the last label that is not local is that of the leader.
  have hfirst : (ns.placedLines settings (p.1, n)).filter (·.isGlobal) = [.label p.1 block] :=
    h.filter_leader (p := (p.1, n)) (hmem (by rw [hsplit]; simp)) (hnfull hfull) hstart hblock
  have hothers : (between.flatMap (ns.placedLines settings)).filter (·.isGlobal) = [] := by
    rw [List.filter_flatMap, List.flatMap_eq_nil_iff]
    intro q hq
    have hqmem : q ∈ ns.graph.placement := hmem (by rw [hsplit]; simp [hq])
    obtain ⟨hsame, hne⟩ := hbetween q hq
    rw [← hsame] at hblock hne
    exact h.filter_interior hqmem hne hblock
  have hlast : (before ++ line :: rest).filter (·.isGlobal) =
      (earlier.flatMap (ns.placedLines settings)).filter (·.isGlobal) ++ [.label p.1 block] := by
    have hjoined : before ++ line :: rest = (pre ++ [p]).flatMap (ns.placedLines settings) := by
      rw [hbefore, List.append_assoc, ← hlines, List.flatMap_append]
      simp
    rw [hjoined, hsplit, List.flatMap_append, List.flatMap_cons, List.filter_append,
      List.filter_append, hfirst, hothers, List.append_nil]
  have hline : ¬line.isGlobal = true := by
    cases hw with
    | label a name => simp [Line.isGlobal, hlocal]
    | operand => simp [instructionLine, Line.isGlobal]
  rw [List.filter_append, List.filter_cons_of_neg hline, filter_behind hnode,
    List.append_nil] at hlast
  rw [hlast]
  exact List.getLast?_concat

end Names

namespace Session

/-- In a listing without names from outside, every local name is to be read with the last label
before it that is not local: this is the label of the block of the line, and both together are the
whole name of what is meant. -/
theorem local_names_scoped {s : Session} (hl : s.labels = ∅) (hf : s.settings.fault? = none)
    (entries : List Address) {before after : List Line} {line : Line} {source target : Address}
    {name : String} (hlisting : (s.run entries).listing = before ++ line :: after)
    (hw : (s.run entries).names.Writes s.settings line source target name)
    (hlocal : isLocal name = true) :
    ∃ leader block, (before.filter (·.isGlobal)).getLast? = some (.label leader block) ∧
      (s.run entries).atlas.blocks.leaderOf? source = some leader ∧
      (s.run entries).atlas.graph.labelAt? leader = some block ∧
      (s.run entries).bestLabel? target = some (block ++ name) := by
  have hinputs := sameInputs_foldl_addEntry s entries
  have hcoherent := coherent_analyse (hinputs.labels.trans hl) (by rw [hinputs.settings]; exact hf)
  have hsettings : (s.run entries).settings = s.settings := hinputs.settings
  unfold listing at hlisting
  rw [hsettings] at hlisting
  exact hcoherent.scope hlisting hw hlocal

/-- A loop inside of a loop: `NOP`, `DJNZ 8001h`, `JR 8000h`. -/
theorem local_names_scoped_loop :
    ∃ before after,
      (({ memory := Memory.empty.write 0x8000 [0x00, 0x10, 0xFE, 0x18, 0xFB] } : Session).run
        [0x8000]).listing =
        before ++ .label 0x8001 ".LOOP" :: after ∧
      ∃ leader block, (before.filter (·.isGlobal)).getLast? = some (.label leader block) ∧
        (({ memory := Memory.empty.write 0x8000 [0x00, 0x10, 0xFE, 0x18, 0xFB] } : Session).run
          [0x8000]).atlas.blocks.leaderOf? 0x8001 = some leader ∧
        (({ memory := Memory.empty.write 0x8000 [0x00, 0x10, 0xFE, 0x18, 0xFB] } : Session).run
          [0x8000]).atlas.graph.labelAt? leader = some block ∧
        (({ memory := Memory.empty.write 0x8000 [0x00, 0x10, 0xFE, 0x18, 0xFB] } : Session).run
          [0x8000]).bestLabel? 0x8001 = some (block ++ ".LOOP") := by
  have hline :
      (({ memory := Memory.empty.write 0x8000 [0x00, 0x10, 0xFE, 0x18, 0xFB] } : Session).run
      [0x8000]).listing[2]? = some (.label 0x8001 ".LOOP") := by decide +kernel
  obtain ⟨before, after, hlisting⟩ := List.append_of_mem (List.mem_of_getElem? hline)
  exact ⟨before, after, hlisting,
    local_names_scoped rfl (by decide) [0x8000] hlisting (.label 0x8001 ".LOOP") (by decide)⟩

end Session

end Z80Atlas
