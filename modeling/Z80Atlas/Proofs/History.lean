import Z80Atlas.Proofs.Independence

/-!
# An analysis forgets what came before it

Between two analyses a session can be told anything: more of the image, more entries, names and
skips.  Whatever earlier analyses left behind are findings, and the next analysis takes them off the
image first.  So the session that comes out of an analysis is determined by what was loaded, named
and stepped over, and by the entries.
-/

namespace Z80Atlas

/-! ### The image below the findings -/

theorem Marks.union_assigned_sdiff_findings (k : Marks) :
    (k ∪ { assigned := true }) \ findings = k \ findings ∪ { assigned := true } := by
  rw [sdiff_findings, sdiff_findings]
  simp [Union.union]

namespace Memory

variable {m m' : Memory}

/-- Findings are all that is taken away, so memories with the same bytes loaded at the same places
become equal. -/
theorem unmark_findings_eq (hb : ∀ a, m'.byte a = m.byte a)
    (ha : ∀ a, (m'.marks a).assigned = (m.marks a).assigned) :
    m'.unmark Marks.findings = m.unmark Marks.findings := by
  apply Memory.ext
  · intro a
    rw [byte_unmark, byte_unmark, hb]
  · intro a
    rw [marks_unmark, marks_unmark, Marks.sdiff_findings, Marks.sdiff_findings, ha]

theorem byte_write_one (m : Memory) (a c : Address) (b : Byte) :
    (m.write a [b]).byte c = if c = a then b else m.byte c := Space.get_set ..

theorem marks_write_one (m : Memory) (a c : Address) (b : Byte) :
    (m.write a [b]).marks c = if c = a then m.marks c ∪ { assigned := true } else m.marks c :=
  Space.get_modify ..

/-- It makes no difference whether findings are taken away before or after something is loaded. -/
theorem unmark_findings_write (m : Memory) (a : Address) (data : List Byte) :
    (m.write a data).unmark Marks.findings = (m.unmark Marks.findings).write a data := by
  induction data generalizing m a with
  | nil => rfl
  | cons b rest ih =>
    have hone : (m.write a [b]).unmark Marks.findings = (m.unmark Marks.findings).write a [b] := by
      apply Memory.ext
      · intro c
        rw [byte_unmark, byte_write_one, byte_write_one, byte_unmark]
      · intro c
        rw [marks_unmark, marks_write_one, marks_write_one, marks_unmark]
        split
        · exact Marks.union_assigned_sdiff_findings _
        · rfl
    have hrest : ((m.write a [b]).write (a + 1) rest).unmark Marks.findings =
        ((m.unmark Marks.findings).write a [b]).write (a + 1) rest := by
      rw [ih, hone]
    exact hrest

end Memory

/-! ### Requests -/

/-- What a session can be asked to do. -/
inductive Request
  | load (origin : Address) (data : List Byte)
  | addEntry (a : Address)
  | setLabel (a : Address) (name : String)
  | setSkip (a : Address) (length : Nat)
  | run (entries : List Address)
  | renderNode (a : Address)

namespace Request

/-- Whether the request is about the program, and not about entries or results. -/
def isInput : Request → Bool
  | load .. | setLabel .. | setSkip .. => true
  | addEntry _ | run _ | renderNode _ => false

/-- The entries that come with a request. -/
def entries : Request → List Address
  | addEntry a => [a]
  | run entries => entries
  | load .. | setLabel .. | setSkip .. | renderNode _ => []

end Request

namespace Session

variable {s t : Session}

/-- The session after a request.  A request that is refused leaves the session as it is. -/
def perform (s : Session) : Request → Session
  | .load origin data => (s.load origin data).toOption.getD s
  | .addEntry a => s.addEntry a
  | .setLabel a name => s.setLabel a name
  | .setSkip a length => (s.setSkip a length).toOption.getD s
  | .run entries => s.run entries
  | .renderNode a => ((s.renderNode a).toOption.map Prod.fst).getD s

/-- The session after some requests. -/
def performAll (s : Session) (requests : List Request) : Session := requests.foldl perform s

/-- The two sessions have been told the same about the program.  Entries and findings are free. -/
structure SameInputs (s t : Session) : Prop where
  settings : s.settings = t.settings
  memory : s.memory.unmark Marks.findings = t.memory.unmark Marks.findings
  labels : s.labels = t.labels
  skips : s.skips = t.skips

namespace SameInputs

theorem refl (s : Session) : SameInputs s s := ⟨rfl, rfl, rfl, rfl⟩

theorem trans {u : Session} (h : SameInputs s t) (h' : SameInputs t u) : SameInputs s u where
  settings := h.settings.trans h'.settings
  memory := h.memory.trans h'.memory
  labels := h.labels.trans h'.labels
  skips := h.skips.trans h'.skips

/-- An analysis makes everything anew from the inputs and the entries. -/
theorem analyse_eq (h : SameInputs s t) (he : s.entries = t.entries) : s.analyse = t.analyse := by
  obtain ⟨settings, memory, entries, labels, skips, atlas⟩ := s
  obtain ⟨settings', memory', entries', labels', skips', atlas'⟩ := t
  obtain ⟨hs, hm, hl, hk⟩ := h
  dsimp only at hs hm hl hk he
  subst hs hl hk he
  unfold analyse
  dsimp only
  rw [hm]

end SameInputs

/-! ### What a request changes -/

/-- An analysis leaves the image as it was loaded. -/
theorem unmark_memory_analyse (s : Session) :
    s.analyse.memory.unmark Marks.findings = s.memory.unmark Marks.findings := by
  have hcharted := s.charted_analyse.stamped.same
  have hexplored :=
    Survey.explored_discover (Memory.unexplored_unmark s.memory) s.settings.variant s.skips
      s.entries.toList
  have himage : s.charted.memory.unmark Marks.findings =
      (s.memory.unmark Marks.findings).unmark Marks.findings := by
    apply Memory.unmark_findings_eq
    · intro a
      exact (hcharted.byte a).trans (hexplored.byte a)
    · intro a
      exact (hcharted.assigned a).trans (hexplored.assigned a)
  have htwice :
      (s.memory.unmark Marks.findings).unmark Marks.findings = s.memory.unmark Marks.findings := by
    apply Memory.unmark_findings_eq
    · intro a
      rfl
    · intro a
      rw [Memory.marks_unmark, Marks.sdiff_findings]
  exact himage.trans htwice

theorem sameInputs_analyse (s : Session) : SameInputs s.analyse s :=
  ⟨rfl, s.unmark_memory_analyse, rfl, rfl⟩

theorem sameInputs_foldl_addEntry (s : Session) (entries : List Address) :
    SameInputs (entries.foldl addEntry s) s := by
  induction entries generalizing s with
  | nil => exact .refl s
  | cons a rest ih => exact (ih (s.addEntry a)).trans ⟨rfl, rfl, rfl, rfl⟩

theorem mem_entries_foldl_addEntry (entries : List Address) {a : Address} :
    a ∈ (entries.foldl addEntry s).entries ↔ a ∈ s.entries ∨ a ∈ entries := by
  induction entries generalizing s with
  | nil => simp
  | cons b rest ih =>
    have hinsert : a ∈ (s.addEntry b).entries ↔ a = b ∨ a ∈ s.entries := by
      show a ∈ s.entries.insert b ↔ a = b ∨ a ∈ s.entries
      rw [Std.ExtTreeSet.mem_insert, Std.compare_eq_iff_eq, eq_comm]
    rw [List.foldl_cons, ih, hinsert, List.mem_cons, or_assoc, or_left_comm]

/-- Rendering a node concerns the findings only. -/
theorem perform_renderNode (s : Session) (a : Address) :
    ∃ atlas, s.perform (.renderNode a) = { s with atlas } := by
  show ∃ atlas, ((s.renderNode a).toOption.map Prod.fst).getD s = { s with atlas }
  unfold renderNode
  cases s.node a with
  | error e => exact ⟨s.atlas, rfl⟩
  | ok n => exact ⟨_, rfl⟩

/-- A request that is not about the program keeps what the session was told about it. -/
theorem sameInputs_perform {r : Request} (hr : r.isInput = false) (s : Session) :
    SameInputs (s.perform r) s := by
  cases r with
  | load | setLabel | setSkip => cases hr
  | addEntry a => exact ⟨rfl, rfl, rfl, rfl⟩
  | run entries => exact (sameInputs_analyse _).trans (sameInputs_foldl_addEntry s entries)
  | renderNode a =>
    obtain ⟨atlas, hatlas⟩ := perform_renderNode s a
    rw [hatlas]
    exact ⟨rfl, rfl, rfl, rfl⟩

/-- A request about the program does the same to what two sessions were told. -/
theorem SameInputs.perform {r : Request} (h : SameInputs s t) (hr : r.isInput = true) :
    SameInputs (s.perform r) (t.perform r) := by
  cases r with
  | addEntry | run | renderNode => cases hr
  | load origin data =>
    unfold Session.perform Session.load Memory.load
    by_cases hfit : origin.toNat + data.length ≤ 65536
    · simp only [if_pos hfit]
      refine { h with memory := ?_ }
      show (s.memory.write origin data).unmark _ = (t.memory.write origin data).unmark _
      rw [Memory.unmark_findings_write, Memory.unmark_findings_write, h.memory]
    · simp only [if_neg hfit]
      exact h
  | setLabel a name => exact { h with labels := congrArg (·.insert a name) h.labels }
  | setSkip a length =>
    unfold Session.perform Session.setSkip
    by_cases hzero : length = 0
    · simp only [if_pos hzero]
      exact h
    · simp only [if_neg hzero]
      exact { h with skips := congrArg (·.set a length) h.skips }

/-- A request adds the entries that come with it. -/
theorem mem_entries_perform {r : Request} {a : Address} :
    a ∈ (s.perform r).entries ↔ a ∈ s.entries ∨ a ∈ r.entries := by
  cases r with
  | addEntry b => exact mem_entries_foldl_addEntry [b]
  | run entries => exact mem_entries_foldl_addEntry entries
  | setLabel b name => simp [perform, setLabel, Request.entries]
  | load origin data =>
    unfold perform Session.load Memory.load
    by_cases hfit : origin.toNat + data.length ≤ 65536
    · simp [if_pos hfit, Except.toOption, Request.entries]
    · simp [if_neg hfit, Except.toOption, Request.entries]
  | setSkip b length =>
    unfold perform setSkip
    by_cases hzero : length = 0
    · simp [if_pos hzero, Except.toOption, Request.entries]
    · simp [if_neg hzero, Except.toOption, Request.entries]
  | renderNode b =>
    obtain ⟨atlas, hatlas⟩ := perform_renderNode s b
    rw [hatlas]
    simp [Request.entries]

/-! ### Histories -/

/-- Leaving out the requests that are not about the program keeps what a session was told about
it. -/
theorem SameInputs.performAll (h : SameInputs s t) (requests : List Request) :
    SameInputs (s.performAll requests) (t.performAll (requests.filter (·.isInput))) := by
  induction requests generalizing s t with
  | nil => exact h
  | cons r rest ih =>
    cases hr : r.isInput with
    | true =>
      rw [List.filter_cons_of_pos hr]
      exact ih (h.perform hr)
    | false =>
      rw [List.filter_cons_of_neg (by simp [hr])]
      exact ih ((sameInputs_perform hr s).trans h)

theorem mem_entries_performAll {requests : List Request} {a : Address} :
    a ∈ (s.performAll requests).entries ↔ a ∈ s.entries ∨ a ∈ requests.flatMap (·.entries) := by
  induction requests generalizing s with
  | nil => simp [performAll]
  | cons r rest ih =>
    have hrest : a ∈ (s.performAll (r :: rest)).entries ↔
        a ∈ (s.perform r).entries ∨ a ∈ rest.flatMap (·.entries) := ih
    rw [hrest, mem_entries_perform, List.flatMap_cons, List.mem_append, or_assoc]

/-- Requests about the program bring no entries. -/
theorem flatMap_entries_filter_isInput (requests : List Request) :
    (requests.filter (·.isInput)).flatMap (·.entries) = [] := by
  rw [List.flatMap_eq_nil_iff]
  intro r hr
  have hinput := (List.mem_filter.mp hr).2
  cases r with
  | addEntry | run | renderNode => cases hinput
  | load | setLabel | setSkip => rfl

/-- Two runs end in the same session if the sessions were told the same and the entries add up to
the same set. -/
theorem SameInputs.run_eq {entries entries' : List Address} (h : SameInputs s t)
    (he : ∀ a, (a ∈ s.entries ∨ a ∈ entries) ↔ (a ∈ t.entries ∨ a ∈ entries')) :
    s.run entries = t.run entries' := by
  refine SameInputs.analyse_eq ?_ ?_
  · refine (sameInputs_foldl_addEntry s entries).trans (h.trans ?_)
    have hback := sameInputs_foldl_addEntry t entries'
    exact ⟨hback.settings.symm, hback.memory.symm, hback.labels.symm, hback.skips.symm⟩
  · apply Std.ExtTreeSet.ext_mem
    intro a
    rw [mem_entries_foldl_addEntry, mem_entries_foldl_addEntry, he]

theorem entries_run {entries : List Address} {a : Address} :
    a ∈ (s.run entries).entries ↔ a ∈ s.entries ∨ a ∈ entries :=
  mem_entries_perform (r := .run entries)

theorem new_eq_ok_iff {settings : Settings} :
    Session.new settings = .ok s ↔ settings.fault? = none ∧ s = { settings } := by
  unfold Session.new
  cases settings.fault? with
  | some fault => simp
  | none => simp [eq_comm]

/-- After any requests a run ends in the session that a new one gets to from the requests about the
program alone, in one run from all entries that were ever given; and running once more changes
nothing. -/
theorem run_forgets_history {settings : Settings} (h : Session.new settings = .ok s)
    (requests : List Request) (entries : List Address) :
    (s.performAll requests).run entries =
      (s.performAll (requests.filter (·.isInput))).run (requests.flatMap (·.entries) ++ entries) ∧
    ((s.performAll requests).run entries).run entries = (s.performAll requests).run entries := by
  obtain ⟨-, rfl⟩ := new_eq_ok_iff.mp h
  have hempty : ∀ a, a ∉ (∅ : Std.ExtTreeSet Address) := fun a => Std.ExtTreeSet.not_mem_empty
  constructor
  · refine ((SameInputs.refl _).performAll requests).run_eq ?_
    intro a
    rw [mem_entries_performAll, mem_entries_performAll, flatMap_entries_filter_isInput,
      List.mem_append]
    simp [hempty a]
  · refine SameInputs.run_eq (sameInputs_perform (r := .run entries) rfl _) ?_
    intro a
    rw [entries_run, or_assoc, or_self]

/-- An image that is analysed and then loaded over in the middle. -/
def reloading : List Request :=
  [.load 0x8000 [0x3E, 0x05, 0xC9], .run [0x8000], .renderNode 0x8000,
    .load 0x8001 [0x00, 0x18, 0xFD], .setLabel 0x8002 "again", .addEntry 0x8002]

/-- Analysed from another entry, nothing is left of the code that was loaded over. -/
theorem run_forgets_history_reloaded :
    Session.new {} = .ok {} ∧
      (performAll {} reloading).run [0x8001] =
        (performAll {} [.load 0x8000 [0x3E, 0x05, 0xC9], .load 0x8001 [0x00, 0x18, 0xFD],
          .setLabel 0x8002 "again"]).run [0x8000, 0x8002, 0x8001] ∧
      ((performAll {} reloading).run [0x8001]).atlas.graph.toList.map
          (fun n => (n.start, n.instructions.toList.map fun i => (i.code, i.value))) =
        [(0x8000, [(0x3E, 0x00)]), (0x8002, [(0x18, 0x8001)])] := by
  have h : Session.new {} = .ok {} := new_eq_ok_iff.mpr ⟨by decide, rfl⟩
  refine ⟨h, (run_forgets_history h reloading [0x8001]).1, ?_⟩
  decide +kernel

end Session

end Z80Atlas
