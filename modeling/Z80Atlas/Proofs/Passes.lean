import Z80Atlas.Proofs.Collecting
import Z80Atlas.Proofs.Discovery
import Z80Atlas.Proofs.Stretch

/-!
# Passes in any order

Discovering, naming and filling can be repeated and mixed at will.  Whatever the order, the marks
cut the code into instructions: a walk claims an instruction only if all of its bytes are loaded and
free, naming touches no mark, and filling marks nothing but data and the returns among the claimed
instructions.
-/

namespace Z80Atlas

/-- A memory whose marks cut the code of the image `m` into instructions. -/
structure Memory.CutFrom (m : Memory) (v : Opcode.Variant) (m' : Memory) : Prop where
  byte : ∀ a, m'.byte a = m.byte a
  assigned : ∀ a, (m'.marks a).assigned = (m.marks a).assigned
  code_iff : ∀ a, (m'.marks a).code = true ↔ (m'.marks a).traced = true
  apart : ∀ {a b}, (m'.marks a).opening = true → (m'.marks b).opening = true → a ≠ b →
    ∀ x, ¬(m'.Covers v a x ∧ m'.Covers v b x)
  below : ∀ {a}, (m'.marks a).opening = true → a.toNat + (m'.decode v a).length ≤ 65536
  loaded : ∀ {a x}, (m'.marks a).opening = true → m'.Covers v a x → (m'.marks x).assigned = true
  union : ∀ x, (m'.marks x).code = true ↔ ∃ a, (m'.marks a).opening = true ∧ m'.Covers v a x
  returns : ∀ {a}, (m'.marks a).returns = true →
    (m'.marks a).opening = true ∧ (m'.decode v a).effects.ret = true

namespace Survey

/-- One of the passes of a survey. -/
inductive Pass
  | discover (entries : List Address)
  | seed (names : NameTable)
  | fill

/-- Carry out a pass. -/
def perform (s : Survey) : Pass → Survey
  | .discover entries => s.discover entries
  | .seed names => (s.seed names).1
  | .fill => s.fill

/-- Carry out passes, one after the other. -/
def performAll (s : Survey) (passes : List Pass) : Survey := passes.foldl perform s

variable {m : Memory} {v : Opcode.Variant} {s s' : Survey} {start a : Address} {d : Draft}

/-! ### What passes leave as it is -/

@[simp] theorem variant_resolve (s : Survey) (t : Address) :
    (s.resolve t).1.variant = s.variant := by
  unfold resolve
  split
  · rfl
  · split
    · rfl
    · split <;> rfl

@[simp] theorem variant_link (s : Survey) (d : Draft) (t : Address) :
    (s.link d t).1.variant = s.variant := by
  unfold link
  dsimp only
  split <;> exact variant_resolve s t

@[simp] theorem variant_linkAll (s : Survey) (d : Draft) (o : Option Address) :
    (s.linkAll d o).1.variant = s.variant := by
  cases o with
  | none => rfl
  | some t => exact variant_link s d t

theorem variant_follow (s : Survey) (d : Draft) (i : Instruction) :
    (s.follow d i).1.1.variant = s.variant := by
  unfold follow
  cases i.course with
  | onward => rfl
  | call t =>
    dsimp only
    split
    · split <;> simp
    · simp
  | branch t falls =>
    dsimp only
    split <;> simp
  | ret falls =>
    dsimp only
    split <;> simp
  | stop => rfl

theorem variant_collect (s : Survey) (d : Draft) (i : Instruction) :
    (s.collect d i).1.1.variant = s.variant := by
  unfold collect
  rw [variant_follow]
  unfold noteData
  split <;> rfl

/-- What each name keeps is kept by all names together. -/
theorem seed_keeps {P : Survey → Prop} (hstep : ∀ r a name, P r.1 → P (seedName r a name).1)
    (names : NameTable) (hs : P s) : P (s.seed names).1 := by
  have hfold : ∀ (ps : List (Address × String)) (r : Survey × NameTable), P r.1 →
      P (ps.foldl (fun r p => seedName r p.1 p.2) r).1 := by
    intro ps
    induction ps with
    | nil => exact fun _ hr => hr
    | cons p rest ih => exact fun r hr => ih (seedName r p.1 p.2) (hstep r p.1 p.2 hr)
  exact hfold names.toList (s, ∅) hs

/-! ### The invariant of all passes -/

/-- The survey has the bytes of the image `m`, and has claimed instructions of it; what is marked as
a return is one. -/
structure Cuts (m : Memory) (v : Opcode.Variant) (s : Survey) : Prop where
  variant : s.variant = v
  byte : ∀ a, s.memory.byte a = m.byte a
  assigned : ∀ a, (s.memory.marks a).assigned = (m.marks a).assigned
  parsed : s.memory.Parsed v
  returns : ∀ {a}, (s.memory.marks a).returns = true →
    (s.memory.marks a).opening = true ∧ (s.decode a).effects.ret = true

namespace Cuts

/-- Marks that do not concern the code, and marks on claimed returns, keep the cut. -/
theorem of_sameCode (h : Cuts m v s) (hs : s.memory.SameCode s'.memory)
    (hv : s'.variant = s.variant)
    (hr : ∀ a, (s'.memory.marks a).returns = true → (s.memory.marks a).returns = true ∨
      ((s.memory.marks a).opening = true ∧ (s.decode a).effects.ret = true)) :
    Cuts m v s' := by
  have hdecode : ∀ a, s'.decode a = s.decode a := by
    intro a
    unfold Survey.decode
    rw [hv, hs.decode]
  refine ⟨hv.trans h.variant, ?_, ?_, hs.parsed h.parsed, ?_⟩
  · intro a
    rw [hs.byte, h.byte]
  · intro a
    rw [hs.assigned, h.assigned]
  · intro a ha
    rw [hs.opening, hdecode]
    cases hr a ha with
    | inl hold => exact h.returns hold
    | inr hnew => exact hnew

theorem of_memory (h : Cuts m v s) (hm : s'.memory = s.memory) (hv : s'.variant = s.variant) :
    Cuts m v s' := by
  refine h.of_sameCode ?_ hv ?_
  · rw [hm]
    exact .refl _
  · intro a ha
    rw [hm] at ha
    exact .inl ha

theorem enter (h : Cuts m v s) (hl : s.memory.FullyLoaded s.variant a)
    (hfree : ∀ b, s.memory.Covers s.variant a b → (s.memory.marks b).traced = false)
    (start : Address) :
    Cuts m v (s.enter start (s.decode a)) := by
  have hg := grows_enter s start a
  refine ⟨hg.variant.trans h.variant, ?_, ?_, ?_, ?_⟩
  · intro b
    rw [hg.byte, h.byte]
  · intro b
    rw [hg.assigned, h.assigned]
  · rw [memory_enter]
    rw [h.variant] at hl hfree
    have hparsed := h.parsed.claim hl hfree
    rw [← h.variant] at hparsed ⊢
    exact hparsed
  · intro b hb
    have hold : (s.memory.marks b).returns = true := by
      rw [memory_enter, Memory.marks_claim _ _ _ (s.length_decode_pos a)] at hb
      split at hb
      · simpa using hb
      · split at hb <;> simpa using hb
    rw [hg.decode]
    exact ⟨hg.opening (h.returns hold).1, (h.returns hold).2⟩

theorem walk (h : Cuts m v s) (start a : Address) (queue : Queue Address) :
    Cuts m v (s.walk start a queue).1 := by
  fun_induction Survey.walk s start a queue with
  | case1 => exact h
  | case2 => exact h.of_memory rfl rfl
  | case3 => exact h.of_memory rfl rfl
  | case4 s a queue i hf hn =>
    have hspec := finding_spec (h.variant ▸ h.parsed) a
    rw [hf] at hspec
    obtain ⟨rfl, hl, hfree⟩ := hspec
    exact h.enter hl hfree start
  | case5 s a queue i hf b hn ih =>
    have hspec := finding_spec (h.variant ▸ h.parsed) a
    rw [hf] at hspec
    obtain ⟨rfl, hl, hfree⟩ := hspec
    exact ih (h.enter hl hfree start)

theorem discoverFrom (h : Cuts m v s) (queue : Queue Address) :
    Cuts m v (s.discoverFrom queue) := by
  fun_induction Survey.discoverFrom s queue with
  | case1 => exact h
  | case2 s queue a rest _ r ih => exact ih (h.walk a a rest)

theorem seed (h : Cuts m v s) (names : NameTable) : Cuts m v (s.seed names).1 := by
  refine seed_keeps ?_ names h
  intro r a name hr
  unfold seedName
  split
  · exact hr.of_memory rfl rfl
  · exact hr

theorem collect (h : Cuts m v s) (ho : (s.memory.marks a).opening = true) (d : Draft) :
    Cuts m v (s.collect d (s.decode a)).1.1 := by
  have hlawful : (s.decode a).Lawful := s.memory.lawful_decode s.variant a
  refine h.of_sameCode (s.sameCode_collect d hlawful) (s.variant_collect d (s.decode a)) ?_
  intro b hb
  cases (returns_collect s d hlawful b).mp hb with
  | inl hold => exact .inl hold
  | inr hnew =>
    obtain ⟨rfl, hr⟩ := hnew
    exact .inr ⟨ho, hr⟩

theorem fillFrom (h : Cuts m v s) (start a : Address) (d : Draft) :
    Cuts m v (s.fillFrom start a d).1 := by
  fun_induction Survey.fillFrom s start a d with
  | case1 => exact h
  | case2 => exact h
  | case3 => exact h.of_memory rfl rfl
  | case4 s a d _ ho _ r b _ _ ih => exact ih (h.collect (by simpa using ho) d)
  | case5 s a d _ ho _ r b _ _ => exact h.collect (by simpa using ho) d
  | case6 s a d _ ho _ r _ => exact h.collect (by simpa using ho) d

theorem fillPending (h : Cuts m v s) : Cuts m v s.fillPending := by
  fun_induction Survey.fillPending s with
  | case1 => exact h
  | case2 s a rest _ _ ih => exact ih (h.of_memory rfl rfl)
  | case3 s a rest _ _ ih =>
    have hbusy : Cuts m v { s with pending := rest, filled := s.filled.insert a } :=
      h.of_memory rfl rfl
    exact ih ((hbusy.fillFrom a a {}).of_memory rfl rfl)

theorem perform (h : Cuts m v s) (p : Pass) : Cuts m v (s.perform p) := by
  cases p with
  | discover entries => exact h.discoverFrom _
  | seed names => exact h.seed names
  | fill => exact fillPending (h.of_memory rfl rfl)

theorem performAll (h : Cuts m v s) (passes : List Pass) : Cuts m v (s.performAll passes) := by
  induction passes generalizing s with
  | nil => exact h
  | cons p rest ih => exact ih (h.perform p)

theorem cutFrom (h : Cuts m v s) : m.CutFrom v s.memory := by
  have hp := h.parsed
  refine ⟨h.byte, h.assigned, ?_, ?_, ?_, ?_, ?_, ?_⟩
  · intro a
    rw [hp.code_eq]
  · intro a b ha hb hne x ⟨hax, hbx⟩
    exact hne (hp.eq_of_covers ha hb hax hbx)
  · intro a ha
    exact (hp.loaded ha).1
  · intro a x ha hx
    exact (hp.loaded ha).2 x hx
  · intro x
    rw [hp.code_eq]
    exact hp.traced_iff x
  · intro a ha
    have hr := h.returns ha
    unfold Survey.decode at hr
    rw [h.variant] at hr
    exact hr

end Cuts

theorem cuts_fresh (hm : m.Unexplored) (v : Opcode.Variant) (k : Skips) :
    Cuts m v (fresh m v k) := by
  refine ⟨rfl, fun _ => rfl, fun _ => rfl, hm.parsed v, ?_⟩
  intro a ha
  have hmarks : (m.marks a).returns = true := ha
  rw [hm a] at hmarks
  cases hmarks

/-- Whatever passes are made in whatever order, the code that has been claimed is cut into
instructions of the image that have no byte in common. -/
theorem passes_cut_code (hm : m.Unexplored) (v : Opcode.Variant) (k : Skips) (passes : List Pass) :
    m.CutFrom v ((fresh m v k).performAll passes).memory :=
  ((cuts_fresh hm v k).performAll passes).cutFrom

/-- `LD A,C9h`, `JR Z,8001h` and `RET` at `8000h`. -/
def holdingReturn : Memory := Memory.empty.write 0x8000 [0x3E, 0xC9, 0x28, 0xFD, 0xC9]

/-- Filling before anything is claimed, a discovery inside of an instruction, and one at its
start. -/
def crossPasses : List Pass :=
  [.fill, .discover [0x8001], .fill, .discover [0x8000, 0x8002],
    .seed ((∅ : NameTable).insert 0x8002 "again"), .fill, .fill]

/-- The start of the first instruction is refused, since the operand of it was claimed as a `RET`
before. -/
theorem passes_cut_code_overlap :
    holdingReturn.Unexplored ∧
      holdingReturn.CutFrom .z80
        ((fresh holdingReturn .z80 (({} : Skips).set 0x8004 0)).performAll crossPasses).memory ∧
      [0x8000, 0x8001, 0x8002, 0x8003, 0x8004].map (fun a => (((fresh holdingReturn .z80
          (({} : Skips).set 0x8004 0)).performAll crossPasses).memory.marks a).opening) =
        [false, true, true, false, true] ∧
      ((fresh holdingReturn .z80
        (({} : Skips).set 0x8004 0)).performAll crossPasses).diagnostics.has .ambiguous
          0x8000 = true := by
  have hm : holdingReturn.Unexplored := Memory.unexplored_empty.write _ _
  refine ⟨hm, passes_cut_code hm .z80 _ _, ?_⟩
  decide +kernel

end Survey

end Z80Atlas
