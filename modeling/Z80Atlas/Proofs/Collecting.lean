import Z80Atlas.Proofs.Targets

/-!
# Collecting an instruction

Collecting an instruction stamps the memory with what the instruction says about it, resolves the
addresses that it leads to, and tells the draft where control leaves.  What happens depends on the
instruction and on the claimed code alone, and not on the node that is being filled.
-/

namespace Z80Atlas

/-- Whether control never goes on behind an instruction. -/
def Instruction.halts (i : Instruction) : Bool :=
  match i.course with
  | .onward | .call _ => false
  | .branch _ falls | .ret falls => !falls
  | .stop => true

namespace Skips

/-- Where control leaves a node whose last instruction is `i`: to the target of a branch that is no
call, behind a call or a branch that does not stop, and behind a return that depends on a
condition. -/
inductive Exit (k : Skips) (i : Instruction) (t : Address) : Prop
  | jump (hb : i.effects.branch = true) (hc : i.effects.call = false) (h : i.branchTarget? = some t)
  | landing (hb : i.effects.branch = true) (hs : i.effects.call = true ∨ i.effects.stop = false)
      (h : k.landingAfter i = some t)
  | conditional (hr : i.effects.ret = true) (hc : i.effects.conditional = true)
      (h : i.next? = some t)

variable {k : Skips} {i : Instruction} {t : Address}

theorem exit_iff_of_call (hi : i.Lawful) (hc : i.effects.call = true) :
    k.Exit i t ↔ k.landingAfter i = some t := by
  have hb := hi.branch_of_call hc
  constructor
  · intro h
    cases h with
    | jump _ hc' _ => exact absurd (hc.symm.trans hc') (by decide)
    | landing _ _ h => exact h
    | conditional hr _ _ => exact absurd (hb.symm.trans (hi.branch_of_ret hr)) (by decide)
  · exact .landing hb (.inl hc)

theorem exit_iff_of_branch (hi : i.Lawful) (hb : i.effects.branch = true)
    (hc : i.effects.call = false) :
    k.Exit i t ↔
      i.branchTarget? = some t ∨ (i.effects.stop = false ∧ k.landingAfter i = some t) := by
  constructor
  · intro h
    cases h with
    | jump _ _ h => exact .inl h
    | landing _ hs h => exact .inr ⟨by simpa [hc] using hs, h⟩
    | conditional hr _ _ => exact absurd (hb.symm.trans (hi.branch_of_ret hr)) (by decide)
  · intro h
    cases h with
    | inl h => exact .jump hb hc h
    | inr h => exact .landing hb (.inr h.1) h.2

theorem exit_iff_of_not_branch (hb : i.effects.branch = false) :
    k.Exit i t ↔ i.effects.ret = true ∧ i.effects.conditional = true ∧ i.next? = some t := by
  constructor
  · intro h
    cases h with
    | jump hb' _ _ => exact absurd (hb'.symm.trans hb) (by decide)
    | landing hb' _ _ => exact absurd (hb'.symm.trans hb) (by decide)
    | conditional hr hc h => exact ⟨hr, hc, h⟩
  · intro ⟨hr, hc, h⟩
    exact .conditional hr hc h

/-- If control goes straight on behind an instruction, it leaves a node that ends there for no other
place. -/
theorem Exit.eq_next {a : Address} (h : k.Exit i t) (hi : i.Lawful)
    (hn : (k.onward i).next = some a) : t = a := by
  obtain ⟨hnext, ⟨hb, hr, -⟩ | ⟨hc, hl⟩⟩ := (next_eq_some_iff hi).mp hn
  · rw [exit_iff_of_not_branch hb] at h
    exact absurd (h.1.symm.trans hr) (by decide)
  · rw [exit_iff_of_call hi hc, hl] at h
    exact (Option.some.inj h).symm

theorem halts_of_next {a : Address} (h : (k.onward i).next = some a) : i.halts = false := by
  unfold onward at h
  unfold Instruction.halts
  cases hc : i.course with
  | onward => rfl
  | call => rfl
  | branch => simp [hc] at h
  | ret => simp [hc] at h
  | stop => simp [hc] at h

theorem landing_of_next_of_call {b : Address} (hi : i.Lawful) (hcall : i.effects.call = true)
    (h : (k.onward i).next = some b) : i.next? = some b ∧ k.landingAfter i = some b := by
  obtain ⟨hn, ⟨hb, -⟩ | ⟨-, hl⟩⟩ := (next_eq_some_iff hi).mp h
  · exact absurd ((hi.branch_of_call hcall).symm.trans hb) (by decide)
  · exact ⟨hn, hl⟩

end Skips

/-- The addresses that have to be resolved when an instruction is collected: those where a node has
to start, and the return address of a call if no instruction was claimed there. -/
def Memory.Leads (m : Memory) (k : Skips) (i : Instruction) (t : Address) : Prop :=
  t ∈ (k.onward i).targets ∨
    (i.effects.call = true ∧ (k.onward i).next = some t ∧ (m.marks t).opening = false)

theorem Memory.leads_iff {m : Memory} {k : Skips} {i : Instruction} {t : Address} (hi : i.Lawful) :
    m.Leads k i t ↔ (i.effects.call = true ∧ i.branchTarget? = some t) ∨
      (k.Exit i t ∧ (i.effects.call = true → i.next? = some t → (m.marks t).opening = false)) := by
  unfold Leads
  rw [Skips.mem_targets_iff hi, Skips.next_eq_some_iff hi]
  constructor
  · intro h
    cases h with
    | inl hj =>
      cases hj with
      | target ht =>
        cases hc : i.effects.call with
        | true => exact .inl ⟨rfl, ht⟩
        | false =>
          have hb : i.effects.branch = true := by
            rw [hi.branchTarget] at ht
            cases hb : i.effects.branch with
            | true => rfl
            | false => rw [hb] at ht; cases ht
          exact .inr ⟨.jump hb hc ht, by simp⟩
      | landing hb hc hs hl => exact .inr ⟨.landing hb (.inr hs) hl, by simp [hc]⟩
      | conditional hr hc hn =>
        have hb := hi.branch_of_ret hr
        refine .inr ⟨.conditional hr hc hn, ?_⟩
        intro hcall
        exact absurd ((hi.branch_of_call hcall).symm.trans hb) (by decide)
      | moved hc hl hm =>
        exact .inr ⟨.landing (hi.branch_of_call hc) (.inl hc) hl, fun _ hn => absurd hn hm⟩
    | inr hj =>
      obtain ⟨hc, ⟨-, ⟨hb, -⟩ | ⟨-, hl⟩⟩, hclosed⟩ := hj
      · exact absurd ((hi.branch_of_call hc).symm.trans hb) (by decide)
      · exact .inr ⟨.landing (hi.branch_of_call hc) (.inl hc) hl, fun _ _ => hclosed⟩
  · intro h
    cases h with
    | inl h => exact .inl (.target h.2)
    | inr h =>
      obtain ⟨hexit, hclosed⟩ := h
      cases hexit with
      | jump _ _ ht => exact .inl (.target ht)
      | conditional hr hc hn => exact .inl (.conditional hr hc hn)
      | landing hb hs hl =>
        cases hc : i.effects.call with
        | false => exact .inl (.landing hb hc (by simpa [hc] using hs) hl)
        | true =>
          by_cases hn : i.next? = some t
          · exact .inr ⟨rfl, ⟨hn, .inr ⟨rfl, hl⟩⟩, hclosed hc hn⟩
          · exact .inl (.moved hc hl hn)

namespace Survey

variable {m : Memory} {v : Opcode.Variant} {k : Skips} {amb R : Address → Prop} {s s' s'' : Survey}
  {d d' d'' : Draft}
variable {i : Instruction} {T T' : Address → Prop}

/-! ### Edges -/

/-- The addresses `T` have been resolved, and control leaves to each of them unless it overlaps and
so is ambiguous. -/
structure Linked (m : Memory) (v : Opcode.Variant) (k : Skips) (amb R T : Address → Prop)
    (s : Survey) (d : Draft) (s' : Survey) (d' : Draft) : Prop where
  tally : Tally m v k amb (fun u => R u ∨ T u) s'
  grown : Extends m s s'
  draft : d' = { d with edges := d'.edges }
  sound : ∀ t ∈ d'.edges, t ∈ d.edges ∨ (T t ∧ s'.graph.contains t = true)
  complete : ∀ t, t ∈ d.edges ∨ T t →
    t ∈ d'.edges ∨ (m.Overlaps v t ∧ s'.diagnostics.has .ambiguous t = true)

theorem Linked.congr (h : Linked m v k amb R T s d s' d') (ht : ∀ u, T u ↔ T' u) :
    Linked m v k amb R T' s d s' d' := by
  have heq : T = T' := funext fun u => propext (ht u)
  rw [← heq]
  exact h

theorem Linked.trans (h : Linked m v k amb R T s d s' d')
    (h' : Linked m v k amb (fun u => R u ∨ T u) T' s' d' s'' d'') :
    Linked m v k amb R (fun u => T u ∨ T' u) s d s'' d'' where
  tally := h'.tally.congr fun u => or_assoc
  grown := h.grown.trans h'.grown
  draft := by
    rw [h'.draft, h.draft]
  sound := by
    intro t ht
    cases h'.sound t ht with
    | inr hnew => exact .inr ⟨.inr hnew.1, hnew.2⟩
    | inl hold =>
      cases h.sound t hold with
      | inl hd => exact .inl hd
      | inr hnew => exact .inr ⟨.inl hnew.1, h'.grown.contains hnew.2⟩
  complete := by
    intro t ht
    have hmid : t ∈ d'.edges ∨ T' t ∨
        (m.Overlaps v t ∧ s'.diagnostics.has .ambiguous t = true) := by
      rcases ht with hd | hT | hT'
      · cases h.complete t (.inl hd) with
        | inl he => exact .inl he
        | inr ha => exact .inr (.inr ha)
      · cases h.complete t (.inr hT) with
        | inl he => exact .inl he
        | inr ha => exact .inr (.inr ha)
      · exact .inr (.inl hT')
    rcases hmid with he | hT' | ha
    · exact h'.complete t (.inl he)
    · exact h'.complete t (.inr hT')
    · exact .inr ⟨ha.1, h'.grown.ambiguous ha.2⟩

theorem Tally.linked_none (h : Tally m v k amb R s) (ht : ∀ u, ¬T u) :
    Linked m v k amb R T s d s d where
  tally := h.congr fun u => by simp [ht u]
  grown := .refl m s
  draft := rfl
  sound := fun t hd => .inl hd
  complete := by
    intro t hd
    cases hd with
    | inl hd => exact .inl hd
    | inr hT => exact absurd hT (ht t)

theorem Tally.linkAll {o : Option Address} (h : Tally m v k amb R s)
    (ho : ∀ t, o = some t → (m.marks t).opening = true → s.graph.contains t = true) :
    Linked m v k amb R (o = some ·) s d (s.linkAll d o).1 (s.linkAll d o).2 := by
  cases o with
  | none => exact h.linked_none (by simp)
  | some t =>
    have hopen := ho t rfl
    have htally := h.resolve hopen
    have hgrown := h.extends_resolve hopen
    have hspec := h.resolve_spec hopen
    show Linked m v k amb R (some t = some ·) s d (s.link d t).1 (s.link d t).2
    unfold link
    dsimp only
    cases hr : (s.resolve t).2 with
    | none =>
      have hamb : m.Overlaps v t ∧
          (s.resolve t).1.diagnostics.has .ambiguous t = true := by simpa [hr] using hspec
      refine ⟨htally.congr fun u => by simp [eq_comm], hgrown, rfl, fun u hu => .inl hu, ?_⟩
      intro u hu
      cases hu with
      | inl hd => exact .inl hd
      | inr heq =>
        cases heq
        exact .inr hamb
    | some t' =>
      have hnode : t' = t ∧ (s.resolve t).1.graph.contains t = true := by simpa [hr] using hspec
      obtain ⟨rfl, hnode⟩ := hnode
      refine ⟨htally.congr fun u => by simp [eq_comm], hgrown, rfl, ?_, ?_⟩
      · intro u hu
        cases Array.mem_push.mp hu with
        | inl hd => exact .inl hd
        | inr heq =>
          subst heq
          exact .inr ⟨rfl, hnode⟩
      · intro u hu
        refine .inl (Array.mem_push.mpr ?_)
        cases hu with
        | inl hd => exact .inl hd
        | inr heq =>
          cases heq
          exact .inr rfl

/-! ### The flow of control -/

/-- What following the flow of control from an instruction does to a survey and a draft. -/
structure Followed (m : Memory) (v : Opcode.Variant) (k : Skips) (amb R : Address → Prop)
    (s : Survey) (d : Draft) (i : Instruction) (r : (Survey × Draft) × Bool) : Prop where
  tally : Tally m v k amb (fun u => R u ∨ m.Leads k i u) r.1.1
  grown : Extends m s r.1.1
  instructions : r.1.2.instructions = d.instructions
  length : r.1.2.length = d.length
  calls : r.1.2.calls = (d.calls || i.effects.call)
  stop : r.1.2.stop = (d.stop || i.halts)
  uncalled : i.effects.call = false → r.1.2.callee = d.callee
  called : i.effects.call = true → ∀ u, i.branchTarget? = some u →
    (r.1.2.callee = some u ∧ r.1.1.graph.contains u = true) ∨
      (r.1.2.callee = d.callee ∧ m.Overlaps v u ∧ r.1.1.diagnostics.has .ambiguous u = true)
  on : r.2 = true → ∀ b, i.next? = some b →
    (k.onward i).next = some b ∧ (i.effects.call = true → (m.marks b).opening = true)
  off : r.2 = false ∨ i.next? = none → ∀ b, (k.onward i).next = some b → (m.marks b).opening = false
  edges_on : r.2 = true → r.1.2.edges = d.edges
  sound : ∀ t ∈ r.1.2.edges, t ∈ d.edges ∨ (k.Exit i t ∧ r.1.1.graph.contains t = true)
  complete : r.2 = false ∨ i.next? = none → ∀ t, k.Exit i t →
    t ∈ r.1.2.edges ∨ (m.Overlaps v t ∧ r.1.1.diagnostics.has .ambiguous t = true)

/-- An instruction that ends a node and is no call: all that is resolved is where control leaves to.
That the draft has come to a return is of no concern. -/
theorem Linked.followed {x y : Bool} (h : Linked m v k amb R (k.Exit i) s d s' d') (hi : i.Lawful)
    (hc : i.effects.call = false) (hn : (k.onward i).next = none) (hs : x = (d.stop || i.halts)) :
    Followed m v k amb R s d i ((s', { d' with stop := x, returns := y }), false) where
  tally := by
    refine h.tally.congr fun u => ?_
    rw [Memory.leads_iff hi]
    simp [hc]
  grown := h.grown
  instructions := by rw [h.draft]
  length := by rw [h.draft]
  calls := by rw [h.draft, hc, Bool.or_false]
  stop := hs
  uncalled := by
    intro _
    rw [h.draft]
  called := fun hcall => absurd (hcall.symm.trans hc) (by decide)
  on := fun hon => absurd hon Bool.false_ne_true
  off := by
    intro _ b hb
    exact absurd (hb.symm.trans hn) (by simp)
  edges_on := fun hon => absurd hon Bool.false_ne_true
  sound := h.sound
  complete := fun _ t ht => h.complete t (.inr ht)

theorem Linked.followed_of_not_halts (h : Linked m v k amb R (k.Exit i) s d s' d') (hi : i.Lawful)
    (hc : i.effects.call = false) (hn : (k.onward i).next = none) (hs : i.halts = false) :
    Followed m v k amb R s d i ((s', d'), false) := by
  have hstop : d'.stop = (d.stop || i.halts) := by rw [h.draft, hs, Bool.or_false]
  exact h.followed hi hc hn hstop

/-- A call that ends a node: the target has been resolved, and then where control comes back to. -/
theorem Tally.follow_call_off {u : Address} (h : Tally m v k amb R s) (hi : i.Lawful)
    (hu : i.branchTarget? = some u) (hcall : i.effects.call = true) (hs : i.halts = false)
    (ho : (m.marks u).opening = true → s.graph.contains u = true)
    (hoff : ∀ b, (k.onward i).next = some b → (m.marks b).opening = false)
    (hl : Linked m v k amb (fun t => R t ∨ t = u) (k.Exit i) (s.resolve u).1
      { d with calls := true, callee := (s.resolve u).2.or d.callee } s' d') :
    Followed m v k amb R s d i ((s', d'), false) where
  tally := by
    refine hl.tally.congr fun t => ?_
    have hclosed : k.Exit i t → i.effects.call = true → i.next? = some t →
        (m.marks t).opening = false := by
      intro hexit _ hn
      rw [Skips.exit_iff_of_call hi hcall] at hexit
      exact hoff t ((Skips.next_eq_some_iff hi).mpr ⟨hn, .inr ⟨hcall, hexit⟩⟩)
    rw [Memory.leads_iff hi, and_iff_left_of_imp hclosed, hu, or_assoc]
    simp [hcall, eq_comm]
  grown := (h.extends_resolve ho).trans hl.grown
  instructions := by rw [hl.draft]
  length := by rw [hl.draft]
  calls := by rw [hl.draft, hcall, Bool.or_true]
  stop := by rw [hl.draft, hs, Bool.or_false]
  uncalled := fun hc => absurd (hcall.symm.trans hc) (by decide)
  called := by
    intro _ t ht
    cases hu.symm.trans ht
    rw [hl.draft]
    cases h.resolve_spec ho with
    | inl hr => exact .inl ⟨by simp [hr.1], hl.grown.contains hr.2⟩
    | inr hr => exact .inr ⟨by simp [hr.1], hr.2.1, hl.grown.ambiguous hr.2.2⟩
  on := fun hon => absurd hon Bool.false_ne_true
  off := fun _ => hoff
  edges_on := fun hon => absurd hon Bool.false_ne_true
  sound := hl.sound
  complete := fun _ t ht => hl.complete t (.inr ht)

/-- A call inside of a node: control comes back to the claimed instruction behind it. -/
theorem Tally.follow_call_on {u a : Address} (h : Tally m v k amb R s) (hi : i.Lawful)
    (hu : i.branchTarget? = some u) (hcall : i.effects.call = true) (hs : i.halts = false)
    (ho : (m.marks u).opening = true → s.graph.contains u = true) (hl : k.landingAfter i = some a)
    (hn : i.next? = some a) (ha : (m.marks a).opening = true) :
    Followed m v k amb R s d i
      (((s.resolve u).1, { d with calls := true, callee := (s.resolve u).2.or d.callee }),
        true) where
  tally := by
    refine (h.resolve ho).congr fun t => ?_
    have hinside :
        ¬(k.Exit i t ∧
          (i.effects.call = true → i.next? = some t → (m.marks t).opening = false)) := by
      intro ⟨hexit, hclosed⟩
      rw [Skips.exit_iff_of_call hi hcall, hl] at hexit
      cases hexit
      exact absurd (ha.symm.trans (hclosed hcall hn)) (by decide)
    rw [Memory.leads_iff hi, or_iff_left hinside, hu]
    simp [hcall, eq_comm]
  grown := h.extends_resolve ho
  instructions := rfl
  length := rfl
  calls := by rw [hcall, Bool.or_true]
  stop := by rw [hs, Bool.or_false]
  uncalled := fun hc => absurd (hcall.symm.trans hc) (by decide)
  called := by
    intro _ t ht
    cases hu.symm.trans ht
    cases h.resolve_spec ho with
    | inl hr => exact .inl ⟨by simp [hr.1], hr.2⟩
    | inr hr => exact .inr ⟨by simp [hr.1], hr.2⟩
  on := by
    intro _ b hb
    cases hn.symm.trans hb
    exact ⟨(Skips.next_eq_some_iff hi).mpr ⟨hn, .inr ⟨hcall, hl⟩⟩, fun _ => ha⟩
  off := by
    intro hoff
    cases hoff with
    | inl hoff => exact absurd hoff.symm Bool.false_ne_true
    | inr hnone => rw [hn] at hnone; cases hnone
  edges_on := fun _ => rfl
  sound := fun t ht => .inl ht
  complete := by
    intro hoff
    cases hoff with
    | inl hoff => exact absurd hoff.symm Bool.false_ne_true
    | inr hnone => rw [hn] at hnone; cases hnone

theorem Tally.follow_call {u : Address} (h : Tally m v k amb R s) (hi : i.Lawful)
    (hc : i.course = .call u) (hu : i.branchTarget? = some u) (hcall : i.effects.call = true)
    (ho : ∀ t, m.Leads k i t → (m.marks t).opening = true → s.graph.contains t = true) :
    Followed m v k amb R s d i (s.follow d i) := by
  have hopen := ho u ((Memory.leads_iff hi).mpr (.inl ⟨hcall, hu⟩))
  have htally := h.resolve hopen
  have hs : i.halts = false := by simp [Instruction.halts, hc]
  unfold Survey.follow
  rw [hc]
  dsimp only
  rw [h.skips]
  cases hl : k.landingAfter i with
  | none =>
    refine h.follow_call_off hi hu hcall hs hopen ?_ (htally.linked_none fun t ht => ?_)
    · intro b hb
      have hland := (Skips.landing_of_next_of_call hi hcall hb).2
      rw [hl] at hland
      cases hland
    · rw [Skips.exit_iff_of_call hi hcall, hl] at ht
      cases ht
  | some a =>
    dsimp only
    rw [h.same.opening]
    split
    next hgo =>
      simp only [Bool.and_eq_true, decide_eq_true_eq] at hgo
      exact h.follow_call_on hi hu hcall hs hopen hl hgo.1.symm hgo.2
    next hstay =>
      have hclosed : i.next? = some a → (m.marks a).opening = false := by
        intro hn
        simpa [hn] using hstay
      have hexit : ∀ t, some a = some t ↔ k.Exit i t := by
        intro t
        rw [Skips.exit_iff_of_call hi hcall, hl]
      refine h.follow_call_off hi hu hcall hs hopen ?_
        ((htally.linkAll (o := some a) ?_).congr hexit)
      · intro b hb
        obtain ⟨hn, hland⟩ := Skips.landing_of_next_of_call hi hcall hb
        cases hl.symm.trans hland
        exact hclosed hn
      · intro t ht hto
        have hlead : m.Leads k i t :=
          (Memory.leads_iff hi).mpr
            (.inr ⟨(hexit t).mp ht, fun _ hn => by cases ht; exact hclosed hn⟩)
        exact (h.extends_resolve hopen).contains (ho t hlead hto)

theorem Tally.follow (h : Tally m v k amb R s) (hi : i.Lawful)
    (ho : ∀ t, m.Leads k i t → (m.marks t).opening = true → s.graph.contains t = true) :
    Followed m v k amb R s d i (s.follow d i) := by
  obtain ⟨hc, hb, hcall, hr, hs⟩ | ⟨u, hc, hu, hb, hcall, hr, hs⟩ | ⟨u, hc, hu, hb, hcall, hr⟩ |
    ⟨hc, hb, hcall, hr⟩ | ⟨hc, hb, hcall, hr, hs⟩ := hi.course_cases
  · unfold Survey.follow
    rw [hc]
    have hnext : (k.onward i).next = i.next? := by simp [Skips.onward, hc]
    have hexit : ∀ t, ¬k.Exit i t := by
      intro t ht
      rw [Skips.exit_iff_of_not_branch hb] at ht
      exact absurd (ht.1.symm.trans hr) (by decide)
    have hleads : ∀ t, ¬m.Leads k i t := by
      intro t ht
      rw [Memory.leads_iff hi] at ht
      cases ht with
      | inl ht => exact absurd (ht.1.symm.trans hcall) (by decide)
      | inr ht => exact hexit t ht.1
    refine ⟨h.congr fun t => by simp [hleads t], .refl m s, rfl, rfl, by simp [hcall],
      by simp [Instruction.halts, hc], fun _ => rfl, ?_, ?_, ?_, fun _ => rfl, fun t ht => .inl ht,
      fun _ t ht => absurd ht (hexit t)⟩
    · intro hcall'
      exact absurd (hcall'.symm.trans hcall) (by decide)
    · intro _ b hb'
      exact ⟨hnext.trans hb', fun hcall' => absurd (hcall'.symm.trans hcall) (by decide)⟩
    · intro hoff b hb'
      cases hoff with
      | inl hoff => exact absurd hoff.symm Bool.false_ne_true
      | inr hnone =>
        rw [hnext, hnone] at hb'
        cases hb'
  · exact h.follow_call hi hc hu hcall ho
  · unfold Survey.follow
    rw [hc]
    have hnone : (k.onward i).next = none := by simp [Skips.onward, hc]
    have hfirst := h.linkAll (o := some u) (d := d) (by
      intro t ht
      exact ho t ((Memory.leads_iff hi).mpr (.inr ⟨.jump hb hcall (hu.trans ht), by simp [hcall]⟩)))
    cases hstop : i.effects.stop with
    | true =>
      have hlinked : Linked m v k amb R (k.Exit i) s d (s.link d u).1 (s.link d u).2 := by
        refine hfirst.congr fun t => ?_
        rw [Skips.exit_iff_of_branch hi hb hcall, hu]
        simp [hstop]
      exact hlinked.followed hi hcall hnone (by simp [Instruction.halts, hc, hstop])
    | false =>
      have hsecond := hfirst.tally.linkAll (o := s.skips.landingAfter i) (d := (s.link d u).2) (by
        intro t ht hopen
        rw [h.skips] at ht
        have hlead : m.Leads k i t :=
          (Memory.leads_iff hi).mpr (.inr ⟨.landing hb (.inr hstop) ht, by simp [hcall]⟩)
        exact hfirst.grown.contains (ho t hlead hopen))
      have hlinked : Linked m v k amb R (k.Exit i) s d _ _ :=
        (hfirst.trans hsecond).congr fun t => by
        rw [Skips.exit_iff_of_branch hi hb hcall, hu, h.skips]
        simp [hstop]
      exact hlinked.followed_of_not_halts hi hcall hnone (by simp [Instruction.halts, hc, hstop])
  · unfold Survey.follow
    rw [hc]
    have hnone : (k.onward i).next = none := by simp [Skips.onward, hc]
    have hmarked : Extends m s
        { s with memory := s.memory.mark i.address.toNat 1 { returns := true } } :=
      ⟨id, .inl, rfl, fun _ => Iff.rfl, id⟩
    have htally :=
      h.of_memory (s.memory.sameCode_mark i.address.toNat 1 (k := { returns := true })
        rfl rfl rfl rfl)
    cases hcond : i.effects.conditional with
    | true =>
      have hlast := htally.linkAll (o := i.next?) (d := { d with returns := true }) (by
        intro t ht hopen
        exact ho t ((Memory.leads_iff hi).mpr (.inr ⟨.conditional hr hcond ht, by simp [hcall]⟩))
          hopen)
      have hlinked : Linked m v k amb R (k.Exit i) _ { d with returns := true } _ _ :=
        hlast.congr fun t => by
        rw [Skips.exit_iff_of_not_branch hb]
        simp [hr, hcond]
      have hfollowed :=
        hlinked.followed_of_not_halts hi hcall hnone (by simp [Instruction.halts, hc, hcond])
      exact { hfollowed with grown := hmarked.trans hfollowed.grown }
    | false =>
      have hlinked : Linked m v k amb R (k.Exit i) _ d _ d := htally.linked_none fun t ht => by
        rw [Skips.exit_iff_of_not_branch hb] at ht
        exact absurd (ht.2.1.symm.trans hcond) (by decide)
      have hfollowed :=
        hlinked.followed (x := true) (y := true) hi hcall hnone
          (by simp [Instruction.halts, hc, hcond])
      exact { hfollowed with grown := hmarked.trans hfollowed.grown }
  · unfold Survey.follow
    rw [hc]
    have hlinked : Linked m v k amb R (k.Exit i) s d s d := by
      refine h.linked_none fun t ht => ?_
      rw [Skips.exit_iff_of_not_branch hb] at ht
      exact absurd (ht.1.symm.trans hr) (by decide)
    exact hlinked.followed hi hcall (by simp [Skips.onward, hc]) (by simp [Instruction.halts, hc])

/-! ### Stamps on the memory -/

end Survey

/-- The instruction refers to the data at an address. -/
def Instruction.RefersTo (i : Instruction) (b : Address) : Prop :=
  i.kind = .data ∧ i.target? = some b

/-- The memory `m` once the instructions at the addresses `C` have been collected: the data that
they refer to and the returns among them are marked, and nothing else. -/
structure Memory.Stamped (m : Memory) (v : Opcode.Variant) (C : Address → Prop) (m' : Memory) :
    Prop where
  same : m.SameCode m'
  data : ∀ b, (m'.marks b).data = true ↔
    (m.marks b).data = true ∨ ∃ p, C p ∧ (m.decode v p).RefersTo b
  returns : ∀ b, (m'.marks b).returns = true ↔
    (m.marks b).returns = true ∨ (C b ∧ (m.decode v b).effects.ret = true)

theorem Memory.Stamped.refl (m : Memory) (v : Opcode.Variant) : m.Stamped v (fun _ => False) m where
  same := .refl m
  data := by simp
  returns := by simp

theorem Memory.Stamped.congr {m m' : Memory} {v : Opcode.Variant} {C C' : Address → Prop}
    (h : m.Stamped v C m') (hc : ∀ p, C p ↔ C' p) : m.Stamped v C' m' := by
  have heq : C = C' := funext fun p => propext (hc p)
  rw [← heq]
  exact h

theorem Memory.marks_mark_one (m : Memory) (a b : Address) (k : Marks) :
    (m.mark a.toNat 1 k).marks b = if b = a then m.marks b ∪ k else m.marks b := by
  have hab : (a.toNat ≤ b.toNat ∧ b.toNat < a.toNat + 1) ↔ b = a := by
    rw [← UInt16.toNat_inj]
    omega
  rw [marks_mark]
  simp only [hab]

namespace Survey

variable {s : Survey} {d : Draft} {i : Instruction}

@[simp] theorem memory_resolve (s : Survey) (t : Address) : (s.resolve t).1.memory = s.memory := by
  unfold resolve
  split
  · rfl
  · split
    · rfl
    · split <;> rfl

@[simp] theorem memory_link (s : Survey) (d : Draft) (t : Address) :
    (s.link d t).1.memory = s.memory := by
  unfold link
  dsimp only
  split <;> exact memory_resolve s t

@[simp] theorem memory_linkAll (s : Survey) (d : Draft) (o : Option Address) :
    (s.linkAll d o).1.memory = s.memory := by
  cases o with
  | none => rfl
  | some t => exact memory_link s d t

theorem memory_follow (s : Survey) (d : Draft) (hi : i.Lawful) :
    (s.follow d i).1.1.memory =
      if i.effects.ret then s.memory.mark i.address.toNat 1 { returns := true } else s.memory := by
  unfold follow
  obtain ⟨hc, -, -, hr, -⟩ | ⟨u, hc, -, -, -, hr, -⟩ | ⟨u, hc, -, -, -, hr⟩ | ⟨hc, -, -, hr⟩ |
    ⟨hc, -, -, hr, -⟩ :=
    hi.course_cases
  · simp [hc, hr]
  · rw [hc, hr]
    dsimp only
    split
    · split <;> simp
    · simp
  · rw [hc, hr]
    dsimp only
    split <;> simp
  · rw [hc, hr]
    dsimp only
    split <;> simp
  · simp [hc, hr]

theorem memory_noteData (s : Survey) (d : Draft) (i : Instruction) :
    (∃ a, i.RefersTo a ∧ (s.noteData d i).1.memory = s.memory.mark a.toNat 1 { data := true }) ∨
      ((∀ a, ¬i.RefersTo a) ∧ (s.noteData d i).1.memory = s.memory) := by
  unfold noteData Instruction.RefersTo
  cases hk : i.kind with
  | data =>
    cases ht : i.target? with
    | none => exact .inr ⟨by simp, rfl⟩
    | some a => exact .inl ⟨a, ⟨rfl, rfl⟩, rfl⟩
  | _ => exact .inr ⟨by simp, rfl⟩

@[simp] theorem dataRefs_link (s : Survey) (d : Draft) (t : Address) :
    (s.link d t).2.dataRefs = d.dataRefs := by
  unfold link
  dsimp only
  split <;> rfl

@[simp] theorem dataRefs_linkAll (s : Survey) (d : Draft) (o : Option Address) :
    (s.linkAll d o).2.dataRefs = d.dataRefs := by
  cases o with
  | none => rfl
  | some t => exact dataRefs_link s d t

theorem dataRefs_follow (s : Survey) (d : Draft) (i : Instruction) :
    (s.follow d i).1.2.dataRefs = d.dataRefs := by
  unfold follow
  cases i.course with
  | onward => rfl
  | call t =>
    dsimp only
    split
    · split <;> simp
    · rfl
  | branch t falls =>
    dsimp only
    split <;> simp
  | ret falls =>
    dsimp only
    split <;> simp
  | stop => rfl

/-- Collecting an instruction notes what it refers to. -/
theorem mem_dataRefs_collect {x : Address} :
    x ∈ (s.collect d i).1.2.dataRefs ↔
      x ∈ d.dataRefs ∨ ∃ t, i.RefersTo t ∧ x = s.memory.referent t := by
  unfold collect
  rw [dataRefs_follow]
  show x ∈ (s.noteData d i).2.dataRefs ↔ _
  unfold noteData Instruction.RefersTo
  cases hk : i.kind with
  | data =>
    cases ht : i.target? with
    | none => simp
    | some t => simp
  | _ => simp

theorem data_collect (s : Survey) (d : Draft) (hi : i.Lawful) (b : Address) :
    ((s.collect d i).1.1.memory.marks b).data = true ↔
      (s.memory.marks b).data = true ∨ i.RefersTo b := by
  have hfollow :
      ((s.collect d i).1.1.memory.marks b).data = ((s.noteData d i).1.memory.marks b).data := by
    unfold collect
    rw [memory_follow _ _ hi]
    split
    · rw [Memory.marks_mark_one]
      split <;> simp
    · rfl
  rw [hfollow]
  obtain ⟨a, ha, hmem⟩ | ⟨hnone, hmem⟩ := memory_noteData s d i
  · have hb : i.RefersTo b ↔ b = a := by
      constructor
      · intro hb
        exact Option.some.inj (hb.2.symm.trans ha.2)
      · intro heq
        rw [heq]
        exact ha
    rw [hmem, Memory.marks_mark_one, hb]
    split
    next heq => simp [heq]
    next hne => simp [hne]
  · rw [hmem]
    simp [hnone b]

theorem returns_collect (s : Survey) (d : Draft) (hi : i.Lawful) (b : Address) :
    ((s.collect d i).1.1.memory.marks b).returns = true ↔
      (s.memory.marks b).returns = true ∨ (b = i.address ∧ i.effects.ret = true) := by
  have hnote : ((s.noteData d i).1.memory.marks b).returns = (s.memory.marks b).returns := by
    obtain ⟨a, -, hmem⟩ | ⟨-, hmem⟩ := memory_noteData s d i
    · rw [hmem, Memory.marks_mark_one]
      split <;> simp
    · rw [hmem]
  unfold collect
  rw [memory_follow _ _ hi, ← hnote]
  split
  next hr =>
    rw [Memory.marks_mark_one]
    split
    next heq => simp [heq, hr]
    next hne => simp [hne]
  next hr => simp [hr]

theorem sameCode_collect (s : Survey) (d : Draft) (hi : i.Lawful) :
    s.memory.SameCode (s.collect d i).1.1.memory := by
  have hnote : s.memory.SameCode (s.noteData d i).1.memory := by
    obtain ⟨a, -, hmem⟩ | ⟨-, hmem⟩ := memory_noteData s d i
    · rw [hmem]
      exact Memory.sameCode_mark _ _ _ rfl rfl rfl rfl
    · rw [hmem]
      exact .refl _
  unfold collect
  rw [memory_follow _ _ hi]
  split
  · exact hnote.trans (Memory.sameCode_mark _ _ _ rfl rfl rfl rfl)
  · exact hnote

theorem stamped_collect {m : Memory} {v : Opcode.Variant} {C : Address → Prop}
    (h : m.Stamped v C s.memory) (d : Draft) (a : Address) :
    m.Stamped v (fun p => C p ∨ p = a) (s.collect d (m.decode v a)).1.1.memory := by
  have hi := m.lawful_decode v a
  refine ⟨h.same.trans (sameCode_collect s d hi), ?_, ?_⟩
  · intro b
    rw [data_collect s d hi, h.data]
    constructor
    · rintro ((hm | ⟨p, hp, href⟩) | href)
      · exact .inl hm
      · exact .inr ⟨p, .inl hp, href⟩
      · exact .inr ⟨a, .inr rfl, href⟩
    · rintro (hm | ⟨p, hp | rfl, href⟩)
      · exact .inl (.inl hm)
      · exact .inl (.inr ⟨p, hp, href⟩)
      · exact .inr href
  · intro b
    rw [returns_collect s d hi, h.returns]
    constructor
    · rintro ((hm | hb) | ⟨rfl, hr⟩)
      · exact .inl hm
      · exact .inr ⟨.inl hb.1, hb.2⟩
      · exact .inr ⟨.inr rfl, hr⟩
    · rintro (hm | ⟨hb | rfl, hr⟩)
      · exact .inl (.inl hm)
      · exact .inl (.inr ⟨hb, hr⟩)
      · exact .inr ⟨rfl, hr⟩

/-- Collecting is following, once the data has been noted and the instruction put into the draft. -/
theorem Tally.collect {m : Memory} {v : Opcode.Variant} {k : Skips} {amb R : Address → Prop}
    (h : Tally m v k amb R s) (hi : i.Lawful)
    (ho : ∀ t, m.Leads k i t → (m.marks t).opening = true → s.graph.contains t = true) :
    Followed m v k amb R s (d.push i) i (s.collect d i) := by
  unfold Survey.collect noteData
  cases hk : i.kind with
  | data =>
    cases ht : i.target? with
    | none => exact h.follow hi ho
    | some a =>
      have htally :=
        h.of_memory (s.memory.sameCode_mark a.toNat 1 (k := { data := true }) rfl rfl rfl rfl)
      have hmarked : Extends m s { s with memory := s.memory.mark a.toNat 1 { data := true } } :=
        ⟨id, .inl, rfl, fun _ => Iff.rfl, id⟩
      have hfollowed :=
        htally.follow (d := { d with dataRefs := addOnce d.dataRefs (s.memory.referent a) }.push i)
          hi ho
      exact { hfollowed with grown := hmarked.trans hfollowed.grown }
  | _ => exact h.follow hi ho

end Survey

end Z80Atlas
