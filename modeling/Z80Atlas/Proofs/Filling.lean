import Z80Atlas.Proofs.Drafts

/-!
# Filling the nodes

Filling a node keeps the others as they are, although nodes are still being made: a node that is
made before a second call lies right behind the node that is just being filled, and so inside of no
other one.  The invariant of the whole loop is `Survey.Charting`: every node is empty and waiting,
or has been filled, or stands for a target that is missing.
-/

namespace Z80Atlas.Survey

variable {m : Memory} {v : Opcode.Variant} {k : Skips} {amb busy C : Address → Prop}
  {s s' : Survey} {d : Draft}
variable {start a p : Address} {n : Node}

/-! ### The invariant -/

/-- The instruction at `p` is in a node. -/
def Holds (s : Survey) (p : Address) : Prop :=
  ∃ a n, s.graph.bodyAt a = some n ∧ ∃ i ∈ n.instructions.toList, i.address = p

/-- The instruction at `p` is in a node or in the draft. -/
def Gathered (s : Survey) (d : Draft) (p : Address) : Prop :=
  s.Holds p ∨ ∃ i ∈ d.instructions.toList, i.address = p

/-- What is known while nodes are being filled.  The instructions at `C` have been collected, and
the nodes `busy` are being filled just now. -/
structure Charting (m : Memory) (v : Opcode.Variant) (k : Skips) (amb busy C : Address → Prop)
    (s : Survey) : Prop where
  tally : Tally m v k amb (fun t => ∃ p, C p ∧ m.Leads k (m.decode v p) t) s
  stamped : m.Stamped v C s.memory
  junction : ∀ {p t}, (m.marks p).opening = true → t ∈ (k.onward (m.decode v p)).targets →
    (m.marks t).opening = true → s.graph.contains t = true
  begun : ∀ {a}, (m.marks a).opening = true →
    s.graph.contains a = true ∨ ∃ p, (m.marks p).opening = true ∧
    (k.onward (m.decode v p)).next = some a
  pending : ∀ a ∈ s.pending.toList, s.graph.contains a = true ∧ (m.marks a).opening = true
  waiting : ∀ {a}, (m.marks a).opening = true → s.graph.contains a = true → a ∉ s.filled →
    a ∈ s.pending.toList
  filled : ∀ {a}, (m.marks a).opening = true → a ∈ s.filled → s.graph.contains a = true
  done : ∀ {a n}, s.graph.bodyAt a = some n → (m.marks a).opening = true → a ∈ s.filled → ¬busy a →
    n.start = a ∧ ∃ p, Filled m v k s n p
  blank : ∀ {a n}, s.graph.bodyAt a = some n → (m.marks a).opening = false ∨ a ∉ s.filled ∨ busy a →
    n = { start := a, label := n.label }

theorem Extends.bodyAt_kept (h : Extends m s s') (hn : s.graph.bodyAt a = some n) :
    s'.graph.bodyAt a = some n := by
  obtain ⟨n', hget, hbody⟩ := FlowGraph.bodyAt_eq_some_iff.mp hn
  exact FlowGraph.bodyAt_eq_some_iff.mpr ⟨n', h.kept hget, hbody⟩

theorem Extends.bodyAt_made (h : Extends m s s') (hn : s'.graph.bodyAt a = some n) :
    s.graph.bodyAt a = some n ∨ ((m.marks a).opening = false ∧ n = { start := a }) := by
  obtain ⟨n', hget, hbody⟩ := FlowGraph.bodyAt_eq_some_iff.mp hn
  cases h.made hget with
  | inl hold => exact .inl (FlowGraph.bodyAt_eq_some_iff.mpr ⟨n', hold, hbody⟩)
  | inr hnew =>
    rw [hnew.2] at hbody
    exact .inr ⟨hnew.1, hbody.symm⟩

/-- New nodes hold nothing. -/
theorem Extends.holds_iff (h : Extends m s s') : s'.Holds p ↔ s.Holds p := by
  constructor
  · intro ⟨a, n, hn, i, hi, hp⟩
    cases h.bodyAt_made hn with
    | inl hold => exact ⟨a, n, hold, i, hi, hp⟩
    | inr hnew =>
      rw [hnew.2] at hi
      simp at hi
  · intro ⟨a, n, hn, i, hi, hp⟩
    exact ⟨a, n, h.bodyAt_kept hn, i, hi, hp⟩

theorem holds_await (s : Survey) (a p : Address) : (s.await a).Holds p ↔ s.Holds p := by
  have hbody : ∀ b, (s.await a).graph.bodyAt b =
      if a = b then some ((s.graph.bodyAt b).getD { start := b }) else s.graph.bodyAt b :=
    fun b => FlowGraph.bodyAt_ensure s.graph a b
  constructor
  · intro ⟨b, n, hn, i, hi, hp⟩
    rw [hbody] at hn
    split at hn
    · cases hb : s.graph.bodyAt b with
      | none =>
        rw [hb, Option.getD_none, Option.some.injEq] at hn
        rw [← hn] at hi
        simp at hi
      | some n' =>
        rw [hb, Option.getD_some, Option.some.injEq] at hn
        rw [← hn] at hi
        exact ⟨b, n', hb, i, hi, hp⟩
    · exact ⟨b, n, hn, i, hi, hp⟩
  · intro ⟨b, n, hn, i, hi, hp⟩
    refine ⟨b, n, ?_, i, hi, hp⟩
    rw [hbody, hn]
    split <;> rfl

/-- Resolving targets, and stamping the memory, while nothing is put into a node. -/
theorem Charting.extend {C' : Address → Prop} (h : Charting m v k amb busy C s)
    (he : Extends m s s')
    (ht : Tally m v k amb (fun t => ∃ p, C' p ∧ m.Leads k (m.decode v p) t) s')
    (hs : m.Stamped v C' s'.memory) :
    Charting m v k amb busy C' s' where
  tally := ht
  stamped := hs
  junction hp hmem ho := he.contains (h.junction hp hmem ho)
  begun := by
    intro a ho
    cases h.begun ho with
    | inl hc => exact .inl (he.contains hc)
    | inr hp => exact .inr hp
  pending := by
    rw [he.pending]
    intro a ha
    exact ⟨he.contains (h.pending a ha).1, (h.pending a ha).2⟩
  waiting := by
    intro a ho hc hf
    rw [he.filled ho] at hf
    rw [he.pending]
    exact h.waiting ho ((he.contains_iff ho).mp hc) hf
  filled := by
    intro a ho hf
    exact he.contains (h.filled ho ((he.filled ho).mp hf))
  done := by
    intro a n hn ho hf hb
    cases he.bodyAt_made hn with
    | inl hold =>
      obtain ⟨hstart, p, hp⟩ := h.done hold ho ((he.filled ho).mp hf) hb
      exact ⟨hstart, p, hp.extends he⟩
    | inr hnew => exact absurd (ho.symm.trans hnew.1) (by decide)
  blank := by
    intro a n hn hor
    cases he.bodyAt_made hn with
    | inr hnew => rw [hnew.2]
    | inl hold =>
      refine h.blank hold ?_
      cases ho : (m.marks a).opening with
      | false => exact .inl rfl
      | true =>
        rw [ho, he.filled ho] at hor
        exact hor

theorem Charting.decode (h : Charting m v k amb busy C s) (a : Address) :
    s.decode a = m.decode v a := by
  unfold Survey.decode
  rw [h.tally.variant]
  exact h.tally.same.decode v a

theorem Charting.opening (h : Charting m v k amb busy C s) (a : Address) :
    (s.memory.marks a).opening = (m.marks a).opening := h.tally.same.opening a

/-! ### Filling one node -/

theorem Charting.followed (h : Charting m v k amb busy C s) (d : Draft)
    (ho : (m.marks a).opening = true) :
    Followed m v k amb (fun t => ∃ p, C p ∧ m.Leads k (m.decode v p) t) s (d.push (m.decode v a))
      (m.decode v a) (s.collect d (m.decode v a)) := by
  refine h.tally.collect (m.lawful_decode v a) ?_
  intro t hlead hopen
  cases hlead with
  | inl htarget => exact h.junction ho htarget hopen
  | inr hcall => exact absurd (hopen.symm.trans hcall.2.2) (by decide)

theorem Charting.collect (h : Charting m v k amb busy (s.Gathered d) s)
    (ho : (m.marks a).opening = true) :
    Charting m v k amb busy
      ((s.collect d (m.decode v a)).1.1.Gathered (s.collect d (m.decode v a)).1.2)
        (s.collect d (m.decode v a)).1.1 := by
  have hf := h.followed d ho
  have hgathered : ∀ p, (s.Gathered d p ∨ p = a) ↔
      (s.collect d (m.decode v a)).1.1.Gathered (s.collect d (m.decode v a)).1.2 p := by
    intro p
    unfold Gathered
    rw [hf.grown.holds_iff, hf.instructions]
    simp only [Draft.push, Array.toList_push, List.mem_append, List.mem_singleton,
      or_and_right, exists_or, exists_eq_left, or_assoc]
    rw [Memory.address_decode, eq_comm (a := p)]
  refine h.extend hf.grown ?_ ((stamped_collect h.stamped d a).congr hgathered)
  refine hf.tally.congr fun t => ?_
  constructor
  · intro hlead
    cases hlead with
    | inl hold =>
      obtain ⟨p, hp, hl⟩ := hold
      exact ⟨p, (hgathered p).mp (.inl hp), hl⟩
    | inr hnew => exact ⟨a, (hgathered a).mp (.inr rfl), hnew⟩
  · intro ⟨p, hp, hl⟩
    cases (hgathered p).mpr hp with
    | inl hold => exact .inl ⟨p, hold, hl⟩
    | inr heq =>
      subst heq
      exact .inr hl

/-- What comes behind the draft lies inside of no node that has been filled: the two would share an
instruction. -/
theorem Charting.not_interior {b : Address} {q : Address} (h : Charting m v k amb busy C s)
    (hd : Held m v s start d) (hs : m.Stretch v k start d.instructions.toList p)
    (hnode : s.graph.contains start = true) (hnext : (k.onward (m.decode v p)).next = some a)
    (ha : s.graph.contains a = false) (hn : s.graph.bodyAt b = some n) (hb : n.start = b)
    (hne : b ≠ start) (hf : Filled m v k s n q) :
    ∀ i ∈ n.instructions.toList, i.address ≠ a := by
  intro i hi heq
  have hstart : s.graph.contains n.start = true :=
    FlowGraph.contains_iff_bodyAt.mpr ⟨n, hb.symm ▸ hn⟩
  have hmem : m.decode v a ∈ n.instructions.toList := by
    rw [← heq, ← (hf.stretch.of_mem i hi).1]
    exact hi
  have has : a ≠ n.start := by
    intro heq'
    rw [heq', hstart] at ha
    cases ha
  obtain ⟨c, hc, hcn⟩ := hf.stretch.prev_mem hmem has
  have hpc : p = c := h.tally.parsed.next_inj hs.opening_last (hf.stretch.of_mem _ hc).2 hnext hcn
  subst hpc
  have hsame : start = n.start :=
    hs.start_eq (fun x => s.graph.contains x = true) h.tally.parsed hf.stretch hnode
      hstart hd.interior hf.interior hs.mem_last hc
  exact hne (hsame.trans hb).symm

/-- A new node at a claimed instruction that lies inside of no node. -/
theorem Charting.await (h : Charting m v k amb busy C s) (ho : (m.marks a).opening = true)
    (ha : s.graph.contains a = false)
    (hi : ∀ {b n p}, s.graph.bodyAt b = some n → n.start = b → ¬busy b → Filled m v k s n p →
      ∀ i ∈ n.instructions.toList, i.address ≠ a) :
    Charting m v k amb busy C (s.await a) := by
  have hcontains : ∀ b, (s.await a).graph.contains b = true ↔ s.graph.contains b = true ∨ b = a :=
    fun b => FlowGraph.contains_ensure
  have hbody : ∀ b, (s.await a).graph.bodyAt b =
      if a = b then some ((s.graph.bodyAt b).getD { start := b }) else s.graph.bodyAt b :=
    fun b => FlowGraph.bodyAt_ensure s.graph a b
  have hpending : ∀ b, b ∈ (s.await a).pending.toList ↔ b ∈ s.pending.toList ∨ b = a := by
    intro b
    show b ∈ (s.pending.push a).toList ↔ b ∈ s.pending.toList ∨ b = a
    rw [Queue.toList_push, List.mem_append, List.mem_singleton]
  refine ⟨?_, h.stamped, ?_, ?_, ?_, ?_, ?_, ?_, ?_⟩
  · refine { h.tally with vacant := ?_ }
    intro t ht
    rw [hcontains, ← h.tally.vacant t ht]
    have hne : t ≠ a := by
      intro heq
      rw [heq, ho] at ht
      cases ht
    simp [hne]
  · intro p t hp ht hopen
    exact (hcontains t).mpr (.inl (h.junction hp ht hopen))
  · intro b hb
    cases h.begun hb with
    | inl hc => exact .inl ((hcontains b).mpr (.inl hc))
    | inr hp => exact .inr hp
  · intro b hb
    cases (hpending b).mp hb with
    | inl hold => exact ⟨(hcontains b).mpr (.inl (h.pending b hold).1), (h.pending b hold).2⟩
    | inr heq =>
      subst heq
      exact ⟨(hcontains b).mpr (.inr rfl), ho⟩
  · intro b hb hc hf
    rw [hpending]
    cases (hcontains b).mp hc with
    | inl hold => exact .inl (h.waiting hb hold hf)
    | inr heq => exact .inr heq
  · intro b hb hf
    exact (hcontains b).mpr (.inl (h.filled hb hf))
  · intro b n hn hb hf hbusy
    have hne : a ≠ b := by
      intro heq
      subst heq
      have hc := h.filled ho hf
      rw [ha] at hc
      cases hc
    rw [hbody, if_neg hne] at hn
    obtain ⟨hstart, p, hp⟩ := h.done hn hb hf hbusy
    refine ⟨hstart, p, hp.mono (fun hc => (hcontains _).mpr (.inl hc)) id ?_⟩
    intro i hmem hc
    cases (hcontains _).mp hc with
    | inl hold => exact hp.interior i hmem hold
    | inr heq => exact absurd heq (hi hn hstart hbusy hp i hmem)
  · intro b n hn hor
    rw [hbody] at hn
    split at hn
    next heq =>
      subst heq
      have hnone : s.graph.bodyAt a = none := by
        cases hg : s.graph.bodyAt a with
        | none => rfl
        | some n' =>
          have hc := FlowGraph.contains_iff_bodyAt.mpr ⟨n', hg⟩
          rw [ha] at hc
          cases hc
      rw [hnone, Option.getD_none, Option.some.injEq] at hn
      rw [← hn]
    next => exact h.blank hn hor

/-- What a finished draft for the node at `start` is known to be. -/
structure Finished (m : Memory) (v : Opcode.Variant) (k : Skips) (amb : Address → Prop)
    (start : Address) (r : Survey × Draft) : Prop where
  charting : Charting m v k amb (· = start) (r.1.Gathered r.2) r.1
  begun : start ∈ r.1.filled
  held : Held m v r.1 start r.2
  linked : ∀ t ∈ r.2.edges, r.1.graph.contains t = true
  filled : ∃ p, ∀ label, Filled m v k r.1 (r.2.into { start := start, label := label }) p

/-- The draft ends where another node starts. -/
theorem Charting.finish_leave (h : Charting m v k amb (· = start) (s.Gathered d) s)
    (hd : Held m v s start d) (hs : m.Stretch v k start d.instructions.toList p)
    (hn : (k.onward (m.decode v p)).next = some a) (he : d.edges = #[]) (hstop : d.stop = false)
    (hb : start ∈ s.filled) (ha : s.graph.contains a = true) :
    Finished m v k amb start (s, d.leave a) := by
  have hmem : ∀ t, t ∈ (d.leave a).edges ↔ t = a := by
    intro t
    simp [Draft.leave, he]
  have hheld : Held m v s start (d.leave a) := { hd with }
  have hlinked : ∀ t ∈ (d.leave a).edges, s.graph.contains t = true := by
    intro t ht
    rw [(hmem t).mp ht]
    exact ha
  refine ⟨h, hb, hheld, hlinked, p,
    hheld.filled hs (hstop.trans (Skips.halts_of_next hn).symm) ?_ hlinked ?_ ?_⟩
  · intro b hb _
    exact (hmem b).mpr (Option.some.inj (hb.symm.trans hn))
  · intro t ht
    exact .inl ((hmem t).mpr (ht.eq_next (m.lawful_decode v p) hn))
  · intro t ht
    rw [(hmem t).mp ht]
    exact .inr hn

/-- The draft ends where no instruction was claimed. -/
theorem Charting.finish_stay (h : Charting m v k amb (· = start) (s.Gathered d) s)
    (hd : Held m v s start d) (hs : m.Stretch v k start d.instructions.toList p)
    (hn : (k.onward (m.decode v p)).next = some a)
    (hc : (m.decode v p).effects.call = true → (m.marks a).opening = true) (he : d.edges = #[])
    (hstop : d.stop = false) (hb : start ∈ s.filled) (ho : (m.marks a).opening = false) :
    Finished m v k amb start (s, d) := by
  have hnone : ∀ t, t ∉ d.edges := by
    intro t
    simp [he]
  have hlinked : ∀ t ∈ d.edges, s.graph.contains t = true := fun t ht => absurd ht (hnone t)
  refine ⟨h, hb, hd, hlinked, p,
    hd.filled hs (hstop.trans (Skips.halts_of_next hn).symm) ?_ hlinked ?_
      (fun t ht => absurd ht (hnone t))⟩
  · intro b hb hopen
    cases hb.symm.trans hn
    exact absurd (hopen.symm.trans ho) (by decide)
  · -- Only behind a call would control leave to where it goes straight on.
    intro t ht
    obtain ⟨-, ⟨hb, hr, -⟩ | ⟨hcall, -⟩⟩ := (Skips.next_eq_some_iff (m.lawful_decode v p)).mp hn
    · rw [Skips.exit_iff_of_not_branch hb] at ht
      exact absurd (ht.1.symm.trans hr) (by decide)
    · exact absurd ((hc hcall).symm.trans ho) (by decide)

theorem Charting.held_collect (h : Charting m v k amb busy C s) (hd : Drafted m v k s start a d)
    (ho : (m.marks a).opening = true) (hcall : (m.decode v a).effects.call = true → d.calls = false)
    (hnode : s.graph.contains a = true → a = start) :
    Held m v (s.collect d (m.decode v a)).1.1 start (s.collect d (m.decode v a)).1.2 ∧
      m.Stretch v k start (s.collect d (m.decode v a)).1.2.instructions.toList a := by
  have hf := h.followed d ho
  constructor
  · refine hd.held.collect hf ho hd.opening hcall ?_ hnode ?_
    · intro hc
      have hi := m.lawful_decode v a
      rw [hi.branchTarget, hi.branch_of_call hc]
      exact ⟨_, rfl⟩
    · intro x
      simp only [mem_dataRefs_collect, h.tally.same.referent_eq]
  · rw [hf.instructions, Draft.push, Array.toList_push]
    exact hd.stretch ho hcall

/-- The draft ends with the instruction at `a`. -/
theorem Charting.finish_collect (h : Charting m v k amb (· = start) (s.Gathered d) s)
    (hd : Drafted m v k s start a d) (ho : (m.marks a).opening = true)
    (hcall : (m.decode v a).effects.call = true → d.calls = false)
    (hnode : s.graph.contains a = true → a = start) (hstart : (m.marks start).opening = true)
    (hb : start ∈ s.filled)
    (hoff : (s.collect d (m.decode v a)).2 = false ∨ (m.decode v a).next? = none) :
    Finished m v k amb start (s.collect d (m.decode v a)).1 := by
  have hf := h.followed d ho
  obtain ⟨hheld, hstretch⟩ := h.held_collect hd ho hcall hnode
  have hedges : ∀ t ∈ (s.collect d (m.decode v a)).1.2.edges, k.Exit (m.decode v a) t ∧
      (s.collect d (m.decode v a)).1.1.graph.contains t = true := by
    intro t ht
    cases hf.sound t ht with
    | inl hold =>
      have hempty : t ∈ d.edges := hold
      simp [hd.edges] at hempty
    | inr hnew => exact hnew
  have hlinked := fun t ht => (hedges t ht).2
  have hstop : (s.collect d (m.decode v a)).1.2.stop = (m.decode v a).halts := by
    rw [hf.stop, Draft.push, hd.stop, Bool.false_or]
  refine ⟨h.collect ho, (hf.grown.filled hstart).mpr hb, hheld, hlinked, a,
    hheld.filled hstretch hstop ?_ hlinked (hf.complete hoff) ?_⟩
  · intro b hb hopen
    exact absurd (hopen.symm.trans (hf.off hoff b hb)) (by decide)
  · intro t ht
    exact .inl (hedges t ht).1

/-- The draft ends before a second call, where a new node starts. -/
theorem Charting.finish_await (h : Charting m v k amb (· = start) (s.Gathered d) s)
    (hd : Held m v s start d) (hs : m.Stretch v k start d.instructions.toList p)
    (hn : (k.onward (m.decode v p)).next = some a) (he : d.edges = #[]) (hstop : d.stop = false)
    (hb : start ∈ s.filled) (ho : (m.marks a).opening = true) (ha : s.graph.contains a = false) :
    Finished m v k amb start (s.await a, d.leave a) := by
  have hnode := h.filled hs.opening_start hb
  have hawait : Charting m v k amb (· = start) (s.Gathered d) (s.await a) := by
    refine h.await ho ha ?_
    intro b n q hbody hstart hne hf
    exact h.not_interior hd hs hnode hn ha hbody hstart hne hf
  have hgathered : s.Gathered d = (s.await a).Gathered d := by
    funext q
    unfold Gathered
    rw [holds_await]
  have hcontains : ∀ b, (s.await a).graph.contains b = true ↔ s.graph.contains b = true ∨ b = a :=
    fun b => FlowGraph.contains_ensure
  have hheld : Held m v (s.await a) start d := by
    refine { hd with interior := ?_, callee := ?_ }
    · intro i hi hc
      cases (hcontains _).mp hc with
      | inl hold => exact hd.interior i hi hold
      | inr heq =>
        have hbound := (hs.bounds i hi).2
        have hlen := m.length_decode_pos v i.address
        rw [← (hs.of_mem i hi).1] at hlen
        have hnext := Memory.toNat_of_next hn
        rw [heq] at hbound
        omega
    · intro u hu
      exact ⟨(hcontains u).mpr (.inl (hd.callee u hu).1), (hd.callee u hu).2⟩
  rw [hgathered] at hawait
  exact hawait.finish_leave hheld hs hn he hstop hb ((hcontains a).mpr (.inr rfl))

/-- What the tests of a step say once they have failed. -/
theorem Charting.collect_facts (h : Charting m v k amb busy C s)
    (hc : ¬(decide (a ≠ start) && s.graph.contains a) = true)
    (ho : ¬(!(s.memory.marks a).opening) = true)
    (hcall : ¬((s.decode a).effects.call && d.calls) = true) :
    (m.marks a).opening = true ∧ ((m.decode v a).effects.call = true → d.calls = false) ∧
      (s.graph.contains a = true → a = start) := by
  rw [h.opening, Bool.not_eq_true', Bool.not_eq_false] at ho
  rw [h.decode] at hcall
  refine ⟨ho, ?_, ?_⟩
  · intro hca
    simpa [hca] using hcall
  · intro hcontains
    simpa [hcontains] using hc

theorem Charting.fillFrom (h : Charting m v k amb (· = start) (s.Gathered d) s)
    (hd : Drafted m v k s start a d) (hstart : (m.marks start).opening = true)
    (hb : start ∈ s.filled) :
    Finished m v k amb start (s.fillFrom start a d) := by
  fun_induction Survey.fillFrom s start a d with
  | case1 s a d hc =>
    simp only [Bool.and_eq_true, decide_eq_true_eq] at hc
    cases hd with
    | begin => exact absurd rfl hc.1
    | goes hd hs hn _ he hstop => exact h.finish_leave hd hs hn he hstop hb hc.2
  | case2 s a d hc ho =>
    rw [h.opening, Bool.not_eq_true'] at ho
    cases hd with
    | begin => exact absurd (hstart.symm.trans ho) (by decide)
    | goes hd hs hn hcall he hstop => exact h.finish_stay hd hs hn hcall he hstop hb ho
  | case3 s a d hc ho hcall =>
    simp only [Bool.and_eq_true] at hcall
    rw [h.opening, Bool.not_eq_true', Bool.not_eq_false] at ho
    cases hd with
    | begin => cases hcall.2
    | goes hd hs hn _ he hstop =>
      have hne : a ≠ start := by
        intro heq
        have hle := hs.start_le
        have hlt := Memory.lt_of_next hn
        rw [heq] at hlt
        omega
      have ha : s.graph.contains a = false := by simpa [hne] using hc
      exact h.finish_await hd hs hn he hstop hb ho ha
  | case4 s a d hc ho hcall r b hn hon ih =>
    obtain ⟨ho, hcall, hself⟩ := h.collect_facts hc ho hcall
    have hr : r = s.collect d (m.decode v a) := congrArg (s.collect d) (h.decode a)
    rw [h.decode] at hn
    rw [hr] at hon ih ⊢
    have hf := h.followed d ho
    obtain ⟨hheld, hstretch⟩ := h.held_collect hd ho hcall hself
    obtain ⟨hnext, hopen⟩ := hf.on hon b hn
    have hstop : (s.collect d (m.decode v a)).1.2.stop = false := by
      rw [hf.stop, Draft.push, hd.stop, Skips.halts_of_next hnext, Bool.false_or]
    exact ih (h.collect ho)
      (.goes hheld hstretch hnext hopen ((hf.edges_on hon).trans hd.edges) hstop)
        ((hf.grown.filled hstart).mpr hb)
  | case5 s a d hc ho hcall r b hn hon =>
    obtain ⟨ho, hcall, hself⟩ := h.collect_facts hc ho hcall
    have hr : r = s.collect d (m.decode v a) := congrArg (s.collect d) (h.decode a)
    rw [hr] at hon ⊢
    exact h.finish_collect hd ho hcall hself hstart hb (.inl (by simpa using hon))
  | case6 s a d hc ho hcall r hn =>
    obtain ⟨ho, hcall, hself⟩ := h.collect_facts hc ho hcall
    have hr : r = s.collect d (m.decode v a) := congrArg (s.collect d) (h.decode a)
    rw [h.decode] at hn
    rw [hr]
    exact h.finish_collect hd ho hcall hself hstart hb (.inr hn)

/-! ### Putting the draft into the node -/

/-- The node that was being filled is done, and the other ones are as they were. -/
theorem Finished.settle {r : Survey × Draft} (h : Finished m v k amb start r)
    (hstart : (m.marks start).opening = true) :
    Charting m v k amb (fun _ => False) (r.1.settle start r.2).Holds (r.1.settle start r.2) := by
  obtain ⟨h, hf, hheld, hlinked, p, hp⟩ := h
  have hnode := h.filled hstart hf
  have hcallee : ∀ t, r.2.callee = some t → r.1.graph.contains t = true :=
    fun t ht => (hheld.callee t ht).1
  have hcontains : ∀ a, (r.1.settle start r.2).graph.contains a = r.1.graph.contains a :=
    fun a => contains_settle hnode hcallee hlinked
  have hbody : ∀ a, (r.1.settle start r.2).graph.bodyAt a =
      if a = start then (r.1.graph.bodyAt a).map r.2.into else r.1.graph.bodyAt a :=
    fun a => bodyAt_settle hnode hcallee hlinked
  have hmono : ∀ {n q}, Filled m v k r.1 n q → Filled m v k (r.1.settle start r.2) n q := by
    intro n q hn
    refine hn.mono (fun hc => (hcontains _).trans hc) id ?_
    intro i hi hc
    exact hn.interior i hi ((hcontains _).symm.trans hc)
  obtain ⟨n₀, hn₀⟩ := FlowGraph.contains_iff_bodyAt.mp hnode
  have hblank : n₀ = { start := start, label := n₀.label } := h.blank hn₀ (.inr (.inr rfl))
  have hself :
      (r.1.settle start r.2).graph.bodyAt start =
        some (r.2.into { start := start, label := n₀.label }) := by
    rw [hbody, if_pos rfl, hn₀, ← hblank]
    rfl
  have hother : ∀ {a n}, a ≠ start → (r.1.settle start r.2).graph.bodyAt a = some n →
      r.1.graph.bodyAt a = some n := by
    intro a n hne hn
    rw [hbody, if_neg hne] at hn
    exact hn
  have hholds : ∀ q, r.1.Gathered r.2 q ↔ (r.1.settle start r.2).Holds q := by
    intro q
    constructor
    · intro hq
      cases hq with
      | inr hq => exact ⟨start, _, hself, hq⟩
      | inl hq =>
        obtain ⟨a, n, hn, i, hi, haddr⟩ := hq
        have hne : a ≠ start := by
          intro heq
          subst heq
          cases hn₀.symm.trans hn
          rw [hblank] at hi
          simp at hi
        exact ⟨a, n, by rw [hbody, if_neg hne]; exact hn, i, hi, haddr⟩
    · intro ⟨a, n, hn, i, hi, haddr⟩
      by_cases heq : a = start
      · subst heq
        cases hself.symm.trans hn
        exact .inr ⟨i, hi, haddr⟩
      · exact .inl ⟨a, n, hother heq hn, i, hi, haddr⟩
  refine ⟨?_, h.stamped.congr hholds, ?_, ?_, ?_, ?_, ?_, ?_, ?_⟩
  · have htally : Tally m v k amb _ (r.1.settle start r.2) :=
      { h.tally with vacant := fun t ht => by rw [hcontains]; exact h.tally.vacant t ht }
    exact htally.congr fun t => by simp only [hholds]
  · intro q t hq ht ho
    exact (hcontains t).trans (h.junction hq ht ho)
  · intro a ho
    rw [hcontains]
    exact h.begun ho
  · intro a ha
    rw [hcontains]
    exact h.pending a ha
  · intro a ho hc hfill
    exact h.waiting ho ((hcontains a).symm.trans hc) hfill
  · intro a ho hfill
    exact (hcontains a).trans (h.filled ho hfill)
  · intro a n hn ho hfill _
    by_cases heq : a = start
    · subst heq
      cases hself.symm.trans hn
      exact ⟨rfl, p, hmono (hp n₀.label)⟩
    · obtain ⟨hs, q, hq⟩ := h.done (hother heq hn) ho hfill heq
      exact ⟨hs, q, hmono hq⟩
  · intro a n hn hor
    have hne : a ≠ start := by
      intro heq
      subst heq
      rcases hor with ho | hnf | hfalse
      · exact absurd (hstart.symm.trans ho) (by decide)
      · exact hnf hf
      · exact hfalse
    refine h.blank (hother hne hn) ?_
    rcases hor with ho | hnf | hfalse
    · exact .inl ho
    · exact .inr (.inl hnf)
    · exact hfalse.elim

/-! ### The loop -/

theorem gathered_empty (s : Survey) (p : Address) : s.Gathered {} p ↔ s.Holds p := by
  unfold Gathered
  simp

/-- Filling one of the pending nodes. -/
theorem Charting.fillNode {rest : Queue Address} (h : Charting m v k amb (fun _ => False) s.Holds s)
    (hpop : s.pending.toList = a :: rest.toList) (hnew : a ∉ s.filled) :
    Charting m v k amb (fun _ => False)
      ({ s with pending := rest, filled := s.filled.insert a }.fillNode a).Holds
      ({ s with pending := rest, filled := s.filled.insert a }.fillNode a) := by
  obtain ⟨hcontains, hopen⟩ := h.pending a (by rw [hpop]; exact List.mem_cons_self)
  have hbusy :
      Charting m v k amb (· = a) s.Holds
        { s with pending := rest, filled := s.filled.insert a } := by
    refine ⟨{ h.tally with }, h.stamped, h.junction, h.begun, ?_, ?_, ?_, ?_, ?_⟩
    · intro b hb
      exact h.pending b (by rw [hpop]; exact List.mem_cons_of_mem a hb)
    · intro b ho hc hf
      rw [AddressSet.mem_insert, not_or] at hf
      have hwait := h.waiting ho hc hf.2
      rw [hpop, List.mem_cons] at hwait
      exact hwait.resolve_left hf.1
    · intro b ho hf
      cases AddressSet.mem_insert.mp hf with
      | inl heq => rw [heq]; exact hcontains
      | inr hold => exact h.filled ho hold
    · intro b n hn ho hf hne
      obtain ⟨hs, p, hp⟩ := h.done hn ho ((AddressSet.mem_insert.mp hf).resolve_left hne) id
      exact ⟨hs, p, { hp with }⟩
    · intro b n hn hor
      refine h.blank hn ?_
      rcases hor with ho | hf | heq
      · exact .inl ho
      · exact .inr (.inl fun hold => hf (AddressSet.mem_insert.mpr (.inr hold)))
      · rw [heq]
        exact .inr (.inl hnew)
  have hempty :
      s.Holds = ({ s with pending := rest, filled := s.filled.insert a } : Survey).Gathered {} := by
    funext q
    exact propext (gathered_empty _ q).symm
  rw [hempty] at hbusy
  exact (hbusy.fillFrom .begin hopen (AddressSet.mem_insert.mpr (.inl rfl))).settle hopen

theorem Charting.fillPending (h : Charting m v k amb (fun _ => False) s.Holds s) :
    Charting m v k amb (fun _ => False) s.fillPending.Holds s.fillPending ∧
    s.fillPending.pending.toList = [] := by
  fun_induction Survey.fillPending s with
  | case1 s hpop => exact ⟨h, Queue.toList_of_pop?_none hpop⟩
  | case2 s a rest hpop hf ih =>
    have hlist := Queue.toList_of_pop? hpop
    refine ih ⟨{ h.tally with }, h.stamped, h.junction, h.begun, ?_, ?_, h.filled, ?_, h.blank⟩
    · intro b hb
      exact h.pending b (by rw [hlist]; exact List.mem_cons_of_mem a hb)
    · intro b ho hc hnf
      have hwait := h.waiting ho hc hnf
      rw [hlist, List.mem_cons] at hwait
      refine hwait.resolve_left ?_
      intro heq
      rw [heq] at hnf
      exact hnf hf
    · intro b n hn ho hbf hne
      obtain ⟨hs, p, hp⟩ := h.done hn ho hbf hne
      exact ⟨hs, p, { hp with }⟩
  | case3 s a rest hpop hf ih => exact ih (h.fillNode (Queue.toList_of_pop? hpop) hf)

end Z80Atlas.Survey
