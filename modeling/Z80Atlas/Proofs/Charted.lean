import Z80Atlas.Proofs.Discovery
import Z80Atlas.Proofs.Filling

/-!
# What a chart contains

A chart is discovered, named and filled.  Naming only starts more nodes, so filling begins with
empty nodes at claimed instructions and ends with every claimed instruction in a node: one that no
node starts at is gone straight on to from another one, and the node of that one either goes on with
it or ends before a node.
-/

namespace Z80Atlas.Survey

variable {m : Memory} {v : Opcode.Variant} {k : Skips} {amb : Address → Prop} {s s' : Survey}

/-! ### Naming -/

/-- Starting nodes at named instructions changes nothing but the nodes, which stay empty. -/
structure Seeded (s s' : Survey) : Prop where
  memory : s'.memory = s.memory
  variant : s'.variant = s.variant
  skips : s'.skips = s.skips
  diagnostics : s'.diagnostics = s.diagnostics
  pending : s'.pending = s.pending
  filled : s'.filled = s.filled
  contains : ∀ {a}, s.graph.contains a = true → s'.graph.contains a = true
  node : ∀ {a n}, s'.graph.get? a = some n → n = { start := a, label := n.label } ∧
    (s.memory.marks a).opening = true

theorem Seeded.seedName {r : Survey × NameTable} (h : Seeded s r.1) (a : Address) (name : String) :
    Seeded s (seedName r a name).1 := by
  unfold Survey.seedName
  split
  next ho =>
    rw [h.memory] at ho
    refine { h with contains := ?_, node := ?_ }
    · intro b hb
      show ((r.1.graph.ensure a).modify a _).contains b = true
      rw [FlowGraph.contains_modify]
      exact FlowGraph.contains_ensure.mpr (.inl (h.contains hb))
    · intro b n hn
      have hget : ((r.1.graph.ensure a).modify a fun n => { n with label := some name }).get? b =
          some n := hn
      rw [FlowGraph.get?_modify, FlowGraph.get?_ensure] at hget
      split at hget
      next hab =>
        subst hab
        rw [Option.map_some, Option.some.injEq] at hget
        refine ⟨?_, ho⟩
        cases hg : r.1.graph.get? a with
        | none =>
          rw [hg] at hget
          rw [← hget]
          rfl
        | some n' =>
          rw [hg, Option.getD_some, (h.node hg).1] at hget
          rw [← hget]
      next => exact h.node hget
  next => exact h

theorem Seeded.foldl {r : Survey × NameTable} (names : List (Address × String)) (h : Seeded s r.1) :
    Seeded s (names.foldl (fun r p => Survey.seedName r p.1 p.2) r).1 := by
  induction names generalizing r with
  | nil => exact h
  | cons p rest ih => exact ih (h.seedName p.1 p.2)

/-- All that is needed of a discovery to start filling. -/
theorem Explored.seeded {entries : List Address} {m₀ : Memory}
    (h : Explored m₀ v k entries (fun _ => False) (fun _ => False) s) (names : NameTable) :
    Seeded s (s.seed names).1 := by
  refine Seeded.foldl names.toList ⟨rfl, rfl, rfl, rfl, rfl, rfl, id, ?_⟩
  intro a n hn
  obtain ⟨hn', ho⟩ := h.node hn
  subst hn'
  exact ⟨rfl, ho⟩

/-! ### The start of filling -/

theorem Explored.charting {entries : List Address} {m₀ : Memory}
    (h : Explored m₀ v k entries (fun _ => False) (fun _ => False) s) (hs : Seeded s s') :
    Charting s.memory v k (fun t => s.diagnostics.has .ambiguous t = true) (fun _ => False)
      ({ s' with pending := s'.pending.append s'.graph.addresses } : Survey).Holds
      { s' with pending := s'.pending.append s'.graph.addresses } := by
  have honward : ∀ p, k.onward (s.memory.decode v p) = s.onward p := by
    intro p
    unfold Survey.onward Survey.decode
    rw [h.skips, h.variant]
  have hbody : ∀ {a n}, s'.graph.bodyAt a = some n →
      n = { start := a, label := n.label } ∧ (s.memory.marks a).opening = true := by
    intro a n hn
    obtain ⟨n', hget, hbody⟩ := FlowGraph.bodyAt_eq_some_iff.mp hn
    obtain ⟨hn', ho⟩ := hs.node hget
    rw [hn'] at hbody
    rw [← hbody]
    exact ⟨rfl, ho⟩
  have hholds : ∀ p, ¬s'.Holds p := by
    intro p ⟨a, n, hn, i, hi, _⟩
    rw [(hbody hn).1] at hi
    simp at hi
  have hcontains : ∀ {a}, s'.graph.contains a = true → (s.memory.marks a).opening = true := by
    intro a ha
    obtain ⟨n, hn⟩ := FlowGraph.contains_iff.mp ha
    exact (hs.node hn).2
  have hpending : ∀ a, a ∈ (s'.pending.append s'.graph.addresses).toList ↔
      s'.graph.contains a = true := by
    intro a
    rw [Queue.toList_append, hs.pending, h.idle.1, List.nil_append, FlowGraph.mem_addresses]
  refine ⟨?_, ?_, ?_, ?_, ?_, ?_, ?_, ?_, ?_⟩
  · have hnone : ∀ t, ¬∃ p, s'.Holds p ∧ s.memory.Leads k (s.memory.decode v p) t := by
      intro t ⟨p, hp, _⟩
      exact hholds p hp
    refine ⟨hs.variant.trans h.variant, hs.skips.trans h.skips, h.variant ▸ h.parsed, ?_, ?_,
      ?_, ?_, ?_, ?_⟩
    · rw [hs.memory]
      exact .refl _
    · intro t
      rw [hs.diagnostics, or_iff_left fun hr => hnone t hr.1]
    · intro t
      rw [hs.diagnostics]
      refine iff_of_false ?_ fun hr => hnone t hr.1
      intro hhas
      obtain ⟨d, hd, -, hkind⟩ := Diagnostics.has_iff.mp hhas
      rw [h.noted d hd] at hkind
      cases hkind
    · intro d hd
      rw [hs.diagnostics] at hd
      exact .inl (h.noted d hd)
    · rw [hs.diagnostics]
      exact h.distinct
    · intro t ht
      refine iff_of_false ?_ fun hr => hnone t hr.1
      intro hc
      exact absurd ((hcontains hc).symm.trans ht) (by decide)
  · rw [hs.memory]
    exact (Memory.Stamped.refl _ _).congr fun p => ⟨False.elim, fun hp => hholds p hp⟩
  · intro p t hp ht ho
    rw [honward] at ht
    cases h.resolved (.inr ⟨p, hp, ht⟩) with
    | inl hf => exact hf.elim
    | inr hr => exact hs.contains (hr.2 ho)
  · intro a ha
    cases h.begun ha with
    | inl hc => exact .inl (hs.contains hc)
    | inr hp =>
      obtain ⟨p, hp, hn⟩ := hp
      exact .inr ⟨p, hp, by rw [honward]; exact hn⟩
  · intro a ha
    have hc := (hpending a).mp ha
    exact ⟨hc, hcontains hc⟩
  · intro a _ hc _
    exact (hpending a).mpr hc
  · intro a _ hf
    rw [hs.filled] at hf
    exact absurd hf (h.idle.2 a)
  · intro a n _ _ hf
    rw [hs.filled] at hf
    exact absurd hf (h.idle.2 a)
  · intro a n hn _
    exact (hbody hn).1

/-! ### The end of filling -/

/-- A survey in which every node has been filled.  The memory `m` holds the claimed code, and the
addresses `amb` were ambiguous before filling began. -/
structure Charted (m : Memory) (v : Opcode.Variant) (k : Skips) (amb : Address → Prop)
    (s : Survey) : Prop where
  tally : Tally m v k amb (fun t => ∃ p, (m.marks p).opening = true ∧ m.Leads k (m.decode v p) t) s
  stamped : m.Stamped v (fun p => (m.marks p).opening = true) s.memory
  filled : ∀ {a n}, s.graph.bodyAt a = some n → (m.marks a).opening = true →
    n.start = a ∧ ∃ p, Filled m v k s n p
  blank : ∀ {a n}, s.graph.bodyAt a = some n → (m.marks a).opening = false →
    n = { start := a, label := n.label }
  holds_iff : ∀ p, s.Holds p ↔ (m.marks p).opening = true

theorem Charting.charted (h : Charting m v k amb (fun _ => False) s.Holds s)
    (hp : s.pending.toList = []) :
    Charted m v k amb s := by
  have hfilled : ∀ {a n}, s.graph.bodyAt a = some n → (m.marks a).opening = true →
      n.start = a ∧ ∃ p, Filled m v k s n p := by
    intro a n hn ho
    have hf : a ∈ s.filled := by
      by_cases hf : a ∈ s.filled
      · exact hf
      · have hwait := h.waiting ho (FlowGraph.contains_iff_bodyAt.mpr ⟨n, hn⟩) hf
        rw [hp] at hwait
        cases hwait
    exact h.done hn ho hf id
  have hnode : ∀ {a}, (m.marks a).opening = true → s.graph.contains a = true → s.Holds a := by
    intro a ho hc
    obtain ⟨n, hn⟩ := FlowGraph.contains_iff_bodyAt.mp hc
    obtain ⟨hstart, p, hf⟩ := hfilled hn ho
    exact ⟨a, n, hn, _, hf.stretch.mem_start, hstart⟩
  -- Control comes straight on to an instruction from a lower address, so the induction is on the
  -- address.
  have hholds : ∀ x a, a.toNat = x → (m.marks a).opening = true → s.Holds a := by
    intro x
    induction x using Nat.strongRecOn with
    | ind x ih =>
      intro a hx ho
      cases h.begun ho with
      | inl hc => exact hnode ho hc
      | inr hprev =>
        obtain ⟨q, hq, hnext⟩ := hprev
        have hlt := Memory.lt_of_next hnext
        obtain ⟨b, n, hn, i, hi, haddr⟩ := ih q.toNat (hx ▸ hlt) q rfl hq
        have hb : (m.marks b).opening = true := by
          cases hb : (m.marks b).opening with
          | true => rfl
          | false =>
            rw [h.blank hn (.inl hb)] at hi
            simp at hi
        obtain ⟨-, p, hf⟩ := hfilled hn hb
        have hmem : m.decode v q ∈ n.instructions.toList := by
          rw [← haddr, ← (hf.stretch.of_mem i hi).1]
          exact hi
        cases hf.stretch.next_mem hmem with
        | inl hlast =>
          subst hlast
          exact hnode ho (hf.linked a (hf.runs a hnext ho))
        | inr hinside =>
          obtain ⟨c, hc, hcmem⟩ := hinside
          cases hc.symm.trans hnext
          exact ⟨b, n, hn, _, hcmem, rfl⟩
  have hiff : ∀ p, s.Holds p ↔ (m.marks p).opening = true := by
    intro p
    constructor
    · intro ⟨b, n, hn, i, hi, haddr⟩
      cases hb : (m.marks b).opening with
      | false =>
        rw [h.blank hn (.inl hb)] at hi
        simp at hi
      | true =>
        obtain ⟨-, q, hf⟩ := hfilled hn hb
        rw [← haddr]
        exact (hf.stretch.of_mem i hi).2
    · exact hholds _ p rfl
  refine ⟨h.tally.congr fun t => ?_, h.stamped.congr hiff, hfilled, ?_, hiff⟩
  · simp only [hiff]
  · intro a n hn ho
    exact h.blank hn (.inl ho)

theorem charted_chart (hm : m.Unexplored) (v : Opcode.Variant) (k : Skips) (entries : List Address)
    (names : NameTable) :
    Charted ((fresh m v k).discover entries).memory v k
      (fun t => ((fresh m v k).discover entries).diagnostics.has .ambiguous t = true)
      ((fresh m v k).chart entries names).1 := by
  have h := explored_discover hm v k entries
  obtain ⟨hcharting, hpending⟩ := (h.charting (h.seeded names)).fillPending
  exact hcharting.charted hpending

end Z80Atlas.Survey
