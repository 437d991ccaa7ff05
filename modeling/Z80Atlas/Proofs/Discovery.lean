import Z80Atlas.Proofs.Marking
import Z80Atlas.Proofs.Successors

/-!
# Discovery finds the code that control can reach

The walks of a discovery find exactly the addresses that the entries lead to: what they claim is
reached through claimed instructions (`Memory.Reached`), and what is reached and not claimed has
been refused, either because it is not loaded as a whole or with a diagnostic.  The invariant behind
this is `Survey.Explored`; a refusal lasts because the bytes that stand in the way stay claimed.
-/

namespace Z80Atlas

/-- An address that control reaches from an entry through claimed instructions. -/
inductive Memory.Reached (m : Memory) (v : Opcode.Variant) (k : Skips) (entries : List Address) :
    Address → Prop
  | entry {e : Address} (he : e ∈ entries) (ho : (m.marks e).opening = true) :
      Reached m v k entries e
  | step {a b : Address} (ha : Reached m v k entries a) (hs : k.Successor (m.decode v a) b)
      (ho : (m.marks b).opening = true) : Reached m v k entries b

theorem Memory.Reached.mono {m m' : Memory} {v : Opcode.Variant} {k : Skips}
    {entries : List Address} {a : Address} (h : m.Reached v k entries a)
    (hb : ∀ a, m'.byte a = m.byte a)
    (ho : ∀ a, (m.marks a).opening = true → (m'.marks a).opening = true) :
    m'.Reached v k entries a := by
  induction h with
  | entry he hopen => exact .entry he (ho _ hopen)
  | step _ hs hopen ih => exact .step ih (by rw [Memory.decode_congr hb]; exact hs) (ho _ hopen)

namespace Survey

/-- A survey of a memory before anything has been done. -/
def fresh (m : Memory) (v : Opcode.Variant) (k : Skips) : Survey :=
  { memory := m, variant := v, skips := k }

/-- Where control goes from the instruction at an address. -/
def onward (s : Survey) (a : Address) : Onward := s.skips.onward (s.decode a)

/-! ### What a walk finds -/

theorem finding_spec {s : Survey} (h : s.memory.Parsed s.variant) (a : Address) :
    match s.finding a with
    | .blank => ¬s.memory.FullyLoaded s.variant a
    | .joined => (s.memory.marks a).opening = true
    | .overlap => (s.memory.marks a).opening = false ∧
        ∃ b, s.memory.Covers s.variant a b ∧ (s.memory.marks b).traced = true
    | .fresh i => i = s.decode a ∧ s.memory.FullyLoaded s.variant a ∧
        ∀ b, s.memory.Covers s.variant a b → (s.memory.marks b).traced = false := by
  have hself := s.memory.covers_self s.variant a
  unfold finding
  cases hassigned : (s.memory.marks a).assigned with
  | false =>
    intro hloaded
    exact absurd ((hloaded.2 a hself).symm.trans hassigned) (by decide)
  | true =>
    cases htraced : (s.memory.marks a).traced with
    | true =>
      cases hopening : (s.memory.marks a).opening with
      | true => rfl
      | false => exact ⟨rfl, a, hself, htraced⟩
    | false =>
      have hopening : (s.memory.marks a).opening = false := by
        cases ho : (s.memory.marks a).opening with
        | false => rfl
        | true => exact absurd ((h.traced_of_opening ho).symm.trans htraced) (by decide)
      simp only [Bool.not_true, Bool.false_eq_true, if_false]
      by_cases htop : 65536 < a.toNat + (s.decode a).length
      · rw [if_pos htop]
        intro hloaded
        have hfit : a.toNat + (s.decode a).length ≤ 65536 := hloaded.1
        omega
      · rw [if_neg htop]
        have hfit : a.toNat + (s.decode a).length ≤ 65536 := by omega
        have hobs := Memory.obstacle?_spec (m := s.memory) hfit
        cases ho : s.memory.obstacle? a (s.decode a).length with
        | none =>
          rw [ho] at hobs
          exact ⟨rfl, ⟨hfit, fun b hb => (hobs b hb).1⟩, fun b hb => (hobs b hb).2⟩
        | some obstacle =>
          rw [ho] at hobs
          cases obstacle with
          | unassigned =>
            obtain ⟨b, hb, hmark⟩ := hobs
            intro hloaded
            exact absurd ((hloaded.2 b hb).symm.trans hmark) (by decide)
          | taken => exact ⟨hopening, hobs⟩

/-! ### The invariant of discovery -/

/-- An address that has to be walked from: an entry, or a place where a node has to start behind a
claimed instruction. -/
def Source (s : Survey) (entries : List Address) (t : Address) : Prop :=
  t ∈ entries ∨ ∃ a, (s.memory.marks a).opening = true ∧ t ∈ (s.onward a).targets

/-- An address that cannot be claimed. -/
def Refused (s : Survey) (t : Address) : Prop :=
  ¬s.memory.FullyLoaded s.variant t ∨ s.diagnostics.has .ambiguous t = true

/-- An address that is claimed or refused. -/
def Settled (s : Survey) (t : Address) : Prop := (s.memory.marks t).opening = true ∨ s.Refused t

/-- An address that is settled, with a node if it is claimed. -/
def Resolved (s : Survey) (t : Address) : Prop :=
  s.Settled t ∧ ((s.memory.marks t).opening = true → s.graph.contains t = true)

/-- An address whose instruction would overlap another one. -/
def Blocked (s : Survey) (t : Address) : Prop :=
  (s.memory.marks t).opening = false ∧ ∃ b, s.memory.Covers s.variant t b ∧
  (s.memory.marks b).traced = true

/-- A later state of a discovery: of the same image, with more of it claimed. -/
structure Grows (s s' : Survey) : Prop where
  variant : s'.variant = s.variant
  skips : s'.skips = s.skips
  byte : ∀ a, s'.memory.byte a = s.memory.byte a
  assigned : ∀ a, (s'.memory.marks a).assigned = (s.memory.marks a).assigned
  opening : ∀ {a}, (s.memory.marks a).opening = true → (s'.memory.marks a).opening = true
  traced : ∀ {a}, (s.memory.marks a).traced = true → (s'.memory.marks a).traced = true
  contains : ∀ {a}, s.graph.contains a = true → s'.graph.contains a = true
  ambiguous : ∀ {a}, s.diagnostics.has .ambiguous a = true → s'.diagnostics.has .ambiguous a = true

namespace Grows

variable {s s' : Survey}

theorem decode (h : Grows s s') (a : Address) : s'.decode a = s.decode a := by
  unfold Survey.decode
  rw [h.variant]
  exact Memory.decode_congr h.byte _ _

theorem onward (h : Grows s s') (a : Address) : s'.onward a = s.onward a := by
  unfold Survey.onward
  rw [h.decode, h.skips]

theorem covers_iff (h : Grows s s') {a b : Address} :
    s'.memory.Covers s'.variant a b ↔ s.memory.Covers s.variant a b := by
  rw [h.variant]
  exact Memory.covers_congr h.byte _ a b

theorem fullyLoaded_iff (h : Grows s s') {a : Address} :
    s'.memory.FullyLoaded s'.variant a ↔ s.memory.FullyLoaded s.variant a := by
  rw [h.variant]
  exact Memory.fullyLoaded_congr h.byte h.assigned _ a

theorem source (h : Grows s s') {entries : List Address} {t : Address} (ht : s.Source entries t) :
    s'.Source entries t := by
  rcases ht with ht | ⟨a, ha, ht⟩
  · exact .inl ht
  · exact .inr ⟨a, h.opening ha, by rw [h.onward]; exact ht⟩

theorem refused (h : Grows s s') {t : Address} (ht : s.Refused t) : s'.Refused t := by
  rcases ht with ht | ht
  · exact .inl (by rw [h.fullyLoaded_iff]; exact ht)
  · exact .inr (h.ambiguous ht)

theorem settled (h : Grows s s') {t : Address} (ht : s.Settled t) : s'.Settled t := by
  rcases ht with ht | ht
  · exact .inl (h.opening ht)
  · exact .inr (h.refused ht)

theorem reached (h : Grows s s') {k : Skips} {entries : List Address} {a : Address}
    (ha : s.memory.Reached s.variant k entries a) : s'.memory.Reached s'.variant k entries a := by
  rw [h.variant]
  exact ha.mono h.byte fun _ => h.opening

end Grows

/-- What is known while code is being discovered in `m`.  Control goes straight on to the addresses
`here`, and the addresses `queued` are still to be walked. -/
structure Explored (m : Memory) (v : Opcode.Variant) (k : Skips) (entries : List Address)
    (here queued : Address → Prop) (s : Survey) : Prop where
  variant : s.variant = v
  skips : s.skips = k
  byte : ∀ a, s.memory.byte a = m.byte a
  assigned : ∀ a, (s.memory.marks a).assigned = (m.marks a).assigned
  parsed : s.memory.Parsed s.variant
  node : ∀ {a n}, s.graph.get? a = some n → n = { start := a } ∧ (s.memory.marks a).opening = true
  reached : ∀ {a}, (s.memory.marks a).opening = true → s.memory.Reached s.variant s.skips entries a
  begun : ∀ {a}, (s.memory.marks a).opening = true →
    s.graph.contains a = true ∨ ∃ p, (s.memory.marks p).opening = true ∧ (s.onward p).next = some a
  source : ∀ {t}, queued t → s.Source entries t
  resolved : ∀ {t}, s.Source entries t → queued t ∨ s.Resolved t
  settled : ∀ {a t}, (s.memory.marks a).opening = true → (s.onward a).next = some t →
    here t ∨ s.Settled t
  blocked : ∀ {t}, s.diagnostics.has .ambiguous t = true → s.Blocked t
  noted : ∀ d ∈ s.diagnostics.toList, d = .ambiguousAt d.address
  distinct : s.diagnostics.toList.Nodup
  idle : s.pending.toList = [] ∧ ∀ a, a ∉ s.filled

variable {m : Memory} {v : Opcode.Variant} {k : Skips} {entries : List Address}
  {here queued : Address → Prop}
variable {s : Survey} {a start : Address}

namespace Explored

/-- What has been settled need not be pending any more. -/
theorem finish {here' queued' : Address → Prop} (h : Explored m v k entries here queued s)
    (hh : ∀ t, here t → here' t ∨ s.Settled t) (hq : ∀ t, queued t → queued' t ∨ s.Resolved t)
    (hsub : ∀ t, queued' t → queued t) : Explored m v k entries here' queued' s :=
  { h with
    source := fun ht => h.source (hsub _ ht)
    resolved := by
      intro t ht
      rcases h.resolved ht with hqt | hr
      · exact hq t hqt
      · exact .inr hr
    settled := by
      intro b t hb ht
      rcases h.settled hb ht with hht | hs
      · exact hh t hht
      · exact .inr hs }

/-- Nothing that can be claimed has been settled. -/
theorem not_settled (h : Explored m v k entries here queued s)
    (hl : s.memory.FullyLoaded s.variant a)
    (hfree : ∀ b, s.memory.Covers s.variant a b → (s.memory.marks b).traced = false) :
    ¬s.Settled a := by
  rintro (ho | hr | hr)
  · have ht := h.parsed.traced_of_opening ho
    exact absurd (ht.symm.trans (hfree a (s.memory.covers_self _ a))) (by decide)
  · exact hr hl
  · obtain ⟨-, b, hb, ht⟩ := h.blocked hr
    exact absurd (ht.symm.trans (hfree b hb)) (by decide)

theorem not_opening_of_not_loaded (h : Explored m v k entries here queued s)
    (hl : ¬s.memory.FullyLoaded s.variant a) : ¬(s.memory.marks a).opening = true :=
  fun ho => hl (h.parsed.loaded ho)

/-- Starting a node at a claimed instruction. -/
theorem ensure (h : Explored m v k entries here queued s) (ho : (s.memory.marks a).opening = true) :
    Explored m v k entries here queued (s.ensure a) := by
  have hcontains : ∀ {b}, s.graph.contains b = true → (s.ensure a).graph.contains b = true :=
    fun hb => FlowGraph.contains_ensure.mpr (.inl hb)
  refine { h with node := ?_, begun := ?_, resolved := ?_ }
  · intro b n hn
    have hget : (s.graph.ensure a).get? b = some n := hn
    rw [FlowGraph.get?_ensure] at hget
    split at hget
    next hab =>
      subst hab
      refine ⟨?_, ho⟩
      cases hg : s.graph.get? a with
      | none => simpa [hg] using hget.symm
      | some n' =>
        rw [hg, Option.getD_some, Option.some.injEq] at hget
        subst hget
        exact (h.node hg).1
    next => exact h.node hget
  · intro b hb
    rcases h.begun hb with hc | hp
    · exact .inl (hcontains hc)
    · exact .inr hp
  · intro t ht
    rcases h.resolved ht with hq | ⟨hs, hc⟩
    · exact .inl hq
    · exact .inr ⟨hs, fun hopen => hcontains (hc hopen)⟩

/-- Refusing an address at which an instruction would overlap another one. -/
theorem note (h : Explored m v k entries here queued s) (hb : s.Blocked a) :
    Explored m v k entries here queued (s.note (.ambiguousAt a)) := by
  have hhas : ∀ {t}, s.diagnostics.has .ambiguous t = true →
      (s.note (.ambiguousAt a)).diagnostics.has .ambiguous t = true :=
    fun ht => Diagnostics.has_add.mpr (.inl ht)
  have hsettled : ∀ {t}, s.Settled t → (s.note (.ambiguousAt a)).Settled t := by
    rintro t (ht | ht | ht)
    · exact .inl ht
    · exact .inr (.inl ht)
    · exact .inr (.inr (hhas ht))
  refine { h with resolved := ?_, settled := ?_, blocked := ?_, noted := ?_, distinct := ?_ }
  · intro t ht
    rcases h.resolved ht with hq | ⟨hs, hc⟩
    · exact .inl hq
    · exact .inr ⟨hsettled hs, hc⟩
  · intro b t hopen ht
    rcases h.settled hopen ht with hh | hs
    · exact .inl hh
    · exact .inr (hsettled hs)
  · intro t ht
    rcases Diagnostics.has_add.mp ht with ht | ⟨rfl, -⟩
    · exact h.blocked ht
    · exact hb
  · intro d hd
    rcases Diagnostics.mem_toList_add hd with hd | rfl
    · exact h.noted d hd
    · rfl
  · exact Diagnostics.nodup_add _ h.distinct

end Explored

theorem contains_enter {i : Instruction} {b : Address} :
    (s.enter start i).graph.contains b = true ↔
      s.graph.contains b = true ∨ (b = start ∧ i.address = start) := by
  unfold enter
  split
  next hi =>
    rw [FlowGraph.contains_ensure]
    simp [hi]
  next hi => simp [hi]

theorem get?_enter {i : Instruction} {b : Address} {n : Node}
    (h : (s.enter start i).graph.get? b = some n) :
    s.graph.get? b = some n ∨ (n = { start := b } ∧ b = i.address) := by
  unfold enter at h
  split at h
  next hi =>
    rw [FlowGraph.get?_ensure] at h
    split at h
    next hab =>
      subst hab
      cases hg : s.graph.get? start with
      | none => exact .inr ⟨by simpa [hg] using h.symm, hi.symm⟩
      | some n' =>
        rw [hg, Option.getD_some] at h
        exact .inl h
    next => exact .inl h
  next => exact .inl h

theorem diagnostics_enter (s : Survey) (start : Address) (i : Instruction) :
    (s.enter start i).diagnostics = s.diagnostics := by
  unfold enter
  split <;> rfl

theorem grows_enter (s : Survey) (start a : Address) : Grows s (s.enter start (s.decode a)) := by
  have hpos : 0 < (s.decode a).length := s.length_decode_pos a
  refine ⟨?_, ?_, ?_, ?_, ?_, ?_, ?_, ?_⟩
  · unfold enter
    split <;> rfl
  · unfold enter
    split <;> rfl
  · intro b
    rw [memory_enter, Memory.byte_claim]
  · intro b
    rw [memory_enter, Memory.assigned_claim]
  · intro b hb
    rw [memory_enter]
    exact (Memory.opening_claim hpos).mpr (.inl hb)
  · intro b hb
    rw [memory_enter]
    exact (Memory.traced_claim hpos).mpr (.inl hb)
  · intro b hb
    exact contains_enter.mpr (.inl hb)
  · intro b hb
    rw [diagnostics_enter]
    exact hb

/-- Control comes to `a` in a walk from `start`: the walk starts here, or goes straight on from a
claimed instruction. -/
def ComesTo (s : Survey) (start a : Address) : Prop :=
  a = start ∨ ∃ p, (s.memory.marks p).opening = true ∧ (s.onward p).next = some a

/-- Claiming an instruction: its targets are queued, and control goes straight on behind it. -/
theorem Explored.enter
    (h : Explored m v k entries (· = a) (fun t => queued t ∨ (t = a ∧ a = start)) s)
    (hl : s.memory.FullyLoaded s.variant a)
    (hfree : ∀ b, s.memory.Covers s.variant a b → (s.memory.marks b).traced = false)
    (hcome : s.ComesTo start a) :
    Explored m v k entries (fun t => (s.onward a).next = some t)
      (fun t => queued t ∨ t ∈ (s.onward a).targets) (s.enter start (s.decode a)) := by
  have hpos : 0 < (s.decode a).length := s.length_decode_pos a
  have hg := grows_enter s start a
  have hopening : ∀ b, ((s.enter start (s.decode a)).memory.marks b).opening = true ↔
      (s.memory.marks b).opening = true ∨ b = a := by
    intro b
    rw [memory_enter]
    exact Memory.opening_claim hpos
  have hself := (hopening a).mpr (.inr rfl)
  have hnew : ∀ {t}, s.Settled t → t ≠ a := by
    rintro t ht rfl
    exact h.not_settled hl hfree ht
  refine ⟨hg.variant.trans h.variant, hg.skips.trans h.skips, ?_, ?_, ?_, ?_, ?_, ?_, ?_, ?_, ?_,
    ?_, ?_, ?_, ?_⟩
  · intro b
    rw [hg.byte, h.byte]
  · intro b
    rw [hg.assigned, h.assigned]
  · rw [memory_enter, hg.variant]
    exact h.parsed.claim hl hfree
  · intro b n hn
    rcases get?_enter hn with hold | ⟨hn', hb⟩
    · exact ⟨(h.node hold).1, hg.opening (h.node hold).2⟩
    · exact ⟨hn', (hopening b).mpr (.inr hb)⟩
  · intro b hb
    rw [hg.skips]
    rcases (hopening b).mp hb with hold | rfl
    · exact hg.reached (h.reached hold)
    · -- Control comes here from an entry or from a claimed instruction.
      have hstep : ∀ p, (s.memory.marks p).opening = true →
          (b ∈ (s.onward p).targets ∨ (s.onward p).next = some b) →
          (s.enter start (s.decode b)).memory.Reached (s.enter start (s.decode b)).variant s.skips
            entries b := by
        intro p hp hsucc
        refine .step (hg.reached (h.reached hp)) ?_ hb
        have hd : (s.enter start (s.decode b)).memory.decode (s.enter start (s.decode b)).variant
            p = s.decode p :=
          hg.decode p
        rw [hd]
        exact (Skips.successor_iff (Memory.lawful_decode ..)).mpr hsucc
      rcases hcome with rfl | ⟨p, hp, hnext⟩
      · rcases h.source (.inr ⟨rfl, rfl⟩) with he | ⟨p, hp, ht⟩
        · exact .entry he hb
        · exact hstep p hp (.inl ht)
      · exact hstep p hp (.inr hnext)
  · intro b hb
    rcases (hopening b).mp hb with hold | rfl
    · rcases h.begun hold with hc | ⟨p, hp, hnext⟩
      · exact .inl (hg.contains hc)
      · exact .inr ⟨p, hg.opening hp, by rw [hg.onward]; exact hnext⟩
    · rcases hcome with rfl | ⟨p, hp, hnext⟩
      · exact .inl (contains_enter.mpr (.inr ⟨rfl, rfl⟩))
      · exact .inr ⟨p, hg.opening hp, by rw [hg.onward]; exact hnext⟩
  · rintro t (hq | ht)
    · exact hg.source (h.source (.inl hq))
    · exact .inr ⟨a, hself, by rw [hg.onward]; exact ht⟩
  · -- Every source is an old one or a target of the new instruction.
    intro t ht
    have hsource : s.Source entries t ∨ t ∈ (s.onward a).targets := by
      rcases ht with he | ⟨p, hp, ht⟩
      · exact .inl (.inl he)
      · rw [hg.onward] at ht
        rcases (hopening p).mp hp with hold | rfl
        · exact .inl (.inr ⟨p, hold, ht⟩)
        · exact .inr ht
    rcases hsource with hold | htarget
    · rcases h.resolved hold with (hq | ⟨rfl, rfl⟩) | ⟨hs, hc⟩
      · exact .inl (.inl hq)
      · exact .inr ⟨.inl hself, fun _ => contains_enter.mpr (.inr ⟨rfl, rfl⟩)⟩
      · refine .inr ⟨hg.settled hs, fun hopen => ?_⟩
        rcases (hopening t).mp hopen with hopen | rfl
        · exact hg.contains (hc hopen)
        · exact absurd rfl (hnew hs)
    · exact .inl (.inr htarget)
  · intro b t hb ht
    rw [hg.onward] at ht
    rcases (hopening b).mp hb with hold | rfl
    · rcases h.settled hold ht with rfl | hs
      · exact .inr (.inl hself)
      · exact .inr (hg.settled hs)
    · exact .inl ht
  · intro t ht
    rw [diagnostics_enter] at ht
    obtain ⟨hclosed, b, hb, htraced⟩ := h.blocked ht
    refine ⟨?_, b, hg.covers_iff.mpr hb, hg.traced htraced⟩
    have hne := hnew (.inr (.inr ht))
    cases hopen : ((s.enter start (s.decode a)).memory.marks t).opening with
    | false => rfl
    | true =>
      rcases (hopening t).mp hopen with hold | heq
      · exact absurd (hold.symm.trans hclosed) (by decide)
      · exact absurd heq hne
  · rw [diagnostics_enter]
    exact h.noted
  · rw [diagnostics_enter]
    exact h.distinct
  · unfold Survey.enter
    split <;> exact h.idle

theorem mem_append_targets {queue : Queue Address} {t : Address} :
    t ∈ (queue.append (s.skips.onward (s.decode a)).targets).toList ↔
      t ∈ queue.toList ∨ t ∈ (s.onward a).targets := by
  rw [Queue.toList_append, List.mem_append]
  rfl

/-- A walk settles the address it starts from. -/
theorem Explored.walk {queue : Queue Address}
    (h : Explored m v k entries (· = a) (fun t => t ∈ queue.toList ∨ (t = a ∧ a = start)) s)
    (hcome : s.ComesTo start a) (hle : start.toNat ≤ a.toNat) :
    Explored m v k entries (fun _ => False) (· ∈ (s.walk start a queue).2.toList)
      (s.walk start a queue).1 := by
  fun_induction Survey.walk s start a queue with
  | case1 s a queue hf =>
    have hspec := finding_spec h.parsed a
    rw [hf] at hspec
    have hclosed := h.not_opening_of_not_loaded hspec
    refine h.finish ?_ ?_ (fun t ht => .inl ht)
    · rintro t rfl
      exact .inr (.inr (.inl hspec))
    · rintro t (ht | ⟨rfl, -⟩)
      · exact .inl ht
      · exact .inr ⟨.inr (.inl hspec), fun ho => absurd ho hclosed⟩
  | case2 s a queue hf =>
    have hspec := finding_spec h.parsed a
    rw [hf] at hspec
    refine (h.ensure hspec).finish ?_ ?_ (fun t ht => .inl ht)
    · rintro t rfl
      exact .inr (.inl hspec)
    · rintro t (ht | ⟨rfl, -⟩)
      · exact .inl ht
      · exact .inr ⟨.inl hspec, fun _ => FlowGraph.contains_ensure.mpr (.inr rfl)⟩
  | case3 s a queue hf =>
    have hspec := finding_spec h.parsed a
    rw [hf] at hspec
    have hrefused : (s.note (.ambiguousAt a)).Refused a :=
      .inr (Diagnostics.has_add.mpr (.inr ⟨rfl, rfl⟩))
    refine (h.note hspec).finish ?_ ?_ (fun t ht => .inl ht)
    · rintro t rfl
      exact .inr (.inr hrefused)
    · rintro t (ht | ⟨rfl, -⟩)
      · exact .inl ht
      · exact .inr ⟨.inr hrefused, fun ho => absurd (hspec.1.symm.trans ho) (by decide)⟩
  | case4 s a queue i hf hn =>
    have hspec := finding_spec h.parsed a
    rw [hf] at hspec
    obtain ⟨rfl, hl, hfree⟩ := hspec
    refine (h.enter hl hfree hcome).finish ?_ ?_ ?_
    · intro t ht
      exact absurd (ht.symm.trans hn) (by simp)
    · intro t ht
      exact .inl (mem_append_targets.mpr ht)
    · intro t ht
      exact mem_append_targets.mp ht
  | case5 s a queue i hf b hn ih =>
    have hspec := finding_spec h.parsed a
    rw [hf] at hspec
    obtain ⟨rfl, hl, hfree⟩ := hspec
    have hlt : a.toNat < b.toNat := by
      have hb := Address.after?_eq_some_iff.mp (Skips.next_onward hn)
      have hpos := s.length_decode_pos a
      rw [address_decode] at hb
      omega
    have hne : b ≠ start := by
      rintro rfl
      omega
    have hg := grows_enter s start a
    refine ih ((h.enter hl hfree hcome).finish ?_ ?_ ?_) (.inr ⟨a, ?_, ?_⟩) (by omega)
    · intro t ht
      exact .inl (Option.some.inj (ht.symm.trans hn))
    · intro t ht
      exact .inl (.inl (mem_append_targets.mpr ht))
    · rintro t (ht | ⟨-, hb⟩)
      · exact mem_append_targets.mp ht
      · exact absurd hb hne
    · rw [memory_enter]
      exact (Memory.opening_claim (s.length_decode_pos a)).mpr (.inr rfl)
    · rw [hg.onward]
      exact hn

theorem Explored.discoverFrom {queue : Queue Address}
    (h : Explored m v k entries (fun _ => False) (· ∈ queue.toList) s) :
    Explored m v k entries (fun _ => False) (fun _ => False) (s.discoverFrom queue) := by
  fun_induction Survey.discoverFrom s queue with
  | case1 s queue hpop =>
    refine h.finish (fun t ht => .inl ht) ?_ (fun t ht => ht.elim)
    intro t ht
    rw [Queue.toList_of_pop?_none hpop] at ht
    cases ht
  | case2 s queue a rest hpop r ih =>
    have hlist := Queue.toList_of_pop? hpop
    refine ih (Explored.walk (h.finish ?_ ?_ ?_) (.inl rfl) (Nat.le_refl _))
    · intro t ht
      exact ht.elim
    · intro t ht
      rw [hlist, List.mem_cons] at ht
      rcases ht with rfl | ht
      · exact .inl (.inr ⟨rfl, rfl⟩)
      · exact .inl (.inl ht)
    · rintro t (ht | ⟨rfl, -⟩)
      · rw [hlist]
        exact List.mem_cons_of_mem _ ht
      · rw [hlist]
        exact List.mem_cons_self

/-- A discovery in a memory that has not been explored leaves nothing pending. -/
theorem explored_discover (hm : m.Unexplored) (v : Opcode.Variant) (k : Skips)
    (entries : List Address) :
    Explored m v k entries (fun _ => False) (fun _ => False) ((fresh m v k).discover entries) := by
  have hclosed : ∀ a, ((fresh m v k).memory.marks a).opening = true → False := by
    intro a ha
    have hmarks : (m.marks a).opening = true := ha
    rw [hm a] at hmarks
    cases hmarks
  have hmem : ∀ t, t ∈ (Queue.ofList (Std.ExtTreeSet.ofList entries).toList).toList ↔
      t ∈ entries := by
    intro t
    rw [Queue.toList_ofList, Std.ExtTreeSet.mem_toList, Std.ExtTreeSet.mem_ofList,
      List.contains_iff_mem]
  refine Explored.discoverFrom ⟨rfl, rfl, fun _ => rfl, fun _ => rfl, hm.parsed v, ?_, ?_, ?_, ?_,
    ?_, ?_, ?_, ?_, List.nodup_nil, ⟨rfl, AddressSet.not_mem_empty⟩⟩
  · intro a n hn
    have hnone : (fresh m v k).graph.get? a = none := Std.ExtTreeMap.getElem?_empty
    exact absurd (hn.symm.trans hnone) (by simp)
  · intro a ha
    exact (hclosed a ha).elim
  · intro a ha
    exact (hclosed a ha).elim
  · intro t ht
    exact .inl ((hmem t).mp ht)
  · rintro t (ht | ⟨a, ha, -⟩)
    · exact .inl ((hmem t).mpr ht)
    · exact (hclosed a ha).elim
  · intro a t ha
    exact (hclosed a ha).elim
  · intro t ht
    obtain ⟨d, hd, -⟩ := Diagnostics.has_iff.mp ht
    cases hd
  · intro d hd
    cases hd

/-! ### The result -/

/-- The survey of `m` has claimed exactly what control reaches from the entries: what is claimed is
reached through claimed instructions; what control goes to from an entry or a claimed instruction is
claimed, not loaded as a whole, or ambiguous; and nodes start where control does not simply go
on. -/
structure DiscoversExactly (s : Survey) (m : Memory) (v : Opcode.Variant) (k : Skips)
    (entries : List Address) : Prop where
  sound : ∀ a, (s.memory.marks a).opening = true → s.memory.Reached v k entries a
  closed : ∀ t,
    (t ∈ entries ∨ ∃ a, (s.memory.marks a).opening = true ∧ k.Successor (m.decode v a) t) →
    (s.memory.marks t).opening = true ∨ ¬m.FullyLoaded v t ∨ s.diagnostics.has .ambiguous t = true
  nodes : ∀ t,
    (t ∈ entries ∨ ∃ a, (s.memory.marks a).opening = true ∧ k.Junction (m.decode v a) t) →
    (s.memory.marks t).opening = true → s.graph.contains t = true

theorem Explored.decode (h : Explored m v k entries here queued s) (a : Address) :
    s.decode a = m.decode v a := by
  unfold Survey.decode
  rw [h.variant]
  exact Memory.decode_congr h.byte v a

theorem Explored.onward (h : Explored m v k entries here queued s) (a : Address) :
    s.onward a = k.onward (m.decode v a) := by
  unfold Survey.onward
  rw [h.decode, h.skips]

theorem Explored.fullyLoaded_iff (h : Explored m v k entries here queued s) (a : Address) :
    s.memory.FullyLoaded s.variant a ↔ m.FullyLoaded v a := by
  rw [h.variant]
  exact Memory.fullyLoaded_congr h.byte h.assigned v a

theorem Explored.source_iff (h : Explored m v k entries here queued s) {t : Address} :
    s.Source entries t ↔
      t ∈ entries ∨ ∃ a, (s.memory.marks a).opening = true ∧ k.Junction (m.decode v a) t := by
  unfold Source
  simp only [h.onward, Skips.mem_targets_iff (Memory.lawful_decode ..)]

/-- From an image in which nothing is claimed, discovery claims what control reaches from the
entries and nothing else.  What it leaves out on the way is not loaded as a whole or is ambiguous.
-/
theorem discover_exact (hm : m.Unexplored) (v : Opcode.Variant) (k : Skips)
    (entries : List Address) :
    ((fresh m v k).discover entries).DiscoversExactly m v k entries := by
  have h := explored_discover hm v k entries
  have hresolved : ∀ {t}, ((fresh m v k).discover entries).Source entries t →
      ((fresh m v k).discover entries).Resolved t := by
    intro t ht
    rcases h.resolved ht with hf | hr
    · exact hf.elim
    · exact hr
  refine ⟨?_, ?_, ?_⟩
  · intro a ha
    have hr := h.reached ha
    rw [h.variant, h.skips] at hr
    exact hr
  · intro t ht
    have hsettled : ((fresh m v k).discover entries).Settled t := by
      rcases ht with he | ⟨a, ha, hsucc⟩
      · exact (hresolved (.inl he)).1
      · rw [Skips.successor_iff (Memory.lawful_decode ..), ← h.onward] at hsucc
        rcases hsucc with htarget | hnext
        · exact (hresolved (.inr ⟨a, ha, htarget⟩)).1
        · exact (h.settled ha hnext).resolve_left id
    rcases hsettled with ho | hl | hd
    · exact .inl ho
    · exact .inr (.inl (fun hloaded => hl ((h.fullyLoaded_iff t).mpr hloaded)))
    · exact .inr (.inr hd)
  · intro t ht ho
    exact (hresolved (h.source_iff.mpr ht)).2 ho

/-- `LD A,3Eh` at `8000h`, and `JR` into the middle of it. -/
def loopingInto : Memory := Memory.empty.write 0x8000 [0x3E, 0x3E, 0x18, 0xFD]

/-- Both instructions are found, and the target of the jump is ambiguous and no start. -/
theorem discover_exact_overlap :
    loopingInto.Unexplored ∧
      ((fresh loopingInto .z80 {}).discover [0x8000]).DiscoversExactly loopingInto .z80 {}
        [0x8000] ∧
      [0x8000, 0x8001, 0x8002].map
          (fun a => (((fresh loopingInto .z80 {}).discover [0x8000]).memory.marks a).opening) =
        [true, false, true] ∧
      ((fresh loopingInto .z80 {}).discover [0x8000]).diagnostics.has .ambiguous 0x8001 = true ∧
      ((fresh loopingInto .z80 {}).discover [0x8000]).graph.addresses = [0x8000] := by
  have hm : loopingInto.Unexplored := Memory.unexplored_empty.write _ _
  refine ⟨hm, discover_exact hm .z80 {} [0x8000], ?_⟩
  decide +kernel

end Survey

end Z80Atlas
