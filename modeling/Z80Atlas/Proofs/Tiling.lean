import Z80Atlas.Proofs.Charted

/-!
# Nodes tile the code

In a chart every node is empty or holds instructions that stand one behind the other, as they are
decoded.  Every claimed instruction stands in one place of one node, so the nodes do not overlap,
and what they cover is what is marked as code.
-/

namespace Z80Atlas

/-- What a node that has been filled looks like: instructions one behind the other, below the top,
of which only the last one turns control away and no more than one is a call. -/
structure Node.Tile (m : Memory) (v : Opcode.Variant) (n : Node) : Prop where
  starts : ∃ i, n.instructions[0]? = some i ∧ i.address = n.start
  consecutive :
    n.instructions.toList.IsChain fun i j => j.address.toNat = i.address.toNat + i.length
  decoded : ∀ i ∈ n.instructions, i = m.decode v i.address
  sum_length : (n.instructions.toList.map (·.length)).sum = n.length
  stopAt_le : n.stopAt ≤ 65536
  dropLast : ∀ i ∈ n.instructions.toList.dropLast,
    i.effects.ret = false ∧ i.effects.stop = false ∧
    (i.effects.branch = true → i.effects.call = true)
  countP_call_le : n.instructions.toList.countP (·.effects.call) ≤ 1

/-- The instruction at a place: a node, and how many instructions of it come before. -/
def FlowGraph.at? (g : FlowGraph) (place : Address × Nat) : Option Instruction :=
  (g.get? place.1).bind (·.instructions[place.2]?)

theorem FlowGraph.at?_eq_some_iff {g : FlowGraph} {place : Address × Nat} {i : Instruction} :
    g.at? place = some i ↔
      ∃ n, g.get? place.1 = some n ∧ n.instructions.toList[place.2]? = some i := by
  unfold at?
  rw [Option.bind_eq_some_iff]
  simp only [Array.getElem?_toList]

theorem Node.covers_iff {n : Node} {a : Address} :
    n.covers a = true ↔ n.start.toNat ≤ a.toNat ∧ a.toNat < n.start.toNat + n.length := by
  unfold covers stopAt
  rw [Bool.and_eq_true, decide_eq_true_eq, decide_eq_true_eq, UInt16.le_iff_toNat_le]

theorem Memory.Stretch.index_eq {m : Memory} {v : Opcode.Variant} {k : Skips} {start p : Address}
    {is : List Instruction} {x y : Nat} {i j : Instruction} (h : m.Stretch v k start is p)
    (hi : is[x]? = some i) (hj : is[y]? = some j) (he : i.address = j.address) : x = y := by
  have hsorted := List.pairwise_iff_getElem.mp h.ascending
  obtain ⟨hx, rfl⟩ := List.getElem?_eq_some_iff.mp hi
  obtain ⟨hy, rfl⟩ := List.getElem?_eq_some_iff.mp hj
  rcases Nat.lt_trichotomy x y with hlt | heq | hgt
  · have hlt' := hsorted x y hx hy hlt
    rw [he] at hlt'
    omega
  · exact heq
  · have hgt' := hsorted y x hy hx hgt
    rw [he] at hgt'
    omega

namespace Survey

variable {m : Memory} {v : Opcode.Variant} {k : Skips} {amb : Address → Prop} {s : Survey}
  {a b p : Address}
variable {n n' : Node}

/-- The survey's nodes tile the code that has been claimed in the image `m`. -/
structure Tiled (m : Memory) (v : Opcode.Variant) (s : Survey) : Prop where
  node : ∀ {a n}, s.graph.get? a = some n → n.start = a ∧ (n.isPlaceholder = true ∨ n.Tile m v)
  placed : ∀ a, (s.memory.marks a).opening = true ↔
    ∃! place, (s.graph.at? place).map (·.address) = some a
  apart : ∀ {a b n n'}, s.graph.get? a = some n → s.graph.get? b = some n' → a ≠ b →
    ∀ x, ¬(n.covers x = true ∧ n'.covers x = true)
  union : ∀ x, (s.memory.marks x).code = true ↔ ∃ a n, s.graph.get? a = some n ∧ n.covers x = true

theorem Filled.tile (h : Filled m v k s n p) (hp : m.Parsed v) : n.Tile m v := by
  have hstop : n.stopAt = m.behind v p := by
    unfold Node.stopAt
    rw [h.length]
    exact h.stretch.sum_length
  refine ⟨⟨_, ?_, Memory.address_decode m v n.start⟩, h.stretch.consecutive, ?_,
    h.length.symm, ?_, ?_, h.stretch.countP_call_le⟩
  · rw [← Array.getElem?_toList, ← List.head?_eq_getElem?]
    exact h.stretch.head?_eq
  · intro i hi
    exact (h.stretch.of_mem i (Array.mem_toList_iff.mpr hi)).1
  · rw [hstop]
    exact h.stretch.behind_le hp
  · intro i hi
    obtain ⟨a, hnext⟩ := h.stretch.next_of_dropLast i hi
    have hlawful : i.Lawful := by
      rw [(h.stretch.of_mem i ((List.dropLast_sublist _).subset hi)).1]
      exact m.lawful_decode v i.address
    obtain ⟨-, ⟨hb, hr, hs⟩ | ⟨hc, -⟩⟩ := (Skips.next_eq_some_iff hlawful).mp hnext
    · exact ⟨hr, hs, fun hb' => absurd (hb'.symm.trans hb) (by decide)⟩
    · refine ⟨?_, hlawful.stop_of_call hc, fun _ => hc⟩
      cases hr : i.effects.ret with
      | false => rfl
      | true =>
        have hb := hlawful.branch_of_call hc
        exact absurd (hb.symm.trans (hlawful.branch_of_ret hr)) (by decide)

theorem Filled.isPlaceholder (h : Filled m v k s n p) : n.isPlaceholder = false := by
  have hne : n.instructions ≠ #[] := fun hnone => h.stretch.ne_nil (congrArg Array.toList hnone)
  simp [Node.isPlaceholder, hne]

namespace Charted

theorem filled_node (h : Charted m v k amb s) (hn : s.graph.get? a = some n)
    (ho : (m.marks a).opening = true) :
    n.start = a ∧ ∃ p, Filled m v k s n p := by
  obtain ⟨hstart, p, hp⟩ := h.filled (FlowGraph.bodyAt_eq_some hn) ho
  exact ⟨hstart, p, { hp with }⟩

theorem blank_node (h : Charted m v k amb s) (hn : s.graph.get? a = some n)
    (ho : (m.marks a).opening = false) :
    n.body = { start := a, label := n.label } :=
  h.blank (FlowGraph.bodyAt_eq_some hn) ho

theorem isPlaceholder_iff (h : Charted m v k amb s) (hn : s.graph.get? a = some n) :
    n.isPlaceholder = true ↔ (m.marks a).opening = false := by
  cases ho : (m.marks a).opening with
  | false =>
    have hbody := h.blank_node hn ho
    have hlength : n.length = 0 := congrArg Node.length hbody
    have hnone : n.instructions = #[] := congrArg Node.instructions hbody
    simp [Node.isPlaceholder, hlength, hnone]
  | true =>
    obtain ⟨-, p, hp⟩ := h.filled_node hn ho
    simp [hp.isPlaceholder]

theorem opening_of_full (h : Charted m v k amb s) (hn : s.graph.get? a = some n)
    (hfull : n.isPlaceholder = false) :
    (m.marks a).opening = true := by
  rw [← Bool.not_eq_false, ← h.isPlaceholder_iff hn, hfull]
  exact Bool.false_ne_true

/-- A node that covers a byte has been filled. -/
theorem filled_of_covers {x : Address} (h : Charted m v k amb s) (hn : s.graph.get? a = some n)
    (hx : n.covers x = true) : n.start = a ∧ ∃ p, Filled m v k s n p := by
  cases ho : (m.marks a).opening with
  | true => exact h.filled_node hn ho
  | false =>
    have hlength : n.length = 0 := congrArg Node.length (h.blank_node hn ho)
    rw [Node.covers_iff, hlength] at hx
    omega

theorem filled_of_mem {i : Instruction} (h : Charted m v k amb s) (hn : s.graph.get? a = some n)
    (hi : i ∈ n.instructions.toList) : n.start = a ∧ ∃ p, Filled m v k s n p := by
  cases ho : (m.marks a).opening with
  | true => exact h.filled_node hn ho
  | false =>
    have hnone : n.instructions = #[] := congrArg Node.instructions (h.blank_node hn ho)
    rw [hnone] at hi
    cases hi

end Charted

theorem Filled.covers_iff {x : Address} (h : Filled m v k s n p) :
    n.covers x = true ↔ ∃ i ∈ n.instructions.toList, m.Covers v i.address x := by
  have hstop : n.start.toNat + n.length = m.behind v p := by
    rw [h.length]
    exact h.stretch.sum_length
  rw [Node.covers_iff, hstop]
  constructor
  · intro ⟨hle, hlt⟩
    obtain ⟨a, hmem, hcover⟩ := h.stretch.covered hle hlt
    exact ⟨_, hmem, hcover⟩
  · intro ⟨i, hi, hcover⟩
    have hbounds := h.stretch.bounds i hi
    have hcover' : i.address.toNat ≤ x.toNat ∧
        x.toNat < i.address.toNat + (m.decode v i.address).length := hcover
    rw [← (h.stretch.of_mem i hi).1] at hcover'
    omega

/-- Two nodes that share a claimed instruction are the same. -/
theorem Charted.node_eq {i j : Instruction} (h : Charted m v k amb s) (hn : s.graph.get? a = some n)
    (hn' : s.graph.get? b = some n') (hi : i ∈ n.instructions.toList)
    (hj : j ∈ n'.instructions.toList) (he : i.address = j.address) : a = b := by
  obtain ⟨rfl, p, hp⟩ := h.filled_of_mem hn hi
  obtain ⟨rfl, q, hq⟩ := h.filled_of_mem hn' hj
  rw [(hp.stretch.of_mem i hi).1] at hi
  rw [(hq.stretch.of_mem j hj).1, ← he] at hj
  exact hp.stretch.start_eq (fun x => s.graph.contains x = true) h.tally.parsed hq.stretch
    (FlowGraph.contains_iff.mpr ⟨n, hn⟩) (FlowGraph.contains_iff.mpr ⟨n', hn'⟩) hp.interior
      hq.interior hi hj

theorem Charted.holds_iff_at? (h : Charted m v k amb s) {x : Address} :
    s.Holds x ↔ ∃! place, (s.graph.at? place).map (·.address) = some x := by
  constructor
  · intro ⟨a, body, hbody, i, hi, haddr⟩
    obtain ⟨n, hn, rfl⟩ := FlowGraph.bodyAt_eq_some_iff.mp hbody
    have hmem : i ∈ n.instructions.toList := hi
    obtain ⟨y, hy⟩ := List.mem_iff_getElem?.mp hmem
    refine ⟨(a, y), ?_, ?_⟩
    · have hplace : s.graph.at? (a, y) = some i := FlowGraph.at?_eq_some_iff.mpr ⟨n, hn, hy⟩
      show (s.graph.at? (a, y)).map (·.address) = some x
      rw [hplace, ← haddr]
      rfl
    · intro place hplace
      obtain ⟨j, hj, hjaddr⟩ := Option.map_eq_some_iff.mp hplace
      obtain ⟨n', hn', hz⟩ := FlowGraph.at?_eq_some_iff.mp hj
      have hsame := haddr.trans hjaddr.symm
      have hab : a = place.1 := h.node_eq hn hn' hmem (List.mem_iff_getElem?.mpr ⟨_, hz⟩) hsame
      rw [← hab] at hn'
      cases hn.symm.trans hn'
      obtain ⟨-, p, hp⟩ := h.filled_of_mem hn hmem
      have hyz : y = place.2 := hp.stretch.index_eq hy hz hsame
      exact Prod.ext hab.symm hyz.symm
  · intro ⟨place, hplace, _⟩
    obtain ⟨j, hj, hjaddr⟩ := Option.map_eq_some_iff.mp hplace
    obtain ⟨n, hn, hz⟩ := FlowGraph.at?_eq_some_iff.mp hj
    exact ⟨place.1, n.body, FlowGraph.bodyAt_eq_some hn, j,
      List.mem_iff_getElem?.mpr ⟨_, hz⟩, hjaddr⟩

theorem Charted.tiled (h : Charted m v k amb s) : Tiled m v s := by
  refine ⟨?_, ?_, ?_, ?_⟩
  · intro a n hn
    cases ho : (m.marks a).opening with
    | true =>
      obtain ⟨hstart, p, hp⟩ := h.filled_node hn ho
      exact ⟨hstart, .inr (hp.tile h.tally.parsed)⟩
    | false =>
      exact ⟨congrArg Node.start (h.blank_node hn ho), .inl ((h.isPlaceholder_iff hn).mpr ho)⟩
  · intro a
    rw [h.stamped.same.opening, ← h.holds_iff, h.holds_iff_at?]
  · intro a b n n' hn hn' hne x ⟨hx, hx'⟩
    obtain ⟨-, p, hp⟩ := h.filled_of_covers hn hx
    obtain ⟨-, q, hq⟩ := h.filled_of_covers hn' hx'
    obtain ⟨i, hi, hix⟩ := hp.covers_iff.mp hx
    obtain ⟨j, hj, hjx⟩ := hq.covers_iff.mp hx'
    have hsame :=
      h.tally.parsed.eq_of_covers (hp.stretch.of_mem i hi).2 (hq.stretch.of_mem j hj).2 hix hjx
    exact hne (h.node_eq hn hn' hi hj hsame)
  · intro x
    rw [h.stamped.same.code, h.tally.parsed.code_eq, h.tally.parsed.traced_iff]
    constructor
    · intro ⟨a, ho, hcover⟩
      obtain ⟨b, body, hbody, i, hi, haddr⟩ := (h.holds_iff a).mpr ho
      obtain ⟨n, hn, rfl⟩ := FlowGraph.bodyAt_eq_some_iff.mp hbody
      obtain ⟨-, p, hp⟩ := h.filled_of_mem hn hi
      exact ⟨b, n, hn, hp.covers_iff.mpr ⟨i, hi, haddr ▸ hcover⟩⟩
    · intro ⟨b, n, hn, hx⟩
      obtain ⟨-, p, hp⟩ := h.filled_of_covers hn hx
      obtain ⟨i, hi, hcover⟩ := hp.covers_iff.mp hx
      exact ⟨i.address, (hp.stretch.of_mem i hi).2, hcover⟩

/-- Only the bytes of the image matter to what a node looks like. -/
theorem Tiled.of_byte {m' : Memory} (h : Tiled m v s) (hb : ∀ a, m.byte a = m'.byte a) :
    Tiled m' v s :=
  { h with
    node := by
      intro a n hn
      obtain ⟨hstart, hor⟩ := h.node hn
      refine ⟨hstart, ?_⟩
      cases hor with
      | inl hempty => exact .inl hempty
      | inr htile =>
        refine .inr { htile with decoded := ?_ }
        intro i hi
        rw [← Memory.decode_congr hb]
        exact htile.decoded i hi }

/-- The nodes of a charted image tile its code: each claimed instruction is in one node at one
place, nodes have no byte in common, and together they cover what is marked as code. -/
theorem nodes_tile_code (hm : m.Unexplored) (v : Opcode.Variant) (k : Skips)
    (entries : List Address) (names : NameTable) :
    Tiled m v ((fresh m v k).chart entries names).1 :=
  (charted_chart hm v k entries names).tiled.of_byte (explored_discover hm v k entries).byte

/-- `CALL 8009h`, `CALL 8009h`, `NOP`, `JR 8000h` and `RET` at `8000h`. -/
def callingTwice : Memory :=
  Memory.empty.write 0x8000 [0xCD, 0x09, 0x80, 0xCD, 0x09, 0x80, 0x00, 0x18, 0xF7, 0xC9]

/-- The second one of two calls behind each other starts a node, which ends before a name. -/
theorem nodes_tile_code_two_calls :
    callingTwice.Unexplored ∧
      Tiled callingTwice .z80 ((fresh callingTwice .z80 {}).chart [0x8000]
        ((∅ : NameTable).insert 0x8007 "back")).1 ∧
      ((fresh callingTwice .z80 {}).chart [0x8000]
          ((∅ : NameTable).insert 0x8007 "back")).1.graph.toList.map
          (fun n => (n.start, n.instructions.toList.map (·.address))) =
        [(0x8000, [0x8000]), (0x8003, [0x8003, 0x8006]), (0x8007, [0x8007]),
          (0x8009, [0x8009])] := by
  have hm : callingTwice.Unexplored := Memory.unexplored_empty.write _ _
  refine ⟨hm, nodes_tile_code hm .z80 {} [0x8000] _, ?_⟩
  decide +kernel

end Survey

end Z80Atlas
