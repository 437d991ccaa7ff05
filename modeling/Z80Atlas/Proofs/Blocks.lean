import Mathlib.Data.List.Chain
import Mathlib.Data.List.Nodup
import Z80Atlas.Proofs.Naming

/-!
# How nodes are divided into blocks

Dividing a graph into blocks gives every node a leader, in ascending order (`FlowGraph.placement`).
From one node to the next either a new block starts, or the block goes on with a node that lies
right behind.  So the nodes of a block follow each other without a gap, from the leader on, and no
node is the leader of one block and inside of another.
-/

namespace Z80Atlas

theorem nodup_of_ascending {xs : List Address} (h : xs.Pairwise fun x y => x.toNat < y.toNat) :
    xs.Nodup := by
  refine h.imp ?_
  intro x y hlt heq
  rw [heq] at hlt
  omega

namespace FlowGraph

variable {g h : FlowGraph}

/-! ### Leaders -/

/-- Nodes with the leaders of the blocks that they are put into, one after the other. -/
def assignment (g : FlowGraph) (current : Option OpenBlock) : List Node → List (Address × Node)
  | [] => []
  | n :: rest =>
    ((g.blockFor current n).leader, n) :: g.assignment (some (g.blockFor current n)) rest

/-- The nodes of the graph with their leaders, ascending. -/
def placement (g : FlowGraph) : List (Address × Node) := g.assignment none g.toList

theorem divide_eq_foldl (b : Blocks) (current : Option OpenBlock) (nodes : List Node) :
    g.divide b current nodes =
      (g.assignment current nodes).foldl (fun b p => b.join p.1 p.2) b := by
  induction nodes generalizing b current with
  | nil => rfl
  | cons n rest ih =>
    exact ih (b.join (g.blockFor current n).leader n) (some (g.blockFor current n))

theorem blocks_eq_foldl (g : FlowGraph) :
    g.blocks = g.placement.foldl (fun b p => b.join p.1 p.2) {} :=
  divide_eq_foldl {} none g.toList

theorem map_snd_assignment (current : Option OpenBlock) (nodes : List Node) :
    (g.assignment current nodes).map (·.2) = nodes := by
  induction nodes generalizing current with
  | nil => rfl
  | cons n rest ih =>
    rw [assignment, List.map_cons, ih]

theorem map_snd_placement (g : FlowGraph) : g.placement.map (·.2) = g.toList :=
  map_snd_assignment none g.toList

theorem blockFor_cases (current : Option OpenBlock) (n : Node) :
    (∃ o, current = some o ∧ o.continuesWith n = true ∧
      g.blockFor current n = { o with stopAt := n.stopAt }) ∨
      (∀ o, current = some o → o.continuesWith n = false) ∧ g.blockFor current n =
        { leader := n.start
          reached := reach g.uncalledSuccessors [n.start]
          stopAt := n.stopAt } := by
  unfold blockFor
  cases hc : current.filter (·.continuesWith n) with
  | none =>
    refine .inr ⟨?_, rfl⟩
    intro o ho
    exact eq_false_of_ne_true (Option.filter_eq_none_iff.mp hc o ho)
  | some o =>
    obtain ⟨ho, hgo⟩ := Option.filter_eq_some_iff.mp hc
    exact .inl ⟨o, ho, hgo, rfl⟩

/-! ### The order of blocks -/

/-- How a node with its leader comes behind another one: it starts a block, or goes on with the
block of the other. -/
inductive Follows (p q : Address × Node) : Prop
  | starts (h : q.1 = q.2.start)
  | continues (h : q.1 = p.1) (hs : q.2.start.toNat = p.2.stopAt) (hc : q.2.callers = #[])

theorem isChain_cons_assignment {o : OpenBlock} {p : Address × Node} (hl : o.leader = p.1)
    (hs : o.stopAt = p.2.stopAt) (nodes : List Node) :
    (p :: g.assignment (some o) nodes).IsChain Follows := by
  induction nodes generalizing o p with
  | nil => exact .singleton p
  | cons n rest ih =>
    rw [assignment]
    rcases g.blockFor_cases (some o) n with ⟨o', ho, hgo, hblock⟩ | ⟨-, hblock⟩
    · cases ho
      simp only [OpenBlock.continuesWith, Bool.and_eq_true, beq_iff_eq] at hgo
      rw [hblock]
      exact .cons_cons (.continues hl (hgo.1.2.trans hs) (Array.isEmpty_iff.mp hgo.1.1.1))
        (ih rfl rfl)
    · rw [hblock]
      exact .cons_cons (.starts rfl) (ih rfl rfl)

/-- Nodes with their leaders, ascending, of which the first is its own leader. -/
structure Division (ps : List (Address × Node)) : Prop where
  chain : ps.IsChain Follows
  head : ∀ p, ps.head? = some p → p.1 = p.2.start
  ascending : ps.Pairwise fun p q => p.2.start.toNat < q.2.start.toNat

theorem division_placement (hg : g.toList.Pairwise fun n n' => n.start.toNat < n'.start.toNat) :
    Division g.placement := by
  have hblock : ∀ n, g.blockFor none n =
      { leader := n.start, reached := reach g.uncalledSuccessors [n.start], stopAt := n.stopAt } :=
        fun _ => rfl
  refine ⟨?_, ?_, ?_⟩
  · unfold placement
    cases g.toList with
    | nil => exact .nil
    | cons n rest => exact isChain_cons_assignment rfl rfl rest
  · intro p hp
    unfold placement at hp
    cases hnodes : g.toList with
    | nil =>
      rw [hnodes] at hp
      cases hp
    | cons n rest =>
      rw [hnodes, assignment, List.head?_cons, Option.some.injEq] at hp
      rw [← hp, hblock]
  · rw [← map_snd_placement, List.pairwise_map] at hg
    exact hg

namespace Division

variable {ps pre post : List (Address × Node)} {p q : Address × Node} {leader : Address} {n : Node}

theorem eq_of_start (hd : Division ps) (hp : p ∈ ps) (hq : q ∈ ps) (he : p.2.start = q.2.start) :
    p = q := by
  have hnodup : (ps.map fun p => p.2.start).Nodup :=
    nodup_of_ascending (List.pairwise_map.mpr hd.ascending)
  exact List.inj_on_of_nodup_map hnodup hp hq he

theorem follows (hd : Division ps) (h : ps = (pre ++ [p]) ++ q :: post) : Follows p q := by
  have hchain := hd.chain
  rw [h, List.append_assoc, List.singleton_append] at hchain
  exact (List.isChain_append_cons_cons.mp hchain).2.1

/-- A node that is called starts a block. -/
theorem callers_eq_empty (hd : Division ps) (hq : q ∈ ps) (hne : q.2.start ≠ q.1) :
    q.2.callers = #[] := by
  obtain ⟨pre, post, h⟩ := List.append_of_mem hq
  induction pre using List.reverseRecOn with
  | nil =>
    have hself : q.1 = q.2.start := hd.head q (by rw [h]; rfl)
    exact absurd hself.symm hne
  | append_singleton pre p _ =>
    cases hd.follows h with
    | starts hself => exact absurd hself.symm hne
    | continues _ _ hc => exact hc

/-- Going back from a node one comes to its leader, and to no other block before. -/
theorem split_leader (hd : Division ps) (h : ps = pre ++ q :: post) :
    ∃ before n between, pre ++ [q] = before ++ (q.1, n) :: between ∧ n.start = q.1 ∧
      (∀ p ∈ between, p.1 = q.1 ∧ p.2.start ≠ q.1) ∧
      (q.2.isPlaceholder = false → n.isPlaceholder = false) := by
  -- The induction is on the nodes before, from the last one on: it is in the same block or `q` is a
  -- leader.
  induction pre using List.reverseRecOn generalizing q post with
  | nil =>
    have hself : q.1 = q.2.start := hd.head q (by rw [h]; rfl)
    exact ⟨[], q.2, [], rfl, hself.symm, by simp, id⟩
  | append_singleton pre p ih =>
    have hfollows := hd.follows h
    rw [List.append_assoc, List.singleton_append] at h
    cases hfollows with
    | starts hself => exact ⟨pre ++ [p], q.2, [], rfl, hself.symm, by simp, id⟩
    | continues hsame hs _ =>
      obtain ⟨before, n, between, heq, hstart, hbetween, hfull⟩ := ih h
      have hlt : ∀ r ∈ pre ++ [p], r.2.start.toNat < q.2.start.toNat := by
        have hasc := hd.ascending
        rw [h, List.append_cons, List.pairwise_append] at hasc
        exact fun r hr => hasc.2.2 r hr q (by simp)
      rw [← hsame] at heq hstart hbetween
      refine ⟨before, n, between ++ [q], ?_, hstart, ?_, ?_⟩
      · rw [heq, List.append_assoc]
        rfl
      · intro r hr
        rw [List.mem_append, List.mem_singleton] at hr
        cases hr with
        | inl hr => exact hbetween r hr
        | inr hr =>
          have hbehind := hlt (q.1, n) (by rw [heq]; simp)
          rw [hr]
          refine ⟨rfl, ?_⟩
          intro hself
          rw [hstart, hself] at hbehind
          omega
      · intro _
        refine hfull ?_
        have hbehind := hlt p (by simp)
        have hlength : p.2.length ≠ 0 := by
          unfold Node.stopAt at hs
          omega
        simp [Node.isPlaceholder, hlength]

theorem leader_mem (hd : Division ps) (hq : q ∈ ps) :
    ∃ n, (q.1, n) ∈ ps ∧ n.start = q.1 ∧ q.1.toNat ≤ q.2.start.toNat := by
  obtain ⟨pre, post, h⟩ := List.append_of_mem hq
  obtain ⟨before, n, between, heq, hstart, -, -⟩ := hd.split_leader h
  have hmem : (q.1, n) ∈ pre ++ [q] := by
    rw [heq]
    simp
  refine ⟨n, ?_, hstart, ?_⟩
  · rw [h]
    simp only [List.mem_append, List.mem_cons, List.not_mem_nil, or_false] at hmem ⊢
    rcases hmem with hmem | hmem
    · exact .inl hmem
    · exact .inr (.inl hmem)
  · rw [← hstart]
    rw [List.mem_append, List.mem_singleton] at hmem
    rcases hmem with hmem | hmem
    · have hasc := hd.ascending
      rw [h, List.pairwise_append] at hasc
      exact Nat.le_of_lt (hasc.2.2 _ hmem q (by simp))
    · rw [← hmem]

/-- A node that leads a block is inside of no other one. -/
theorem leads_itself (hd : Division ps) (hp : p ∈ ps) (hq : q ∈ ps) (he : p.1 = q.2.start) :
    q.1 = q.2.start := by
  obtain ⟨n, hn, hstart, -⟩ := hd.leader_mem hp
  have hsame : (p.1, n) = q := hd.eq_of_start hn hq (hstart.trans he)
  rw [← hsame]
  exact hstart.symm

end Division

end FlowGraph

/-! ### Blocks -/

namespace Blocks

variable {b : Blocks} {a x : Address} {ps : List (Address × Node)}

theorem leaderOf?_join (b : Blocks) (leader : Address) (n : Node) (x : Address) :
    (b.join leader n).leaderOf? x = if n.covers x then some leader else b.leaderOf? x := by
  have hx := x.toNat_lt
  have hstart := n.start.toNat_lt
  have hcovers :
      (n.start.toNat ≤ x.toNat ∧ x.toNat < n.start.toNat + (min n.stopAt 65536 - n.start.toNat)) ↔
        n.covers x = true := by
    rw [Node.covers, Bool.and_eq_true, decide_eq_true_eq, decide_eq_true_eq, UInt16.le_iff_toNat_le]
    omega
  unfold leaderOf? join
  rw [Space.get_modifyFrom _ _ _ _ (by omega)]
  simp only [hcovers]

/-- The last node that covers an address decides. -/
theorem leaderOf?_foldl_join (ps : List (Address × Node)) (b : Blocks) (x : Address) :
    (ps.foldl (fun b p => b.join p.1 p.2) b).leaderOf? x =
      ((ps.reverse.find? fun p => p.2.covers x).map (·.1)).or (b.leaderOf? x) := by
  induction ps generalizing b with
  | nil => rfl
  | cons p rest ih =>
    rw [List.foldl_cons, ih, leaderOf?_join, List.reverse_cons, List.find?_append]
    cases rest.reverse.find? fun p => p.2.covers x with
    | some q => rfl
    | none =>
      cases hc : p.2.covers x with
      | true => simp [hc]
      | false => simp [hc]

theorem isLeader_join {leader : Address} {n : Node} :
    (b.join leader n).isLeader a = true ↔ leader = a ∨ b.isLeader a = true := by
  unfold isLeader join
  rw [Std.ExtTreeMap.contains_alter]
  split
  next heq => simp [Std.compare_eq_iff_eq.mp heq]
  next hne =>
    have hne' : leader ≠ a := fun heq => hne (Std.compare_eq_iff_eq.mpr heq)
    simp [hne']

theorem isLeader_foldl_join : (ps.foldl (fun b p => b.join p.1 p.2) b).isLeader a = true ↔
    b.isLeader a = true ∨ ∃ n, (a, n) ∈ ps := by
  induction ps generalizing b with
  | nil => simp
  | cons p rest ih =>
    rw [List.foldl_cons, ih, isLeader_join]
    constructor
    · intro hor
      rcases hor with (heq | hb) | ⟨n, hn⟩
      · exact .inr ⟨p.2, by rw [← heq]; exact List.mem_cons_self⟩
      · exact .inl hb
      · exact .inr ⟨n, List.mem_cons_of_mem _ hn⟩
    · intro hor
      rcases hor with hb | ⟨n, hn⟩
      · exact .inl (.inr hb)
      · rcases List.mem_cons.mp hn with heq | hrest
        · exact .inl (.inl (by rw [← heq]))
        · exact .inr ⟨n, hrest⟩

theorem membersOf_join (b : Blocks) (leader : Address) (n : Node) (a : Address) :
    (b.join leader n).membersOf a = b.membersOf a ++ if leader = a then [n.start] else [] := by
  unfold membersOf join
  rw [Std.ExtTreeMap.getD_alter]
  simp only [Std.compare_eq_iff_eq]
  split
  next heq =>
    rw [heq, Option.getD_some, Array.toList_push, Std.ExtTreeMap.getD_eq_getD_getElem?]
  next => simp

theorem membersOf_foldl_join (ps : List (Address × Node)) (b : Blocks) (a : Address) :
    (ps.foldl (fun b p => b.join p.1 p.2) b).membersOf a =
      b.membersOf a ++ (ps.filter (·.1 = a)).map (·.2.start) := by
  induction ps generalizing b with
  | nil => simp
  | cons p rest ih =>
    rw [List.foldl_cons, ih, membersOf_join, List.filter_cons]
    by_cases heq : p.1 = a
    · simp [heq]
    · simp [heq]

theorem mem_toList {members : List Address} :
    (a, members) ∈ b.toList ↔ b.isLeader a = true ∧ members = b.membersOf a := by
  unfold toList isLeader membersOf
  rw [List.mem_map, Std.ExtTreeMap.getD_eq_getD_getElem?,
    ← Std.ExtTreeMap.isSome_getElem?_eq_contains]
  constructor
  · intro ⟨p, hp, heq⟩
    obtain ⟨rfl, rfl⟩ := Prod.mk.inj heq
    rw [Std.ExtTreeMap.mem_toList_iff_getElem?_eq_some.mp hp]
    exact ⟨rfl, rfl⟩
  · intro ⟨hsome, heq⟩
    obtain ⟨nodes, hget⟩ := Option.isSome_iff_exists.mp hsome
    rw [hget, Option.getD_some] at heq
    refine ⟨(a, nodes), Std.ExtTreeMap.mem_toList_iff_getElem?_eq_some.mpr hget, ?_⟩
    rw [heq]

theorem mem_leaders : a ∈ b.leaders ↔ b.isLeader a = true := by
  unfold leaders isLeader
  rw [Std.ExtTreeMap.mem_keys, Std.ExtTreeMap.mem_iff_contains]

end Blocks

namespace FlowGraph

variable {g h : FlowGraph} {leader x : Address}

theorem isLeader_blocks : g.blocks.isLeader leader = true ↔ ∃ n, (leader, n) ∈ g.placement := by
  have hnone : ({} : Blocks).isLeader leader = false := Std.ExtTreeMap.contains_empty
  rw [blocks_eq_foldl, Blocks.isLeader_foldl_join, hnone]
  simp

theorem membersOf_blocks (g : FlowGraph) (leader : Address) :
    g.blocks.membersOf leader = (g.placement.filter (·.1 = leader)).map (·.2.start) := by
  have hnone : ({} : Blocks).membersOf leader = [] := by
    unfold Blocks.membersOf
    rw [Std.ExtTreeMap.getD_empty]
  rw [blocks_eq_foldl, Blocks.membersOf_foldl_join, hnone, List.nil_append]

theorem mem_membersOf :
    x ∈ g.blocks.membersOf leader ↔ ∃ n, (leader, n) ∈ g.placement ∧ n.start = x := by
  rw [membersOf_blocks, List.mem_map]
  constructor
  · intro ⟨p, hp, hstart⟩
    rw [List.mem_filter, decide_eq_true_eq] at hp
    exact ⟨p.2, by rw [← hp.2]; exact hp.1, hstart⟩
  · intro ⟨n, hn, hstart⟩
    exact ⟨(leader, n), List.mem_filter.mpr ⟨hn, decide_eq_true rfl⟩, hstart⟩

/-- The leader comes first among the nodes of its block. -/
theorem membersOf_eq_cons {n : Node} (hd : Division g.placement) (hn : (leader, n) ∈ g.placement) :
    ∃ rest, g.blocks.membersOf leader = leader :: rest ∧ ∀ x ∈ rest, leader.toNat < x.toNat := by
  have hasc : (g.blocks.membersOf leader).Pairwise fun y z => y.toNat < z.toNat := by
    rw [membersOf_blocks, List.pairwise_map]
    exact hd.ascending.filter _
  obtain ⟨first, hfirst, hself, -⟩ := hd.leader_mem hn
  have hleader := mem_membersOf.mpr ⟨first, hfirst, hself⟩
  cases hlist : g.blocks.membersOf leader with
  | nil =>
    rw [hlist] at hleader
    cases hleader
  | cons y rest =>
    rw [hlist] at hasc hleader
    have hbehind := (List.pairwise_cons.mp hasc).1
    obtain ⟨n', hn', hstart⟩ :=
      mem_membersOf.mp (by rw [hlist]; exact List.mem_cons_self : y ∈ g.blocks.membersOf leader)
    obtain ⟨-, -, -, hle⟩ := hd.leader_mem hn'
    have hyle : leader.toNat ≤ y.toNat := by
      rw [← hstart]
      exact hle
    rcases List.mem_cons.mp hleader with heq | hrest
    · rw [← heq] at hbehind ⊢
      exact ⟨rest, rfl, hbehind⟩
    · have hlt := hbehind leader hrest
      omega

/-- The nodes behind the first one of a block are those with another leader than themselves. -/
theorem mem_tail_iff (hd : Division g.placement) :
    x ∈ (g.blocks.membersOf leader).tail ↔
      ∃ n, (leader, n) ∈ g.placement ∧ n.start = x ∧ x ≠ leader := by
  constructor
  · intro hx
    obtain ⟨n, hn, hstart⟩ := mem_membersOf.mp (List.mem_of_mem_tail hx)
    obtain ⟨rest, heq, hbehind⟩ := membersOf_eq_cons hd hn
    rw [heq, List.tail_cons] at hx
    have hlt := hbehind x hx
    exact ⟨n, hn, hstart, fun hself => by rw [hself] at hlt; omega⟩
  · intro ⟨n, hn, hstart, hne⟩
    have hmem := mem_membersOf.mpr ⟨n, hn, hstart⟩
    obtain ⟨rest, heq, -⟩ := membersOf_eq_cons hd hn
    rw [heq] at hmem ⊢
    exact (List.mem_cons.mp hmem).resolve_left hne

/-- Where nodes do not overlap, a block covers what its nodes cover. -/
theorem leaderOf?_blocks
    (hg : ∀ p ∈ g.placement, ∀ q ∈ g.placement, p.2.covers x = true → q.2.covers x = true → p = q) :
    g.blocks.leaderOf? x = some leader ↔ ∃ n, (leader, n) ∈ g.placement ∧ n.covers x = true := by
  have hnone : ({} : Blocks).leaderOf? x = none := Space.get_replicate none x
  rw [blocks_eq_foldl, Blocks.leaderOf?_foldl_join, hnone, Option.or_none, Option.map_eq_some_iff]
  constructor
  · intro ⟨p, hp, hleader⟩
    have hmem := List.mem_of_find?_eq_some hp
    have hx : p.2.covers x = true :=
      List.find?_some (p := fun p : Address × Node => p.2.covers x) hp
    rw [List.mem_reverse] at hmem
    exact ⟨p.2, by rw [← hleader]; exact hmem, hx⟩
  · intro ⟨n, hn, hx⟩
    cases hfind : g.placement.reverse.find? fun p => p.2.covers x with
    | none =>
      have hno := List.find?_eq_none.mp hfind (leader, n) (List.mem_reverse.mpr hn)
      exact absurd hx hno
    | some p =>
      have hmem := List.mem_of_find?_eq_some hfind
      have hpx : p.2.covers x = true :=
        List.find?_some (p := fun p : Address × Node => p.2.covers x) hfind
      rw [List.mem_reverse] at hmem
      have hsame := hg p hmem (leader, n) hn hpx hx
      exact ⟨p, rfl, by rw [hsame]⟩

/-! ### Names do not matter -/

theorem SameButNames.uncalledSuccessors_eq (hgh : SameButNames g h) :
    g.uncalledSuccessors = h.uncalledSuccessors := by
  have hcalled : ∀ a, (g.get? a).any (·.callers.isEmpty) = (h.get? a).any (·.callers.isEmpty) := by
    have hflag : ∀ o : Option Node,
        o.any (·.callers.isEmpty) = (o.map Node.anonymous).any (·.callers.isEmpty) := by
      intro o
      cases o <;> rfl
    intro a
    rw [hflag, hflag (h.get? a), hgh a]
  funext a
  have ha := hgh a
  unfold uncalledSuccessors
  simp only [hcalled]
  cases hg : g.get? a with
  | none =>
    rw [hg, Option.map_none, eq_comm, Option.map_eq_none_iff] at ha
    rw [ha]
  | some n =>
    obtain ⟨n', hn', heq⟩ := hgh.exists_node hg
    have hsucc : n'.successors = n.successors := by
      show n'.anonymous.successors = n.anonymous.successors
      rw [heq]
    rw [hn']
    simp only [hsucc]

theorem divide_congr (hu : g.uncalledSuccessors = h.uncalledSuccessors) (b : Blocks)
    (current : Option OpenBlock) (nodes : List Node) :
    g.divide b current nodes = h.divide b current nodes := by
  induction nodes generalizing b current with
  | nil => rfl
  | cons n rest ih =>
    have hblock : g.blockFor current n = h.blockFor current n := by
      unfold blockFor
      rw [hu]
    unfold divide
    rw [hblock, ih]

theorem divide_map_anonymous (g : FlowGraph) (b : Blocks) (current : Option OpenBlock)
    (nodes : List Node) :
    g.divide b current (nodes.map Node.anonymous) = g.divide b current nodes := by
  induction nodes generalizing b current with
  | nil => rfl
  | cons n rest ih =>
    exact ih (b.join (g.blockFor current n).leader n) (some (g.blockFor current n))

theorem SameButNames.blocks_eq (hgh : SameButNames g h) : g.blocks = h.blocks := by
  unfold blocks
  rw [divide_congr hgh.uncalledSuccessors_eq, ← divide_map_anonymous, hgh.toList_eq,
    divide_map_anonymous]

end FlowGraph

end Z80Atlas
