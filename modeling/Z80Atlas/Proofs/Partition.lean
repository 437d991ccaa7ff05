import Z80Atlas.Proofs.Blocks
import Z80Atlas.Proofs.Operations
import Z80Atlas.Proofs.Reach

/-!
# The division into blocks is the greedy one

Going up through the nodes, each one joins the block before it if it may, and starts a block of its
own otherwise.  `FlowGraph.Greedy` says this of a list of blocks.  No two lists of blocks for the
same nodes are greedy, and every step of the division keeps what has been put into blocks greedy.
-/

namespace Z80Atlas

namespace FlowGraph

variable {g : FlowGraph} {leader last x y : Address} {nodes members : List Address}
  {bs bs' : List (Address × List Address)} {p q : Address × List Address}

/-! ### Joining a block -/

/-- Control goes from the node at `x` into the node at `y`, which nothing calls. -/
def Enters (g : FlowGraph) (x y : Address) : Prop :=
  y ∈ (g.nodeAt x).successors ∧ g.contains y = true ∧ (g.nodeAt y).callers = #[]

theorem mem_uncalledSuccessors : y ∈ g.uncalledSuccessors x ↔ g.Enters x y := by
  unfold uncalledSuccessors Enters
  cases hx : g.get? x with
  | none => simp [nodeAt, hx]
  | some n =>
    dsimp only
    rw [nodeAt_eq hx, List.mem_filter, Array.mem_toList_iff]
    refine and_congr_right fun _ => ?_
    rw [contains_iff]
    cases hy : g.get? y with
    | none => simp
    | some n' => simp [nodeAt_eq hy]

theorem mem_reach_uncalledSuccessors :
    y ∈ reach g.uncalledSuccessors [x] ↔ Relation.ReflTransGen g.Enters x y := by
  have hstep : (fun a b => b ∈ g.uncalledSuccessors a) = g.Enters := by
    funext a b
    exact propext mem_uncalledSuccessors
  rw [mem_reach, hstep]
  simp

/-- The node at `y` may go on with the block of a leader, in which the node at `x` is the last
one. -/
structure Joins (g : FlowGraph) (leader x y : Address) : Prop where
  uncalled : (g.nodeAt y).callers = #[]
  full : (g.nodeAt y).isPlaceholder = false
  adjacent : y.toNat = (g.nodeAt x).stopAt
  reached : Relation.ReflTransGen g.Enters leader y

/-! ### Greedy blocks -/

/-- The nodes are in blocks, given by their first node and all their nodes: each node that may join
the block before it has done so, and no other. -/
structure Greedy (g : FlowGraph) (nodes : List Address) (bs : List (Address × List Address)) :
    Prop where
  whole : bs.flatMap (·.2) = nodes
  leads : ∀ p ∈ bs, p.2.head? = some p.1
  joined : ∀ p ∈ bs, p.2.IsChain (g.Joins p.1)
  maximal : bs.IsChain fun p q => ∃ last, p.2.getLast? = some last ∧ ¬g.Joins p.1 last q.1

namespace Greedy

theorem nil : g.Greedy [] [] := ⟨rfl, by simp, by simp, .nil⟩

theorem leader_mem (h : g.Greedy nodes bs) (hp : p ∈ bs) : p.1 ∈ nodes := by
  rw [← h.whole]
  exact List.mem_flatMap.mpr ⟨p, hp, List.mem_of_head? (h.leads p hp)⟩

theorem append_singleton_iff : g.Greedy nodes (bs ++ [p]) ↔
    bs.flatMap (·.2) ++ p.2 = nodes ∧ g.Greedy (bs.flatMap (·.2)) bs ∧ p.2.head? = some p.1 ∧
      p.2.IsChain (g.Joins p.1) ∧ ∀ q ∈ bs.getLast?, ∃ last, q.2.getLast? = some last ∧
      ¬g.Joins q.1 last p.1 := by
  constructor
  · intro h
    have hwhole := h.whole
    have hmax := h.maximal
    rw [List.flatMap_append, List.flatMap_singleton] at hwhole
    rw [List.isChain_append] at hmax
    refine ⟨hwhole, ⟨rfl, ?_, ?_, hmax.1⟩, h.leads p (by simp), h.joined p (by simp), ?_⟩
    · exact fun q hq => h.leads q (List.mem_append_left _ hq)
    · exact fun q hq => h.joined q (List.mem_append_left _ hq)
    · exact fun q hq => hmax.2.2 q hq p rfl
  · rintro ⟨hwhole, h, hfirst, hchain, hmax⟩
    refine ⟨?_, ?_, ?_, ?_⟩
    · rw [List.flatMap_append, List.flatMap_singleton, hwhole]
    · intro q hq
      rcases List.mem_append.mp hq with hq | hq
      · exact h.leads q hq
      · rw [List.mem_singleton.mp hq]
        exact hfirst
    · intro q hq
      rcases List.mem_append.mp hq with hq | hq
      · exact h.joined q hq
      · rw [List.mem_singleton.mp hq]
        exact hchain
    · rw [List.isChain_append]
      refine ⟨h.maximal, .singleton p, ?_⟩
      intro q hq r hr
      cases hr
      exact hmax q hq

/-- A node that may not join the last block starts one. -/
theorem start (h : g.Greedy nodes bs)
    (hx : ∀ p ∈ bs.getLast?, ∃ last, p.2.getLast? = some last ∧ ¬g.Joins p.1 last x) :
    g.Greedy (nodes ++ [x]) (bs ++ [(x, [x])]) := by
  rw [append_singleton_iff, h.whole]
  exact ⟨rfl, h, rfl, .singleton x, hx⟩

/-- A node that may join the last block does. -/
theorem extend (h : g.Greedy nodes (bs ++ [(leader, members)]))
    (hlast : members.getLast? = some last) (hx : g.Joins leader last x) :
    g.Greedy (nodes ++ [x]) (bs ++ [(leader, members ++ [x])]) := by
  obtain ⟨hwhole, hbefore, hfirst, hchain, hmax⟩ := append_singleton_iff.mp h
  refine append_singleton_iff.mpr ⟨?_, hbefore, ?_, ?_, hmax⟩
  · rw [← List.append_assoc, hwhole]
  · rw [List.head?_append, hfirst]
    rfl
  · rw [List.isChain_append]
    refine ⟨hchain, .singleton x, ?_⟩
    intro y hy z hz
    rw [hlast] at hy
    cases hy
    cases hz
    exact hx

theorem tail (h : g.Greedy nodes (p :: bs)) : g.Greedy (bs.flatMap (·.2)) bs :=
  ⟨rfl, fun q hq => h.leads q (List.mem_cons_of_mem p hq),
    fun q hq => h.joined q (List.mem_cons_of_mem p hq), h.maximal.tail⟩

/-- A block does not end where a greedy division of the same nodes goes on with it. -/
theorem append_eq_nil (h : g.Greedy nodes (p :: bs)) {rest rest' : List Address}
    (hq : (p.2 ++ rest).IsChain (g.Joins p.1)) (hrest : bs.flatMap (·.2) = rest ++ rest') :
    rest = [] := by
  cases rest with
  | nil => rfl
  | cons y rest =>
    cases bs with
    | nil => cases hrest
    | cons q bs =>
      obtain ⟨⟨last, hlast, hno⟩, -⟩ := List.isChain_cons_cons.mp h.maximal
      have hfirst := h.leads q (by simp)
      have hy : q.1 = y := by
        rw [List.flatMap_cons, List.cons_append] at hrest
        have hhead := congrArg List.head? hrest
        rw [List.head?_append, hfirst] at hhead
        exact Option.some.inj hhead
      rw [List.isChain_append] at hq
      rw [hy] at hno
      exact absurd (hq.2.2 last hlast y rfl) hno

theorem unique (h : g.Greedy nodes bs) (h' : g.Greedy nodes bs') : bs = bs' := by
  induction bs generalizing nodes bs' with
  | nil =>
    cases bs' with
    | nil => rfl
    | cons q bs' =>
      have hmem := h'.leader_mem List.mem_cons_self
      rw [← h.whole] at hmem
      cases hmem
  | cons p bs ih =>
    cases bs' with
    | nil =>
      have hmem := h.leader_mem List.mem_cons_self
      rw [← h'.whole] at hmem
      cases hmem
    | cons q bs' =>
      have hfirst := h.leads p List.mem_cons_self
      have hfirst' := h'.leads q List.mem_cons_self
      have hwhole := h.whole.trans h'.whole.symm
      rw [List.flatMap_cons, List.flatMap_cons] at hwhole
      have hleader : p.1 = q.1 := by
        have hhead := congrArg List.head? hwhole
        rw [List.head?_append, List.head?_append, hfirst, hfirst'] at hhead
        exact Option.some.inj hhead
      -- Of the two first blocks one goes on where the other one ends, so they end at the same node.
      have hmembers : p.2 = q.2 := by
        rcases List.append_eq_append_iff.mp hwhole with ⟨rest, hq, hrest⟩ | ⟨rest, hp, hrest⟩
        · have hchain := h'.joined q List.mem_cons_self
          rw [hq, ← hleader] at hchain
          rw [hq, h.append_eq_nil hchain hrest, List.append_nil]
        · have hchain := h.joined p List.mem_cons_self
          rw [hp, hleader] at hchain
          rw [hp, h'.append_eq_nil hchain hrest, List.append_nil]
      have hpq : p = q := Prod.ext hleader hmembers
      subst hpq
      have htail := h'.tail
      rw [← List.append_cancel_left hwhole] at htail
      rw [ih h.tail htail]

/-- The blocks of ascending nodes ascend. -/
theorem ascending (h : g.Greedy nodes bs) (hasc : nodes.Pairwise fun x y => x.toNat < y.toNat) :
    (∀ p ∈ bs, p.2.Pairwise fun x y => x.toNat < y.toNat) ∧
      bs.Pairwise fun p q => ∀ x ∈ p.2, ∀ y ∈ q.2, x.toNat < y.toNat := by
  rw [← h.whole] at hasc
  exact List.pairwise_flatMap.mp hasc

theorem existsUnique (h : g.Greedy nodes bs) (hasc : nodes.Pairwise fun x y => x.toNat < y.toNat)
    (hx : x ∈ nodes) :
    ∃! p, p ∈ bs ∧ x ∈ p.2 := by
  rw [← h.whole] at hx
  obtain ⟨p, hp, hxp⟩ := List.mem_flatMap.mp hx
  refine ⟨p, ⟨hp, hxp⟩, ?_⟩
  intro q ⟨hq, hxq⟩
  by_contra hne
  have hapart : bs.Pairwise fun p q => ¬(x ∈ p.2 ∧ x ∈ q.2) := by
    refine (h.ascending hasc).2.imp ?_
    intro p q hlt ⟨hxp, hxq⟩
    have hself := hlt x hxp x hxq
    omega
  have hsymm : Std.Symm fun p q : Address × List Address => ¬(x ∈ p.2 ∧ x ∈ q.2) :=
    ⟨fun _ _ hno hqp => hno hqp.symm⟩
  exact hapart.forall hq hp hne ⟨hxq, hxp⟩

end Greedy

end FlowGraph

/-! ### Lists of blocks -/

namespace Blocks

variable {b : Blocks} {leader : Address} {members : List Address}
  {bs : List (Address × List Address)} {n : Node}

theorem toList_ascending (b : Blocks) : b.toList.Pairwise fun p q => p.1.toNat < q.1.toNat := by
  unfold toList
  rw [List.pairwise_map]
  refine Std.ExtTreeMap.ordered_keys_toList.imp ?_
  intro p q hlt
  exact UInt16.lt_iff_toNat_lt.mp (Std.compare_eq_lt.mp hlt)

theorem toList_eq (hasc : bs.Pairwise fun p q => p.1.toNat < q.1.toNat)
    (hbs : ∀ a members, (a, members) ∈ bs ↔ b.isLeader a = true ∧ members = b.membersOf a) :
    b.toList = bs := by
  have hirrefl : Std.Irrefl fun p q : Address × List Address => p.1.toNat < q.1.toNat :=
    ⟨fun _ => Nat.lt_irrefl _⟩
  have hantisymm : Std.Antisymm fun p q : Address × List Address => p.1.toNat < q.1.toNat :=
    ⟨fun _ _ hpq hqp => absurd hpq (Nat.lt_asymm hqp)⟩
  refine b.toList_ascending.eq_of_mem_iff hasc ?_
  intro p
  rw [hbs, mem_toList]

theorem membersOf_eq_nil (h : b.isLeader leader = false) : b.membersOf leader = [] := by
  unfold isLeader at h
  unfold membersOf
  rw [Std.ExtTreeMap.getD_eq_fallback_of_contains_eq_false h]

/-- A node behind all blocks is put into one of its own. -/
theorem toList_join_start (hlt : ∀ p ∈ b.toList, p.1.toNat < leader.toNat) :
    (b.join leader n).toList = b.toList ++ [(leader, [n.start])] := by
  have hnew : b.isLeader leader = false := by
    refine eq_false_of_ne_true fun hl => ?_
    exact Nat.lt_irrefl leader.toNat (hlt _ (mem_toList.mpr ⟨hl, rfl⟩))
  refine toList_eq ?_ ?_
  · rw [List.pairwise_append]
    refine ⟨b.toList_ascending, List.pairwise_singleton _ _, ?_⟩
    intro p hp q hq
    rw [List.mem_singleton.mp hq]
    exact hlt p hp
  · intro a members
    rw [List.mem_append, List.mem_singleton, Prod.mk.injEq, mem_toList, isLeader_join,
      membersOf_join]
    by_cases ha : leader = a
    · rw [← ha, hnew, membersOf_eq_nil hnew]
      simp
    · simp [ha, Ne.symm ha]

/-- A node is put into the last block. -/
theorem toList_join_extend (hb : b.toList = bs ++ [(leader, members)]) :
    (b.join leader n).toList = bs ++ [(leader, members ++ [n.start])] := by
  have hasc := b.toList_ascending
  rw [hb, List.pairwise_append] at hasc
  obtain ⟨-, hmembers⟩ := mem_toList.mp (by rw [hb]; simp : (leader, members) ∈ b.toList)
  refine toList_eq ?_ ?_
  · rw [List.pairwise_append]
    refine ⟨hasc.1, List.pairwise_singleton _ _, ?_⟩
    intro p hp q hq
    rw [List.mem_singleton.mp hq]
    exact hasc.2.2 p hp (leader, members) (by simp)
  · intro a others
    have hold : (a, others) ∈ bs ++ [(leader, members)] ↔
        b.isLeader a = true ∧ others = b.membersOf a := by
      rw [← hb, mem_toList]
    rw [List.mem_append, List.mem_singleton, Prod.mk.injEq] at hold ⊢
    rw [isLeader_join, membersOf_join]
    by_cases ha : leader = a
    · have hnone : (a, others) ∉ bs := by
        intro hmem
        have hlt := hasc.2.2 _ hmem (leader, members) (by simp)
        rw [ha] at hlt
        exact Nat.lt_irrefl a.toNat hlt
      rw [if_pos ha, ← ha, ← hmembers]
      constructor
      · rintro (hmem | ⟨-, hothers⟩)
        · exact absurd (ha ▸ hmem) hnone
        · exact ⟨.inl rfl, hothers⟩
      · rintro ⟨-, hothers⟩
        exact .inr ⟨rfl, hothers⟩
    · simp only [ha, Ne.symm ha, false_and, or_false, false_or, if_false, List.append_nil] at hold ⊢
      exact hold

end Blocks

/-! ### The division -/

namespace FlowGraph

variable {g : FlowGraph} {b : Blocks} {current : Option OpenBlock} {nodes : List Address} {n : Node}

/-- The block that is open is the last one. -/
inductive Opens (g : FlowGraph) : Option OpenBlock → List (Address × List Address) → Prop
  | none : Opens g none []
  | some {o : OpenBlock} {bs : List (Address × List Address)} {members : List Address}
      {last : Address} (hlast : members.getLast? = some last)
      (hstop : o.stopAt = (g.nodeAt last).stopAt)
      (hreached : ∀ y, y ∈ o.reached ↔ Relation.ReflTransGen g.Enters o.leader y) :
      Opens g (some o) (bs ++ [(o.leader, members)])

theorem continuesWith_iff {o : OpenBlock} {last : Address}
    (hstop : o.stopAt = (g.nodeAt last).stopAt)
    (hreached : ∀ y, y ∈ o.reached ↔ Relation.ReflTransGen g.Enters o.leader y)
    (hn : g.nodeAt n.start = n) :
    o.continuesWith n = true ↔ g.Joins o.leader last n.start := by
  unfold OpenBlock.continuesWith
  simp only [Bool.and_eq_true, Bool.not_eq_true', beq_iff_eq, decide_eq_true_eq, Array.isEmpty_iff,
    hstop, hreached]
  constructor
  · intro ⟨⟨⟨hc, hf⟩, hs⟩, hr⟩
    rw [← hn] at hc hf
    exact ⟨hc, hf, hs, hr⟩
  · intro ⟨hc, hf, hs, hr⟩
    rw [hn] at hc hf
    exact ⟨⟨⟨hc, hf⟩, hs⟩, hr⟩

/-- Putting the next node into a block keeps the blocks greedy. -/
theorem Greedy.join (hb : g.Greedy nodes b.toList) (ho : g.Opens current b.toList)
    (hn : g.nodeAt n.start = n) (hlt : ∀ x ∈ nodes, x.toNat < n.start.toNat) :
    g.Greedy (nodes ++ [n.start]) (b.join (g.blockFor current n).leader n).toList ∧
      g.Opens (some (g.blockFor current n)) (b.join (g.blockFor current n).leader n).toList := by
  have hstop : n.stopAt = (g.nodeAt n.start).stopAt := by rw [hn]
  generalize hlist : b.toList = list at hb ho
  rcases g.blockFor_cases current n with ⟨o, rfl, hgo, hblock⟩ | ⟨hno, hblock⟩
  · -- The node joins the open block.
    cases ho with
    | some hlast hs hreached =>
      rw [hblock, Blocks.toList_join_extend hlist]
      refine ⟨hb.extend hlast ((continuesWith_iff hs hreached hn).mp hgo), ?_⟩
      exact .some (o := { o with stopAt := n.stopAt }) List.getLast?_concat hstop hreached
  · -- The node starts a block.
    have hbehind : ∀ p ∈ b.toList, p.1.toNat < n.start.toNat := by
      rw [hlist]
      exact fun p hp => hlt p.1 (hb.leader_mem hp)
    rw [hblock, Blocks.toList_join_start hbehind, hlist]
    refine ⟨hb.start ?_, ?_⟩
    · intro p hp
      cases ho with
      | none => cases hp
      | some hlast hs hreached =>
        rw [List.getLast?_concat] at hp
        cases hp
        refine ⟨_, hlast, fun hjoins => ?_⟩
        have hgo := (continuesWith_iff hs hreached hn).mpr hjoins
        rw [hno _ rfl] at hgo
        cases hgo
    · exact .some rfl hstop fun y => mem_reach_uncalledSuccessors

theorem Greedy.divide (rest : List Node) (hb : g.Greedy nodes b.toList)
    (ho : g.Opens current b.toList) (hrest : ∀ n ∈ rest, g.nodeAt n.start = n)
    (hasc : (nodes ++ rest.map (·.start)).Pairwise fun x y => x.toNat < y.toNat) :
    g.Greedy (nodes ++ rest.map (·.start)) (g.divide b current rest).toList := by
  induction rest generalizing nodes b current with
  | nil =>
    rw [List.map_nil, List.append_nil]
    exact hb
  | cons n rest ih =>
    rw [List.map_cons, List.append_cons] at hasc ⊢
    have hlt : ∀ x ∈ nodes, x.toNat < n.start.toNat := by
      rw [List.append_assoc, List.pairwise_append] at hasc
      exact fun x hx => hasc.2.2 x hx n.start (by simp)
    obtain ⟨hb', ho'⟩ := hb.join ho (hrest n List.mem_cons_self) hlt
    exact ih hb' ho' (fun n' hn' => hrest n' (List.mem_cons_of_mem n hn')) hasc

theorem map_start_toList (hg : ∀ {a n}, g.get? a = some n → n.start = a) :
    g.toList.map (·.start) = g.addresses := by
  unfold toList addresses
  rw [List.map_map, ← Std.ExtTreeMap.map_fst_toList_eq_keys]
  refine List.map_congr_left ?_
  intro p hp
  exact hg (Std.ExtTreeMap.mem_toList_iff_getElem?_eq_some.mp hp)

theorem addresses_ascending (g : FlowGraph) :
    g.addresses.Pairwise fun x y => x.toNat < y.toNat := by
  refine Std.ExtTreeMap.ordered_keys.imp ?_
  intro x y hlt
  exact UInt16.lt_iff_toNat_lt.mp (Std.compare_eq_lt.mp hlt)

theorem greedy_blocks (hg : ∀ {a n}, g.get? a = some n → n.start = a) :
    g.Greedy g.addresses g.blocks.toList := by
  have hnone : ({} : Blocks).toList = [] := rfl
  have hnodes : ∀ n ∈ g.toList, g.nodeAt n.start = n := by
    intro n hn
    obtain ⟨a, ha⟩ := mem_toList.mp hn
    rw [hg ha]
    exact nodeAt_eq ha
  have hbegin : g.Greedy [] ({} : Blocks).toList := by
    rw [hnone]
    exact .nil
  have hopens : g.Opens none ({} : Blocks).toList := by
    rw [hnone]
    exact .none
  have hdivide := hbegin.divide g.toList hopens hnodes
  rw [List.nil_append, map_start_toList hg] at hdivide
  exact hdivide g.addresses_ascending

/-! ### What blocks cover -/

/-- No address is covered by two nodes. -/
def Apart (g : FlowGraph) : Prop :=
  ∀ {x y n n'}, g.get? x = some n → g.get? y = some n' → ∀ a, n.covers a = true →
  n'.covers a = true → x = y

theorem Apart.leaderOf?_iff (hapart : g.Apart) (hg : ∀ {a n}, g.get? a = some n → n.start = a)
    (a l : Address) :
    g.blocks.leaderOf? a = some l ↔
      ∃ p ∈ g.blocks.toList, p.1 = l ∧ ∃ x ∈ p.2, (g.nodeAt x).covers a = true := by
  have hplaced : ∀ p ∈ g.placement, g.get? p.2.start = some p.2 := by
    intro p hp
    obtain ⟨x, hx⟩ :=
      mem_toList.mp (by rw [← map_snd_placement]; exact List.mem_map_of_mem hp : p.2 ∈ g.toList)
    rw [hg hx]
    exact hx
  rw [leaderOf?_blocks]
  · constructor
    · intro ⟨n, hn, ha⟩
      refine ⟨(l, g.blocks.membersOf l), Blocks.mem_toList.mpr ⟨isLeader_blocks.mpr ⟨n, hn⟩, rfl⟩,
        rfl, n.start, ?_, ?_⟩
      · exact mem_membersOf.mpr ⟨n, hn, rfl⟩
      · rw [nodeAt_eq (hplaced (l, n) hn)]
        exact ha
    · intro ⟨p, hp, hl, x, hx, ha⟩
      obtain ⟨-, hmembers⟩ := Blocks.mem_toList.mp hp
      rw [hmembers, hl] at hx
      obtain ⟨n, hn, hstart⟩ := mem_membersOf.mp hx
      rw [← hstart, nodeAt_eq (hplaced (l, n) hn)] at ha
      exact ⟨n, hn, ha⟩
  · intro p hp q hq hpa hqa
    exact (division_placement (toList_ascending hg)).eq_of_start hp hq
      (hapart (hplaced p hp) (hplaced q hq) a hpa hqa)

theorem leaderOf?_eq_none (g : FlowGraph) (a : Address) :
    g.blocks.leaderOf? a = none ↔ ∀ {x n}, g.get? x = some n → n.covers a = false := by
  have hnone : ({} : Blocks).leaderOf? a = none := Space.get_replicate none a
  rw [blocks_eq_foldl, Blocks.leaderOf?_foldl_join, hnone, Option.or_none, Option.map_eq_none_iff,
    List.find?_eq_none]
  constructor
  · intro hno x n hn
    have hmem : n ∈ g.placement.map (·.2) := by
      rw [map_snd_placement]
      exact mem_toList.mpr ⟨x, hn⟩
    obtain ⟨p, hp, rfl⟩ := List.mem_map.mp hmem
    exact eq_false_of_ne_true (hno p (List.mem_reverse.mpr hp))
  · intro hno p hp
    have hmem : p.2 ∈ g.toList := by
      rw [← map_snd_placement]
      exact List.mem_map_of_mem (List.mem_reverse.mp hp)
    obtain ⟨x, hx⟩ := mem_toList.mp hmem
    rw [hno hx]
    exact Bool.false_ne_true

/-- The blocks are the greedy ones, each node is in one of them, and they cover what their nodes
cover. -/
structure Partitioned (g : FlowGraph) (b : Blocks) : Prop where
  greedy : g.Greedy g.addresses b.toList
  only : ∀ bs, g.Greedy g.addresses bs → bs = b.toList
  once : ∀ x, g.contains x = true → ∃! p, p ∈ b.toList ∧ x ∈ p.2
  ascending : ∀ p ∈ b.toList, p.2.Pairwise fun x y => x.toNat < y.toNat
  covering : g.Apart → ∀ a l,
    b.leaderOf? a = some l ↔ ∃ p ∈ b.toList, p.1 = l ∧ ∃ x ∈ p.2, (g.nodeAt x).covers a = true
  uncovered : ∀ a, b.leaderOf? a = none ↔ ∀ {x n}, g.get? x = some n → n.covers a = false

/-- The blocks are the one greedy division of the nodes.  Each node is in one block, and where nodes
are apart, look-up finds the block of the node that covers an address. -/
theorem blocks_partitioned (hg : g.Built) : g.Partitioned g.blocks := by
  have hstart : ∀ {a n}, g.get? a = some n → n.start = a := hg.synced.start
  have hgreedy := greedy_blocks hstart
  have hasc := g.addresses_ascending
  refine ⟨hgreedy, ?_, ?_, (hgreedy.ascending hasc).1, ?_, leaderOf?_eq_none g⟩
  · intro bs hbs
    exact hbs.unique hgreedy
  · intro x hx
    exact hgreedy.existsUnique hasc (mem_addresses.mpr hx)
  · intro hapart
    exact hapart.leaderOf?_iff hstart

/-- A loop of two nodes, with two more behind it of which the first is called from the loop. -/
def callingOnward : FlowGraph :=
  ([.addBranch 0x100 0x102, .addBranch 0x102 0x100, .addBranch 0x102 0x104, .addBranch 0x104 0x106,
    .setCallee 0x102 0x104] : List Operation).foldl operate {} |>.mapNodes fun n =>
      { n with length := 2 }

theorem blocks_partitioned_callingOnward :
    callingOnward.Built ∧ callingOnward.Partitioned callingOnward.blocks ∧ callingOnward.Apart ∧
      callingOnward.blocks.toList = [(0x100, [0x100, 0x102]), (0x104, [0x104, 0x106])] ∧
      callingOnward.blocks.leaderOf? 0x107 = some 0x104 := by
  have hbuilt : callingOnward.Built := (built_foldl_operate _ .empty).mapNodes fun _ => rfl
  have hblocks := blocks_partitioned hbuilt
  have happart : callingOnward.Apart := by
    have hlist : callingOnward.addresses = [0x100, 0x102, 0x104, 0x106] := by decide
    have heven : ∀ x ∈ callingOnward.addresses, x.toNat % 2 = 0 := by
      intro x hx
      simp only [hlist, List.mem_cons, List.not_mem_nil, or_false] at hx
      rcases hx with rfl | rfl | rfl | rfl <;> rfl
    have hnode : ∀ {x n}, callingOnward.get? x = some n → x.toNat % 2 = 0 ∧ n.start = x ∧
        n.length = 2 := by
      intro x n hn
      refine ⟨heven x (mem_addresses.mpr (contains_iff.mpr ⟨n, hn⟩)), hbuilt.synced.start hn, ?_⟩
      rw [callingOnward, get?_mapNodes, Option.map_eq_some_iff] at hn
      obtain ⟨n', -, rfl⟩ := hn
      rfl
    intro x y n n' hn hn' a ha ha'
    obtain ⟨hx, hstart, hlength⟩ := hnode hn
    obtain ⟨hy, hstart', hlength'⟩ := hnode hn'
    rw [Node.covers_iff, hstart, hlength] at ha
    rw [Node.covers_iff, hstart', hlength'] at ha'
    apply UInt16.toNat_inj.mp
    omega
  have hgreedy : callingOnward.Greedy callingOnward.addresses
      [(0x100, [0x100, 0x102]), (0x104, [0x104, 0x106])] := by
    have hfirst : callingOnward.Joins 0x100 0x100 0x102 :=
      ⟨by decide +kernel, by decide +kernel, by decide +kernel,
        .single ⟨by decide +kernel, by decide, by decide +kernel⟩⟩
    have hsecond : callingOnward.Joins 0x104 0x104 0x106 :=
      ⟨by decide +kernel, by decide +kernel, by decide +kernel,
        .single ⟨by decide +kernel, by decide, by decide +kernel⟩⟩
    have hcalled : (callingOnward.nodeAt 0x104).callers ≠ #[] := by decide +kernel
    refine ⟨by decide, by decide, ?_, ?_⟩
    · intro p hp
      rcases List.mem_cons.mp hp with rfl | hp
      · exact .cons_cons hfirst (.singleton _)
      · rw [List.mem_singleton.mp hp]
        exact .cons_cons hsecond (.singleton _)
    · exact .cons_cons ⟨0x102, rfl, fun hjoins => hcalled hjoins.uncalled⟩ (.singleton _)
  have hlist := hblocks.only _ hgreedy
  refine ⟨hbuilt, hblocks, happart, hlist.symm, ?_⟩
  refine (hblocks.covering happart 0x107 0x104).mpr ⟨(0x104, [0x104, 0x106]), ?_, rfl,
    0x106, ?_, ?_⟩
  · rw [← hlist]
    exact List.mem_cons_of_mem _ List.mem_cons_self
  · exact List.mem_cons_of_mem _ List.mem_cons_self
  · decide +kernel

end FlowGraph

end Z80Atlas
