import Z80Atlas.Proofs.Additions
import Z80Atlas.Proofs.Partition

/-!
# Local names are numbered without gaps

In a block that has a label, the nodes behind the leader to which control jumps are named under that
label: those to which control comes back from further down in the block as loops, the others as
plain targets.  Each kind is counted on its own, in ascending order and from one on.  The nodes with
a label from before are not counted, and the nodes into which control only goes on get no name.
-/

namespace Z80Atlas.FlowGraph

variable {g : FlowGraph} {stems : Stems} {block : String} {nodes members : List Address}
variable {a p x leader : Address} {n : Node} {role : Role} {k : Nat}

/-! ### Why a node needs a name -/

/-- Control goes from the node at `p` into the node at `x` other than by going on. -/
def JumpsFrom (g : FlowGraph) (p x : Address) : Prop :=
  p ∈ (g.nodeAt x).predecessors ∧ (g.nodeAt p).fallsInto (g.nodeAt x) = false

/-- Control comes back to the node at `x` from the same place or further down in its block. -/
def LoopRoot (g : FlowGraph) (x : Address) : Prop :=
  ∃ p, g.JumpsFrom p x ∧ x.toNat ≤ p.toNat ∧ g.blocks.together p x = true

/-- Control enters the node at `x` by a call or a jump. -/
def Entered (g : FlowGraph) (x : Address) : Prop :=
  (g.nodeAt x).callers ≠ #[] ∨ ∃ p, g.JumpsFrom p x

theorem mem_jumpsTo (hg : g.Built) (hn : g.get? x = some n) :
    p ∈ g.jumpsTo n ↔ g.JumpsFrom p x := by
  unfold jumpsTo JumpsFrom
  rw [List.mem_filter, Array.mem_toList_iff, nodeAt_eq hn]
  refine and_congr_right fun hp => ?_
  -- What leads to a node is a node.
  obtain ⟨n', hn'⟩ := contains_iff.mp (hg.synced.closed hn p (by simp [Node.neighbours, hp]))
  rw [nodeAt_eq hn', hn']
  simp

theorem any_jumpsTo (hg : g.Built) (hn : g.get? x = some n) :
    ((g.jumpsTo n).any fun p => n.start ≤ p && g.blocks.together p n.start) = true ↔
      g.LoopRoot x := by
  rw [hg.synced.start hn, List.any_eq_true]
  simp only [mem_jumpsTo hg hn, Bool.and_eq_true, decide_eq_true_eq, UInt16.le_iff_toNat_le]
  rfl

theorem entered_iff (hg : g.Built) (hn : g.get? x = some n) :
    (!n.callers.isEmpty || !(g.jumpsTo n).isEmpty) = true ↔ g.Entered x := by
  have hjumps : (!(g.jumpsTo n).isEmpty) = true ↔ ∃ p, g.JumpsFrom p x := by
    simp only [← mem_jumpsTo hg hn, Bool.not_eq_true', List.isEmpty_eq_false_iff_exists_mem]
  unfold Entered
  rw [Bool.or_eq_true, hjumps, nodeAt_eq hn]
  simp

theorem roleOf?_eq_loop (hg : g.Built) (hn : g.get? x = some n) :
    g.roleOf? g.blocks n = some .loop ↔ n.label = none ∧ g.LoopRoot x := by
  rw [← any_jumpsTo hg hn]
  unfold roleOf?
  cases n.label with
  | some name => simp
  | none =>
    rw [if_neg (by simp)]
    split
    next hloop => simp [hloop]
    next hloop => split <;> simp [hloop]

theorem roleOf?_eq_target (hg : g.Built) (hn : g.get? x = some n) :
    g.roleOf? g.blocks n = some .target ↔ n.label = none ∧ g.Entered x ∧ ¬g.LoopRoot x := by
  rw [← any_jumpsTo hg hn, ← entered_iff hg hn]
  unfold roleOf?
  cases n.label with
  | some name => simp
  | none =>
    rw [if_neg (by simp)]
    split
    next hloop => simp [hloop]
    next hloop =>
      split
      next hentered => simp [hloop, hentered]
      next hentered => simp [hentered]

theorem roleOf?_nameLeaders (g : FlowGraph) (b : Blocks) (stems : Stems) (n : Node) :
    (g.nameLeaders b stems).roleOf? b n = g.roleOf? b n := by
  unfold roleOf?
  rw [(sameButNames_nameLeaders g b stems).jumpsTo_eq n]

/-! ### The nodes that are counted -/

/-- The nodes of a block that are counted for a reason: those behind the leader that need a name for
it.  Naming the leaders makes no difference to them. -/
theorem mem_needy (hd : Division g.placement) :
    x ∈ (g.nameLeaders g.blocks stems).needy g.blocks leader role ↔
      x ∈ (g.blocks.membersOf leader).tail ∧ ∃ n, g.get? x = some n ∧
      g.roleOf? g.blocks n = some role := by
  unfold needy withRole
  rw [List.mem_filter, decide_eq_true_eq, Option.bind_eq_some_iff]
  simp only [roleOf?_nameLeaders]
  refine and_congr_right fun htail => ?_
  rw [get?_nameLeaders, isLeader_eq_false_of_mem_tail hd htail, if_neg Bool.false_ne_true]

theorem exists_node_of_mem_tail (hg : g.Built) (htail : x ∈ (g.blocks.membersOf leader).tail) :
    ∃ n, g.get? x = some n := by
  obtain ⟨n, hn, hstart⟩ := mem_membersOf.mp (List.mem_of_mem_tail htail)
  have hmem : n ∈ g.toList := by
    rw [← map_snd_placement]
    exact List.mem_map_of_mem hn
  obtain ⟨y, hy⟩ := mem_toList.mp hmem
  have hplace : y = x := (hg.synced.start hy).symm.trans hstart
  exact ⟨n, hplace ▸ hy⟩

theorem mem_needy_loop (hg : g.Built) :
    x ∈ (g.nameLeaders g.blocks stems).needy g.blocks leader .loop ↔
      x ∈ (g.blocks.membersOf leader).tail ∧ g.labelAt? x = none ∧ g.LoopRoot x := by
  rw [mem_needy (division_placement (toList_ascending hg.synced.start))]
  refine and_congr_right fun htail => ?_
  obtain ⟨n, hn⟩ := exists_node_of_mem_tail hg htail
  simp [hn, roleOf?_eq_loop hg hn, labelAt?_eq hn]

theorem mem_needy_target (hg : g.Built) :
    x ∈ (g.nameLeaders g.blocks stems).needy g.blocks leader .target ↔
      x ∈ (g.blocks.membersOf leader).tail ∧ g.labelAt? x = none ∧ g.Entered x ∧ ¬g.LoopRoot x := by
  rw [mem_needy (division_placement (toList_ascending hg.synced.start))]
  refine and_congr_right fun htail => ?_
  obtain ⟨n, hn⟩ := exists_node_of_mem_tail hg htail
  simp [hn, roleOf?_eq_target hg hn, labelAt?_eq hn]

theorem ascending_needy (hg : g.Built) (leader : Address) (role : Role) :
    ((g.nameLeaders g.blocks stems).needy g.blocks leader role).Pairwise fun x y =>
      x.toNat < y.toNat := by
  have hmembers : (g.blocks.membersOf leader).Pairwise fun x y => x.toNat < y.toNat := by
    rw [membersOf_blocks, List.pairwise_map]
    exact (division_placement (toList_ascending hg.synced.start)).ascending.filter _
  exact (hmembers.sublist (List.tail_sublist _)).filter _

/-! ### Giving the names -/

theorem labelAt?_foldl_setLabel_of_mem {names : List (Address × String)} {name : String}
    (hd : (names.map (·.1)).Nodup) (hmem : (a, name) ∈ names) (hn : g.contains a = true) :
    (names.foldl (fun g p => g.setLabel p.1 p.2) g).labelAt? a = some name := by
  induction names generalizing g with
  | nil => cases hmem
  | cons p rest ih =>
    rw [List.map_cons, List.nodup_cons] at hd
    rcases List.mem_cons.mp hmem with heq | hrest
    · obtain ⟨n, hn⟩ := contains_iff.mp hn
      rw [← heq] at hd ⊢
      have hlater : ∀ q ∈ rest, q.1 ≠ a := fun q hq hsame => hd.1 (List.mem_map.mpr ⟨q, hq, hsame⟩)
      rw [List.foldl_cons, labelAt?_foldl_setLabel hlater, labelAt?_setLabel, if_pos rfl, hn]
      rfl
    · refine ih hd.2 hrest ?_
      unfold setLabel
      rw [contains_modify]
      exact hn

/-- Blocks have no nodes in common and no node has two reasons, so no node is given two names. -/
theorem nodup_names (hg : g.Built) (stems : Stems) :
    ((g.blocks.toList.flatMap fun p =>
      (g.nameLeaders g.blocks stems).interiorNames g.blocks stems p.1 p.2).map (·.1)).Nodup := by
  have hblocks := (greedy_blocks hg.synced.start).ascending g.addresses_ascending
  rw [List.map_flatMap, List.nodup_flatMap]
  simp only [map_fst_interiorNames]
  have hin : ∀ {q : Address × List Address} {y},
      y ∈ (g.nameLeaders g.blocks stems).withRole g.blocks .loop q.2.tail ++
        (g.nameLeaders g.blocks stems).withRole g.blocks .target q.2.tail → y ∈ q.2 := by
    intro q y hy
    refine List.mem_of_mem_tail ?_
    rcases List.mem_append.mp hy with hy | hy
    · exact (List.mem_filter.mp hy).1
    · exact (List.mem_filter.mp hy).1
  constructor
  · intro q hq
    have htail : q.2.tail.Nodup :=
      nodup_of_ascending ((hblocks.1 q hq).sublist (List.tail_sublist _))
    rw [List.nodup_append]
    refine ⟨htail.filter _, htail.filter _, ?_⟩
    intro y hy z hz heq
    have hloop := of_decide_eq_true (List.mem_filter.mp hy).2
    have htarget := of_decide_eq_true (List.mem_filter.mp hz).2
    rw [heq, htarget] at hloop
    cases hloop
  · refine hblocks.2.imp ?_
    intro q r hlt y hy hz
    exact Nat.lt_irrefl _ (hlt y (hin hy) y (hin hz))

theorem getElem?_numbered (stem : String) (nodes : List Address) (k : Nat) :
    (numbered stem nodes)[k]? = nodes[k]?.map fun a => (a, stem ++ toString (k + 1)) := by
  unfold numbered
  rw [List.getElem?_map, List.getElem?_zipIdx, Option.map_map, Nat.add_comm 1 k]
  rfl

theorem loopNames_eq_numbered (stem : String) (h : nodes.length ≠ 1) :
    loopNames stem nodes = numbered stem nodes := by
  unfold loopNames
  split
  · exact absurd rfl h
  · rfl

/-- A name that is made up for a node of a block is its label afterwards. -/
theorem labelAt?_named_of_mem (hg : g.Built) {name : String}
    (hleader : g.blocks.isLeader leader = true)
    (hmem : (x, name) ∈ (g.nameLeaders g.blocks stems).interiorNames g.blocks stems leader
      (g.blocks.membersOf leader)) : (g.named stems).labelAt? x = some name := by
  have hp := Blocks.mem_toList.mpr ⟨hleader, rfl⟩
  refine labelAt?_foldl_setLabel_of_mem (nodup_names hg stems)
    (List.mem_flatMap.mpr ⟨_, hp, hmem⟩) ?_
  obtain ⟨n, hn⟩ := exists_node_of_mem_tail hg (mem_interiorNames hmem).1
  obtain ⟨n', hn', -⟩ := (sameButNames_nameLeaders g g.blocks stems).exists_node hn
  exact contains_iff.mpr ⟨n', hn'⟩

section

variable (hg : g.Built) (hleader : g.blocks.isLeader leader = true)

include hg hleader

theorem mem_interiorNames_of_label (hblock : (g.named stems).labelAt? leader = some block)
    {q : Address × String}
    (hq : q ∈ loopNames (localName block stems.loop)
      ((g.nameLeaders g.blocks stems).needy g.blocks leader .loop) ∨
      q ∈ numbered (localName block stems.interior)
        ((g.nameLeaders g.blocks stems).needy g.blocks leader .target)) :
    q ∈ (g.nameLeaders g.blocks stems).interiorNames g.blocks stems leader
      (g.blocks.membersOf leader) := by
  rw [labelAt?_named_of_leader (division_placement (toList_ascending hg.synced.start))
    hleader] at hblock
  unfold interiorNames
  rw [hblock]
  exact List.mem_append.mpr hq

theorem labelAt?_named_single (hblock : (g.named stems).labelAt? leader = some block)
    (hone : (g.nameLeaders g.blocks stems).needy g.blocks leader .loop = [x]) :
    (g.named stems).labelAt? x = some (localName block stems.loop) := by
  refine labelAt?_named_of_mem hg hleader (mem_interiorNames_of_label hg hleader hblock (.inl ?_))
  rw [hone]
  exact List.mem_singleton.mpr rfl

theorem labelAt?_named_loop (hblock : (g.named stems).labelAt? leader = some block)
    (hmany : ((g.nameLeaders g.blocks stems).needy g.blocks leader .loop).length ≠ 1)
    (hk : ((g.nameLeaders g.blocks stems).needy g.blocks leader .loop)[k]? = some x) :
    (g.named stems).labelAt? x = some (localName block (stems.loop ++ toString (k + 1))) := by
  refine labelAt?_named_of_mem hg hleader (mem_interiorNames_of_label hg hleader hblock (.inl ?_))
  refine List.mem_of_getElem? (i := k) ?_
  rw [loopNames_eq_numbered _ hmany, getElem?_numbered, hk, ← localName_append]
  rfl

theorem labelAt?_named_target (hblock : (g.named stems).labelAt? leader = some block)
    (hk : ((g.nameLeaders g.blocks stems).needy g.blocks leader .target)[k]? = some x) :
    (g.named stems).labelAt? x = some (localName block (stems.interior ++ toString (k + 1))) := by
  refine labelAt?_named_of_mem hg hleader (mem_interiorNames_of_label hg hleader hblock (.inr ?_))
  refine List.mem_of_getElem? (i := k) ?_
  rw [getElem?_numbered, hk, ← localName_append]
  rfl

theorem labelAt?_named_alone (hblock : (g.named stems).labelAt? leader = none)
    (hx : x ∈ (g.nameLeaders g.blocks stems).needy g.blocks leader .loop ∨
      x ∈ (g.nameLeaders g.blocks stems).needy g.blocks leader .target) :
    (g.named stems).labelAt? x = some (stems.target ++ upperHex 4 x.toNat) := by
  refine labelAt?_named_of_mem hg hleader ?_
  rw [labelAt?_named_of_leader (division_placement (toList_ascending hg.synced.start))
    hleader] at hblock
  unfold interiorNames
  rw [hblock]
  exact List.mem_map.mpr ⟨x, List.mem_append.mpr hx, rfl⟩

end

theorem labelAt?_named_rest (hg : g.Built) (htail : x ∈ (g.blocks.membersOf leader).tail)
    (hnone : g.labelAt? x = none) (hno : ¬g.Entered x) : (g.named stems).labelAt? x = none := by
  have hd : Division g.placement := division_placement (toList_ascending hg.synced.start)
  obtain ⟨n, hn⟩ := exists_node_of_mem_tail hg htail
  rw [label_eq_none_of_interior hd hn (hg.synced.start hn) (isLeader_eq_false_of_mem_tail hd htail)]
  rw [labelAt?_eq hn] at hnone
  refine ⟨hnone, List.eq_nil_iff_forall_not_mem.mpr ?_⟩
  intro p hjump
  exact hno (.inr ⟨p, (mem_jumpsTo hg hn).mp hjump⟩)

/-- How the nodes of a block behind its leader are named in `g'`: the loops among those without a
label in `g`, ascending, then those that are entered in some other way, ascending, and the rest. -/
structure LocalNames (g g' : FlowGraph) (stems : Stems) (leader : Address)
    (members loops targets : List Address) : Prop where
  loops_ascending : loops.Pairwise fun x y => x.toNat < y.toNat
  targets_ascending : targets.Pairwise fun x y => x.toNat < y.toNat
  mem_loops : ∀ x, x ∈ loops ↔ x ∈ members.tail ∧ g.labelAt? x = none ∧ g.LoopRoot x
  mem_targets : ∀ x, x ∈ targets ↔
    x ∈ members.tail ∧ g.labelAt? x = none ∧ g.Entered x ∧ ¬g.LoopRoot x
  single : ∀ {block x}, g'.labelAt? leader = some block → loops = [x] →
    g'.labelAt? x = some (localName block stems.loop)
  loop : ∀ {block k x}, g'.labelAt? leader = some block → loops.length ≠ 1 → loops[k]? = some x →
    g'.labelAt? x = some (localName block (stems.loop ++ toString (k + 1)))
  target : ∀ {block k x}, g'.labelAt? leader = some block → targets[k]? = some x →
    g'.labelAt? x = some (localName block (stems.interior ++ toString (k + 1)))
  alone : g'.labelAt? leader = none → ∀ x, x ∈ loops ∨ x ∈ targets →
    g'.labelAt? x = some (stems.target ++ upperHex 4 x.toNat)
  rest : ∀ x ∈ members.tail, g.labelAt? x = none → ¬g.Entered x → g'.labelAt? x = none
  kept : ∀ {x name}, g.labelAt? x = some name → g'.labelAt? x = some name

/-- Behind the leader of a block, the loops and the other nodes that are entered are each numbered
upwards from one, and labels that were there are kept. -/
theorem local_names_numbered (hg : g.Built) (m : Memory) (external : NameTable) (stems : Stems)
    (other : NameTable) (hp : (leader, members) ∈ g.blocks.toList) :
    ∃ loops targets,
      LocalNames g (g.assignNames g.blocks m external stems other).1 stems leader members
        loops targets := by
  obtain ⟨hleader, rfl⟩ := Blocks.mem_toList.mp hp
  have hkept := relabelled_assignNames g g.blocks m external stems other
  rw [assignNames_blocks] at hkept ⊢
  exact ⟨_, _, ascending_needy hg leader .loop, ascending_needy hg leader .target,
    fun x => mem_needy_loop hg, fun x => mem_needy_target hg, labelAt?_named_single hg hleader,
    labelAt?_named_loop hg hleader, labelAt?_named_target hg hleader,
    fun hnone x => labelAt?_named_alone hg hleader hnone,
    fun x => labelAt?_named_rest hg, hkept.labels⟩

/-- A subroutine of five nodes.  Control comes back to the second, the fourth and the last one,
which has a label; to the third one it jumps from the first. -/
def winding : FlowGraph :=
  ([.addBranch 0x100 0x102, .addBranch 0x100 0x104, .addBranch 0x102 0x104, .addBranch 0x104 0x102,
    .addBranch 0x104 0x106, .addBranch 0x106 0x106, .addBranch 0x106 0x108, .addBranch 0x108 0x108,
    .setCallee 0x300 0x100] : List Operation).foldl operate {} |>.mapNodes fun n =>
      { n with
        length := 2
        isSubroutine := n.start == 0x100
        label := if n.start == 0x108 then some "wait" else none }

theorem local_names_numbered_winding :
    winding.Built ∧
      ((0x100 : Address), [0x100, 0x102, 0x104, 0x106, 0x108]) ∈ winding.blocks.toList ∧
      (∃ loops targets,
        LocalNames winding (winding.assignNames winding.blocks .empty ∅ {} ∅).1 {} 0x100
          [0x100, 0x102, 0x104, 0x106, 0x108] loops targets) ∧
      [0x100, 0x102, 0x104, 0x106, 0x108].map
        (winding.assignNames winding.blocks .empty ∅ {} ∅).1.labelAt? =
          [some "SUB_0100", some "SUB_0100.LOOP1", some "SUB_0100.L1", some "SUB_0100.LOOP2",
            some "wait"] := by
  have hbuilt : winding.Built := (built_foldl_operate _ .empty).mapNodes fun _ => rfl
  have hblocks :
      winding.blocks.toList =
        [(0x100, [0x100, 0x102, 0x104, 0x106, 0x108]), (0x300, [0x300])] := by decide +kernel
  have hp : ((0x100 : Address), [0x100, 0x102, 0x104, 0x106, 0x108]) ∈ winding.blocks.toList := by
    rw [hblocks]
    exact List.mem_cons_self
  exact ⟨hbuilt, hp, local_names_numbered hbuilt .empty ∅ {} ∅ hp, by decide +kernel⟩

end Z80Atlas.FlowGraph
