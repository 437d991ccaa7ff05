import Mathlib.Data.List.Dedup
import Z80Atlas.Proofs.Discovery

/-!
# The walks of a discovery

A discovery is written down as the list of its walks, each with what it found on its way.  A walk
only goes up.  Nothing but the claimed instructions puts addresses into the queue, each of them no
more than two, so the walks start at the entries and then at the targets of the claimed
instructions, in order (`Survey.starts_walks`).
-/

namespace Z80Atlas

/-! ### Going up -/

/-- The addresses go up, and the first one is `a`. -/
structure Ascends (a : Address) (xs : List Address) : Prop where
  head : xs.head? = some a
  sorted : xs.Pairwise fun x y => x.toNat < y.toNat

namespace Ascends

variable {a b : Address} {xs : List Address}

theorem singleton (a : Address) : Ascends a [a] := ⟨rfl, List.pairwise_singleton ..⟩

theorem cons (hab : a.toNat < b.toNat) (h : Ascends b xs) : Ascends a (a :: xs) := by
  refine ⟨rfl, List.pairwise_cons.mpr ⟨?_, h.sorted⟩⟩
  intro x hx
  obtain ⟨rest, rfl⟩ := List.head?_eq_some_iff.mp h.head
  rcases List.mem_cons.mp hx with rfl | hrest
  · exact hab
  · exact Nat.lt_trans hab ((List.pairwise_cons.mp h.sorted).1 x hrest)

/-- There is no room for more addresses than there are up to the top. -/
theorem length_le (h : Ascends a xs) : a.toNat + xs.length ≤ 65536 := by
  induction xs generalizing a with
  | nil => cases h.head
  | cons x rest ih =>
    have hhead : x = a := Option.some.inj h.head
    have ha := a.toNat_lt
    cases rest with
    | nil =>
      show a.toNat + 1 ≤ 65536
      omega
    | cons y rest =>
      have hsorted := List.pairwise_cons.mp h.sorted
      have hlt := hsorted.1 y List.mem_cons_self
      have hle := ih ⟨rfl, hsorted.2⟩
      rw [hhead] at hlt
      rw [List.length_cons]
      omega

end Ascends

/-! ### Claims -/

/-- The instruction that is claimed upon a finding. -/
def Finding.claimed? : Finding → Option Instruction
  | .fresh i => some i
  | _ => none

/-- The instructions can be claimed one after the other: each one starts at a byte that has not been
visited. -/
def Memory.Claimable (m : Memory) (v : Opcode.Variant) : List Instruction → Prop
  | [] => True
  | i :: rest =>
    i = m.decode v i.address ∧ (m.marks i.address).traced = false ∧ (m.claim i).Claimable v rest

namespace Memory

variable {m : Memory} {v : Opcode.Variant} {is js : List Instruction} {i : Instruction}

theorem claimable_append (h : m.Claimable v is) (h' : (is.foldl claim m).Claimable v js) :
    m.Claimable v (is ++ js) := by
  induction is generalizing m with
  | nil => exact h'
  | cons i rest ih => exact ⟨h.1, h.2.1, ih h.2.2 h'⟩

theorem Claimable.length_pos (h : m.Claimable v is) (hi : i ∈ is) : 0 < i.length := by
  induction is generalizing m with
  | nil => cases hi
  | cons j rest ih =>
    rcases List.mem_cons.mp hi with rfl | hrest
    · rw [h.1]
      exact m.length_decode_pos v _
    · exact ih h.2.2 hrest

theorem Claimable.untraced (h : m.Claimable v is) (hi : i ∈ is) :
    i = m.decode v i.address ∧ (m.marks i.address).traced = false := by
  induction is generalizing m with
  | nil => cases hi
  | cons j rest ih =>
    rcases List.mem_cons.mp hi with rfl | hrest
    · exact ⟨h.1, h.2.1⟩
    · obtain ⟨hdecode, htraced⟩ := ih h.2.2 hrest
      have hpos : 0 < j.length := h.length_pos List.mem_cons_self
      refine ⟨?_, ?_⟩
      · rw [decode_congr (byte_claim m j)] at hdecode
        exact hdecode
      · -- A mark that is missing after a claim was missing before it.
        rw [Bool.eq_false_iff, ne_eq, traced_claim hpos] at htraced
        exact Bool.eq_false_iff.mpr fun hold => htraced (.inl hold)

theorem Claimable.nodup (h : m.Claimable v is) : (is.map (·.address)).Nodup := by
  induction is generalizing m with
  | nil => exact List.nodup_nil
  | cons i rest ih =>
    refine List.nodup_cons.mpr ⟨?_, ih h.2.2⟩
    intro hmem
    obtain ⟨j, hj, heq⟩ := List.mem_map.mp hmem
    have hpos : 0 < i.length := h.length_pos List.mem_cons_self
    have htraced := (h.2.2.untraced hj).2
    rw [heq, Bool.eq_false_iff, ne_eq, traced_claim hpos] at htraced
    exact htraced (.inr (Address.inRange_self hpos))

theorem Claimable.opening_iff (h : m.Claimable v is) (a : Address) :
    ((is.foldl claim m).marks a).opening = true ↔
      (m.marks a).opening = true ∨ a ∈ is.map (·.address) := by
  induction is generalizing m with
  | nil => simp
  | cons i rest ih =>
    have hpos : 0 < i.length := h.length_pos List.mem_cons_self
    rw [List.foldl_cons, ih h.2.2, opening_claim hpos, List.map_cons, List.mem_cons, or_assoc]

end Memory

namespace Survey

variable {s : Survey} {start a b : Address} {queue : Queue Address} {i : Instruction}

/-! ### One walk -/

/-- The address at which a walk goes on after `a`. -/
def stepFrom? (s : Survey) (a : Address) : Option Address :=
  (s.finding a).claimed?.bind fun i => (s.skips.onward i).next

theorem stepFrom?_of_fresh (hf : s.finding a = .fresh i) :
    s.stepFrom? a = (s.skips.onward i).next := by
  unfold stepFrom?
  rw [hf]
  rfl

theorem stepFrom?_eq_some (h : s.stepFrom? a = some b) :
    s.finding a = .fresh (s.decode a) ∧ (s.skips.onward (s.decode a)).next = some b := by
  unfold stepFrom? at h
  cases hf : s.finding a with
  | blank | joined | overlap => rw [hf] at h; cases h
  | fresh i =>
    rw [hf] at h
    obtain ⟨rfl, -⟩ := finding_fresh hf
    exact ⟨rfl, h⟩

theorem lt_of_stepFrom? (h : s.stepFrom? a = some b) : a.toNat < b.toNat := by
  have hb := Address.after?_eq_some_iff.mp (Skips.next_onward (stepFrom?_eq_some h).2)
  have hl := s.length_decode_pos a
  rw [address_decode] at hb
  omega

/-- What a walk finds at the addresses that it looks at, one after the other. -/
def sights (s : Survey) (start a : Address) : List (Address × Finding) :=
  match _h : s.stepFrom? a with
  | some b => (a, s.finding a) :: (s.enter start (s.decode a)).sights start b
  | none => [(a, s.finding a)]
termination_by 65536 - a.toNat
decreasing_by
  have hlt := lt_of_stepFrom? _h
  have hb := b.toNat_lt
  omega

theorem sights_of_none (h : s.stepFrom? a = none) : s.sights start a = [(a, s.finding a)] := by
  rw [sights]
  split
  next hb => rw [h] at hb; cases hb
  next => rfl

theorem sights_of_not_fresh (hf : (s.finding a).claimed? = none) :
    s.sights start a = [(a, s.finding a)] := by
  refine sights_of_none ?_
  unfold stepFrom?
  rw [hf]
  rfl

theorem sights_of_some (h : s.stepFrom? a = some b) :
    s.sights start a = (a, s.finding a) :: (s.enter start (s.decode a)).sights start b := by
  rw [sights]
  split
  next hb =>
    rw [h] at hb
    cases hb
    rfl
  next hb => rw [h] at hb; cases hb

theorem ascends_sights (s : Survey) (start a : Address) :
    Ascends a ((s.sights start a).map (·.1)) := by
  fun_induction sights s start a with
  | case1 s a b h ih => exact .cons (lt_of_stepFrom? h) ih
  | case2 s a h => exact .singleton a

/-- The instructions that are claimed upon what was found. -/
def claimsUpon (found : List (Address × Finding)) : List Instruction :=
  found.filterMap (·.2.claimed?)

theorem claims_of_not_fresh (hf : (s.finding a).claimed? = none) :
    claimsUpon (s.sights start a) = [] := by
  rw [sights_of_not_fresh hf]
  exact List.filterMap_cons_none (a := (a, s.finding a)) hf

theorem claims_last (hf : s.finding a = .fresh i) (hn : (s.skips.onward i).next = none) :
    claimsUpon (s.sights start a) = [i] := by
  rw [sights_of_none ((stepFrom?_of_fresh hf).trans hn), hf]
  rfl

theorem claims_onward (hf : s.finding a = .fresh i) (hn : (s.skips.onward i).next = some b) :
    claimsUpon (s.sights start a) = i :: claimsUpon ((s.enter start i).sights start b) := by
  rw [sights_of_some ((stepFrom?_of_fresh hf).trans hn), hf, (finding_fresh hf).1]
  rfl

/-- One survey comes from another by claiming instructions. -/
structure Claims (s : Survey) (is : List Instruction) (s' : Survey) : Prop where
  claimable : s.memory.Claimable s.variant is
  variant : s'.variant = s.variant
  skips : s'.skips = s.skips
  filled : s'.filled = s.filled
  memory : s'.memory = is.foldl Memory.claim s.memory

theorem claims_enter (hf : s.finding a = .fresh i) : Claims s [i] (s.enter start i) := by
  obtain ⟨rfl, htraced⟩ := finding_fresh hf
  have hg := grows_enter s start a
  refine ⟨⟨rfl, htraced, trivial⟩, hg.variant, hg.skips, ?_, memory_enter s start _⟩
  unfold enter
  split <;> rfl

theorem Claims.trans {is js : List Instruction} {s' s'' : Survey} (h : Claims s is s')
    (h' : Claims s' js s'') :
    Claims s (is ++ js) s'' := by
  have hclaimable := h'.claimable
  rw [h.memory, h.variant] at hclaimable
  refine ⟨Memory.claimable_append h.claimable hclaimable, h'.variant.trans h.variant,
    h'.skips.trans h.skips, h'.filled.trans h.filled, ?_⟩
  rw [h'.memory, h.memory, List.foldl_append]

theorem claims_walk (s : Survey) (start a : Address) (queue : Queue Address) :
    Claims s (claimsUpon (s.sights start a)) (s.walk start a queue).1 := by
  fun_induction walk s start a queue with
  | case1 s a queue hf | case2 s a queue hf | case3 s a queue hf =>
    rw [claims_of_not_fresh (by rw [hf]; rfl)]
    exact ⟨trivial, rfl, rfl, rfl, rfl⟩
  | case4 s a queue i hf hn =>
    rw [claims_last hf hn]
    exact claims_enter hf
  | case5 s a queue i hf b hn ih =>
    rw [claims_onward hf hn]
    exact (claims_enter hf).trans ih

/-- A walk puts the targets of the instructions that it claims into the queue, and nothing else. -/
theorem queue_walk (s : Survey) (start a : Address) (queue : Queue Address) :
    (s.walk start a queue).2.toList =
      queue.toList ++ (claimsUpon (s.sights start a)).flatMap fun i =>
        (s.skips.onward i).targets := by
  fun_induction walk s start a queue with
  | case1 s a queue hf | case2 s a queue hf | case3 s a queue hf =>
    rw [claims_of_not_fresh (by rw [hf]; rfl)]
    exact (List.append_nil _).symm
  | case4 s a queue i hf hn => rw [claims_last hf hn, Queue.toList_append, List.flatMap_singleton]
  | case5 s a queue i hf b hn ih =>
    have hskips : (s.enter start i).skips = s.skips := (claims_enter hf).skips
    rw [ih, hskips, claims_onward hf hn, Queue.toList_append, List.flatMap_cons, List.append_assoc]

/-- What a walk from `start` does about something that it finds. -/
def heed (start : Address) (s : Survey) (found : Address × Finding) : Survey :=
  match found.2 with
  | .blank => s
  | .joined => s.ensure found.1
  | .overlap => s.note (.ambiguousAt found.1)
  | .fresh i => s.enter start i

theorem walk_eq_heed (s : Survey) (start a : Address) (queue : Queue Address) :
    (s.walk start a queue).1 = (s.sights start a).foldl (heed start) s := by
  fun_induction walk s start a queue with
  | case1 s a queue hf | case2 s a queue hf | case3 s a queue hf =>
    rw [sights_of_not_fresh (by rw [hf]; rfl), hf]
    rfl
  | case4 s a queue i hf hn =>
    rw [sights_of_none ((stepFrom?_of_fresh hf).trans hn), hf]
    rfl
  | case5 s a queue i hf b hn ih =>
    rw [sights_of_some ((stepFrom?_of_fresh hf).trans hn), hf, ← (finding_fresh hf).1]
    exact ih

/-! ### All walks -/

/-- A walk as it was made: where it started, and what it found on its way. -/
structure WalkLog where
  start : Address
  sights : List (Address × Finding)

/-- Make the walk again. -/
def WalkLog.repeated (w : WalkLog) (s : Survey) : Survey := w.sights.foldl (heed w.start) s

/-- The walks from the addresses in the queue and from those that come up on the way. -/
def walks (s : Survey) (queue : Queue Address) : List WalkLog :=
  match _h : queue.pop? with
  | none => []
  | some (a, rest) =>
    let r := s.walk a a rest
    { start := a, sights := s.sights a a } :: r.1.walks r.2
termination_by 2 * s.memory.untraced + queue.size
decreasing_by
  have hw := s.walk_work a a rest
  have hs := Queue.size_of_pop? _h
  omega

/-- The instructions that were claimed in some walks, in order. -/
def claimsIn (logs : List WalkLog) : List Instruction := logs.flatMap fun w => claimsUpon w.sights

theorem claimsIn_cons (w : WalkLog) (logs : List WalkLog) :
    claimsIn (w :: logs) = claimsUpon w.sights ++ claimsIn logs := List.flatMap_cons

theorem walks_of_empty (h : queue.pop? = none) : s.walks queue = [] := by
  rw [walks]
  split
  next => rfl
  next hpop => rw [h] at hpop; cases hpop

theorem walks_of_pop? {rest : Queue Address} (h : queue.pop? = some (a, rest)) :
    s.walks queue = { start := a, sights := s.sights a a } ::
      (s.walk a a rest).1.walks (s.walk a a rest).2 := by
  rw [walks]
  split
  next hpop => rw [h] at hpop; cases hpop
  next hpop =>
    rw [h] at hpop
    cases hpop
    rfl

/-- A discovery is made of its walks. -/
theorem discoverFrom_eq_walks (s : Survey) (queue : Queue Address) :
    s.discoverFrom queue = (s.walks queue).foldl (fun s w => w.repeated s) s := by
  fun_induction discoverFrom s queue with
  | case1 s queue h => rw [walks_of_empty h, List.foldl_nil]
  | case2 s queue a rest h r ih =>
    have hwalk : r.1 = WalkLog.repeated { start := a, sights := s.sights a a } s :=
      walk_eq_heed s a a rest
    rw [walks_of_pop? h, List.foldl_cons, ← hwalk]
    exact ih

theorem claims_walks (s : Survey) (queue : Queue Address) :
    Claims s (claimsIn (s.walks queue)) (s.discoverFrom queue) := by
  fun_induction discoverFrom s queue with
  | case1 s queue h =>
    rw [walks_of_empty h]
    exact ⟨trivial, rfl, rfl, rfl, rfl⟩
  | case2 s queue a rest h r ih =>
    rw [walks_of_pop? h, claimsIn_cons]
    exact (claims_walk s a a rest).trans ih

theorem ascends_walks (s : Survey) (queue : Queue Address) :
    ∀ w ∈ s.walks queue, Ascends w.start (w.sights.map (·.1)) := by
  fun_induction walks s queue with
  | case1 => simp
  | case2 s queue a rest _ r ih =>
    intro w hw
    rcases List.mem_cons.mp hw with rfl | hw
    · exact ascends_sights s a a
    · exact ih w hw

/-- The walks start at the addresses in the queue, and then at the targets of the instructions that
they claim. -/
theorem starts_walks (s : Survey) (queue : Queue Address) :
    (s.walks queue).map (·.start) =
      queue.toList ++ (claimsIn (s.walks queue)).flatMap fun i => (s.skips.onward i).targets := by
  fun_induction walks s queue with
  | case1 s queue h =>
    rw [Queue.toList_of_pop?_none h]
    rfl
  | case2 s queue a rest h r ih =>
    have hskips : r.1.skips = s.skips := (claims_walk s a a rest).skips
    have hqueue : r.2.toList = _ := queue_walk s a a rest
    rw [List.map_cons, ih, hqueue, hskips, Queue.toList_of_pop? h, claimsIn_cons,
      List.flatMap_append, List.cons_append, List.append_assoc]

theorem length_flatMap_targets (k : Skips) (is : List Instruction) :
    (is.flatMap fun i => (k.onward i).targets).length ≤ 2 * is.length := by
  induction is with
  | nil => exact Nat.le_refl _
  | cons i rest ih =>
    have htargets := k.length_targets_onward i
    rw [List.flatMap_cons, List.length_append, List.length_cons]
    omega

theorem length_walks_le (s : Survey) (queue : Queue Address) :
    (s.walks queue).length ≤ queue.toList.length + 2 * (claimsIn (s.walks queue)).length := by
  have hstarts := congrArg List.length (s.starts_walks queue)
  have htargets := length_flatMap_targets s.skips (claimsIn (s.walks queue))
  rw [List.length_map, List.length_append] at hstarts
  omega

/-! ### Discovering from entries -/

/-- The walks of a discovery. -/
def discoveryWalks (s : Survey) (entries : List Address) : List WalkLog :=
  s.walks (.ofList (Std.ExtTreeSet.ofList entries).toList)

theorem length_toList_ofList (entries : List Address) :
    (Std.ExtTreeSet.ofList entries).toList.length = entries.dedup.length := by
  have hdistinct : (Std.ExtTreeSet.ofList entries).toList.Nodup :=
    Std.ExtTreeSet.distinct_toList.imp fun hne heq => hne (Std.compare_eq_iff_eq.mpr heq)
  refine ((List.perm_ext_iff_of_nodup hdistinct entries.nodup_dedup).mpr ?_).length_eq
  intro a
  rw [Std.ExtTreeSet.mem_toList, Std.ExtTreeSet.mem_ofList, List.contains_iff_mem, List.mem_dedup]

/-- A discovery is made of walks that go up, and there are no more of them than entries and twice
the instructions that are newly claimed: those that make the marks of the memory what they are at
the end. -/
structure WalksBounded (s : Survey) (entries : List Address) : Prop where
  made : s.discover entries = (s.discoveryWalks entries).foldl (fun s w => w.repeated s) s
  ascends : ∀ w ∈ s.discoveryWalks entries, Ascends w.start (w.sights.map (·.1))
  length_le : (s.discoveryWalks entries).length ≤
    entries.dedup.length + 2 * (claimsIn (s.discoveryWalks entries)).length
  memory : (s.discover entries).memory =
    (claimsIn (s.discoveryWalks entries)).foldl Memory.claim s.memory
  fresh : ∀ i ∈ claimsIn (s.discoveryWalks entries),
    i = s.decode i.address ∧ (s.memory.marks i.address).traced = false
  once : ((claimsIn (s.discoveryWalks entries)).map (·.address)).Nodup
  opening : ∀ a, ((s.discover entries).memory.marks a).opening = true ↔
    (s.memory.marks a).opening = true ∨ a ∈ (claimsIn (s.discoveryWalks entries)).map (·.address)

theorem walksBounded (s : Survey) (entries : List Address) : s.WalksBounded entries := by
  have hclaims : Claims s (claimsIn (s.discoveryWalks entries)) (s.discover entries) :=
    claims_walks s _
  refine ⟨discoverFrom_eq_walks s _, ascends_walks s _, ?_, hclaims.memory, ?_,
    hclaims.claimable.nodup, ?_⟩
  · have hle := s.length_walks_le (.ofList (Std.ExtTreeSet.ofList entries).toList)
    rw [Queue.toList_ofList, length_toList_ofList] at hle
    exact hle
  · intro i hi
    exact hclaims.claimable.untraced hi
  · intro a
    rw [hclaims.memory]
    exact hclaims.claimable.opening_iff a

end Survey

end Z80Atlas
