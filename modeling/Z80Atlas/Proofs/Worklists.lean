import Z80Atlas.Proofs.Fills

/-!
# Bounds for the queues

How far data is stepped over is said by hops, each from a place where data stands to the place
behind it.  Together with the walks of a discovery and the nodes that are filled this bounds all the
work of a survey, whatever passes came before.
-/

namespace Z80Atlas

/-! ### Stepping over data -/

namespace Skips

variable {k : Skips} {a : Address} {p q : Nat} {r : Option Address}

/-- How many bytes of data stand at an address. -/
def lengthAt (k : Skips) (a : Address) : Nat := k.lengths[a]?.getD 0

/-- Data stands at `p`, and `q` is the position behind it. -/
def Hop (k : Skips) (p q : Nat) : Prop :=
  ∃ a : Address, a.toNat = p ∧ 0 < k.lengthAt a ∧ q = p + k.lengthAt a

/-- The way from `p` to `q` is a chain of hops. -/
def Hops (k : Skips) : Nat → Nat → Prop := Relation.ReflTransGen k.Hop

/-- The answer `r` is the first address from `p` on where no data stands.  There is none exactly if
the hops reach or pass the top. -/
structure ClearFrom (k : Skips) (p : Nat) (r : Option Address) : Prop where
  some_iff : ∀ b, r = some b ↔ k.Hops p b.toNat ∧ k.lengthAt b = 0
  none_iff : r = none ↔ ∃ q, 65536 ≤ q ∧ k.Hops p q

theorem hop_iff : k.Hop a.toNat q ↔ 0 < k.lengthAt a ∧ q = a.toNat + k.lengthAt a := by
  constructor
  · intro ⟨b, hb, hpos, hq⟩
    rw [UInt16.toNat_inj] at hb
    subst hb
    exact ⟨hpos, hq⟩
  · intro ⟨hpos, hq⟩
    exact ⟨a, rfl, hpos, hq⟩

theorem clearFrom_top (h : 65536 ≤ p) : k.ClearFrom p none := by
  have hstuck : ∀ x, ¬k.Hop p x := by
    intro x ⟨a, ha, _, _⟩
    have hlt := a.toNat_lt
    omega
  refine ⟨?_, fun _ => ⟨p, h, .refl⟩, fun _ => rfl⟩
  intro b
  constructor
  · intro hb
    cases hb
  · intro ⟨hhops, _⟩
    have hp := (Relation.reflTransGen_iff_eq hstuck).mp hhops
    have hlt := b.toNat_lt
    omega

theorem clearFrom_self (h : k.lengthAt a = 0) : k.ClearFrom a.toNat (some a) := by
  have hstuck : ∀ x, ¬k.Hop a.toNat x := by
    intro x hx
    have hpos := (hop_iff.mp hx).1
    omega
  refine ⟨?_, ?_⟩
  · intro b
    constructor
    · intro hb
      cases hb
      exact ⟨.refl, h⟩
    · intro ⟨hhops, _⟩
      have hb := (Relation.reflTransGen_iff_eq hstuck).mp hhops
      rw [UInt16.toNat_inj.mp hb]
  · constructor
    · intro hr
      cases hr
    · intro ⟨q, hq, hhops⟩
      have hp := (Relation.reflTransGen_iff_eq hstuck).mp hhops
      have hlt := a.toNat_lt
      omega

theorem clearFrom_hop (h : 0 < k.lengthAt a) (hr : k.ClearFrom (a.toNat + k.lengthAt a) r) :
    k.ClearFrom a.toNat r := by
  have hhop : k.Hop a.toNat (a.toNat + k.lengthAt a) := hop_iff.mpr ⟨h, rfl⟩
  -- There is only one hop from `a`, so every way to another place begins with it.
  have hrest : ∀ q, q ≠ a.toNat → k.Hops a.toNat q → k.Hops (a.toNat + k.lengthAt a) q := by
    intro q hne hq
    obtain heq | ⟨x, hx, htail⟩ := Relation.ReflTransGen.cases_head hq
    · exact absurd heq.symm hne
    · rw [(hop_iff.mp hx).2] at htail
      exact htail
  refine ⟨?_, ?_⟩
  · intro b
    rw [hr.some_iff]
    constructor
    · intro ⟨hq, hb⟩
      exact ⟨.head hhop hq, hb⟩
    · intro ⟨hq, hb⟩
      have hne : b.toNat ≠ a.toNat := by
        intro heq
        rw [UInt16.toNat_inj] at heq
        subst heq
        omega
      exact ⟨hrest _ hne hq, hb⟩
  · rw [hr.none_iff]
    constructor
    · intro ⟨q, hq, hhops⟩
      exact ⟨q, hq, .head hhop hhops⟩
    · intro ⟨q, hq, hhops⟩
      have hlt := a.toNat_lt
      exact ⟨q, hq, hrest q (by omega) hhops⟩

theorem lengthAt_eq {n : Nat} (h : k.lengths[a]? = some n) : k.lengthAt a = n := by
  rw [lengthAt, h]
  rfl

theorem clearFrom_landing (k : Skips) (a : Address) : k.ClearFrom a.toNat (k.landing a) := by
  fun_induction landing k a with
  | case1 a hnone =>
    refine clearFrom_self ?_
    rw [lengthAt, hnone]
    rfl
  | case2 a n hn hpos b hb ih =>
    rw [Address.after?_eq_some_iff.mp hb, ← lengthAt_eq hn] at ih
    refine clearFrom_hop ?_ ih
    rw [lengthAt_eq hn]
    exact hpos
  | case3 a n hn hpos hb =>
    rw [Address.after?_eq_none_iff, ← lengthAt_eq hn] at hb
    refine clearFrom_hop ?_ (clearFrom_top hb)
    rw [lengthAt_eq hn]
    exact hpos
  | case4 a n hn hzero =>
    refine clearFrom_self ?_
    rw [lengthAt_eq hn]
    omega

theorem clearFrom_landingAfter (k : Skips) (i : Instruction) :
    k.ClearFrom (i.address.toNat + i.length) (k.landingAfter i) := by
  unfold landingAfter Instruction.next?
  cases hnext : Address.after? i.address i.length with
  | none => exact clearFrom_top (Address.after?_eq_none_iff.mp hnext)
  | some b =>
    rw [← Address.after?_eq_some_iff.mp hnext]
    exact k.clearFrom_landing b

end Skips

namespace Survey

/-- A node that is filled is made from addresses that go up and stay below the top. -/
structure FillLog.Bounded (f : FillLog) : Prop where
  made : f.before.fillFrom f.start f.start {} = f.looks.foldl (glance f.start) (f.before, {})
  ascends : Ascends f.start f.looks
  below : f.start.toNat + f.looks.length ≤ 65536

theorem FillLog.bounded (f : FillLog) : f.Bounded := by
  have hascends : Ascends f.start f.looks := ascends_looks ..
  exact ⟨fillFrom_eq_glance .., hascends, hascends.length_le⟩

/-- Whatever passes came before, the work of the next one is bounded: of a discovery by its entries
and by the instructions that it claims, of filling by the nodes, none of which is filled twice in
all the passes together.  Data is stepped over up to the first place where none stands. -/
theorem worklists_drain (m : Memory) (v : Opcode.Variant) (k : Skips) (passes : List Pass) :
    (∀ entries, ((fresh m v k).performAll passes).WalksBounded entries) ∧
    Drained ((fresh m v k).performAll passes) (((fresh m v k).performAll passes).fillsIn .fill)
      (((fresh m v k).performAll passes).perform .fill) ∧
    (((fresh m v k).fillsOver passes).map (·.start)).Nodup ∧
    (∀ f ∈ (fresh m v k).fillsOver passes, f.Bounded ∧ (m.Unexplored → f.stopAt ≤ 65536)) ∧
    ∀ i, k.ClearFrom (i.address.toNat + i.length) (k.landingAfter i) := by
  refine ⟨walksBounded _, drained_fill _, (nodup_fillsOver _ passes).1, ?_,
    k.clearFrom_landingAfter⟩
  intro f hf
  refine ⟨f.bounded, ?_⟩
  intro hm
  exact stopAt_fillsOver_le (cuts_fresh hm v k) passes f hf

/-- `JR NZ,8005h`, two bytes of data, `RET`, `JR 8000h`. -/
def steppingTwice : Memory := Memory.empty.write 0x8000 [0x20, 0x03, 0xAA, 0xBB, 0xC9, 0x18, 0xF9]

/-- The two bytes are stepped over one by one, and nothing is stepped over behind them. -/
def oneByOne : Skips := ((({} : Skips).set 0x8002 1).set 0x8003 1).set 0x8004 0

theorem worklists_drain_steppingTwice :
    steppingTwice.Unexplored ∧
    ((fresh steppingTwice .z80 oneByOne).fillsOver [.discover [0x8000], .fill, .fill]).map
      (·.start) = [0x8000, 0x8004, 0x8005] ∧
    (∀ f ∈ (fresh steppingTwice .z80 oneByOne).fillsOver [.discover [0x8000], .fill, .fill],
      f.Bounded ∧ f.stopAt ≤ 65536) ∧
    ((fresh steppingTwice .z80 oneByOne).performAll [.discover [0x8000], .fill, .fill]).WalksBounded
      [0x8002, 0x8000] ∧
    oneByOne.ClearFrom 0x8002 (some 0x8004) := by
  have hm : steppingTwice.Unexplored := Memory.unexplored_empty.write _ _
  have hstarts :
      ((fresh steppingTwice .z80 oneByOne).fillsOver [.discover [0x8000], .fill, .fill]).map
        (·.start) = [0x8000, 0x8004, 0x8005] := by decide +kernel
  have hland :
      oneByOne.landingAfter (steppingTwice.decode .z80 0x8000) = some 0x8004 := by decide +kernel
  have hbehind :
      (steppingTwice.decode .z80 0x8000).address.toNat + (steppingTwice.decode .z80 0x8000).length =
        0x8002 := by
    decide +kernel
  obtain ⟨hwalks, -, -, hfills, hclear⟩ :=
    worklists_drain steppingTwice .z80 oneByOne [.discover [0x8000], .fill, .fill]
  refine ⟨hm, hstarts, ?_, hwalks _, ?_⟩
  · intro f hf
    exact ⟨(hfills f hf).1, (hfills f hf).2 hm⟩
  · have hdata := hclear (steppingTwice.decode .z80 0x8000)
    rw [hland, hbehind] at hdata
    exact hdata

end Survey

end Z80Atlas
