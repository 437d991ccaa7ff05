import Mathlib.Algebra.GroupWithZero.Nat
import Mathlib.Data.List.Basic
import Std.Data.String.ToNat
import Z80Atlas.Naming.Assign

/-!
# How made-up names are spelled

A global name is a stem with the digits of an address, four of them or two at a restart address.  A
local name is the label of its block, a point, and a text that is a stem with a count or with an
address.  No stem has a point in it, so a name can be cut into these parts again.  What two names
that are the same can still differ in is the stem, and this is where stems clash: one of them goes
on like the other with digits behind it.
-/

namespace Z80Atlas

/-! ### Digits -/

theorem isAlphanum_hexDigit : ∀ d < 16, (hexDigit .upper d).isAlphanum = true := by decide

theorem hexDigit_inj :
    ∀ d < 16, ∀ e < 16, hexDigit .upper d = hexDigit .upper e → d = e := by decide

theorem isAlphanum_of_mem_hexDigits {width n : Nat} {c : Char} (h : c ∈ hexDigits .upper width n) :
    c.isAlphanum = true := by
  induction width generalizing n with
  | zero => cases h
  | succ width ih =>
    rw [hexDigits, List.mem_append, List.mem_singleton] at h
    rcases h with h | rfl
    · exact ih h
    · exact isAlphanum_hexDigit _ (Nat.mod_lt _ (by decide))

theorem hexDigits_inj {width n k : Nat} (h : hexDigits .upper width n = hexDigits .upper width k) :
    n % 16 ^ width = k % 16 ^ width := by
  induction width generalizing n k with
  | zero => rw [Nat.pow_zero, Nat.mod_one, Nat.mod_one]
  | succ width ih =>
    obtain ⟨hhigh, hlow⟩ := List.append_inj' h rfl
    have hdigit :=
      hexDigit_inj _ (Nat.mod_lt n (by decide)) _ (Nat.mod_lt k (by decide)) (List.cons.inj hlow).1
    rw [Nat.pow_succ, Nat.mul_comm, Nat.mod_mul, Nat.mod_mul, hdigit, ih hhigh]

theorem hexDigits_add (c : LetterCase) (high low n : Nat) :
    hexDigits c (high + low) n = hexDigits c high (n / 16 ^ low) ++ hexDigits c low n := by
  induction low generalizing n with
  | zero => rw [Nat.add_zero, Nat.pow_zero, Nat.div_one, hexDigits, List.append_nil]
  | succ low ih =>
    rw [Nat.add_succ, hexDigits, ih, hexDigits, Nat.div_div_eq_div_mul, Nat.pow_succ, Nat.mul_comm,
      List.append_assoc]

theorem upperHex_four (n : Nat) : upperHex 4 n = upperHex 2 (n / 256) ++ upperHex 2 n := by
  unfold upperHex
  rw [← String.ofList_append]
  exact congrArg String.ofList (hexDigits_add .upper 2 2 n)

/-- A name is cut before its last digits. -/
theorem append_upperHex_inj {stem stem' : String} {width n k : Nat}
    (h : stem ++ upperHex width n = stem' ++ upperHex width k) :
    stem = stem' ∧ n % 16 ^ width = k % 16 ^ width := by
  rw [← String.toList_inj, String.toList_append, String.toList_append, upperHex, upperHex,
    String.toList_ofList, String.toList_ofList] at h
  obtain ⟨hstem, hdigits⟩ := List.append_inj' h (by rw [length_hexDigits, length_hexDigits])
  exact ⟨String.toList_inj.mp hstem, hexDigits_inj hdigits⟩

theorem isDigit_of_mem_toString {n : Nat} {c : Char} (h : c ∈ (toString n).toList) :
    c.isDigit = true := by
  rw [Nat.toString_eq_repr, Nat.toList_repr] at h
  exact Nat.isDigit_of_mem_toDigits (by decide) (by decide) h

theorem append_toString_inj {stem : String} {n k : Nat}
    (h : stem ++ toString n = stem ++ toString k) : n = k :=
  Nat.repr_injective ((String.append_right_inj stem).mp h)

/-! ### Characters of a name -/

/-- No stem has the character in it. -/
def Stems.Lacks (stems : Stems) (c : Char) : Prop := ∀ stem, c ∉ (stems.get stem).toList

theorem notMem_append_upperHex {stem : String} {c : Char} (hs : c ∉ stem.toList)
    (hc : c.isAlphanum = false) (width n : Nat) : c ∉ (stem ++ upperHex width n).toList := by
  rw [String.toList_append, List.mem_append, upperHex, String.toList_ofList]
  rintro (h | h)
  · exact hs h
  · exact absurd (hc.symm.trans (isAlphanum_of_mem_hexDigits h)) (by decide)

theorem notMem_append_toString {stem : String} {c : Char} (hs : c ∉ stem.toList)
    (hc : c.isAlphanum = false) (n : Nat) :
    c ∉ (stem ++ toString n).toList := by
  rw [String.toList_append, List.mem_append]
  rintro (h | h)
  · exact hs h
  · have hdigit := isDigit_of_mem_toString h
    simp [Char.isAlphanum, hdigit] at hc

/-- A name is cut at a mark that stands in it only once. -/
theorem append_mark_inj {before before' behind behind' mark : String} {c : Char}
    (hm : mark.toList = [c]) (hbefore : c ∉ before.toList) (hbehind : c ∉ behind.toList)
    (h : before ++ mark ++ behind = before' ++ mark ++ behind') :
    before = before' ∧ behind = behind' := by
  have hlist : ∀ x y : String, (x ++ mark ++ y).toList = x.toList ++ c :: y.toList := by
    intro x y
    rw [String.toList_append, String.toList_append, hm, List.append_assoc, List.singleton_append]
  rw [← String.toList_inj, hlist, hlist, List.append_cons_inj_of_notMem hbefore hbehind] at h
  exact ⟨String.toList_inj.mp h.1, String.toList_inj.mp h.2.2⟩

theorem mem_append_mark {before behind mark : String} {c : Char} (hm : mark.toList = [c]) :
    c ∈ (before ++ mark ++ behind).toList := by
  rw [String.toList_append, String.toList_append, hm]
  simp

/-- The name does not start with the point of a local name. -/
def Plain (name : String) : Prop := ∃ c rest, name.toList = c :: rest ∧ c ≠ '.'

theorem Plain.append {name : String} (h : Plain name) (text : String) : Plain (name ++ text) := by
  obtain ⟨c, rest, hname, hc⟩ := h
  exact ⟨c, rest ++ text.toList, by rw [String.toList_append, hname, List.cons_append], hc⟩

theorem Plain.localName {block : String} (h : Plain block) (name : String) :
    Plain (localName block name) :=
  (h.append ".").append name

namespace Stems

variable {stems : Stems} {a b : Address} {name text : String} {c : Char}

theorem faultOf?_eq_none (h : stems.fault? = none) (stem : Stem) : stems.faultOf? stem = none := by
  have hall : stem ∈ Stem.all := by
    cases stem <;> decide
  unfold fault? at h
  rw [Option.or_eq_none_iff, List.findSome?_eq_none_iff] at h
  exact h.1 stem hall

theorem lacks_point (h : stems.fault? = none) : stems.Lacks '.' := by
  intro stem hmem
  have hbad : ((stems.get stem).toList.any fun c => c = '.' || Text.isBlank c) = true := by
    rw [List.any_eq_true]
    exact ⟨'.', hmem, rfl⟩
  have hnone := faultOf?_eq_none h stem
  unfold faultOf? at hnone
  dsimp only at hnone
  rw [if_pos hbad] at hnone
  split at hnone
  · cases hnone
  · cases hnone

theorem plain_get (h : stems.fault? = none) (stem : Stem) : Plain (stems.get stem) := by
  cases hlist : (stems.get stem).toList with
  | nil =>
    have hnone := faultOf?_eq_none h stem
    rw [String.toList_eq_nil_iff] at hlist
    simp [faultOf?, hlist] at hnone
  | cons c rest =>
    refine ⟨c, rest, hlist, ?_⟩
    intro hc
    apply lacks_point h stem
    rw [hlist, hc]
    exact List.mem_cons_self

theorem plain_globalName (h : stems.fault? = none) (a : Address) (isSubroutine : Bool) :
    Plain (stems.globalName a isSubroutine) := by
  unfold globalName
  split
  · split
    · exact (plain_get h .restart).append _
    · exact (plain_get h .subroutine).append _
  · exact (plain_get h .target).append _

theorem plain_targetName (h : stems.fault? = none) (a : Address) : Plain (stems.targetName a) :=
  (plain_get h .target).append _

/-! ### Global names -/

/-- The global names that an address can have. -/
inductive Global (stems : Stems) (a : Address) (name : String) : Prop
  | wide (stem : Stem) (hs : stem ∈ Stem.globals) (h : name = stems.get stem ++ upperHex 4 a.toNat)
  | restart (ha : a.toNat < 256) (h : name = stems.restart ++ upperHex 2 a.toNat)

theorem global_globalName (stems : Stems) (a : Address) (isSubroutine : Bool) :
    stems.Global a (stems.globalName a isSubroutine) := by
  unfold globalName
  split
  · split
    next hrestart =>
      rw [Bool.and_eq_true, decide_eq_true_eq, UInt16.lt_iff_toNat_lt] at hrestart
      exact .restart (Nat.lt_trans hrestart.1 (by decide)) rfl
    next => exact .wide .subroutine (by decide) rfl
  · exact .wide .target (by decide) rfl

theorem Global.notMem (h : stems.Global a name) (hs : stems.Lacks c) (hc : c.isAlphanum = false) :
    c ∉ name.toList := by
  cases h with
  | wide stem _ h =>
    rw [h]
    exact notMem_append_upperHex (hs stem) hc 4 _
  | restart _ h =>
    rw [h]
    exact notMem_append_upperHex (hs .restart) hc 2 _

/-! ### Local names -/

/-- What can follow the point of a local name, by what the name stands for.  Numbers count from one,
and the only loop of a block is not numbered. -/
inductive LocalText (stems : Stems) : Stem → String → Prop
  | onlyLoop : LocalText stems .loop stems.loop
  | loop (k : Nat) : LocalText stems .loop (stems.loop ++ toString (k + 1))
  | interior (k : Nat) : LocalText stems .interior (stems.interior ++ toString (k + 1))
  | code (a : Address) : LocalText stems .code (stems.code ++ upperHex 4 a.toNat)

theorem LocalText.notMem {stem : Stem} (h : stems.LocalText stem text) (hs : stems.Lacks c)
    (hc : c.isAlphanum = false) :
    c ∉ text.toList := by
  cases h with
  | onlyLoop => exact hs .loop
  | loop k => exact notMem_append_toString (hs .loop) hc (k + 1)
  | interior k => exact notMem_append_toString (hs .interior) hc (k + 1)
  | code a => exact notMem_append_upperHex (hs .code) hc 4 _

/-- The texts behind the point that an address can have in a block with the given loops and other
targets. -/
inductive Inside (stems : Stems) (loops targets : List Address) (a : Address) (text : String) :
    Stem → Prop
  | onlyLoop (hl : loops = [a]) (h : text = stems.loop) : Inside stems loops targets a text .loop
  | loop (k : Nat) (hk : loops[k]? = some a) (hl : loops.length ≠ 1)
      (h : text = stems.loop ++ toString (k + 1)) :
      Inside stems loops targets a text .loop
  | target (k : Nat) (hk : targets[k]? = some a) (h : text = stems.interior ++ toString (k + 1)) :
      Inside stems loops targets a text .interior
  | code (h : text = stems.code ++ upperHex 4 a.toNat) : Inside stems loops targets a text .code

theorem Inside.localText {loops targets : List Address} {stem : Stem}
    (h : stems.Inside loops targets a text stem) :
    stems.LocalText stem text := by
  cases h with
  | onlyLoop _ h =>
    rw [h]
    exact .onlyLoop
  | loop k _ _ h =>
    rw [h]
    exact .loop k
  | target k _ h =>
    rw [h]
    exact .interior k
  | code h =>
    rw [h]
    exact .code a

/-! ### Clashes -/

/-- Stems with which two places can get the same name: the stem of restarts is another one with two
digits behind it, or a text can follow the point of a local name for two reasons. -/
inductive Clash (stems : Stems) : Prop
  | restart (stem : Stem) (hs : stem ∈ Stem.globals) (k : Nat) (hpos : 0 < k) (hlt : k < 256)
      (h : stems.restart = stems.get stem ++ upperHex 2 k)
  | inside {stem stem' : Stem} {text : String} (hne : stem ≠ stem') (h : stems.LocalText stem text)
      (h' : stems.LocalText stem' text)

theorem clash_of_restart {stem : Stem} (hs : stem ∈ Stem.globals) (ha : a.toNat < 256) (hne : a ≠ b)
    (h : stems.restart ++ upperHex 2 a.toNat = stems.get stem ++ upperHex 4 b.toNat) :
    stems.Clash := by
  have hb := b.toNat_lt
  rw [upperHex_four, ← String.append_assoc] at h
  obtain ⟨hstem, hdigits⟩ := append_upperHex_inj h
  refine .restart stem hs (b.toNat / 256) ?_ (by omega) hstem
  -- With no digit before the last two both names would be about one address.
  rw [Nat.pos_iff_ne_zero]
  intro hzero
  exact hne (UInt16.toNat_inj.mp (by omega))

theorem Global.eq_or_clash (h : stems.Global a name) (h' : stems.Global b name) :
    a = b ∨ stems.Clash := by
  rw [Classical.or_iff_not_imp_left]
  intro hne
  have ha := a.toNat_lt
  have hb := b.toNat_lt
  cases h with
  | wide stem hs h =>
    cases h' with
    | wide stem' _ h' =>
      have hdigits := (append_upperHex_inj (h.symm.trans h')).2
      exact absurd (UInt16.toNat_inj.mp (by omega)) hne
    | restart hb' h' => exact clash_of_restart hs hb' (Ne.symm hne) (h'.symm.trans h)
  | restart ha' h =>
    cases h' with
    | wide stem' hs h' => exact clash_of_restart hs ha' hne (h.symm.trans h')
    | restart hb' h' =>
      have hdigits := (append_upperHex_inj (h.symm.trans h')).2
      exact absurd (UInt16.toNat_inj.mp (by omega)) hne

theorem Inside.eq_of_stem {loops targets : List Address} {stem : Stem}
    (h : stems.Inside loops targets a text stem) (h' : stems.Inside loops targets b text stem) :
    a = b := by
  have hat : ∀ {nodes : List Address} {before : String} {k j : Nat}, nodes[k]? = some a →
      nodes[j]? = some b → before ++ toString (k + 1) = before ++ toString (j + 1) → a = b := by
    intro nodes before k j hk hj heq
    obtain rfl : k = j := Nat.succ.inj (append_toString_inj heq)
    exact Option.some.inj (hk.symm.trans hj)
  cases h with
  | onlyLoop hl h =>
    cases h' with
    | onlyLoop hl' h' => exact (List.cons.inj (hl.symm.trans hl')).1
    | loop k hk hl' h' => exact absurd (congrArg List.length hl) hl'
  | loop k hk hl h =>
    cases h' with
    | onlyLoop hl' h' => exact absurd (congrArg List.length hl') hl
    | loop j hj hl' h' => exact hat hk hj (h.symm.trans h')
  | target k hk h =>
    cases h' with
    | target j hj h' => exact hat hk hj (h.symm.trans h')
  | code h =>
    cases h' with
    | code h' =>
      have ha := a.toNat_lt
      have hb := b.toNat_lt
      have hdigits := (append_upperHex_inj (h.symm.trans h')).2
      exact UInt16.toNat_inj.mp (by omega)

theorem Inside.eq_or_clash {loops targets : List Address} {stem stem' : Stem}
    (h : stems.Inside loops targets a text stem) (h' : stems.Inside loops targets b text stem') :
    a = b ∨ stems.Clash := by
  by_cases heq : stem = stem'
  · rw [← heq] at h'
    exact .inl (h.eq_of_stem h')
  · exact .inr (.inside heq h.localText h'.localText)

/-! ### Default stems -/

theorem lacks_plus_default : ({} : Stems).Lacks '+' := by
  intro stem
  cases stem <;> decide

/-- What a local name stands for where the stems are the default ones, told by the first two
characters of its text. -/
def kindOf (text : String) : Stem :=
  match text.toList with
  | 'C' :: _ => .code
  | _ :: c :: _ => if c.isDigit then .interior else .loop
  | _ => .loop

theorem LocalText.kindOf_eq {stem : Stem} (h : ({} : Stems).LocalText stem text) :
    kindOf text = stem := by
  unfold kindOf
  cases h with
  | onlyLoop => rfl
  | loop k =>
    rw [String.toList_append]
    rfl
  | interior k =>
    rw [String.toList_append]
    cases hdigits : (toString (k + 1)).toList with
    | nil => exact absurd (String.toList_eq_nil_iff.mp hdigits) Nat.repr_ne_empty
    | cons c rest =>
      have hc : c.isDigit = true :=
        isDigit_of_mem_toString (n := k + 1) (by rw [hdigits]; exact List.mem_cons_self)
      show (if c.isDigit = true then Stem.interior else Stem.loop) = .interior
      rw [if_pos hc]
  | code a =>
    rw [String.toList_append]
    rfl

theorem not_clash_default : ¬({} : Stems).Clash := by
  intro h
  cases h with
  | restart stem hs k _ _ h =>
    have hlength := congrArg (fun t : String => t.toList.length) h
    simp only [String.toList_append, List.length_append, upperHex, String.toList_ofList,
      length_hexDigits] at hlength
    -- No global stem is two characters shorter than that of restarts.
    revert hlength hs
    cases stem <;> decide
  | inside hne h h' => exact hne (h.kindOf_eq.symm.trans h'.kindOf_eq)

end Stems

end Z80Atlas
