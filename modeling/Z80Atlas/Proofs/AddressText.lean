import Mathlib.Data.List.Induction
import Mathlib.Data.List.TakeWhile
import Z80Atlas.Command.Address
import Z80Atlas.Word.Hex

/-!
# How addresses are spelled

A number is one or more digits, perhaps behind a plus sign.  An address is a hexadecimal number
behind `0x` or `$`, a hexadecimal number before `h`, or a decimal number.  Letters may be small or
capital, and blanks around the text do not count.  Reading accepts the texts that are spelled like
this and no others, gives the value that is spelled, and tells the numbers apart that are too large
for an address but not for 32 bits.
-/

namespace Z80Atlas.Command

variable {base d n : Nat} {c t x : Char} {cs : List Char}

/-! ### Digits -/

/-- The character is the digit of `d` in the base, in either case. -/
def Digit (base : Nat) (c : Char) (d : Nat) : Prop := d < base ∧ ∃ k, c = hexDigit k d

theorem char_le_iff {c c' : Char} : c ≤ c' ↔ c.toNat ≤ c'.toNat := by
  rw [Char.le_def, UInt32.le_iff_toNat_le]
  rfl

theorem eq_hexDigit_iff (hd : d < 16) : (∃ k, c = hexDigit k d) ↔
    d < 10 ∧ c.toNat = 48 + d ∨ 10 ≤ d ∧ (c.toNat = 55 + d ∨ c.toNat = 87 + d) := by
  have hvalid : ∀ m < 128, (Char.ofNat m).toNat = m := by decide
  have hcase : ∀ k, (c = hexDigit k d ↔ c.toNat = (hexDigit k d).toNat) :=
    fun k => Char.toNat_inj.symm
  have hexists : (∃ k, c = hexDigit k d) ↔ c = hexDigit .upper d ∨ c = hexDigit .lower d := by
    constructor
    · rintro ⟨k, h⟩
      cases k with
      | upper => exact .inl h
      | lower => exact .inr h
    · rintro (h | h)
      · exact ⟨_, h⟩
      · exact ⟨_, h⟩
  rw [hexists, hcase, hcase]
  unfold hexDigit
  split
  · rw [hvalid _ (by omega)]
    omega
  · dsimp only
    rw [hvalid _ (by omega), hvalid _ (by omega)]
    omega

theorem digitValue?_eq_some_iff : digitValue? base c = some d ↔
    d < base ∧
      (48 ≤ c.toNat ∧ c.toNat ≤ 57 ∧ d = c.toNat - 48 ∨
        97 ≤ c.toNat ∧ c.toNat ≤ 102 ∧ d = c.toNat - 87) := by
  have hfigure : ('0' ≤ c ∧ c ≤ '9') ↔ 48 ≤ c.toNat ∧ c.toNat ≤ 57 := by
    rw [char_le_iff, char_le_iff]
    rfl
  have hletter : ('a' ≤ c ∧ c ≤ 'f') ↔ 97 ≤ c.toNat ∧ c.toNat ≤ 102 := by
    rw [char_le_iff, char_le_iff]
    rfl
  unfold digitValue?
  simp only [hfigure, hletter, Option.filter_eq_some_iff, decide_eq_true_eq]
  rw [and_comm]
  refine and_congr_right fun _ => ?_
  split
  · rw [Option.some.injEq]
    omega
  · split
    · rw [Option.some.injEq]
      omega
    · simp only [reduceCtorEq, false_iff]
      omega

theorem digitValue?_toLower (hb : base ≤ 16) :
    digitValue? base c.toLower = some d ↔ Digit base c d := by
  unfold Digit
  rw [digitValue?_eq_some_iff, toNat_toLower]
  refine and_congr_right fun hd => ?_
  rw [eq_hexDigit_iff (by omega)]
  split <;> omega

/-! ### Numbers -/

/-- Digits, most significant first, of the value `n`. -/
inductive Digits (base : Nat) : List Char → Nat → Prop
  | one {c : Char} {d : Nat} (h : Digit base c d) : Digits base [c] d
  | more {cs : List Char} {c : Char} {n d : Nat} (hcs : Digits base cs n) (h : Digit base c d) :
      Digits base (cs ++ [c]) (n * base + d)

/-- Digits, perhaps behind a plus sign. -/
inductive Number (base : Nat) : List Char → Nat → Prop
  | plain {cs : List Char} {n : Nat} (h : Digits base cs n) : Number base cs n
  | plus {cs : List Char} {n : Nat} (h : Digits base cs n) : Number base ('+' :: cs) n

theorem Digits.ne_nil (h : Digits base cs n) : cs ≠ [] := by
  cases h with
  | one => exact List.cons_ne_nil _ _
  | more => simp

theorem Digits.digit (h : Digits base cs n) : ∀ c ∈ cs, ∃ d, Digit base c d := by
  induction h with
  | one h =>
    intro c hc
    rw [List.mem_singleton.mp hc]
    exact ⟨_, h⟩
  | more _ h ih =>
    intro c hc
    rcases List.mem_append.mp hc with hc | hc
    · exact ih c hc
    · rw [List.mem_singleton.mp hc]
      exact ⟨_, h⟩

theorem digits_snoc_iff : Digits base (cs ++ [c]) n ↔
    ∃ m d, (cs = [] ∧ m = 0 ∨ Digits base cs m) ∧ Digit base c d ∧ n = m * base + d := by
  constructor
  · intro h
    generalize htext : cs ++ [c] = text at h
    cases h with
    | @one c' _ hd =>
      have hsplit : cs ++ [c] = [] ++ [c'] := htext
      obtain ⟨hcs, hc⟩ := List.append_inj' hsplit rfl
      rw [← List.singleton_inj.mp hc] at hd
      exact ⟨0, n, .inl ⟨hcs, rfl⟩, hd, by omega⟩
    | more hdigits hd =>
      obtain ⟨hcs, hc⟩ := List.append_inj' htext rfl
      rw [← List.singleton_inj.mp hc] at hd
      rw [← hcs] at hdigits
      exact ⟨_, _, .inr hdigits, hd, rfl⟩
  · rintro ⟨m, d, ⟨rfl, rfl⟩ | hdigits, hd, rfl⟩
    · rw [Nat.zero_mul, Nat.zero_add]
      exact .one hd
    · exact .more hdigits hd

theorem digitsValue?_snoc (base n : Nat) (cs : List Char) (c : Char) :
    digitsValue? base n (cs ++ [c]) =
      (digitsValue? base n cs).bind fun m => (digitValue? base c).map fun d => m * base + d := by
  induction cs generalizing n with
  | nil =>
    show (digitValue? base c).bind _ = (digitValue? base c).map _
    cases digitValue? base c <;> rfl
  | cons c' rest ih =>
    show (digitValue? base c').bind _ = ((digitValue? base c').bind _).bind _
    cases digitValue? base c' with
    | none => rfl
    | some d => exact ih (n * base + d)

theorem digitsValue?_toLower (hb : base ≤ 16) (cs : List Char) (n : Nat) :
    digitsValue? base 0 (cs.map Char.toLower) = some n ↔ cs = [] ∧ n = 0 ∨ Digits base cs n := by
  -- The value is built up from the left, so the last digit is the one to take off.
  induction cs using List.reverseRecOn generalizing n with
  | nil =>
    have hnone : ¬Digits base [] n := fun h => h.ne_nil rfl
    simp [digitsValue?, hnone, eq_comm]
  | append_singleton cs c ih =>
    rw [List.map_append, List.map_singleton, digitsValue?_snoc, digits_snoc_iff,
      Option.bind_eq_some_iff]
    simp only [ih, Option.map_eq_some_iff, digitValue?_toLower hb]
    constructor
    · rintro ⟨m, hm, d, hd, rfl⟩
      exact .inr ⟨m, d, hm, hd, rfl⟩
    · rintro (⟨hnil, -⟩ | ⟨m, d, hm, hd, rfl⟩)
      · simp at hnil
      · exact ⟨m, hm, d, hd, rfl⟩

theorem Digits.plus_notMem (hb : base ≤ 16) (h : Digits base cs n) : '+' ∉ cs := by
  intro hmem
  obtain ⟨d, hd, hk⟩ := h.digit '+' hmem
  rw [eq_hexDigit_iff (by omega)] at hk
  have hplus : '+'.toNat = 43 := rfl
  omega

theorem numberValue?_of_ne_plus (hc : c ≠ '+') (base : Nat) (cs : List Char) :
    numberValue? base (c :: cs) = digitsValue? base 0 (c :: cs) := by
  unfold numberValue?
  split
  next heq => cases heq
  next heq => exact absurd (List.cons.inj heq).1 hc
  next heq => exact absurd (List.cons.inj heq).1 hc
  · rfl

theorem numberValue?_toLower (hb : base ≤ 16) (cs : List Char) (n : Nat) :
    numberValue? base (cs.map Char.toLower) = some n ↔ Number base cs n := by
  have hplus : ∀ {c : Char}, c.toLower = '+' ↔ c = '+' := toLower_eq_iff (.inl (by decide))
  have hdigits : ∀ c rest, digitsValue? base 0 ((c :: rest).map Char.toLower) = some n ↔
      Digits base (c :: rest) n := by
    intro c rest
    rw [digitsValue?_toLower hb]
    simp
  cases cs with
  | nil =>
    constructor
    · intro h
      cases h
    · intro h
      cases h with
      | plain h => exact absurd rfl h.ne_nil
  | cons c rest =>
    by_cases hc : c = '+'
    · subst hc
      constructor
      · intro h
        cases rest with
        | nil => cases h
        | cons c rest => exact .plus ((hdigits c rest).mp h)
      · intro h
        cases h with
        | plain h => exact absurd List.mem_cons_self (h.plus_notMem hb)
        | plus h =>
          cases rest with
          | nil => exact absurd rfl h.ne_nil
          | cons c rest => exact (hdigits c rest).mpr h
    · rw [List.map_cons, numberValue?_of_ne_plus fun h => hc (hplus.mp h), ← List.map_cons, hdigits]
      constructor
      · exact .plain
      · intro h
        cases h with
        | plain h => exact h
        | plus h => exact absurd rfl hc

/-! ### Addresses -/

/-- The text starts with `0x` or `$`. -/
def Marked (cs : List Char) : Prop :=
  ∃ rest, cs = '0' :: 'x' :: rest ∨ cs = '0' :: 'X' :: rest ∨ cs = '$' :: rest

/-- How an address of the value `n` is spelled. -/
inductive Spelled : List Char → Nat → Prop
  | zeroX {x : Char} {cs : List Char} {n : Nat} (hx : x = 'x' ∨ x = 'X') (h : Number 16 cs n) :
      Spelled ('0' :: x :: cs) n
  | dollar {cs : List Char} {n : Nat} (h : Number 16 cs n) : Spelled ('$' :: cs) n
  | suffixed {t : Char} {cs : List Char} {n : Nat} (hm : ¬Marked (cs ++ [t]))
      (ht : t = 'h' ∨ t = 'H') (h : Number 16 cs n) : Spelled (cs ++ [t]) n
  | decimal {cs : List Char} {n : Nat} (hm : ¬Marked cs)
      (ht : cs.getLast? ≠ some 'h' ∧ cs.getLast? ≠ some 'H') (h : Number 10 cs n) : Spelled cs n

theorem toLower_eq_x : c.toLower = 'x' ↔ c = 'x' ∨ c = 'X' := by
  have hx : 'x'.toNat = 120 ∧ 'X'.toNat = 88 := ⟨rfl, rfl⟩
  rw [← Char.toNat_inj, ← Char.toNat_inj, ← Char.toNat_inj, toNat_toLower]
  split <;> omega

theorem toLower_eq_h : c.toLower = 'h' ↔ c = 'h' ∨ c = 'H' := by
  have hh : 'h'.toNat = 104 ∧ 'H'.toNat = 72 := ⟨rfl, rfl⟩
  rw [← Char.toNat_inj, ← Char.toNat_inj, ← Char.toNat_inj, toNat_toLower]
  split <;> omega

theorem marked_zeroX (hx : x = 'x' ∨ x = 'X') (cs : List Char) : Marked ('0' :: x :: cs) := by
  rcases hx with rfl | rfl
  · exact ⟨cs, .inl rfl⟩
  · exact ⟨cs, .inr (.inl rfl)⟩

theorem marked_dollar (cs : List Char) : Marked ('$' :: cs) := ⟨cs, .inr (.inr rfl)⟩

theorem spelled_of_mark {rest : List Char}
    (hcs : cs = '0' :: 'x' :: rest ∨ cs = '0' :: 'X' :: rest ∨ cs = '$' :: rest) :
    Spelled cs n ↔ Number 16 rest n := by
  constructor
  · intro h
    cases h with
    | zeroX _ h =>
      rcases hcs with heq | heq | heq
      · exact (List.cons.inj (List.cons.inj heq).2).2 ▸ h
      · exact (List.cons.inj (List.cons.inj heq).2).2 ▸ h
      · simp at heq
    | dollar h =>
      rcases hcs with heq | heq | heq
      · simp at heq
      · simp at heq
      · exact (List.cons.inj heq).2 ▸ h
    | suffixed hm _ _ => exact absurd ⟨rest, hcs⟩ hm
    | decimal hm _ _ => exact absurd ⟨rest, hcs⟩ hm
  · intro h
    rcases hcs with rfl | rfl | rfl
    · exact .zeroX (.inl rfl) h
    · exact .zeroX (.inr rfl) h
    · exact .dollar h

theorem spelled_of_suffix (hm : ¬Marked (cs ++ [t])) (ht : t = 'h' ∨ t = 'H') :
    Spelled (cs ++ [t]) n ↔ Number 16 cs n := by
  constructor
  · intro h
    generalize htext : cs ++ [t] = text at h hm
    cases h with
    | zeroX hx _ => exact absurd (marked_zeroX hx _) hm
    | dollar _ => exact absurd (marked_dollar _) hm
    | suffixed _ _ h =>
      rw [(List.append_inj' htext rfl).1]
      exact h
    | decimal _ hlast h =>
      rw [← htext, List.getLast?_concat] at hlast
      rcases ht with rfl | rfl
      · exact absurd rfl hlast.1
      · exact absurd rfl hlast.2
  · exact .suffixed hm ht

theorem spelled_of_decimal (hm : ¬Marked cs)
    (ht : cs.getLast? ≠ some 'h' ∧ cs.getLast? ≠ some 'H') :
    Spelled cs n ↔ Number 10 cs n := by
  constructor
  · intro h
    cases h with
    | zeroX hx _ => exact absurd (marked_zeroX hx _) hm
    | dollar _ => exact absurd (marked_dollar _) hm
    | suffixed _ hlast h =>
      rw [List.getLast?_concat] at ht
      rcases hlast with rfl | rfl
      · exact absurd rfl ht.1
      · exact absurd rfl ht.2
    | decimal _ _ h => exact h
  · exact .decimal hm ht

theorem splitBase_of_not_marked (hm : ¬Marked cs) : splitBase (cs.map Char.toLower) =
    if (cs.map Char.toLower).getLast? = some 'h' then (16, (cs.map Char.toLower).dropLast)
    else (10, cs.map Char.toLower) := by
  have hzero : ∀ {c : Char}, c.toLower = '0' ↔ c = '0' := toLower_eq_iff (.inl (by decide))
  have hdollar : ∀ {c : Char}, c.toLower = '$' ↔ c = '$' := toLower_eq_iff (.inl (by decide))
  generalize htext : cs.map Char.toLower = text
  unfold splitBase
  split
  · obtain ⟨c, rest, rfl, hc, htail⟩ := List.map_eq_cons_iff.mp htext
    obtain ⟨x, rest, rfl, hx, -⟩ := List.map_eq_cons_iff.mp htail
    rw [hzero.mp hc] at hm
    exact absurd (marked_zeroX (toLower_eq_x.mp hx) rest) hm
  · obtain ⟨c, rest, rfl, hc, -⟩ := List.map_eq_cons_iff.mp htext
    rw [hdollar.mp hc] at hm
    exact absurd (marked_dollar rest) hm
  · rfl

theorem numberValue?_splitBase (cs : List Char) (n : Nat) :
    numberValue? (splitBase (cs.map Char.toLower)).1 (splitBase (cs.map Char.toLower)).2 = some n ↔
      Spelled cs n := by
  by_cases hm : Marked cs
  · obtain ⟨rest, hcs⟩ := hm
    have hsplit : splitBase (cs.map Char.toLower) = (16, rest.map Char.toLower) := by
      rcases hcs with rfl | rfl | rfl <;> rfl
    rw [hsplit, spelled_of_mark hcs]
    exact numberValue?_toLower (Nat.le_refl 16) rest n
  · rw [splitBase_of_not_marked hm]
    cases cs using List.reverseRecOn with
    | nil =>
      rw [spelled_of_decimal hm (by simp)]
      exact numberValue?_toLower (by decide) [] n
    | append_singleton cs t =>
      by_cases ht : t = 'h' ∨ t = 'H'
      · have hlast : ((cs ++ [t]).map Char.toLower).getLast? = some 'h' := by
          rw [List.map_append, List.map_singleton, List.getLast?_concat, toLower_eq_h.mpr ht]
        rw [if_pos hlast, spelled_of_suffix hm ht, List.map_append, List.map_singleton,
          List.dropLast_concat]
        exact numberValue?_toLower (Nat.le_refl 16) cs n
      · have hlast : ((cs ++ [t]).map Char.toLower).getLast? ≠ some 'h' := by
          rw [List.map_append, List.map_singleton, List.getLast?_concat]
          exact fun h => ht (toLower_eq_h.mp (Option.some.inj h))
        rw [if_neg hlast, spelled_of_decimal hm (by simpa [not_or] using ht)]
        exact numberValue?_toLower (show 10 ≤ 16 by decide) (cs ++ [t]) n

theorem Spelled.unique {n' : Nat} (h : Spelled cs n) (h' : Spelled cs n') : n = n' := by
  rw [← numberValue?_splitBase] at h h'
  exact Option.some.inj (h.symm.trans h')

theorem textValue?_toLower :
    textValue? (cs.map Char.toLower) = some n ↔ Spelled cs n ∧ n < 4294967296 := by
  unfold textValue?
  rw [Option.filter_eq_some_iff, numberValue?_splitBase, decide_eq_true_eq]

/-! ### Blanks -/

/-- The text without the blanks at its ends: what is left starts and ends with another character, if
there is any. -/
def Trims (cs text : List Char) : Prop :=
  ∃ before after, cs = before ++ text ++ after ∧ (∀ c ∈ before ++ after, Text.isBlank c = true) ∧
    (∀ c, text.head? = some c → Text.isBlank c = false) ∧
    ∀ c, text.getLast? = some c → Text.isBlank c = false

theorem head?_dropWhile_blank (h : (cs.dropWhile Text.isBlank).head? = some c) :
    Text.isBlank c = false := by
  have hnot := List.head?_dropWhile_not Text.isBlank cs
  rw [h] at hnot
  exact hnot

theorem trims_trimmed (cs : List Char) : Trims cs (Text.trimmed cs) := by
  unfold Text.trimmed
  have hfront := List.takeWhile_append_dropWhile (p := Text.isBlank) (l := cs)
  generalize hbody : cs.dropWhile Text.isBlank = body at hfront
  have hback := List.takeWhile_append_dropWhile (p := Text.isBlank) (l := body.reverse)
  refine ⟨cs.takeWhile Text.isBlank, (body.reverse.takeWhile Text.isBlank).reverse, ?_, ?_, ?_, ?_⟩
  · rw [List.append_assoc, ← List.reverse_append, hback, List.reverse_reverse, hfront]
  · intro c hc
    rcases List.mem_append.mp hc with hc | hc
    · exact List.mem_takeWhile_imp hc
    · exact List.mem_takeWhile_imp (List.mem_reverse.mp hc)
  · intro c hc
    -- The first character is that of the body, which the end does not reach.
    have hbodyHead : body.head? = some c := by
      have hsplit := congrArg List.reverse hback
      rw [List.reverse_append, List.reverse_reverse] at hsplit
      rw [← hsplit, List.head?_append, hc]
      rfl
    rw [← hbody] at hbodyHead
    exact head?_dropWhile_blank hbodyHead
  · intro c hc
    rw [List.getLast?_reverse] at hc
    exact head?_dropWhile_blank hc

/-! ### Reading -/

/-- What reading gives: an address, the complaint that the number is none, or that there is no
number of 32 bits. -/
inductive Reads (s : String) : Except AddressFault Address → Prop
  | address {n : Nat} (h : Spelled (Text.trim s).toList n) (hn : n < 65536) :
      Reads s (.ok (UInt16.ofNat n))
  | outside {n : Nat} (h : Spelled (Text.trim s).toList n) (hlow : 65536 ≤ n)
      (hhigh : n < 4294967296) :
      Reads s (.error (.outside (Text.trim s)))
  | invalid (h : ∀ n, Spelled (Text.trim s).toList n → 4294967296 ≤ n) :
      Reads s (.error (.invalid (Text.trim s)))

theorem reads_parseAddress (s : String) : Reads s (parseAddress s) := by
  unfold parseAddress
  dsimp only
  cases hvalue : textValue? ((Text.trim s).toList.map Char.toLower) with
  | none =>
    refine .invalid ?_
    intro n h
    by_contra hlt
    rw [textValue?_toLower.mpr ⟨h, by omega⟩] at hvalue
    cases hvalue
  | some n =>
    obtain ⟨h, hhigh⟩ := textValue?_toLower.mp hvalue
    dsimp only
    split
    next hn => exact .address h hn
    next hn => exact .outside h (by omega) hhigh

section

variable {s : String} {result : Except AddressFault Address}

theorem Reads.eq_ok_iff (h : Reads s result) (v : Address) :
    result = .ok v ↔ Spelled (Text.trim s).toList v.toNat := by
  have hv := v.toNat_lt
  cases h with
  | @address n h hn =>
    rw [Except.ok.injEq]
    constructor
    · rintro rfl
      rw [UInt16.toNat_ofNat_of_lt' hn]
      exact h
    · intro hspelled
      rw [h.unique hspelled, UInt16.ofNat_toNat]
  | outside h hlow _ =>
    refine iff_of_false nofun fun hspelled => ?_
    have heq := h.unique hspelled
    omega
  | invalid h =>
    refine iff_of_false nofun fun hspelled => ?_
    have hlarge := h _ hspelled
    omega

theorem Reads.eq_outside_iff (h : Reads s result) :
    result = .error (.outside (Text.trim s)) ↔
      ∃ n, Spelled (Text.trim s).toList n ∧ 65535 < n ∧ n ≤ 4294967295 := by
  cases h with
  | address h hn =>
    refine iff_of_false nofun ?_
    rintro ⟨m, hm, hlow, -⟩
    have heq := h.unique hm
    omega
  | outside h hlow hhigh => exact iff_of_true rfl ⟨_, h, by omega, by omega⟩
  | invalid h =>
    refine iff_of_false nofun ?_
    rintro ⟨m, hm, -, hhigh⟩
    have hlarge := h m hm
    omega

theorem Reads.eq_invalid_iff (h : Reads s result) :
    result = .error (.invalid (Text.trim s)) ↔
      ¬∃ n, Spelled (Text.trim s).toList n ∧ n ≤ 4294967295 := by
  cases h with
  | address h hn => exact iff_of_false nofun fun hnone => hnone ⟨_, h, by omega⟩
  | outside h _ hhigh => exact iff_of_false nofun fun hnone => hnone ⟨_, h, by omega⟩
  | invalid h =>
    refine iff_of_true rfl ?_
    rintro ⟨m, hm, hhigh⟩
    have hlarge := h m hm
    omega

end

theorem message_outside (text : String) :
    (AddressFault.outside text).message = "address '" ++ text ++ "' is outside 0..FFFFh" := rfl

theorem message_invalid (text : String) :
    (AddressFault.invalid text).message = "invalid address '" ++ text ++ "'" := rfl

theorem message_outside_ne_invalid (text text' : String) :
    (AddressFault.outside text).message ≠ (AddressFault.invalid text').message := by
  intro heq
  rw [message_outside, message_invalid] at heq
  have hfirst := congrArg (fun m => m.toList.head?) heq
  have ha : "address '".toList.head? = some 'a' := by decide
  have hi : "invalid address '".toList.head? = some 'i' := by decide
  simp only [String.toList_append, List.append_assoc, List.head?_append, ha, hi,
    Option.some_or] at hfirst
  simp at hfirst

theorem message_injective : Function.Injective AddressFault.message := by
  intro fault fault' heq
  cases fault with
  | outside text =>
    cases fault' with
    | outside text' =>
      rw [message_outside, message_outside, String.append_left_inj, String.append_right_inj] at heq
      rw [heq]
    | invalid text' => exact absurd heq (message_outside_ne_invalid text text')
  | invalid text =>
    cases fault' with
    | outside text' => exact absurd heq.symm (message_outside_ne_invalid text' text)
    | invalid text' =>
      rw [message_invalid, message_invalid, String.append_left_inj, String.append_right_inj] at heq
      rw [heq]

theorem exists_error_message_iff {result : Except AddressFault Address} (fault : AddressFault) :
    (∃ fault', result = .error fault' ∧ fault'.message = fault.message) ↔
      result = .error fault := by
  constructor
  · rintro ⟨fault', hresult, hmessage⟩
    rw [hresult, message_injective hmessage]
  · intro hresult
    exact ⟨fault, hresult, rfl⟩

/-- Reading accepts the spellings of addresses and no other text, and complains that a number is
outside exactly if it has 32 bits and is no address. -/
theorem address_language (s : String) :
    Trims s.toList (Text.trim s).toList ∧
      (∀ v, parseAddress s = .ok v ↔ Spelled (Text.trim s).toList v.toNat) ∧
      ((∃ fault, parseAddress s = .error fault ∧
        fault.message = "address '" ++ Text.trim s ++ "' is outside 0..FFFFh") ↔
        ∃ n, Spelled (Text.trim s).toList n ∧ 65535 < n ∧ n ≤ 4294967295) ∧
      ((∃ fault, parseAddress s = .error fault ∧
        fault.message = "invalid address '" ++ Text.trim s ++ "'") ↔
        ¬∃ n, Spelled (Text.trim s).toList n ∧ n ≤ 4294967295) := by
  have hreads := reads_parseAddress s
  refine ⟨?_, hreads.eq_ok_iff, ?_, ?_⟩
  · unfold Text.trim
    rw [String.toList_ofList]
    exact trims_trimmed s.toList
  · rw [← message_outside, exists_error_message_iff]
    exact hreads.eq_outside_iff
  · rw [← message_invalid, exists_error_message_iff]
    exact hreads.eq_invalid_iff

end Z80Atlas.Command
