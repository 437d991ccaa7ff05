import Mathlib.Logic.Relation
import Z80Atlas.Flow.Reach

/-!
# The search finds what can be reached

Every address that the search finds can be reached from where it started, since only steps from
addresses found before add any.  Nothing is missed: a step from an address that has been seen leads
to one that has been seen or is still pending, and at the end nothing is pending.
-/

namespace Z80Atlas

variable {next : Address → List Address} {seen : AddressSet} {pending starts : List Address}
  {a b x : Address}

/-- What is passed over in front of the pending addresses has been seen. -/
theorem mem_or_mem_dropWhile (hx : x ∈ pending) :
    x ∈ seen ∨ x ∈ pending.dropWhile (· ∈ seen) := by
  rw [← List.takeWhile_append_dropWhile (p := (· ∈ seen)) (l := pending), List.mem_append] at hx
  refine hx.imp_left fun htaken => ?_
  exact of_decide_eq_true (List.all_eq_true.mp List.all_takeWhile x htaken)

theorem mem_spread_of_mem (hx : x ∈ seen ∨ x ∈ pending) : x ∈ spread next seen pending := by
  fun_induction spread next seen pending with
  | case1 seen pending hdone =>
    rcases hx with hx | hx
    · exact hx
    · refine (mem_or_mem_dropWhile hx).resolve_right ?_
      rw [hdone]
      exact List.not_mem_nil
  | case2 seen pending c rest hstep ih =>
    refine ih ?_
    rw [AddressSet.mem_insert, List.mem_append]
    rcases hx.elim .inl mem_or_mem_dropWhile with hx | hx
    · exact .inl (.inr hx)
    · rw [hstep] at hx
      rcases List.mem_cons.mp hx with rfl | hrest
      · exact .inl (.inl rfl)
      · exact .inr (.inr hrest)

/-- What steps keep, and what is true of the addresses at the beginning, is true of all that are
found. -/
theorem spread_induction {P : Address → Prop} (hnext : ∀ a, P a → ∀ b ∈ next a, P b)
    (hseen : ∀ a ∈ seen, P a) (hpending : ∀ a ∈ pending, P a) :
    ∀ a ∈ spread next seen pending, P a := by
  fun_induction spread next seen pending with
  | case1 => exact hseen
  | case2 seen pending c rest hstep ih =>
    have hleft : ∀ a ∈ c :: rest, P a := by
      intro a ha
      rw [← hstep] at ha
      exact hpending a ((List.dropWhile_sublist _).mem ha)
    have hc := hleft c List.mem_cons_self
    refine ih ?_ ?_
    · intro b hb
      rcases AddressSet.mem_insert.mp hb with rfl | hb
      · exact hc
      · exact hseen b hb
    · intro b hb
      rcases List.mem_append.mp hb with hb | hb
      · exact hnext c hc b hb
      · exact hleft b (List.mem_cons_of_mem c hb)

/-- Steps do not lead out of what is found. -/
theorem spread_closed (hseen : ∀ a ∈ seen, ∀ b ∈ next a, b ∈ seen ∨ b ∈ pending)
    (ha : a ∈ spread next seen pending) (hb : b ∈ next a) : b ∈ spread next seen pending := by
  fun_induction spread next seen pending with
  | case1 seen pending hdone =>
    refine ((hseen a ha b hb).elim .inl mem_or_mem_dropWhile).resolve_right ?_
    rw [hdone]
    exact List.not_mem_nil
  | case2 seen pending c rest hstep ih =>
    refine ih ?_ ha
    intro x hx y hy
    rw [AddressSet.mem_insert, List.mem_append]
    rcases AddressSet.mem_insert.mp hx with rfl | hx
    · exact .inr (.inl hy)
    · rcases (hseen x hx y hy).elim .inl mem_or_mem_dropWhile with hy | hy
      · exact .inl (.inr hy)
      · rw [hstep] at hy
        rcases List.mem_cons.mp hy with rfl | hrest
        · exact .inl (.inl rfl)
        · exact .inr (.inr hrest)

theorem mem_reach :
    x ∈ reach next starts ↔ ∃ a ∈ starts, Relation.ReflTransGen (fun a b => b ∈ next a) a x := by
  unfold reach
  constructor
  · intro hx
    refine spread_induction
      (P := fun x => ∃ a ∈ starts, Relation.ReflTransGen (fun a b => b ∈ next a) a x) ?_ ?_ ?_ x hx
    · intro b ⟨a, ha, hab⟩ c hc
      exact ⟨a, ha, hab.tail hc⟩
    · intro a ha
      exact absurd ha (AddressSet.not_mem_empty a)
    · intro a ha
      exact ⟨a, ha, .refl⟩
  · intro ⟨a, ha, hax⟩
    induction hax with
    | refl => exact mem_spread_of_mem (.inr ha)
    | tail _ hstep ih =>
      refine spread_closed ?_ ih hstep
      intro c hc
      exact absurd hc (AddressSet.not_mem_empty c)

end Z80Atlas
