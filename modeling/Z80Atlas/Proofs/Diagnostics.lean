import Z80Atlas.Flow.Diagnostics

/-!
# Sorted diagnostics

Diagnostics are sorted by address and kind.  An analysis has one text for each kind and address, so
what is sorted in the end depends on which diagnostics there are, and not on the order in which they
came up.
-/

namespace Z80Atlas

namespace Diagnostic

theorem le_iff {d e : Diagnostic} :
    d.le e = true ↔ d.address.toNat < e.address.toNat ∨
      (d.address = e.address ∧ (compare d.kind e.kind).isLE = true) := by
  unfold le
  rw [Bool.or_eq_true, decide_eq_true_eq, Bool.and_eq_true, beq_iff_eq, UInt16.lt_iff_toNat_lt]

theorem kind_total :
    ∀ x y : DiagnosticKind, (compare x y).isLE = true ∨ (compare y x).isLE = true := by
  intro x y
  cases x <;> cases y <;> decide

theorem kind_trans :
    ∀ x y z : DiagnosticKind, (compare x y).isLE = true → (compare y z).isLE = true →
    (compare x z).isLE = true := by
  intro x y z
  cases x <;> cases y <;> cases z <;> decide

theorem kind_antisymm :
    ∀ x y : DiagnosticKind, (compare x y).isLE = true → (compare y x).isLE = true → x = y := by
  intro x y
  cases x <;> cases y <;> decide

theorem le_total (d e : Diagnostic) : (d.le e || e.le d) = true := by
  rw [Bool.or_eq_true, le_iff, le_iff]
  rcases Nat.lt_trichotomy d.address.toNat e.address.toNat with hlt | heq | hgt
  · exact .inl (.inl hlt)
  · have hae : d.address = e.address := UInt16.toNat_inj.mp heq
    cases kind_total d.kind e.kind with
    | inl hk => exact .inl (.inr ⟨hae, hk⟩)
    | inr hk => exact .inr (.inr ⟨hae.symm, hk⟩)
  · exact .inr (.inl hgt)

theorem le_trans (d e f : Diagnostic) (hde : d.le e = true) (hef : e.le f = true) :
    d.le f = true := by
  rw [le_iff] at hde hef ⊢
  rcases hde with hde | ⟨hde, hk⟩
  · rcases hef with hef | ⟨hef, -⟩
    · exact .inl (Nat.lt_trans hde hef)
    · rw [hef] at hde
      exact .inl hde
  · rcases hef with hef | ⟨hef, hk'⟩
    · rw [← hde] at hef
      exact .inl hef
    · exact .inr ⟨hde.trans hef, kind_trans _ _ _ hk hk'⟩

/-- Diagnostics at the same place in the order are of the same kind at the same address. -/
theorem eq_of_le {d e : Diagnostic} (hde : d.le e = true) (hed : e.le d = true) :
    d.address = e.address ∧ d.kind = e.kind := by
  rw [le_iff] at hde hed
  rcases hde with hde | ⟨hde, hk⟩
  · rcases hed with hed | ⟨hed, -⟩
    · omega
    · rw [hed] at hde
      omega
  · rcases hed with hed | ⟨-, hk'⟩
    · rw [hde] at hed
      omega
    · exact ⟨hde, kind_antisymm _ _ hk hk'⟩

/-- A diagnostic whose text is that for its kind and its address, as an analysis makes them. -/
def Standard (d : Diagnostic) : Prop := d = .ambiguousAt d.address ∨ d = .unassignedAt d.address

theorem Standard.eq {d e : Diagnostic} (hd : d.Standard) (he : e.Standard)
    (ha : d.address = e.address) (hk : d.kind = e.kind) : d = e := by
  unfold Standard at hd he
  rw [ha] at hd
  rcases hd with hd | hd
  · rcases he with he | he
    · exact hd.trans he.symm
    · rw [hd, he] at hk
      cases hk
  · rcases he with he | he
    · rw [hd, he] at hk
      cases hk
    · exact hd.trans he.symm

end Diagnostic

/-- Sorting forgets in which order standard diagnostics came up. -/
theorem Diagnostics.sorted_eq {ds es : Diagnostics} (hd : ∀ d ∈ ds.toList, d.Standard)
    (he : ∀ e ∈ es.toList, e.Standard) (hdn : ds.toList.Nodup) (hen : es.toList.Nodup)
    (hhas : ∀ kind a, ds.has kind a = true ↔ es.has kind a = true) : ds.sorted = es.sorted := by
  have hmem : ∀ {fs gs : Diagnostics}, (∀ d ∈ fs.toList, d.Standard) →
      (∀ d ∈ gs.toList, d.Standard) → (∀ kind a, fs.has kind a = true → gs.has kind a = true) →
      ∀ d ∈ fs.toList, d ∈ gs.toList := by
    intro fs gs hf hg himp d hmem
    obtain ⟨e, hmem', ha, hk⟩ :=
      has_iff.mp (himp d.kind d.address (has_iff.mpr ⟨d, hmem, rfl, rfl⟩))
    rw [← (hg e hmem').eq (hf d hmem) ha hk]
    exact hmem'
  have hperm : ds.toList.Perm es.toList := by
    rw [List.perm_ext_iff_of_nodup hdn hen]
    intro d
    constructor
    · exact hmem hd he (fun kind a => (hhas kind a).mp) d
    · exact hmem he hd (fun kind a => (hhas kind a).mpr) d
  unfold sorted
  have hsorted : (ds.toList.mergeSort Diagnostic.le).Perm (es.toList.mergeSort Diagnostic.le) :=
    (List.mergeSort_perm _ _).trans (hperm.trans (List.mergeSort_perm _ _).symm)
  refine hsorted.eq_of_pairwise ?_
    (List.pairwise_mergeSort Diagnostic.le_trans Diagnostic.le_total _)
      (List.pairwise_mergeSort Diagnostic.le_trans Diagnostic.le_total _)
  intro d e hds hes hde hed
  rw [List.mem_mergeSort] at hds hes
  obtain ⟨ha, hk⟩ := Diagnostic.eq_of_le hde hed
  exact (hd d hds).eq (he e hes) ha hk

end Z80Atlas
