/-
  Which role an answer credits.

  Of the roles that are granted an access, the first one in the order of their names is credited: a
  search through an ascending list finds the least element that passes.

  Core only.
-/
import FieldAccess.Oracle.ByRole

namespace FieldAccess

/-- In an ascending list, `find?` gives the least element that passes. -/
theorem find?_sorted {α : Type} [Ord α] [Std.TransOrd α] [Std.LawfulEqOrd α] {p : α → Bool}
    {as : List α} (hs : Ascending.Sorted as) {a : α} :
    as.find? p = some a ↔ a ∈ as ∧ p a = true ∧ ∀ b ∈ as, p b = true → compare b a ≠ .lt := by
  induction as with
  | nil => simp
  | cons c as ih =>
    obtain ⟨hc, hs⟩ := List.pairwise_cons.1 hs
    by_cases hp : p c = true
    · rw [List.find?_cons_of_pos hp, Option.some.injEq]
      constructor
      · rintro rfl
        refine ⟨List.mem_cons_self, hp, fun b hb _ hlt => ?_⟩
        rcases List.mem_cons.1 hb with rfl | hb
        · have hself : compare b b = .eq := Std.ReflCmp.compare_self
          rw [hself] at hlt
          cases hlt
        · exact Std.OrientedCmp.not_lt_of_lt (hc b hb) hlt
      · rintro ⟨ha, _, hmin⟩
        rcases List.mem_cons.1 ha with rfl | ha
        · rfl
        · exact absurd (hc a ha) (hmin c List.mem_cons_self hp)
    · rw [List.find?_cons_of_neg hp, ih hs]
      constructor
      · rintro ⟨ha, hpa, hmin⟩
        refine ⟨List.mem_cons_of_mem _ ha, hpa, fun b hb hpb => ?_⟩
        rcases List.mem_cons.1 hb with rfl | hb
        · exact absurd hpb hp
        · exact hmin b hb hpb
      · rintro ⟨ha, hpa, hmin⟩
        rcases List.mem_cons.1 ha with rfl | ha
        · exact absurd hpa hp
        · exact ⟨ha, hpa, fun b hb => hmin b (List.mem_cons_of_mem _ hb)⟩

/-- Roles that are granted an access credit the least of them. -/
theorem Verdict.role_forRoles {R : Type} [Modelled R] {roles : RoleSet} {subject : R} {a : Action}
    {f : String} {r : Role} :
    (forRoles roles subject a f).role = some r ↔
      r ∈ roles ∧ Modelled.grants subject a f r = true ∧
        ∀ r' ∈ roles, Modelled.grants subject a f r' = true → compare r' r ≠ .lt := by
  have hfind := find?_sorted (p := Modelled.grants subject a f) roles.sorted (a := r)
  rw [← SortedSet.mem_def] at hfind
  refine Iff.trans ?_ hfind
  -- without roles nothing is searched, and nothing would be found
  unfold forRoles
  split
  · next he =>
    have hl : roles.toList = [] := List.isEmpty_iff.1 he
    rw [hl]
    exact ⟨(fun e => by cases e), fun e => by cases e⟩
  · split
    · next r' h => rw [h]; rfl
    · next h => rw [h]; exact ⟨(fun e => by cases e), fun e => by cases e⟩

end FieldAccess
