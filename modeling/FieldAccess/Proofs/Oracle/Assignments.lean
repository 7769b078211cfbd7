/-
  Deciding by role assignments.

  1. **Grants** — a table grants an access to a role if one of its entries holds the field or the
     wildcard.  Nothing is put together from several fields: the wildcard has to be there itself.

  2. **Candidates** — the roles that are assigned to the actor and granted the access.  The verdict
     depends on the assignments through the roles that are held, and credits the first candidate in
     the order of the bytes of the names.

  3. **Main statement** — `verdict_of_assignments`: what the verdict says, and that order and repetition
     of the assignments do not matter.
-/
import FieldAccess.Models.Record
import FieldAccess.Proofs.Oracle.ByRole
import FieldAccess.Proofs.Text.Bytes

namespace FieldAccess

/-! ## Grants -/

/-- Under the role, the table has an entry for the action that holds the field or the wildcard. -/
def AccessTable.Grants (t : AccessTable) (r : Role) (a : Action) (f : String) : Prop :=
  ∃ u fs, (r, u) ∈ t.roles.entries ∧ (a, fs) ∈ u.entries ∧ (f ∈ fs ∨ wildcard ∈ fs)

/-- The table permits what one of its entries grants. -/
theorem AccessTable.grants_iff {t : AccessTable} {r : Role} {a : Action} {f : String} :
    t.Grants r a f ↔ t.permits r a f = true := by
  rw [permits_iff, or_comm, mem_authorizedFields, mem_authorizedFields]
  constructor
  · rintro ⟨u, fs, hu, hfs, hf⟩
    exact hf.imp (fun hf => ⟨u, fs, hu, hfs, hf⟩) fun hf => ⟨u, fs, hu, hfs, hf⟩
  · rintro (⟨u, fs, hu, hfs, hf⟩ | ⟨u, fs, hu, hfs, hf⟩)
    · exact ⟨u, fs, hu, hfs, Or.inl hf⟩
    · exact ⟨u, fs, hu, hfs, Or.inr hf⟩

variable {A R : Type} [Modelled R]

/-! ## Verdicts for roles -/

namespace Verdict

/-- A verdict for roles that are not empty searches them. -/
theorem forRoles_of_mem {roles : RoleSet} {r : Role} (hr : r ∈ roles) (subject : R) (a : Action)
    (f : String) :
    forRoles roles subject a f =
      match roles.toList.find? (Modelled.grants subject a f) with
      | some r => .grantedTo r
      | none => .deny (noRoleReason roles.toList a f (Modelled.modelName subject)) := by
  have hne : roles.isEmpty = false := by
    unfold SortedSet.isEmpty
    rw [List.isEmpty_eq_false_iff]
    exact List.ne_nil_of_mem hr
  unfold forRoles
  rw [hne]
  rfl

/-- A role is credited iff the access is allowed. -/
theorem allowed_eq_isSome_role (roles : RoleSet) (subject : R) (a : Action) (f : String) :
    (forRoles roles subject a f).allowed = (forRoles roles subject a f).role.isSome := by
  unfold forRoles
  split
  · rfl
  · split <;> rfl

/-- What starts otherwise is another text. -/
theorem ne_of_start {start reason : String} (h : ¬ start.toList <+: reason.toList) (rest : String) :
    start ++ rest ≠ reason := by
  rintro rfl
  exact h ⟨rest.toList, String.toList_append.symm⟩

theorem noRoleReason_ne (roles : List Role) (a : Action) (f model : String) :
    noRoleReason roles a f model ≠ "no applicable roles" := by
  unfold noRoleReason
  iterate 6 rw [String.append_assoc]
  exact ne_of_start (by decide) _

theorem grantedReason_ne (r : Role) : (grantedTo r).reason ≠ "no applicable roles" := by
  show "granted to role '" ++ r ++ "'" ≠ _
  rw [String.append_assoc]
  exact ne_of_start (by decide) _

/-- The reason that there are no roles is given iff there are none. -/
theorem reason_eq_iff {roles : RoleSet} {subject : R} {a : Action} {f : String} :
    (forRoles roles subject a f).reason = "no applicable roles" ↔ ∀ r, r ∉ roles := by
  constructor
  · intro h r hr
    rw [forRoles_of_mem hr] at h
    split at h
    · next r' _ => exact grantedReason_ne r' h
    · exact noRoleReason_ne _ _ _ _ h
  · intro h
    have hnil : roles.toList = [] := List.eq_nil_iff_forall_not_mem.2 h
    unfold forRoles SortedSet.isEmpty
    rw [hnil]
    rfl

end Verdict

/-! ## Candidates -/

namespace RoleAssignments

/-- The role is assigned to the actor, and the table of the instance grants it the access. -/
def Candidate (as : RoleAssignments A R) (q : Request A R) (r : Role) : Prop :=
  ∃ e ∈ as, e.role = r ∧ e.applies q.actor q.subject = true ∧
    (Modelled.permissions q.subject).Grants r q.action q.field

theorem candidate_iff {as : RoleAssignments A R} {q : Request A R} {r : Role} :
    as.Candidate q r ↔
      r ∈ as.held q.actor q.subject ∧ Modelled.grants q.subject q.action q.field r = true := by
  rw [mem_held]
  constructor
  · rintro ⟨e, he, hr, happlies, hg⟩
    exact ⟨⟨e, he, happlies, hr⟩, AccessTable.grants_iff.1 hg⟩
  · rintro ⟨⟨e, he, happlies, hr⟩, hg⟩
    exact ⟨e, he, hr, happlies, AccessTable.grants_iff.2 hg⟩

theorem candidate_append {as bs : RoleAssignments A R} {q : Request A R} {r : Role} :
    Candidate (as ++ bs) q r ↔ as.Candidate q r ∨ bs.Candidate q r := by
  simp only [Candidate, List.mem_append, or_and_right, exists_or]

/-- What the verdict on a request says, by the assignments. -/
structure Decides (as : RoleAssignments A R) (q : Request A R) (v : Verdict) : Prop where
  allowed_iff : v.allowed = true ↔ ∃ r, as.Candidate q r
  /-- An access is credited to the first candidate, by the bytes of the names. -/
  granted : v.allowed = true →
    ∃ r, v.role = some r ∧ as.Candidate q r ∧
      ∀ r', as.Candidate q r' → Text.bytes r ≤ Text.bytes r'
  denied : v.allowed = false → v.role = none
  reason_iff : v.reason = "no applicable roles" ↔ ∀ e ∈ as, e.applies q.actor q.subject = false

theorem decides_byRoles (as : RoleAssignments A R) (q : Request A R) :
    as.Decides q (Oracle.byRoles as.held q) where
  allowed_iff := by
    refine Verdict.allowed_forRoles.trans ?_
    simp only [candidate_iff]
  granted h := by
    rw [Oracle.byRoles, Verdict.allowed_eq_isSome_role] at h
    obtain ⟨r, hr⟩ := Option.isSome_iff_exists.1 h
    obtain ⟨hheld, hg, hleast⟩ := Verdict.role_forRoles.1 hr
    refine ⟨r, hr, candidate_iff.2 ⟨hheld, hg⟩, fun r' hr' => ?_⟩
    obtain ⟨hheld', hg'⟩ := candidate_iff.1 hr'
    exact List.not_lt.1 fun hlt => hleast r' hheld' hg' (Text.compare_eq_lt_iff.2 hlt)
  denied h := by
    rw [Oracle.byRoles, Verdict.allowed_eq_isSome_role] at h
    exact Option.not_isSome_iff_eq_none.1 (Bool.eq_false_iff.1 h)
  reason_iff := by
    refine Verdict.reason_eq_iff.trans ?_
    simp only [mem_held]
    constructor
    · intro h e he
      exact Bool.eq_false_iff.2 fun happlies => h e.role ⟨e, he, happlies, rfl⟩
    · rintro h r ⟨e, he, happlies, -⟩
      rw [h e he] at happlies
      cases happlies

/-- **What role assignments decide.**  For any assignments and any request, by a known actor or not: the
access is allowed iff some assignment applies whose role has an entry for the action that holds the
field or the wildcard.  The role with the least name in bytes is credited; a denial credits none, and
says that there are no roles iff no assignment applies.  Assignments with the same members give the
same verdict, whatever their order and however often they are repeated, and two lists together allow
what one of them allows.  An assignment to known actors applies to nobody else. -/
theorem verdict_of_assignments (as : RoleAssignments A R) (q : Request A R) :
    as.Decides q (Oracle.byRoles as.held q) ∧
      (∀ bs : RoleAssignments A R, (∀ e, e ∈ bs ↔ e ∈ as) →
        Oracle.byRoles bs.held q = Oracle.byRoles as.held q) ∧
      (∀ bs : RoleAssignments A R, (Oracle.byRoles (held (as ++ bs)) q).allowed = true ↔
        (Oracle.byRoles as.held q).allowed = true ∨ (Oracle.byRoles bs.held q).allowed = true) ∧
      ∀ r (p : A → R → Bool), (RoleAssignment.known r p).applies q.actor q.subject = true ↔
        ∃ x, q.actor = some x ∧ p x q.subject = true := by
  refine ⟨as.decides_byRoles q, fun bs h => ?_, fun bs => ?_, fun r p => ?_⟩
  · rw [held_congr h]
  · rw [(decides_byRoles (as ++ bs) q).allowed_iff, (as.decides_byRoles q).allowed_iff,
      (bs.decides_byRoles q).allowed_iff]
    simp only [candidate_append, exists_or]
  · show q.actor.any (fun x => p x q.subject) = true ↔ _
    exact Option.any_eq_true _ _

/-- Two roles are granted an access.  In whatever order and however often they are assigned, the one with
the first name is credited; nobody in particular is credited with the other. -/
theorem verdict_of_assignments_repeated :
    let editor : RoleAssignment Unit Record := .whenever "editor" fun _ _ => true
    let author : RoleAssignment Unit Record := .known "author" fun _ _ => true
    let both : OrderedMap Role ActionTable := .ofList [
      ("editor", .ofList [(.read, FieldSet.all)]), ("author", .ofList [(.read, .ofList ["title"])])]
    let subject : Record := ⟨⟨both⟩, ∅⟩
    (∀ e, e ∈ [author, editor, author] ↔ e ∈ [editor, author]) ∧
      Oracle.byRoles (held [author, editor, author]) ⟨some (), .read, subject, "title"⟩ =
        .grantedTo "author" ∧
      Oracle.byRoles (held [author, editor, author]) ⟨none, .read, subject, "title"⟩ =
        .grantedTo "editor" := by
  intro editor author both subject
  have hsame : ∀ e, e ∈ [author, editor, author] ↔ e ∈ [editor, author] := by
    intro e
    simp only [List.mem_cons, List.not_mem_nil, or_false]
    exact ⟨fun h => h.elim Or.inr id, Or.inr⟩
  refine ⟨hsame, ?_, ?_⟩
  · rw [(verdict_of_assignments [editor, author] _).2.1 _ hsame]
    decide
  · rw [(verdict_of_assignments [editor, author] _).2.1 _ hsame]
    decide

end RoleAssignments

end FieldAccess
