/-
  A refusal tells nothing about the fields of an instance.

  1. **What a decision depends on** — an oracle that decides by roles looks at an instance through the
     roles that are held on it and through its table; the instance's own ruling comes from the
     protection and the entries of the overrides.

  2. **Alike** — two wrapped instances are alike for the actor if all of that is the same and the models
     have one name.  Their fields, names and values, may differ in whatever way.

  3. **Main statement** — every call ends with the same refusal on both, or with none on both
     (`refusals_of_alike`), and for an assignment the value does not matter either.

  Core only.
-/
import FieldAccess.Proofs.Guard.Calls
import FieldAccess.Models.Record

namespace FieldAccess

variable {ω A R : Type} [Resource R]

/-! ## What a decision depends on -/

omit [Resource R] in
/-- Roles and table are all that a decision by roles takes from an instance. -/
theorem Oracle.allows_byRoles_congr [Modelled R] {held : HeldRoles A R} {who : Option A} {r r' : R}
    (hr : held who r' = held who r) (ht : Modelled.permissions r' = Modelled.permissions r)
    (a : Action) (f : String) :
    (byRoles held).allows ⟨who, a, r', f⟩ = (byRoles held).allows ⟨who, a, r, f⟩ := by
  have hg : ∀ role, Modelled.grants r' a f role = Modelled.grants r a f role := by
    intro role
    unfold Modelled.grants
    rw [ht]
  rw [Bool.eq_iff_iff]
  show (Verdict.forRoles (held who r') r' a f).allowed = true ↔
    (Verdict.forRoles (held who r) r a f).allowed = true
  rw [Verdict.allowed_forRoles, Verdict.allowed_forRoles, hr]
  simp only [hg]

namespace Wrapper

theorem passes_congr {held : HeldRoles A R} {who : Option A} {w w' : Wrapper R}
    (hrule : ∀ a f, w'.ruling a f = w.ruling a f) (hr : held who w'.subject = held who w.subject)
    (ht : Modelled.permissions w'.subject = Modelled.permissions w.subject) (a : Action) (f : String) :
    w'.passes (Oracle.byRoles held) who a f = w.passes (Oracle.byRoles held) who a f := by
  unfold passes
  rw [hrule, Oracle.allows_byRoles_congr hr ht]

/-! ## Alike instances -/

/-- Two wrapped instances, each in surroundings of its own, are the same in all that a decision by
roles depends on. -/
structure Alike (held : HeldRoles A R) (actor : ω → Option A) (w : Wrapper R) (s : ω)
    (w' : Wrapper R) (s' : ω) : Prop where
  protection : w'.isProtected = w.isProtected
  entries : ∀ kind p, p ∈ (w'.overrides kind).pairs ↔ p ∈ (w.overrides kind).pairs
  who : actor s' = actor s
  model : Modelled.modelName w'.subject = Modelled.modelName w.subject
  table : Modelled.permissions w'.subject = Modelled.permissions w.subject
  roles : held (actor s) w'.subject = held (actor s) w.subject

section Alike

variable {held : HeldRoles A R} {actor : ω → Option A} {w w' : Wrapper R} {s s' : ω}

/-- A check of an alike instance refuses alike. -/
theorem Alike.refusal_check (h : Alike held actor w s w' s') (settings : GuardSettings) (a : Action)
    (f : String) :
    (w'.check (Guard.roleBased held actor settings) a f).refusal s' =
      (w.check (Guard.roleBased held actor settings) a f).refusal s := by
  have hs := Guard.silent_roleBased held actor settings
  have hrule : ∀ a f, w'.ruling a f = w.ruling a f := ruling_congr h.protection h.entries
  have hpass : ∀ a f, w'.passes (Oracle.byRoles held) (actor s) a f =
      w.passes (Oracle.byRoles held) (actor s) a f := passes_congr hrule h.roles h.table
  have hblame : w'.blamed (Oracle.byRoles held) (actor s) a f =
      w.blamed (Oracle.byRoles held) (actor s) a f := by
    unfold blamed
    rw [hrule, hpass]
  have hdenial : ∀ b, (Guard.roleBased held actor settings).denial w'.subject b f =
      (Guard.roleBased held actor settings).denial w.subject b f := by
    intro b
    unfold Guard.denial
    rw [h.model]
  have hw := Wrapper.refusal_check (hs.answers s) w a f rfl
  have hw' := Wrapper.refusal_check (hs.answers s') w' a f rfl
  -- both guards ask for the same actor
  have hwho : (Guard.roleBased held actor settings).actor s' = actor s := h.who
  rw [hwho, hpass, hblame, hdenial] at hw'
  exact hw'.trans hw.symm

/-- **A refusal reveals nothing about the instance.**  Under a guard that decides by roles, let two
wrapped instances be alike: the same protection and override entries, the same current actor, model
name, table and roles that the actor holds.  Their fields may differ in names and values.  Then
reading, assigning and clearing any field and deleting the row are refused on one iff they are on the
other, and with the same refusal; for an assignment even if the values differ. -/
theorem refusals_of_alike (h : Alike held actor w s w' s') (settings : GuardSettings) :
    (∀ f, (w'.read (Guard.roleBased held actor settings) f).refusal s' =
      (w.read (Guard.roleBased held actor settings) f).refusal s) ∧
    (∀ f v v', ((write (Guard.roleBased held actor settings) f v').answer w').refusal s' =
      ((write (Guard.roleBased held actor settings) f v).answer w).refusal s) ∧
    (∀ f, ((clear (Guard.roleBased held actor settings) f).answer w').refusal s' =
      ((clear (Guard.roleBased held actor settings) f).answer w).refusal s) ∧
    (w'.deleteRow (Guard.roleBased held actor settings)).refusal s' =
      (w.deleteRow (Guard.roleBased held actor settings)).refusal s := by
  have hc := h.refusal_check settings
  refine ⟨?_, ?_, ?_, ?_⟩
  · intro f
    rw [refusal_read, refusal_read]
    exact hc .read f
  · intro f v v'
    rw [refusal_write, refusal_write]
    exact hc .update f
  · intro f
    rw [refusal_clear, refusal_clear]
    exact hc .delete f
  · rw [refusal_deleteRow, refusal_deleteRow]
    exact hc .delete wildcard

end Alike

/-- Two records with one table deny updates of `salary`, and only one of them has that field.  Updating
it is refused on both as a reading that nobody may do, with values of different kinds. -/
theorem refusals_of_alike_missing_field :
    let table : AccessTable :=
      ⟨OrderedMap.ofList [("public", OrderedMap.ofList [(.read, OrderedSet.ofList ["name"])])]⟩
    let held : HeldRoles Unit Record := fun _ _ => SortedSet.ofList ["public"]
    let actor : Unit → Option Unit := fun _ => none
    let denied : Overrides := OrderedMap.ofList [(.update, OrderedSet.ofList ["salary"])]
    let w : Wrapper Record :=
      { subject := ⟨table, OrderedMap.ofList [("name", .null), ("salary", .string "90")]⟩
        isProtected := true, denied := denied }
    let w' : Wrapper Record :=
      { subject := ⟨table, OrderedMap.ofList [("name", .string "ann")]⟩
        isProtected := true, denied := denied }
    Alike held actor w () w' () ∧
      ((write (Guard.roleBased held actor {}) "salary" (.bool true)).answer w').refusal () =
        some ⟨"Record", .read, "salary", true⟩ := by
  intro table held actor denied w w'
  have h : Alike held actor w () w' () := ⟨rfl, fun _ _ => Iff.rfl, rfl, rfl, rfl, rfl⟩
  refine ⟨h, ?_⟩
  rw [(refusals_of_alike h {}).2.1 "salary" (.string "95") (.bool true)]
  decide

end Wrapper

end FieldAccess
