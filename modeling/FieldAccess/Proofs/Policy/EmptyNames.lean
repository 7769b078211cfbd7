/-
  Which declarations are refused for an empty name.

  1. **Places** — a declaration has names in six places: its roles, the actions and fields of its rules,
     the actions and fields of its mappings, and the actions that it lists.

  2. **Refusals** — the check looks at four of the places.  A declaration is refused iff one of these
     holds an empty name (`exists_error_iff`), and the defect tells where (`Reports`).

  3. **What passes** — the actions of mappings and the listed actions are not looked at.  So a table can
     have an entry for the action without a name, and `mem_empty_action_iff` says from where it comes;
     roles and fields of tables always have a name.
-/
import FieldAccess.Proofs.Policy.NormalForm

namespace FieldAccess

/-! ## Places -/

/-- Where a declaration has names. -/
inductive NamePlace where
  | role
  | ruleAction
  | ruleField
  | mappingAction
  | mappingField
  | listedAction
deriving DecidableEq

/-- The places that the check of a declaration looks at. -/
def NamePlace.isChecked : NamePlace → Bool
  | mappingAction => false
  | listedAction => false
  | _ => true

/-- The entries of the mapping that a grant is. -/
def Grant.mapping : Grant → List (Action × FieldSet)
  | table t => t.entries
  | _ => []

namespace Declaration

/-- All rules, those of the public first. -/
def allRules (d : Declaration) : List Rule := d.allPublicRules ++ d.grants.flatMap Grant.ruleList

/-- The entries of all mappings. -/
def mappings (d : Declaration) : List (Action × FieldSet) := d.grants.flatMap Grant.mapping

/-- The declaration has a name in a place. -/
def Names (d : Declaration) (n : String) : NamePlace → Prop
  | .role => ∃ e ∈ d.roles.entries, e.1 = n
  | .ruleAction => ∃ rule ∈ d.allRules, ∃ a ∈ rule.actions, a.name = n
  | .ruleField => ∃ rule ∈ d.allRules, n ∈ rule.fields
  | .mappingAction => ∃ e ∈ d.mappings, e.1.name = n
  | .mappingField => ∃ e ∈ d.mappings, n ∈ e.2
  | .listedAction => ∃ as, d.actions = some as ∧ ∃ a ∈ as, a.name = n

/-- Some name of the declaration is empty. -/
def HasEmptyName (d : Declaration) : Prop := ∃ place, d.Names "" place

/-- Some name is empty that the check looks at. -/
def HasEmptyCheckedName (d : Declaration) : Prop :=
  ∃ place : NamePlace, place.isChecked = true ∧ d.Names "" place

theorem mem_mappings {d : Declaration} {e : Action × FieldSet} :
    e ∈ d.mappings ↔ ∃ r t, (r, Grant.table t) ∈ d.roles.entries ∧ e ∈ t.entries := by
  refine mem_flatMap_grants.trans ?_
  constructor
  · rintro ⟨r, g, hm, he⟩
    cases g with
    | table t => exact ⟨r, t, hm, he⟩
    | everything => cases he
    | rules rs => cases he
  · rintro ⟨r, t, hm, he⟩
    exact ⟨r, .table t, hm, he⟩

theorem mem_allRules {d : Declaration} {rule : Rule} :
    rule ∈ d.allRules ↔
      rule ∈ d.allPublicRules ∨ ∃ r rs, (r, Grant.rules rs) ∈ d.roles.entries ∧ rule ∈ rs := by
  unfold allRules
  rw [List.mem_append, mem_flatMap_grants]
  refine or_congr_right ?_
  constructor
  · rintro ⟨r, g, hm, hr⟩
    cases g with
    | rules rs => exact ⟨r, rs, hm, hr⟩
    | everything => cases hr
    | table t => cases hr
  · rintro ⟨r, rs, hm, hr⟩
    exact ⟨r, .rules rs, hm, hr⟩

/-! ## Refusals -/

/-- A declaration passes the check iff no checked place has an empty name. -/
theorem named_iff {d : Declaration} : d.Named ↔ ¬ d.HasEmptyCheckedName := by
  constructor
  · rintro hn ⟨place, hc, hd⟩
    have hrules : ∀ rule ∈ d.allRules, rule.Named := by
      intro rule hrule
      rcases mem_allRules.1 hrule with h | ⟨r, rs, hm, hr⟩
      · exact hn.publicRules rule h
      · exact hn.grants _ hm rule hr
    cases place with
    | role =>
      obtain ⟨e, he, hr⟩ := hd
      exact hn.roles e he hr
    | ruleAction =>
      obtain ⟨rule, hrule, a, ha, hempty⟩ := hd
      exact (hrules rule hrule).1 a ha hempty
    | ruleField =>
      obtain ⟨rule, hrule, hf⟩ := hd
      exact (hrules rule hrule).2 hf
    | mappingField =>
      obtain ⟨e, he, hf⟩ := hd
      obtain ⟨r, t, hm, he⟩ := mem_mappings.1 he
      exact hn.grants _ hm e he hf
    | mappingAction => cases hc
    | listedAction => cases hc
  · intro h
    have hrules : ∀ rule ∈ d.allRules, rule.Named := by
      intro rule hrule
      constructor
      · intro a ha hempty
        exact h ⟨.ruleAction, rfl, rule, hrule, a, ha, hempty⟩
      · intro hf
        exact h ⟨.ruleField, rfl, rule, hrule, hf⟩
    constructor
    · intro rule hrule
      exact hrules rule (mem_allRules.2 (Or.inl hrule))
    · rintro ⟨r, g⟩ hm
      cases g with
      | everything => exact True.intro
      | rules rs =>
        intro rule hr
        exact hrules rule (mem_allRules.2 (Or.inr ⟨r, rs, hm, hr⟩))
      | table t =>
        intro e he hf
        exact h ⟨.mappingField, rfl, e, mem_mappings.2 ⟨r, t, hm, he⟩, hf⟩
    · intro e he hr
      exact h ⟨.role, rfl, e, he, hr⟩

/-- The defect is that of an empty name in the place that it tells. -/
def Reports (d : Declaration) : Defect → Prop
  | .emptyAction => d.Names "" .ruleAction
  | .emptyField => d.Names "" .ruleField
  | .emptyRole => d.Names "" .role
  | .emptyFieldOf r => ∃ t, d.roles.get? r = some (.table t) ∧ ∃ e ∈ t.entries, "" ∈ e.2
  | _ => False

theorem reports_of_rule {d : Declaration} {rule : Rule} (hr : rule ∈ d.allRules) {defect : Defect}
    (h : rule.check = .error defect) : d.Reports defect := by
  unfold Rule.check at h
  split at h
  · next ha =>
    cases h
    obtain ⟨a, ha, hempty⟩ := List.any_eq_true.1 ha
    exact ⟨rule, hr, a, ha, of_decide_eq_true hempty⟩
  · split at h
    · next hf =>
      cases h
      exact ⟨rule, hr, OrderedSet.contains_iff.1 hf⟩
    · cases h

theorem reports_of_grant {d : Declaration} {r : Role} {g : Grant} (hm : (r, g) ∈ d.roles.entries)
    {defect : Defect} (h : g.check r = .error defect) : d.Reports defect := by
  unfold Grant.check at h
  split at h
  · next hr =>
    cases h
    exact ⟨_, hm, hr⟩
  · cases g with
    | table t =>
      dsimp only at h
      split at h
      · next ht =>
        cases h
        obtain ⟨e, he, hf⟩ := List.any_eq_true.1 ht
        exact ⟨t, OrderedMap.get?_eq_some_iff.2 hm, e, he, OrderedSet.contains_iff.1 hf⟩
      · cases h
    | everything => cases h
    | rules rs => cases h

/-- Whatever defect the check finds is there. -/
theorem reports_of_check {d : Declaration} {defect : Defect} (h : d.check = .error defect) :
    d.Reports defect := by
  have h : (d.allPublicRules.forM Rule.check >>= fun _ =>
      (d.grants.flatMap Grant.ruleList).forM Rule.check >>= fun _ =>
        d.roles.entries.forM fun e => e.2.check e.1) = .error defect := h
  rcases bind_eq_error h with h | ⟨_, h⟩
  · obtain ⟨rule, hr, hf⟩ := exists_of_forM_eq_error h
    exact reports_of_rule (List.mem_append_left _ hr) hf
  rcases bind_eq_error h with h | ⟨_, h⟩
  · obtain ⟨rule, hr, hf⟩ := exists_of_forM_eq_error h
    exact reports_of_rule (List.mem_append_right _ hr) hf
  · obtain ⟨e, he, hf⟩ := exists_of_forM_eq_error h
    exact reports_of_grant he hf

/-! ## What passes -/

/-- The actions of a grant are those of its rules or of its mapping. -/
theorem names_of_mem_actions {d : Declaration} {r : Role} {g : Grant}
    (hg : (r, g) ∈ d.roles.entries) {a : Action} (h : a ∈ g.actions) :
    d.Names a.name .ruleAction ∨ d.Names a.name .mappingAction := by
  cases g with
  | everything => cases h
  | rules rs =>
    obtain ⟨rule, hr, ha⟩ := List.mem_flatMap.1 h
    exact Or.inl ⟨rule, mem_allRules.2 (Or.inr ⟨r, rs, hg, hr⟩), a, ha, rfl⟩
  | table t =>
    obtain ⟨e, he, rfl⟩ := List.mem_map.1 h
    exact Or.inr ⟨e, mem_mappings.2 ⟨r, t, hg, he⟩, rfl⟩

/-- The known actions are built in or listed, or come from rules and mappings. -/
theorem names_of_mem_knownActions {d : Declaration} {a : Action} (h : a ∈ d.knownActions) :
    a.isBuiltIn = true ∨ d.Names a.name .listedAction ∨ d.Names a.name .ruleAction ∨
      d.Names a.name .mappingAction := by
  unfold knownActions at h
  split at h
  · next as has => exact Or.inr (Or.inl ⟨as, has, a, OrderedSet.mem_ofList.1 h, rfl⟩)
  · rcases List.mem_append.1 (OrderedSet.mem_ofList.1 h) with h | h
    · rcases List.mem_append.1 h with h | h
      · exact Or.inl (Action.mem_builtIns.1 h)
      · obtain ⟨rule, hr, ha⟩ := List.mem_flatMap.1 h
        exact Or.inr (Or.inr (Or.inl ⟨rule, mem_allRules.2 (Or.inl hr), a, ha, rfl⟩))
    · obtain ⟨r, g, hg, ha⟩ := mem_flatMap_grants.1 h
      exact Or.inr (Or.inr (names_of_mem_actions hg ha))

/-- **Where an action without a name comes from**: the table of a declaration that passes the check has
an entry for it iff a mapping has, or it is listed and some role is granted everything. -/
theorem mem_empty_action_iff {d : Declaration} (hn : d.Named) :
    (∃ e ∈ d.compile.roles.entries, ∃ a ∈ e.2.keys, a.name = "") ↔
      d.Names "" .mappingAction ∨
        d.Names "" .listedAction ∧ ∃ r, d.roles.get? r = some .everything := by
  have hrule : ¬ d.Names "" .ruleAction := fun h => named_iff.1 hn ⟨.ruleAction, rfl, h⟩
  have hpublic : ∀ a ∈ d.publicTable.keys, a.name ≠ "" := by
    intro a h ha
    obtain ⟨rule, hr, hm⟩ := List.mem_flatMap.1 (mem_keys_publicTable.1 h)
    exact hrule ⟨rule, List.mem_append_left _ hr, a, hm, ha⟩
  constructor
  · rintro ⟨⟨r, u⟩, he, a, hk, ha⟩
    rcases role_of_mem_compile he with ⟨g, hg, rfl⟩ | ⟨_, rfl⟩
    · rcases ActionTable.mem_keys_applyGrant.1 hk with (⟨rfl, hknown⟩ | hgrant) | hstart
      · rcases names_of_mem_knownActions hknown with h | h | h | h
        · have hnamed : ∀ b ∈ Action.builtIns, b.name ≠ "" := by decide
          exact absurd ha (hnamed a (Action.mem_builtIns.2 h))
        · exact Or.inr ⟨ha ▸ h, r, OrderedMap.get?_eq_some_iff.2 hg⟩
        · exact absurd (ha ▸ h) hrule
        · exact Or.inl (ha ▸ h)
      · rcases names_of_mem_actions hg hgrant with h | h
        · exact absurd (ha ▸ h) hrule
        · exact Or.inl (ha ▸ h)
      · exact absurd ha (hpublic a (mem_keys_startOf hstart))
    · exact absurd ha (hpublic a hk)
  · -- in both cases the grant of some role makes the entry
    have hmade : ∀ r g, d.roles.get? r = some g → ∀ a : Action, a.name = "" →
        (g = .everything ∧ a ∈ d.knownActions ∨ a ∈ g.actions) →
          ∃ e ∈ d.compile.roles.entries, ∃ a ∈ e.2.keys, a.name = "" := by
      intro r g hg a ha hm
      have hget := d.get?_compile r
      rw [hg] at hget
      exact ⟨_, OrderedMap.get?_eq_some_iff.1 hget, a,
        ActionTable.mem_keys_applyGrant.2 (Or.inl hm), ha⟩
    rintro (⟨e, he, ha⟩ | ⟨⟨as, has, a, hm, ha⟩, r, hr⟩)
    · obtain ⟨r, t, hg, he⟩ := mem_mappings.1 he
      exact hmade r _ (OrderedMap.get?_eq_some_iff.2 hg) e.1 ha (Or.inr (List.mem_map_of_mem he))
    · have hknown : a ∈ d.knownActions := by
        unfold knownActions
        rw [has]
        exact OrderedSet.mem_ofList.2 hm
      exact hmade r _ hr a ha (Or.inl ⟨rfl, hknown⟩)

end Declaration

namespace AccessTable

open Declaration

theorem build_eq_error {d : Declaration} {defect : Defect} (h : build d = .error defect) :
    d.check = .error defect := by
  have h : (d.check >>= fun _ => pure d.compile) = .error defect := h
  rcases bind_eq_error h with h | ⟨_, h⟩
  · exact h
  · cases h

/-- A declaration is refused iff a checked place has an empty name. -/
theorem exists_error_iff {d : Declaration} :
    (∃ defect, build d = .error defect) ↔ d.HasEmptyCheckedName := by
  have hok : (∃ defect, build d = .error defect) ↔ ¬ d.Named := by
    constructor
    · rintro ⟨defect, h⟩ hn
      rw [build_eq_ok_iff.2 ⟨hn, rfl⟩] at h
      cases h
    · intro hn
      cases hb : build d with
      | error defect => exact ⟨defect, rfl⟩
      | ok t => exact absurd (build_eq_ok_iff.1 hb).1 hn
  rw [hok, named_iff]
  exact Classical.not_not

/-- **Which declarations are refused for an empty name, and what passes.**  A declaration is refused iff
a role, the action or the field of a rule, or the field of a mapping is empty, and the defect is that of
an empty name where it says.  Refusal is for any empty name at all exactly if the declaration has no
empty action in a mapping or in its list alone.  A table that is worked out has no empty role and no
empty field, and an empty action iff a mapping has it, or it is listed and a role is granted
everything. -/
theorem refusals_of_empty_names (d : Declaration) :
    ((∃ defect, build d = .error defect) ↔ d.HasEmptyCheckedName) ∧
    (∀ defect, build d = .error defect → d.Reports defect) ∧
    (((∃ defect, build d = .error defect) ↔ d.HasEmptyName) ↔
      (d.HasEmptyName → d.HasEmptyCheckedName)) ∧
    ∀ t, build d = .ok t → t.Filled ∧
      ((∃ e ∈ t.roles.entries, ∃ a ∈ e.2.keys, a.name = "") ↔
        d.Names "" .mappingAction ∨
          d.Names "" .listedAction ∧ ∃ r, d.roles.get? r = some .everything) := by
  refine ⟨exists_error_iff, fun defect h => reports_of_check (build_eq_error h), ?_, ?_⟩
  · rw [exists_error_iff]
    constructor
    · intro h
      exact h.2
    · intro h
      exact ⟨fun ⟨place, _, hd⟩ => ⟨place, hd⟩, h⟩
  · intro t ht
    obtain ⟨hn, rfl⟩ := build_eq_ok_iff.1 ht
    exact ⟨hn.filled, mem_empty_action_iff hn⟩

/-- The mapping of a role has an action without a name, and a list of actions has one too while a role is
granted everything; both declarations are worked out, with an entry for that action. -/
theorem build_of_empty_action :
    let mapped : Declaration := { roles := OrderedMap.ofList [
      ("friend", .table (OrderedMap.ofList [(.custom "", OrderedSet.ofList ["id"])]))] }
    let listed : Declaration :=
      { actions := some [.custom ""], roles := OrderedMap.ofList [("admin", .everything)] }
    mapped.Names "" .mappingAction ∧ build mapped = .ok mapped.compile ∧
      .custom "" ∈ (mapped.compile.actionsFor "friend").keys ∧
      listed.Names "" .listedAction ∧ build listed = .ok listed.compile ∧
      .custom "" ∈ (listed.compile.actionsFor "admin").keys := by
  intro mapped listed
  refine ⟨?_, rfl, by decide, ?_, rfl, by decide⟩
  · exact ⟨(.custom "", OrderedSet.ofList ["id"]), List.mem_cons_self, rfl⟩
  · exact ⟨_, rfl, .custom "", List.mem_cons_self, rfl⟩

end AccessTable

end FieldAccess
