/-
  What a declaration that is put together step by step grants.

  1. **Steps** — what each step has to say about one role, about the public and about the actions there
     are.

  2. **Roles** — the grant of a role depends on the steps that name it.  Once a role is granted
     everything it stays so: rules that come later are not appended, and those that came before are
     gone (`get?_roles_of_mem`).  A role that is never granted everything has all rules, in order
     (`get?_roles_ofSteps`).

  3. **Actions** — the known actions are those of the last list; without a list they are the built-in
     ones and those of all steps but the overruled ones (`mem_knownActions_ofSteps`).

  4. **Grants** — hence a grant is lost exactly where a role is granted everything, the action is not
     known, and the public does not have it either (`permits_of_steps`).

  Core only.
-/
import FieldAccess.Proofs.Policy.Checks
import FieldAccess.Proofs.Policy.Contributions

namespace FieldAccess

/-- A rule grants an action on a field. -/
def Rule.Grants (a : Action) (f : String) : Rule → Prop
  | everyField b => b = a
  | grant as fs => a ∈ as ∧ f ∈ fs

/-- What a rule grants, it gives, or else it gives the wildcard. -/
theorem Rule.Grants.gives {rule : Rule} {a : Action} {f : String} (h : rule.Grants a f)
    (publicFields : ActionTable) :
    f ∈ rule.gives publicFields a ∨ wildcard ∈ rule.gives publicFields a := by
  cases rule with
  | everyField b => exact Or.inr (mem_gives_everyField.2 ⟨h, rfl⟩)
  | grant as fs => exact Or.inl (mem_gives_grant.2 ⟨h.1, Or.inl h.2⟩)

namespace Declaration

/-! ## Steps -/

namespace Step

/-- The actions that a step names for the public or for a role. -/
def actions : Step → List Action
  | grantPublic a _ => [a]
  | appendRules _ rules => rules.flatMap Rule.actions
  | _ => []

/-- The rules that a step appends to those of a role. -/
def rulesFor (r : Role) : Step → List Rule
  | appendRules q rules => if q = r then rules else []
  | _ => []

theorem mem_rulesFor {r : Role} {s : Step} {rule : Rule} :
    rule ∈ s.rulesFor r ↔ ∃ rules, s = .appendRules r rules ∧ rule ∈ rules := by
  cases s with
  | appendRules q rules =>
    by_cases hq : q = r
    · simp [rulesFor, hq]
    · simp [rulesFor, hq]
  | _ => simp [rulesFor]

/-- The list of actions that a step gives. -/
def listed? : Step → Option (List Action)
  | listActions as => some as
  | _ => none

/-- What a step makes of the grant of a role. -/
def onRole (r : Role) (g : Option Grant) : Step → Option Grant
  | appendRules q rules => if r = q then some (mergeRules rules g) else g
  | grantEverything q => if r = q then some .everything else g
  | _ => g

/-- A step that appends rules is overruled if some step grants everything to the role. -/
def Overruled (steps : List Step) (s : Step) : Prop :=
  ∃ r rules, s = .appendRules r rules ∧ .grantEverything r ∈ steps

end Step

/-- The actions that some steps make known: those of the last list, or without a list the built-in ones
and those that the steps name, as far as they are not overruled. -/
def KnownBy (steps : List Step) (a : Action) : Prop :=
  match (steps.filterMap Step.listed?).getLast? with
  | some as => a ∈ as
  | none => a.isBuiltIn = true ∨ ∃ s ∈ steps, ¬ s.Overruled steps ∧ a ∈ s.actions

/-! ## Roles -/

section Roles

variable {r : Role} {steps : List Step}

theorem get?_roles_step (d : Declaration) (s : Step) (r : Role) :
    (d.step s).roles.get? r = s.onRole r (d.roles.get? r) := by
  cases s with
  | grantPublic a fields => rfl
  | listActions as => rfl
  | appendRules q rules =>
    show (d.roles.alter q (mergeRules rules)).get? r = if r = q then _ else _
    rw [OrderedMap.get?_alter]
    split
    · next h => rw [h]
    · rfl
  | grantEverything q => exact OrderedMap.get?_insert d.roles q r .everything

theorem get?_roles_foldl (steps : List Step) (d : Declaration) (r : Role) :
    (steps.foldl step d).roles.get? r = steps.foldl (Step.onRole r) (d.roles.get? r) := by
  induction steps generalizing d with
  | nil => rfl
  | cons s steps ih => rw [List.foldl_cons, ih, get?_roles_step, List.foldl_cons]

/-- A grant of everything stays. -/
theorem foldl_onRole_everything (r : Role) (steps : List Step) :
    steps.foldl (Step.onRole r) (some .everything) = some .everything := by
  induction steps with
  | nil => rfl
  | cons s steps ih =>
    have hs : s.onRole r (some .everything) = some .everything := by
      cases s with
      | grantPublic a fields => rfl
      | listActions as => rfl
      | appendRules q rules => exact ite_self (some Grant.everything)
      | grantEverything q => exact ite_self (some Grant.everything)
    rw [List.foldl_cons, hs, ih]

theorem foldl_onRole_of_mem (h : .grantEverything r ∈ steps) (g : Option Grant) :
    steps.foldl (Step.onRole r) g = some .everything := by
  induction steps generalizing g with
  | nil => cases h
  | cons s steps ih =>
    rcases List.mem_cons.1 h with rfl | h
    · have hs : (Step.grantEverything r).onRole r g = some .everything := if_pos rfl
      rw [List.foldl_cons, hs, foldl_onRole_everything]
    · exact ih h _

/-- Without a grant of everything, rules are appended to rules. -/
theorem foldl_onRole_rules (h : .grantEverything r ∉ steps) (rs : List Rule) :
    steps.foldl (Step.onRole r) (some (.rules rs)) =
      some (.rules (rs ++ steps.flatMap (Step.rulesFor r))) := by
  induction steps generalizing rs with
  | nil => rw [List.flatMap_nil, List.append_nil]; rfl
  | cons s steps ih =>
    obtain ⟨hs, hrest⟩ := not_or.1 (mt List.mem_cons.2 h)
    have hstep : s.onRole r (some (.rules rs)) = some (.rules (rs ++ s.rulesFor r)) := by
      cases s with
      | grantPublic a fields => exact congrArg (some ∘ Grant.rules) (List.append_nil rs).symm
      | listActions as => exact congrArg (some ∘ Grant.rules) (List.append_nil rs).symm
      | appendRules q rules =>
        by_cases hq : r = q
        · subst hq
          simp [Step.onRole, Step.rulesFor, mergeRules]
        · simp [Step.onRole, Step.rulesFor, hq, Ne.symm hq]
      | grantEverything q =>
        have hq : r ≠ q := fun e => hs (e ▸ rfl)
        simp [Step.onRole, Step.rulesFor, hq]
    rw [List.foldl_cons, hstep, ih hrest, List.flatMap_cons, List.append_assoc]

/-- Without a grant of everything, a role has no grant until rules are appended, and then those. -/
theorem foldl_onRole_none (h : .grantEverything r ∉ steps) :
    (∀ rules, .appendRules r rules ∉ steps) ∧ steps.foldl (Step.onRole r) none = none ∨
      steps.foldl (Step.onRole r) none = some (.rules (steps.flatMap (Step.rulesFor r))) := by
  induction steps with
  | nil => exact Or.inl ⟨fun _ => List.not_mem_nil, rfl⟩
  | cons s steps ih =>
    obtain ⟨hs, hrest⟩ := not_or.1 (mt List.mem_cons.2 h)
    -- a step about something else leaves it to the following ones
    have skip : s.onRole r none = none → s.rulesFor r = [] → (∀ rules, s ≠ .appendRules r rules) →
        (∀ rules, .appendRules r rules ∉ s :: steps) ∧
            (s :: steps).foldl (Step.onRole r) none = none ∨
          (s :: steps).foldl (Step.onRole r) none =
            some (.rules ((s :: steps).flatMap (Step.rulesFor r))) := by
      intro hn hr hne
      rw [List.foldl_cons, hn, List.flatMap_cons, hr, List.nil_append]
      refine (ih hrest).imp_left fun ⟨hm, hf⟩ => ⟨fun rules hmem => ?_, hf⟩
      rcases List.mem_cons.1 hmem with e | hmem
      · exact hne rules e.symm
      · exact hm rules hmem
    cases s with
    | grantPublic a fields => exact skip rfl rfl (fun _ e => by cases e)
    | listActions as => exact skip rfl rfl (fun _ e => by cases e)
    | grantEverything q =>
      have hq : r ≠ q := fun e => hs (e ▸ rfl)
      exact skip (if_neg hq) rfl (fun _ e => by cases e)
    | appendRules q rules =>
      by_cases hq : r = q
      · subst hq
        have hstep : (Step.appendRules r rules).onRole r none = some (.rules rules) := if_pos rfl
        have hr : (Step.appendRules r rules).rulesFor r = rules := if_pos rfl
        rw [List.foldl_cons, hstep, foldl_onRole_rules hrest, List.flatMap_cons, hr]
        exact Or.inr rfl
      · refine skip (if_neg hq) (if_neg (Ne.symm hq)) fun rules' e => ?_
        cases e
        exact hq rfl

/-- **A role that some step grants everything** is granted everything, and nothing else. -/
theorem get?_roles_of_mem (h : .grantEverything r ∈ steps) :
    (ofSteps steps).roles.get? r = some .everything := by
  unfold ofSteps
  rw [get?_roles_foldl, foldl_onRole_of_mem h]

/-- **A role that no step grants everything** has the rules that were appended to it. -/
theorem get?_roles_ofSteps (h : .grantEverything r ∉ steps) :
    (∀ rules, .appendRules r rules ∉ steps) ∧ (ofSteps steps).roles.get? r = none ∨
      (ofSteps steps).roles.get? r = some (.rules (steps.flatMap (Step.rulesFor r))) := by
  unfold ofSteps
  rw [get?_roles_foldl]
  exact foldl_onRole_none h

theorem mem_flatMap_rulesFor {rule : Rule} :
    rule ∈ steps.flatMap (Step.rulesFor r) ↔ ∃ rules, .appendRules r rules ∈ steps ∧ rule ∈ rules := by
  rw [List.mem_flatMap]
  simp only [Step.mem_rulesFor]
  exact ⟨fun ⟨_, hs, rules, e, hr⟩ => ⟨rules, e ▸ hs, hr⟩,
    fun ⟨rules, hs, hr⟩ => ⟨_, hs, rules, rfl, hr⟩⟩

end Roles

/-! ## The public -/

/-- A grant to the public is one more rule. -/
theorem mem_allPublicRules_step {d : Declaration} {s : Step} {rule : Rule} :
    rule ∈ (d.step s).allPublicRules ↔
      rule ∈ d.allPublicRules ∨ ∃ a fields, s = .grantPublic a fields ∧ rule = .single a fields := by
  have other : ∀ {s : Step}, (∀ a fields, s ≠ .grantPublic a fields) → (rule ∈ d.allPublicRules ↔
      rule ∈ d.allPublicRules ∨ ∃ a fields, s = .grantPublic a fields ∧ rule = .single a fields) := by
    intro s hs
    refine (or_iff_left ?_).symm
    rintro ⟨a, fields, e, _⟩
    exact hs a fields e
  cases s with
  | grantPublic a fields =>
    unfold allPublicRules
    rw [mem_flatMap_entries, mem_flatMap_entries]
    constructor
    · rintro ⟨k, rs, hk, hr⟩
      replace hk : (d.publicRules.alter a _).get? k = some rs := hk
      rw [OrderedMap.get?_alter] at hk
      split at hk
      · next h =>
        cases hk
        rcases List.mem_append.1 hr with hr | hr
        · cases hold : d.publicRules.get? a with
          | none =>
            rw [hold] at hr
            cases hr
          | some old =>
            rw [hold] at hr
            exact Or.inl ⟨a, old, hold, hr⟩
        · exact Or.inr ⟨a, fields, rfl, List.mem_singleton.1 hr⟩
      · exact Or.inl ⟨k, rs, hk, hr⟩
    · intro h
      have hget : ∀ k, (d.step (.grantPublic a fields)).publicRules.get? k =
          if k = a then some ((d.publicRules.get? a).getD [] ++ [Rule.single a fields])
          else d.publicRules.get? k := fun k => OrderedMap.get?_alter ..
      rcases h with ⟨k, rs, hk, hr⟩ | ⟨_, _, e, rfl⟩
      · by_cases ha : k = a
        · subst ha
          refine ⟨k, _, (hget k).trans (if_pos rfl), List.mem_append_left _ ?_⟩
          rw [hk]
          exact hr
        · exact ⟨k, rs, (hget k).trans ((if_neg ha).trans hk), hr⟩
      · cases e
        exact ⟨a, _, (hget a).trans (if_pos rfl), List.mem_append_right _ (List.mem_singleton.2 rfl)⟩
  | appendRules q rules => exact other fun _ _ e => by cases e
  | grantEverything q => exact other fun _ _ e => by cases e
  | listActions as => exact other fun _ _ e => by cases e

/-- The rules of the public are those of the steps that grant to the public. -/
theorem mem_allPublicRules_ofSteps {steps : List Step} {rule : Rule} :
    rule ∈ (ofSteps steps).allPublicRules ↔
      ∃ a fields, .grantPublic a fields ∈ steps ∧ rule = .single a fields := by
  have h : ∀ (steps : List Step) (d : Declaration), rule ∈ (steps.foldl step d).allPublicRules ↔
      rule ∈ d.allPublicRules ∨ ∃ a fields, .grantPublic a fields ∈ steps ∧ rule = .single a fields := by
    intro steps
    induction steps with
    | nil => simp
    | cons s steps ih =>
      intro d
      rw [List.foldl_cons, ih, mem_allPublicRules_step, or_assoc]
      simp only [List.mem_cons, or_and_right, exists_or, eq_comm (a := s)]
  rw [ofSteps, h]
  exact or_iff_right List.not_mem_nil

theorem mem_publicTable_ofSteps {steps : List Step} {a : Action} {f : String} :
    f ∈ (ofSteps steps).publicTable.fieldsOf a ↔ ∃ fields, .grantPublic a fields ∈ steps ∧ f ∈ fields := by
  rw [fieldsOf_publicTable, OrderedSet.mem_ofList, List.mem_flatMap]
  constructor
  · rintro ⟨rule, hr, hf⟩
    obtain ⟨b, fields, hs, rfl⟩ := mem_allPublicRules_ofSteps.1 hr
    obtain ⟨ha, hf⟩ := Rule.mem_gives_grant.1 hf
    rw [List.mem_singleton.1 ha]
    exact ⟨fields, hs, OrderedSet.mem_ofList.1 (hf.resolve_right (OrderedSet.not_mem_empty f))⟩
  · rintro ⟨fields, hs, hf⟩
    refine ⟨.single a fields, mem_allPublicRules_ofSteps.2 ⟨a, fields, hs, rfl⟩, ?_⟩
    exact Rule.mem_gives_grant.2 ⟨List.mem_singleton.2 rfl, Or.inl (OrderedSet.mem_ofList.2 hf)⟩

/-! ## Actions -/

/-- The last list of actions counts. -/
theorem actions_ofSteps (steps : List Step) :
    (ofSteps steps).actions = (steps.filterMap Step.listed?).getLast? := by
  have h : ∀ (steps : List Step) (d : Declaration), (steps.foldl step d).actions =
      (steps.filterMap Step.listed?).getLast?.or d.actions := by
    intro steps
    induction steps with
    | nil => exact fun d => rfl
    | cons s steps ih =>
      intro d
      rw [List.foldl_cons, ih]
      cases s with
      | listActions as =>
        show _ = (as :: steps.filterMap Step.listed?).getLast?.or d.actions
        rw [List.getLast?_cons]
        cases (steps.filterMap Step.listed?).getLast? <;> rfl
      | grantPublic a fields => rfl
      | appendRules q rules => rfl
      | grantEverything q => rfl
  rw [ofSteps, h]
  exact Option.or_none

/-- What the grants of the roles name comes from the steps that are not overruled. -/
theorem mem_actions_grants_ofSteps {steps : List Step} {a : Action} :
    a ∈ (ofSteps steps).grants.flatMap Grant.actions ↔
      ∃ r rules, .appendRules r rules ∈ steps ∧ .grantEverything r ∉ steps ∧
        a ∈ rules.flatMap Rule.actions := by
  rw [mem_flatMap_grants]
  constructor
  · rintro ⟨r, g, he, ha⟩
    have hget := OrderedMap.get?_eq_some_iff.2 he
    by_cases hall : .grantEverything r ∈ steps
    · rw [get?_roles_of_mem hall] at hget
      cases hget
      cases ha
    · rcases get?_roles_ofSteps hall with ⟨_, h⟩ | h
      · rw [h] at hget
        cases hget
      · rw [h] at hget
        cases hget
        obtain ⟨rule, hr, ha⟩ := List.mem_flatMap.1 ha
        obtain ⟨rules, hs, hr⟩ := mem_flatMap_rulesFor.1 hr
        exact ⟨r, rules, hs, hall, List.mem_flatMap.2 ⟨rule, hr, ha⟩⟩
  · rintro ⟨r, rules, hs, hall, ha⟩
    obtain ⟨rule, hr, ha⟩ := List.mem_flatMap.1 ha
    have hget := (get?_roles_ofSteps hall).resolve_left fun h => h.1 rules hs
    refine ⟨r, _, OrderedMap.get?_eq_some_iff.1 hget, ?_⟩
    exact List.mem_flatMap.2 ⟨rule, mem_flatMap_rulesFor.2 ⟨rules, hs, hr⟩, ha⟩

/-- **Known actions.** -/
theorem mem_knownActions_ofSteps {steps : List Step} {a : Action} :
    a ∈ (ofSteps steps).knownActions ↔ KnownBy steps a := by
  unfold knownActions KnownBy
  rw [actions_ofSteps]
  cases (steps.filterMap Step.listed?).getLast? with
  | some as => exact OrderedSet.mem_ofList
  | none =>
    show a ∈ OrderedSet.ofList (Action.builtIns ++ _ ++ _) ↔ _
    rw [OrderedSet.mem_ofList, List.mem_append, List.mem_append, Action.mem_builtIns, or_assoc,
      mem_actions_grants_ofSteps]
    refine or_congr_right ?_
    constructor
    · rintro (h | ⟨r, rules, hs, hall, ha⟩)
      · obtain ⟨rule, hr, ha⟩ := List.mem_flatMap.1 h
        obtain ⟨b, fields, hs, rfl⟩ := mem_allPublicRules_ofSteps.1 hr
        exact ⟨_, hs, (fun ⟨_, _, e, _⟩ => by cases e), ha⟩
      · refine ⟨_, hs, ?_, ha⟩
        rintro ⟨_, _, e, hover⟩
        cases e
        exact hall hover
    · rintro ⟨s, hs, hkept, ha⟩
      cases s with
      | grantPublic b fields =>
        refine Or.inl (List.mem_flatMap.2 ⟨.single b fields, ?_, ha⟩)
        exact mem_allPublicRules_ofSteps.2 ⟨b, fields, hs, rfl⟩
      | appendRules r rules =>
        exact Or.inr ⟨r, rules, hs, fun hall => hkept ⟨r, rules, rfl, hall⟩, ha⟩
      | grantEverything q => cases ha
      | listActions as => cases ha

/-! ## Grants -/

/-- A role that is granted everything is permitted the known actions, and what the public has if it is
the role of everyone. -/
theorem permits_of_everything {d : Declaration} {r : Role} {a : Action} {f : String}
    (h : d.roles.get? r = some .everything) :
    d.compile.permits r a f = true ↔
      a ∈ d.knownActions ∨ r = Role.everyone ∧
        (f ∈ d.publicTable.fieldsOf a ∨ wildcard ∈ d.publicTable.fieldsOf a) := by
  have given : ∀ {f : String}, d.Gives r a f →
      a ∈ d.knownActions ∨ r = Role.everyone ∧ f ∈ d.publicTable.fieldsOf a := by
    intro f hg
    cases hg with
    | publicField hf => exact Or.inr ⟨rfl, hf⟩
    | everything _ ha => exact Or.inl ha
    | rule hg _ _ =>
      rw [h] at hg
      cases hg
    | table hg _ =>
      rw [h] at hg
      cases hg
  rw [permits_compile]
  constructor
  · rintro (hg | hg)
    · exact (given hg).imp_right fun ⟨hr, hf⟩ => ⟨hr, Or.inl hf⟩
    · exact (given hg).imp_right fun ⟨hr, hf⟩ => ⟨hr, Or.inr hf⟩
  · rintro (ha | ⟨rfl, hf | hf⟩)
    · exact Or.inr (.everything h ha)
    · exact Or.inl (.publicField hf)
    · exact Or.inr (.publicField hf)

/-- Rules that are appended to a role which is not granted everything are all kept. -/
theorem permits_of_appended {steps : List Step} {r : Role} {rules : List Rule} {rule : Rule}
    {a : Action} {f : String} (hs : .appendRules r rules ∈ steps) (hr : rule ∈ rules)
    (h : rule.Grants a f) (hall : .grantEverything r ∉ steps) :
    (ofSteps steps).compile.permits r a f = true := by
  have hget := (get?_roles_ofSteps hall).resolve_left fun h => h.1 rules hs
  have hmem : rule ∈ steps.flatMap (Step.rulesFor r) := mem_flatMap_rulesFor.2 ⟨rules, hs, hr⟩
  rw [permits_compile]
  rcases h.gives (ofSteps steps).publicTable with hf | hf
  · exact Or.inl (.rule hget hmem hf)
  · exact Or.inr (.rule hget hmem hf)

end Declaration

namespace AccessTable

open Declaration

/-- **What steps grant.**  What is granted to the public is permitted to it.  What the rules of a role
grant is permitted to the role, unless some step grants everything to the role: then it is exactly if
the action is known, or the public has it and the role is that of everyone.  Without a list of actions,
a role that is granted everything is permitted on every field exactly the built-in actions and those
that the steps name which are not overruled. -/
theorem permits_of_steps {steps : List Step} {t : AccessTable} (h : ofSteps steps = .ok t) :
    (∀ a fields, .grantPublic a fields ∈ steps → ∀ f ∈ fields,
      t.permits Role.everyone a f = true) ∧
    (∀ r rules, .appendRules r rules ∈ steps → ∀ rule ∈ rules, ∀ a f, rule.Grants a f →
      (t.permits r a f = true ↔
        .grantEverything r ∉ steps ∨ KnownBy steps a ∨ r = Role.everyone ∧
          ∃ fields, .grantPublic a fields ∈ steps ∧ (f ∈ fields ∨ wildcard ∈ fields))) ∧
    (∀ r, .grantEverything r ∈ steps → (∀ as, .listActions as ∉ steps) → ∀ a,
      ((∀ f, t.permits r a f = true) ↔
        a.isBuiltIn = true ∨ ∃ s ∈ steps, ¬ s.Overruled steps ∧ a ∈ s.actions)) := by
  obtain ⟨-, rfl⟩ := build_eq_ok_iff.1 h
  refine ⟨?_, ?_, ?_⟩
  · intro a fields hs f hf
    exact permits_compile.2 (Or.inl (.publicField (mem_publicTable_ofSteps.2 ⟨fields, hs, hf⟩)))
  · intro r rules hs rule hr a f hg
    by_cases hall : .grantEverything r ∈ steps
    · rw [permits_of_everything (get?_roles_of_mem hall), mem_knownActions_ofSteps,
        mem_publicTable_ofSteps, mem_publicTable_ofSteps, or_iff_right (not_not_intro hall),
        ← exists_or]
      simp only [and_or_left]
    · exact iff_of_true (permits_of_appended hs hr hg hall) (Or.inl hall)
  · intro r hall hlist a
    have hnone : (steps.filterMap Step.listed?).getLast? = none := by
      rw [List.getLast?_eq_none_iff, List.filterMap_eq_nil_iff]
      intro s hs
      cases s with
      | listActions as => exact absurd hs (hlist as)
      | _ => rfl
    have hknown : KnownBy steps a ↔
        a.isBuiltIn = true ∨ ∃ s ∈ steps, ¬ s.Overruled steps ∧ a ∈ s.actions := by
      unfold KnownBy
      rw [hnone]
    simp only [permits_of_everything (get?_roles_of_mem hall), mem_knownActions_ofSteps, hknown,
      mem_publicTable_ofSteps]
    refine ⟨fun hp => ?_, fun hk f => Or.inl hk⟩
    -- what the public has is named by the step that grants it
    rcases hp wildcard with hk | ⟨-, hf⟩
    · exact hk
    · obtain ⟨fields, hs, -⟩ := hf.elim id id
      exact Or.inr ⟨_, hs, (fun ⟨_, _, e, _⟩ => by cases e), List.mem_singleton.2 rfl⟩

/-- Rules of two steps are kept side by side, and an action that only a rule names is known to a role that
was granted everything before. -/
theorem permits_of_steps_kept :
    let steps : List Step := [
      .grantEverything "admin",
      .appendRules "editor" [.grant [.update] (OrderedSet.ofList ["title"])],
      .grantPublic (.custom "rate") ["stars"],
      .appendRules "editor" [.everyField (.custom "publish")]]
    let t := (Declaration.ofSteps steps).compile
    ofSteps steps = .ok t ∧ t.permits Role.everyone (.custom "rate") "stars" = true ∧
      t.permits "editor" .update "title" = true ∧
      t.permits "editor" (.custom "publish") "title" = true ∧
      ∀ f, t.permits "admin" (.custom "publish") f = true := by
  intro steps t
  have h : ofSteps steps = .ok t := rfl
  obtain ⟨hpublic, hrules, hall⟩ := permits_of_steps h
  have hkept : .grantEverything "editor" ∉ steps := by decide
  have hadmin : .grantEverything "admin" ∈ steps := by decide
  have hlist : ∀ as, .listActions as ∉ steps := by simp [steps]
  refine ⟨h, ?_, ?_, ?_, ?_⟩
  · exact hpublic (.custom "rate") ["stars"] (by decide) "stars" (by decide)
  · exact (hrules "editor" [.grant [.update] (OrderedSet.ofList ["title"])] (by decide) _
      List.mem_cons_self .update "title" ⟨by decide, by decide⟩).2 (Or.inl hkept)
  · exact (hrules "editor" [.everyField (.custom "publish")] (by decide) _
      List.mem_cons_self (.custom "publish") "title" rfl).2 (Or.inl hkept)
  · refine (hall "admin" hadmin hlist (.custom "publish")).2 (Or.inr ⟨.appendRules "editor"
      [.everyField (.custom "publish")], by decide, ?_, by decide⟩)
    rintro ⟨_, _, e, hover⟩
    cases e
    exact hkept hover

/-- A rule is lost if its role is granted everything before or after, be it that the action is named by
that rule alone or that it is not in the list of actions. -/
theorem appended_rules_lost :
    let rule : Step := .appendRules "editor" [.everyField (.custom "publish")]
    let everything : Step := .grantEverything "editor"
    let listed : List Step := [.listActions [.read],
      .appendRules "editor" [.grant [.update] (OrderedSet.ofList ["title"])], everything]
    (∃ t, ofSteps [rule, everything] = .ok t ∧ t.permits "editor" (.custom "publish") "title" = false) ∧
    (∃ t, ofSteps [everything, rule] = .ok t ∧ t.permits "editor" (.custom "publish") "title" = false) ∧
    (∃ t, ofSteps listed = .ok t ∧ t.permits "editor" .update "title" = false) :=
  ⟨⟨_, rfl, by decide⟩, ⟨_, rfl, by decide⟩, ⟨_, rfl, by decide⟩⟩

end AccessTable

end FieldAccess
