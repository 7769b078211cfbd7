/-
  Drafts that are written down as documents.

  1. **Transcripts** — a document transcribes a list of steps if it has a member for each action that is
     granted to the public, with a pair for each such step, a member for each role, with the wildcard or
     all rules that are appended to it, and the list of actions that was given last.  Actions and roles
     stand in the order of their first steps; how the three kinds of members are interleaved is left open.

  2. **Drafts in order** — the steps make the same entries in the same order, step by step.

  3. **Members** — a member of a transcript is read iff what the steps made of it is named, and then as
     that.  A draft is checked for empty fields when it is worked out, a document already when it is read.

  4. **Agreement** — so the declaration of a transcript is the draft itself (`ofJson_transcript`), and both
     are worked out to one table or both are refused (`ofDocument_of_transcribes`).
-/
import FieldAccess.Proofs.Policy.Acceptance
import FieldAccess.Proofs.Policy.Drafts
import FieldAccess.Proofs.Policy.NormalForm
import FieldAccess.Proofs.Policy.Reference

namespace FieldAccess

/-! ## Transcripts -/

/-- A pair of actions and fields. -/
def Json.pairOf (as : List Action) (fields : List String) : Json :=
  .array [.ofStrings (as.map Action.name), .ofStrings fields]

/-- A rule in the list of a role: an action by its name, a grant as a pair. -/
def Rule.toJson : Rule → Json
  | everyField a => .string a.name
  | grant as fs => .pairOf as fs.toList

namespace Declaration

namespace Step

/-- The action that a step grants to the public. -/
def publicAction? : Step → Option Action
  | grantPublic a _ => some a
  | _ => none

/-- The fields on which a step grants an action to the public. -/
def publicFields? (a : Action) : Step → Option (List String)
  | grantPublic b fields => if b = a then some fields else none
  | _ => none

/-- The role that a step is about. -/
def role? : Step → Option Role
  | appendRules r _ => some r
  | grantEverything r => some r
  | _ => none

/-- Only built-in actions are granted to the public, every action is the reading of its name, and no role
has a reserved name. -/
def Plain : Step → Prop
  | grantPublic a _ => a.isBuiltIn = true
  | appendRules r rules => IsRoleName r ∧ ∀ rule ∈ rules, ∀ a ∈ rule.actions, a.Plain
  | grantEverything r => IsRoleName r
  | listActions as => ∀ a ∈ as, a.Plain

instance : DecidablePred Plain
  | grantPublic a _ => inferInstanceAs (Decidable (a.isBuiltIn = true))
  | appendRules r rules =>
    inferInstanceAs (Decidable (IsRoleName r ∧ ∀ rule ∈ rules, ∀ a ∈ rule.actions, a.Plain))
  | grantEverything r => inferInstanceAs (Decidable (IsRoleName r))
  | listActions as => inferInstanceAs (Decidable (∀ a ∈ as, a.Plain))

end Step

section Transcripts

variable (steps : List Step)

/-- The actions granted to the public, in the order of their first steps. -/
def publicActions : List Action := (steps.filterMap Step.publicAction?).eraseDups

/-- The fields on which an action is granted to the public, step by step. -/
def publicCalls (a : Action) : List (List String) := steps.filterMap (Step.publicFields? a)

/-- The roles that steps are about, in the order of their first steps. -/
def namedRoles : List Role := (steps.filterMap Step.role?).eraseDups

/-- The entry of an action: one pair for each step. -/
def publicEntryOf (a : Action) : Json := .array ((publicCalls steps a).map (Json.pairOf [a]))

/-- The entry of a role: the wildcard, or all rules that are appended to it. -/
def roleEntryOf (r : Role) : Json :=
  if .grantEverything r ∈ steps then .string wildcard
  else .array ((steps.flatMap (Step.rulesFor r)).map Rule.toJson)

/-- The members for the public. -/
def publicMembers : List (String × Json) :=
  (publicActions steps).map fun a => (a.name, publicEntryOf steps a)

/-- The members of the roles. -/
def roleMembers : List (String × Json) := (namedRoles steps).map fun r => (r, roleEntryOf steps r)

/-- The member for the list of actions that was given last, if any was. -/
def listMembers : List (String × Json) :=
  (steps.filterMap Step.listed?).getLast?.toList.map fun as =>
    (actionsKey, .ofStrings (as.map Action.name))

/-- A document states what the steps do. -/
structure Transcribes (doc : List (String × Json)) : Prop where
  publicRules : doc.filter (fun m => IsActionKey m.1) = publicMembers steps
  roles : doc.filter (fun m => IsRoleKey m.1) = roleMembers steps
  actions : doc.filter (fun m => m.1 = actionsKey) = listMembers steps

/-- The transcript that has the members for the public first and the list of actions last. -/
def transcript : List (String × Json) := publicMembers steps ++ (roleMembers steps ++ listMembers steps)

/-- Steps that can be written down: each of them names only what has a name in a document. -/
def Transcribable : Prop := ∀ s ∈ steps, s.Plain

instance : Decidable (Transcribable steps) := inferInstanceAs (Decidable (∀ s ∈ steps, s.Plain))

end Transcripts

/-! ## Drafts in order -/

section Drafts

variable {steps : List Step} {a : Action} {r : Role}

theorem mem_publicActions : a ∈ publicActions steps ↔ ∃ fields, .grantPublic a fields ∈ steps := by
  unfold publicActions
  rw [List.mem_eraseDups, List.mem_filterMap]
  constructor
  · rintro ⟨s, hs, h⟩
    cases s with
    | grantPublic b fields =>
      cases h
      exact ⟨fields, hs⟩
    | _ => cases h
  · rintro ⟨fields, hs⟩
    exact ⟨_, hs, rfl⟩

theorem mem_publicCalls {fields : List String} :
    fields ∈ publicCalls steps a ↔ .grantPublic a fields ∈ steps := by
  unfold publicCalls
  rw [List.mem_filterMap]
  constructor
  · rintro ⟨s, hs, h⟩
    cases s with
    | grantPublic b fields' =>
      have h : (if b = a then some fields' else none) = some fields := h
      split at h
      · next hb =>
        cases h
        exact hb ▸ hs
      · cases h
    | _ => cases h
  · exact fun hs => ⟨_, hs, if_pos rfl⟩

theorem mem_namedRoles : r ∈ namedRoles steps ↔ ∃ s ∈ steps, s.role? = some r := by
  unfold namedRoles
  rw [List.mem_eraseDups, List.mem_filterMap]

/-- Keys to which each step adds the one that it names come in the order of their first steps. -/
theorem toList_ofSteps {α : Type} [DecidableEq α] (keys : Declaration → OrderedSet α)
    {names : Step → Option α} (hempty : keys {} = ∅)
    (hstep : ∀ d s, keys (d.step s) = (keys d).extend (names s).toList) (steps : List Step) :
    (keys (ofSteps steps)).toList = (steps.filterMap names).eraseDups := by
  have h : ∀ (steps : List Step) (d : Declaration),
      keys (steps.foldl step d) = (keys d).extend (steps.filterMap names) := by
    intro steps
    induction steps with
    | nil => exact fun d => rfl
    | cons s steps ih =>
      intro d
      rw [List.foldl_cons, ih, hstep]
      cases hs : names s with
      | none =>
        rw [List.filterMap_cons_none hs]
        rfl
      | some a =>
        rw [List.filterMap_cons_some hs]
        rfl
  rw [ofSteps, h, hempty]
  exact OrderedSet.toList_ofList _

/-- The actions of the public, in order. -/
theorem keys_publicRules_ofSteps (steps : List Step) :
    (ofSteps steps).publicRules.keys = publicActions steps := by
  refine toList_ofSteps (fun d => d.publicRules.domain) rfl (fun d s => ?_) steps
  cases s with
  | grantPublic a fields => exact OrderedMap.domain_alter ..
  | _ => rfl

/-- The roles, in order. -/
theorem keys_roles_ofSteps (steps : List Step) : (ofSteps steps).roles.keys = namedRoles steps := by
  refine toList_ofSteps (fun d => d.roles.domain) rfl (fun d s => ?_) steps
  cases s with
  | appendRules r rules => exact OrderedMap.domain_alter ..
  | grantEverything r => exact OrderedMap.domain_alter ..
  | _ => rfl

/-- An action has a rule of its own for each step that grants it to the public. -/
theorem get?_publicRules_ofSteps (steps : List Step) (a : Action) :
    ((ofSteps steps).publicRules.get? a).getD [] = (publicCalls steps a).map (Rule.single a) := by
  have h : ∀ (steps : List Step) (d : Declaration),
      ((steps.foldl step d).publicRules.get? a).getD [] =
        (d.publicRules.get? a).getD [] ++ (publicCalls steps a).map (Rule.single a) := by
    intro steps
    induction steps with
    | nil => exact fun d => (List.append_nil _).symm
    | cons s steps ih =>
      intro d
      rw [List.foldl_cons, ih]
      unfold publicCalls
      cases s with
      | grantPublic b fields =>
        have hget : (d.step (.grantPublic b fields)).publicRules.get? a =
            if a = b then some ((d.publicRules.get? b).getD [] ++ [Rule.single b fields])
            else d.publicRules.get? a := OrderedMap.get?_alter ..
        rw [hget]
        by_cases hb : a = b
        · subst hb
          have hs : (Step.grantPublic a fields).publicFields? a = some fields := if_pos rfl
          rw [if_pos rfl, List.filterMap_cons_some hs, List.map_cons, Option.getD_some,
            List.append_assoc, List.singleton_append]
        · have hs : (Step.grantPublic b fields).publicFields? a = none := if_neg (Ne.symm hb)
          rw [if_neg hb, List.filterMap_cons_none hs]
      | appendRules q rules => rfl
      | grantEverything q => rfl
      | listActions as => rfl
  exact h steps {}

/-- The rules of the public, in order. -/
theorem entries_publicRules_ofSteps (steps : List Step) :
    (ofSteps steps).publicRules.entries =
      (publicActions steps).map fun a => (a, (publicCalls steps a).map (Rule.single a)) := by
  rw [← keys_publicRules_ofSteps]
  refine OrderedMap.entries_eq_map_keys fun a ha => ?_
  obtain ⟨rules, hr⟩ := Option.isSome_iff_exists.1 (OrderedMap.isSome_get?_iff.2 ha)
  have hget := get?_publicRules_ofSteps steps a
  rw [hr] at hget
  rw [hr, ← hget]
  rfl

/-- What the steps grant a role. -/
def grantOf (steps : List Step) (r : Role) : Grant :=
  if .grantEverything r ∈ steps then .everything else .rules (steps.flatMap (Step.rulesFor r))

/-- The grants of the roles, in order. -/
theorem entries_roles_ofSteps (steps : List Step) :
    (ofSteps steps).roles.entries = (namedRoles steps).map fun r => (r, grantOf steps r) := by
  rw [← keys_roles_ofSteps]
  refine OrderedMap.entries_eq_map_keys fun r hr => ?_
  unfold grantOf
  split
  · next h => exact get?_roles_of_mem h
  · next h =>
    rcases get?_roles_ofSteps h with ⟨_, hn⟩ | hs
    · exact absurd hr (OrderedMap.get?_eq_none_iff.1 hn)
    · exact hs

end Drafts

/-! ## Members -/

section Members

theorem map_ofName_name {as : List Action} (hp : ∀ a ∈ as, a.Plain) :
    (as.map Action.name).map Action.ofName = as := by
  rw [List.map_map]
  exact (List.map_congr_left fun a ha => (hp a ha).ofName_name).trans (List.map_id as)

theorem actionList_ofStrings {owner : String} {as as' : List Action} (hp : ∀ a ∈ as, a.Plain) :
    actionList owner (.ofStrings (as.map Action.name)) = .ok as' ↔ as' = as := by
  have hne : ∀ n ∈ as.map Action.name, n ≠ "" :=
    List.forall_mem_map.2 fun a ha => (hp a ha).name_ne_empty
  rw [actionList_eq_ok_iff]
  constructor
  · rintro ⟨ns, e, -, rfl⟩
    have hns : as.map Action.name = ns := Json.Listing.unique (Or.inl rfl) (Or.inl e)
    rw [← hns, map_ofName_name hp]
  · rintro rfl
    exact ⟨_, rfl, hne, (map_ofName_name hp).symm⟩

/-- A pair is read iff it is named, and as the grant that it states. -/
theorem pair_pairOf {owner : String} {as : List Action} {fields : List String} {rule : Rule}
    (hp : ∀ a ∈ as, a.Plain) :
    pair owner (.pairOf as fields) = .ok rule ↔
      rule.Named ∧ rule = .grant as (OrderedSet.ofList fields) := by
  rw [pair_eq_ok_iff]
  constructor
  · rintro ⟨ns, ms, ⟨⟨v, w, e, hv, hw⟩, hn, hm⟩, rfl⟩
    cases e
    have hns : ns = as.map Action.name := hv.unique (Or.inl rfl)
    have hms : ms = fields := hw.unique (Or.inl rfl)
    rw [hns, hms, map_ofName_name hp]
    exact ⟨⟨fun a ha => (hp a ha).name_ne_empty, not_mem_ofList (hms ▸ hm)⟩, rfl⟩
  · rintro ⟨⟨hn, hf⟩, rfl⟩
    refine ⟨as.map Action.name, fields, ⟨⟨_, _, rfl, Or.inl rfl, Or.inl rfl⟩, ?_, ?_⟩, ?_⟩
    · exact List.forall_mem_map.2 hn
    · rintro f hm rfl
      exact hf (OrderedSet.mem_ofList.2 hm)
    · rw [map_ofName_name hp]

/-- So is the pair of a step that grants an action to the public. -/
theorem publicItem_pairOf {a : Action} (ha : a.Plain) {fields : List String} {p : String ⊕ Rule} :
    publicItem a (.pairOf [a] fields) = .ok p ↔
      (Rule.single a fields).Named ∧ p = .inr (Rule.single a fields) := by
  have hp : ∀ b ∈ [a], b.Plain := by simpa using ha
  rw [publicItem_eq_ok_iff]
  constructor
  · rintro (⟨n, e, _⟩ | ⟨rule, hr, rfl⟩)
    · cases e
    · obtain ⟨hn, rfl⟩ := (pair_pairOf hp).1 hr
      exact ⟨hn, rfl⟩
  · rintro ⟨hn, rfl⟩
    exact Or.inr ⟨_, (pair_pairOf hp).2 ⟨hn, rfl⟩, rfl⟩

/-- A rule in the list of a role is read iff it is named, and as itself. -/
theorem roleItem_toJson {r : Role} {rule rule' : Rule} (hp : ∀ a ∈ rule.actions, a.Plain) :
    roleItem r rule.toJson = .ok rule' ↔ rule.Named ∧ rule' = rule := by
  rw [roleItem_eq_ok_iff]
  cases rule with
  | everyField a =>
    have ha : a.Plain := hp a List.mem_cons_self
    have hn : (Rule.everyField a).Named :=
      ⟨fun b hb => List.mem_singleton.1 hb ▸ ha.name_ne_empty, OrderedSet.not_mem_empty ""⟩
    constructor
    · rintro (⟨n, e, -, rfl⟩ | h)
      · cases e
        exact ⟨hn, congrArg Rule.everyField ha.ofName_name⟩
      · cases h
    · rintro ⟨-, rfl⟩
      exact Or.inl ⟨a.name, rfl, ha.name_ne_empty, congrArg Rule.everyField ha.ofName_name.symm⟩
  | grant as fs =>
    have hpair : pair r (Rule.grant as fs).toJson = .ok rule' ↔ rule'.Named ∧ rule' = .grant as fs := by
      have h : pair r (.pairOf as fs.toList) = .ok rule' ↔
          rule'.Named ∧ rule' = .grant as (OrderedSet.ofList fs.toList) := pair_pairOf hp
      rw [OrderedSet.ofList_toList] at h
      exact h
    rw [hpair]
    constructor
    · rintro (⟨n, e, _⟩ | ⟨hn, rfl⟩)
      · cases e
      · exact ⟨hn, rfl⟩
    · rintro ⟨hn, rfl⟩
      exact Or.inr ⟨hn, rfl⟩

/-- An entry of pairs alone states their rules. -/
theorem gather_map_inr {a : Action} {rules : List Rule} (h : rules ≠ []) :
    gather a (rules.map .inr) = rules := by
  have hl : (rules.map Sum.inr).filterMap (Sum.getLeft? : String ⊕ Rule → Option String) = [] := by
    simp [List.filterMap_map, Function.comp_def]
  have hr : (rules.map Sum.inr).filterMap (Sum.getRight? : String ⊕ Rule → Option Rule) = rules := by
    simp [List.filterMap_map, Function.comp_def]
  have he : rules.isEmpty = false := by simpa using h
  unfold gather
  rw [hl, hr]
  show (if (!rules.isEmpty) = true then rules else _) = rules
  rw [he]
  rfl

variable {steps : List Step}

/-- **The entry of an action** is read iff its rules are named, and as these rules. -/
theorem publicEntry_publicEntryOf {a : Action} {rules : List Rule} (hp : a.Plain)
    (ha : a ∈ publicActions steps) :
    publicEntry a (publicEntryOf steps a) = .ok rules ↔
      (∀ rule ∈ rules, rule.Named) ∧ rules = (publicCalls steps a).map (Rule.single a) := by
  obtain ⟨fields, hs⟩ := mem_publicActions.1 ha
  have hc : (publicCalls steps a).map (Rule.single a) ≠ [] :=
    mt List.map_eq_nil_iff.1 (List.ne_nil_of_mem (mem_publicCalls.2 hs))
  have hitems : ∀ parts, ((publicCalls steps a).map (Json.pairOf [a])).mapM (publicItem a) = .ok parts ↔
      (∀ fields ∈ publicCalls steps a, (Rule.single a fields).Named) ∧
        parts = ((publicCalls steps a).map (Rule.single a)).map .inr := by
    intro parts
    rw [List.mapM_map, List.map_map]
    exact mapM_eq_ok_of_checked fun _ _ => publicItem_pairOf hp
  rw [publicEntry_eq_ok_iff]
  constructor
  · rintro ⟨items, parts, e, hm, rfl⟩
    cases e
    obtain ⟨hn, rfl⟩ := (hitems parts).1 hm
    rw [gather_map_inr hc]
    exact ⟨List.forall_mem_map.2 hn, rfl⟩
  · rintro ⟨hn, rfl⟩
    exact ⟨_, _, rfl, (hitems _).2 ⟨List.forall_mem_map.1 hn, rfl⟩, (gather_map_inr hc).symm⟩

/-- **The entry of a role** is read iff what the steps grant it is named, and as that. -/
theorem roleEntry_roleEntryOf {r : Role} {g : Grant}
    (hp : ∀ rule ∈ steps.flatMap (Step.rulesFor r), ∀ a ∈ rule.actions, a.Plain) :
    roleEntry r (roleEntryOf steps r) = .ok g ↔ g.Named ∧ g = grantOf steps r := by
  unfold roleEntryOf grantOf
  split
  · rw [roleEntry_string]
    constructor
    · rintro ⟨-, rfl⟩
      exact ⟨True.intro, rfl⟩
    · rintro ⟨-, rfl⟩
      exact ⟨rfl, rfl⟩
  · rw [roleEntry_array]
    constructor
    · rintro ⟨rs, hm, rfl⟩
      rw [List.mapM_map] at hm
      have hread : ∀ rule ∈ steps.flatMap (Step.rulesFor r), ∀ rule',
          roleItem r rule.toJson = .ok rule' → rule' = rule :=
        fun rule hr rule' h => ((roleItem_toJson (hp rule hr)).1 h).2
      have hrs : rs = (steps.flatMap (Step.rulesFor r)).map id := eq_map_of_mapM hread hm
      rw [List.map_id] at hrs
      refine ⟨fun rule hr => ?_, congrArg Grant.rules hrs⟩
      obtain ⟨x, hx, hi⟩ := (mem_of_mapM hm).1 hr
      obtain ⟨hn, rfl⟩ := (roleItem_toJson (hp x hx)).1 hi
      exact hn
    · rintro ⟨hn, rfl⟩
      refine ⟨_, ?_, rfl⟩
      rw [List.mapM_map, mapM_eq_ok_iff]
      exact List.map_congr_left fun rule hr => (roleItem_toJson (hp rule hr)).2 ⟨hn rule hr, rfl⟩

end Members

/-! ## Agreement -/

section Agreement

variable {steps : List Step} {doc : List (String × Json)} {parts : List Part}

theorem Transcribable.builtIn (ht : Transcribable steps) {a : Action}
    (ha : a ∈ publicActions steps) : a.isBuiltIn = true := by
  obtain ⟨fields, hs⟩ := mem_publicActions.1 ha
  exact ht _ hs

theorem Transcribable.plain_public (ht : Transcribable steps) {a : Action}
    (ha : a ∈ publicActions steps) : a.Plain := Action.plain_of_isBuiltIn (ht.builtIn ha)

theorem Transcribable.plain_rules (ht : Transcribable steps) (r : Role) :
    ∀ rule ∈ steps.flatMap (Step.rulesFor r), ∀ a ∈ rule.actions, a.Plain := by
  intro rule hr
  obtain ⟨rules, hs, hr⟩ := mem_flatMap_rulesFor.1 hr
  exact (ht _ hs).2 rule hr

theorem Transcribable.plain_listed (ht : Transcribable steps) {as : List Action}
    (h : as ∈ (steps.filterMap Step.listed?).getLast?.toList) : ∀ a ∈ as, a.Plain := by
  have hlast := List.mem_of_getLast? (Option.mem_toList.1 h)
  obtain ⟨s, hs, e⟩ := List.mem_filterMap.1 hlast
  cases s with
  | listActions bs =>
    cases e
    exact ht _ hs
  | _ => cases e

theorem Transcribable.isRoleName (ht : Transcribable steps) {r : Role} (hr : r ∈ namedRoles steps) :
    IsRoleName r := by
  obtain ⟨s, hs, e⟩ := mem_namedRoles.1 hr
  have hplain := ht s hs
  cases s with
  | appendRules q rules =>
    cases e
    exact hplain.1
  | grantEverything q =>
    cases e
    exact hplain
  | _ => cases e

/-- Steps that can be written down have a transcript. -/
theorem Transcribable.transcribes (ht : Transcribable steps) : Transcribes steps (transcript steps) := by
  have hpublic : ∀ m ∈ publicMembers steps, IsActionKey m.1 :=
    List.forall_mem_map.2 fun a ha => isActionKey_name (ht.builtIn ha)
  have hroles : ∀ m ∈ roleMembers steps, IsRoleKey m.1 :=
    List.forall_mem_map.2 fun r hr => isRoleKey_iff.2 (ht.isRoleName hr).2
  have hlist : ∀ m ∈ listMembers steps, m.1 = actionsKey := List.forall_mem_map.2 fun _ _ => rfl
  -- the three kinds of keys exclude each other, so each test keeps one of the three lists
  have all : ∀ {P : String × Json → Prop} [DecidablePred P] {ms : List (String × Json)},
      (∀ m ∈ ms, P m) → ms.filter (fun m => P m) = ms :=
    fun h => List.filter_eq_self.2 fun m hm => decide_eq_true (h m hm)
  have none : ∀ {P : String × Json → Prop} [DecidablePred P] {ms : List (String × Json)},
      (∀ m ∈ ms, ¬ P m) → ms.filter (fun m => P m) = [] :=
    fun h => List.filter_eq_nil_iff.2 fun m hm hp => h m hm (of_decide_eq_true hp)
  constructor
  · have hroles' : ∀ m ∈ roleMembers steps, ¬ IsActionKey m.1 := fun m hm => (hroles m hm).2
    have hlist' : ∀ m ∈ listMembers steps, ¬ IsActionKey m.1 :=
      fun m hm ha => ha.ne_actionsKey (hlist m hm)
    rw [transcript, List.filter_append, List.filter_append, all hpublic, none hroles', none hlist',
      List.append_nil, List.append_nil]
  · have hpublic' : ∀ m ∈ publicMembers steps, ¬ IsRoleKey m.1 := fun m hm hr => hr.2 (hpublic m hm)
    have hlist' : ∀ m ∈ listMembers steps, ¬ IsRoleKey m.1 := fun m hm hr => hr.1 (hlist m hm)
    rw [transcript, List.filter_append, List.filter_append, none hpublic', all hroles, none hlist',
      List.append_nil, List.nil_append]
  · have hpublic' : ∀ m ∈ publicMembers steps, m.1 ≠ actionsKey :=
      fun m hm => (hpublic m hm).ne_actionsKey
    have hroles' : ∀ m ∈ roleMembers steps, m.1 ≠ actionsKey := fun m hm => (hroles m hm).1
    rw [transcript, List.filter_append, List.filter_append, none hpublic', none hroles', all hlist,
      List.nil_append, List.nil_append]

/-- The members for the public are read as the rules of the steps. -/
theorem filterMap_publicRules_of_transcribes (ht : Transcribable steps) (hd : Transcribes steps doc)
    (hp : doc.mapM readPart = .ok parts) :
    parts.filterMap Part.publicRules? = (ofSteps steps).publicRules.entries := by
  have hread : (publicMembers steps).mapM readPublic = .ok (parts.filterMap Part.publicRules?) := by
    rw [← hd.publicRules]
    exact mapM_filter_publicRules hp
  unfold publicMembers at hread
  rw [List.mapM_map] at hread
  have hentries : ∀ a ∈ publicActions steps, ∀ e,
      readPublic (a.name, publicEntryOf steps a) = .ok e →
        e = (a, (publicCalls steps a).map (Rule.single a)) := by
    intro a ha e he
    obtain ⟨rules, hr, rfl⟩ := map_eq_ok.1 he
    have hplain := ht.plain_public ha
    have hr : publicEntry (Action.ofName a.name) (publicEntryOf steps a) = .ok rules := hr
    rw [hplain.ofName_name] at hr
    rw [((publicEntry_publicEntryOf hplain ha).1 hr).2]
    exact Prod.ext hplain.ofName_name rfl
  rw [eq_map_of_mapM hentries hread, entries_publicRules_ofSteps]

/-- The members of the roles are read as the grants of the steps. -/
theorem filterMap_role_of_transcribes (ht : Transcribable steps) (hd : Transcribes steps doc)
    (hp : doc.mapM readPart = .ok parts) :
    parts.filterMap Part.role? = (ofSteps steps).roles.entries := by
  have hread : (roleMembers steps).mapM readRole = .ok (parts.filterMap Part.role?) := by
    rw [← hd.roles]
    exact mapM_filter_role hp
  unfold roleMembers at hread
  rw [List.mapM_map] at hread
  have hentries : ∀ r ∈ namedRoles steps, ∀ e, readRole (r, roleEntryOf steps r) = .ok e →
      e = (r, grantOf steps r) := by
    intro r _ e he
    obtain ⟨g, hg, rfl⟩ := map_eq_ok.1 he
    rw [((roleEntry_roleEntryOf (ht.plain_rules r)).1 hg).2]
  rw [eq_map_of_mapM hentries hread, entries_roles_ofSteps]

/-- The list of actions is read as the last one that the steps give. -/
theorem filterMap_actions_of_transcribes (ht : Transcribable steps) (hd : Transcribes steps doc)
    (hp : doc.mapM readPart = .ok parts) :
    parts.filterMap Part.actions? = (steps.filterMap Step.listed?).getLast?.toList := by
  have hread : (listMembers steps).mapM (fun m => actionList actionsKey m.2) =
      .ok (parts.filterMap Part.actions?) := by
    rw [← hd.actions]
    exact mapM_filter_actions hp
  unfold listMembers at hread
  rw [List.mapM_map] at hread
  have hlists : ∀ as ∈ (steps.filterMap Step.listed?).getLast?.toList, ∀ bs,
      actionList actionsKey (.ofStrings (as.map Action.name)) = .ok bs → bs = id as :=
    fun as has bs => (actionList_ofStrings (ht.plain_listed has)).1
  rw [eq_map_of_mapM hlists hread, List.map_id]

/-- What a transcript is read as, is the draft. -/
theorem eq_ofSteps_of_ofJson (ht : Transcribable steps) (hd : Transcribes steps doc) {d : Declaration}
    (h : ofJson (.object doc) = .ok d) : d = ofSteps steps := by
  obtain ⟨parts, hp, rfl⟩ := parts_of_ofJson h
  have hactions : (parts.foldl take {}).actions = (ofSteps steps).actions := by
    rw [actions_foldl_take, filterMap_actions_of_transcribes ht hd hp, actions_ofSteps]
    cases (steps.filterMap Step.listed?).getLast? <;> rfl
  have hpublic : (parts.foldl take {}).publicRules = (ofSteps steps).publicRules := by
    rw [publicRules_foldl_take, filterMap_publicRules_of_transcribes ht hd hp]
    exact OrderedMap.ofList_entries _
  have hroles : (parts.foldl take {}).roles = (ofSteps steps).roles := by
    rw [roles_foldl_take, filterMap_role_of_transcribes ht hd hp]
    exact OrderedMap.ofList_entries _
  show Declaration.mk (parts.foldl take {}).actions (parts.foldl take {}).publicRules
    (parts.foldl take {}).roles = ofSteps steps
  rw [hactions, hpublic, hroles]

/-- A transcript of a named draft can be read. -/
theorem exists_ofJson_of_named (ht : Transcribable steps) (hd : Transcribes steps doc)
    (hn : (ofSteps steps).Named) : ∃ d, ofJson (.object doc) = .ok d := by
  rw [ofJson_eq, exists_map_iff, exists_mapM_eq_ok_iff]
  rintro ⟨k, v⟩ hm
  by_cases hl : k = actionsKey
  · have hmem : (k, v) ∈ listMembers steps :=
      hd.actions ▸ List.mem_filter.2 ⟨hm, decide_eq_true hl⟩
    obtain ⟨as, has, e⟩ := List.mem_map.1 hmem
    cases e
    rw [readPart_actions rfl, exists_map_iff]
    exact ⟨as, (actionList_ofStrings (ht.plain_listed has)).2 rfl⟩
  by_cases ha : IsActionKey k
  · have hmem : (k, v) ∈ publicMembers steps :=
      hd.publicRules ▸ List.mem_filter.2 ⟨hm, decide_eq_true ha⟩
    obtain ⟨a, hp, e⟩ := List.mem_map.1 hmem
    cases e
    have hplain := ht.plain_public hp
    rw [readPart_publicRules ha, exists_map_iff, hplain.ofName_name]
    refine ⟨_, (publicEntry_publicEntryOf hplain hp).2 ⟨List.forall_mem_map.2 ?_, rfl⟩⟩
    intro fields hs
    exact hn.publicRules _ (mem_allPublicRules_ofSteps.2 ⟨a, fields, mem_publicCalls.1 hs, rfl⟩)
  · have hmem : (k, v) ∈ roleMembers steps :=
      hd.roles ▸ List.mem_filter.2 ⟨hm, decide_eq_true ⟨hl, ha⟩⟩
    obtain ⟨r, hr, e⟩ := List.mem_map.1 hmem
    cases e
    have hentry : (k, grantOf steps k) ∈ (ofSteps steps).roles.entries := by
      rw [entries_roles_ofSteps]
      exact List.mem_map_of_mem hr
    rw [readPart_role ⟨hl, ha⟩ (ht.isRoleName hr).1, exists_map_iff]
    exact ⟨_, (roleEntry_roleEntryOf (ht.plain_rules k)).2 ⟨hn.grants _ hentry, rfl⟩⟩

/-- **The declaration of a transcript** is the draft, which must be named. -/
theorem ofJson_transcript (ht : Transcribable steps) (hd : Transcribes steps doc) {d : Declaration} :
    ofJson (.object doc) = .ok d ↔ (ofSteps steps).Named ∧ d = ofSteps steps := by
  constructor
  · intro h
    have he := eq_ofSteps_of_ofJson ht hd h
    exact ⟨he ▸ (plain_of_ofJson h).named, he⟩
  · rintro ⟨hn, rfl⟩
    obtain ⟨d, h⟩ := exists_ofJson_of_named ht hd hn
    rw [h, eq_ofSteps_of_ofJson ht hd h]

end Agreement

end Declaration

namespace AccessTable

open Declaration

/-- **Drafts and documents agree.**  Steps that can be written down have a transcript.  The steps and any
transcript of them are worked out to the same table, orders included, or both are refused. -/
theorem ofDocument_of_transcribes {steps : List Step} (ht : Transcribable steps) :
    Transcribes steps (transcript steps) ∧
    ∀ doc, Transcribes steps doc →
      (∃ t, ofSteps steps = .ok t ∧ ofDocument (.object doc) = .ok t) ∨
      ∃ e e', ofSteps steps = .error e ∧ ofDocument (.object doc) = .error e' := by
  refine ⟨ht.transcribes, fun doc hd => ?_⟩
  by_cases hn : (Declaration.ofSteps steps).Named
  · have hj := (ofJson_transcript ht hd).2 ⟨hn, rfl⟩
    exact Or.inl ⟨_, build_eq_ok_iff.2 ⟨hn, rfl⟩, ofDocument_eq hj⟩
  · refine Or.inr ?_
    cases hs : ofSteps steps with
    | ok t => exact absurd (build_eq_ok_iff.1 hs).1 hn
    | error e =>
      cases hv : ofDocument (.object doc) with
      | ok t =>
        obtain ⟨d, hj, _⟩ := bind_eq_ok.1 hv
        exact absurd ((ofJson_transcript ht hd).1 hj).1 hn
      | error e' => exact ⟨e, e', rfl, rfl⟩

/-- Repeated steps on one key, an empty list of rules and one of fields, and a transcript that mixes the
kinds of members. -/
theorem ofDocument_of_transcribes_interleaved :
    let steps : List Step := [
      .grantPublic .read ["id", "name", "id"],
      .appendRules "self" [.everyField (.custom "ban"), .grant [.update] (OrderedSet.ofList ["name"])],
      .listActions [.delete],
      .grantEverything "admin",
      .grantPublic .update [],
      .appendRules "guest" [],
      .grantPublic .read ["age"],
      .appendRules "self" [.everyField .read],
      .listActions [.read, .custom "ban"]]
    let pairs (ps : List (String × List String)) : Json :=
      .array (ps.map fun p => .array [.ofStrings [p.1], .ofStrings p.2])
    let doc : List (String × Json) := [
      ("self", .array [.string "ban", .array [.ofStrings ["update"], .ofStrings ["name"]],
        .string "read"]),
      ("read", pairs [("read", ["id", "name", "id"]), ("read", ["age"])]),
      ("admin", .string "*"),
      ("actions", .ofStrings ["read", "ban"]),
      ("update", pairs [("update", [])]),
      ("guest", .array [])]
    ∃ t, ofSteps steps = .ok t ∧ ofDocument (.object doc) = .ok t := by
  intro steps pairs doc
  have ht : Transcribable steps := by decide
  have hd : Transcribes steps doc := ⟨rfl, rfl, rfl⟩
  rcases (ofDocument_of_transcribes ht).2 doc hd with h | ⟨e, _, he, _⟩
  · exact h
  · cases he

end AccessTable

end FieldAccess
