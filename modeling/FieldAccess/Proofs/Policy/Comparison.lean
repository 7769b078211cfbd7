/-
  Declarations whose tables are the same, whatever the order.

  1. **Tables** — `sameAs` compares the roles, the actions of each role and the fields of each action, as
     sets (`AccessTable.sameAs_iff`).

  2. **Rules** — two lists of rules are alike if they name the same actions and give the same fields.

  3. **Grants** — two grants are alike if they are of one kind with alike contents; and a grant of
     everything is alike to rules that spell the known actions out, but for the role of everyone, whose
     public fields the former replaces and the latter keep.

  4. **Declarations** — `Matches R` compares two declarations role by role.  With alike grants they are
     worked out to the same table (`Matches.sameAs_compile`); with grants that permit the same, to tables
     that permit the same (`Matches.permits_compile_eq`).
-/
import FieldAccess.Proofs.Policy.Reference

namespace FieldAccess

/-! ## Optional values -/

section Options

variable {α β : Type} {R : α → β → Prop} {o : Option α} {o' : Option β}

theorem optionRel_of_forall (hto : ∀ a, o = some a → ∃ b, o' = some b ∧ R a b)
    (hfrom : ∀ b, o' = some b → ∃ a, o = some a ∧ R a b) : Option.Rel R o o' := by
  cases o with
  | some a =>
    obtain ⟨b, rfl, hr⟩ := hto a rfl
    exact .some hr
  | none =>
    cases o' with
    | none => exact .none
    | some b =>
      obtain ⟨a, e, _⟩ := hfrom b rfl
      cases e

theorem exists_of_optionRel (h : Option.Rel R o o') {a : α} (ha : o = some a) :
    ∃ b, o' = some b ∧ R a b := by
  subst ha
  cases h with
  | some hr => exact ⟨_, rfl, hr⟩

theorem optionRel_swap {S : β → α → Prop} (h : Option.Rel R o o') (hs : ∀ a b, R a b → S b a) :
    Option.Rel S o' o := by
  cases h with
  | none => exact .none
  | some hr => exact .some (hs _ _ hr)

theorem isSome_iff_of_optionRel (h : Option.Rel R o o') : o.isSome = true ↔ o'.isSome = true := by
  cases h <;> exact Iff.rfl

end Options

/-! ## Tables -/

section Maps

variable {κ ν : Type} [DecidableEq κ]

/-- Two maps agree iff they have the same keys, and accepted values under each of them. -/
theorem OrderedMap.agrees_iff {same : ν → ν → Bool} {m n : OrderedMap κ ν} :
    m.agrees same n = true ↔
      (∀ k, k ∈ m.keys ↔ k ∈ n.keys) ∧
        ∀ k v w, m.get? k = some v → n.get? k = some w → same v w = true := by
  have hdomain : (∀ k, k ∈ m.keys ↔ k ∈ n.keys) ↔
      m.entries.length = n.entries.length ∧ ∀ k ∈ m.keys, k ∈ n.keys := by
    have h := OrderedSet.sameMembers_iff (s := m.domain) (t := n.domain)
    simp only [OrderedSet.mem_def, OrderedMap.toList_domain] at h
    rw [← h]
    simp [OrderedSet.sameMembers, keys, OrderedSet.mem_def]
  have hagrees : m.agrees same n = true ↔ m.entries.length = n.entries.length ∧
      ∀ e ∈ m.entries, ∃ w, n.get? e.1 = some w ∧ same e.2 w = true := by
    unfold agrees
    rw [Bool.and_eq_true, beq_iff_eq, List.all_eq_true]
    refine and_congr_right fun _ => forall₂_congr fun e _ => ?_
    cases n.get? e.1 <;> simp
  rw [hagrees, hdomain, and_assoc]
  refine and_congr_right fun _ => ?_
  constructor
  · intro h
    constructor
    · intro k hk
      obtain ⟨e, he, rfl⟩ := List.mem_map.1 hk
      obtain ⟨w, hw, _⟩ := h e he
      exact isSome_get?_iff.1 (by rw [hw]; rfl)
    · intro k v w hv hw
      obtain ⟨w', hw', hs⟩ := h (k, v) (get?_eq_some_iff.1 hv)
      rw [hw] at hw'
      cases hw'
      exact hs
  · rintro ⟨hk, hs⟩ ⟨k, v⟩ he
    have hmem : k ∈ n.keys := hk k (List.mem_map_of_mem he)
    obtain ⟨w, hw⟩ := Option.isSome_iff_exists.1 (isSome_get?_iff.2 hmem)
    exact ⟨w, hw, hs k v w (get?_eq_some_iff.2 he) hw⟩

end Maps

namespace ActionTable

/-- Two tables have entries for the same actions, and the same fields in them. -/
structure Same (t u : ActionTable) : Prop where
  keys : ∀ a, a ∈ t.keys ↔ a ∈ u.keys
  fields : ∀ a f, f ∈ t.fieldsOf a ↔ f ∈ u.fieldsOf a

theorem Same.refl (t : ActionTable) : t.Same t := ⟨fun _ => Iff.rfl, fun _ _ => Iff.rfl⟩

theorem Same.trans {t u w : ActionTable} (h : t.Same u) (k : u.Same w) : t.Same w :=
  ⟨fun a => (h.keys a).trans (k.keys a), fun a f => (h.fields a f).trans (k.fields a f)⟩

theorem fieldsOf_of_get? {t : ActionTable} {a : Action} {fs : FieldSet} (h : t.get? a = some fs) :
    t.fieldsOf a = fs := by
  unfold fieldsOf
  rw [h]
  rfl

theorem fieldsOf_of_not_mem {t : ActionTable} {a : Action} (h : a ∉ t.keys) : t.fieldsOf a = ∅ := by
  unfold fieldsOf
  rw [OrderedMap.get?_eq_none_iff.2 h]
  rfl

theorem agrees_iff {t u : ActionTable} :
    OrderedMap.agrees OrderedSet.sameMembers t u = true ↔ t.Same u := by
  rw [OrderedMap.agrees_iff]
  constructor
  · rintro ⟨hk, hs⟩
    refine ⟨hk, fun a f => ?_⟩
    by_cases ha : a ∈ t.keys
    · obtain ⟨v, hv⟩ := Option.isSome_iff_exists.1 (OrderedMap.isSome_get?_iff.2 ha)
      obtain ⟨w, hw⟩ := Option.isSome_iff_exists.1 (OrderedMap.isSome_get?_iff.2 ((hk a).1 ha))
      rw [fieldsOf_of_get? hv, fieldsOf_of_get? hw]
      exact OrderedSet.sameMembers_iff.1 (hs a v w hv hw) f
    · rw [fieldsOf_of_not_mem ha, fieldsOf_of_not_mem (mt (hk a).2 ha)]
  · intro h
    refine ⟨h.keys, fun a v w hv hw => OrderedSet.sameMembers_iff.2 fun f => ?_⟩
    rw [← fieldsOf_of_get? hv, ← fieldsOf_of_get? hw]
    exact h.fields a f

end ActionTable

namespace AccessTable

/-- **Comparison of tables**: the same roles, with the same entries. -/
theorem sameAs_iff {t u : AccessTable} :
    t.sameAs u = true ↔
      (∀ r, r ∈ t.roleNames ↔ r ∈ u.roleNames) ∧ ∀ r, (t.actionsFor r).Same (u.actionsFor r) := by
  unfold sameAs
  rw [OrderedMap.agrees_iff]
  refine and_congr_right fun hk => ?_
  constructor
  · intro h r
    unfold actionsFor
    by_cases hr : r ∈ t.roles.keys
    · obtain ⟨v, hv⟩ := Option.isSome_iff_exists.1 (OrderedMap.isSome_get?_iff.2 hr)
      obtain ⟨w, hw⟩ := Option.isSome_iff_exists.1 (OrderedMap.isSome_get?_iff.2 ((hk r).1 hr))
      rw [hv, hw]
      exact ActionTable.agrees_iff.1 (h r v w hv hw)
    · rw [OrderedMap.get?_eq_none_iff.2 hr, OrderedMap.get?_eq_none_iff.2 (mt (hk r).2 hr)]
      exact ActionTable.Same.refl ∅
  · intro h r v w hv hw
    have hr := h r
    unfold actionsFor at hr
    rw [hv, hw] at hr
    exact ActionTable.agrees_iff.2 hr

/-- Equal tables permit the same. -/
theorem permits_eq_of_sameAs {t u : AccessTable} (h : t.sameAs u = true) (r : Role) (a : Action)
    (f : String) : t.permits r a f = u.permits r a f := by
  have hf : ∀ g, g ∈ t.authorizedFields r a ↔ g ∈ u.authorizedFields r a :=
    ((sameAs_iff.1 h).2 r).fields a
  rw [Bool.eq_iff_iff, permits_iff, permits_iff, hf, hf]

theorem sameAs_refl (t : AccessTable) : t.sameAs t = true :=
  sameAs_iff.2 ⟨fun _ => Iff.rfl, fun _ => .refl _⟩

theorem sameAs_trans {t u w : AccessTable} (h : t.sameAs u = true) (k : u.sameAs w = true) :
    t.sameAs w = true := by
  obtain ⟨hr, ha⟩ := sameAs_iff.1 h
  obtain ⟨kr, ka⟩ := sameAs_iff.1 k
  exact sameAs_iff.2 ⟨fun r => (hr r).trans (kr r), fun r => (ha r).trans (ka r)⟩

end AccessTable

/-! ## Rules -/

/-- Two lists of rules name the same actions and give them the same fields, whatever the public has, and
both or none are empty. -/
structure RulesAlike (rs rs' : List Rule) : Prop where
  empty : rs = [] ↔ rs' = []
  actions : ∀ a, a ∈ rs.flatMap Rule.actions ↔ a ∈ rs'.flatMap Rule.actions
  fields : ∀ t a f, f ∈ rs.flatMap (Rule.gives t a) ↔ f ∈ rs'.flatMap (Rule.gives t a)

namespace RulesAlike

variable {rs rs' : List Rule}

theorem refl (rs : List Rule) : RulesAlike rs rs := ⟨Iff.rfl, fun _ => Iff.rfl, fun _ _ _ => Iff.rfl⟩

theorem symm (h : RulesAlike rs rs') : RulesAlike rs' rs :=
  ⟨h.empty.symm, fun a => (h.actions a).symm, fun t a f => (h.fields t a f).symm⟩

theorem trans {rs'' : List Rule} (h : RulesAlike rs rs') (k : RulesAlike rs' rs'') :
    RulesAlike rs rs'' :=
  ⟨h.empty.trans k.empty, fun a => (h.actions a).trans (k.actions a),
    fun t a f => (h.fields t a f).trans (k.fields t a f)⟩

/-- The order and the repetition of rules do not matter. -/
theorem of_mem (h : ∀ rule, rule ∈ rs ↔ rule ∈ rs') : RulesAlike rs rs' := by
  refine ⟨?_, fun a => ?_, fun t a f => ?_⟩
  · simp only [List.eq_nil_iff_forall_not_mem, h]
  · simp only [List.mem_flatMap, h]
  · simp only [List.mem_flatMap, h]

theorem append {qs qs' : List Rule} (h : RulesAlike rs rs') (k : RulesAlike qs qs') :
    RulesAlike (rs ++ qs) (rs' ++ qs') := by
  refine ⟨?_, fun a => ?_, fun t a f => ?_⟩
  · rw [List.append_eq_nil_iff, List.append_eq_nil_iff, h.empty, k.empty]
  · rw [List.flatMap_append, List.flatMap_append, List.mem_append, List.mem_append, h.actions,
      k.actions]
  · rw [List.flatMap_append, List.flatMap_append, List.mem_append, List.mem_append, h.fields,
      k.fields]

/-- Lists that have alike parts are alike. -/
theorem flatMap {α : Type} {xs xs' : List (α × List Rule)}
    (h : ∀ e ∈ xs, ∃ e' ∈ xs', RulesAlike e.2 e'.2)
    (h' : ∀ e' ∈ xs', ∃ e ∈ xs, RulesAlike e.2 e'.2) :
    RulesAlike (xs.flatMap Prod.snd) (xs'.flatMap Prod.snd) := by
  refine ⟨?_, fun a => ?_, fun t a f => ?_⟩
  · rw [List.flatMap_eq_nil_iff, List.flatMap_eq_nil_iff]
    constructor
    · intro hn e' he'
      obtain ⟨e, he, hr⟩ := h' e' he'
      exact hr.empty.1 (hn e he)
    · intro hn e he
      obtain ⟨e', he', hr⟩ := h e he
      exact hr.empty.2 (hn e' he')
  · rw [List.flatMap_assoc, List.flatMap_assoc, List.mem_flatMap, List.mem_flatMap]
    constructor
    · rintro ⟨e, he, ha⟩
      obtain ⟨e', he', hr⟩ := h e he
      exact ⟨e', he', (hr.actions a).1 ha⟩
    · rintro ⟨e', he', ha⟩
      obtain ⟨e, he, hr⟩ := h' e' he'
      exact ⟨e, he, (hr.actions a).2 ha⟩
  · rw [List.flatMap_assoc, List.flatMap_assoc, List.mem_flatMap, List.mem_flatMap]
    constructor
    · rintro ⟨e, he, hf⟩
      obtain ⟨e', he', hr⟩ := h e he
      exact ⟨e', he', (hr.fields t a f).1 hf⟩
    · rintro ⟨e', he', hf⟩
      obtain ⟨e, he, hr⟩ := h' e' he'
      exact ⟨e, he, (hr.fields t a f).2 hf⟩

end RulesAlike

/-- What a rule gives depends on which fields the public has, and not on their order. -/
theorem Rule.mem_gives_congr {t u : ActionTable} (h : ∀ a f, f ∈ t.fieldsOf a ↔ f ∈ u.fieldsOf a)
    {rule : Rule} {a : Action} {f : String} : f ∈ rule.gives t a ↔ f ∈ rule.gives u a := by
  cases rule with
  | everyField b => exact Iff.rfl
  | grant as fs => rw [mem_gives_grant, mem_gives_grant, h]

theorem Rule.mem_flatMap_gives_congr {t u : ActionTable}
    (h : ∀ a f, f ∈ t.fieldsOf a ↔ f ∈ u.fieldsOf a) {rs : List Rule} {a : Action} {f : String} :
    f ∈ rs.flatMap (gives t a) ↔ f ∈ rs.flatMap (gives u a) := by
  rw [List.mem_flatMap, List.mem_flatMap]
  exact exists_congr fun rule => and_congr_right fun _ => mem_gives_congr h

/-! ## Grants -/

namespace Grant

/-- Two grants of a role make the same entries, where some actions are known. -/
inductive Alike (known : List Action) (r : Role) : Grant → Grant → Prop where
  | everything : Alike known r .everything .everything
  | rules {rs rs' : List Rule} : RulesAlike rs rs' → Alike known r (.rules rs) (.rules rs')
  | table {u u' : ActionTable} : u.Same u' → Alike known r (.table u) (.table u')
  | spelledOut {as : List Action} : r ≠ Role.everyone → (∀ a, a ∈ as ↔ a ∈ known) →
      Alike known r .everything (.rules (as.map .everyField))

theorem Alike.refl (known : List Action) (r : Role) (g : Grant) : Alike known r g g := by
  cases g with
  | everything => exact .everything
  | rules rs => exact .rules (.refl rs)
  | table u => exact .table (.refl u)

/-- Two grants permit the same: they are equal, or rules that name the same actions and give the same
fields, as far as the wildcard does not stand for them. -/
inductive PermitsAlike : Grant → Grant → Prop where
  | refl (g : Grant) : PermitsAlike g g
  | rules {rs rs' : List Rule} : (∀ a, a ∈ rs.flatMap Rule.actions ↔ a ∈ rs'.flatMap Rule.actions) →
      (∀ t a f, (f ∈ rs.flatMap (Rule.gives t a) ∨ wildcard ∈ rs.flatMap (Rule.gives t a)) ↔
        (f ∈ rs'.flatMap (Rule.gives t a) ∨ wildcard ∈ rs'.flatMap (Rule.gives t a))) →
      PermitsAlike (.rules rs) (.rules rs')

theorem PermitsAlike.symm {g g' : Grant} (h : PermitsAlike g g') : PermitsAlike g' g := by
  cases h with
  | refl => exact .refl g
  | rules ha hf => exact .rules (fun a => (ha a).symm) fun t a f => (hf t a f).symm

theorem actions_map_everyField (as : List Action) : (as.map Rule.everyField).flatMap Rule.actions = as := by
  induction as with
  | nil => rfl
  | cons a as ih => rw [List.map_cons, List.flatMap_cons, ih]; rfl

theorem mem_gives_map_everyField {as : List Action} {t : ActionTable} {a : Action} {f : String} :
    f ∈ (as.map Rule.everyField).flatMap (Rule.gives t a) ↔ a ∈ as ∧ f = wildcard := by
  rw [List.mem_flatMap]
  constructor
  · rintro ⟨rule, hr, hf⟩
    obtain ⟨b, hb, rfl⟩ := List.mem_map.1 hr
    obtain ⟨rfl, hw⟩ := Rule.mem_gives_everyField.1 hf
    exact ⟨hb, hw⟩
  · rintro ⟨ha, hf⟩
    exact ⟨_, List.mem_map_of_mem ha, Rule.mem_gives_everyField.2 ⟨rfl, hf⟩⟩

end Grant

namespace ActionTable

variable {known known' : List Action} {r : Role} {publicFields publicFields' t t' : ActionTable}
  {g g' : Grant}

/-- **Alike grants make the same entries** of a role, where the public has the same fields, the same
actions are known, and only the role of everyone has anything before. -/
theorem Same.applyGrant (h : g.Alike known r g') (ht : t.Same t')
    (hstart : r ≠ Role.everyone → t' = ∅)
    (hp : ∀ a f, f ∈ publicFields.fieldsOf a ↔ f ∈ publicFields'.fieldsOf a)
    (hk : ∀ a, a ∈ known ↔ a ∈ known') :
    (applyGrant known publicFields t g).Same (applyGrant known' publicFields' t' g') := by
  refine ⟨fun a => ?_, fun a f => ?_⟩
  · rw [mem_keys_applyGrant, mem_keys_applyGrant, ht.keys]
    refine or_congr_left ?_
    cases h with
    | everything => rw [hk]
    | rules h => exact or_congr (by simp) (h.actions a)
    | table h => exact or_congr (by simp) (h.keys a)
    | @spelledOut as _ has =>
      show _ ↔ _ ∨ a ∈ (as.map Rule.everyField).flatMap Rule.actions
      rw [Grant.actions_map_everyField, has]
      simp [Grant.actions]
  · rw [fieldsOf_applyGrant, fieldsOf_applyGrant]
    cases h with
    | everything =>
      show f ∈ (if a ∈ known then FieldSet.all else t.fieldsOf a) ↔
        f ∈ (if a ∈ known' then FieldSet.all else t'.fieldsOf a)
      by_cases ha : a ∈ known
      · rw [if_pos ha, if_pos ((hk a).1 ha)]
      · rw [if_neg ha, if_neg (mt (hk a).2 ha), ht.fields]
    | rules h =>
      rw [OrderedSet.mem_extend, OrderedSet.mem_extend, ht.fields, h.fields,
        Rule.mem_flatMap_gives_congr hp]
    | table h =>
      rw [OrderedSet.mem_extend, OrderedSet.mem_extend, ht.fields, OrderedSet.mem_toList,
        OrderedSet.mem_toList, h.fields]
    | @spelledOut as hr has =>
      -- nothing stands before that the wildcard could replace
      obtain rfl := hstart hr
      have hempty : f ∉ ActionTable.fieldsOf ∅ a := OrderedSet.not_mem_empty f
      rw [OrderedSet.mem_extend, Grant.mem_gives_map_everyField, or_iff_right hempty, has]
      by_cases ha : a ∈ known
      · simp [ha, FieldSet.all]
      · simp only [ha, if_false, false_and, iff_false]
        exact mt (ht.fields a f).1 hempty

end ActionTable

/-! ## Declarations -/

namespace Declaration

/-- Two declarations list the same actions, if any, have alike public rules and grant each role what a
relation accepts. -/
structure Matches (R : Role → Grant → Grant → Prop) (d d' : Declaration) : Prop where
  listed : Option.Rel (fun as as' => ∀ a, a ∈ as ↔ a ∈ as') d.actions d'.actions
  publicRules : RulesAlike d.allPublicRules d'.allPublicRules
  roles : ∀ r, Option.Rel (R r) (d.roles.get? r) (d'.roles.get? r)

namespace Matches

variable {d d' : Declaration} {R : Role → Grant → Grant → Prop}

theorem mem_publicTable (h : d.Matches R d') (a : Action) (f : String) :
    f ∈ d.publicTable.fieldsOf a ↔ f ∈ d'.publicTable.fieldsOf a := by
  rw [fieldsOf_publicTable, fieldsOf_publicTable, OrderedSet.mem_ofList, OrderedSet.mem_ofList]
  exact h.publicRules.fields ∅ a f

/-- **Known actions** are the same, if the grants that match name the same actions, apart from known
ones that the second names in addition. -/
theorem mem_knownActions (h : d.Matches R d')
    (hR : ∀ r g g', R r g g' → ∀ a, (a ∈ g.actions → a ∈ g'.actions) ∧
      (a ∈ g'.actions → a ∈ g.actions ∨ a ∈ d.knownActions)) (a : Action) :
    a ∈ d.knownActions ↔ a ∈ d'.knownActions := by
  have hgrants : (a ∈ d.grants.flatMap Grant.actions → a ∈ d'.grants.flatMap Grant.actions) ∧
      (a ∈ d'.grants.flatMap Grant.actions →
        a ∈ d.grants.flatMap Grant.actions ∨ a ∈ d.knownActions) := by
    simp only [mem_flatMap_grants, ← OrderedMap.get?_eq_some_iff]
    constructor
    · rintro ⟨r, g, hg, ha⟩
      obtain ⟨g', hg', hr⟩ := exists_of_optionRel (h.roles r) hg
      exact ⟨r, g', hg', (hR r g g' hr a).1 ha⟩
    · rintro ⟨r, g', hg', ha⟩
      have hback := optionRel_swap (S := flip (R r)) (h.roles r) fun _ _ => id
      obtain ⟨g, hg, hr⟩ := exists_of_optionRel hback hg'
      exact ((hR r g g' hr a).2 ha).imp_left fun ha => ⟨r, g, hg, ha⟩
  have hlisted := h.listed
  have hpublic := h.publicRules.actions a
  -- what the second declaration adds is known to the first, so its known actions are looked up again
  generalize hd : d.knownActions = known at hgrants ⊢
  unfold knownActions at hd ⊢
  generalize d.actions = o at hlisted hd
  generalize d'.actions = o' at hlisted
  cases hlisted with
  | some hl =>
    subst hd
    show a ∈ OrderedSet.ofList _ ↔ a ∈ OrderedSet.ofList _
    rw [OrderedSet.mem_ofList, OrderedSet.mem_ofList, hl]
  | none =>
    have hknown : a ∈ known ↔ (a ∈ Action.builtIns ∨ a ∈ d.allPublicRules.flatMap Rule.actions) ∨
        a ∈ d.grants.flatMap Grant.actions := by
      subst hd
      show a ∈ OrderedSet.ofList (Action.builtIns ++ _ ++ _) ↔ _
      rw [OrderedSet.mem_ofList, List.mem_append, List.mem_append]
    show a ∈ known ↔ a ∈ OrderedSet.ofList (Action.builtIns ++ _ ++ _)
    rw [OrderedSet.mem_ofList, List.mem_append, List.mem_append, ← hpublic]
    constructor
    · intro ha
      exact (hknown.1 ha).imp_right hgrants.1
    · rintro (ha | ha)
      · exact hknown.2 (Or.inl ha)
      · exact (hgrants.2 ha).elim (fun ha => hknown.2 (Or.inr ha)) id

theorem startOf (h : d.Matches R d') (r : Role) : (d.startOf r).Same (d'.startOf r) := by
  refine ⟨fun a => ?_, fun a f => ?_⟩
  · have hd : ∀ d : Declaration, a ∈ (d.startOf r).keys ↔
        a ∈ if r = Role.everyone then d.allPublicRules.flatMap Rule.actions else [] := by
      intro d
      show a ∈ (d.startOf r).domain ↔ _
      rw [domain_startOf, OrderedSet.mem_ofList]
    rw [hd, hd]
    split
    · exact h.publicRules.actions a
    · exact Iff.rfl
  · rw [fieldsOf_startOf, fieldsOf_startOf]
    split
    · exact h.mem_publicTable a f
    · exact Iff.rfl

theorem mem_roleNames (h : d.Matches R d') (r : Role) :
    r ∈ d.compile.roleNames ↔ r ∈ d'.compile.roleNames := by
  have hkeys : r ∈ d.roles.keys ↔ r ∈ d'.roles.keys := by
    rw [← OrderedMap.isSome_get?_iff, ← OrderedMap.isSome_get?_iff]
    exact isSome_iff_of_optionRel (h.roles r)
  rw [roleNames_compile, roleNames_compile]
  unfold listedRoles
  rw [List.mem_eraseDups, List.mem_eraseDups, List.mem_append, List.mem_append, hkeys]
  simp only [h.publicRules.empty]

end Matches

theorem startOf_eq_empty (d : Declaration) {r : Role} (hr : r ≠ Role.everyone) : d.startOf r = ∅ := by
  unfold startOf publicEntries
  split
  · rfl
  · rw [OrderedMap.get?_insert, if_neg hr]
    rfl

theorem actionsFor_compile (d : Declaration) (r : Role) :
    d.compile.actionsFor r =
      match d.roles.get? r with
      | some g => ActionTable.applyGrant d.knownActions d.publicTable (d.startOf r) g
      | none => d.startOf r := by
  unfold AccessTable.actionsFor
  rw [get?_compile]
  cases d.roles.get? r <;> rfl

namespace Matches

variable {d d' : Declaration}

/-- **The same table**: declarations with alike grants are worked out to the same table, whatever the
order. -/
theorem sameAs_compile (h : d.Matches (Grant.Alike d.knownActions) d') :
    d.compile.sameAs d'.compile = true := by
  have hk := h.mem_knownActions fun r g g' hg a => by
    cases hg with
    | everything => exact ⟨id, Or.inl⟩
    | rules hr => exact ⟨(hr.actions a).1, fun ha => Or.inl ((hr.actions a).2 ha)⟩
    | table hu => exact ⟨(hu.keys a).1, fun ha => Or.inl ((hu.keys a).2 ha)⟩
    | @spelledOut as _ has =>
      refine ⟨fun ha => (by cases ha), fun ha => Or.inr ((has a).1 ?_)⟩
      rw [← Grant.actions_map_everyField as]
      exact ha
  refine AccessTable.sameAs_iff.2 ⟨h.mem_roleNames, fun r => ?_⟩
  have hr := h.roles r
  rw [actionsFor_compile, actionsFor_compile]
  generalize d.roles.get? r = o at hr ⊢
  generalize d'.roles.get? r = o' at hr ⊢
  cases hr with
  | none => exact h.startOf r
  | some hg => exact (h.startOf r).applyGrant hg d'.startOf_eq_empty h.mem_publicTable hk

/-- What the first of two declarations gives, the second gives as well, or else the wildcard. -/
theorem gives_or_wildcard (h : d.Matches (fun _ => Grant.PermitsAlike) d')
    (hk : ∀ a, a ∈ d.knownActions ↔ a ∈ d'.knownActions) {r : Role} {a : Action} {f : String}
    (hg : d.Gives r a f) : d'.Gives r a f ∨ d'.Gives r a wildcard := by
  cases hg with
  | publicField hf => exact Or.inl (.publicField ((h.mem_publicTable a f).1 hf))
  | @rule _ rs rule _ _ hget hmem hf =>
    obtain ⟨_, hg', hr⟩ := exists_of_optionRel (h.roles r) hget
    have hf := (Rule.mem_gives_congr h.mem_publicTable).1 hf
    cases hr with
    | refl => exact Or.inl (.rule hg' hmem hf)
    | rules _ hfields =>
      have hof := (hfields d'.publicTable a f).1 (Or.inl (List.mem_flatMap.2 ⟨rule, hmem, hf⟩))
      rcases hof with hf | hf
      · obtain ⟨rule', hmem, hf⟩ := List.mem_flatMap.1 hf
        exact Or.inl (.rule hg' hmem hf)
      · obtain ⟨rule', hmem, hf⟩ := List.mem_flatMap.1 hf
        exact Or.inr (.rule hg' hmem hf)
  | table hget hf =>
    obtain ⟨_, hg', ⟨⟩⟩ := exists_of_optionRel (h.roles r) hget
    exact Or.inl (.table hg' hf)
  | everything hget ha =>
    obtain ⟨_, hg', ⟨⟩⟩ := exists_of_optionRel (h.roles r) hget
    exact Or.inl (.everything hg' ((hk a).1 ha))

theorem symm_permitsAlike (h : d.Matches (fun _ => Grant.PermitsAlike) d') :
    d'.Matches (fun _ => Grant.PermitsAlike) d :=
  ⟨optionRel_swap h.listed fun _ _ hl a => (hl a).symm, h.publicRules.symm,
    fun r => optionRel_swap (h.roles r) fun _ _ => Grant.PermitsAlike.symm⟩

/-- **The same permissions**: declarations with grants that permit the same are worked out to tables that
permit the same. -/
theorem permits_compile_eq (h : d.Matches (fun _ => Grant.PermitsAlike) d') (r : Role) (a : Action)
    (f : String) : d.compile.permits r a f = d'.compile.permits r a f := by
  have hk := h.mem_knownActions fun r g g' hg a => by
    cases hg with
    | refl => exact ⟨id, Or.inl⟩
    | rules ha _ => exact ⟨(ha a).1, fun h => Or.inl ((ha a).2 h)⟩
  have half : ∀ {d d' : Declaration}, d.Matches (fun _ => Grant.PermitsAlike) d' →
      (∀ a, a ∈ d.knownActions ↔ a ∈ d'.knownActions) →
      d.Gives r a f ∨ d.Gives r a wildcard → d'.Gives r a f ∨ d'.Gives r a wildcard := by
    rintro d d' h hk (hg | hg)
    · exact h.gives_or_wildcard hk hg
    · exact Or.inr ((h.gives_or_wildcard hk hg).elim id id)
  rw [Bool.eq_iff_iff, permits_compile, permits_compile]
  exact ⟨half h hk, half h.symm_permitsAlike fun a => (hk a).symm⟩

end Matches

end Declaration

end FieldAccess
