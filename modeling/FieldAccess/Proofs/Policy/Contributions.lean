/-
  What each rule and each grant contributes to an access table.

  1. **Rules** — a rule gives an action a list of fields (`Rule.gives`), and working it in extends the
     fields of that action by this list; so a list of rules extends them by what its rules give, one
     after the other.

  2. **Grants** — a grant of rules or of a finished table extends the fields of each action; a grant
     of everything puts the wildcard in place of the fields of each known action.

  3. **Tables** — the entry of a role comes from its grant alone, apart from the role of everyone,
     which starts with the rules of the public (`get?_compile`).

  4. **Permissions** — a role is permitted what the declaration gives it (`permits_compile`), although
     a grant of everything erases fields: it puts the wildcard in their place.

  Core only.
-/
import FieldAccess.Policy.Compile
import FieldAccess.Proofs.Collections.Traversal

namespace FieldAccess

/-! ## Extending a set twice -/

theorem OrderedSet.extend_of_subset {α : Type} [DecidableEq α] {s : OrderedSet α} {as : List α}
    (h : ∀ a ∈ as, a ∈ s) : s.extend as = s := by
  induction as with
  | nil => rfl
  | cons a as ih =>
    obtain ⟨ha, has⟩ := List.forall_mem_cons.1 h
    rw [extend_cons, insert_of_mem ha, ih has]

theorem OrderedSet.extend_extend_self {α : Type} [DecidableEq α] (s : OrderedSet α) (as : List α) :
    (s.extend as).extend as = s.extend as :=
  extend_of_subset fun _ ha => mem_extend.2 (Or.inr ha)

/-! ## Rules -/

/-- The fields that a rule gives an action. -/
def Rule.gives (publicFields : ActionTable) (a : Action) : Rule → List String
  | everyField b => if b = a then [wildcard] else []
  | grant as fs => if a ∈ as then fs.toList ++ (publicFields.fieldsOf a).toList else []

theorem Rule.gives_everyField {publicFields : ActionTable} {a b : Action} :
    (everyField b).gives publicFields a = if b = a then [wildcard] else [] := rfl

theorem Rule.gives_grant {publicFields : ActionTable} {a : Action} {as : List Action}
    {fs : FieldSet} :
    (grant as fs).gives publicFields a =
      if a ∈ as then fs.toList ++ (publicFields.fieldsOf a).toList else [] := rfl

theorem Rule.mem_gives_everyField {publicFields : ActionTable} {a b : Action} {f : String} :
    f ∈ (everyField b).gives publicFields a ↔ b = a ∧ f = wildcard := by
  rw [gives_everyField]
  split
  · next h => simp [h]
  · next h => simp [h]

theorem Rule.mem_gives_grant {publicFields : ActionTable} {a : Action} {as : List Action}
    {fs : FieldSet} {f : String} :
    f ∈ (grant as fs).gives publicFields a ↔
      a ∈ as ∧ (f ∈ fs ∨ f ∈ publicFields.fieldsOf a) := by
  rw [gives_grant]
  split
  · next h => simp [h]
  · next h => simp [h]

namespace ActionTable

theorem fieldsOf_add (t : ActionTable) (a b : Action) (fields : List String) :
    (t.add a fields).fieldsOf b =
      if b = a then (t.fieldsOf b).extend fields else t.fieldsOf b := by
  unfold fieldsOf add
  rw [OrderedMap.get?_alter]
  split
  · next h => subst h; rfl
  · rfl

/-- Adding to several actions adds to each of them once, however often it is named. -/
theorem fieldsOf_foldl_add (g : Action → List String) (as : List Action) (t : ActionTable)
    (b : Action) :
    (as.foldl (fun t a => t.add a (g a)) t).fieldsOf b =
      if b ∈ as then (t.fieldsOf b).extend (g b) else t.fieldsOf b := by
  induction as generalizing t with
  | nil => rfl
  | cons a as ih =>
    rw [List.foldl_cons, ih, fieldsOf_add]
    by_cases hb : b = a
    · subst hb
      -- should it come again, then adding the same fields changes nothing
      rw [if_pos rfl, if_pos List.mem_cons_self, OrderedSet.extend_extend_self]
      split <;> rfl
    · have hm : b ∈ a :: as ↔ b ∈ as := by simp [hb]
      rw [if_neg hb]
      simp only [hm]

/-- **Working in a rule** extends the fields of each action by what the rule gives it. -/
theorem fieldsOf_apply (publicFields t : ActionTable) (rule : Rule) (a : Action) :
    (apply publicFields t rule).fieldsOf a =
      (t.fieldsOf a).extend (rule.gives publicFields a) := by
  cases rule with
  | everyField b =>
    rw [Rule.gives_everyField]
    show (t.add b [wildcard]).fieldsOf a = _
    rw [fieldsOf_add]
    by_cases h : a = b
    · rw [if_pos h, if_pos h.symm]
    · rw [if_neg h, if_neg (Ne.symm h)]
      rfl
  | grant as fs =>
    rw [Rule.gives_grant]
    have h := fieldsOf_foldl_add (fun b => fs.toList ++ (publicFields.fieldsOf b).toList) as t a
    refine h.trans ?_
    split <;> rfl

theorem fieldsOf_foldl_apply (publicFields t : ActionTable) (rules : List Rule) (a : Action) :
    (rules.foldl (apply publicFields) t).fieldsOf a =
      (t.fieldsOf a).extend (rules.flatMap (Rule.gives publicFields a)) := by
  induction rules generalizing t with
  | nil => rfl
  | cons r rules ih =>
    rw [List.foldl_cons, ih, fieldsOf_apply, List.flatMap_cons, OrderedSet.extend_append]

theorem mem_keys_foldl_add (g : Action → List String) (as : List Action) (t : ActionTable)
    (b : Action) : b ∈ (as.foldl (fun t a => t.add a (g a)) t).keys ↔ b ∈ as ∨ b ∈ t.keys := by
  induction as generalizing t with
  | nil => simp
  | cons a as ih =>
    rw [List.foldl_cons, ih, mem_keys_add, List.mem_cons, ← or_assoc, or_comm (a := b ∈ as)]

/-- Working in a rule makes an entry for every action that it names. -/
theorem mem_keys_apply {publicFields t : ActionTable} {rule : Rule} {b : Action} :
    b ∈ (apply publicFields t rule).keys ↔ b ∈ rule.actions ∨ b ∈ t.keys := by
  cases rule with
  | everyField a =>
    show b ∈ (t.add a [wildcard]).keys ↔ b ∈ [a] ∨ b ∈ t.keys
    rw [mem_keys_add, List.mem_singleton]
  | grant as fs => exact mem_keys_foldl_add _ as t b

theorem mem_keys_foldl_apply {publicFields t : ActionTable} {rules : List Rule} {b : Action} :
    b ∈ (rules.foldl (apply publicFields) t).keys ↔
      b ∈ rules.flatMap Rule.actions ∨ b ∈ t.keys := by
  induction rules generalizing t with
  | nil => simp
  | cons r rules ih =>
    rw [List.foldl_cons, ih, mem_keys_apply, List.flatMap_cons, List.mem_append, ← or_assoc,
      or_comm (a := b ∈ rules.flatMap Rule.actions)]

/-! ## Grants -/

theorem fieldsOf_foldl_insert_all (as : List Action) (t : ActionTable) (b : Action) :
    (as.foldl (fun t a => t.insert a FieldSet.all) t).fieldsOf b =
      if b ∈ as then FieldSet.all else t.fieldsOf b := by
  induction as generalizing t with
  | nil => rfl
  | cons a as ih =>
    have hi : fieldsOf (t.insert a FieldSet.all) b =
        if b = a then FieldSet.all else t.fieldsOf b := by
      unfold fieldsOf
      rw [OrderedMap.get?_insert]
      split <;> rfl
    rw [List.foldl_cons, ih, hi]
    by_cases hb : b = a <;> simp [hb]

/-- Working in a finished table adds to each action what the table has for it. -/
theorem fieldsOf_foldl_table (t u : ActionTable) (b : Action) :
    (u.entries.foldl (fun t e => t.add e.1 e.2.toList) t).fieldsOf b =
      (t.fieldsOf b).extend (u.fieldsOf b).toList := by
  have h := OrderedMap.get?_foldl_alter
    (f := fun (e : Action × FieldSet) old => OrderedSet.extend (old.getD ∅) e.2.toList)
    u.nodup_keys t b
  unfold fieldsOf
  show (OrderedMap.get? (u.entries.foldl (fun t e => t.alter e.1 _) t) b).getD ∅ = _
  rw [h]
  show _ = ((t.get? b).getD ∅).extend ((Entries.get? b u.entries).getD ∅).toList
  cases Entries.get? b u.entries with
  | none => rfl
  | some fs => rfl

/-- **Working in a grant.** -/
theorem fieldsOf_applyGrant (known : List Action) (publicFields t : ActionTable) (g : Grant)
    (a : Action) :
    (applyGrant known publicFields t g).fieldsOf a =
      match g with
      | .everything => if a ∈ known then FieldSet.all else t.fieldsOf a
      | .rules rs => (t.fieldsOf a).extend (rs.flatMap (Rule.gives publicFields a))
      | .table u => (t.fieldsOf a).extend (u.fieldsOf a).toList := by
  cases g with
  | everything => exact fieldsOf_foldl_insert_all known t a
  | rules rs => exact fieldsOf_foldl_apply publicFields t rs a
  | table u => exact fieldsOf_foldl_table t u a

/-- Working in a grant makes an entry for every action that it names, and a grant of everything for
every known one. -/
theorem mem_keys_applyGrant {known : List Action} {publicFields t : ActionTable} {g : Grant}
    {b : Action} :
    b ∈ (applyGrant known publicFields t g).keys ↔
      (g = .everything ∧ b ∈ known ∨ b ∈ g.actions) ∨ b ∈ t.keys := by
  cases g with
  | everything =>
    have h : ∀ as : List Action, ∀ t : ActionTable,
        b ∈ (as.foldl (fun t a => t.insert a FieldSet.all) t).keys ↔ b ∈ as ∨ b ∈ t.keys := by
      intro as
      induction as with
      | nil => simp
      | cons a as ih =>
        intro t
        rw [List.foldl_cons, ih, OrderedMap.mem_keys_insert, List.mem_cons, ← or_assoc,
          or_comm (a := b ∈ as)]
    show b ∈ (known.foldl (fun t a => t.insert a FieldSet.all) t).keys ↔ _
    rw [h]
    simp [Grant.actions]
  | rules rs =>
    show b ∈ (rs.foldl (apply publicFields) t).keys ↔ _
    rw [mem_keys_foldl_apply]
    simp [Grant.actions]
  | table u =>
    have h : b ∈ (u.entries.foldl (fun t e => t.add e.1 e.2.toList) t).keys ↔
        b ∈ u.keys ∨ b ∈ t.keys := OrderedMap.mem_keys_foldl_alter
    refine h.trans ?_
    simp [Grant.actions]

end ActionTable

/-! ## Tables -/

namespace Declaration

variable (d : Declaration)

/-- What a role has before its own grant: the entry of the public, for the role of everyone. -/
def startOf (r : Role) : ActionTable := (d.publicEntries.get? r).getD ∅

/-- **The entry of a role.** -/
theorem get?_compile (r : Role) :
    d.compile.roles.get? r =
      match d.roles.get? r with
      | some g => some (ActionTable.applyGrant d.knownActions d.publicTable (d.startOf r) g)
      | none => d.publicEntries.get? r := by
  have h := OrderedMap.get?_foldl_alter
    (f := fun (e : Role × Grant) old =>
      ActionTable.applyGrant d.knownActions d.publicTable (old.getD ∅) e.2)
    d.roles.nodup_keys d.publicEntries r
  refine h.trans ?_
  show _ = match Entries.get? r d.roles.entries with | some g => _ | none => _
  cases Entries.get? r d.roles.entries <;> rfl

theorem fieldsOf_publicTable (a : Action) :
    d.publicTable.fieldsOf a = OrderedSet.ofList (d.allPublicRules.flatMap (Rule.gives ∅ a)) :=
  ActionTable.fieldsOf_foldl_apply ∅ ∅ d.allPublicRules a

theorem fieldsOf_startOf (r : Role) (a : Action) :
    (d.startOf r).fieldsOf a = if r = Role.everyone then d.publicTable.fieldsOf a else ∅ := by
  unfold startOf publicEntries
  cases hr : d.allPublicRules with
  | nil =>
    rw [fieldsOf_publicTable, hr]
    show (ActionTable.fieldsOf ∅ a) = if r = Role.everyone then ∅ else ∅
    split <;> rfl
  | cons rule rules =>
    rw [if_neg (by simp), OrderedMap.get?_insert]
    split <;> rfl

theorem authorizedFields_compile (r : Role) (a : Action) :
    d.compile.authorizedFields r a =
      match d.roles.get? r with
      | some g =>
        (ActionTable.applyGrant d.knownActions d.publicTable (d.startOf r) g).fieldsOf a
      | none => (d.startOf r).fieldsOf a := by
  unfold AccessTable.authorizedFields AccessTable.actionsFor
  rw [get?_compile]
  cases d.roles.get? r <;> rfl

variable {d} in
/-- What the grants of all roles list. -/
theorem mem_flatMap_grants {α : Type} {f : Grant → List α} {x : α} :
    x ∈ d.grants.flatMap f ↔ ∃ r g, (r, g) ∈ d.roles.entries ∧ x ∈ f g := by
  unfold grants
  rw [List.mem_flatMap]
  constructor
  · rintro ⟨g, hg, hx⟩
    obtain ⟨⟨r, g⟩, hm, rfl⟩ := List.mem_map.1 hg
    exact ⟨r, g, hm, hx⟩
  · rintro ⟨r, g, hm, hx⟩
    exact ⟨g, List.mem_map.2 ⟨(r, g), hm, rfl⟩, hx⟩

/-- The rules of all keys. -/
theorem mem_flatMap_entries {κ : Type} [DecidableEq κ] {m : OrderedMap κ (List Rule)} {rule : Rule} :
    rule ∈ m.entries.flatMap Prod.snd ↔ ∃ k rs, m.get? k = some rs ∧ rule ∈ rs := by
  rw [List.mem_flatMap]
  constructor
  · rintro ⟨⟨k, rs⟩, he, hr⟩
    exact ⟨k, rs, OrderedMap.get?_eq_some_iff.2 he, hr⟩
  · rintro ⟨k, rs, he, hr⟩
    exact ⟨(k, rs), OrderedMap.get?_eq_some_iff.1 he, hr⟩

/-! ## Permissions -/

/-- What a declaration gives a role. -/
inductive Gives : Role → Action → String → Prop where
  | publicField {a : Action} {f : String} :
      f ∈ d.publicTable.fieldsOf a → Gives Role.everyone a f
  | rule {r : Role} {rs : List Rule} {rule : Rule} {a : Action} {f : String} :
      d.roles.get? r = some (.rules rs) → rule ∈ rs → f ∈ rule.gives d.publicTable a → Gives r a f
  | table {r : Role} {u : ActionTable} {a : Action} {f : String} :
      d.roles.get? r = some (.table u) → f ∈ u.fieldsOf a → Gives r a f
  | everything {r : Role} {a : Action} :
      d.roles.get? r = some .everything → a ∈ d.knownActions → Gives r a wildcard

variable {d} {r : Role} {a : Action} {f : String}

theorem gives_of_mem_startOf (h : f ∈ (d.startOf r).fieldsOf a) : d.Gives r a f := by
  rw [fieldsOf_startOf] at h
  split at h
  · next hr =>
    subst hr
    exact .publicField h
  · cases h

/-- Whatever field the table lists was given. -/
theorem gives_of_mem_authorizedFields (h : f ∈ d.compile.authorizedFields r a) : d.Gives r a f := by
  rw [authorizedFields_compile] at h
  cases hg : d.roles.get? r with
  | none =>
    rw [hg] at h
    exact gives_of_mem_startOf h
  | some g =>
    rw [hg] at h
    replace h : f ∈ (ActionTable.applyGrant d.knownActions d.publicTable (d.startOf r) g).fieldsOf a := h
    rw [ActionTable.fieldsOf_applyGrant] at h
    cases g with
    | everything =>
      replace h : f ∈ if a ∈ d.knownActions then FieldSet.all else (d.startOf r).fieldsOf a := h
      split at h
      · next ha =>
        rw [OrderedSet.mem_singleton.1 h]
        exact .everything hg ha
      · exact gives_of_mem_startOf h
    | rules rs =>
      rcases OrderedSet.mem_extend.1 h with h | h
      · exact gives_of_mem_startOf h
      · obtain ⟨rule, hr, hf⟩ := List.mem_flatMap.1 h
        exact .rule hg hr hf
    | table u =>
      rcases OrderedSet.mem_extend.1 h with h | h
      · exact gives_of_mem_startOf h
      · exact .table hg h

/-- A field that was given is listed, unless the wildcard stands in its place. -/
theorem mem_authorizedFields_of_gives (h : d.Gives r a f) :
    wildcard ∈ d.compile.authorizedFields r a ∨ f ∈ d.compile.authorizedFields r a := by
  rw [authorizedFields_compile]
  cases h with
  | publicField hf =>
    -- the entry of everyone starts with these; a grant of everything alone can replace them
    have hs : f ∈ (d.startOf Role.everyone).fieldsOf a := by
      rw [fieldsOf_startOf, if_pos rfl]
      exact hf
    cases d.roles.get? Role.everyone with
    | none => exact Or.inr hs
    | some g =>
      show wildcard ∈ ActionTable.fieldsOf _ a ∨ f ∈ ActionTable.fieldsOf _ a
      rw [ActionTable.fieldsOf_applyGrant]
      cases g with
      | everything =>
        show wildcard ∈ (if a ∈ d.knownActions then FieldSet.all else _) ∨
          f ∈ (if a ∈ d.knownActions then FieldSet.all else _)
        split
        · exact Or.inl (OrderedSet.mem_singleton.2 rfl)
        · exact Or.inr hs
      | rules rs => exact Or.inr (OrderedSet.mem_extend.2 (Or.inl hs))
      | table u => exact Or.inr (OrderedSet.mem_extend.2 (Or.inl hs))
  | rule hg hr hf =>
    rw [hg]
    show _ ∨ f ∈ ActionTable.fieldsOf _ a
    rw [ActionTable.fieldsOf_applyGrant]
    exact Or.inr (OrderedSet.mem_extend.2 (Or.inr (List.mem_flatMap.2 ⟨_, hr, hf⟩)))
  | table hg hf =>
    rw [hg]
    show _ ∨ f ∈ ActionTable.fieldsOf _ a
    rw [ActionTable.fieldsOf_applyGrant]
    exact Or.inr (OrderedSet.mem_extend.2 (Or.inr hf))
  | everything hg ha =>
    rw [hg]
    show wildcard ∈ ActionTable.fieldsOf _ a ∨ _
    rw [ActionTable.fieldsOf_applyGrant]
    show wildcard ∈ (if a ∈ d.knownActions then FieldSet.all else _) ∨ _
    rw [if_pos ha]
    exact Or.inl (OrderedSet.mem_singleton.2 rfl)

/-- **What a compiled declaration permits.** -/
theorem permits_compile :
    d.compile.permits r a f = true ↔ d.Gives r a f ∨ d.Gives r a wildcard := by
  rw [AccessTable.permits_iff]
  constructor
  · rintro (h | h)
    · exact Or.inr (gives_of_mem_authorizedFields h)
    · exact Or.inl (gives_of_mem_authorizedFields h)
  · rintro (h | h)
    · exact mem_authorizedFields_of_gives h
    · exact Or.inl ((mem_authorizedFields_of_gives h).elim id id)

end Declaration

end FieldAccess
