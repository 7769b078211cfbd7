/-
  Where the names of a table come from.

  1. **Fields** — a field that a declaration gives is listed by a rule or by a mapping, or it is the
     wildcard.

  2. **Tables** — a role of the table is one of the declaration or the public, an action is built in or
     named by the declaration, and a field is as above.  So what holds of these names holds of all names
     of the table (`namesAre_compile`).
-/
import FieldAccess.Proofs.Policy.EmptyNames

namespace FieldAccess

/-- Every name of the table has a property. -/
structure AccessTable.NamesAre (t : AccessTable) (P : String → Prop) : Prop where
  roles : ∀ e ∈ t.roles.entries, P e.1
  actions : ∀ e ∈ t.roles.entries, ∀ a ∈ e.2.keys, P a.name
  fields : ∀ e ∈ t.roles.entries, ∀ x ∈ e.2.entries, ∀ f ∈ x.2, P f

namespace Declaration

variable {d : Declaration}

/-! ## Fields -/

/-- What a rule gives is listed by it, given by the public, or the wildcard. -/
theorem names_of_mem_gives {publicFields : ActionTable} {rule : Rule} (hr : rule ∈ d.allRules)
    {a : Action} {f : String} (h : f ∈ rule.gives publicFields a) :
    f = wildcard ∨ d.Names f .ruleField ∨ f ∈ publicFields.fieldsOf a := by
  cases rule with
  | everyField b => exact Or.inl (Rule.mem_gives_everyField.1 h).2
  | grant as fs =>
    rcases (Rule.mem_gives_grant.1 h).2 with h | h
    · exact Or.inr (Or.inl ⟨_, hr, h⟩)
    · exact Or.inr (Or.inr h)

theorem names_of_mem_publicTable {a : Action} {f : String} (h : f ∈ d.publicTable.fieldsOf a) :
    f = wildcard ∨ d.Names f .ruleField := by
  rw [fieldsOf_publicTable, OrderedSet.mem_ofList] at h
  obtain ⟨rule, hr, hf⟩ := List.mem_flatMap.1 h
  rcases names_of_mem_gives (mem_allRules.2 (Or.inl hr)) hf with h | h | h
  · exact Or.inl h
  · exact Or.inr h
  · cases h

/-- **Fields are listed**, apart from the wildcard. -/
theorem names_of_gives {r : Role} {a : Action} {f : String} (h : d.Gives r a f) :
    f = wildcard ∨ d.Names f .ruleField ∨ d.Names f .mappingField := by
  cases h with
  | publicField h => exact (names_of_mem_publicTable h).imp_right Or.inl
  | @rule _ rs rule _ _ hg hr h =>
    have hall := mem_allRules.2 (Or.inr ⟨r, rs, OrderedMap.get?_eq_some_iff.1 hg, hr⟩)
    rcases names_of_mem_gives hall h with h | h | h
    · exact Or.inl h
    · exact Or.inr (Or.inl h)
    · exact (names_of_mem_publicTable h).imp_right Or.inl
  | @table _ u _ _ hg h =>
    unfold ActionTable.fieldsOf at h
    cases hget : u.get? a with
    | none =>
      rw [hget] at h
      cases h
    | some fs =>
      rw [hget] at h
      have he := mem_mappings.2
        ⟨r, u, OrderedMap.get?_eq_some_iff.1 hg, OrderedMap.get?_eq_some_iff.1 hget⟩
      exact Or.inr (Or.inr ⟨(a, fs), he, h⟩)
  | everything _ _ => exact Or.inl rfl

/-! ## Tables -/

/-- The actions of a table are known to the declaration or named by it. -/
theorem names_of_mem_keys {e : Role × ActionTable} (he : e ∈ d.compile.roles.entries) {a : Action}
    (ha : a ∈ e.2.keys) : a.isBuiltIn = true ∨ ∃ place, d.Names a.name place := by
  have hpublic : ∀ {b}, b ∈ d.publicTable.keys → ∃ place, d.Names b.name place := by
    intro b h
    obtain ⟨rule, hr, hb⟩ := List.mem_flatMap.1 (mem_keys_publicTable.1 h)
    exact ⟨.ruleAction, rule, mem_allRules.2 (Or.inl hr), b, hb, rfl⟩
  obtain ⟨r, u⟩ := e
  rcases role_of_mem_compile he with ⟨g, hg, rfl⟩ | ⟨_, rfl⟩
  · rcases ActionTable.mem_keys_applyGrant.1 ha with (⟨_, hk⟩ | hk) | hk
    · rcases names_of_mem_knownActions hk with h | h | h | h
      · exact Or.inl h
      · exact Or.inr ⟨_, h⟩
      · exact Or.inr ⟨_, h⟩
      · exact Or.inr ⟨_, h⟩
    · rcases names_of_mem_actions hg hk with h | h
      · exact Or.inr ⟨_, h⟩
      · exact Or.inr ⟨_, h⟩
    · exact Or.inr (hpublic (mem_keys_startOf hk))
  · exact Or.inr (hpublic ha)

/-- **Where names come from**: what holds of the role of everyone, of the built-in actions, of the
wildcard and of all names of a declaration, holds of all names of its table. -/
theorem namesAre_compile {P : String → Prop} (hrole : P Role.everyone)
    (hbuiltIn : ∀ a ∈ Action.builtIns, P a.name) (hwild : P wildcard)
    (h : ∀ n place, d.Names n place → P n) : d.compile.NamesAre P where
  roles := by
    rintro ⟨r, u⟩ he
    rcases role_of_mem_compile he with ⟨g, hg, _⟩ | ⟨rfl, _⟩
    · exact h r .role ⟨_, hg, rfl⟩
    · exact hrole
  actions := by
    intro e he a ha
    rcases names_of_mem_keys he ha with hb | ⟨place, hn⟩
    · exact hbuiltIn a (Action.mem_builtIns.2 hb)
    · exact h a.name place hn
  fields := by
    intro e he x hx f hf
    rw [← AccessTable.authorizedFields_of_mem he hx] at hf
    rcases names_of_gives (gives_of_mem_authorizedFields hf) with rfl | hn | hn
    · exact hwild
    · exact h f _ hn
    · exact h f _ hn

end Declaration

end FieldAccess
