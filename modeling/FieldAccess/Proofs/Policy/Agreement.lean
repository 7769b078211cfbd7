/-
  Declarations agree with the documents they are read from.

  1. **Public rules** — they give what the document grants to everyone.

  2. **Known actions** — the listed ones, or else the built-in and the mentioned ones.

  3. **Agreement** — the declaration of a document gives a role exactly what the document grants it
     (`gives_iff_grants`), and so the table of the document permits an access iff the document grants
     the field or the wildcard (`permits_compile_iff`).

  Core only.
-/
import FieldAccess.Proofs.Json.DistinctKeys
import FieldAccess.Proofs.Policy.Meaning

namespace FieldAccess.Declaration

variable {x g : String} {doc : List (String × Json)} {d : Declaration}

/-! ## Public rules -/

/-- The public rules give what the document grants to everyone. -/
theorem mem_publicTable_iff (nd : (doc.map Prod.fst).Nodup) (h : ofJson (.object doc) = .ok d) :
    g ∈ d.publicTable.fieldsOf (Action.ofName x) ↔ Document.GrantsPublic doc x g := by
  rw [fieldsOf_publicTable, OrderedSet.mem_ofList, List.mem_flatMap]
  constructor
  · rintro ⟨rule, hr, hg⟩
    obtain ⟨⟨a, rules⟩, he, hr⟩ := List.mem_flatMap.1 hr
    obtain ⟨ha, v, hv, hrules⟩ := declares_publicRules.1 (declares_of_mem_publicRules h he)
    obtain ⟨items, _, rfl, _⟩ := publicEntry_eq_ok_iff.1 hrules
    have hk := isActionKey_name ha
    rcases (gives_publicEntry hrules).1 ⟨rule, hr, hg⟩ with ⟨rfl, hg⟩ | ⟨item, hi, hp⟩
    · rw [Action.name_ofName] at hk hv
      exact .field hk hv hg
    · exact .pair hk hv hi hp
  · have back : ∀ {c : String} {items : List Json}, IsActionKey c → (c, .array items) ∈ doc →
        ((Action.ofName x = Action.ofName c ∧ .string g ∈ items) ∨
          ∃ item ∈ items, item.Pairs x g) →
        ∃ rule ∈ d.allPublicRules, g ∈ rule.gives ∅ (Action.ofName x) := by
      intro c items hk hm hg
      obtain ⟨rules, hr, he⟩ := exists_publicRules nd h hk hm
      obtain ⟨rule, hrule, hg⟩ := (gives_publicEntry hr).2 hg
      exact ⟨rule, List.mem_flatMap.2 ⟨_, he, hrule⟩, hg⟩
    rintro (⟨hk, hm, hg⟩ | ⟨hk, hm, hi, hp⟩)
    · exact back hk hm (Or.inl ⟨rfl, hg⟩)
    · exact back hk hm (Or.inr ⟨_, hi, hp⟩)

/-! ## Known actions -/

/-- The grant of a role stands in the document. -/
theorem declared_grant (h : ofJson (.object doc) = .ok d) {r : Role} {gr : Grant}
    (hg : d.roles.get? r = some gr) :
    IsRoleKey r ∧ ∃ v, (r, v) ∈ doc ∧ roleEntry r v = .ok gr := by
  have hd := declares_of_mem_roles h (OrderedMap.get?_eq_some_iff.1 hg)
  obtain ⟨hk, _, v, hm, hr⟩ := declares_role.1 hd
  exact ⟨hk, v, hm, hr⟩

/-- The rules of the public mention the actions of the pairs under the keys of built-in actions. -/
theorem mentions_of_publicRules (h : ofJson (.object doc) = .ok d) (hx : ¬ IsActionKey x)
    {rule : Rule} (hr : rule ∈ d.allPublicRules) (ha : Action.ofName x ∈ rule.actions) :
    Document.Mentions doc x := by
  obtain ⟨⟨a, rules⟩, he, hr⟩ := List.mem_flatMap.1 hr
  obtain ⟨hb, v, hv, hrules⟩ := declares_publicRules.1 (declares_of_mem_publicRules h he)
  obtain ⟨items, _, rfl, _⟩ := publicEntry_eq_ok_iff.1 hrules
  have hne : Action.ofName x ≠ a := by
    rintro rfl
    exact hx hb
  obtain ⟨as, fs, hi, hn⟩ := (actions_publicEntry hrules hne).1 ⟨rule, hr, ha⟩
  exact .pair hv hi hn

/-- A role's grant mentions the actions of its rules or of its mapping. -/
theorem mentions_of_grants (dk : Json.DistinctKeys (.object doc))
    (h : ofJson (.object doc) = .ok d) {gr : Grant} (hg : gr ∈ d.grants)
    (ha : Action.ofName x ∈ gr.actions) : Document.Mentions doc x := by
  obtain ⟨⟨r, gr⟩, he, rfl⟩ := List.mem_map.1 hg
  obtain ⟨hk, v, hv, hr⟩ := declared_grant h (OrderedMap.get?_eq_some_iff.2 he)
  cases gr with
  | everything => cases ha
  | rules rs =>
    obtain ⟨items, rfl, hrs⟩ := roleEntry_eq_rules.1 hr
    obtain ⟨rule, hrule, ha⟩ := List.mem_flatMap.1 ha
    obtain ⟨item, hi, hitem⟩ := (mem_of_mapM hrs).1 hrule
    rcases (mem_actions_roleItem hitem).1 ha with rfl | ⟨as, fs, rfl, hn⟩
    · exact .rule hk hv hi
    · exact .pair hv hi hn
  | table u =>
    obtain ⟨ms, es, rfl, hes, rfl⟩ := roleEntry_eq_table.1 hr
    obtain ⟨w, hm⟩ := (mem_keys_ofList (dk.member hv).nodup hes).1 ha
    exact .mapping hk hv hm

/-- The items of a role's list are the rules of its grant. -/
theorem exists_rule (nd : (doc.map Prod.fst).Nodup) (h : ofJson (.object doc) = .ok d) {r : Role}
    {items : List Json} {item : Json} (hk : IsRoleKey r) (hv : (r, .array items) ∈ doc)
    (hi : item ∈ items) :
    ∃ rs rule, d.roles.get? r = some (.rules rs) ∧ rule ∈ rs ∧ roleItem r item = .ok rule := by
  obtain ⟨gr, hgr, hget⟩ := exists_grant nd h hk hv
  obtain ⟨rs, hrs, rfl⟩ := roleEntry_array.1 hgr
  obtain ⟨rule, hrule, hitem⟩ := exists_of_mapM hrs hi
  exact ⟨rs, rule, hget, hrule, hitem⟩

/-- The mapping of a role is the table of its grant. -/
theorem exists_table (nd : (doc.map Prod.fst).Nodup) (h : ofJson (.object doc) = .ok d) {r : Role}
    {ms : List (String × Json)} (hk : IsRoleKey r) (hv : (r, .object ms) ∈ doc) :
    ∃ es, d.roles.get? r = some (.table (OrderedMap.ofList es)) ∧
      ms.mapM (readEntry r) = .ok es := by
  obtain ⟨gr, hgr, hget⟩ := exists_grant nd h hk hv
  obtain ⟨es, hes, rfl⟩ := roleEntry_object.1 hgr
  exact ⟨es, hget, hes⟩

/-- What is mentioned stands in a public rule or in a grant. -/
theorem mentioned (dk : Json.DistinctKeys (.object doc)) (h : ofJson (.object doc) = .ok d)
    (hno : actionsKey ∉ doc.map Prod.fst) (hx : ¬ IsActionKey x) (hm : Document.Mentions doc x) :
    (∃ rule ∈ d.allPublicRules, Action.ofName x ∈ rule.actions) ∨
      ∃ gr ∈ d.grants, Action.ofName x ∈ gr.actions := by
  have ofGrant : ∀ {r : Role} {gr : Grant}, d.roles.get? r = some gr →
      Action.ofName x ∈ gr.actions → ∃ gr ∈ d.grants, Action.ofName x ∈ gr.actions := by
    intro r gr hg ha
    exact ⟨gr, List.mem_map_of_mem (OrderedMap.get?_eq_some_iff.1 hg), ha⟩
  have ofItem : ∀ {r : Role} {items : List Json} {item : Json}, IsRoleKey r →
      (r, .array items) ∈ doc → item ∈ items →
      (item = .string x ∨ ∃ as fs, item = .array [as, fs] ∧ as.Names x) →
      ∃ gr ∈ d.grants, Action.ofName x ∈ gr.actions := by
    intro r items item hk hv hi ha
    obtain ⟨rs, rule, hget, hrule, hitem⟩ := exists_rule dk.nodup h hk hv hi
    have ha := (mem_actions_roleItem hitem).2 ha
    exact ofGrant hget (List.mem_flatMap.2 ⟨rule, hrule, ha⟩)
  cases hm with
  | @pair k x items as fs hv hi hn =>
    -- a pair stands under the key of a built-in action or of a role, as no actions are listed
    by_cases hk : IsActionKey k
    · obtain ⟨rules, hr, he⟩ := exists_publicRules dk.nodup h hk hv
      have hne : Action.ofName x ≠ Action.ofName k := fun e => hx (Action.ofName_injective e ▸ hk)
      obtain ⟨rule, hrule, ha⟩ := (actions_publicEntry hr hne).2 ⟨as, fs, hi, hn⟩
      exact Or.inl ⟨rule, List.mem_flatMap.2 ⟨_, he, hrule⟩, ha⟩
    · have hl : k ≠ actionsKey := by
        rintro rfl
        exact hno (List.mem_map_of_mem hv)
      exact Or.inr (ofItem ⟨hl, hk⟩ hv hi (Or.inr ⟨as, fs, rfl, hn⟩))
  | rule hk hv hi => exact Or.inr (ofItem hk hv hi (Or.inl rfl))
  | mapping hk hv hw =>
    obtain ⟨es, hget, hes⟩ := exists_table dk.nodup h hk hv
    exact Or.inr (ofGrant hget ((mem_keys_ofList (dk.member hv).nodup hes).2 ⟨_, hw⟩))

/-- **Known actions.** -/
theorem mem_knownActions_iff (dk : Json.DistinctKeys (.object doc))
    (h : ofJson (.object doc) = .ok d) :
    Action.ofName x ∈ d.knownActions ↔ Document.Knows doc x := by
  unfold knownActions Document.Knows
  cases has : d.actions with
  | some as =>
    obtain ⟨v, hv, hl⟩ := declares_actions.1 (declares_of_actions_eq_some h has)
    obtain ⟨ns, rfl, _, rfl⟩ := actionList_eq_ok_iff.1 hl
    show Action.ofName x ∈ OrderedSet.ofList (ns.map Action.ofName) ↔ _
    rw [OrderedSet.mem_ofList, mem_map_ofName]
    constructor
    · exact fun hx => Or.inl ⟨_, hv, List.mem_map_of_mem hx⟩
    · rintro (⟨items, hm, hx⟩ | ⟨hno, _⟩)
      · obtain ⟨as', ha', has'⟩ := exists_actions dk.nodup h hm
        obtain ⟨ns', e, _, rfl⟩ := actionList_eq_ok_iff.1 ha'
        cases e
        rw [has] at has'
        obtain ⟨n, hn, e⟩ := List.mem_map.1 hx
        cases e
        exact mem_map_ofName.1 (Option.some.inj has' ▸ List.mem_map_of_mem hn)
      · exact absurd (List.mem_map_of_mem hv) hno
  | none =>
    have hno : actionsKey ∉ doc.map Prod.fst := by
      intro hm
      obtain ⟨⟨k, v⟩, hm, rfl⟩ := List.mem_map.1 hm
      obtain ⟨as, _, has'⟩ := exists_actions dk.nodup h hm
      rw [has] at has'
      cases has'
    show Action.ofName x ∈ OrderedSet.ofList (Action.builtIns ++ _ ++ _) ↔ _
    rw [OrderedSet.mem_ofList, List.mem_append, List.mem_append, Action.mem_builtIns,
      List.mem_flatMap, List.mem_flatMap]
    constructor
    · intro hx
      refine Or.inr ⟨hno, ?_⟩
      by_cases hk : IsActionKey x
      · exact Or.inl hk
      rcases hx with (hb | ⟨rule, hr, ha⟩) | ⟨gr, hg, ha⟩
      · exact Or.inl hb
      · exact Or.inr (mentions_of_publicRules h hk hr ha)
      · exact Or.inr (mentions_of_grants dk h hg ha)
    · rintro (⟨items, hm, _⟩ | ⟨_, hx⟩)
      · exact absurd (List.mem_map_of_mem hm) hno
      · by_cases hk : IsActionKey x
        · exact Or.inl (Or.inl hk)
        rcases mentioned dk h hno hk (hx.resolve_left hk) with hp | hg
        · exact Or.inl (Or.inr hp)
        · exact Or.inr hg

/-! ## Agreement -/

/-- Whatever a declaration gives was granted by its document. -/
theorem grants_of_gives (dk : Json.DistinctKeys (.object doc)) (h : ofJson (.object doc) = .ok d)
    {r : Role} (hg : d.Gives r (Action.ofName x) g) : Document.Grants doc r x g := by
  cases hg with
  | publicField hf => exact .everyone ((mem_publicTable_iff dk.nodup h).1 hf)
  | rule hget hr hf =>
    obtain ⟨hk, v, hv, hentry⟩ := declared_grant h hget
    obtain ⟨items, rfl, hrs⟩ := roleEntry_eq_rules.1 hentry
    obtain ⟨item, hi, hitem⟩ := (mem_of_mapM hrs).1 hr
    rcases (mem_gives_roleItem hitem).1 hf with ⟨rfl, rfl⟩ | hp | ⟨⟨as, fs, rfl, hn⟩, hp⟩
    · exact .action hk hv hi
    · exact .pair hk hv hi hp
    · exact .inherited hk hv hi hn ((mem_publicTable_iff dk.nodup h).1 hp)
  | table hget hf =>
    obtain ⟨hk, v, hv, hentry⟩ := declared_grant h hget
    obtain ⟨ms, es, rfl, hes, rfl⟩ := roleEntry_eq_table.1 hentry
    obtain ⟨fields, hm, hg⟩ := (mem_fieldsOf_ofList (dk.member hv).nodup hes).1 hf
    exact .mapping hk hv hm hg
  | everything hget ha =>
    obtain ⟨hk, v, hv, hentry⟩ := declared_grant h hget
    obtain rfl := roleEntry_eq_everything.1 hentry
    exact .everything hk hv ((mem_knownActions_iff dk h).1 ha)

/-- Whatever a document grants is given by its declaration. -/
theorem gives_of_grants (dk : Json.DistinctKeys (.object doc)) (h : ofJson (.object doc) = .ok d)
    {r : Role} (hg : Document.Grants doc r x g) : d.Gives r (Action.ofName x) g := by
  cases hg with
  | everyone hp => exact .publicField ((mem_publicTable_iff dk.nodup h).2 hp)
  | action hk hv hi =>
    obtain ⟨rs, rule, hget, hrule, hitem⟩ := exists_rule dk.nodup h hk hv hi
    exact .rule hget hrule ((mem_gives_roleItem hitem).2 (Or.inl ⟨rfl, rfl⟩))
  | pair hk hv hi hp =>
    obtain ⟨rs, rule, hget, hrule, hitem⟩ := exists_rule dk.nodup h hk hv hi
    exact .rule hget hrule ((mem_gives_roleItem hitem).2 (Or.inr (Or.inl hp)))
  | inherited hk hv hi hn hp =>
    obtain ⟨rs, rule, hget, hrule, hitem⟩ := exists_rule dk.nodup h hk hv hi
    have hpublic := (mem_publicTable_iff dk.nodup h).2 hp
    exact .rule hget hrule
      ((mem_gives_roleItem hitem).2 (Or.inr (Or.inr ⟨⟨_, _, rfl, hn⟩, hpublic⟩)))
  | mapping hk hv hm hf =>
    obtain ⟨es, hget, hes⟩ := exists_table dk.nodup h hk hv
    exact .table hget ((mem_fieldsOf_ofList (dk.member hv).nodup hes).2 ⟨_, hm, hf⟩)
  | everything hk hv hx =>
    obtain ⟨gr, hgr, hget⟩ := exists_grant dk.nodup h hk hv
    obtain ⟨_, rfl⟩ := roleEntry_string.1 hgr
    exact .everything hget ((mem_knownActions_iff dk h).2 hx)

/-- **Agreement**: the declaration of a document gives what the document grants. -/
theorem gives_iff_grants (dk : Json.DistinctKeys (.object doc)) (h : ofJson (.object doc) = .ok d)
    {r : Role} : d.Gives r (Action.ofName x) g ↔ Document.Grants doc r x g :=
  ⟨grants_of_gives dk h, gives_of_grants dk h⟩

/-- **What the table of a document permits.** -/
theorem permits_compile_iff (dk : Json.DistinctKeys (.object doc))
    (h : ofJson (.object doc) = .ok d) {r : Role} {f : String} :
    d.compile.permits r (Action.ofName x) f = true ↔ Document.Permits doc r x f := by
  unfold Document.Permits
  rw [permits_compile, gives_iff_grants dk h, gives_iff_grants dk h]

end FieldAccess.Declaration
