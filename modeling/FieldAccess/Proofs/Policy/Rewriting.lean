/-
  Documents that differ in one place.

  1. **Parts** — two parts are alike if they stand under one key and make alike contributions.  Documents
     whose members pair off with alike parts have declarations that match (`matches_of_members`).

  2. **Pairs** — a pair depends on which names stand on either side, and not on their order or on how they
     are written.

  3. **Items** — under the key of a built-in action as under that of a role, each item of a list is a rule
     of its own (`itemRule`).  So items may be reordered, and one item may be replaced by several that make
     up an alike list of rules (`readAlike_of_split`).

  4. **Mappings** — a mapping depends on the names that stand under each of its keys.

  5. **Tables** — documents whose declarations match have the same table.
-/
import FieldAccess.Proofs.Policy.Acceptance
import FieldAccess.Proofs.Policy.Comparison
import FieldAccess.Proofs.Policy.Meaning

namespace FieldAccess

/-! ## Parts -/

/-- Where one element of a list is replaced, each element has its counterpart. -/
theorem exists_mem_replaced {α : Type} {R : α → α → Prop} (hR : ∀ a, R a a) {xs ys : List α} {x x' : α}
    (h : R x x') : ∀ a ∈ xs ++ x :: ys, ∃ a' ∈ xs ++ x' :: ys, R a a' := by
  intro a ha
  rcases List.mem_append.1 ha with ha | ha
  · exact ⟨a, List.mem_append_left _ ha, hR a⟩
  rcases List.mem_cons.1 ha with rfl | ha
  · exact ⟨x', List.mem_append_right _ List.mem_cons_self, h⟩
  · exact ⟨a, List.mem_append_right _ (List.mem_cons_of_mem _ ha), hR a⟩

namespace Declaration

variable {R : Role → Grant → Grant → Prop} {known : List Action} {k : String}

/-- Two parts stand under one key and are alike, grants as far as a relation says. -/
inductive Part.Alike (R : Role → Grant → Grant → Prop) : Part → Part → Prop where
  | actions {as as' : List Action} : (∀ a, a ∈ as ↔ a ∈ as') → Alike R (.actions as) (.actions as')
  | publicRules {a : Action} {rs rs' : List Rule} : RulesAlike rs rs' →
      Alike R (.publicRules a rs) (.publicRules a rs')
  | role {r : Role} {g g' : Grant} : R r g g' → Alike R (.role r g) (.role r g')

theorem Part.Alike.refl (hR : ∀ r g, R r g g) (p : Part) : p.Alike R p := by
  cases p with
  | actions as => exact .actions fun _ => Iff.rfl
  | publicRules a rs => exact .publicRules (.refl rs)
  | role r g => exact .role (hR r g)

/-- What is read from two members is alike. -/
def ReadAlike (R : Role → Grant → Grant → Prop) (m m' : String × Json) : Prop :=
  ∀ p p', readPart m = .ok p → readPart m' = .ok p' → p.Alike R p'

theorem ReadAlike.refl (hR : ∀ r g, R r g g) (m : String × Json) : ReadAlike R m m := by
  intro p p' hp hp'
  rw [hp] at hp'
  cases hp'
  exact .refl hR p

section Documents

variable {doc doc' : List (String × Json)} {d d' : Declaration}

/-- **Documents with alike members** have declarations that match. -/
theorem matches_of_members (nd : (doc.map Prod.fst).Nodup) (nd' : (doc'.map Prod.fst).Nodup)
    (h : ofJson (.object doc) = .ok d) (h' : ofJson (.object doc') = .ok d')
    (hto : ∀ m ∈ doc, ∃ m' ∈ doc', ReadAlike R m m')
    (hfrom : ∀ m' ∈ doc', ∃ m ∈ doc, ReadAlike R m m') : d.Matches R d' := by
  have declared : ∀ p, Declares doc p → ∃ p', Declares doc' p' ∧ p.Alike R p' := by
    rintro p ⟨m, hm, hp⟩
    obtain ⟨m', hm', ha⟩ := hto m hm
    obtain ⟨p', hp'⟩ := exists_readPart h' hm'
    exact ⟨p', ⟨m', hm', hp'⟩, ha p p' hp hp'⟩
  have declared' : ∀ p', Declares doc' p' → ∃ p, Declares doc p ∧ p.Alike R p' := by
    rintro p' ⟨m', hm', hp'⟩
    obtain ⟨m, hm, ha⟩ := hfrom m' hm'
    obtain ⟨p, hp⟩ := exists_readPart h hm
    exact ⟨p, ⟨m, hm, hp⟩, ha p p' hp hp'⟩
  refine ⟨optionRel_of_forall (fun as has => ?_) (fun as' has => ?_),
    RulesAlike.flatMap ?_ ?_, fun r => optionRel_of_forall (fun g hg => ?_) (fun g' hg => ?_)⟩
  · obtain ⟨_, hp, ha⟩ := declared _ ((actions_eq_some_iff nd h).1 has)
    cases ha with
    | actions ha => exact ⟨_, (actions_eq_some_iff nd' h').2 hp, ha⟩
  · obtain ⟨_, hp, ha⟩ := declared' _ ((actions_eq_some_iff nd' h').1 has)
    cases ha with
    | actions ha => exact ⟨_, (actions_eq_some_iff nd h).2 hp, ha⟩
  · rintro ⟨a, rs⟩ he
    obtain ⟨_, hp, ha⟩ := declared _ ((mem_publicRules_iff nd h).1 he)
    cases ha with
    | publicRules ha => exact ⟨(a, _), (mem_publicRules_iff nd' h').2 hp, ha⟩
  · rintro ⟨a, rs⟩ he
    obtain ⟨_, hp, ha⟩ := declared' _ ((mem_publicRules_iff nd' h').1 he)
    cases ha with
    | publicRules ha => exact ⟨(a, _), (mem_publicRules_iff nd h).2 hp, ha⟩
  · obtain ⟨_, hp, ha⟩ := declared _ ((mem_roles_iff nd h).1 (OrderedMap.get?_eq_some_iff.1 hg))
    cases ha with
    | role hr => exact ⟨_, OrderedMap.get?_eq_some_iff.2 ((mem_roles_iff nd' h').2 hp), hr⟩
  · obtain ⟨_, hp, ha⟩ := declared' _ ((mem_roles_iff nd' h').1 (OrderedMap.get?_eq_some_iff.1 hg))
    cases ha with
    | role hr => exact ⟨_, OrderedMap.get?_eq_some_iff.2 ((mem_roles_iff nd h).2 hp), hr⟩

/-- The order of the members does not matter. -/
theorem matches_of_perm (hR : ∀ r g, R r g g) (nd : (doc.map Prod.fst).Nodup) (hp : doc.Perm doc')
    (h : ofJson (.object doc) = .ok d) (h' : ofJson (.object doc') = .ok d') : d.Matches R d' :=
  matches_of_members nd ((hp.map _).nodup_iff.1 nd) h h'
    (fun m hm => ⟨m, hp.mem_iff.1 hm, .refl hR m⟩) (fun m hm => ⟨m, hp.mem_iff.2 hm, .refl hR m⟩)

/-- One member may be replaced by an alike one with the same key. -/
theorem matches_of_member (hR : ∀ r g, R r g g) {pre post : List (String × Json)} {v v' : Json}
    (nd : ((pre ++ (k, v) :: post).map Prod.fst).Nodup) (ha : ReadAlike R (k, v) (k, v'))
    (h : ofJson (.object (pre ++ (k, v) :: post)) = .ok d)
    (h' : ofJson (.object (pre ++ (k, v') :: post)) = .ok d') : d.Matches R d' := by
  have nd' : ((pre ++ (k, v') :: post).map Prod.fst).Nodup := by
    rw [List.map_append, List.map_cons] at nd ⊢
    exact nd
  exact matches_of_members nd nd' h h' (exists_mem_replaced (.refl hR) ha)
    (exists_mem_replaced (R := flip (ReadAlike R)) (.refl hR) ha)

end Documents

/-! ## Names and pairs -/

theorem names_strings {ns : List String} {n : String} :
    (Json.array (ns.map .string)).Names n ↔ n ∈ ns := Json.Listing.names_iff (Or.inl rfl)

/-- A list of actions depends on the names in it. -/
theorem readAlike_actions {v v' : Json} (hv : ∀ n, v.Names n ↔ v'.Names n) :
    ReadAlike R (actionsKey, v) (actionsKey, v') := by
  intro p p' hp hp'
  rw [readPart_actions rfl, map_eq_ok] at hp hp'
  obtain ⟨_, ha, rfl⟩ := hp
  obtain ⟨_, ha', rfl⟩ := hp'
  obtain ⟨ns, rfl, _, rfl⟩ := actionList_eq_ok_iff.1 ha
  obtain ⟨ns', rfl, _, rfl⟩ := actionList_eq_ok_iff.1 ha'
  refine .actions fun a => ?_
  have hn : ∀ n, n ∈ ns ↔ n ∈ ns' := by
    intro n
    rw [← names_strings, hv, names_strings]
  simp only [List.mem_map, hn]

/-- A rule depends on its actions and on its fields, as sets. -/
theorem rulesAlike_grant {as as' : List Action} {fs fs' : FieldSet} (ha : ∀ a, a ∈ as ↔ a ∈ as')
    (hf : ∀ f, f ∈ fs ↔ f ∈ fs') : RulesAlike [.grant as fs] [.grant as' fs'] := by
  refine ⟨by simp, fun a => ?_, fun t a f => ?_⟩
  · simpa [Rule.actions] using ha a
  · rw [List.flatMap_singleton, List.flatMap_singleton, Rule.mem_gives_grant, Rule.mem_gives_grant,
      ha, hf]

/-- A pair depends on the names on either side. -/
theorem rulesAlike_pair {owner : String} {as fs as' fs' : Json} {rule rule' : Rule}
    (ha : ∀ n, as.Names n ↔ as'.Names n) (hf : ∀ n, fs.Names n ↔ fs'.Names n)
    (h : pair owner (.array [as, fs]) = .ok rule) (h' : pair owner (.array [as', fs']) = .ok rule') :
    RulesAlike [rule] [rule'] := by
  obtain ⟨ns, ms, ⟨⟨_, _, e, hns, hms⟩, _, _⟩, rfl⟩ := pair_eq_ok_iff.1 h
  obtain ⟨ns', ms', ⟨⟨_, _, e', hns', hms'⟩, _, _⟩, rfl⟩ := pair_eq_ok_iff.1 h'
  cases e
  cases e'
  refine rulesAlike_grant (fun a => ?_) fun f => ?_
  · simp only [List.mem_map, ← hns.names_iff, ← hns'.names_iff, ha]
  · rw [OrderedSet.mem_ofList, OrderedSet.mem_ofList, ← hms.names_iff, ← hms'.names_iff, hf]

/-! ## Items -/

/-- The rule that an item of an entry stands for by itself. -/
def ruleOf (a : Action) : String ⊕ Rule → Rule
  | .inl n => Rule.single a [n]
  | .inr rule => rule

/-- Gathering the plain fields of an entry into one rule does not matter. -/
theorem rulesAlike_gather {a : Action} {parts : List (String ⊕ Rule)} (hne : parts ≠ []) :
    RulesAlike (gather a parts) (parts.map (ruleOf a)) := by
  have hsome : (∃ n, .inl n ∈ parts) ∨ ∃ r, .inr r ∈ parts := by
    obtain ⟨_ | _, hp⟩ := List.exists_mem_of_ne_nil parts hne
    · exact Or.inl ⟨_, hp⟩
    · exact Or.inr ⟨_, hp⟩
  have hgather : ∀ rule, rule ∈ gather a parts ↔ .inr rule ∈ parts ∨
      rule = Rule.single a (parts.filterMap Sum.getLeft?) ∧ ∃ n, .inl n ∈ parts := by
    intro rule
    rw [mem_gather]
    refine or_congr_right (and_congr_right fun _ => ⟨?_, Or.inl⟩)
    exact fun h => h.elim id fun hno => hsome.resolve_right fun ⟨r, hr⟩ => hno r hr
  have hplain : ∀ n, n ∈ parts.filterMap Sum.getLeft? ↔ .inl n ∈ parts := by
    intro n
    simp [List.mem_filterMap, Sum.getLeft?_eq_some_iff]
  refine ⟨?_, fun b => ?_, fun t b f => ?_⟩
  · rw [List.map_eq_nil_iff, iff_false_right hne, List.eq_nil_iff_forall_not_mem]
    intro hnone
    rcases hsome with hn | ⟨r, hr⟩
    · exact hnone _ ((hgather _).2 (Or.inr ⟨rfl, hn⟩))
    · exact hnone r ((hgather r).2 (Or.inl hr))
  · simp only [List.mem_flatMap, hgather, List.mem_map]
    constructor
    · rintro ⟨rule, hr | ⟨rfl, n, hn⟩, hb⟩
      · exact ⟨rule, ⟨_, hr, rfl⟩, hb⟩
      · exact ⟨_, ⟨_, hn, rfl⟩, hb⟩
    · rintro ⟨_, ⟨n | rule, hp, rfl⟩, hb⟩
      · exact ⟨_, Or.inr ⟨rfl, n, hp⟩, hb⟩
      · exact ⟨rule, Or.inl hp, hb⟩
  · simp only [List.mem_flatMap, hgather, List.mem_map]
    constructor
    · rintro ⟨rule, hr | ⟨rfl, n, hn⟩, hf⟩
      · exact ⟨rule, ⟨_, hr, rfl⟩, hf⟩
      · -- the field is a plain one, or a public one that any plain field brings along
        obtain ⟨hb, hf | hf⟩ := Rule.mem_gives_grant.1 hf
        · refine ⟨_, ⟨_, (hplain f).1 (OrderedSet.mem_ofList.1 hf), rfl⟩, ?_⟩
          exact Rule.mem_gives_grant.2 ⟨hb, Or.inl (OrderedSet.mem_ofList.2 List.mem_cons_self)⟩
        · exact ⟨_, ⟨_, hn, rfl⟩, Rule.mem_gives_grant.2 ⟨hb, Or.inr hf⟩⟩
    · rintro ⟨_, ⟨n | rule, hp, rfl⟩, hf⟩
      · refine ⟨_, Or.inr ⟨rfl, n, hp⟩, ?_⟩
        obtain ⟨hb, hf⟩ := Rule.mem_gives_grant.1 hf
        refine Rule.mem_gives_grant.2 ⟨hb, hf.imp_left fun hf => ?_⟩
        obtain rfl := List.mem_singleton.1 (OrderedSet.mem_ofList.1 hf)
        exact OrderedSet.mem_ofList.2 ((hplain f).2 hp)
      · exact ⟨rule, Or.inl hp, hf⟩

/-- Reads an item as a rule of its own. -/
def itemRule (k : String) (item : Json) : Except Defect Rule :=
  if IsActionKey k then ruleOf (Action.ofName k) <$> publicItem (Action.ofName k) item
  else roleItem k item

theorem itemRule_eq_ok_iff {item : Json} {rule : Rule} :
    itemRule k item = .ok rule ↔
      (∃ n, item = .string n ∧ n ≠ "" ∧ rule =
        if IsActionKey k then Rule.single (Action.ofName k) [n] else .everyField (Action.ofName n)) ∨
      pair k item = .ok rule := by
  unfold itemRule
  split
  · rw [map_eq_ok]
    simp only [publicItem_eq_ok_iff, Action.name_ofName]
    constructor
    · rintro ⟨_, ⟨n, hi, hn, rfl⟩ | ⟨rule, hr, rfl⟩, rfl⟩
      · exact Or.inl ⟨n, hi, hn, rfl⟩
      · exact Or.inr hr
    · rintro (⟨n, hi, hn, rfl⟩ | hr)
      · exact ⟨.inl n, Or.inl ⟨n, hi, hn, rfl⟩, rfl⟩
      · exact ⟨.inr rule, Or.inr ⟨rule, hr, rfl⟩, rfl⟩
  · exact roleItem_eq_ok_iff

/-- The part of a list of rules. -/
def rulePart (k : String) (rs : List Rule) : Part :=
  if IsActionKey k then .publicRules (Action.ofName k) rs else .role k (.rules rs)

/-- **A list under a key** is read as the rules of its items, if it has any. -/
theorem exists_rules_of_readPart {items : List Json} {p : Part} (hk : k ≠ actionsKey)
    (h : readPart (k, .array items) = .ok p) :
    ∃ rs rs', items.mapM (itemRule k) = .ok rs ∧ p = rulePart k rs' ∧
      (items ≠ [] → RulesAlike rs' rs) := by
  unfold rulePart
  rcases readPart_cases h with ⟨e, _⟩ | ⟨hk, rules, rfl, hr⟩ | ⟨hk, _, g, rfl, hg⟩
  · exact absurd e hk
  · obtain ⟨_, parts, e, hp, rfl⟩ := publicEntry_eq_ok_iff.1 hr
    cases e
    have hread : items.mapM (itemRule k) = .ok (parts.map (ruleOf (Action.ofName k))) := by
      have hf : itemRule k = fun item => ruleOf (Action.ofName k) <$> publicItem (Action.ofName k) item := by
        funext item
        exact if_pos hk
      rw [mapM_eq_ok_iff, hf, List.map_map]
      have hm := congrArg (List.map fun x : Except Defect _ => ruleOf (Action.ofName k) <$> x)
        (mapM_eq_ok_iff.1 hp)
      rw [List.map_map, List.map_map] at hm
      exact hm
    refine ⟨_, _, hread, (if_pos hk).symm, fun hne => rulesAlike_gather ?_⟩
    rintro rfl
    exact hne (List.map_eq_nil_iff.1 (mapM_eq_ok_iff.1 hp))
  · obtain ⟨rs, hr, rfl⟩ := roleEntry_array.1 hg
    have hf : itemRule k = roleItem k := by
      funext item
      exact if_neg hk.2
    exact ⟨rs, rs, by rw [hf]; exact hr, (if_neg hk.2).symm, fun _ => .refl rs⟩

/-- Lists under a key are alike if the rules of their items are. -/
theorem readAlike_array {items items' : List Json} (hk : k ≠ actionsKey)
    (hne : items = [] ↔ items' = [])
    (h : ∀ rs rs', items.mapM (itemRule k) = .ok rs → items'.mapM (itemRule k) = .ok rs' →
      RulesAlike rs rs') :
    ReadAlike (Grant.Alike known) (k, .array items) (k, .array items') := by
  intro p p' hp hp'
  by_cases hnil : items = []
  · rw [hne.1 hnil] at hp'
    rw [hnil] at hp
    exact ReadAlike.refl (Grant.Alike.refl known) _ p p' hp hp'
  obtain ⟨rs, qs, hrs, rfl, hq⟩ := exists_rules_of_readPart hk hp
  obtain ⟨rs', qs', hrs', rfl, hq'⟩ := exists_rules_of_readPart hk hp'
  have ha : RulesAlike qs qs' :=
    ((hq hnil).trans (h rs rs' hrs hrs')).trans (hq' (mt hne.2 hnil)).symm
  unfold rulePart
  split
  · exact .publicRules ha
  · exact .role (.rules ha)

/-- The order of the items does not matter. -/
theorem readAlike_of_perm {items items' : List Json} (hk : k ≠ actionsKey)
    (hp : items.Perm items') :
    ReadAlike (Grant.Alike known) (k, .array items) (k, .array items') := by
  refine readAlike_array hk ⟨fun e => ?_, fun e => ?_⟩ fun rs rs' h h' => .of_mem fun rule => ?_
  · subst e
    exact hp.nil_eq.symm
  · subst e
    exact hp.eq_nil
  · rw [mem_of_mapM h, mem_of_mapM h']
    simp only [hp.mem_iff]

/-- **One item** may be replaced by several that make up an alike list of rules. -/
theorem readAlike_of_split {xs ys more : List Json} {item : Json} (hk : k ≠ actionsKey)
    (hne : more ≠ [])
    (h : ∀ rule rules, itemRule k item = .ok rule → more.mapM (itemRule k) = .ok rules →
      RulesAlike [rule] rules) :
    ReadAlike (Grant.Alike known) (k, .array (xs ++ item :: ys)) (k, .array (xs ++ more ++ ys)) := by
  refine readAlike_array hk (by simp [hne]) fun rs rs' hr hr' => ?_
  obtain ⟨before, rule, rules, after, hrule, hrules, rfl, rfl⟩ := exists_of_mapM_split hr hr'
  exact (RulesAlike.refl before).append ((h rule rules hrule hrules).append (.refl after))

/-! ## Mappings -/

/-- Two tables are the same if their entries are, as sets of fields. -/
theorem same_of_entries {t u : ActionTable}
    (hto : ∀ a fs, (a, fs) ∈ t.entries → ∃ fs', (a, fs') ∈ u.entries ∧ ∀ f, f ∈ fs ↔ f ∈ fs')
    (hfrom : ∀ a fs', (a, fs') ∈ u.entries → ∃ fs, (a, fs) ∈ t.entries ∧ ∀ f, f ∈ fs ↔ f ∈ fs') :
    t.Same u := by
  have hrel : ∀ a, Option.Rel (fun fs fs' : FieldSet => ∀ f, f ∈ fs ↔ f ∈ fs') (t.get? a) (u.get? a) := by
    intro a
    simp only [← OrderedMap.get?_eq_some_iff] at hto hfrom
    exact optionRel_of_forall (hto a) (hfrom a)
  refine ⟨fun a => ?_, fun a f => ?_⟩
  · rw [← OrderedMap.isSome_get?_iff, ← OrderedMap.isSome_get?_iff]
    exact isSome_iff_of_optionRel (hrel a)
  · unfold ActionTable.fieldsOf
    have ha := hrel a
    generalize t.get? a = o at ha ⊢
    generalize u.get? a = o' at ha ⊢
    cases ha with
    | none => exact Iff.rfl
    | some ha => exact ha f

/-- Two members of mappings have one key, and the same names stand under it. -/
structure NamesAlike (m m' : String × Json) : Prop where
  key : m'.1 = m.1
  names : ∀ n, m.2.Names n ↔ m'.2.Names n

theorem NamesAlike.refl (m : String × Json) : NamesAlike m m := ⟨rfl, fun _ => Iff.rfl⟩

/-- A member of a mapping depends on its key and on the names that stand under it. -/
theorem NamesAlike.readEntry {m m' : String × Json} {e e' : Action × FieldSet} (ha : NamesAlike m m')
    (h : readEntry k m = .ok e) (h' : readEntry k m' = .ok e') :
    e'.1 = e.1 ∧ ∀ f, f ∈ e.2 ↔ f ∈ e'.2 := by
  obtain ⟨hkey, hn⟩ := ha
  obtain ⟨x, v⟩ := m
  obtain ⟨_, v'⟩ := m'
  obtain rfl := hkey
  obtain ⟨_, ns, rfl, _, rfl⟩ := readEntry_eq_ok_iff.1 h
  obtain ⟨_, ns', rfl, _, rfl⟩ := readEntry_eq_ok_iff.1 h'
  refine ⟨rfl, fun f => ?_⟩
  show f ∈ OrderedSet.ofList ns ↔ f ∈ OrderedSet.ofList ns'
  rw [OrderedSet.mem_ofList, OrderedSet.mem_ofList, ← names_strings, hn, names_strings]

/-- Mappings with the same keys, and the same names under each of them, are alike. -/
theorem readAlike_object {ms ms' : List (String × Json)} (nd : (ms.map Prod.fst).Nodup)
    (nd' : (ms'.map Prod.fst).Nodup)
    (hto : ∀ m ∈ ms, ∃ m' ∈ ms', NamesAlike m m') (hfrom : ∀ m' ∈ ms', ∃ m ∈ ms, NamesAlike m m') :
    ReadAlike (Grant.Alike known) (k, .object ms) (k, .object ms') := by
  intro p p' hp hp'
  rcases readPart_cases hp with ⟨_, _, _, h⟩ | ⟨_, _, _, h⟩ | ⟨hk, hne, g, rfl, hg⟩
  · obtain ⟨_, e, _⟩ := actionList_eq_ok_iff.1 h
    cases e
  · obtain ⟨_, _, e, _⟩ := publicEntry_eq_ok_iff.1 h
    cases e
  rw [readPart_role hk hne, map_eq_ok] at hp'
  obtain ⟨_, hg', rfl⟩ := hp'
  obtain ⟨es, hes, rfl⟩ := roleEntry_object.1 hg
  obtain ⟨es', hes', rfl⟩ := roleEntry_object.1 hg'
  refine .role (.table (same_of_entries (fun a fs he => ?_) fun a fs' he => ?_))
  · rw [entries_ofList nd hes] at he
    rw [entries_ofList nd' hes']
    obtain ⟨m, hm, hr⟩ := (mem_of_mapM hes).1 he
    obtain ⟨m', hm', halike⟩ := hto m hm
    obtain ⟨⟨_, fs'⟩, he', hr'⟩ := exists_of_mapM hes' hm'
    obtain ⟨rfl, hf⟩ := halike.readEntry hr hr'
    exact ⟨fs', he', hf⟩
  · rw [entries_ofList nd' hes'] at he
    rw [entries_ofList nd hes]
    obtain ⟨m', hm', hr'⟩ := (mem_of_mapM hes').1 he
    obtain ⟨m, hm, halike⟩ := hfrom m' hm'
    obtain ⟨⟨_, fs⟩, he', hr⟩ := exists_of_mapM hes hm
    obtain ⟨rfl, hf⟩ := halike.readEntry hr hr'
    exact ⟨fs, he', hf⟩

end Declaration

/-! ## Tables -/

namespace AccessTable

variable {v v' : Json} {t : AccessTable}

/-- Documents whose declarations match have the same table. -/
theorem sameAs_of_matches (h : ofDocument v = .ok t) (hv : v'.isDocument = true)
    (hm : ∀ d d', Declaration.ofJson v = .ok d → Declaration.ofJson v' = .ok d' →
      d.Matches (Grant.Alike d.knownActions) d') :
    ∃ t', ofDocument v' = .ok t' ∧ t.sameAs t' = true := by
  obtain ⟨d, hd, hb⟩ := bind_eq_ok.1 h
  obtain ⟨_, rfl⟩ := build_eq_ok_iff.1 hb
  obtain ⟨d', hd'⟩ := Declaration.exists_ofJson_iff.2 hv
  exact ⟨_, ofDocument_eq hd', (hm d d' hd hd').sameAs_compile⟩

/-- Documents whose declarations match as far as permissions go permit the same. -/
theorem permits_eq_of_matches (h : ofDocument v = .ok t) (hv : v'.isDocument = true)
    (hm : ∀ d d', Declaration.ofJson v = .ok d → Declaration.ofJson v' = .ok d' →
      d.Matches (fun _ => Grant.PermitsAlike) d') :
    ∃ t', ofDocument v' = .ok t' ∧ ∀ r a f, t.permits r a f = t'.permits r a f := by
  obtain ⟨d, hd, hb⟩ := bind_eq_ok.1 h
  obtain ⟨_, rfl⟩ := build_eq_ok_iff.1 hb
  obtain ⟨d', hd'⟩ := Declaration.exists_ofJson_iff.2 hv
  exact ⟨_, ofDocument_eq hd', (hm d d' hd hd').permits_compile_eq⟩

end AccessTable

end FieldAccess
