/-
  The normal form of a table, read again as a document.

  1. **Canonical tables** — no role has a reserved name and every action is the reading of its own
     name.  Tables of documents are canonical (`canonical_of_ofDocument`).

  2. **Names** — no table that is worked out from a declaration holds an empty role or field
     (`Filled`): what is given is named.

  3. **Spellings** — a value spells a table if it is an object of objects of lists with the same keys and
     fields in the same order, a field perhaps more than once; the normal form does.  What spells a table
     is read as a mapping for each role (`ofJson_of_spelled`).

  4. **Reading again** — each mapping is worked out to what it came from.  Without entries for the public,
     nothing is merged a second time, and empty entries stay (`parse_pretty_of_canonical`).
-/
import Mathlib.Data.List.Forall2
import FieldAccess.Policy.NormalForm
import FieldAccess.Proofs.Json.Following
import FieldAccess.Proofs.Json.RoundTrip
import FieldAccess.Proofs.Policy.Checks
import FieldAccess.Proofs.Policy.Contributions

namespace FieldAccess

open Declaration (IsRoleKey IsActionKey actionsKey)

/-! ## Rebuilding collections -/

theorem OrderedSet.toList_extend_of_nodup {α : Type} [DecidableEq α] {s : OrderedSet α} {as : List α}
    (nd : (s.toList ++ as).Nodup) : (s.extend as).toList = s.toList ++ as := by
  induction as generalizing s with
  | nil => exact (List.append_nil _).symm
  | cons a as ih =>
    have ha : a ∉ s := fun h => (List.nodup_append.1 nd).2.2 a h a List.mem_cons_self rfl
    have hi : (s.insert a).toList = s.toList ++ [a] := by rw [toList_insert, if_neg ha]
    have nd' : ((s.insert a).toList ++ as).Nodup := by
      rw [hi]
      simpa using nd
    rw [extend_cons, ih nd', hi, List.append_assoc]
    rfl

/-- A set is the set of its list. -/
theorem OrderedSet.ofList_toList {α : Type} [DecidableEq α] (s : OrderedSet α) :
    ofList s.toList = s :=
  ext_toList (toList_extend_of_nodup s.nodup)

/-- A map is the map of its entries. -/
theorem OrderedMap.ofList_entries {κ ν : Type} [DecidableEq κ] (m : OrderedMap κ ν) :
    ofList m.entries = m :=
  ext_entries (entries_foldl_insert m.nodup_keys)

/-! ## Canonical tables -/

/-- The names that are keys of their own in a document and so cannot name a role. -/
def reservedKeys : List String := ["actions", "create", "read", "update", "delete"]

theorem isRoleKey_iff {k : String} : IsRoleKey k ↔ k ∉ reservedKeys := by
  have ha : IsActionKey k ↔ k ∈ Action.builtIns.map Action.name := by
    unfold IsActionKey
    rw [List.mem_map]
    constructor
    · exact fun h => ⟨_, Action.mem_builtIns.2 h, Action.name_ofName k⟩
    · rintro ⟨a, hm, rfl⟩
      have hb := Action.mem_builtIns.1 hm
      rw [Action.ofName_name hb]
      exact hb
  show k ≠ actionsKey ∧ ¬ IsActionKey k ↔ k ∉ actionsKey :: Action.builtIns.map Action.name
  rw [ha, List.mem_cons, not_or]

/-- A name that a document can give to a role. -/
def IsRoleName (r : Role) : Prop := r ≠ "" ∧ r ∉ reservedKeys

instance (r : Role) : Decidable (IsRoleName r) := inferInstanceAs (Decidable (r ≠ "" ∧ r ∉ reservedKeys))

namespace AccessTable

/-- No role has a reserved name, and every action is the reading of its own name. -/
structure Canonical (t : AccessTable) : Prop where
  roles : ∀ r ∈ t.roleNames, r ∉ reservedKeys
  actions : ∀ e ∈ t.roles.entries, ∀ a ∈ e.2.keys, a.Plain

/-- No role and no field is empty. -/
structure Filled (t : AccessTable) : Prop where
  roles : ∀ e ∈ t.roles.entries, e.1 ≠ ""
  fields : ∀ e ∈ t.roles.entries, ∀ u ∈ e.2.entries, "" ∉ u.2

/-- An entry lists the fields for which its action is authorized. -/
theorem authorizedFields_of_mem {t : AccessTable} {e : Role × ActionTable}
    (he : e ∈ t.roles.entries) {x : Action × FieldSet} (hx : x ∈ e.2.entries) :
    t.authorizedFields e.1 x.1 = x.2 := by
  unfold authorizedFields actionsFor
  rw [OrderedMap.get?_eq_some_iff.2 he]
  show (e.2.get? x.1).getD ∅ = x.2
  rw [OrderedMap.get?_eq_some_iff.2 hx]
  rfl

end AccessTable

theorem Grant.Plain.of_mem_actions {g : Grant} (hg : g.Plain) {a : Action} (h : a ∈ g.actions) :
    a.Plain := by
  cases g with
  | everything => cases h
  | rules rs =>
    obtain ⟨rule, hr, ha⟩ := List.mem_flatMap.1 h
    exact (hg rule hr).1 a ha
  | table t =>
    obtain ⟨e, he, rfl⟩ := List.mem_map.1 h
    exact (hg e he).1

namespace Declaration

variable {d : Declaration}

/-- Only the public and the roles with a grant have an entry. -/
theorem role_of_mem_compile {r : Role} {u : ActionTable} (h : (r, u) ∈ d.compile.roles.entries) :
    (∃ g, (r, g) ∈ d.roles.entries ∧
      u = ActionTable.applyGrant d.knownActions d.publicTable (d.startOf r) g) ∨
    r = Role.everyone ∧ u = d.publicTable := by
  have h := OrderedMap.get?_eq_some_iff.2 h
  rw [get?_compile] at h
  cases hg : d.roles.get? r with
  | some g =>
    rw [hg] at h
    exact Or.inl ⟨g, OrderedMap.get?_eq_some_iff.1 hg, (Option.some.inj h).symm⟩
  | none =>
    rw [hg] at h
    replace h : d.publicEntries.get? r = some u := h
    unfold publicEntries at h
    split at h
    · cases h
    · rw [OrderedMap.get?_insert] at h
      split at h
      · next hr => exact Or.inr ⟨hr, (Option.some.inj h).symm⟩
      · cases h

/-! ## Tables of documents are canonical -/

theorem mem_keys_publicTable {a : Action} :
    a ∈ d.publicTable.keys ↔ a ∈ d.allPublicRules.flatMap Rule.actions := by
  unfold publicTable
  rw [ActionTable.mem_keys_foldl_apply]
  exact or_iff_left List.not_mem_nil

theorem mem_keys_startOf {r : Role} {a : Action} (h : a ∈ (d.startOf r).keys) :
    a ∈ d.publicTable.keys := by
  unfold startOf publicEntries at h
  split at h
  · cases h
  · rw [OrderedMap.get?_insert] at h
    split at h
    · exact h
    · cases h

theorem Plain.publicTable (hp : d.Plain) {a : Action} (h : a ∈ d.publicTable.keys) : a.Plain := by
  obtain ⟨rule, hr, ha⟩ := List.mem_flatMap.1 (mem_keys_publicTable.1 h)
  exact (hp.publicRules rule hr).1 a ha

theorem Plain.knownActions (hp : d.Plain) {a : Action} (h : a ∈ d.knownActions) : a.Plain := by
  unfold Declaration.knownActions at h
  split at h
  · next as has => exact hp.actions as has a (OrderedSet.mem_ofList.1 h)
  · rcases List.mem_append.1 (OrderedSet.mem_ofList.1 h) with h | h
    · rcases List.mem_append.1 h with h | h
      · exact Action.plain_of_isBuiltIn (Action.mem_builtIns.1 h)
      · exact hp.publicTable (mem_keys_publicTable.2 h)
    · obtain ⟨g, hg, ha⟩ := List.mem_flatMap.1 h
      obtain ⟨e, he, rfl⟩ := List.mem_map.1 hg
      exact Grant.Plain.of_mem_actions (hp.grants e he) ha

/-- The table of a plain declaration is canonical. -/
theorem Plain.canonical (hp : d.Plain) : d.compile.Canonical := by
  constructor
  · intro r hr
    obtain ⟨⟨_, u⟩, he, rfl⟩ := List.mem_map.1 hr
    rw [← isRoleKey_iff]
    rcases role_of_mem_compile he with ⟨g, hg, _⟩ | ⟨hr, _⟩
    · exact (hp.roles _ hg).1
    · have hk : IsRoleKey Role.everyone := by decide
      exact hr ▸ hk
  · rintro ⟨r, u⟩ he a ha
    rcases role_of_mem_compile he with ⟨g, hg, rfl⟩ | ⟨_, rfl⟩
    · rcases ActionTable.mem_keys_applyGrant.1 ha with (⟨_, hk⟩ | hk) | hk
      · exact hp.knownActions hk
      · exact Grant.Plain.of_mem_actions (hp.grants _ hg) hk
      · exact hp.publicTable (mem_keys_startOf hk)
    · exact hp.publicTable ha

/-! ## Tables of named declarations are filled -/

theorem Named.not_gives_empty (hn : d.Named) {r : Role} {a : Action} : ¬ d.Gives r a "" := by
  have hpublic : ∀ {a : Action}, "" ∉ d.publicTable.fieldsOf a := by
    intro a h
    rw [fieldsOf_publicTable, OrderedSet.mem_ofList] at h
    obtain ⟨rule, hr, hf⟩ := List.mem_flatMap.1 h
    have hrule := (hn.publicRules rule hr).2
    cases rule with
    | everyField b => exact absurd (Rule.mem_gives_everyField.1 hf).2 (by decide)
    | grant as fs =>
      rcases (Rule.mem_gives_grant.1 hf).2 with hf | hf
      · exact hrule hf
      · cases hf
  -- the wildcard is not empty, which settles `everything` as well
  have hwild : "" ≠ wildcard := by decide
  intro h
  generalize hf : "" = f at h
  cases h with
  | publicField h => exact hpublic (hf ▸ h)
  | @rule r rs rule a f hg hr h =>
    have hrule := (hn.grants _ (OrderedMap.get?_eq_some_iff.1 hg) rule hr).2
    cases rule with
    | everyField b => exact hwild (hf.trans (Rule.mem_gives_everyField.1 h).2)
    | grant as fs =>
      rcases (Rule.mem_gives_grant.1 h).2 with h | h
      · exact hrule (hf ▸ h)
      · exact hpublic (hf ▸ h)
  | @table r u a f hg h =>
    have hu := hn.grants _ (OrderedMap.get?_eq_some_iff.1 hg)
    unfold ActionTable.fieldsOf at h
    cases hget : u.get? a with
    | none =>
      rw [hget] at h
      cases h
    | some fs =>
      rw [hget] at h
      exact hu _ (OrderedMap.get?_eq_some_iff.1 hget) (hf ▸ h)
  | everything _ _ => exact hwild hf

theorem Named.filled (hn : d.Named) : d.compile.Filled := by
  constructor
  · rintro ⟨r, u⟩ he
    rcases role_of_mem_compile he with ⟨g, hg, _⟩ | ⟨rfl, _⟩
    · exact hn.roles _ hg
    · show Role.everyone ≠ ""
      decide
  · intro e he x hx hf
    rw [← AccessTable.authorizedFields_of_mem he hx] at hf
    exact hn.not_gives_empty (gives_of_mem_authorizedFields hf)

end Declaration

/-! ## Spellings -/

/-- A value lists the fields of a set, some of them perhaps again. -/
def FieldSet.SpelledBy (fs : FieldSet) (v : Json) : Prop :=
  ∃ ns, v = .ofStrings ns ∧ fs = OrderedSet.ofList ns

/-- A value maps the names of actions to their fields. -/
def ActionTable.SpelledBy (u : ActionTable) (v : Json) : Prop :=
  OrderedMap.SpelledBy Action.ofName? FieldSet.SpelledBy u v

/-- A value maps the roles of a table to their actions. -/
def AccessTable.SpelledBy (t : AccessTable) (v : Json) : Prop :=
  OrderedMap.SpelledBy some ActionTable.SpelledBy t.roles v

/-- Where each item is read as what it stands for, the list is read as what its items stand for. -/
theorem mapM_eq_ok_of_forall₂ {ε α β γ : Type} {f : α → Except ε β} {P : γ → Prop} {g : γ → β}
    {xs : List α} {ys : List γ} (h : List.Forall₂ (fun y x => ∀ z, f x = .ok z ↔ P y ∧ z = g y) ys xs)
    {zs : List β} : xs.mapM f = .ok zs ↔ (∀ y ∈ ys, P y) ∧ zs = ys.map g := by
  rw [mapM_eq_ok_iff]
  induction h generalizing zs with
  | nil => cases zs <;> simp
  | cons hy _ ih =>
    cases zs with
    | nil => simp
    | cons z zs =>
      rw [List.map_cons, List.map_cons, List.map_cons, List.cons.injEq, List.cons.injEq, ih, hy,
        List.forall_mem_cons]
      exact and_and_and_comm

namespace Declaration

theorem readEntry_of_spelled {r : Role} {e e' : Action × FieldSet} {m : String × Json}
    (ha : Action.ofName? m.1 = some e.1) (hf : FieldSet.SpelledBy e.2 m.2) :
    readEntry r m = .ok e' ↔ "" ∉ e.2 ∧ e' = e := by
  obtain ⟨n, v⟩ := m
  obtain ⟨a, fs⟩ := e
  obtain ⟨ns, rfl, rfl⟩ := hf
  obtain ⟨hn, rfl⟩ := Action.ofName?_eq_some_iff.1 ha
  have hempty : (∀ f ∈ ns, f ≠ "") ↔ "" ∉ OrderedSet.ofList ns := by
    rw [OrderedSet.mem_ofList]
    exact ⟨fun h hm => h "" hm rfl, fun h f hm e => h (e ▸ hm)⟩
  rw [readEntry_eq_ok_iff, and_iff_right hn]
  constructor
  · rintro ⟨ns', hv, hne, rfl⟩
    obtain rfl : ns = ns' := Json.Listing.unique (Or.inl rfl) (Or.inl hv)
    exact ⟨hempty.1 hne, rfl⟩
  · rintro ⟨hne, rfl⟩
    exact ⟨ns, rfl, hempty.2 hne, rfl⟩

/-- What spells the table of a role is read as that table. -/
theorem roleEntry_of_spelled {r : Role} {u : ActionTable} {v : Json} (h : u.SpelledBy v) {g : Grant} :
    roleEntry r v = .ok g ↔ (∀ e ∈ u.entries, "" ∉ e.2) ∧ g = .table u := by
  obtain ⟨ms, rfl, hms⟩ := h
  have hentries : ∀ es, ms.mapM (readEntry r) = .ok es ↔
      (∀ e ∈ u.entries, "" ∉ e.2) ∧ es = u.entries.map id :=
    fun es => mapM_eq_ok_of_forall₂ (hms.imp fun e m hem e' => readEntry_of_spelled hem.1 hem.2)
  rw [roleEntry_object]
  simp only [hentries, List.map_id]
  constructor
  · rintro ⟨_, ⟨hn, rfl⟩, rfl⟩
    exact ⟨hn, congrArg Grant.table (OrderedMap.ofList_entries u)⟩
  · rintro ⟨hn, rfl⟩
    exact ⟨_, ⟨hn, rfl⟩, congrArg Grant.table (OrderedMap.ofList_entries u).symm⟩

/-- An object is no list of actions and no list of rules, so it can only be the mapping of a role. -/
theorem readPart_of_spelled {r : Role} {u : ActionTable} {v : Json} (h : u.SpelledBy v) {p : Part} :
    readPart (r, v) = .ok p ↔
      (IsRoleName r ∧ ∀ e ∈ u.entries, "" ∉ e.2) ∧ p = .role r (.table u) := by
  constructor
  · intro hp
    obtain ⟨ms, hv, _⟩ := id h
    rcases readPart_cases hp with ⟨_, as, _, ha⟩ | ⟨_, rs, _, hr⟩ | ⟨hk, hn, g, rfl, hg⟩
    · rw [hv] at ha
      cases ha
    · rw [hv] at hr
      cases hr
    · obtain ⟨hf, rfl⟩ := (roleEntry_of_spelled h).1 hg
      exact ⟨⟨⟨hn, isRoleKey_iff.1 hk⟩, hf⟩, rfl⟩
  · rintro ⟨⟨hr, hf⟩, rfl⟩
    rw [readPart_role (isRoleKey_iff.2 hr.2) hr.1, (roleEntry_of_spelled h).2 ⟨hf, rfl⟩]
    rfl

end Declaration

/-! ## Reading again -/

namespace AccessTable

theorem canonical_of_ofDocument {v : Json} {t : AccessTable} (h : ofDocument v = .ok t) :
    t.Canonical := by
  obtain ⟨d, hd, hb⟩ := bind_eq_ok.1 h
  rw [(build_eq_ok_iff.1 hb).2]
  exact (Declaration.plain_of_ofJson hd).canonical

/-- Tables of texts are canonical. -/
theorem canonical_of_parse {text : String} {t : AccessTable} (h : parse text = .ok t) :
    t.Canonical := by
  obtain ⟨v, _, hv⟩ := parse_eq_ok_iff.1 h
  exact canonical_of_ofDocument hv

variable {t : AccessTable}

theorem eq_of_name_eq {a b : Action} (ha : a.Plain) (hb : b.Plain) (h : a.name = b.name) :
    a = b := by
  have ha : Action.ofName? a.name = some a := ha
  rw [h] at ha
  exact Option.some.inj (ha.symm.trans hb)

/-- The names of plain actions are distinct where the actions are. -/
theorem nodup_names {u : ActionTable} (hp : ∀ a ∈ u.keys, a.Plain) :
    (u.keys.map Action.name).Nodup := by
  have hne : ∀ {a b : Action}, a ∈ u.keys → b ∈ u.keys → a ≠ b → a.name ≠ b.name :=
    fun ha hb hne h => hne (eq_of_name_eq (hp _ ha) (hp _ hb) h)
  exact List.pairwise_map.2 (List.Pairwise.imp_of_mem hne u.nodup_keys)

/-- A normal form nests three deep: roles, their actions, and lists of fields. -/
theorem regular_toJson (hc : t.Canonical) {depth : Nat} (hd : 3 ≤ depth) :
    t.toJson.Regular depth := by
  obtain ⟨n, rfl⟩ := Nat.exists_eq_add_of_le' hd
  refine .object ?_ fun m hm => ?_
  · rw [List.map_map]
    exact t.roles.nodup_keys
  · obtain ⟨⟨r, u⟩, he, rfl⟩ := List.mem_map.1 hm
    refine .object ?_ fun m hm => ?_
    · have hn := nodup_names (hc.actions _ he)
      unfold OrderedMap.keys at hn
      rw [List.map_map] at hn ⊢
      exact hn
    · obtain ⟨⟨a, fs⟩, hu, rfl⟩ := List.mem_map.1 hm
      refine .array fun v hv => ?_
      obtain ⟨f, _, rfl⟩ := List.mem_map.1 hv
      exact .string n f

/-- The declaration that a normal form states: each role is granted its table. -/
def declaration (t : AccessTable) : Declaration := { roles := t.roles.mapValues .table }

/-- A canonical table is spelled by its normal form. -/
theorem spelledBy_toJson (hc : t.Canonical) : t.SpelledBy t.toJson := by
  refine ⟨_, rfl, ?_⟩
  rw [List.forall₂_map_right_iff, List.forall₂_same]
  intro e he
  refine ⟨rfl, _, rfl, ?_⟩
  rw [List.forall₂_map_right_iff, List.forall₂_same]
  intro x hx
  exact ⟨hc.actions e he x.1 (List.mem_map_of_mem hx), x.2.toList, rfl, (OrderedSet.ofList_toList x.2).symm⟩

/-- Roles are the only parts, and each of them goes behind those that were taken before. -/
theorem foldl_take_declaration (t : AccessTable) :
    (t.roles.entries.map fun e => Declaration.Part.role e.1 (.table e.2)).foldl Declaration.take {} =
      t.declaration := by
  have h := Declaration.foldl_take_role (t.roles.mapValues Grant.table).entries {}
  have hmap : ((t.roles.mapValues Grant.table).entries.map fun e => Declaration.Part.role e.1 e.2) =
      t.roles.entries.map fun e => Declaration.Part.role e.1 (.table e.2) := List.map_map ..
  rw [hmap] at h
  rw [h]
  show Declaration.mk none ∅ (.ofList (t.roles.mapValues Grant.table).entries) = _
  rw [OrderedMap.ofList_entries]
  rfl

theorem forall_named_iff :
    (∀ e ∈ t.roles.entries, IsRoleName e.1 ∧ ∀ x ∈ e.2.entries, "" ∉ x.2) ↔
      t.Filled ∧ ∀ r ∈ t.roleNames, r ∉ reservedKeys := by
  constructor
  · intro h
    have hf : t.Filled := ⟨fun e he => (h e he).1.1, fun e he => (h e he).2⟩
    exact ⟨hf, List.forall_mem_map.2 fun e he => (h e he).1.2⟩
  · rintro ⟨hf, hr⟩ e he
    exact ⟨⟨hf.roles e he, hr e.1 (List.mem_map_of_mem he)⟩, hf.fields e he⟩

/-- **Reading a spelling**: what spells a table is a document iff the table has no empty name and no role
with a reserved one, and then it declares the table. -/
theorem ofJson_of_spelled {v : Json} (h : t.SpelledBy v) {d : Declaration} :
    Declaration.ofJson v = .ok d ↔
      t.Filled ∧ (∀ r ∈ t.roleNames, r ∉ reservedKeys) ∧ d = t.declaration := by
  obtain ⟨ms, rfl, hms⟩ := h
  have hparts : ∀ parts, ms.mapM Declaration.readPart = .ok parts ↔
      (∀ e ∈ t.roles.entries, IsRoleName e.1 ∧ ∀ x ∈ e.2.entries, "" ∉ x.2) ∧
        parts = t.roles.entries.map fun e => Declaration.Part.role e.1 (.table e.2) := by
    intro parts
    refine mapM_eq_ok_of_forall₂ (hms.imp fun e m hem p => ?_)
    obtain ⟨r, v⟩ := m
    obtain ⟨hr, hv⟩ := hem
    cases hr
    exact Declaration.readPart_of_spelled hv
  rw [Declaration.ofJson_eq, map_eq_ok, ← and_assoc, ← forall_named_iff]
  simp only [hparts]
  constructor
  · rintro ⟨_, ⟨hn, rfl⟩, rfl⟩
    exact ⟨hn, t.foldl_take_declaration⟩
  · rintro ⟨hn, rfl⟩
    exact ⟨_, ⟨hn, rfl⟩, t.foldl_take_declaration⟩

theorem ofJson_toJson (hc : t.Canonical) (hf : t.Filled) :
    Declaration.ofJson t.toJson = .ok t.declaration :=
  (ofJson_of_spelled (spelledBy_toJson hc)).2 ⟨hf, hc.roles, rfl⟩

/-- A finished table is worked out to itself. -/
theorem applyGrant_table (known : List Action) (publicFields u : ActionTable) :
    ActionTable.applyGrant known publicFields ∅ (.table u) = u := by
  have h := OrderedMap.entries_foldl_alter
    (f := fun (e : Action × FieldSet) old => OrderedSet.extend (old.getD ∅) e.2.toList)
    (m := ∅) u.nodup_keys
  refine OrderedMap.ext_entries (h.trans ?_)
  rw [OrderedMap.entries_empty, List.nil_append]
  refine (List.map_congr_left fun e _ => ?_).trans (List.map_id _)
  exact Prod.ext rfl (OrderedSet.ofList_toList e.2)

/-- Tables without public rules are worked out role by role. -/
theorem compile_declaration (t : AccessTable) : t.declaration.compile = t := by
  have nd : ((∅ : OrderedMap Role ActionTable).keys ++
      t.declaration.roles.entries.map Prod.fst).Nodup := t.declaration.roles.nodup_keys
  have h := OrderedMap.entries_foldl_alter
    (f := fun (e : Role × Grant) old => ActionTable.applyGrant t.declaration.knownActions
      t.declaration.publicTable (old.getD ∅) e.2) nd
  have hroles : t.declaration.compile.roles = t.roles := by
    refine OrderedMap.ext_entries (h.trans ?_)
    show [] ++ (t.roles.entries.map fun e => (e.1, Grant.table e.2)).map _ = _
    rw [List.nil_append, List.map_map]
    refine (List.map_congr_left fun e _ => ?_).trans (List.map_id _)
    exact Prod.ext rfl (applyGrant_table t.declaration.knownActions t.declaration.publicTable e.2)
  show AccessTable.mk t.declaration.compile.roles = t
  rw [hroles]

/-- **Reading again**: the normal form of a canonical table that holds no empty name is loaded as that
very table, whatever blanks follow it. -/
theorem parse_pretty_of_canonical (hc : t.Canonical) (hf : t.Filled) {blanks : String}
    (hb : Json.Reader.Blank blanks.toList) : parse (t.pretty ++ blanks) = .ok t := by
  have hj : Json.parse (t.pretty ++ blanks) = .ok t.toJson :=
    Json.parse_pretty (regular_toJson hc (by decide)) hb
  have hd : ofDocument t.toJson = .ok t := by
    rw [ofDocument_eq (ofJson_toJson hc hf), compile_declaration]
  exact parse_eq_ok_iff.2 ⟨t.toJson, hj, hd⟩

end AccessTable

end FieldAccess
