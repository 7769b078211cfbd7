/-
  The meaning of a permission document, read off its text.

  1. **Grants** — `Document.Grants` says, without any table, which role is granted which action on
     which field: by the lists under the keys of the built-in actions, by the role's own rules, which
     bring the public fields of their actions along, by its mapping, or by `*`.

  2. **Pairs and entries** — what the rules that are read from a pair, an item or an entry give to an
     action, in terms of the value they are read from.

  3. **Mappings** — a mapping gives its entries, since its keys are distinct.

  Core only.
-/
import FieldAccess.Proofs.Policy.Checks
import FieldAccess.Proofs.Policy.Contributions

namespace FieldAccess

open Declaration (IsActionKey IsRoleKey actionsKey)

/-! ## Grants -/

/-- A value names a string: it is that string, or a list in which it stands. -/
def Json.Names (v : Json) (n : String) : Prop :=
  v = .string n ∨ ∃ items, v = .array items ∧ .string n ∈ items

/-- An item pairs an action with a field. -/
def Json.Pairs (item : Json) (x g : String) : Prop :=
  ∃ as fs, item = .array [as, fs] ∧ as.Names x ∧ fs.Names g

namespace Document

variable (doc : List (String × Json))

/-- What is granted to everyone under the keys of the built-in actions. -/
inductive GrantsPublic : String → String → Prop where
  | field {c g : String} {items : List Json} : IsActionKey c → (c, .array items) ∈ doc →
      .string g ∈ items → GrantsPublic c g
  | pair {c x g : String} {items : List Json} {item : Json} : IsActionKey c →
      (c, .array items) ∈ doc → item ∈ items → item.Pairs x g → GrantsPublic x g

/-- The actions named in a pair, a list of rules or a mapping, wherever it stands. -/
inductive Mentions : String → Prop where
  | pair {k x : String} {items : List Json} {as fs : Json} : (k, .array items) ∈ doc →
      .array [as, fs] ∈ items → as.Names x → Mentions x
  | rule {r x : String} {items : List Json} : IsRoleKey r → (r, .array items) ∈ doc →
      .string x ∈ items → Mentions x
  | mapping {r x : String} {ms : List (String × Json)} {w : Json} : IsRoleKey r →
      (r, .object ms) ∈ doc → (x, w) ∈ ms → Mentions x

/-- The actions there are: the listed ones, or else the built-in and the mentioned ones. -/
def Knows (x : String) : Prop :=
  (∃ items, (actionsKey, .array items) ∈ doc ∧ .string x ∈ items) ∨
    (actionsKey ∉ doc.map Prod.fst ∧ (IsActionKey x ∨ Mentions doc x))

/-- What a role is granted. -/
inductive Grants : Role → String → String → Prop where
  | everyone {x g : String} : GrantsPublic doc x g → Grants Role.everyone x g
  | action {r : Role} {x : String} {items : List Json} : IsRoleKey r → (r, .array items) ∈ doc →
      .string x ∈ items → Grants r x wildcard
  | pair {r : Role} {x g : String} {items : List Json} {item : Json} : IsRoleKey r →
      (r, .array items) ∈ doc → item ∈ items → item.Pairs x g → Grants r x g
  | inherited {r : Role} {x g : String} {items : List Json} {as fs : Json} : IsRoleKey r →
      (r, .array items) ∈ doc → .array [as, fs] ∈ items → as.Names x → GrantsPublic doc x g →
      Grants r x g
  | mapping {r : Role} {x g : String} {ms : List (String × Json)} {fields : List Json} :
      IsRoleKey r → (r, .object ms) ∈ doc → (x, .array fields) ∈ ms → .string g ∈ fields →
      Grants r x g
  | everything {r : Role} {x : String} : IsRoleKey r → (r, .string wildcard) ∈ doc →
      Knows doc x → Grants r x wildcard

/-- A role may perform an action on a field: it is granted that field or the wildcard. -/
def Permits (r : Role) (x f : String) : Prop := Grants doc r x f ∨ Grants doc r x wildcard

end Document

/-! ## Pairs -/

theorem Json.Listing.names_iff {v : Json} {ns : List String} (h : v.Listing ns) {n : String} :
    v.Names n ↔ n ∈ ns := by
  unfold Json.Names
  rcases h with rfl | ⟨m, rfl, rfl⟩
  · simp
  · simp [eq_comm]

namespace Declaration

variable {x g : String}

theorem mem_map_ofName {ns : List String} : Action.ofName x ∈ ns.map Action.ofName ↔ x ∈ ns := by
  rw [List.mem_map]
  exact ⟨fun ⟨n, hn, e⟩ => Action.ofName_injective e ▸ hn, fun h => ⟨x, h, rfl⟩⟩

/-- What a pair gives: its own fields, and the public ones for its actions. -/
theorem mem_gives_pair {owner : String} {v : Json} {rule : Rule} (h : pair owner v = .ok rule)
    {t : ActionTable} :
    g ∈ rule.gives t (Action.ofName x) ↔
      v.Pairs x g ∨
        (∃ as fs, v = .array [as, fs] ∧ as.Names x) ∧ g ∈ t.fieldsOf (Action.ofName x) := by
  obtain ⟨ns, ms, ⟨⟨as, fs, rfl, hns, hms⟩, _, _⟩, rfl⟩ := pair_eq_ok_iff.1 h
  have hp : (Json.array [as, fs]).Pairs x g ↔ x ∈ ns ∧ g ∈ ms := by
    rw [← hns.names_iff, ← hms.names_iff]
    constructor
    · rintro ⟨_, _, e, hx, hg⟩
      cases e
      exact ⟨hx, hg⟩
    · exact fun ⟨hx, hg⟩ => ⟨as, fs, rfl, hx, hg⟩
  have hn : (∃ as' fs', Json.array [as, fs] = .array [as', fs'] ∧ as'.Names x) ↔ x ∈ ns := by
    rw [← hns.names_iff]
    constructor
    · rintro ⟨_, _, e, hx⟩
      cases e
      exact hx
    · exact fun hx => ⟨as, fs, rfl, hx⟩
  rw [hp, hn, Rule.mem_gives_grant, mem_map_ofName, OrderedSet.mem_ofList, and_or_left]

theorem mem_actions_pair {owner : String} {v : Json} {rule : Rule} (h : pair owner v = .ok rule) :
    Action.ofName x ∈ rule.actions ↔ ∃ as fs, v = .array [as, fs] ∧ as.Names x := by
  obtain ⟨ns, ms, ⟨⟨as, fs, rfl, hns, hms⟩, _, _⟩, rfl⟩ := pair_eq_ok_iff.1 h
  show Action.ofName x ∈ ns.map Action.ofName ↔ _
  rw [mem_map_ofName, ← hns.names_iff]
  constructor
  · exact fun hx => ⟨as, fs, rfl, hx⟩
  · rintro ⟨_, _, e, hx⟩
    cases e
    exact hx

/-! ## Public rules -/

/-- What the entry of a built-in action gives. -/
theorem gives_publicEntry {a : Action} {items : List Json} {rules : List Rule}
    (h : publicEntry a (.array items) = .ok rules) :
    (∃ rule ∈ rules, g ∈ rule.gives ∅ (Action.ofName x)) ↔
      (Action.ofName x = a ∧ .string g ∈ items) ∨ ∃ item ∈ items, item.Pairs x g := by
  obtain ⟨_, parts, e, hp, rfl⟩ := publicEntry_eq_ok_iff.1 h
  cases e
  have hplain : .inl g ∈ parts ↔ .string g ∈ items := by
    rw [mem_of_mapM hp]
    constructor
    · rintro ⟨item, hm, hi⟩
      rcases publicItem_eq_ok_iff.1 hi with ⟨n, rfl, _, e⟩ | ⟨_, _, e⟩
      · cases e
        exact hm
      · cases e
    · intro hm
      obtain ⟨p, _, hi⟩ := exists_of_mapM hp hm
      rcases publicItem_eq_ok_iff.1 hi with ⟨n, e, hn, rfl⟩ | ⟨_, hpair, _⟩
      · cases e
        exact ⟨_, hm, publicItem_eq_ok_iff.2 (Or.inl ⟨g, rfl, hn, rfl⟩)⟩
      · cases hpair
  have hsingle : g ∈ (Rule.single a (parts.filterMap Sum.getLeft?)).gives ∅ (Action.ofName x) ↔
      Action.ofName x = a ∧ .inl g ∈ parts := by
    unfold Rule.single
    rw [Rule.mem_gives_grant, List.mem_singleton, OrderedSet.mem_ofList]
    simp [ActionTable.fieldsOf, List.mem_filterMap, Sum.getLeft?_eq_some_iff]
  rw [← hplain]
  constructor
  · rintro ⟨rule, hr, hg⟩
    rcases mem_gather.1 hr with hm | ⟨rfl, _⟩
    · obtain ⟨item, hi, hitem⟩ := (mem_of_mapM hp).1 hm
      rcases publicItem_eq_ok_iff.1 hitem with ⟨_, _, _, e⟩ | ⟨_, hpair, e⟩
      · cases e
      · cases e
        rcases (mem_gives_pair hpair).1 hg with hg | ⟨_, hg⟩
        · exact Or.inr ⟨item, hi, hg⟩
        · cases hg
    · exact Or.inl (hsingle.1 hg)
  · rintro (⟨ha, hg⟩ | ⟨item, hi, hg⟩)
    · exact ⟨_, mem_gather.2 (Or.inr ⟨rfl, Or.inl ⟨g, hg⟩⟩), hsingle.2 ⟨ha, hg⟩⟩
    · obtain ⟨p, hm, hitem⟩ := exists_of_mapM hp hi
      rcases publicItem_eq_ok_iff.1 hitem with ⟨_, rfl, _⟩ | ⟨rule, hpair, rfl⟩
      · obtain ⟨_, _, e, _⟩ := hg
        cases e
      · exact ⟨rule, mem_gather.2 (Or.inl hm), (mem_gives_pair hpair).2 (Or.inl hg)⟩

theorem actions_publicEntry {a : Action} {items : List Json} {rules : List Rule}
    (h : publicEntry a (.array items) = .ok rules) (hx : Action.ofName x ≠ a) :
    (∃ rule ∈ rules, Action.ofName x ∈ rule.actions) ↔
      ∃ as fs, .array [as, fs] ∈ items ∧ as.Names x := by
  obtain ⟨_, parts, e, hp, rfl⟩ := publicEntry_eq_ok_iff.1 h
  cases e
  constructor
  · rintro ⟨rule, hr, ha⟩
    rcases mem_gather.1 hr with hm | ⟨rfl, _⟩
    · obtain ⟨item, hi, hitem⟩ := (mem_of_mapM hp).1 hm
      rcases publicItem_eq_ok_iff.1 hitem with ⟨_, _, _, e⟩ | ⟨_, hpair, e⟩
      · cases e
      · cases e
        obtain ⟨as, fs, rfl, hn⟩ := (mem_actions_pair hpair).1 ha
        exact ⟨as, fs, hi, hn⟩
    · exact absurd (List.mem_singleton.1 ha) hx
  · rintro ⟨as, fs, hi, hn⟩
    obtain ⟨p, hm, hitem⟩ := exists_of_mapM hp hi
    rcases publicItem_eq_ok_iff.1 hitem with ⟨_, e, _⟩ | ⟨rule, hpair, rfl⟩
    · cases e
    · exact ⟨rule, mem_gather.2 (Or.inl hm), (mem_actions_pair hpair).2 ⟨as, fs, rfl, hn⟩⟩

/-! ## Grants of roles -/

/-- What an item of a role's rules gives. -/
theorem mem_gives_roleItem {r : Role} {v : Json} {rule : Rule} (h : roleItem r v = .ok rule)
    {t : ActionTable} :
    g ∈ rule.gives t (Action.ofName x) ↔
      (v = .string x ∧ g = wildcard) ∨ v.Pairs x g ∨
        (∃ as fs, v = .array [as, fs] ∧ as.Names x) ∧ g ∈ t.fieldsOf (Action.ofName x) := by
  rcases roleItem_eq_ok_iff.1 h with ⟨n, rfl, _, rfl⟩ | hpair
  · have hno : ¬ ∃ as fs, Json.string n = .array [as, fs] ∧ as.Names x := by
      rintro ⟨_, _, e, _⟩
      cases e
    have hnp : ¬ (Json.string n).Pairs x g := by
      rintro ⟨_, _, e, _⟩
      cases e
    have hn : Action.ofName n = Action.ofName x ↔ Json.string n = .string x := by
      rw [Json.string.injEq]
      exact ⟨Action.ofName_injective, congrArg _⟩
    rw [Rule.mem_gives_everyField, hn]
    exact ⟨Or.inl, fun h => h.elim id fun h => h.elim (absurd · hnp) fun h => absurd h.1 hno⟩
  · have hs : v ≠ .string x := by
      rintro rfl
      cases hpair
    rw [mem_gives_pair hpair]
    exact ⟨Or.inr, fun h => h.elim (fun h => absurd h.1 hs) id⟩

theorem mem_actions_roleItem {r : Role} {v : Json} {rule : Rule} (h : roleItem r v = .ok rule) :
    Action.ofName x ∈ rule.actions ↔
      v = .string x ∨ ∃ as fs, v = .array [as, fs] ∧ as.Names x := by
  rcases roleItem_eq_ok_iff.1 h with ⟨n, rfl, _, rfl⟩ | hpair
  · show Action.ofName x ∈ [Action.ofName n] ↔ _
    rw [List.mem_singleton, Json.string.injEq]
    constructor
    · exact fun e => Or.inl (Action.ofName_injective e).symm
    · rintro (rfl | ⟨_, _, e, _⟩)
      · rfl
      · cases e
  · have hs : v ≠ .string x := by
      rintro rfl
      cases hpair
    rw [mem_actions_pair hpair]
    exact ⟨Or.inr, fun h => h.elim (absurd · hs) id⟩

/-- The entries of a mapping whose keys are distinct, in order. -/
theorem entries_ofList {r : Role} {ms : List (String × Json)} {es : List (Action × FieldSet)}
    (nd : (ms.map Prod.fst).Nodup) (h : ms.mapM (readEntry r) = .ok es) :
    (OrderedMap.ofList es).entries = es := by
  have hk : es.map (fun e => e.1.name) = ms.map Prod.fst := by
    refine map_eq_of_mapM (fun m _ e he => ?_) h
    obtain ⟨_, ns, _, _, rfl⟩ := readEntry_eq_ok_iff.1 he
    exact Action.name_ofName m.1
  have hn : ((es.map Prod.fst).map Action.name).Nodup := by
    rw [List.map_map]
    exact hk ▸ nd
  have inj : ∀ a b : Action, a.name ≠ b.name → a ≠ b := fun a b hab e => hab (e ▸ rfl)
  exact OrderedMap.entries_foldl_insert (List.Pairwise.of_map Action.name inj hn)

/-- What a mapping gives. -/
theorem mem_fieldsOf_ofList {r : Role} {ms : List (String × Json)} {es : List (Action × FieldSet)}
    (nd : (ms.map Prod.fst).Nodup) (h : ms.mapM (readEntry r) = .ok es) :
    g ∈ ActionTable.fieldsOf (OrderedMap.ofList es) (Action.ofName x) ↔
      ∃ fields, (x, .array fields) ∈ ms ∧ .string g ∈ fields := by
  have hmem : ∀ {fs : FieldSet}, (OrderedMap.ofList es).get? (Action.ofName x) = some fs ↔
      (Action.ofName x, fs) ∈ es := by
    intro fs
    rw [OrderedMap.get?_eq_some_iff, entries_ofList nd h]
  unfold ActionTable.fieldsOf
  constructor
  · intro hg
    cases hget : (OrderedMap.ofList es).get? (Action.ofName x) with
    | none =>
      rw [hget] at hg
      cases hg
    | some fs =>
      rw [hget] at hg
      obtain ⟨⟨n, w⟩, hm, hr⟩ := (mem_of_mapM h).1 (hmem.1 hget)
      obtain ⟨_, ns, rfl, _, e⟩ := readEntry_eq_ok_iff.1 hr
      obtain ⟨ex, rfl⟩ := Prod.mk.inj e
      obtain rfl := Action.ofName_injective ex
      exact ⟨_, hm, List.mem_map_of_mem (OrderedSet.mem_ofList.1 hg)⟩
  · rintro ⟨fields, hm, hg⟩
    obtain ⟨e, he, hr⟩ := exists_of_mapM h hm
    obtain ⟨_, ns, hv, _, rfl⟩ := readEntry_eq_ok_iff.1 hr
    cases hv
    rw [hmem.2 he]
    obtain ⟨n, hn, e⟩ := List.mem_map.1 hg
    cases e
    exact OrderedSet.mem_ofList.2 hn

theorem mem_keys_ofList {r : Role} {ms : List (String × Json)} {es : List (Action × FieldSet)}
    (nd : (ms.map Prod.fst).Nodup) (h : ms.mapM (readEntry r) = .ok es) :
    Action.ofName x ∈ (OrderedMap.ofList es).keys ↔ ∃ w, (x, w) ∈ ms := by
  unfold OrderedMap.keys
  rw [entries_ofList nd h, List.mem_map]
  constructor
  · rintro ⟨e, he, hx⟩
    obtain ⟨⟨n, w⟩, hm, hr⟩ := (mem_of_mapM h).1 he
    obtain ⟨_, ns, _, _, rfl⟩ := readEntry_eq_ok_iff.1 hr
    obtain rfl := Action.ofName_injective hx
    exact ⟨w, hm⟩
  · rintro ⟨w, hm⟩
    obtain ⟨e, he, hr⟩ := exists_of_mapM h hm
    obtain ⟨_, ns, _, _, rfl⟩ := readEntry_eq_ok_iff.1 hr
    exact ⟨_, he, rfl⟩

end Declaration

end FieldAccess
