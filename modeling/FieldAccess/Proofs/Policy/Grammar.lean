/-
  Which values the readers of a document accept, and what they make of them.

  1. **Names** — a list of names is accepted iff it holds strings alone and none of them is empty;
     `Json.Listing` is the shape of either side of a pair.

  2. **Items and entries** — a pair, an item of a list and the entry of a role are accepted in the
     shapes that their readers distinguish, and in no other.

  3. **Mappings** — a role's mapping is read member by member (`readEntry`).

  Core only.
-/
import FieldAccess.Policy.Document
import FieldAccess.Proofs.Collections.Traversal

namespace FieldAccess

theorem Action.ofName_injective {m n : String} (h : Action.ofName m = Action.ofName n) : m = n := by
  have hn := congrArg Action.name h
  rw [Action.name_ofName, Action.name_ofName] at hn
  exact hn

theorem Action.ofName?_eq_some_iff {n : String} {a : Action} :
    Action.ofName? n = some a ↔ n ≠ "" ∧ a = Action.ofName n := by
  unfold Action.ofName?
  by_cases hn : n = ""
  · simp [hn]
  · simp [hn, eq_comm]

theorem Action.read?_eq_ok_iff {n : String} {a : Action} :
    Action.read? n = .ok a ↔ n ≠ "" ∧ a = Action.ofName n := by
  rw [← ofName?_eq_some_iff]
  unfold Action.read?
  cases Action.ofName? n <;> simp

theorem fieldName?_eq_ok_iff {n f : String} : fieldName? n = .ok f ↔ n ≠ "" ∧ f = n := by
  unfold fieldName?
  by_cases hn : n = ""
  · simp [hn]
  · simp [hn, eq_comm]

/-- A value lists names: it is the one name, or a list of them. -/
def Json.Listing (v : Json) (ns : List String) : Prop :=
  v = .array (ns.map .string) ∨ ∃ n, v = .string n ∧ ns = [n]

/-- A value lists its names in one way. -/
theorem Json.Listing.unique {v : Json} {ns ns' : List String} (h : v.Listing ns) (h' : v.Listing ns') :
    ns = ns' := by
  have inj : ∀ m n : String, Json.string m = .string n → m = n := fun _ _ => Json.string.inj
  rcases h with rfl | ⟨n, rfl, rfl⟩
  · rcases h' with e | ⟨_, e, _⟩
    · exact (List.map_inj_right inj).1 (Json.array.inj e)
    · cases e
  · rcases h' with e | ⟨_, e, rfl⟩
    · cases e
    · cases e
      rfl

namespace Declaration

/-! ## Names -/

theorem nameItem_eq_ok_iff {kind : NameKind} {owner n : String} {item : Json} :
    nameItem kind owner item = .ok n ↔ item = .string n := by
  cases item <;> simp [nameItem]

theorem nameList_eq_ok_iff {kind : NameKind} {owner : String} {v : Json} {ns : List String} :
    nameList kind owner v = .ok ns ↔ v = .array (ns.map .string) := by
  cases v with
  | array items =>
    rw [Json.array.injEq]
    exact mapM_eq_ok_of_inverse fun _ _ => nameItem_eq_ok_iff
  | _ => simp [nameList]

theorem actionList_eq_ok_iff {owner : String} {v : Json} {as : List Action} :
    actionList owner v = .ok as ↔
      ∃ ns : List String, v = .array (ns.map .string) ∧ (∀ n ∈ ns, n ≠ "") ∧ as = ns.map Action.ofName := by
  unfold actionList
  rw [bind_eq_ok]
  simp only [nameList_eq_ok_iff, mapM_eq_ok_of_checked fun _ _ => Action.read?_eq_ok_iff]

theorem fieldList_eq_ok_iff {owner : String} {v : Json} {fs : FieldSet} :
    fieldList owner v = .ok fs ↔
      ∃ ns : List String, v = .array (ns.map .string) ∧ (∀ n ∈ ns, n ≠ "") ∧ fs = OrderedSet.ofList ns := by
  unfold fieldList
  rw [bind_eq_ok]
  simp only [nameList_eq_ok_iff]
  refine exists_congr fun ns => and_congr_right fun _ => ?_
  rw [bind_eq_ok]
  simp only [mapM_eq_ok_of_checked fun _ _ => fieldName?_eq_ok_iff, List.map_id_fun', id]
  constructor
  · rintro ⟨_, ⟨hn, rfl⟩, h⟩
    cases h
    exact ⟨hn, rfl⟩
  · rintro ⟨hn, rfl⟩
    exact ⟨ns, ⟨hn, rfl⟩, rfl⟩

theorem pairActions_eq_ok_iff {owner : String} {v : Json} {as : List Action} :
    pairActions owner v = .ok as ↔
      ∃ ns, v.Listing ns ∧ (∀ n ∈ ns, n ≠ "") ∧ as = ns.map Action.ofName := by
  unfold Json.Listing
  cases v with
  | string n =>
    unfold pairActions
    rw [bind_eq_ok]
    simp only [Action.read?_eq_ok_iff]
    constructor
    · rintro ⟨_, ⟨hn, rfl⟩, h⟩
      cases h
      exact ⟨[n], Or.inr ⟨n, rfl, rfl⟩, by simpa using hn, rfl⟩
    · rintro ⟨ns, h | ⟨n', h, rfl⟩, hn, rfl⟩
      · cases h
      · cases h
        exact ⟨_, ⟨hn n (by simp), rfl⟩, rfl⟩
  | _ =>
    show actionList owner _ = .ok as ↔ _
    rw [actionList_eq_ok_iff]
    simp

theorem pairFields_eq_ok_iff {owner : String} {v : Json} {fs : FieldSet} :
    pairFields owner v = .ok fs ↔
      ∃ ns, v.Listing ns ∧ (∀ n ∈ ns, n ≠ "") ∧ fs = OrderedSet.ofList ns := by
  unfold Json.Listing
  cases v with
  | string n =>
    unfold pairFields
    rw [bind_eq_ok]
    simp only [fieldName?_eq_ok_iff]
    constructor
    · rintro ⟨_, ⟨hn, rfl⟩, h⟩
      cases h
      exact ⟨[_], Or.inr ⟨_, rfl, rfl⟩, by simpa using hn, rfl⟩
    · rintro ⟨ns, h | ⟨n', h, rfl⟩, hn, rfl⟩
      · cases h
      · cases h
        exact ⟨_, ⟨hn n (by simp), rfl⟩, rfl⟩
  | _ =>
    show fieldList owner _ = .ok fs ↔ _
    rw [fieldList_eq_ok_iff]
    simp

/-! ## Items -/

/-- A value pairs names of actions with names of fields, and no name is empty. -/
structure IsPair (v : Json) (ns ms : List String) : Prop where
  shape : ∃ as fs, v = .array [as, fs] ∧ as.Listing ns ∧ fs.Listing ms
  actions : ∀ n ∈ ns, n ≠ ""
  fields : ∀ m ∈ ms, m ≠ ""

theorem pair_eq_ok_iff {owner : String} {v : Json} {rule : Rule} :
    pair owner v = .ok rule ↔
      ∃ ns ms, IsPair v ns ms ∧ rule = .grant (ns.map Action.ofName) (OrderedSet.ofList ms) := by
  constructor
  · intro h
    unfold pair at h
    split at h
    · next as fs =>
      obtain ⟨acts, ha, h⟩ := bind_eq_ok.1 h
      obtain ⟨set, hf, h⟩ := bind_eq_ok.1 h
      cases h
      obtain ⟨ns, hns, hn, rfl⟩ := pairActions_eq_ok_iff.1 ha
      obtain ⟨ms, hms, hm, rfl⟩ := pairFields_eq_ok_iff.1 hf
      exact ⟨ns, ms, ⟨⟨as, fs, rfl, hns, hms⟩, hn, hm⟩, rfl⟩
    · cases h
  · rintro ⟨ns, ms, ⟨⟨as, fs, rfl, hns, hms⟩, hn, hm⟩, rfl⟩
    show (do return Rule.grant (← pairActions owner as) (← pairFields owner fs)) = Except.ok _
    rw [pairActions_eq_ok_iff.2 ⟨ns, hns, hn, rfl⟩, pairFields_eq_ok_iff.2 ⟨ms, hms, hm, rfl⟩]
    rfl

theorem publicItem_eq_ok_iff {a : Action} {v : Json} {p : String ⊕ Rule} :
    publicItem a v = .ok p ↔
      (∃ n, v = .string n ∧ n ≠ "" ∧ p = .inl n) ∨ (∃ rule, pair a.name v = .ok rule ∧ p = .inr rule) := by
  cases v with
  | string n =>
    show (fieldName? n >>= fun f => pure (.inl f)) = .ok p ↔ _
    rw [bind_eq_ok]
    simp only [fieldName?_eq_ok_iff]
    constructor
    · rintro ⟨_, ⟨hn, rfl⟩, h⟩
      cases h
      exact Or.inl ⟨_, rfl, hn, rfl⟩
    · rintro (⟨_, e, hn, rfl⟩ | ⟨_, h, _⟩)
      · cases e
        exact ⟨n, ⟨hn, rfl⟩, rfl⟩
      · cases h
  | array items =>
    show (pair a.name (.array items) >>= fun r => pure (.inr r)) = .ok p ↔ _
    rw [bind_eq_ok]
    constructor
    · rintro ⟨rule, hr, h⟩
      cases h
      exact Or.inr ⟨rule, hr, rfl⟩
    · rintro (⟨_, e, _⟩ | ⟨rule, hr, rfl⟩)
      · cases e
      · exact ⟨rule, hr, rfl⟩
  | _ => simp [publicItem, pair]

theorem roleItem_eq_ok_iff {role : Role} {v : Json} {rule : Rule} :
    roleItem role v = .ok rule ↔
      (∃ n, v = .string n ∧ n ≠ "" ∧ rule = .everyField (Action.ofName n)) ∨
        pair role v = .ok rule := by
  cases v with
  | string n =>
    show (Action.read? n >>= fun a => pure (.everyField a)) = .ok rule ↔ _
    rw [bind_eq_ok]
    simp only [Action.read?_eq_ok_iff]
    constructor
    · rintro ⟨_, ⟨hn, rfl⟩, h⟩
      cases h
      exact Or.inl ⟨_, rfl, hn, rfl⟩
    · rintro (⟨_, e, hn, rfl⟩ | h)
      · cases e
        exact ⟨_, ⟨hn, rfl⟩, rfl⟩
      · cases h
  | array items => simp [roleItem]
  | _ => simp [roleItem, pair]

/-! ## Entries -/

/-- The rules of an entry: those of its pairs, and one for its plain fields unless it has pairs
alone. -/
theorem mem_gather {a : Action} {parts : List (String ⊕ Rule)} {rule : Rule} :
    rule ∈ gather a parts ↔
      .inr rule ∈ parts ∨
        rule = Rule.single a (parts.filterMap Sum.getLeft?) ∧
          ((∃ n, .inl n ∈ parts) ∨ ∀ r, .inr r ∉ parts) := by
  have hl : parts.filterMap Sum.getLeft? = [] ↔ ¬ ∃ n, .inl n ∈ parts := by
    simp [List.eq_nil_iff_forall_not_mem, Sum.getLeft?_eq_some_iff]
  have hr : ∀ rule, rule ∈ parts.filterMap Sum.getRight? ↔ .inr rule ∈ parts := by
    intro rule
    simp [List.mem_filterMap, Sum.getRight?_eq_some_iff]
  have hn : parts.filterMap Sum.getRight? = [] ↔ ∀ r, .inr r ∉ parts := by
    simp [List.eq_nil_iff_forall_not_mem, Sum.getRight?_eq_some_iff]
  unfold gather
  show rule ∈ (if ((parts.filterMap Sum.getLeft?).isEmpty &&
    !(parts.filterMap Sum.getRight?).isEmpty) = true then _ else _) ↔ _
  split
  · next h =>
    rw [Bool.and_eq_true, Bool.not_eq_true', List.isEmpty_iff, List.isEmpty_eq_false_iff, ne_eq,
      hl, hn] at h
    rw [hr]
    exact ⟨Or.inl, fun h' => h'.elim id fun ⟨_, h'⟩ => absurd h' (not_or.2 h)⟩
  · next h =>
    rw [Bool.and_eq_true, Bool.not_eq_true', List.isEmpty_iff, List.isEmpty_eq_false_iff, ne_eq,
      hl, hn, Classical.not_and_iff_not_or_not, Classical.not_not, Classical.not_not] at h
    rw [List.mem_cons, hr, or_comm, and_iff_left h]

theorem publicEntry_eq_ok_iff {a : Action} {v : Json} {rules : List Rule} :
    publicEntry a v = .ok rules ↔
      ∃ items parts, v = .array items ∧ items.mapM (publicItem a) = .ok parts ∧
        rules = gather a parts := by
  cases v with
  | array items =>
    show (items.mapM (publicItem a) >>= fun parts => pure (gather a parts)) = .ok rules ↔ _
    rw [bind_eq_ok]
    constructor
    · rintro ⟨parts, hp, h⟩
      cases h
      exact ⟨items, parts, rfl, hp, rfl⟩
    · rintro ⟨_, parts, e, hp, rfl⟩
      cases e
      exact ⟨parts, hp, rfl⟩
  | _ => simp [publicEntry]

/-- Reads a member of a role's mapping. -/
def readEntry (role : Role) (m : String × Json) : Except Defect (Action × FieldSet) := do
  let fields ← fieldList role m.2
  return (← Action.read? m.1, fields)

theorem tableMember_eq (role : Role) (t : ActionTable) (m : String × Json) :
    tableMember role t m = (fun e => t.insert e.1 e.2) <$> readEntry role m := by
  unfold tableMember readEntry
  cases fieldList role m.2 with
  | error e => rfl
  | ok fs => cases Action.read? m.1 <;> rfl

theorem readEntry_eq_ok_iff {role : Role} {n : String} {v : Json} {e : Action × FieldSet} :
    readEntry role (n, v) = .ok e ↔
      n ≠ "" ∧ ∃ ns : List String, v = .array (ns.map .string) ∧ (∀ m ∈ ns, m ≠ "") ∧
        e = (Action.ofName n, OrderedSet.ofList ns) := by
  constructor
  · intro h
    obtain ⟨fs, hf, h⟩ := bind_eq_ok.1 h
    obtain ⟨a, ha, h⟩ := bind_eq_ok.1 h
    cases h
    obtain ⟨ns, hv, hn, rfl⟩ := fieldList_eq_ok_iff.1 hf
    obtain ⟨hne, rfl⟩ := Action.read?_eq_ok_iff.1 ha
    exact ⟨hne, ns, hv, hn, rfl⟩
  · rintro ⟨hne, ns, hv, hn, rfl⟩
    unfold readEntry
    rw [fieldList_eq_ok_iff.2 ⟨ns, hv, hn, rfl⟩, Action.read?_eq_ok_iff.2 ⟨hne, rfl⟩]
    rfl

/-- A role is granted everything, rules or a mapping. -/
theorem roleEntry_eq_ok_iff {role : Role} {v : Json} {g : Grant} :
    roleEntry role v = .ok g ↔
      (v = .string wildcard ∧ g = .everything) ∨
      (∃ items rs, v = .array items ∧ items.mapM (roleItem role) = .ok rs ∧ g = .rules rs) ∨
      (∃ ms es, v = .object ms ∧ ms.mapM (readEntry role) = .ok es ∧
        g = .table (OrderedMap.ofList es)) := by
  cases v with
  | string s =>
    show (if s = wildcard then Except.ok Grant.everything else _) = .ok g ↔ _
    by_cases hs : s = wildcard
    · simp [hs, eq_comm]
    · simp [hs]
  | array items =>
    show (items.mapM (roleItem role) >>= fun rs => pure (Grant.rules rs)) = .ok g ↔ _
    rw [bind_eq_ok]
    constructor
    · rintro ⟨rs, hr, h⟩
      cases h
      exact Or.inr (Or.inl ⟨items, rs, rfl, hr, rfl⟩)
    · rintro (⟨e, _⟩ | ⟨_, rs, e, hr, rfl⟩ | ⟨_, _, e, _⟩)
      · cases e
      · cases e
        exact ⟨rs, hr, rfl⟩
      · cases e
  | object ms =>
    have hm : tableMember role = fun t m => (fun e => t.insert e.1 e.2) <$> readEntry role m := by
      funext t m
      exact tableMember_eq role t m
    show (ms.foldlM (tableMember role) ∅ >>= fun t => pure (Grant.table t)) = .ok g ↔ _
    rw [bind_eq_ok, hm]
    simp only [foldlM_map_eq (readEntry role) fun (t : ActionTable) e => t.insert e.1 e.2,
      map_eq_ok]
    constructor
    · rintro ⟨_, ⟨es, hes, rfl⟩, h⟩
      cases h
      exact Or.inr (Or.inr ⟨ms, es, rfl, hes, rfl⟩)
    · rintro (⟨e, _⟩ | ⟨_, _, e, _⟩ | ⟨_, es, e, hes, rfl⟩)
      · cases e
      · cases e
      · cases e
        exact ⟨_, ⟨es, hes, rfl⟩, rfl⟩
  | _ => simp [roleEntry]

section RoleEntry

variable {role : Role} {v : Json} {g : Grant}

/-! A grant tells the shape of the entry, and the shape of the entry the kind of grant. -/

theorem roleEntry_eq_everything : roleEntry role v = .ok .everything ↔ v = .string wildcard := by
  simp [roleEntry_eq_ok_iff]

theorem roleEntry_eq_rules {rs : List Rule} :
    roleEntry role v = .ok (.rules rs) ↔
      ∃ items, v = .array items ∧ items.mapM (roleItem role) = .ok rs := by
  simp [roleEntry_eq_ok_iff]

theorem roleEntry_eq_table {u : ActionTable} :
    roleEntry role v = .ok (.table u) ↔
      ∃ ms es, v = .object ms ∧ ms.mapM (readEntry role) = .ok es ∧ u = OrderedMap.ofList es := by
  simp [roleEntry_eq_ok_iff]

theorem roleEntry_string {s : String} :
    roleEntry role (.string s) = .ok g ↔ s = wildcard ∧ g = .everything := by
  simp [roleEntry_eq_ok_iff]

theorem roleEntry_array {items : List Json} :
    roleEntry role (.array items) = .ok g ↔
      ∃ rs, items.mapM (roleItem role) = .ok rs ∧ g = .rules rs := by
  simp [roleEntry_eq_ok_iff]

theorem roleEntry_object {ms : List (String × Json)} :
    roleEntry role (.object ms) = .ok g ↔
      ∃ es, ms.mapM (readEntry role) = .ok es ∧ g = .table (OrderedMap.ofList es) := by
  simp [roleEntry_eq_ok_iff]

end RoleEntry

end Declaration

end FieldAccess
