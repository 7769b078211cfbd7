/-
  The two readers of the normal form.

  1. **Following** — a text can be read straight into a table or, as a value, into a document.  Wherever
     the first succeeds the text is also read as a value, and this value spells the table
     (`spelledBy_of_ofNormalForm`), however often keys and fields are repeated.

  2. **Agreement** — so the document is accepted iff the table has no empty name and no role with a
     reserved one, and then it is worked out to the same table, orders included
     (`parse_of_ofNormalForm`).
-/
import FieldAccess.Proofs.Policy.NormalForm

namespace FieldAccess

open Json (Reader)

/-! ## Following -/

theorem eq_map_of_forall₂ {α β : Type} {f : α → β} {as : List α} {bs : List β}
    (h : List.Forall₂ (fun a b => b = f a) as bs) : bs = as.map f := by
  induction h with
  | nil => rfl
  | cons hb _ ih => rw [hb, ih, List.map_cons]

theorem FieldSet.reader_followedBy (depth : Nat) :
    FieldSet.reader.FollowedBy (Reader.value (depth + 1)) FieldSet.SpelledBy := by
  refine (Reader.followedBy_list (Reader.followedBy_string depth) "a set").mapLeft ?_
  rintro ns _ ⟨vs, rfl, hvs⟩
  exact ⟨ns, congrArg Json.array (eq_map_of_forall₂ hvs), rfl⟩

/-- A name is taken for an action without reading on. -/
theorem Action.ofText_eq_ok {n : String} {cs rest : List Char} {a : Action}
    (h : Action.ofText n cs = .ok (a, rest)) : Action.ofName? n = some a ∧ rest = cs := by
  unfold Action.ofText at h
  cases hr : Action.read? n with
  | error e =>
    rw [hr] at h
    cases h
  | ok b =>
    rw [hr] at h
    cases h
    exact ⟨Action.ofName?_eq_some_iff.2 (Action.read?_eq_ok_iff.1 hr), rfl⟩

theorem ActionTable.reader_followedBy (depth : Nat) :
    ActionTable.reader.FollowedBy (Reader.value (depth + 2)) ActionTable.SpelledBy := by
  have hinj : ∀ m n a, Action.ofName? m = some a → Action.ofName? n = some a → m = n := by
    intro m n a hm hn
    rw [Action.ofName?_eq_some_iff] at hm hn
    exact Action.ofName_injective (hm.2.symm.trans hn.2)
  have hkey : ∀ n cs a rest, Action.ofText n cs = .ok (a, rest) → Action.ofName? n = some a ∧ rest = cs :=
    fun n cs a rest => Action.ofText_eq_ok
  exact Reader.followedBy_map hinj hkey (FieldSet.reader_followedBy depth) "a map"

namespace AccessTable

theorem reader_followedBy (depth : Nat) :
    AccessTable.reader.FollowedBy (Reader.value (depth + 3)) AccessTable.SpelledBy := by
  have hinj : ∀ m n r : Role, some m = some r → some n = some r → m = n :=
    fun m n r hm hn => Option.some.inj (hm.trans hn.symm)
  have hkey : ∀ (n : Role) (cs : List Char) (r : Role) rest, (pure n : Reader Role) cs = .ok (r, rest) →
      some n = some r ∧ rest = cs := by
    intro n cs r rest h
    cases h
    exact ⟨rfl, rfl⟩
  have hroles := Reader.followedBy_map hinj hkey (ActionTable.reader_followedBy depth) "a map"
  exact hroles.mapLeft fun m v h => h

/-- A text that is read straight into a table is read as a value that spells the table. -/
theorem spelledBy_of_ofNormalForm {text : String} {t : AccessTable} (h : ofNormalForm text = .ok t) :
    ∃ v, Json.parse text = .ok v ∧ t.SpelledBy v :=
  (reader_followedBy 124).run (mapError_eq_ok.1 h)

/-! ## Agreement -/

/-- A value that spells a table is no document, or one of that very table. -/
theorem ofDocument_of_spelled {v : Json} {t t' : AccessTable} (h : t.SpelledBy v) :
    ofDocument v = .ok t' ↔ (t.Filled ∧ ∀ r ∈ t.roleNames, r ∉ reservedKeys) ∧ t' = t := by
  constructor
  · intro ht
    obtain ⟨d, hd, hb⟩ := bind_eq_ok.1 ht
    obtain ⟨hf, hr, rfl⟩ := (ofJson_of_spelled h).1 hd
    have ht' := (build_eq_ok_iff.1 hb).2
    rw [compile_declaration] at ht'
    exact ⟨⟨hf, hr⟩, ht'⟩
  · rintro ⟨⟨hf, hr⟩, rfl⟩
    rw [ofDocument_eq ((ofJson_of_spelled h).2 ⟨hf, hr, rfl⟩), compile_declaration]

/-- **The two readers agree.**  A text that is read straight into a table is loaded as a document iff the
table has no empty role or field and no role with a reserved name.  What it is loaded as is that very
table. -/
theorem parse_of_ofNormalForm {text : String} {t : AccessTable} (h : ofNormalForm text = .ok t) :
    ((∃ t', parse text = .ok t') ↔ t.Filled ∧ ∀ r ∈ t.roleNames, r ∉ reservedKeys) ∧
    ∀ t', parse text = .ok t' → t' = t := by
  obtain ⟨v, hv, hs⟩ := spelledBy_of_ofNormalForm h
  have hparse : ∀ t', parse text = .ok t' ↔
      (t.Filled ∧ ∀ r ∈ t.roleNames, r ∉ reservedKeys) ∧ t' = t := by
    intro t'
    rw [← ofDocument_of_spelled hs, parse_eq_ok_iff]
    constructor
    · rintro ⟨w, hw, hd⟩
      rw [hv] at hw
      cases hw
      exact hd
    · exact fun hd => ⟨v, hv, hd⟩
  refine ⟨⟨fun ⟨t', ht⟩ => ((hparse t').1 ht).1, fun hn => ⟨t, (hparse t).2 ⟨hn, rfl⟩⟩⟩, ?_⟩
  exact fun t' ht => ((hparse t').1 ht).2

/-- A role, an action and a field that come again, and a role that only the one reader accepts. -/
theorem parse_of_ofNormalForm_repeated :
    let text :=
      "\x7b\"a\": \x7b\x7d, \"b\": \x7b\x7d, \"a\": \x7b\"read\": [], \"read\": [\"id\", \"id\"]\x7d\x7d"
    let t : AccessTable :=
      ⟨OrderedMap.ofList [("a", OrderedMap.ofList [(.read, OrderedSet.ofList ["id"])]), ("b", ∅)]⟩
    let reserved := "\x7b\"read\": \x7b\"read\": [\"id\"]\x7d\x7d"
    ofNormalForm text = .ok t ∧ parse text = .ok t ∧
      (∃ u, ofNormalForm reserved = .ok u) ∧ ¬ ∃ u, parse reserved = .ok u := by
  intro text t reserved
  have h : ofNormalForm text = .ok t := by
    have hl : text.toList = _ := String.toList_ofList ..
    unfold ofNormalForm Reader.run
    rw [hl]
    rfl
  let u : AccessTable :=
    ⟨OrderedMap.ofList [("read", OrderedMap.ofList [(.read, OrderedSet.ofList ["id"])])]⟩
  have hr : ofNormalForm reserved = .ok u := by
    have hl : reserved.toList = _ := String.toList_ofList ..
    unfold ofNormalForm Reader.run
    rw [hl]
    rfl
  have hnames : t.Filled ∧ ∀ r ∈ t.roleNames, r ∉ reservedKeys :=
    ⟨⟨by decide, by decide⟩, by decide⟩
  obtain ⟨t', ht⟩ := (parse_of_ofNormalForm h).1.2 hnames
  have heq : t' = t := (parse_of_ofNormalForm h).2 t' ht
  refine ⟨h, heq ▸ ht, ⟨u, hr⟩, fun hp => ?_⟩
  have hnot : ∀ r ∈ u.roleNames, r ∉ reservedKeys := ((parse_of_ofNormalForm hr).1.1 hp).2
  exact hnot "read" List.mem_cons_self (by decide)

end AccessTable

end FieldAccess
