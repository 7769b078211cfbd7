/-
  The grammar of permission documents.

  1. **Grammar** — the shapes of a document as tests on a JSON value, which read nothing: names, lists of
     names, pairs, lists of rules, mappings, and at last `Json.isDocument`.

  2. **Readers** — every reader succeeds iff the value has its shape.  A list of two is a pair in one
     place and a list of names in another; the place alone decides.

  3. **Documents** — a document is accepted iff it has the shape, and what was read is never refused
     afterwards (`accepts_documents`).

  Core only.
-/
import FieldAccess.Proofs.Json.DistinctKeys
import FieldAccess.Proofs.Policy.Checks

namespace FieldAccess

open Declaration (IsActionKey actionsKey)

/-! ## Grammar -/

namespace Json

/-- A name is a string that is not empty. -/
def isName : Json → Bool
  | .string n => n ≠ ""
  | _ => false

/-- A list of names. -/
def isNameList : Json → Bool
  | .array items => items.all isName
  | _ => false

/-- A name or a list of names, as on either side of a pair. -/
def isSide (v : Json) : Bool := v.isName || v.isNameList

/-- A list of two sides. -/
def isPair : Json → Bool
  | .array [as, fs] => as.isSide && fs.isSide
  | _ => false

/-- A list of names and pairs. -/
def isRuleList : Json → Bool
  | .array items => items.all fun item => item.isName || item.isPair
  | _ => false

/-- An object of lists of names, under names. -/
def isMapping : Json → Bool
  | .object ms => ms.all fun m => m.1 ≠ "" && m.2.isNameList
  | _ => false

/-- The wildcard, a list of rules or a mapping. -/
def isGrant : Json → Bool
  | .string s => s = wildcard
  | v => v.isRuleList || v.isMapping

/-- A member of a document: the list of actions, rules under the key of a built-in action, or the grant
of a role under any other name. -/
def isMember (m : String × Json) : Bool :=
  m.1 ≠ "" &&
    if m.1 = actionsKey then m.2.isNameList
    else if IsActionKey m.1 then m.2.isRuleList
    else m.2.isGrant

/-- A permission document. -/
def isDocument : Json → Bool
  | .object members => members.all isMember
  | _ => false

theorem isName_iff {v : Json} : v.isName = true ↔ ∃ n, v = .string n ∧ n ≠ "" := by
  cases v <;> simp [isName]

theorem isNameList_iff {v : Json} :
    v.isNameList = true ↔ ∃ ns : List String, v = .array (ns.map .string) ∧ ∀ n ∈ ns, n ≠ "" := by
  cases v with
  | array items =>
    have hall : items.all isName = true ↔
        ∃ ns : List String, items = ns.map .string ∧ ∀ n ∈ ns, n ≠ "" := by
      constructor
      · intro h
        induction items with
        | nil => exact ⟨[], rfl, fun _ hn => by cases hn⟩
        | cons item items ih =>
          rw [List.all_cons, Bool.and_eq_true] at h
          obtain ⟨n, rfl, hn⟩ := isName_iff.1 h.1
          obtain ⟨ns, rfl, hns⟩ := ih h.2
          exact ⟨n :: ns, rfl, List.forall_mem_cons.2 ⟨hn, hns⟩⟩
      · rintro ⟨ns, rfl, hns⟩
        rw [List.all_eq_true]
        intro item hi
        obtain ⟨n, hn, rfl⟩ := List.mem_map.1 hi
        exact isName_iff.2 ⟨n, rfl, hns n hn⟩
    simp only [Json.array.injEq]
    exact hall
  | _ => simp [isNameList]

theorem isSide_iff {v : Json} :
    v.isSide = true ↔ ∃ ns : List String, v.Listing ns ∧ ∀ n ∈ ns, n ≠ "" := by
  unfold isSide Listing
  rw [Bool.or_eq_true, isName_iff, isNameList_iff]
  constructor
  · rintro (⟨n, rfl, hn⟩ | ⟨ns, rfl, hns⟩)
    · exact ⟨[n], Or.inr ⟨n, rfl, rfl⟩, by simpa using hn⟩
    · exact ⟨ns, Or.inl rfl, hns⟩
  · rintro ⟨ns, rfl | ⟨n, rfl, rfl⟩, hns⟩
    · exact Or.inr ⟨ns, rfl, hns⟩
    · exact Or.inl ⟨n, rfl, hns n List.mem_cons_self⟩

theorem isPair_iff {v : Json} : v.isPair = true ↔ ∃ ns ms, Declaration.IsPair v ns ms := by
  constructor
  · intro h
    unfold isPair at h
    split at h
    · next as fs =>
      rw [Bool.and_eq_true] at h
      obtain ⟨ns, hns, hn⟩ := isSide_iff.1 h.1
      obtain ⟨ms, hms, hm⟩ := isSide_iff.1 h.2
      exact ⟨ns, ms, ⟨as, fs, rfl, hns, hms⟩, hn, hm⟩
    · cases h
  · rintro ⟨ns, ms, ⟨as, fs, rfl, hns, hms⟩, hn, hm⟩
    show (as.isSide && fs.isSide) = true
    rw [isSide_iff.2 ⟨ns, hns, hn⟩, isSide_iff.2 ⟨ms, hms, hm⟩]
    rfl

end Json

/-! ## Readers -/

namespace Declaration

theorem exists_actionList_iff {owner : String} {v : Json} :
    (∃ as, actionList owner v = .ok as) ↔ v.isNameList = true := by
  simp only [actionList_eq_ok_iff, Json.isNameList_iff]
  exact ⟨fun ⟨_, ns, hv, hn, _⟩ => ⟨ns, hv, hn⟩, fun ⟨ns, hv, hn⟩ => ⟨_, ns, hv, hn, rfl⟩⟩

theorem exists_pair_iff (owner : String) {v : Json} :
    (∃ rule, pair owner v = .ok rule) ↔ v.isPair = true := by
  simp only [pair_eq_ok_iff, Json.isPair_iff]
  exact ⟨fun ⟨_, ns, ms, hp, _⟩ => ⟨ns, ms, hp⟩, fun ⟨ns, ms, hp⟩ => ⟨_, ns, ms, hp, rfl⟩⟩

theorem exists_publicItem_iff {a : Action} {v : Json} :
    (∃ p, publicItem a v = .ok p) ↔ (v.isName || v.isPair) = true := by
  rw [Bool.or_eq_true, Json.isName_iff, ← exists_pair_iff a.name]
  simp only [publicItem_eq_ok_iff]
  constructor
  · rintro ⟨_, ⟨n, hv, hn, _⟩ | ⟨rule, hr, _⟩⟩
    · exact Or.inl ⟨n, hv, hn⟩
    · exact Or.inr ⟨rule, hr⟩
  · rintro (⟨n, hv, hn⟩ | ⟨rule, hr⟩)
    · exact ⟨_, Or.inl ⟨n, hv, hn, rfl⟩⟩
    · exact ⟨_, Or.inr ⟨rule, hr, rfl⟩⟩

theorem exists_roleItem_iff {r : Role} {v : Json} :
    (∃ rule, roleItem r v = .ok rule) ↔ (v.isName || v.isPair) = true := by
  rw [Bool.or_eq_true, Json.isName_iff, ← exists_pair_iff r]
  simp only [roleItem_eq_ok_iff]
  constructor
  · rintro ⟨rule, ⟨n, hv, hn, _⟩ | hr⟩
    · exact Or.inl ⟨n, hv, hn⟩
    · exact Or.inr ⟨rule, hr⟩
  · rintro (⟨n, hv, hn⟩ | ⟨rule, hr⟩)
    · exact ⟨_, Or.inl ⟨n, hv, hn, rfl⟩⟩
    · exact ⟨rule, Or.inr hr⟩

theorem exists_publicEntry_iff {a : Action} {v : Json} :
    (∃ rules, publicEntry a v = .ok rules) ↔ v.isRuleList = true := by
  cases v with
  | array items =>
    have h : (∃ parts, items.mapM (publicItem a) = .ok parts) ↔
        items.all (fun item => item.isName || item.isPair) = true := by
      rw [exists_mapM_eq_ok_iff, List.all_eq_true]
      exact forall₂_congr fun _ _ => exists_publicItem_iff
    refine Iff.trans ?_ h
    simp only [publicEntry_eq_ok_iff]
    constructor
    · rintro ⟨_, _, parts, e, hp, _⟩
      cases e
      exact ⟨parts, hp⟩
    · rintro ⟨parts, hp⟩
      exact ⟨_, items, parts, rfl, hp, rfl⟩
  | _ => simp [publicEntry, Json.isRuleList]

theorem exists_readEntry_iff {r : Role} {m : String × Json} :
    (∃ e, readEntry r m = .ok e) ↔ (m.1 ≠ "" && m.2.isNameList) = true := by
  obtain ⟨n, v⟩ := m
  rw [Bool.and_eq_true, decide_eq_true_eq, Json.isNameList_iff]
  simp only [readEntry_eq_ok_iff]
  constructor
  · rintro ⟨_, hn, ns, hv, hns, _⟩
    exact ⟨hn, ns, hv, hns⟩
  · rintro ⟨hn, ns, hv, hns⟩
    exact ⟨_, hn, ns, hv, hns, rfl⟩

theorem exists_roleEntry_iff {r : Role} {v : Json} :
    (∃ g, roleEntry r v = .ok g) ↔ v.isGrant = true := by
  cases v with
  | string s =>
    simp only [roleEntry_string]
    show _ ↔ decide (s = wildcard) = true
    rw [decide_eq_true_eq]
    exact ⟨fun ⟨_, hs, _⟩ => hs, fun hs => ⟨_, hs, rfl⟩⟩
  | array items =>
    have h : (∃ rs, items.mapM (roleItem r) = .ok rs) ↔
        items.all (fun item => item.isName || item.isPair) = true := by
      rw [exists_mapM_eq_ok_iff, List.all_eq_true]
      exact forall₂_congr fun _ _ => exists_roleItem_iff
    have hg : (Json.array items).isGrant = items.all fun item => item.isName || item.isPair :=
      Bool.or_false _
    rw [hg, ← h]
    simp only [roleEntry_array]
    exact ⟨fun ⟨_, rs, hr, _⟩ => ⟨rs, hr⟩, fun ⟨rs, hr⟩ => ⟨_, rs, hr, rfl⟩⟩
  | object ms =>
    have h : (∃ es, ms.mapM (readEntry r) = .ok es) ↔
        ms.all (fun m => m.1 ≠ "" && m.2.isNameList) = true := by
      rw [exists_mapM_eq_ok_iff, List.all_eq_true]
      exact forall₂_congr fun _ _ => exists_readEntry_iff
    have hg : (Json.object ms).isGrant = ms.all fun m => m.1 ≠ "" && m.2.isNameList :=
      Bool.false_or _
    rw [hg, ← h]
    simp only [roleEntry_object]
    exact ⟨fun ⟨_, es, he, _⟩ => ⟨es, he⟩, fun ⟨es, he⟩ => ⟨_, es, he, rfl⟩⟩
  | _ => simp [roleEntry, Json.isGrant, Json.isRuleList, Json.isMapping]

theorem exists_map_iff {α β ε : Type} {f : α → β} {x : Except ε α} :
    (∃ b, f <$> x = .ok b) ↔ ∃ a, x = .ok a := by
  simp only [map_eq_ok]
  exact ⟨fun ⟨_, a, h, _⟩ => ⟨a, h⟩, fun ⟨a, h⟩ => ⟨_, a, h, rfl⟩⟩

/-- **Members**: a part is read iff the member has a name and, under it, the shape that the name asks
for. -/
theorem exists_readPart_iff {m : String × Json} :
    (∃ p, readPart m = .ok p) ↔ Json.isMember m = true := by
  obtain ⟨k, v⟩ := m
  unfold Json.isMember
  rw [Bool.and_eq_true, decide_eq_true_eq]
  by_cases hn : k = ""
  · subst hn
    refine ⟨?_, fun h => absurd rfl h.1⟩
    rintro ⟨_, h⟩
    cases h
  rw [and_iff_right hn]
  by_cases hl : k = actionsKey
  · rw [readPart_actions hl, exists_map_iff, exists_actionList_iff, if_pos hl]
  rw [if_neg hl]
  by_cases ha : IsActionKey k
  · rw [readPart_publicRules ha, exists_map_iff, exists_publicEntry_iff, if_pos ha]
  · rw [readPart_role ⟨hl, ha⟩ hn, exists_map_iff, exists_roleEntry_iff, if_neg ha]

/-! ## Documents -/

/-- **What can be read.** -/
theorem exists_ofJson_iff {v : Json} : (∃ d, ofJson v = .ok d) ↔ v.isDocument = true := by
  cases v with
  | object members =>
    rw [ofJson_eq, exists_map_iff, exists_mapM_eq_ok_iff]
    show _ ↔ members.all Json.isMember = true
    rw [List.all_eq_true]
    exact forall₂_congr fun _ _ => exists_readPart_iff
  | _ => simp [ofJson, Json.isDocument]

end Declaration

namespace AccessTable

theorem exists_ofDocument_iff {v : Json} : (∃ t, ofDocument v = .ok t) ↔ v.isDocument = true := by
  rw [← Declaration.exists_ofJson_iff]
  constructor
  · rintro ⟨t, h⟩
    obtain ⟨d, hd, _⟩ := bind_eq_ok.1 h
    exact ⟨d, hd⟩
  · rintro ⟨d, hd⟩
    exact ⟨_, ofDocument_eq hd⟩

/-- A text whose value is no document is refused for a defect of the configuration. -/
theorem parse_eq_error {text : String} {v : Json} (hp : Json.parse text = .ok v)
    (hv : v.isDocument = false) : ∃ defect, parse text = .error (.configuration defect) := by
  cases hd : Declaration.ofJson v with
  | ok d =>
    have h := Declaration.exists_ofJson_iff.1 ⟨d, hd⟩
    rw [hv] at h
    cases h
  | error defect =>
    refine ⟨defect, ?_⟩
    unfold parse Declaration.parse
    rw [hp]
    show ((Declaration.ofJson v).mapError AccessError.configuration >>= _) = _
    rw [hd]
    rfl

/-- **Which documents are accepted**: those of the grammar, and no others.  The declaration of a document
is always worked out.  What is refused is a defect of the configuration, be it that a value or a text is
given. -/
theorem accepts_documents :
    (∀ v, (∃ t, ofDocument v = .ok t) ↔ v.isDocument = true) ∧
    (∀ v, v.isDocument = false → ∃ defect : Defect, ofDocument v = .error defect) ∧
    (∀ v d, Declaration.ofJson v = .ok d → build d = .ok d.compile) ∧
    ∀ text v, Json.parse text = .ok v →
      ((∃ t, parse text = .ok t) ↔ v.isDocument = true) ∧
      (v.isDocument = false → ∃ defect, parse text = .error (.configuration defect)) := by
  refine ⟨fun v => exists_ofDocument_iff, ?_, ?_, ?_⟩
  · intro v hv
    cases h : ofDocument v with
    | error defect => exact ⟨defect, rfl⟩
    | ok t =>
      have hd := exists_ofDocument_iff.1 ⟨t, h⟩
      rw [hv] at hd
      cases hd
  · intro v d hd
    exact build_eq_ok_iff.2 ⟨(Declaration.plain_of_ofJson hd).named, rfl⟩
  · intro text v hp
    refine ⟨?_, parse_eq_error hp⟩
    rw [← exists_ofDocument_iff]
    simp only [parse_eq_ok_iff, hp]
    exact ⟨fun ⟨t, _, e, ht⟩ => ⟨t, by cases e; exact ht⟩, fun ⟨t, ht⟩ => ⟨t, v, rfl, ht⟩⟩

/-- A list of two is a list of names under `actions`, a list of rules under a role and a pair within
such a list; a list of one is no pair. -/
theorem accepts_documents_lists_of_two :
    let two := Json.array [.string "read", .string "ban"]
    let doc := Json.object [("actions", two), ("read", .array [two]), ("self", two)]
    let text := "\x7b\"self\": [[\"read\"]]\x7d"
    (∃ t, ofDocument doc = .ok t) ∧ ∃ defect, parse text = .error (.configuration defect) := by
  intro two doc text
  have hdoc : doc.isDocument = true := by decide
  have hp : Json.parse text = .ok (.object [("self", .array [.array [.string "read"]])]) :=
    Json.parse_of_value (String.toList_ofList ..) rfl
  exact ⟨(accepts_documents.1 doc).2 hdoc, (accepts_documents.2.2.2 text _ hp).2 (by decide)⟩

end AccessTable

end FieldAccess
