/-
  What is abbreviated in a document may be spelled out.

  1. **Expansion** — a plain field of a built-in action stands for a pair, a name in a pair for the list of
     it, a pair for all pairs of one action and one field, and the `*` of a role for the list of the known
     actions (`Document.Expands`).  Expanding a document in one place keeps its table.

  2. **Plain actions** — a plain action of a role is no abbreviation of the pair of it and `*`
     (`Document.SpellsOut`): a pair brings along the public fields of its actions.  These change the entry,
     but not what it permits, for the wildcard is among them.

  3. **Documents** — both hold for any number of replacements, one after the other
     (`expand_shorthand`).
-/
import Mathlib.Logic.Relation
import FieldAccess.Proofs.Policy.Agreement
import FieldAccess.Proofs.Policy.NormalForm
import FieldAccess.Proofs.Policy.Rewriting

namespace FieldAccess

open Declaration (IsActionKey IsRoleKey actionsKey ReadAlike itemRule)

/-! ## Expansion -/

/-- One of two values is a name, and the other is the list of this name alone. -/
inductive Json.Respells : Json → Json → Prop where
  | asList (n : String) : Respells (.string n) (.array [.string n])
  | asName (n : String) : Respells (.array [.string n]) (.string n)

namespace Document

/-- An item of a list under a key is expanded to several items. -/
inductive ExpandsItem (k : String) : Json → List Json → Prop where
  | field {f : String} : IsActionKey k →
      ExpandsItem k (.string f) [.array [.array [.string k], .array [.string f]]]
  | actions {as as' fs : Json} : as.Respells as' → ExpandsItem k (.array [as, fs]) [.array [as', fs]]
  | fields {as fs fs' : Json} : fs.Respells fs' → ExpandsItem k (.array [as, fs]) [.array [as, fs']]
  | pair {as fs : Json} {ns ms : List String} : as.Listing ns → fs.Listing ms → ns ≠ [] → ms ≠ [] →
      ExpandsItem k (.array [as, fs])
        (ns.flatMap fun n => ms.map fun m => .array [.string n, .string m])

/-- A document is expanded in one place. -/
inductive Expands : List (String × Json) → List (String × Json) → Prop where
  | item {pre post : List (String × Json)} {k : String} {xs more ys : List Json} {item : Json} :
      ExpandsItem k item more →
      Expands (pre ++ (k, .array (xs ++ item :: ys)) :: post)
        (pre ++ (k, .array (xs ++ more ++ ys)) :: post)
  | everything {pre post : List (String × Json)} {r : Role} {names : List String} : IsRoleKey r →
      r ≠ Role.everyone → (∀ x, x ∈ names ↔ Knows (pre ++ (r, .string wildcard) :: post) x) →
      Expands (pre ++ (r, .string wildcard) :: post)
        (pre ++ (r, .array (names.map .string)) :: post)

/-- A plain action of a role is replaced by the pair of it and the wildcard. -/
inductive SpellsOut : List (String × Json) → List (String × Json) → Prop where
  | action {pre post : List (String × Json)} {r : Role} {xs ys : List Json} {x : String} :
      IsRoleKey r →
      SpellsOut (pre ++ (r, .array (xs ++ .string x :: ys)) :: post)
        (pre ++ (r, .array (xs ++ [.array [.string x, .string wildcard]] ++ ys)) :: post)

end Document

/-! ## Shapes -/

namespace Json

theorem listing_name (n : String) : (Json.string n).Listing [n] := Or.inr ⟨n, rfl, rfl⟩

theorem isSide_name {n : String} (hn : n ≠ "") : (Json.string n).isSide = true :=
  isSide_iff.2 ⟨[n], listing_name n, by simpa using hn⟩

theorem Respells.isSide_eq {v v' : Json} (h : v.Respells v') : v.isSide = v'.isSide := by
  cases h <;> simp [isSide, isName, isNameList]

theorem Respells.names_iff {v v' : Json} (h : v.Respells v') (n : String) : v.Names n ↔ v'.Names n := by
  cases h <;> simp [Names, eq_comm]

/-- No list of rules holds an object. -/
theorem distinctKeys_of_isRuleList {v : Json} (h : v.isRuleList = true) : v.DistinctKeys := by
  have name : ∀ {v : Json}, v.isName = true → v.DistinctKeys := by
    intro v hv
    obtain ⟨n, rfl, _⟩ := isName_iff.1 hv
    exact .string n
  have listing : ∀ {v : Json} {ns : List String}, v.Listing ns → v.DistinctKeys := by
    rintro _ ns (rfl | ⟨n, rfl, _⟩)
    · refine .array fun v hv => ?_
      obtain ⟨n, _, rfl⟩ := List.mem_map.1 hv
      exact .string n
    · exact .string n
  unfold isRuleList at h
  split at h
  · next items =>
    refine .array fun item hi => ?_
    have hitem := List.all_eq_true.1 h item hi
    rcases Bool.or_eq_true_iff.1 hitem with hn | hp
    · exact name hn
    · obtain ⟨_, _, ⟨as, fs, rfl, has, hfs⟩, _, _⟩ := isPair_iff.1 hp
      refine .array fun v hv => ?_
      rcases List.mem_cons.1 hv with rfl | hv
      · exact listing has
      · exact List.mem_singleton.1 hv ▸ listing hfs
  · cases h

/-- Under the key of a built-in action or of a role, a list is a list of rules. -/
theorem isMember_array {k : String} {items : List Json} (hk : k ≠ actionsKey) :
    isMember (k, .array items) = true ↔ k ≠ "" ∧ (Json.array items).isRuleList = true := by
  unfold isMember
  rw [Bool.and_eq_true, decide_eq_true_eq, if_neg hk]
  have hg : (Json.array items).isGrant = (Json.array items).isRuleList := Bool.or_false _
  show k ≠ "" ∧ (if IsActionKey k then _ else (Json.array items).isGrant) = true ↔ _
  rw [hg]
  split <;> exact Iff.rfl

end Json

theorem flatMap_map_ne_nil {α β γ : Type} {g : α → β → γ} {xs : List α} {ys : List β} (hx : xs ≠ [])
    (hy : ys ≠ []) : (xs.flatMap fun x => ys.map (g x)) ≠ [] := by
  obtain ⟨x, hx⟩ := List.exists_mem_of_ne_nil xs hx
  exact fun h => hy (List.map_eq_nil_iff.1 (List.flatMap_eq_nil_iff.1 h x hx))

namespace Document.ExpandsItem

variable {k : String} {item : Json} {more : List Json}

theorem ne_nil (h : ExpandsItem k item more) : more ≠ [] := by
  cases h with
  | field => exact List.cons_ne_nil _ _
  | actions => exact List.cons_ne_nil _ _
  | fields => exact List.cons_ne_nil _ _
  | pair _ _ hns hms => exact flatMap_map_ne_nil hns hms

/-- What an accepted item is expanded to is accepted. -/
theorem accepted (h : ExpandsItem k item more) (hi : (item.isName || item.isPair) = true) :
    ∀ v ∈ more, (v.isName || v.isPair) = true := by
  rw [Bool.or_eq_true] at hi
  have ofPair : ∀ {as fs : Json}, as.isSide = true → fs.isSide = true →
      ((Json.array [as, fs]).isName || (Json.array [as, fs]).isPair) = true := by
    intro as fs has hfs
    show (as.isSide && fs.isSide) = true
    rw [has, hfs]
    rfl
  have sides : ∀ {as fs : Json}, item = .array [as, fs] → as.isSide = true ∧ fs.isSide = true := by
    rintro as fs rfl
    exact Bool.and_eq_true_iff.1 (hi.resolve_left nofun)
  cases h with
  | field hk =>
    obtain ⟨n, e, hn⟩ := Json.isName_iff.1 (hi.resolve_right nofun)
    cases e
    have side : ∀ {n : String}, n ≠ "" → (Json.array [.string n]).isSide = true :=
      fun hn => (Json.Respells.asList _).isSide_eq ▸ Json.isSide_name hn
    rw [List.forall_mem_singleton]
    exact ofPair (side hk.ne_empty) (side hn)
  | actions h =>
    obtain ⟨has, hfs⟩ := sides rfl
    rw [List.forall_mem_singleton]
    exact ofPair (h.isSide_eq ▸ has) hfs
  | fields h =>
    obtain ⟨has, hfs⟩ := sides rfl
    rw [List.forall_mem_singleton]
    exact ofPair has (h.isSide_eq ▸ hfs)
  | pair hns hms =>
    obtain ⟨has, hfs⟩ := sides rfl
    obtain ⟨_, hns', hn⟩ := Json.isSide_iff.1 has
    obtain ⟨_, hms', hm⟩ := Json.isSide_iff.1 hfs
    cases hns.unique hns'
    cases hms.unique hms'
    intro v hv
    obtain ⟨n, hn', hv⟩ := List.mem_flatMap.1 hv
    obtain ⟨m, hm', rfl⟩ := List.mem_map.1 hv
    exact ofPair (Json.isSide_name (hn n hn')) (Json.isSide_name (hm m hm'))

end Document.ExpandsItem

/-! ## Rules -/

namespace Declaration

theorem pair_eq {owner : String} {as fs : Json} {ns ms : List String} {rule : Rule}
    (has : as.Listing ns) (hfs : fs.Listing ms) (h : pair owner (.array [as, fs]) = .ok rule) :
    rule = .grant (ns.map Action.ofName) (OrderedSet.ofList ms) := by
  obtain ⟨_, _, ⟨⟨_, _, e, hns, hms⟩, _, _⟩, rfl⟩ := pair_eq_ok_iff.1 h
  cases e
  rw [has.unique hns, hfs.unique hms]

theorem itemRule_array {k : String} {items : List Json} {rule : Rule} :
    itemRule k (.array items) = .ok rule ↔ pair k (.array items) = .ok rule := by
  rw [itemRule_eq_ok_iff]
  exact or_iff_right fun ⟨_, e, _⟩ => by cases e

/-- A pair of lists gives what its pairs of names give. -/
theorem rulesAlike_split {ns ms : List String} (hns : ns ≠ []) (hms : ms ≠ []) :
    RulesAlike [.grant (ns.map Action.ofName) (OrderedSet.ofList ms)]
      (ns.flatMap fun n => ms.map fun m => Rule.single (Action.ofName n) [m]) := by
  have hmem : ∀ rule, rule ∈ (ns.flatMap fun n => ms.map fun m => Rule.single (Action.ofName n) [m]) ↔
      ∃ n ∈ ns, ∃ m ∈ ms, Rule.single (Action.ofName n) [m] = rule := by
    intro rule
    simp only [List.mem_flatMap, List.mem_map]
  refine ⟨iff_of_false (List.cons_ne_nil _ _) (flatMap_map_ne_nil hns hms), fun a => ?_,
    fun t a f => ?_⟩
  · rw [List.flatMap_singleton, List.mem_flatMap]
    show a ∈ ns.map Action.ofName ↔ _
    rw [List.mem_map]
    simp only [hmem]
    constructor
    · rintro ⟨n, hn, rfl⟩
      obtain ⟨m, hm⟩ := List.exists_mem_of_ne_nil ms hms
      exact ⟨_, ⟨n, hn, m, hm, rfl⟩, List.mem_cons_self⟩
    · rintro ⟨_, ⟨n, hn, m, _, rfl⟩, ha⟩
      exact ⟨n, hn, (List.mem_singleton.1 ha).symm⟩
  · rw [List.flatMap_singleton, Rule.mem_gives_grant, List.mem_map, List.mem_flatMap]
    simp only [hmem]
    constructor
    · rintro ⟨⟨n, hn, rfl⟩, hf⟩
      -- a public field comes along with any of the fields
      obtain ⟨m, hm, hf⟩ : ∃ m ∈ ms, f = m ∨ f ∈ t.fieldsOf (Action.ofName n) := by
        rcases hf with hf | hf
        · exact ⟨f, OrderedSet.mem_ofList.1 hf, Or.inl rfl⟩
        · obtain ⟨m, hm⟩ := List.exists_mem_of_ne_nil ms hms
          exact ⟨m, hm, Or.inr hf⟩
      refine ⟨_, ⟨n, hn, m, hm, rfl⟩, Rule.mem_gives_grant.2 ⟨List.mem_cons_self, ?_⟩⟩
      exact hf.imp_left fun hf => OrderedSet.mem_ofList.2 (List.mem_singleton.2 hf)
    · rintro ⟨_, ⟨n, hn, m, hm, rfl⟩, hf⟩
      obtain ⟨ha, hf⟩ := Rule.mem_gives_grant.1 hf
      refine ⟨⟨n, hn, (List.mem_singleton.1 ha).symm⟩, hf.imp_left fun hf => ?_⟩
      obtain rfl := List.mem_singleton.1 (OrderedSet.mem_ofList.1 hf)
      exact OrderedSet.mem_ofList.2 hm

end Declaration

open Declaration in
/-- **Items**: the expansion of an item makes up an alike list of rules. -/
theorem Document.ExpandsItem.rulesAlike {k : String} {item : Json} {more : List Json} {rule : Rule}
    {rules : List Rule} (h : ExpandsItem k item more) (hr : itemRule k item = .ok rule)
    (hrs : more.mapM (itemRule k) = .ok rules) : RulesAlike [rule] rules := by
  cases h with
  | @field f hk =>
    obtain ⟨rule', hr', rfl⟩ := mapM_singleton_eq_ok_iff.1 hrs
    have hpair : rule' = Rule.single (Action.ofName k) [f] :=
      @pair_eq k _ _ [k] [f] _ (Or.inl rfl) (Or.inl rfl) (itemRule_array.1 hr')
    rcases itemRule_eq_ok_iff.1 hr with ⟨_, e, _, hrule⟩ | hr
    · cases e
      rw [hrule, if_pos hk, hpair]
      exact .refl _
    · cases hr
  | actions h =>
    obtain ⟨rule', hr', rfl⟩ := mapM_singleton_eq_ok_iff.1 hrs
    exact rulesAlike_pair h.names_iff (fun _ => Iff.rfl) (itemRule_array.1 hr) (itemRule_array.1 hr')
  | fields h =>
    obtain ⟨rule', hr', rfl⟩ := mapM_singleton_eq_ok_iff.1 hrs
    exact rulesAlike_pair (fun _ => Iff.rfl) h.names_iff (itemRule_array.1 hr) (itemRule_array.1 hr')
  | @pair as fs ns ms has hfs hns hms =>
    obtain rfl := pair_eq has hfs (itemRule_array.1 hr)
    refine (rulesAlike_split hns hms).trans (.of_mem fun rule => ?_)
    have single : ∀ {n m : String} {rule : Rule},
        itemRule k (.array [.string n, .string m]) = .ok rule → rule = Rule.single (Action.ofName n) [m] :=
      fun h => pair_eq (Json.listing_name _) (Json.listing_name _) (itemRule_array.1 h)
    rw [mem_of_mapM hrs]
    simp only [List.mem_flatMap, List.mem_map]
    constructor
    · rintro ⟨n, hn, m, hm, rfl⟩
      have hv : Json.array [.string n, .string m] ∈
          ns.flatMap fun n => ms.map fun m => Json.array [.string n, .string m] :=
        List.mem_flatMap.2 ⟨n, hn, List.mem_map_of_mem hm⟩
      obtain ⟨rule, _, hrule⟩ := exists_of_mapM hrs hv
      obtain rfl := single hrule
      exact ⟨_, ⟨n, hn, m, hm, rfl⟩, hrule⟩
    · rintro ⟨_, ⟨n, hn, m, hm, rfl⟩, hrule⟩
      exact ⟨n, hn, m, hm, (single hrule).symm⟩

/-! ## Documents -/

namespace Document

/-- Under one key a list of rules takes the place of what is read as an alike part. -/
inductive Replaces (R : Role → Grant → Grant → Prop) :
    List (String × Json) → List (String × Json) → Prop where
  | intro {pre post : List (String × Json)} {k : String} {v : Json} {items : List Json} :
      k ≠ actionsKey → (Json.array items).isRuleList = true → ReadAlike R (k, v) (k, .array items) →
      Replaces R (pre ++ (k, v) :: post) (pre ++ (k, .array items) :: post)

section Replaces

variable {R : Role → Grant → Grant → Prop} {doc doc' : List (String × Json)} {d d' : Declaration}

theorem Replaces.distinctKeys (h : Replaces R doc doc') (dk : (Json.object doc).DistinctKeys) :
    (Json.object doc').DistinctKeys := by
  cases h with
  | intro _ hv => exact dk.replace (Json.distinctKeys_of_isRuleList hv)

theorem Replaces.isDocument (h : Replaces R doc doc') (hd : (Json.object doc).isDocument = true) :
    (Json.object doc').isDocument = true := by
  cases h with
  | @intro pre post k v items hk hv =>
    have hd : ∀ m ∈ pre ++ (k, v) :: post, Json.isMember m = true := List.all_eq_true.1 hd
    refine List.all_eq_true.2 ?_
    simp only [List.forall_mem_append, List.forall_mem_cons] at hd ⊢
    refine ⟨hd.1, (Json.isMember_array hk).2 ⟨?_, hv⟩, hd.2.2⟩
    have hm := hd.2.1
    unfold Json.isMember at hm
    exact of_decide_eq_true (Bool.and_eq_true_iff.1 hm).1

theorem Replaces.matches (hR : ∀ r g, R r g g) (h : Replaces R doc doc')
    (nd : (doc.map Prod.fst).Nodup) (hd : Declaration.ofJson (.object doc) = .ok d)
    (hd' : Declaration.ofJson (.object doc') = .ok d') : d.Matches R d' := by
  cases h with
  | intro _ _ ha => exact Declaration.matches_of_member hR nd ha hd hd'

end Replaces

section Steps

variable {doc doc' : List (String × Json)} {d : Declaration} {pre post : List (String × Json)}
  {k : String} {r : Role}

/-- The list in which one item is replaced is a list of rules again. -/
theorem isRuleList_split {xs more ys : List Json} {item : Json}
    (h : (item.isName || item.isPair) = true → ∀ v ∈ more, (v.isName || v.isPair) = true)
    (hl : (Json.array (xs ++ item :: ys)).isRuleList = true) :
    (Json.array (xs ++ more ++ ys)).isRuleList = true := by
  have hl : ∀ v ∈ xs ++ item :: ys, (v.isName || v.isPair) = true := List.all_eq_true.1 hl
  refine List.all_eq_true.2 ?_
  simp only [List.forall_mem_append, List.forall_mem_cons] at hl ⊢
  exact ⟨⟨hl.1, h hl.2.1⟩, hl.2.2⟩

/-- The members of an accepted document are in order. -/
theorem isMember_of_ofJson {v : Json} (hd : Declaration.ofJson (.object (pre ++ (k, v) :: post)) = .ok d) :
    Json.isMember (k, v) = true := by
  have hdoc := Declaration.exists_ofJson_iff.1 ⟨d, hd⟩
  exact List.all_eq_true.1 hdoc _ (List.mem_append_right _ List.mem_cons_self)

/-- The listed actions hold no item that can be expanded. -/
theorem ExpandsItem.ne_actionsKey {xs ys more : List Json} {item : Json} (h : ExpandsItem k item more)
    (hm : Json.isMember (k, .array (xs ++ item :: ys)) = true) : k ≠ actionsKey := by
  rintro rfl
  have hl : (Json.array (xs ++ item :: ys)).isNameList = true := hm
  have hi : item.isName = true :=
    List.all_eq_true.1 hl item (List.mem_append_right _ List.mem_cons_self)
  cases h with
  | field hk => exact hk.ne_actionsKey rfl
  | actions => cases hi
  | fields => cases hi
  | pair => cases hi

/-- The names of the known actions are not empty, and these are the known actions. -/
theorem known_names (dk : (Json.object doc).DistinctKeys)
    (hd : Declaration.ofJson (.object doc) = .ok d) {names : List String}
    (hn : ∀ x, x ∈ names ↔ Knows doc x) :
    (∀ n ∈ names, n ≠ "") ∧ ∀ a, a ∈ names.map Action.ofName ↔ a ∈ d.knownActions := by
  have hknown : ∀ x, x ∈ names ↔ Action.ofName x ∈ d.knownActions := fun x =>
    (hn x).trans (Declaration.mem_knownActions_iff dk hd).symm
  have hplain : ∀ {a}, a ∈ d.knownActions → a.Plain := (Declaration.plain_of_ofJson hd).knownActions
  constructor
  · intro n hm
    have hne := (hplain ((hknown n).1 hm)).name_ne_empty
    rw [Action.name_ofName] at hne
    exact hne
  · intro a
    rw [List.mem_map]
    constructor
    · rintro ⟨n, hm, rfl⟩
      exact (hknown n).1 hm
    · intro ha
      have hp := hplain ha
      exact ⟨a.name, (hknown _).2 (hp.ofName_name.symm ▸ ha), hp.ofName_name⟩

/-- **Expansion** replaces a member by an alike one. -/
theorem Expands.replaces (h : Expands doc doc') (dk : (Json.object doc).DistinctKeys)
    (hd : Declaration.ofJson (.object doc) = .ok d) :
    Replaces (Grant.Alike d.knownActions) doc doc' := by
  cases h with
  | item h =>
    have hm := isMember_of_ofJson hd
    have hk := h.ne_actionsKey hm
    have hl := ((Json.isMember_array hk).1 hm).2
    exact .intro hk (isRuleList_split h.accepted hl)
      (Declaration.readAlike_of_split hk h.ne_nil fun _ _ => h.rulesAlike)
  | @everything pre post r names hk hr hn =>
    obtain ⟨hne, hknown⟩ := known_names dk hd hn
    refine .intro hk.1 ?_ fun p p' hp hp' => ?_
    · refine List.all_eq_true.2 fun v hv => ?_
      obtain ⟨n, hm, rfl⟩ := List.mem_map.1 hv
      exact Bool.or_eq_true_iff.2 (Or.inl (Json.isName_iff.2 ⟨n, rfl, hne n hm⟩))
    · have hrn : r ≠ "" := by
        rintro rfl
        cases hp
      rw [Declaration.readPart_role hk hrn, map_eq_ok] at hp hp'
      obtain ⟨_, hg, rfl⟩ := hp
      obtain ⟨_, hg', rfl⟩ := hp'
      obtain ⟨_, rfl⟩ := Declaration.roleEntry_string.1 hg
      obtain ⟨rs, hrs, rfl⟩ := Declaration.roleEntry_array.1 hg'
      have hread : (names.map Json.string).mapM (Declaration.roleItem r) =
          .ok ((names.map Action.ofName).map .everyField) := by
        rw [mapM_eq_ok_iff, List.map_map, List.map_map, List.map_map]
        exact List.map_congr_left fun n hm =>
          Declaration.roleItem_eq_ok_iff.2 (Or.inl ⟨n, rfl, hne n hm, rfl⟩)
      rw [hread] at hrs
      cases hrs
      exact .role (.spelledOut hr hknown)

/-- A plain action permits what its pair with the wildcard permits. -/
theorem permitsAlike_everyField (before after : List Rule) (b : Action) :
    Grant.PermitsAlike (.rules (before ++ ([.everyField b] ++ after)))
      (.rules (before ++ ([Rule.single b [wildcard]] ++ after))) := by
  refine .rules (fun a => ?_) fun t a f => ?_
  · simp only [List.flatMap_append, List.flatMap_singleton]
    exact Iff.rfl
  · simp only [List.flatMap_append, List.flatMap_singleton, List.mem_append]
    by_cases hb : b = a
    · -- the wildcard is given on both sides
      have hl : wildcard ∈ (Rule.everyField b).gives t a := Rule.mem_gives_everyField.2 ⟨hb, rfl⟩
      have hr : wildcard ∈ (Rule.single b [wildcard]).gives t a :=
        Rule.mem_gives_grant.2 ⟨List.mem_singleton.2 hb.symm, Or.inl (OrderedSet.mem_ofList.2 (by simp))⟩
      exact iff_of_true (Or.inr (Or.inr (Or.inl hl))) (Or.inr (Or.inr (Or.inl hr)))
    · have hl : ∀ g, g ∉ (Rule.everyField b).gives t a := fun g hg =>
        hb (Rule.mem_gives_everyField.1 hg).1
      have hr : ∀ g, g ∉ (Rule.single b [wildcard]).gives t a := fun g hg =>
        hb (List.mem_singleton.1 (Rule.mem_gives_grant.1 hg).1).symm
      simp only [hl, hr]

/-- **Plain actions**: spelling one out replaces a member by one that permits the same. -/
theorem SpellsOut.replaces (h : SpellsOut doc doc') (hd : Declaration.ofJson (.object doc) = .ok d) :
    Replaces (fun _ => Grant.PermitsAlike) doc doc' := by
  cases h with
  | @action pre post r xs ys x hk =>
    have hl := ((Json.isMember_array hk.1).1 (isMember_of_ofJson hd)).2
    refine .intro hk.1 (isRuleList_split (fun hi => ?_) hl) fun p p' hp hp' => ?_
    · rw [List.forall_mem_singleton]
      have hx : (Json.string x).isName = true :=
        (Bool.or_eq_true_iff.1 hi).resolve_right nofun
      show ((Json.string x).isSide && (Json.string wildcard).isSide) = true
      unfold Json.isSide
      rw [hx]
      rfl
    · have hrn : r ≠ "" := by
        rintro rfl
        cases hp
      rw [Declaration.readPart_role hk hrn, map_eq_ok] at hp hp'
      obtain ⟨_, hg, rfl⟩ := hp
      obtain ⟨_, hg', rfl⟩ := hp'
      obtain ⟨rs, hrs, rfl⟩ := Declaration.roleEntry_array.1 hg
      obtain ⟨rs', hrs', rfl⟩ := Declaration.roleEntry_array.1 hg'
      obtain ⟨before, rule, rules, after, hrule, hrules, rfl, rfl⟩ := exists_of_mapM_split hrs hrs'
      obtain ⟨rule', hrule', rfl⟩ := mapM_singleton_eq_ok_iff.1 hrules
      rcases Declaration.roleItem_eq_ok_iff.1 hrule with ⟨_, e, _, rfl⟩ | hpair
      · cases e
        rcases Declaration.roleItem_eq_ok_iff.1 hrule' with ⟨_, e, _⟩ | hpair
        · cases e
        obtain rfl := Declaration.pair_eq (Json.listing_name x) (Json.listing_name wildcard) hpair
        exact .role (permitsAlike_everyField before after (Action.ofName x))
      · cases hpair

end Steps

end Document

namespace AccessTable

variable {doc doc' : List (String × Json)} {t : AccessTable}

/-- One expansion keeps the table. -/
theorem sameAs_of_expands (h : Document.Expands doc doc') (dk : (Json.object doc).DistinctKeys)
    (ht : ofDocument (.object doc) = .ok t) :
    (Json.object doc').DistinctKeys ∧
      ∃ t', ofDocument (.object doc') = .ok t' ∧ t.sameAs t' = true := by
  obtain ⟨d, hd, _⟩ := bind_eq_ok.1 ht
  have hrep := h.replaces dk hd
  refine ⟨hrep.distinctKeys dk, sameAs_of_matches ht ?_ fun d₁ d' hd₁ hd' => ?_⟩
  · exact hrep.isDocument (exists_ofDocument_iff.1 ⟨t, ht⟩)
  · rw [hd] at hd₁
    cases hd₁
    exact hrep.matches (Grant.Alike.refl _) dk.nodup hd hd'

/-- One plain action that is spelled out keeps what the table permits. -/
theorem permits_of_spellsOut (h : Document.SpellsOut doc doc') (dk : (Json.object doc).DistinctKeys)
    (ht : ofDocument (.object doc) = .ok t) :
    (Json.object doc').DistinctKeys ∧
      ∃ t', ofDocument (.object doc') = .ok t' ∧ ∀ r a f, t.permits r a f = t'.permits r a f := by
  obtain ⟨d, hd, _⟩ := bind_eq_ok.1 ht
  have hrep := h.replaces hd
  refine ⟨hrep.distinctKeys dk, permits_eq_of_matches ht ?_ fun d₁ d' hd₁ hd' => ?_⟩
  · exact hrep.isDocument (exists_ofDocument_iff.1 ⟨t, ht⟩)
  · exact hrep.matches (fun _ => .refl) dk.nodup hd₁ hd'

/-- **Shorthand.**  However many places of an accepted document are expanded, one after the other, it is
accepted and has the same table.  If plain actions of roles are spelled out as well, it still permits the
same. -/
theorem expand_shorthand (dk : (Json.object doc).DistinctKeys)
    (ht : ofDocument (.object doc) = .ok t) :
    (Relation.ReflTransGen Document.Expands doc doc' →
      ∃ t', ofDocument (.object doc') = .ok t' ∧ t.sameAs t' = true) ∧
    (Relation.ReflTransGen (fun e e' => Document.Expands e e' ∨ Document.SpellsOut e e') doc doc' →
      ∃ t', ofDocument (.object doc') = .ok t' ∧ ∀ r a f, t.permits r a f = t'.permits r a f) := by
  constructor
  · intro h
    have hrun : (Json.object doc').DistinctKeys ∧
        ∃ t', ofDocument (.object doc') = .ok t' ∧ t.sameAs t' = true := by
      induction h with
      | refl => exact ⟨dk, t, ht, t.sameAs_refl⟩
      | tail _ hstep ih =>
        obtain ⟨dk₁, t₁, ht₁, hs₁⟩ := ih
        obtain ⟨dk₂, t₂, ht₂, hs₂⟩ := sameAs_of_expands hstep dk₁ ht₁
        exact ⟨dk₂, t₂, ht₂, sameAs_trans hs₁ hs₂⟩
    exact hrun.2
  · intro h
    have hrun : (Json.object doc').DistinctKeys ∧
        ∃ t', ofDocument (.object doc') = .ok t' ∧ ∀ r a f, t.permits r a f = t'.permits r a f := by
      induction h with
      | refl => exact ⟨dk, t, ht, fun _ _ _ => rfl⟩
      | tail _ hstep ih =>
        obtain ⟨dk₁, t₁, ht₁, hp₁⟩ := ih
        rcases hstep with hstep | hstep
        · obtain ⟨dk₂, t₂, ht₂, hs₂⟩ := sameAs_of_expands hstep dk₁ ht₁
          exact ⟨dk₂, t₂, ht₂, fun r a f => (hp₁ r a f).trans (permits_eq_of_sameAs hs₂ r a f)⟩
        · obtain ⟨dk₂, t₂, ht₂, hp₂⟩ := permits_of_spellsOut hstep dk₁ ht₁
          exact ⟨dk₂, t₂, ht₂, fun r a f => (hp₁ r a f).trans (hp₂ r a f)⟩
    exact hrun.2

/-- The `*` of a role and a pair of two fields are expanded, and then a plain action is spelled out. -/
theorem expand_shorthand_listed :
    let known := Json.array [.string "read", .string "ban"]
    let name := Json.array [.string "ban", .string "name"]
    let mail := Json.array [.string "ban", .string "mail"]
    let both := Json.array [.string "ban", .array [.string "name", .string "mail"]]
    let doc := [("actions", known), ("admin", .string wildcard), ("self", .array [both, .string "read"])]
    let doc' := [("actions", known), ("admin", known), ("self", .array [name, mail, .string "read"])]
    let doc'' := [("actions", known), ("admin", known),
      ("self", .array [name, mail, .array [.string "read", .string wildcard]])]
    ∃ t, ofDocument (.object doc) = .ok t ∧
      (∃ t', ofDocument (.object doc') = .ok t' ∧ t.sameAs t' = true) ∧
      ∃ t', ofDocument (.object doc'') = .ok t' ∧ ∀ r a f, t.permits r a f = t'.permits r a f := by
  intro known name mail both doc doc' doc''
  let text := "\x7b\"actions\": [\"read\", \"ban\"], \"admin\": \"*\", \"self\": [[\"ban\", [\"name\", \"mail\"]], \"read\"]\x7d"
  have hp : Json.parse text = .ok (.object doc) :=
    Json.parse_of_value (String.toList_ofList ..) rfl
  obtain ⟨t, ht⟩ := exists_ofDocument_iff.2 (show (Json.object doc).isDocument = true by decide)
  have hknown : ∀ x, x ∈ ["read", "ban"] ↔ Document.Knows doc x := by
    intro x
    simp [Document.Knows, doc, known, actionsKey]
  have hadmin : Document.Expands doc _ :=
    @Document.Expands.everything [("actions", known)] [("self", .array [both, .string "read"])] "admin"
      ["read", "ban"] (by decide) (by decide) hknown
  have hpair : Document.ExpandsItem "self" both [name, mail] :=
    @Document.ExpandsItem.pair _ _ _ ["ban"] ["name", "mail"] (Or.inr ⟨_, rfl, rfl⟩) (Or.inl rfl)
      (List.cons_ne_nil _ _) (List.cons_ne_nil _ _)
  have hself : Document.Expands _ doc' :=
    @Document.Expands.item [("actions", known), ("admin", known)] [] "self" [] _ [.string "read"] _ hpair
  have hread : Document.SpellsOut doc' doc'' :=
    @Document.SpellsOut.action [("actions", known), ("admin", known)] [] "self" [name, mail] [] "read"
      (by decide)
  have dk := Json.distinctKeys_of_parse hp
  have hall : Relation.ReflTransGen (fun e e' => Document.Expands e e' ∨ Document.SpellsOut e e') doc doc'' :=
    .tail (.tail (.single (Or.inl hadmin)) (Or.inl hself)) (Or.inr hread)
  exact ⟨t, ht, (expand_shorthand dk ht).1 (.tail (.single hadmin) hself), (expand_shorthand dk ht).2 hall⟩

end AccessTable

end FieldAccess
