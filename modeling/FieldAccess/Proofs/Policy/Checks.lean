/-
  Which declarations can be worked out.

  1. **Names** — a declaration passes its check iff no rule names an empty action or field, no role is
     empty and no mapping lists an empty field (`check_eq_ok_iff`).

  2. **Documents** — the declaration of a document has more than that: its actions are the readings of
     their own names, and its roles are neither empty nor reserved (`plain_of_ofJson`).  So a document
     that can be read can be worked out, and a text is loaded as the table of its document.

  Core only.
-/
import FieldAccess.Policy.Compile
import FieldAccess.Proofs.Policy.Members

namespace FieldAccess

/-! ## Names -/

/-- The rule names no empty action and no empty field. -/
def Rule.Named (r : Rule) : Prop := (∀ a ∈ r.actions, a.name ≠ "") ∧ "" ∉ r.fields

/-- The rules of a grant are named, and its mapping lists no empty field. -/
def Grant.Named : Grant → Prop
  | everything => True
  | rules rs => ∀ r ∈ rs, r.Named
  | table t => ∀ e ∈ t.entries, "" ∉ e.2

/-- No name that the check of a declaration looks at is empty. -/
structure Declaration.Named (d : Declaration) : Prop where
  publicRules : ∀ r ∈ d.allPublicRules, r.Named
  grants : ∀ e ∈ d.roles.entries, e.2.Named
  roles : ∀ e ∈ d.roles.entries, e.1 ≠ ""

theorem Rule.check_eq_ok_iff {r : Rule} : r.check = .ok () ↔ r.Named := by
  have ha : r.actions.any (·.name = "") = true ↔ ¬ ∀ a ∈ r.actions, a.name ≠ "" := by simp
  have hf : r.fields.hasEmptyName = true ↔ "" ∈ r.fields := OrderedSet.contains_iff
  unfold Rule.check Rule.Named
  by_cases h : r.actions.any (·.name = "") = true
  · rw [if_pos h]
    exact ⟨(fun e => by cases e), fun n => absurd n.1 (ha.1 h)⟩
  rw [if_neg h]
  have h := Decidable.not_not.1 (fun n => h (ha.2 n))
  by_cases h' : r.fields.hasEmptyName = true
  · rw [if_pos h']
    exact ⟨(fun e => by cases e), fun n => absurd (hf.1 h') n.2⟩
  · rw [if_neg h']
    exact ⟨fun _ => ⟨h, fun m => h' (hf.2 m)⟩, fun _ => rfl⟩

theorem Grant.check_eq_ok_iff {role : Role} {g : Grant} :
    g.check role = .ok () ↔ role ≠ "" ∧ ∀ t, g = .table t → ∀ e ∈ t.entries, "" ∉ e.2 := by
  unfold Grant.check
  by_cases hr : role = ""
  · simp [hr]
  rw [if_neg hr]
  cases g with
  | table t =>
    have hf : t.entries.any (·.2.hasEmptyName) = true ↔ ¬ ∀ e ∈ t.entries, "" ∉ e.2 := by
      simp [FieldSet.hasEmptyName]
    show (if t.entries.any (·.2.hasEmptyName) = true then _ else _) = _ ↔ _
    split
    · next h =>
      exact ⟨(fun e => by cases e), fun hc => absurd (hc.2 t rfl) (hf.1 h)⟩
    · next h =>
      refine ⟨fun _ => ⟨hr, fun u hu => ?_⟩, fun _ => rfl⟩
      cases hu
      exact Decidable.not_not.1 fun n => h (hf.2 n)
  | _ => simp [hr]

namespace Declaration

/-- **The check of a declaration.** -/
theorem check_eq_ok_iff {d : Declaration} : d.check = .ok () ↔ d.Named := by
  have h : d.check = .ok () ↔
      (∀ r ∈ d.allPublicRules, r.Named) ∧ (∀ r ∈ d.grants.flatMap Grant.ruleList, r.Named) ∧
        ∀ e ∈ d.roles.entries, e.2.check e.1 = .ok () := by
    show (d.allPublicRules.forM Rule.check >>= fun _ =>
      (d.grants.flatMap Grant.ruleList).forM Rule.check >>= fun _ =>
        d.roles.entries.forM fun e => e.2.check e.1) = .ok () ↔ _
    simp only [check_bind_eq_ok, forM_eq_ok_iff, Rule.check_eq_ok_iff]
  rw [h]
  constructor
  · rintro ⟨hp, hr, hg⟩
    refine ⟨hp, fun e he => ?_, fun e he => (Grant.check_eq_ok_iff.1 (hg e he)).1⟩
    obtain ⟨r, g⟩ := e
    cases g with
    | everything => exact True.intro
    | rules rs =>
      intro rule hrule
      exact hr rule (List.mem_flatMap.2 ⟨.rules rs, List.mem_map_of_mem he, hrule⟩)
    | table t => exact (Grant.check_eq_ok_iff.1 (hg _ he)).2 t rfl
  · rintro ⟨hp, hg, hn⟩
    refine ⟨hp, fun rule hrule => ?_, fun e he => Grant.check_eq_ok_iff.2 ⟨hn e he, ?_⟩⟩
    · obtain ⟨g, hm, hrule⟩ := List.mem_flatMap.1 hrule
      obtain ⟨e, he, rfl⟩ := List.mem_map.1 hm
      have hnamed := hg e he
      obtain ⟨r, g⟩ := e
      cases g with
      | rules rs => exact hnamed rule hrule
      | everything => cases hrule
      | table t => cases hrule
    · intro t ht
      have hnamed := hg e he
      rw [ht] at hnamed
      exact hnamed

end Declaration

/-- A declaration is worked out iff its names are not empty. -/
theorem AccessTable.build_eq_ok_iff {d : Declaration} {t : AccessTable} :
    build d = .ok t ↔ d.Named ∧ t = d.compile := by
  rw [← Declaration.check_eq_ok_iff]
  show (d.check >>= fun _ => pure d.compile) = .ok t ↔ _
  rw [check_bind_eq_ok]
  refine and_congr_right fun _ => ?_
  constructor
  · intro h
    cases h
    rfl
  · rintro rfl
    rfl

/-! ## Documents -/

theorem Action.Plain.name_ne_empty {a : Action} (h : a.Plain) : a.name ≠ "" := (ofName?_eq_some h).1

theorem Action.Plain.ofName_name {a : Action} (h : a.Plain) : ofName a.name = a := by
  have hread : ofName? a.name = some a := h
  unfold ofName? at hread
  rw [if_neg h.name_ne_empty] at hread
  exact Option.some.inj hread

theorem Action.plain_ofName {n : String} (h : n ≠ "") : (ofName n).Plain := by
  unfold Plain ofName?
  rw [name_ofName, if_neg h]

theorem Action.plain_of_isBuiltIn {a : Action} (h : a.isBuiltIn = true) : a.Plain := by
  cases a with
  | custom n => cases h
  | _ => rfl

/-- The actions of the rule are the readings of their names, and it names no empty field. -/
def Rule.Plain (r : Rule) : Prop := (∀ a ∈ r.actions, a.Plain) ∧ "" ∉ r.fields

theorem Rule.Plain.named {r : Rule} (h : r.Plain) : r.Named :=
  ⟨fun a ha => (h.1 a ha).name_ne_empty, h.2⟩

/-- The actions of the grant are the readings of their names, and it names no empty field. -/
def Grant.Plain : Grant → Prop
  | everything => True
  | rules rs => ∀ r ∈ rs, r.Plain
  | table t => ∀ e ∈ t.entries, e.1.Plain ∧ "" ∉ e.2

theorem Grant.Plain.named {g : Grant} (h : g.Plain) : g.Named := by
  cases g with
  | everything => exact True.intro
  | rules rs => exact fun r hr => (h r hr).named
  | table t => exact fun e he => (h e he).2

namespace Declaration

/-- The actions of the declaration are the readings of their names, its roles are not reserved, and no
name in it is empty. -/
structure Plain (d : Declaration) : Prop where
  actions : ∀ as, d.actions = some as → ∀ a ∈ as, a.Plain
  publicRules : ∀ r ∈ d.allPublicRules, r.Plain
  grants : ∀ e ∈ d.roles.entries, e.2.Plain
  roles : ∀ e ∈ d.roles.entries, IsRoleKey e.1 ∧ e.1 ≠ ""

theorem Plain.named {d : Declaration} (h : d.Plain) : d.Named :=
  ⟨fun r hr => (h.publicRules r hr).named, fun e he => (h.grants e he).named,
    fun e he => (h.roles e he).2⟩

theorem not_mem_ofList {ns : List String} (h : ∀ n ∈ ns, n ≠ "") : "" ∉ OrderedSet.ofList ns := by
  rw [OrderedSet.mem_ofList]
  exact fun hm => h "" hm rfl

theorem plain_of_mem_map {ns : List String} (h : ∀ n ∈ ns, n ≠ "") {a : Action}
    (ha : a ∈ ns.map Action.ofName) : a.Plain := by
  obtain ⟨n, hn, rfl⟩ := List.mem_map.1 ha
  exact Action.plain_ofName (h n hn)

theorem plain_of_pair {owner : String} {v : Json} {rule : Rule} (h : pair owner v = .ok rule) :
    rule.Plain := by
  obtain ⟨ns, ms, hp, rfl⟩ := pair_eq_ok_iff.1 h
  exact ⟨fun a ha => plain_of_mem_map hp.actions ha, not_mem_ofList hp.fields⟩

theorem plain_of_publicEntry {a : Action} (ha : a.isBuiltIn = true) {v : Json} {rules : List Rule}
    (h : publicEntry a v = .ok rules) : ∀ r ∈ rules, r.Plain := by
  obtain ⟨items, parts, _, hp, rfl⟩ := publicEntry_eq_ok_iff.1 h
  intro r hr
  rcases mem_gather.1 hr with hm | ⟨rfl, _⟩
  · obtain ⟨item, _, hi⟩ := (mem_of_mapM hp).1 hm
    rcases publicItem_eq_ok_iff.1 hi with ⟨_, _, _, e⟩ | ⟨rule, hr, e⟩
    · cases e
    · cases e
      exact plain_of_pair hr
  · -- the rule that gathers the plain fields of the list
    refine ⟨fun b hb => ?_, not_mem_ofList fun n hn => ?_⟩
    · rw [List.mem_singleton.1 hb]
      exact Action.plain_of_isBuiltIn ha
    · obtain ⟨p, hm, e⟩ := List.mem_filterMap.1 hn
      obtain rfl := Sum.getLeft?_eq_some_iff.1 e
      obtain ⟨item, _, hi⟩ := (mem_of_mapM hp).1 hm
      rcases publicItem_eq_ok_iff.1 hi with ⟨n', _, hne, e⟩ | ⟨_, _, e⟩
      · cases e
        exact hne
      · cases e

theorem plain_of_roleItem {role : Role} {v : Json} {rule : Rule} (h : roleItem role v = .ok rule) :
    rule.Plain := by
  rcases roleItem_eq_ok_iff.1 h with ⟨n, _, hn, rfl⟩ | h
  · refine ⟨fun a ha => ?_, OrderedSet.not_mem_empty ""⟩
    rw [List.mem_singleton.1 ha]
    exact Action.plain_ofName hn
  · exact plain_of_pair h

theorem plain_of_roleEntry {role : Role} {v : Json} {g : Grant} (h : roleEntry role v = .ok g) :
    g.Plain := by
  rcases roleEntry_eq_ok_iff.1 h with ⟨_, rfl⟩ | ⟨items, rs, _, hr, rfl⟩ | ⟨ms, es, _, hes, rfl⟩
  · exact True.intro
  · intro rule hrule
    obtain ⟨item, _, hi⟩ := (mem_of_mapM hr).1 hrule
    exact plain_of_roleItem hi
  · intro e he
    rcases OrderedMap.mem_of_mem_foldl_insert he with hm | hm
    · cases hm
    · obtain ⟨⟨n, w⟩, _, hw⟩ := (mem_of_mapM hes).1 hm
      obtain ⟨hn, ns, _, hne, rfl⟩ := readEntry_eq_ok_iff.1 hw
      exact ⟨Action.plain_ofName hn, not_mem_ofList hne⟩

/-- **Declarations of documents are plain.** -/
theorem plain_of_ofJson {v : Json} {d : Declaration} (h : ofJson v = .ok d) : d.Plain := by
  cases v with
  | object members =>
    constructor
    · intro as has a ha
      obtain ⟨v, _, hv⟩ := declares_actions.1 (declares_of_actions_eq_some h has)
      obtain ⟨ns, _, hn, rfl⟩ := actionList_eq_ok_iff.1 hv
      exact plain_of_mem_map hn ha
    · intro rule hrule
      obtain ⟨⟨a, rs⟩, hm, hr⟩ := List.mem_flatMap.1 hrule
      obtain ⟨ha, v, _, hv⟩ := declares_publicRules.1 (declares_of_mem_publicRules h hm)
      exact plain_of_publicEntry ha hv rule hr
    · intro e he
      obtain ⟨_, _, v, _, hv⟩ := declares_role.1 (declares_of_mem_roles h he)
      exact plain_of_roleEntry hv
    · intro e he
      obtain ⟨hk, hn, _⟩ := declares_role.1 (declares_of_mem_roles h he)
      exact ⟨hk, hn⟩
  | _ => cases h

end Declaration

/-- A document that can be read can be worked out. -/
theorem AccessTable.ofDocument_eq {v : Json} {d : Declaration} (h : Declaration.ofJson v = .ok d) :
    ofDocument v = .ok d.compile := by
  unfold ofDocument
  rw [h]
  exact build_eq_ok_iff.2 ⟨(Declaration.plain_of_ofJson h).named, rfl⟩

/-- A text is loaded as the table of the document that it states. -/
theorem AccessTable.parse_eq_ok_iff {text : String} {t : AccessTable} :
    parse text = .ok t ↔ ∃ v, Json.parse text = .ok v ∧ ofDocument v = .ok t := by
  have h : parse text = .ok t ↔ ∃ d, Declaration.parse text = .ok d ∧ build d = .ok t := by
    show (Declaration.parse text >>= fun d => (build d).mapError _) = .ok t ↔ _
    simp only [bind_eq_ok, mapError_eq_ok]
  have hd : ∀ d, Declaration.parse text = .ok d ↔
      ∃ v, Json.parse text = .ok v ∧ Declaration.ofJson v = .ok d := by
    intro d
    show ((Json.parse text).mapError _ >>= fun v => (Declaration.ofJson v).mapError _) = .ok d ↔ _
    simp only [bind_eq_ok, mapError_eq_ok]
  have ho : ∀ v, ofDocument v = .ok t ↔ ∃ d, Declaration.ofJson v = .ok d ∧ build d = .ok t :=
    fun v => bind_eq_ok
  rw [h]
  simp only [hd, ho]
  exact ⟨fun ⟨d, ⟨v, hv, hd⟩, hb⟩ => ⟨v, hv, d, hd, hb⟩,
    fun ⟨v, hv, d, hd, hb⟩ => ⟨d, ⟨v, hv, hd⟩, hb⟩⟩

end FieldAccess
