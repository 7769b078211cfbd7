/-
  Who has more: a role that is granted everything, and a declaration that declares more.

  1. **Everything** — without a list of actions, whatever action has an entry in the table is known, by
     whichever route it came there (`mem_allActions_of_namesFor`).  So a role that is granted everything
     has the wildcard for it (`everything_dominates`).

  2. **Comparison** — `d.Below d'` says that each rule, mapping and listed action of `d` is in `d'` too.
     What a declaration gives grows with it (`Below.gives`), although working out a declaration puts
     wildcards in place of fields: fields that are given are permitted all the same.

  3. **Growth** — one rule, public key, mapped action, mapped field, role or listed action more, anywhere
     (`Declaration.Grows`).  Any number of them takes no permission away (`permits_of_grows`).
-/
import Mathlib.Logic.Relation
import FieldAccess.Proofs.Policy.Comparison

namespace FieldAccess

/-! ## Everything -/

namespace AccessTable

variable {t : AccessTable} {r : Role} {a : Action}

/-- Only an action with an entry is permitted on any field. -/
theorem mem_actions_of_permits {f : String} (h : t.permits r a f = true) : a ∈ t.actions := by
  have hentry : ∀ {g}, g ∈ t.authorizedFields r a → a ∈ t.actions := by
    intro g hg
    obtain ⟨u, fs, hu, ha, -⟩ := mem_authorizedFields.1 hg
    exact mem_actions.2 ⟨(r, u), hu, List.mem_map_of_mem ha⟩
  exact (permits_iff.1 h).elim hentry hentry

end AccessTable

namespace Declaration

variable {d : Declaration} {r : Role} {a : Action}

/-- Without a list of actions, an action is known however it is named: by a rule for the public, be it
under the key of another action, by a rule or the mapping of a role, or as a built-in one. -/
theorem mem_allActions_of_namesFor (hlist : d.actions = none) (h : d.NamesFor r a) :
    a ∈ d.allActions := by
  have hall : d.allActions = Action.builtIns ++ d.allPublicRules.flatMap Rule.actions ++
      d.grants.flatMap Grant.actions := by
    unfold allActions
    rw [hlist]
    rfl
  have hgrant : ∀ {r g}, d.roles.get? r = some g → a ∈ g.actions → a ∈ d.allActions := by
    intro r g hg ha
    have hm := OrderedMap.get?_eq_some_iff.1 hg
    rw [hall]
    exact List.mem_append_right _ (mem_flatMap_grants.2 ⟨r, g, hm, ha⟩)
  cases h with
  | publicRule hrule ha =>
    have hp : a ∈ d.allPublicRules.flatMap Rule.actions := List.mem_flatMap.2 ⟨_, hrule, ha⟩
    rw [hall]
    exact List.mem_append_left _ (List.mem_append_right _ hp)
  | rule hg hrule ha => exact hgrant hg (List.mem_flatMap.2 ⟨_, hrule, ha⟩)
  | mapping hg ha => exact hgrant hg ha
  | everything _ ha => exact ha

theorem mem_allActions_of_mem_actions (hlist : d.actions = none) (h : a ∈ d.compile.actions) :
    a ∈ d.allActions := by
  obtain ⟨r, ha⟩ := AccessTable.mem_actions_iff.1 h
  rw [keys_actionsFor_compile] at ha
  exact mem_allActions_of_namesFor hlist (d.mem_listedActions.1 ha)

/-- A role that is granted everything has the wildcard for each known action. -/
theorem wildcard_mem_of_everything (hr : d.roles.get? r = some .everything) (ha : a ∈ d.allActions) :
    wildcard ∈ d.compile.authorizedFields r a := by
  have hfields : (d.compile.authorizedFields r a).toList = [wildcard] := by
    rw [toList_authorizedFields_compile]
    exact if_pos ⟨hr, ha⟩
  show wildcard ∈ (d.compile.authorizedFields r a).toList
  rw [hfields]
  exact List.mem_singleton.2 rfl

end Declaration

namespace AccessTable

/-- **A role that is granted everything dominates its table.**  Without a list of actions, the wildcard
is among its fields for every action of the table, and it is permitted whatever any role is. -/
theorem everything_dominates {d : Declaration} {t : AccessTable} (h : build d = .ok t)
    (hlist : d.actions = none) {r : Role} (hr : d.roles.get? r = some .everything) :
    (∀ a ∈ t.actions, wildcard ∈ t.authorizedFields r a) ∧
      ∀ s a f, t.permits s a f = true → t.permits r a f = true := by
  obtain ⟨-, rfl⟩ := build_eq_ok_iff.1 h
  have hwild : ∀ a ∈ d.compile.actions, wildcard ∈ d.compile.authorizedFields r a := by
    intro a ha
    exact Declaration.wildcard_mem_of_everything hr
      (Declaration.mem_allActions_of_mem_actions hlist ha)
  refine ⟨hwild, ?_⟩
  intro s a f hp
  exact permits_iff.2 (Or.inl (hwild a (mem_actions_of_permits hp)))

/-- An action that a rule of the public names under another key, and one that only a mapping names without
any field. -/
theorem everything_dominates_public :
    let d : Declaration := {
      publicRules := OrderedMap.ofList [(.read, [.single (.custom "rate") ["stars"]])]
      roles := OrderedMap.ofList [
        ("public", .everything),
        ("guest", .table (OrderedMap.ofList [(.custom "ban", ∅), (.update, OrderedSet.ofList ["name"])]))] }
    build d = .ok d.compile ∧ d.actions = none ∧ d.roles.get? "public" = some .everything ∧
      wildcard ∈ d.compile.authorizedFields "public" (.custom "rate") ∧
      wildcard ∈ d.compile.authorizedFields "public" (.custom "ban") ∧
      d.compile.permits "public" .update "name" = true := by
  intro d
  have h : build d = .ok d.compile := rfl
  have hr : d.roles.get? "public" = some .everything := rfl
  obtain ⟨hwild, hdom⟩ := everything_dominates h rfl hr
  have hguest : d.compile.permits "guest" .update "name" = true := by decide
  refine ⟨h, rfl, hr, ?_, ?_, hdom "guest" .update "name" hguest⟩
  · exact hwild (.custom "rate") (by decide)
  · exact hwild (.custom "ban") (by decide)

end AccessTable

/-! ## Comparison -/

namespace OrderedMap

variable {κ ν : Type} [DecidableEq κ] {R : ν → ν → Prop} {m m' m'' : OrderedMap κ ν}

/-- Whatever a map has under a key, the other has something above it under that key. -/
def Below (R : ν → ν → Prop) (m m' : OrderedMap κ ν) : Prop :=
  ∀ k v, m.get? k = some v → ∃ v', m'.get? k = some v' ∧ R v v'

theorem Below.refl (hR : ∀ v, R v v) (m : OrderedMap κ ν) : m.Below R m :=
  fun _ v h => ⟨v, h, hR v⟩

theorem Below.trans (hR : ∀ u v w, R u v → R v w → R u w) (h : m.Below R m') (h' : m'.Below R m'') :
    m.Below R m'' := by
  intro k v hv
  obtain ⟨v', hv', hr⟩ := h k v hv
  obtain ⟨v'', hv'', hr'⟩ := h' k v' hv'
  exact ⟨v'', hv'', hR _ _ _ hr hr'⟩

end OrderedMap

/-- A set of fields holds those of another. -/
def FieldSet.Below (fs fs' : FieldSet) : Prop := ∀ f ∈ fs, f ∈ fs'

/-- What a grant has, the other has too. -/
inductive Grant.Below : Grant → Grant → Prop where
  | everything : Below .everything .everything
  | rules {rs rs' : List Rule} : rs ⊆ rs' → Below (.rules rs) (.rules rs')
  | table {u u' : ActionTable} : u.Below FieldSet.Below u' → Below (.table u) (.table u')

theorem Grant.Below.refl (g : Grant) : g.Below g := by
  cases g with
  | everything => exact .everything
  | rules rs => exact .rules fun _ => id
  | table u => exact .table (OrderedMap.Below.refl (fun _ _ => id) u)

theorem Grant.Below.trans {g g' g'' : Grant} (h : g.Below g') (h' : g'.Below g'') : g.Below g'' := by
  cases h with
  | everything => exact h'
  | rules hrs =>
    cases h' with
    | rules hrs' => exact .rules fun _ hr => hrs' (hrs hr)
  | table hu =>
    cases h' with
    | table hu' => exact .table (hu.trans (fun _ _ _ h h' f hf => h' f (h f hf)) hu')

theorem Grant.Below.actions {g g' : Grant} (h : g.Below g') {a : Action} (ha : a ∈ g.actions) :
    a ∈ g'.actions := by
  cases h with
  | everything => exact ha
  | rules hrs =>
    obtain ⟨rule, hr, ha⟩ := List.mem_flatMap.1 ha
    exact List.mem_flatMap.2 ⟨rule, hrs hr, ha⟩
  | table hu =>
    obtain ⟨fs, hfs⟩ := Option.isSome_iff_exists.1 (OrderedMap.isSome_get?_iff.2 ha)
    obtain ⟨fs', hfs', -⟩ := hu a fs hfs
    exact OrderedMap.isSome_get?_iff.1 (by rw [hfs']; rfl)

theorem ActionTable.mem_fieldsOf_of_below {u u' : ActionTable} (h : u.Below FieldSet.Below u')
    {a : Action} {f : String} (hf : f ∈ u.fieldsOf a) : f ∈ u'.fieldsOf a := by
  cases hu : u.get? a with
  | none =>
    unfold fieldsOf at hf
    rw [hu] at hf
    cases hf
  | some fs =>
    obtain ⟨fs', hu', hsub⟩ := h a fs hu
    rw [fieldsOf_of_get? hu] at hf
    rw [fieldsOf_of_get? hu']
    exact hsub f hf

/-- What a rule gives grows with what the public has. -/
theorem Rule.mem_gives_mono {t u : ActionTable} (h : ∀ a f, f ∈ t.fieldsOf a → f ∈ u.fieldsOf a)
    {rule : Rule} {a : Action} {f : String} (hf : f ∈ rule.gives t a) : f ∈ rule.gives u a := by
  cases rule with
  | everyField b => exact hf
  | grant as fs =>
    obtain ⟨ha, hf⟩ := mem_gives_grant.1 hf
    exact mem_gives_grant.2 ⟨ha, hf.imp_right (h a f)⟩

namespace Declaration

/-- What a declaration lists, rules and maps, the other does too; and both list their actions or neither
does. -/
structure Below (d d' : Declaration) : Prop where
  listed : Option.Rel (fun as as' => as ⊆ as') d.actions d'.actions
  publicRules : d.publicRules.Below (fun rs rs' => rs ⊆ rs') d'.publicRules
  roles : d.roles.Below Grant.Below d'.roles

namespace Below

variable {d d' d'' : Declaration}

theorem refl (d : Declaration) : d.Below d := by
  refine ⟨?_, OrderedMap.Below.refl (fun _ _ => id) _, OrderedMap.Below.refl Grant.Below.refl _⟩
  cases d.actions with
  | none => exact .none
  | some as => exact .some fun _ => id

theorem trans (h : d.Below d') (h' : d'.Below d'') : d.Below d'' := by
  have hrules : ∀ rs rs' rs'' : List Rule, rs ⊆ rs' → rs' ⊆ rs'' → rs ⊆ rs'' :=
    fun _ _ _ h h' _ hr => h' (h hr)
  refine ⟨?_, h.publicRules.trans hrules h'.publicRules,
    h.roles.trans (fun _ _ _ => Grant.Below.trans) h'.roles⟩
  have hl := h.listed
  have hl' := h'.listed
  generalize d.actions = o at hl
  generalize d'.actions = o' at hl hl'
  cases hl with
  | none => exact hl'
  | some hs =>
    obtain ⟨as, has, hs'⟩ := exists_of_optionRel hl' rfl
    rw [has]
    exact .some fun _ ha => hs' (hs ha)

theorem allPublicRules (h : d.Below d') {rule : Rule} (hr : rule ∈ d.allPublicRules) :
    rule ∈ d'.allPublicRules := by
  obtain ⟨k, rs, hk, hr⟩ := mem_flatMap_entries.1 hr
  obtain ⟨rs', hk', hsub⟩ := h.publicRules k rs hk
  exact mem_flatMap_entries.2 ⟨k, rs', hk', hsub hr⟩

theorem publicTable (h : d.Below d') (a : Action) (f : String) (hf : f ∈ d.publicTable.fieldsOf a) :
    f ∈ d'.publicTable.fieldsOf a := by
  rw [fieldsOf_publicTable, OrderedSet.mem_ofList, List.mem_flatMap] at hf ⊢
  obtain ⟨rule, hr, hf⟩ := hf
  exact ⟨rule, h.allPublicRules hr, hf⟩

/-- What is known stays known, listed or not. -/
theorem knownActions (h : d.Below d') {a : Action} (ha : a ∈ d.knownActions) : a ∈ d'.knownActions := by
  rw [mem_knownActions] at ha ⊢
  have hlisted := h.listed
  unfold allActions at ha ⊢
  generalize d.actions = o at hlisted ha
  generalize d'.actions = o' at hlisted ⊢
  cases hlisted with
  | some hs => exact hs ha
  | none =>
    rcases List.mem_append.1 ha with ha | ha
    · refine List.mem_append_left _ ?_
      rcases List.mem_append.1 ha with ha | ha
      · exact List.mem_append_left _ ha
      · obtain ⟨rule, hr, ha⟩ := List.mem_flatMap.1 ha
        exact List.mem_append_right _ (List.mem_flatMap.2 ⟨rule, h.allPublicRules hr, ha⟩)
    · obtain ⟨r, g, hm, ha⟩ := mem_flatMap_grants.1 ha
      obtain ⟨g', hg', hb⟩ := h.roles r g (OrderedMap.get?_eq_some_iff.2 hm)
      have hm' := OrderedMap.get?_eq_some_iff.1 hg'
      exact List.mem_append_right _ (mem_flatMap_grants.2 ⟨r, g', hm', hb.actions ha⟩)

/-- **What is given grows with the declaration.** -/
theorem gives (h : d.Below d') {r : Role} {a : Action} {f : String} (hg : d.Gives r a f) :
    d'.Gives r a f := by
  cases hg with
  | publicField hf => exact .publicField (h.publicTable a f hf)
  | rule hget hr hf =>
    obtain ⟨g', hget', hb⟩ := h.roles _ _ hget
    cases hb with
    | rules hrs => exact .rule hget' (hrs hr) (Rule.mem_gives_mono h.publicTable hf)
  | table hget hf =>
    obtain ⟨g', hget', hb⟩ := h.roles _ _ hget
    cases hb with
    | table hu => exact .table hget' (ActionTable.mem_fieldsOf_of_below hu hf)
  | everything hget ha =>
    obtain ⟨g', hget', hb⟩ := h.roles _ _ hget
    cases hb with
    | everything => exact .everything hget' (h.knownActions ha)

theorem permits_compile (h : d.Below d') {r : Role} {a : Action} {f : String}
    (hp : d.compile.permits r a f = true) : d'.compile.permits r a f = true := by
  rw [Declaration.permits_compile] at hp ⊢
  exact hp.imp h.gives h.gives

end Below

end Declaration

/-! ## Growth -/

/-- A list has one item more than another, anywhere. -/
def Inserts {α : Type} (x : α) (xs xs' : List α) : Prop :=
  ∃ before after, xs = before ++ after ∧ xs' = before ++ x :: after

theorem Inserts.subset {α : Type} {x : α} {xs xs' : List α} (h : Inserts x xs xs') : xs ⊆ xs' := by
  obtain ⟨before, after, rfl, rfl⟩ := h
  intro y hy
  rcases List.mem_append.1 hy with hy | hy
  · exact List.mem_append_left _ hy
  · exact List.mem_append_right _ (List.mem_cons_of_mem x hy)

namespace OrderedMap

variable {κ ν : Type} [DecidableEq κ] {R S : ν → ν → Prop} {m m' : OrderedMap κ ν}

/-- A map has one entry more than another, anywhere. -/
def Gains (k : κ) (v : ν) (m m' : OrderedMap κ ν) : Prop := Inserts (k, v) m.entries m'.entries

/-- One value of a map is changed where it stands. -/
def Changes (S : ν → ν → Prop) (m m' : OrderedMap κ ν) : Prop :=
  ∃ before k v v' after, m.entries = before ++ (k, v) :: after ∧
    m'.entries = before ++ (k, v') :: after ∧ S v v'

theorem Gains.below {k : κ} {v : ν} (h : m.Gains k v m') (hR : ∀ v, R v v) : m.Below R m' := by
  intro j w hw
  have hmem : (j, w) ∈ m'.entries := h.subset (get?_eq_some_iff.1 hw)
  exact ⟨w, get?_eq_some_iff.2 hmem, hR w⟩

theorem Changes.below (h : m.Changes S m') (hR : ∀ v, R v v) (hS : ∀ v v', S v v' → R v v') :
    m.Below R m' := by
  obtain ⟨before, k, v, v', after, hm, hm', hs⟩ := h
  intro j w hw
  have hmem := get?_eq_some_iff.1 hw
  rw [hm] at hmem
  have hmem' : ∀ e ∈ before ++ (k, v') :: after, m'.get? e.1 = some e.2 := by
    intro e he
    rw [get?_eq_some_iff, hm']
    exact he
  rcases List.mem_append.1 hmem with hb | hc
  · exact ⟨w, hmem' (j, w) (List.mem_append_left _ hb), hR w⟩
  · rcases List.mem_cons.1 hc with e | ha
    · -- the entry that is changed
      cases e
      exact ⟨v', hmem' (k, v') (List.mem_append_right _ List.mem_cons_self), hS v v' hs⟩
    · exact ⟨w, hmem' (j, w) (List.mem_append_right _ (List.mem_cons_of_mem _ ha)), hR w⟩

end OrderedMap

/-- A grant has one rule more, one action more, or one field more for an action. -/
inductive Grant.Grows : Grant → Grant → Prop where
  | rule {rule : Rule} {rs rs' : List Rule} : Inserts rule rs rs' → Grows (.rules rs) (.rules rs')
  | action {a : Action} {fs : FieldSet} {u u' : ActionTable} : u.Gains a fs u' →
      Grows (.table u) (.table u')
  | field {u u' : ActionTable} :
      u.Changes (fun fs fs' => ∃ f, Inserts f fs.toList fs'.toList) u' → Grows (.table u) (.table u')

theorem Grant.Grows.below {g g' : Grant} (h : g.Grows g') : g.Below g' := by
  have hrefl : ∀ fs : FieldSet, fs.Below fs := fun _ _ => id
  cases h with
  | rule hr => exact .rules hr.subset
  | action hu => exact .table (hu.below hrefl)
  | field hu => exact .table (hu.below hrefl fun _ _ ⟨_, hf⟩ => hf.subset)

/-- A declaration has one thing more than another, and is the same for the rest. -/
inductive Declaration.Grows : Declaration → Declaration → Prop where
  | publicRule {o : Option (List Action)} {p p' : OrderedMap Action (List Rule)}
      {m : OrderedMap Role Grant} : p.Changes (fun rs rs' => ∃ rule, Inserts rule rs rs') p' →
      Grows ⟨o, p, m⟩ ⟨o, p', m⟩
  | publicKey {o : Option (List Action)} {p p' : OrderedMap Action (List Rule)}
      {m : OrderedMap Role Grant} {a : Action} {rs : List Rule} : p.Gains a rs p' →
      Grows ⟨o, p, m⟩ ⟨o, p', m⟩
  | grant {o : Option (List Action)} {p : OrderedMap Action (List Rule)}
      {m m' : OrderedMap Role Grant} : m.Changes Grant.Grows m' → Grows ⟨o, p, m⟩ ⟨o, p, m'⟩
  | role {o : Option (List Action)} {p : OrderedMap Action (List Rule)}
      {m m' : OrderedMap Role Grant} {r : Role} {g : Grant} : m.Gains r g m' →
      Grows ⟨o, p, m⟩ ⟨o, p, m'⟩
  | listed {as as' : List Action} {p : OrderedMap Action (List Rule)} {m : OrderedMap Role Grant}
      {a : Action} : Inserts a as as' → Grows ⟨some as, p, m⟩ ⟨some as', p, m⟩

theorem Declaration.Grows.below {d d' : Declaration} (h : d.Grows d') : d.Below d' := by
  have hrules : ∀ rs : List Rule, rs ⊆ rs := fun _ _ => id
  cases h with
  | publicRule hp =>
    exact { Below.refl _ with publicRules := hp.below hrules fun _ _ ⟨_, hr⟩ => hr.subset }
  | publicKey hp => exact { Below.refl _ with publicRules := hp.below hrules }
  | grant hm => exact { Below.refl _ with roles := hm.below Grant.Below.refl fun _ _ => Grant.Grows.below }
  | role hm => exact { Below.refl _ with roles := hm.below Grant.Below.refl }
  | listed ha => exact { Below.refl _ with listed := .some ha.subset }

/-- Any number of steps of growth leads to a declaration above. -/
theorem Declaration.below_of_grows {d d' : Declaration}
    (h : Relation.ReflTransGen Declaration.Grows d d') : d.Below d' := by
  induction h with
  | refl => exact .refl d
  | tail _ hstep ih => exact ih.trans hstep.below

namespace AccessTable

/-- **Declaring more takes no permission away.**  Let a declaration grow by any number of rules, keys of
the public, mapped actions and fields, roles with whatever grant, and listed actions, each of them
anywhere.  Whatever its table permitted is permitted then, also where the wildcard comes in place of the
fields that a role had. -/
theorem permits_of_grows {d d' : Declaration} {t t' : AccessTable} (ht : build d = .ok t)
    (ht' : build d' = .ok t') (h : Relation.ReflTransGen Declaration.Grows d d') {r : Role} {a : Action}
    {f : String} (hp : t.permits r a f = true) : t'.permits r a f = true := by
  obtain ⟨-, rfl⟩ := build_eq_ok_iff.1 ht
  obtain ⟨-, rfl⟩ := build_eq_ok_iff.1 ht'
  exact (Declaration.below_of_grows h).permits_compile hp

/-- The public comes to be granted everything, in front of all roles, and what it had is gone from its
entry. -/
theorem permits_of_grows_replaced :
    let rules (rs : List Rule) := OrderedMap.ofList [(Action.read, rs)]
    let roles (fields : List String) := [("admin", Grant.everything),
      ("editor", .table (OrderedMap.ofList [(.update, OrderedSet.ofList fields)]))]
    let d : Declaration :=
      ⟨some [.read], rules [.single .read ["id"]], OrderedMap.ofList (roles ["title"])⟩
    let d' : Declaration := ⟨some [.update, .read],
      rules [.single (.custom "rate") [], .single .read ["id"]],
      OrderedMap.ofList (("public", .everything) :: roles ["body", "title"])⟩
    build d = .ok d.compile ∧ build d' = .ok d'.compile ∧ Relation.ReflTransGen Declaration.Grows d d' ∧
      d.compile.permits "public" .read "id" = true ∧ d'.compile.permits "public" .read "id" = true ∧
      "id" ∉ d'.compile.authorizedFields "public" .read := by
  intro rules roles d d'
  have hb : build d = .ok d.compile := rfl
  have hb' : build d' = .ok d'.compile := rfl
  have hrule : d.Grows ⟨some [.read], d'.publicRules, d.roles⟩ :=
    .publicRule ⟨[], _, _, _, [], rfl, rfl, _, [], _, rfl, rfl⟩
  have hlisted : Declaration.Grows ⟨some [.read], d'.publicRules, d.roles⟩
      ⟨d'.actions, d'.publicRules, d.roles⟩ := .listed ⟨[], _, rfl, rfl⟩
  have hfield : Declaration.Grows ⟨d'.actions, d'.publicRules, d.roles⟩
      ⟨d'.actions, d'.publicRules, OrderedMap.ofList (roles ["body", "title"])⟩ :=
    .grant ⟨[("admin", .everything)], _, _, _, [], rfl, rfl,
      .field ⟨[], _, _, _, [], rfl, rfl, "body", [], _, rfl, rfl⟩⟩
  have hrole : Declaration.Grows
      ⟨d'.actions, d'.publicRules, OrderedMap.ofList (roles ["body", "title"])⟩ d' :=
    .role ⟨[], _, rfl, rfl⟩
  have hgrows : Relation.ReflTransGen Declaration.Grows d d' :=
    (((Relation.ReflTransGen.single hrule).tail hlisted).tail hfield).tail hrole
  have hp : d.compile.permits "public" .read "id" = true := by decide
  exact ⟨hb, hb', hgrows, hp, permits_of_grows hb hb' hgrows hp, by decide⟩

end AccessTable

end FieldAccess
