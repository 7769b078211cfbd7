/-
  The table of a declaration, entry by entry and in order.

  1. **First occurrences** — an ordered set that is extended lists what is new where it comes first
     (`OrderedSet.toList_extend`), and so do the keys of a map that is altered key by key.

  2. **Reference** — what each rule, mapping and grant contributes to one role and one action, read off
     the declaration alone: `listedFields`, `listedActions` and `listedRoles`.

  3. **Fields** — to give the fields of a rule once, or once for each time that the rule names the
     action, comes to the same set in the same order (`extend_lists`).

  4. **Entries** — every rule, mapping and grant appends the actions that it names.

  5. **Table** — the table lists exactly what the reference lists (`listings_of_build`).
-/
import FieldAccess.Proofs.Policy.NormalForm

namespace FieldAccess

/-! ## First occurrences -/

section Occurrences

variable {α κ ν β : Type} [DecidableEq α] [DecidableEq κ]

theorem eraseDups_of_nodup {as : List α} (nd : as.Nodup) : as.eraseDups = as := by
  induction as with
  | nil => rfl
  | cons a as ih =>
    obtain ⟨ha, nd⟩ := List.nodup_cons.1 nd
    have hf : as.filter (fun b => !b == a) = as := by
      refine List.filter_eq_self.2 ?_
      intro b hb
      have hne : b ≠ a := fun h => ha (h ▸ hb)
      simp [hne]
    rw [List.eraseDups_cons, hf, ih nd]

theorem eraseDups_append_cons_of_mem {as bs : List α} {a : α} (h : a ∈ as) :
    (as ++ a :: bs).eraseDups = (as ++ bs).eraseDups := by
  rw [List.eraseDups_append, List.eraseDups_append, List.cons_removeAll, if_neg]
  simp [h]

/-- **Extending a set** keeps the first occurrence of every element. -/
theorem OrderedSet.toList_extend (s : OrderedSet α) (as : List α) :
    (s.extend as).toList = (s.toList ++ as).eraseDups := by
  induction as generalizing s with
  | nil => rw [extend_nil, List.append_nil, eraseDups_of_nodup s.nodup]
  | cons a as ih =>
    rw [extend_cons, ih, toList_insert]
    split
    · next h => exact (eraseDups_append_cons_of_mem h).symm
    · rw [List.append_assoc, List.singleton_append]

theorem OrderedSet.toList_ofList (as : List α) : (ofList as).toList = as.eraseDups :=
  toList_extend ∅ as

namespace OrderedMap

omit [DecidableEq κ] in
/-- The keys of a map, as a set. -/
def domain (m : OrderedMap κ ν) : OrderedSet κ := ⟨m.keys, m.nodup_keys⟩

omit [DecidableEq κ] in
@[simp] theorem toList_domain (m : OrderedMap κ ν) : m.domain.toList = m.keys := rfl

/-- A map lists each key with its value. -/
theorem entries_eq_map_keys {m : OrderedMap κ ν} {v : κ → ν} (h : ∀ k ∈ m.keys, m.get? k = some (v k)) :
    m.entries = m.keys.map fun k => (k, v k) := by
  unfold keys
  rw [List.map_map]
  refine ((List.map_congr_left fun e he => ?_).trans (List.map_id _)).symm
  have hv := h e.1 (List.mem_map_of_mem he)
  rw [get?_eq_some_iff.2 he] at hv
  exact Prod.ext rfl (Option.some.inj hv).symm

theorem domain_alter (m : OrderedMap κ ν) (k : κ) (f : Option ν → ν) :
    (m.alter k f).domain = m.domain.insert k := by
  refine OrderedSet.ext_toList ?_
  rw [toList_domain, keys_alter, OrderedSet.toList_insert]
  rfl

theorem domain_foldl_alter (key : β → κ) (f : β → Option ν → ν) (bs : List β)
    (m : OrderedMap κ ν) :
    (bs.foldl (fun m b => m.alter (key b) (f b)) m).domain = m.domain.extend (bs.map key) := by
  induction bs generalizing m with
  | nil => rfl
  | cons b bs ih => rw [List.foldl_cons, ih, domain_alter, List.map_cons, OrderedSet.extend_cons]

end OrderedMap

end Occurrences

/-! ## Reference -/

/-- The fields that a rule lists for an action, once for each time that it names the action; after those
of a grant come `more`. -/
def Rule.lists (more : List String) (a : Action) : Rule → List String
  | everyField b => if b = a then [wildcard] else []
  | grant as fs => as.flatMap fun b => if b = a then fs.toList ++ more else []

namespace Declaration

variable (d : Declaration)

/-- The fields that the rules of the public list for an action. -/
def fieldsOfPublic (a : Action) : List String :=
  (d.allPublicRules.flatMap (Rule.lists [] a)).eraseDups

/-- The actions that a grant of everything is about: the listed ones, or else the built-in ones and those
of all rules and mappings. -/
def allActions : List Action :=
  d.actions.getD
    (Action.builtIns ++ d.allPublicRules.flatMap Rule.actions ++ d.grants.flatMap Grant.actions)

/-- What the grant of a role contributes to an action, if it is rules or a mapping. -/
def contributed (r : Role) (a : Action) : List String :=
  match d.roles.get? r with
  | some (.rules rs) => rs.flatMap (Rule.lists (d.fieldsOfPublic a) a)
  | some (.table u) => (u.fieldsOf a).toList
  | _ => []

/-- The fields of a role for an action, in order. -/
def listedFields (r : Role) (a : Action) : List String :=
  if d.roles.get? r = some .everything ∧ a ∈ d.allActions then [wildcard]
  else ((if r = Role.everyone then d.fieldsOfPublic a else []) ++ d.contributed r a).eraseDups

/-- The declaration names an action for a role, be it without any field. -/
inductive NamesFor : Role → Action → Prop where
  | publicRule {rule : Rule} {a : Action} :
      rule ∈ d.allPublicRules → a ∈ rule.actions → NamesFor Role.everyone a
  | rule {r : Role} {rs : List Rule} {rule : Rule} {a : Action} :
      d.roles.get? r = some (.rules rs) → rule ∈ rs → a ∈ rule.actions → NamesFor r a
  | mapping {r : Role} {u : ActionTable} {a : Action} :
      d.roles.get? r = some (.table u) → a ∈ u.keys → NamesFor r a
  | everything {r : Role} {a : Action} :
      d.roles.get? r = some .everything → a ∈ d.allActions → NamesFor r a

/-- The actions of a role, in order. -/
def listedActions (r : Role) : List Action :=
  ((if r = Role.everyone then d.allPublicRules.flatMap Rule.actions else []) ++
    match d.roles.get? r with
    | none => []
    | some .everything => d.allActions.eraseDups
    | some g => g.actions).eraseDups

/-- The roles, in order: the public first, if it has any rule. -/
def listedRoles : List Role :=
  ((if d.allPublicRules = [] then [] else [Role.everyone]) ++ d.roles.keys).eraseDups

end Declaration

/-! ## Fields -/

/-- Fields that come again with each naming of an action are there after the first. -/
theorem OrderedSet.extend_flatMap_if {α β : Type} [DecidableEq α] [DecidableEq β] (s : OrderedSet α)
    (bs : List β) (b : β) (as : List α) :
    s.extend (bs.flatMap fun c => if c = b then as else []) = s.extend (if b ∈ bs then as else []) := by
  induction bs generalizing s with
  | nil => rfl
  | cons c bs ih =>
    rw [List.flatMap_cons, extend_append, ih]
    by_cases hc : c = b
    · -- what the first naming adds is there when the next one comes
      rw [if_pos hc, if_pos (List.mem_cons.2 (Or.inl hc.symm))]
      split
      · exact extend_extend_self s as
      · rfl
    · have hm : b ∈ c :: bs ↔ b ∈ bs := by simp [Ne.symm hc]
      rw [if_neg hc, extend_nil]
      simp only [hm]

theorem Rule.extend_lists (publicFields : ActionTable) (a : Action) (rule : Rule) (s : FieldSet) :
    s.extend (rule.lists (publicFields.fieldsOf a).toList a) =
      s.extend (rule.gives publicFields a) := by
  cases rule with
  | everyField b => rfl
  | grant as fs => exact s.extend_flatMap_if as a (fs.toList ++ (publicFields.fieldsOf a).toList)

/-- **Once or each time**: a list of rules extends a set in the same way. -/
theorem Rule.extend_flatMap_lists (publicFields : ActionTable) (a : Action) (rules : List Rule)
    (s : FieldSet) :
    s.extend (rules.flatMap (lists (publicFields.fieldsOf a).toList a)) =
      s.extend (rules.flatMap (gives publicFields a)) := by
  induction rules generalizing s with
  | nil => rfl
  | cons rule rules ih =>
    rw [List.flatMap_cons, List.flatMap_cons, OrderedSet.extend_append, OrderedSet.extend_append,
      extend_lists, ih]

namespace Declaration

variable (d : Declaration)

theorem toList_fieldsOf_publicTable (a : Action) :
    (d.publicTable.fieldsOf a).toList = d.fieldsOfPublic a := by
  have h := Rule.extend_flatMap_lists ∅ a d.allPublicRules ∅
  have h : OrderedSet.ofList (d.allPublicRules.flatMap (Rule.lists [] a)) =
      OrderedSet.ofList (d.allPublicRules.flatMap (Rule.gives ∅ a)) := h
  rw [fieldsOf_publicTable, ← h, OrderedSet.toList_ofList]
  rfl

theorem toList_fieldsOf_startOf (r : Role) (a : Action) :
    ((d.startOf r).fieldsOf a).toList = if r = Role.everyone then d.fieldsOfPublic a else [] := by
  rw [fieldsOf_startOf]
  split
  · exact d.toList_fieldsOf_publicTable a
  · rfl

theorem knownActions_eq : d.knownActions = d.allActions.eraseDups := by
  unfold knownActions allActions
  cases d.actions with
  | none => exact OrderedSet.toList_ofList _
  | some as => exact OrderedSet.toList_ofList as

theorem mem_knownActions {a : Action} : a ∈ d.knownActions ↔ a ∈ d.allActions := by
  rw [knownActions_eq, List.mem_eraseDups]

/-- **Fields of an entry**, in order. -/
theorem toList_authorizedFields_compile (r : Role) (a : Action) :
    (d.compile.authorizedFields r a).toList = d.listedFields r a := by
  have hstart := d.toList_fieldsOf_startOf r a
  rw [authorizedFields_compile]
  unfold listedFields contributed
  cases hg : d.roles.get? r with
  | none =>
    rw [if_neg (fun h => nomatch h.1), List.append_nil, ← hstart,
      eraseDups_of_nodup ((d.startOf r).fieldsOf a).nodup]
  | some g =>
    show (ActionTable.fieldsOf _ a).toList = _
    rw [ActionTable.fieldsOf_applyGrant, ← hstart]
    cases g with
    | everything =>
      -- the wildcard replaces what the public has, and an unknown action keeps it
      show OrderedSet.toList (if a ∈ d.knownActions then FieldSet.all else _) = _
      by_cases ha : a ∈ d.allActions
      · rw [if_pos (d.mem_knownActions.2 ha), if_pos ⟨rfl, ha⟩]
        rfl
      · rw [if_neg (mt d.mem_knownActions.1 ha), if_neg (fun h => ha h.2), List.append_nil,
          eraseDups_of_nodup ((d.startOf r).fieldsOf a).nodup]
    | rules rs =>
      show (OrderedSet.extend _ (rs.flatMap (Rule.gives d.publicTable a))).toList = _
      rw [if_neg (fun h => nomatch h.1), ← Rule.extend_flatMap_lists, OrderedSet.toList_extend,
        toList_fieldsOf_publicTable]
    | table u =>
      show (OrderedSet.extend _ (u.fieldsOf a).toList).toList = _
      rw [if_neg (fun h => nomatch h.1), OrderedSet.toList_extend]

end Declaration

/-! ## Entries -/

namespace ActionTable

theorem domain_apply (publicFields t : ActionTable) (rule : Rule) :
    (apply publicFields t rule).domain = t.domain.extend rule.actions := by
  cases rule with
  | everyField a => exact OrderedMap.domain_alter t a _
  | grant as fs =>
    have h := OrderedMap.domain_foldl_alter (fun a : Action => a)
      (fun a old => OrderedSet.extend (old.getD ∅)
        (fs.toList ++ (publicFields.fieldsOf a).toList)) as t
    rw [List.map_id'] at h
    exact h

theorem domain_foldl_apply (publicFields t : ActionTable) (rules : List Rule) :
    (rules.foldl (apply publicFields) t).domain = t.domain.extend (rules.flatMap Rule.actions) := by
  induction rules generalizing t with
  | nil => rfl
  | cons rule rules ih =>
    rw [List.foldl_cons, ih, domain_apply, List.flatMap_cons, OrderedSet.extend_append]

/-- Working in a grant appends the actions that it names, and a grant of everything the known ones. -/
theorem domain_applyGrant (known : List Action) (publicFields t : ActionTable) (g : Grant) :
    (applyGrant known publicFields t g).domain =
      t.domain.extend (match g with | .everything => known | g => g.actions) := by
  cases g with
  | everything =>
    have h := OrderedMap.domain_foldl_alter (fun a : Action => a) (fun _ _ => FieldSet.all) known t
    rw [List.map_id'] at h
    exact h
  | rules rs => exact domain_foldl_apply publicFields t rs
  | table u =>
    exact OrderedMap.domain_foldl_alter (fun e : Action × FieldSet => e.1)
      (fun e old => OrderedSet.extend (old.getD ∅) e.2.toList) u.entries t

end ActionTable

namespace Declaration

variable (d : Declaration)

theorem domain_startOf (r : Role) :
    (d.startOf r).domain =
      OrderedSet.ofList (if r = Role.everyone then d.allPublicRules.flatMap Rule.actions else []) := by
  unfold startOf publicEntries
  cases hr : d.allPublicRules with
  | nil =>
    show (∅ : ActionTable).domain = _
    rw [List.flatMap_nil, ite_self]
    rfl
  | cons rule rules =>
    rw [if_neg (by simp), OrderedMap.get?_insert]
    split
    · rw [← hr]
      exact ActionTable.domain_foldl_apply ∅ ∅ d.allPublicRules
    · rfl

/-- **Actions of a role**, in order. -/
theorem keys_actionsFor_compile (r : Role) :
    (d.compile.actionsFor r).keys = d.listedActions r := by
  unfold AccessTable.actionsFor listedActions
  rw [get?_compile]
  cases d.roles.get? r with
  | none =>
    show (d.startOf r).domain.toList = _
    rw [domain_startOf, OrderedSet.toList_ofList, List.append_nil]
  | some g =>
    show (ActionTable.applyGrant _ _ _ g).domain.toList = _
    rw [ActionTable.domain_applyGrant, domain_startOf, ← OrderedSet.ofList_append,
      OrderedSet.toList_ofList, knownActions_eq]
    cases g <;> rfl

theorem mem_listedActions {r : Role} {a : Action} : a ∈ d.listedActions r ↔ d.NamesFor r a := by
  unfold listedActions
  rw [List.mem_eraseDups, List.mem_append]
  constructor
  · rintro (h | h)
    · split at h
      · next hr =>
        obtain ⟨rule, hrule, ha⟩ := List.mem_flatMap.1 h
        subst hr
        exact .publicRule hrule ha
      · cases h
    · cases hg : d.roles.get? r with
      | none =>
        rw [hg] at h
        cases h
      | some g =>
        rw [hg] at h
        cases g with
        | everything => exact .everything hg (List.mem_eraseDups.1 h)
        | rules rs =>
          obtain ⟨rule, hrule, ha⟩ := List.mem_flatMap.1 h
          exact .rule hg hrule ha
        | table u => exact .mapping hg h
  · intro h
    cases h with
    | publicRule hrule ha =>
      rw [if_pos rfl]
      exact Or.inl (List.mem_flatMap.2 ⟨_, hrule, ha⟩)
    | rule hg hrule ha =>
      rw [hg]
      exact Or.inr (List.mem_flatMap.2 ⟨_, hrule, ha⟩)
    | mapping hg ha =>
      rw [hg]
      exact Or.inr ha
    | everything hg ha =>
      rw [hg]
      exact Or.inr (List.mem_eraseDups.2 ha)

/-- **Roles**, in order. -/
theorem roleNames_compile : d.compile.roleNames = d.listedRoles := by
  have h := OrderedMap.domain_foldl_alter (fun e : Role × Grant => e.1)
    (fun e old => ActionTable.applyGrant d.knownActions d.publicTable (old.getD ∅) e.2)
    d.roles.entries d.publicEntries
  have hpublic : d.publicEntries.keys =
      if d.allPublicRules = [] then [] else [Role.everyone] := by
    unfold publicEntries
    cases d.allPublicRules <;> rfl
  have hkeys : d.compile.roleNames = (d.publicEntries.domain.extend d.roles.keys).toList :=
    congrArg OrderedSet.toList h
  rw [hkeys, OrderedSet.toList_extend, OrderedMap.toList_domain, hpublic]
  rfl

end Declaration

/-! ## Table -/

namespace AccessTable

open Declaration

/-- **The table of a declaration, entry by entry.**  The fields of every role and action are those of
the reference, in its order; there is an entry for an action exactly if the declaration names it for the
role; and actions and roles are in the order in which they are first named, with the public ahead. -/
theorem listings_of_build {d : Declaration} {t : AccessTable} (h : build d = .ok t) :
    (∀ r a, (t.authorizedFields r a).toList = d.listedFields r a) ∧
    (∀ r a, a ∈ (t.actionsFor r).keys ↔ d.NamesFor r a) ∧
    (∀ r, (t.actionsFor r).keys = d.listedActions r) ∧
    t.roleNames = d.listedRoles := by
  obtain ⟨-, rfl⟩ := build_eq_ok_iff.1 h
  refine ⟨d.toList_authorizedFields_compile, ?_, d.keys_actionsFor_compile, d.roleNames_compile⟩
  intro r a
  rw [keys_actionsFor_compile, mem_listedActions]

/-- The public has a role of its own here, a rule names an action twice, a mapping lists no field, and an
action that is not listed stays out of what everything is. -/
theorem listings_of_build_public_role :
    let d : Declaration := {
      actions := some [.delete]
      publicRules := OrderedMap.ofList [(.read, [.grant [.read, .read] (OrderedSet.ofList ["name"])])]
      roles := OrderedMap.ofList [
        ("editor", .rules [.grant [.read, .update, .read] (OrderedSet.ofList ["id"])]),
        ("guest", .table (OrderedMap.ofList [(.update, ∅)])),
        ("public", .everything)] }
    build d = .ok d.compile ∧
      (d.compile.authorizedFields "editor" .read).toList = ["id", "name"] ∧
      .update ∈ (d.compile.actionsFor "guest").keys ∧
      (d.compile.actionsFor "public").keys = [.read, .delete] ∧
      d.compile.roleNames = ["public", "editor", "guest"] := by
  intro d
  have h : build d = .ok d.compile := rfl
  obtain ⟨hfields, hnamed, hactions, hroles⟩ := listings_of_build h
  refine ⟨h, ?_, ?_, ?_, ?_⟩
  · exact (hfields "editor" .read).trans (by decide)
  · exact (hnamed "guest" .update).2 (.mapping rfl (by decide))
  · exact (hactions "public").trans (by decide)
  · exact hroles.trans (by decide)

end AccessTable

end FieldAccess
