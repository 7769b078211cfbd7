/-
  What the members of a document declare.

  1. **Parts** — a member declares one part: the list of actions, the rules of the public under one
     action, or the grant of one role.  A document is read part by part, and then the parts are put
     together (`ofJson_eq`).

  2. **Declarations of documents** — as long as no key repeats, the declaration holds exactly the parts
     that its document declares, roles and public rules in the order of their members.

  Core only.
-/
import FieldAccess.Proofs.Policy.Grammar

namespace FieldAccess.Declaration

/-! ## Parts -/

/-- What one member of a document declares. -/
inductive Part where
  | actions (as : List Action)
  | publicRules (action : Action) (rules : List Rule)
  | role (role : Role) (grant : Grant)

/-- Reads the part that a member declares. -/
def readPart (m : String × Json) : Except Defect Part :=
  if m.1 = actionsKey then return .actions (← actionList actionsKey m.2)
  else do
    let a ← Action.read? m.1
    if a.isBuiltIn then return .publicRules a (← publicEntry a m.2)
    else return .role m.1 (← roleEntry m.1 m.2)

namespace Part

/-- The key under which a part is declared. -/
def key : Part → String
  | actions _ => actionsKey
  | publicRules a _ => a.name
  | role r _ => r

/-- The list of actions. -/
def actions? : Part → Option (List Action)
  | actions as => some as
  | _ => none

/-- Rules of the public with their action. -/
def publicRules? : Part → Option (Action × List Rule)
  | publicRules a rs => some (a, rs)
  | _ => none

/-- A role with its grant. -/
def role? : Part → Option (Role × Grant)
  | role r g => some (r, g)
  | _ => none

end Part

/-- Takes in a part. -/
def take (d : Declaration) : Part → Declaration
  | .actions as => { d with actions := some as }
  | .publicRules a rs => { d with publicRules := d.publicRules.insert a rs }
  | .role r g => { d with roles := d.roles.insert r g }

theorem member_eq (d : Declaration) (m : String × Json) : member d m = d.take <$> readPart m := by
  unfold member readPart
  split
  · cases actionList actionsKey m.2 <;> rfl
  · cases Action.read? m.1 with
    | error e => rfl
    | ok a =>
      show (if a.isBuiltIn then _ else _) = d.take <$> (if a.isBuiltIn then _ else _)
      split
      · cases publicEntry a m.2 <;> rfl
      · cases roleEntry m.1 m.2 <;> rfl

/-- A document is read part by part. -/
theorem ofJson_eq (members : List (String × Json)) :
    ofJson (.object members) = (fun parts => parts.foldl take {}) <$> members.mapM readPart := by
  rw [← foldlM_map_eq readPart take]
  show members.foldlM member {} = _
  congr
  funext d m
  exact member_eq d m

/-! ## Keys -/

/-- The key of a built-in action. -/
def IsActionKey (k : String) : Prop := (Action.ofName k).isBuiltIn = true

/-- The key of a role: any other than that of the list of actions and those of built-in actions. -/
def IsRoleKey (k : String) : Prop := k ≠ actionsKey ∧ ¬ IsActionKey k

instance (k : String) : Decidable (IsActionKey k) :=
  inferInstanceAs (Decidable ((Action.ofName k).isBuiltIn = true))

instance (k : String) : Decidable (IsRoleKey k) :=
  inferInstanceAs (Decidable (k ≠ actionsKey ∧ ¬ IsActionKey k))

theorem IsActionKey.ne_actionsKey {k : String} (h : IsActionKey k) : k ≠ actionsKey := by
  rintro rfl
  exact absurd h (by decide)

theorem IsActionKey.ne_empty {k : String} (h : IsActionKey k) : k ≠ "" := by
  rintro rfl
  exact absurd h (by decide)

theorem isActionKey_name {a : Action} (ha : a.isBuiltIn = true) : IsActionKey a.name := by
  unfold IsActionKey
  rw [Action.ofName_name ha]
  exact ha

theorem readPart_actions {k : String} {v : Json} (hk : k = actionsKey) :
    readPart (k, v) = .actions <$> actionList actionsKey v := by
  unfold readPart
  rw [if_pos hk]
  cases actionList actionsKey v <;> rfl

theorem readPart_publicRules {k : String} {v : Json} (hk : IsActionKey k) :
    readPart (k, v) = .publicRules (Action.ofName k) <$> publicEntry (Action.ofName k) v := by
  unfold readPart
  have ha : Action.read? k = .ok (Action.ofName k) := Action.read?_eq_ok_iff.2 ⟨hk.ne_empty, rfl⟩
  have hb : (Action.ofName k).isBuiltIn = true := hk
  rw [if_neg hk.ne_actionsKey, ha]
  show (if (Action.ofName k).isBuiltIn = true then _ else _) = _
  rw [if_pos hb]
  cases publicEntry (Action.ofName k) v <;> rfl

theorem readPart_role {k : String} {v : Json} (hk : IsRoleKey k) (hn : k ≠ "") :
    readPart (k, v) = .role k <$> roleEntry k v := by
  unfold readPart
  have ha : Action.read? k = .ok (Action.ofName k) := Action.read?_eq_ok_iff.2 ⟨hn, rfl⟩
  have hb : ¬ (Action.ofName k).isBuiltIn = true := hk.2
  rw [if_neg hk.1, ha]
  show (if (Action.ofName k).isBuiltIn = true then _ else _) = _
  rw [if_neg hb]
  cases roleEntry k v <;> rfl

/-- What a member declares, by its key. -/
theorem readPart_cases {k : String} {v : Json} {p : Part} (h : readPart (k, v) = .ok p) :
    (k = actionsKey ∧ ∃ as, p = .actions as ∧ actionList actionsKey v = .ok as) ∨
    (IsActionKey k ∧ ∃ rs, p = .publicRules (Action.ofName k) rs ∧
      publicEntry (Action.ofName k) v = .ok rs) ∨
    (IsRoleKey k ∧ k ≠ "" ∧ ∃ g, p = .role k g ∧ roleEntry k v = .ok g) := by
  by_cases hl : k = actionsKey
  · rw [readPart_actions hl, map_eq_ok] at h
    obtain ⟨as, ha, rfl⟩ := h
    exact Or.inl ⟨hl, as, rfl, ha⟩
  by_cases ha : IsActionKey k
  · rw [readPart_publicRules ha, map_eq_ok] at h
    obtain ⟨rs, hr, rfl⟩ := h
    exact Or.inr (Or.inl ⟨ha, rs, rfl, hr⟩)
  by_cases hn : k = ""
  · subst hn
    cases h
  rw [readPart_role ⟨hl, ha⟩ hn, map_eq_ok] at h
  obtain ⟨g, hg, rfl⟩ := h
  exact Or.inr (Or.inr ⟨⟨hl, ha⟩, hn, g, rfl, hg⟩)

theorem key_of_readPart {m : String × Json} {p : Part} (h : readPart m = .ok p) : p.key = m.1 := by
  rcases readPart_cases h with ⟨hk, as, rfl, _⟩ | ⟨_, rs, rfl, _⟩ | ⟨_, _, g, rfl, _⟩
  · exact hk.symm
  · exact Action.name_ofName m.1
  · rfl

/-! ## What is declared -/

/-- Some member declares a part. -/
def Declares (members : List (String × Json)) (p : Part) : Prop := ∃ m ∈ members, readPart m = .ok p

section Declares

variable {members : List (String × Json)}

theorem declares_actions {as : List Action} :
    Declares members (.actions as) ↔
      ∃ v, (actionsKey, v) ∈ members ∧ actionList actionsKey v = .ok as := by
  constructor
  · rintro ⟨⟨k, v⟩, hm, h⟩
    rcases readPart_cases h with ⟨rfl, as', e, ha⟩ | ⟨_, _, e, _⟩ | ⟨_, _, _, e, _⟩
    · cases e
      exact ⟨v, hm, ha⟩
    · cases e
    · cases e
  · rintro ⟨v, hm, ha⟩
    refine ⟨_, hm, ?_⟩
    rw [readPart_actions rfl, ha]
    rfl

theorem declares_publicRules {a : Action} {rs : List Rule} :
    Declares members (.publicRules a rs) ↔
      a.isBuiltIn = true ∧ ∃ v, (a.name, v) ∈ members ∧ publicEntry a v = .ok rs := by
  constructor
  · rintro ⟨⟨k, v⟩, hm, h⟩
    rcases readPart_cases h with ⟨_, _, e, _⟩ | ⟨hk, rs', e, hv⟩ | ⟨_, _, _, e, _⟩
    · cases e
    · cases e
      refine ⟨hk, v, ?_, hv⟩
      rw [Action.name_ofName]
      exact hm
    · cases e
  · rintro ⟨ha, v, hm, hv⟩
    have hn : Action.ofName a.name = a := Action.ofName_name ha
    refine ⟨_, hm, ?_⟩
    rw [readPart_publicRules (isActionKey_name ha), hn, hv]
    rfl

theorem declares_role {r : Role} {g : Grant} :
    Declares members (.role r g) ↔
      IsRoleKey r ∧ r ≠ "" ∧ ∃ v, (r, v) ∈ members ∧ roleEntry r v = .ok g := by
  constructor
  · rintro ⟨⟨k, v⟩, hm, h⟩
    rcases readPart_cases h with ⟨_, _, e, _⟩ | ⟨_, _, e, _⟩ | ⟨hk, hn, g', e, hg⟩
    · cases e
    · cases e
    · cases e
      exact ⟨hk, hn, v, hm, hg⟩
  · rintro ⟨hk, hn, v, hm, hg⟩
    refine ⟨_, hm, ?_⟩
    rw [readPart_role hk hn, hg]
    rfl

end Declares

/-! ## Declarations of documents -/

theorem publicRules_foldl_take (parts : List Part) (d : Declaration) :
    (parts.foldl take d).publicRules =
      (parts.filterMap Part.publicRules?).foldl (fun m e => m.insert e.1 e.2) d.publicRules := by
  induction parts generalizing d with
  | nil => rfl
  | cons p parts ih =>
    rw [List.foldl_cons, ih]
    cases p <;> rfl

theorem roles_foldl_take (parts : List Part) (d : Declaration) :
    (parts.foldl take d).roles =
      (parts.filterMap Part.role?).foldl (fun m e => m.insert e.1 e.2) d.roles := by
  induction parts generalizing d with
  | nil => rfl
  | cons p parts ih =>
    rw [List.foldl_cons, ih]
    cases p <;> rfl

theorem foldl_take_role (es : List (Role × Grant)) (d : Declaration) :
    (es.map fun e => Part.role e.1 e.2).foldl take d =
      { d with roles := es.foldl (fun m e => m.insert e.1 e.2) d.roles } := by
  induction es generalizing d with
  | nil => rfl
  | cons e es ih =>
    rw [List.map_cons, List.foldl_cons, ih]
    rfl

theorem actions_foldl_take (parts : List Part) (d : Declaration) :
    (parts.foldl take d).actions =
      (parts.filterMap Part.actions?).foldl (fun _ as => some as) d.actions := by
  induction parts generalizing d with
  | nil => rfl
  | cons p parts ih =>
    rw [List.foldl_cons, ih]
    cases p <;> rfl

/-- The keys of the parts of one kind are among those of all parts, in their order. -/
theorem keys_filterMap_sublist {α : Type} {sel : Part → Option α} {key : α → String}
    (hs : ∀ p a, sel p = some a → key a = p.key) (parts : List Part) :
    ((parts.filterMap sel).map key).Sublist (parts.map Part.key) := by
  induction parts with
  | nil => exact List.Sublist.refl _
  | cons p parts ih =>
    cases hp : sel p with
    | none =>
      rw [List.filterMap_cons_none hp]
      exact ih.trans (List.sublist_cons_self _ _)
    | some a =>
      rw [List.filterMap_cons_some hp, List.map_cons, List.map_cons, hs p a hp]
      exact ih.cons_cons _

theorem keys_of_mapM {members : List (String × Json)} {parts : List Part}
    (h : members.mapM readPart = .ok parts) : parts.map Part.key = members.map Prod.fst :=
  map_eq_of_mapM (fun _ _ _ => key_of_readPart) h

/-- Where no key repeats, the parts of one kind have distinct keys. -/
theorem nodup_keys_filterMap {α : Type} {sel : Part → Option α} {key : α → String}
    (hs : ∀ p a, sel p = some a → key a = p.key) {members : List (String × Json)}
    {parts : List Part} (nd : (members.map Prod.fst).Nodup)
    (hp : members.mapM readPart = .ok parts) : ((parts.filterMap sel).map key).Nodup := by
  have hk : (parts.map Part.key).Nodup := by
    rw [keys_of_mapM hp]
    exact nd
  exact hk.sublist (keys_filterMap_sublist hs parts)

theorem mem_filterMap_sel {α : Type} {sel : Part → Option α} {con : α → Part}
    (hs : ∀ p a, sel p = some a ↔ p = con a) {members : List (String × Json)} {parts : List Part}
    (hp : members.mapM readPart = .ok parts) {a : α} :
    a ∈ parts.filterMap sel ↔ Declares members (con a) := by
  unfold Declares
  rw [List.mem_filterMap, ← mem_of_mapM hp]
  constructor
  · rintro ⟨p, hm, h⟩
    rw [← (hs p a).1 h]
    exact hm
  · exact fun hm => ⟨con a, hm, (hs _ a).2 rfl⟩

section Parts

variable {members : List (String × Json)} {parts : List Part}

theorem mem_filterMap_actions (hp : members.mapM readPart = .ok parts) {as : List Action} :
    as ∈ parts.filterMap Part.actions? ↔ Declares members (.actions as) := by
  have hs : ∀ (p : Part) (as : List Action), p.actions? = some as ↔ p = .actions as := by
    rintro (_ | _ | _) as <;> simp [Part.actions?]
  exact mem_filterMap_sel hs hp

theorem mem_filterMap_publicRules (hp : members.mapM readPart = .ok parts)
    {e : Action × List Rule} :
    e ∈ parts.filterMap Part.publicRules? ↔ Declares members (.publicRules e.1 e.2) := by
  have hs : ∀ (p : Part) (e : Action × List Rule),
      p.publicRules? = some e ↔ p = .publicRules e.1 e.2 := by
    rintro (_ | _ | _) ⟨a, rs⟩ <;> simp [Part.publicRules?]
  exact mem_filterMap_sel hs hp

theorem mem_filterMap_role (hp : members.mapM readPart = .ok parts) {e : Role × Grant} :
    e ∈ parts.filterMap Part.role? ↔ Declares members (.role e.1 e.2) := by
  have hs : ∀ (p : Part) (e : Role × Grant), p.role? = some e ↔ p = .role e.1 e.2 := by
    rintro (_ | _ | _) ⟨r, g⟩ <;> simp [Part.role?]
  exact mem_filterMap_sel hs hp

/-! Members of one kind are read on their own. -/

theorem mapM_filter_actions (hp : members.mapM readPart = .ok parts) :
    (members.filter fun m => m.1 = actionsKey).mapM (fun m => actionList actionsKey m.2) =
      .ok (parts.filterMap Part.actions?) := by
  refine mapM_filter_of_mapM (fun m p h hk => ?_) (fun m p h hk => ?_) hp
  · have hk : m.1 = actionsKey := of_decide_eq_true hk
    rw [readPart_actions hk, map_eq_ok] at h
    obtain ⟨as, has, rfl⟩ := h
    exact ⟨as, has, rfl⟩
  · have hk : m.1 ≠ actionsKey := of_decide_eq_false hk
    rcases readPart_cases h with ⟨hl, _⟩ | ⟨_, _, rfl, _⟩ | ⟨_, _, _, rfl, _⟩
    · exact absurd hl hk
    · rfl
    · rfl

/-- Reads a member for the public. -/
def readPublic (m : String × Json) : Except Defect (Action × List Rule) :=
  (fun rules => (Action.ofName m.1, rules)) <$> publicEntry (Action.ofName m.1) m.2

theorem mapM_filter_publicRules (hp : members.mapM readPart = .ok parts) :
    (members.filter fun m => IsActionKey m.1).mapM readPublic =
      .ok (parts.filterMap Part.publicRules?) := by
  refine mapM_filter_of_mapM (fun m p h hk => ?_) (fun m p h hk => ?_) hp
  · have hk : IsActionKey m.1 := of_decide_eq_true hk
    rw [readPart_publicRules hk, map_eq_ok] at h
    obtain ⟨rules, hr, rfl⟩ := h
    exact ⟨_, map_eq_ok.2 ⟨rules, hr, rfl⟩, rfl⟩
  · have hk : ¬ IsActionKey m.1 := of_decide_eq_false hk
    rcases readPart_cases h with ⟨_, _, rfl, _⟩ | ⟨ha, _⟩ | ⟨_, _, _, rfl, _⟩
    · rfl
    · exact absurd ha hk
    · rfl

/-- Reads the member of a role. -/
def readRole (m : String × Json) : Except Defect (Role × Grant) :=
  (fun g => (m.1, g)) <$> roleEntry m.1 m.2

theorem mapM_filter_role (hp : members.mapM readPart = .ok parts) :
    (members.filter fun m => IsRoleKey m.1).mapM readRole = .ok (parts.filterMap Part.role?) := by
  refine mapM_filter_of_mapM (fun m p h hk => ?_) (fun m p h hk => ?_) hp
  · have hk : IsRoleKey m.1 := of_decide_eq_true hk
    rcases readPart_cases h with ⟨hl, _⟩ | ⟨ha, _⟩ | ⟨_, _, g, rfl, hg⟩
    · exact absurd hl hk.1
    · exact absurd ha hk.2
    · exact ⟨_, map_eq_ok.2 ⟨g, hg, rfl⟩, rfl⟩
  · have hk : ¬ IsRoleKey m.1 := of_decide_eq_false hk
    rcases readPart_cases h with ⟨_, _, rfl, _⟩ | ⟨_, _, rfl, _⟩ | ⟨hr, _⟩
    · rfl
    · rfl
    · exact absurd hr hk

end Parts

theorem mem_of_foldl_some {α : Type} {xs : List α} {o : Option α} {a : α}
    (h : xs.foldl (fun _ x => some x) o = some a) : o = some a ∨ a ∈ xs := by
  induction xs generalizing o with
  | nil => exact Or.inl h
  | cons x xs ih =>
    rcases ih h with e | hm
    · cases e
      exact Or.inr List.mem_cons_self
    · exact Or.inr (List.mem_cons_of_mem _ hm)

section Documents

variable {members : List (String × Json)} {d : Declaration}

theorem parts_of_ofJson (h : ofJson (.object members) = .ok d) :
    ∃ parts, members.mapM readPart = .ok parts ∧ d = parts.foldl take {} := by
  rw [ofJson_eq, map_eq_ok] at h
  obtain ⟨parts, hp, h⟩ := h
  exact ⟨parts, hp, h.symm⟩

/-- Whatever a declaration says of a role was declared. -/
theorem declares_of_mem_roles (h : ofJson (.object members) = .ok d) {r : Role} {g : Grant}
    (hm : (r, g) ∈ d.roles.entries) : Declares members (.role r g) := by
  obtain ⟨parts, hp, rfl⟩ := parts_of_ofJson h
  rw [roles_foldl_take] at hm
  rcases OrderedMap.mem_of_mem_foldl_insert hm with hm | hm
  · cases hm
  · exact (mem_filterMap_role hp).1 hm

/-- Whatever a declaration says of the public was declared. -/
theorem declares_of_mem_publicRules (h : ofJson (.object members) = .ok d) {a : Action}
    {rs : List Rule} (hm : (a, rs) ∈ d.publicRules.entries) :
    Declares members (.publicRules a rs) := by
  obtain ⟨parts, hp, rfl⟩ := parts_of_ofJson h
  rw [publicRules_foldl_take] at hm
  rcases OrderedMap.mem_of_mem_foldl_insert hm with hm | hm
  · cases hm
  · exact (mem_filterMap_publicRules hp).1 hm

theorem declares_of_actions_eq_some (h : ofJson (.object members) = .ok d) {as : List Action}
    (ha : d.actions = some as) : Declares members (.actions as) := by
  obtain ⟨parts, hp, rfl⟩ := parts_of_ofJson h
  rw [actions_foldl_take] at ha
  rcases mem_of_foldl_some ha with ha | ha
  · cases ha
  · exact (mem_filterMap_actions hp).1 ha

/-- **The parts of a document**, as long as no key repeats: its roles and public rules stand in the
declaration in the order of their members. -/
theorem entries_of_ofJson (nd : (members.map Prod.fst).Nodup)
    (h : ofJson (.object members) = .ok d) :
    ∃ parts, members.mapM readPart = .ok parts ∧
      d.actions = (parts.filterMap Part.actions?).foldl (fun _ as => some as) none ∧
      d.publicRules.entries = parts.filterMap Part.publicRules? ∧
      d.roles.entries = parts.filterMap Part.role? := by
  obtain ⟨parts, hp, rfl⟩ := parts_of_ofJson h
  refine ⟨parts, hp, actions_foldl_take parts {}, ?_, ?_⟩
  · -- distinct names make distinct actions
    have hn : ((parts.filterMap Part.publicRules?).map fun e => e.1.name).Nodup := by
      refine nodup_keys_filterMap ?_ nd hp
      rintro (_ | _ | _) a e <;> cases e
      rfl
    have ha : ((parts.filterMap Part.publicRules?).map Prod.fst).Nodup := by
      have inj : ∀ a b : Action, a.name ≠ b.name → a ≠ b := fun a b hab e => hab (e ▸ rfl)
      refine List.Pairwise.of_map Action.name inj ?_
      rw [List.map_map]
      exact hn
    rw [publicRules_foldl_take]
    exact OrderedMap.entries_foldl_insert ha
  · have hr : ((parts.filterMap Part.role?).map Prod.fst).Nodup := by
      refine nodup_keys_filterMap ?_ nd hp
      rintro (_ | _ | _) a e <;> cases e
      rfl
    rw [roles_foldl_take]
    exact OrderedMap.entries_foldl_insert hr

theorem mem_roles_iff (nd : (members.map Prod.fst).Nodup) (h : ofJson (.object members) = .ok d)
    {r : Role} {g : Grant} : (r, g) ∈ d.roles.entries ↔ Declares members (.role r g) := by
  obtain ⟨parts, hp, _, _, hr⟩ := entries_of_ofJson nd h
  rw [hr]
  exact mem_filterMap_role hp

theorem mem_publicRules_iff (nd : (members.map Prod.fst).Nodup)
    (h : ofJson (.object members) = .ok d) {a : Action} {rs : List Rule} :
    (a, rs) ∈ d.publicRules.entries ↔ Declares members (.publicRules a rs) := by
  obtain ⟨parts, hp, _, hr, _⟩ := entries_of_ofJson nd h
  rw [hr]
  exact mem_filterMap_publicRules hp

/-- The list of actions is the one that is declared, of which there is at most one. -/
theorem actions_eq_some_iff (nd : (members.map Prod.fst).Nodup)
    (h : ofJson (.object members) = .ok d) {as : List Action} :
    d.actions = some as ↔ Declares members (.actions as) := by
  obtain ⟨parts, hp, ha, _, _⟩ := entries_of_ofJson nd h
  have hk : ((parts.filterMap Part.actions?).map fun _ => actionsKey).Nodup := by
    refine nodup_keys_filterMap ?_ nd hp
    rintro (_ | _ | _) a e <;> cases e
    rfl
  rw [ha, ← mem_filterMap_actions hp]
  -- two lists of actions would stand under the same key
  rcases hl : parts.filterMap Part.actions? with _ | ⟨as₁, _ | ⟨as₂, rest⟩⟩
  · simp
  · simp [eq_comm]
  · rw [hl] at hk
    simp at hk

/-- An accepted document has no member that cannot be read. -/
theorem exists_readPart (h : ofJson (.object members) = .ok d) {m : String × Json}
    (hm : m ∈ members) : ∃ p, readPart m = .ok p := by
  obtain ⟨parts, hp, _⟩ := parts_of_ofJson h
  obtain ⟨p, _, hr⟩ := exists_of_mapM hp hm
  exact ⟨p, hr⟩

theorem exists_actions (nd : (members.map Prod.fst).Nodup) (h : ofJson (.object members) = .ok d)
    {v : Json} (hm : (actionsKey, v) ∈ members) :
    ∃ as, actionList actionsKey v = .ok as ∧ d.actions = some as := by
  obtain ⟨p, hp⟩ := exists_readPart h hm
  rw [readPart_actions rfl, map_eq_ok] at hp
  obtain ⟨as, ha, _⟩ := hp
  exact ⟨as, ha, (actions_eq_some_iff nd h).2 (declares_actions.2 ⟨v, hm, ha⟩)⟩

theorem exists_publicRules (nd : (members.map Prod.fst).Nodup)
    (h : ofJson (.object members) = .ok d) {k : String} {v : Json} (hk : IsActionKey k)
    (hm : (k, v) ∈ members) :
    ∃ rules, publicEntry (Action.ofName k) v = .ok rules ∧
      (Action.ofName k, rules) ∈ d.publicRules.entries := by
  obtain ⟨p, hp⟩ := exists_readPart h hm
  rw [readPart_publicRules hk, map_eq_ok] at hp
  obtain ⟨rules, hr, _⟩ := hp
  have hd : Declares members (.publicRules (Action.ofName k) rules) := by
    refine declares_publicRules.2 ⟨hk, v, ?_, hr⟩
    rw [Action.name_ofName]
    exact hm
  exact ⟨rules, hr, (mem_publicRules_iff nd h).2 hd⟩

theorem exists_grant (nd : (members.map Prod.fst).Nodup) (h : ofJson (.object members) = .ok d)
    {r : Role} {v : Json} (hk : IsRoleKey r) (hm : (r, v) ∈ members) :
    ∃ g, roleEntry r v = .ok g ∧ d.roles.get? r = some g := by
  have hn : r ≠ "" := by
    rintro rfl
    obtain ⟨p, hp⟩ := exists_readPart h hm
    cases hp
  obtain ⟨p, hp⟩ := exists_readPart h hm
  rw [readPart_role hk hn, map_eq_ok] at hp
  obtain ⟨g, hg, _⟩ := hp
  have hd : Declares members (.role r g) := declares_role.2 ⟨hk, hn, v, hm, hg⟩
  exact ⟨g, hg, OrderedMap.get?_eq_some_iff.2 ((mem_roles_iff nd h).2 hd)⟩

end Documents

end FieldAccess.Declaration
