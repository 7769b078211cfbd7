/-
  The order in which a document is written does not matter.

  1. **Reordering** — `Json.Reorders` puts one list or one object, anywhere in a value, in another order.
     The two sides of a pair stay where they are; that a list of two is a pair, its place alone tells
     (`Place`).

  2. **Shapes** — reordering keeps the shape that each place asks for, and so whether a document is
     accepted.

  3. **Documents** — what is read after a reordering is alike, and so is the table.  Both follow for any
     number of reorderings, one after the other (`sameAs_of_reorders`).
-/
import Mathlib.Logic.Relation
import FieldAccess.Proofs.Json.DistinctKeys
import FieldAccess.Proofs.Policy.Rewriting

namespace FieldAccess

open Declaration (IsActionKey NamesAlike ReadAlike actionsKey itemRule)

/-! ## Reordering -/

/-- A place in a document, as far as it tells which lists are pairs. -/
inductive Place where
  | document
  /-- Under the key of a built-in action or of a role. -/
  | entry
  /-- An item of a list that stands there. -/
  | item
  | inner

namespace Place

/-- The place of an item of a list. -/
def ofItem : Place → Place
  | entry => item
  | _ => inner

/-- The place of a member of an object. -/
def ofMember (k : String) : Place → Place
  | document => if k = actionsKey then inner else entry
  | _ => inner

end Place

namespace Json

/-- One list that is no pair, or one object, is put in another order. -/
inductive Reorders : Place → Json → Json → Prop where
  | items {p : Place} {items items' : List Json} : (p = .item → items.length ≠ 2) →
      items.Perm items' → Reorders p (.array items) (.array items')
  | members {p : Place} {ms ms' : List (String × Json)} : ms.Perm ms' →
      Reorders p (.object ms) (.object ms')
  | item {p : Place} {xs ys : List Json} {v v' : Json} : Reorders p.ofItem v v' →
      Reorders p (.array (xs ++ v :: ys)) (.array (xs ++ v' :: ys))
  | member {p : Place} {k : String} {xs ys : List (String × Json)} {v v' : Json} :
      Reorders (p.ofMember k) v v' →
      Reorders p (.object (xs ++ (k, v) :: ys)) (.object (xs ++ (k, v') :: ys))

namespace Reorders

variable {p : Place} {v v' : Json}

theorem ne_string (h : Reorders p v v') (n : String) : v ≠ .string n ∧ v' ≠ .string n := by
  cases h <;> exact ⟨nofun, nofun⟩

/-- A value keeps its names. -/
theorem names_iff (h : Reorders p v v') (n : String) : v.Names n ↔ v'.Names n := by
  have array : ∀ items, (Json.array items).Names n ↔ .string n ∈ items := by simp [Names]
  have object : ∀ ms, ¬ (Json.object ms).Names n := by simp [Names]
  cases h with
  | items _ hp => rw [array, array, hp.mem_iff]
  | members => exact iff_of_false (object _) (object _)
  | item h =>
    obtain ⟨hv, hv'⟩ := h.ne_string n
    simp [array, hv.symm, hv'.symm]
  | member => exact iff_of_false (object _) (object _)

/-- No key is repeated. -/
theorem distinctKeys (h : Reorders p v v') (dk : v.DistinctKeys) : v'.DistinctKeys := by
  induction h with
  | items _ hp =>
    cases dk with
    | array hs => exact .array fun v hv => hs v (hp.mem_iff.2 hv)
  | members hp =>
    exact .object ((hp.map _).nodup_iff.1 dk.nodup) fun m hm => dk.member (hp.mem_iff.2 hm)
  | item _ ih =>
    cases dk with
    | array hs =>
      have hv := ih (hs _ (List.mem_append_right _ List.mem_cons_self))
      simp only [List.forall_mem_append, List.forall_mem_cons] at hs
      refine .array ?_
      simp only [List.forall_mem_append, List.forall_mem_cons]
      exact ⟨hs.1, hv, hs.2.2⟩
  | @member _ k _ _ v _ _ ih =>
    have hv := dk.member (m := (k, v)) (List.mem_append_right _ List.mem_cons_self)
    exact dk.replace (ih hv)

/-! ## Shapes -/

theorem isName_eq_false (h : Reorders p v v') : v.isName = false ∧ v'.isName = false := by
  cases h <;> exact ⟨rfl, rfl⟩

theorem isNameList_eq (h : Reorders p v v') : v.isNameList = v'.isNameList := by
  cases h with
  | items _ hp => exact hp.all_eq
  | members => rfl
  | item h =>
    obtain ⟨hv, hv'⟩ := h.isName_eq_false
    simp [isNameList, hv, hv']
  | member => rfl

theorem isSide_eq (h : Reorders p v v') : v.isSide = v'.isSide := by
  obtain ⟨hv, hv'⟩ := h.isName_eq_false
  unfold isSide
  rw [hv, hv', h.isNameList_eq]

/-- Within a list of two, one of the two is reordered. -/
theorem sides {as fs : Json} (h : Reorders .item (.array [as, fs]) v') :
    ∃ as' fs', v' = .array [as', fs'] ∧
      (as = as' ∧ Reorders .inner fs fs' ∨ Reorders .inner as as' ∧ fs = fs') := by
  generalize hv : Json.array [as, fs] = v at h
  cases h with
  | items hn =>
    cases hv
    exact absurd rfl (hn rfl)
  | members => cases hv
  | @item _ xs _ _ _ h =>
    rcases xs with _ | ⟨_, _ | ⟨_, xs⟩⟩
    · cases hv
      exact ⟨_, _, rfl, Or.inr ⟨h, rfl⟩⟩
    · cases hv
      exact ⟨_, _, rfl, Or.inl ⟨rfl, h⟩⟩
    · simp at hv
  | member => cases hv

theorem symm (h : Reorders p v v') : Reorders p v' v := by
  induction h with
  | items hn hp => exact .items (fun e => hp.length_eq ▸ hn e) hp.symm
  | members hp => exact .members hp.symm
  | item _ ih => exact .item ih
  | member _ ih => exact .member ih

theorem isPair_eq (h : Reorders .item v v') : v.isPair = v'.isPair := by
  have half : ∀ {v v'}, Reorders .item v v' → v.isPair = true → v'.isPair = true := by
    intro v v' h hv
    obtain ⟨_, _, ⟨as, fs, rfl, _⟩, _⟩ := isPair_iff.1 hv
    obtain ⟨as', fs', rfl, ⟨rfl, hf⟩ | ⟨ha, rfl⟩⟩ := h.sides
    · show (as.isSide && fs'.isSide) = true
      rw [← hf.isSide_eq]
      exact hv
    · show (as'.isSide && fs.isSide) = true
      rw [← ha.isSide_eq]
      exact hv
  rw [Bool.eq_iff_iff]
  exact ⟨half h, half h.symm⟩

theorem isRuleList_eq (h : Reorders .entry v v') : v.isRuleList = v'.isRuleList := by
  cases h with
  | items _ hp => exact hp.all_eq
  | members => rfl
  | item h =>
    obtain ⟨hv, hv'⟩ := h.isName_eq_false
    have hp := h.isPair_eq
    simp [isRuleList, hv, hv', hp]
  | member => rfl

theorem isMapping_eq (h : Reorders .entry v v') : v.isMapping = v'.isMapping := by
  cases h with
  | items => rfl
  | members hp => exact hp.all_eq
  | item => rfl
  | member h =>
    have hl := h.isNameList_eq
    simp [isMapping, hl]

theorem isGrant_eq (h : Reorders .entry v v') : v.isGrant = v'.isGrant := by
  have hg : ∀ {v : Json}, (∀ s, v ≠ .string s) → v.isGrant = (v.isRuleList || v.isMapping) := by
    intro v hv
    cases v with
    | string s => exact absurd rfl (hv s)
    | _ => rfl
  rw [hg fun s => (h.ne_string s).1, hg fun s => (h.ne_string s).2, h.isRuleList_eq, h.isMapping_eq]

theorem isMember_eq {k : String} (h : Reorders (Place.document.ofMember k) v v') :
    isMember (k, v) = isMember (k, v') := by
  have hplace : Place.document.ofMember k = if k = actionsKey then .inner else .entry := rfl
  unfold isMember
  by_cases hk : k = actionsKey
  · simp only [hk, if_true, h.isNameList_eq]
  · rw [hplace, if_neg hk] at h
    simp only [hk, if_false, h.isRuleList_eq, h.isGrant_eq]

/-- **Acceptance** does not depend on the order. -/
theorem isDocument_eq (h : Reorders .document v v') : v.isDocument = v'.isDocument := by
  cases h with
  | items => rfl
  | members hp => exact hp.all_eq
  | item => rfl
  | member h =>
    have hm := h.isMember_eq
    simp [isDocument, hm]

/-! ## Documents -/

/-- What is reordered within an item is a side of a pair, and the pair names the same. -/
theorem rulesAlike {k : String} {rule rule' : Rule} (h : Reorders .item v v')
    (hr : itemRule k v = .ok rule) (hr' : itemRule k v' = .ok rule') : RulesAlike [rule] [rule'] := by
  have hr := (Declaration.itemRule_eq_ok_iff.1 hr).resolve_left
    fun ⟨n, e, _⟩ => (h.ne_string n).1 e
  have hr' := (Declaration.itemRule_eq_ok_iff.1 hr').resolve_left
    fun ⟨n, e, _⟩ => (h.ne_string n).2 e
  obtain ⟨_, _, ⟨⟨as, fs, rfl, _⟩, _⟩, _⟩ := Declaration.pair_eq_ok_iff.1 hr
  obtain ⟨as', fs', rfl, ⟨rfl, hf⟩ | ⟨ha, rfl⟩⟩ := h.sides
  · exact Declaration.rulesAlike_pair (fun _ => Iff.rfl) hf.names_iff hr hr'
  · exact Declaration.rulesAlike_pair ha.names_iff (fun _ => Iff.rfl) hr hr'

/-- What is read from a reordered entry is alike. -/
theorem readAlike {k : String} {known : List Action} (h : Reorders (Place.document.ofMember k) v v')
    (dk : v.DistinctKeys) : ReadAlike (Grant.Alike known) (k, v) (k, v') := by
  have dk' := h.distinctKeys dk
  have hplace : Place.document.ofMember k = if k = actionsKey then .inner else .entry := rfl
  by_cases hk : k = actionsKey
  · subst hk
    exact Declaration.readAlike_actions h.names_iff
  rw [hplace, if_neg hk] at h
  cases h with
  | items _ hp => exact Declaration.readAlike_of_perm hk hp
  | members hp =>
    exact Declaration.readAlike_object dk.nodup dk'.nodup
      (fun m hm => ⟨m, hp.mem_iff.1 hm, .refl m⟩) (fun m hm => ⟨m, hp.mem_iff.2 hm, .refl m⟩)
  | @item _ xs ys w w' h =>
    have hrules : ∀ rule rules, itemRule k w = .ok rule → [w'].mapM (itemRule k) = .ok rules →
        RulesAlike [rule] rules := by
      intro rule rules hr hrs
      obtain ⟨rule', hr', rfl⟩ := mapM_singleton_eq_ok_iff.1 hrs
      exact h.rulesAlike hr hr'
    have halike := @Declaration.readAlike_of_split known k xs ys [w'] w hk (List.cons_ne_nil w' []) hrules
    rw [List.append_assoc] at halike
    exact halike
  | member h =>
    exact Declaration.readAlike_object dk.nodup dk'.nodup
      (exists_mem_replaced .refl ⟨rfl, h.names_iff⟩)
      (exists_mem_replaced (R := flip NamesAlike) .refl ⟨rfl, h.names_iff⟩)

/-- One reordering keeps the table. -/
theorem sameAs {t : AccessTable} (h : Reorders .document v v') (dk : v.DistinctKeys)
    (ht : AccessTable.ofDocument v = .ok t) :
    ∃ t', AccessTable.ofDocument v' = .ok t' ∧ t.sameAs t' = true := by
  have hdoc := AccessTable.exists_ofDocument_iff.1 ⟨t, ht⟩
  refine AccessTable.sameAs_of_matches ht (h.isDocument_eq ▸ hdoc) fun d d' hd hd' => ?_
  have hrefl := Grant.Alike.refl d.knownActions
  cases h with
  | items => cases hd
  | members hp => exact Declaration.matches_of_perm hrefl dk.nodup hp hd hd'
  | item => cases hd
  | @member _ k _ _ w _ h =>
    have hw := dk.member (m := (k, w)) (List.mem_append_right _ List.mem_cons_self)
    exact Declaration.matches_of_member hrefl dk.nodup (h.readAlike hw) hd hd'

end Reorders

end Json

namespace AccessTable

/-- **The order in which a document is written does not matter.**  Let two documents differ by the order
of the members of objects and of the items of lists, however many and wherever they stand, apart from the
two sides of a pair.  Then either both are accepted, with tables that have the same roles, the same entries
and the same fields in them, or both are rejected. -/
theorem sameAs_of_reorders {v v' : Json} (dk : v.DistinctKeys)
    (h : Relation.ReflTransGen (Json.Reorders .document) v v') :
    (∃ t t', ofDocument v = .ok t ∧ ofDocument v' = .ok t' ∧ t.sameAs t' = true) ∨
      ∃ defect defect', ofDocument v = .error defect ∧ ofDocument v' = .error defect' := by
  -- along the reorderings, no key comes to be repeated and all are accepted or none is
  have hrun : v'.DistinctKeys ∧ v.isDocument = v'.isDocument ∧
      ∀ t, ofDocument v = .ok t → ∃ t', ofDocument v' = .ok t' ∧ t.sameAs t' = true := by
    induction h with
    | refl => exact ⟨dk, rfl, fun t ht => ⟨t, ht, t.sameAs_refl⟩⟩
    | tail _ hstep ih =>
      obtain ⟨hkeys, hdoc, hsame⟩ := ih
      refine ⟨hstep.distinctKeys hkeys, hdoc.trans hstep.isDocument_eq, fun t ht => ?_⟩
      obtain ⟨t₁, ht₁, hs₁⟩ := hsame t ht
      obtain ⟨t₂, ht₂, hs₂⟩ := hstep.sameAs hkeys ht₁
      exact ⟨t₂, ht₂, sameAs_trans hs₁ hs₂⟩
  obtain ⟨_, hdoc, hsame⟩ := hrun
  cases ht : ofDocument v with
  | ok t =>
    obtain ⟨t', ht', hs⟩ := hsame t ht
    exact Or.inl ⟨t, t', rfl, ht', hs⟩
  | error defect =>
    cases ht' : ofDocument v' with
    | error defect' => exact Or.inr ⟨defect, defect', rfl, rfl⟩
    | ok t' =>
      obtain ⟨t, h⟩ := exists_ofDocument_iff.2 (hdoc.trans (exists_ofDocument_iff.1 ⟨t', ht'⟩))
      rw [ht] at h
      cases h

/-- Rules for the public may come after the roles that they bear on, and the fields of a pair in any
order. -/
theorem sameAs_of_reorders_public :
    let pair (fields : List String) := Json.array [.string "ban", .array (fields.map .string)]
    let v := Json.object [("self", .array [pair ["name", "mail"], .string "read"]),
      ("read", .array [pair ["id"]])]
    let v' := Json.object [("read", .array [pair ["id"]]),
      ("self", .array [pair ["mail", "name"], .string "read"])]
    ∃ t t', ofDocument v = .ok t ∧ ofDocument v' = .ok t' ∧ t.sameAs t' = true := by
  intro pair v v'
  let text := "\x7b\"self\": [[\"ban\", [\"name\", \"mail\"]], \"read\"], \"read\": [[\"ban\", [\"id\"]]]\x7d"
  have hp : Json.parse text = .ok v :=
    Json.parse_of_value (String.toList_ofList ..) rfl
  let w := Json.object [("read", .array [pair ["id"]]),
    ("self", .array [pair ["name", "mail"], .string "read"])]
  have hvw : Json.Reorders .document v w := .members (.swap _ _ _)
  have hfields : Json.Reorders .inner (.array [.string "name", .string "mail"])
      (.array [.string "mail", .string "name"]) := .items nofun (.swap _ _ _)
  have hpair : Json.Reorders .item (pair ["name", "mail"]) (pair ["mail", "name"]) :=
    @Json.Reorders.item _ [.string "ban"] [] _ _ hfields
  have hself : Json.Reorders .entry (.array [pair ["name", "mail"], .string "read"])
      (.array [pair ["mail", "name"], .string "read"]) :=
    @Json.Reorders.item _ [] [.string "read"] _ _ hpair
  have hwv' : Json.Reorders .document w v' :=
    @Json.Reorders.member _ "self" [("read", .array [pair ["id"]])] [] _ _ hself
  have hrun := sameAs_of_reorders (Json.distinctKeys_of_parse hp) (.tail (.single hvw) hwv')
  refine hrun.resolve_right ?_
  rintro ⟨defect, _, he, _⟩
  obtain ⟨t, ht⟩ := exists_ofDocument_iff.2 (show v.isDocument = true by decide)
  rw [he] at ht
  cases ht

end AccessTable

end FieldAccess
