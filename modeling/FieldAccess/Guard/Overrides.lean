/-
  Overrides: accesses that one instance allows or denies regardless of roles.

  1. **Entries** — overrides are a table of actions and fields; `entries` flattens it into pairs.

  2. **Adding** — `add` inserts fields for actions and also tells which pairs were new.  An action
     gets an entry even if no field is given.

  3. **Taking back** — `remove` takes single pairs out again; an action that is left without fields
     loses its entry.

  Core only.
-/
import FieldAccess.Policy.Declaration

namespace FieldAccess

/-- Overrides of one kind. -/
abbrev Overrides := ActionTable

namespace Overrides

/-- Whether the overrides of an action cover a field. -/
def cover (o : Overrides) (a : Action) (field : String) : Bool :=
  match o.get? a with
  | some fs => FieldSet.permits fs field
  | none => false

/-- The pairs of action and field, in order. -/
def pairs (o : Overrides) : List (Action × String) :=
  o.entries.flatMap fun e => e.2.toList.map fun f => (e.1, f)

theorem mem_pairs {o : Overrides} {a : Action} {f : String} :
    (a, f) ∈ o.pairs ↔ ∃ fs, o.get? a = some fs ∧ f ∈ fs := by
  constructor
  · intro h
    obtain ⟨e, he, hf⟩ := List.mem_flatMap.1 h
    obtain ⟨f', hf', hp⟩ := List.mem_map.1 hf
    cases hp
    exact ⟨e.2, OrderedMap.get?_eq_some_iff.2 he, hf'⟩
  · rintro ⟨fs, hg, hf⟩
    exact List.mem_flatMap.2 ⟨(a, fs), OrderedMap.get?_eq_some_iff.1 hg, List.mem_map.2 ⟨f, hf, rfl⟩⟩

/-- Overrides cover a field iff they hold the field or the wildcard for the action. -/
theorem cover_iff {o : Overrides} {a : Action} {f : String} :
    o.cover a f = true ↔ (a, wildcard) ∈ o.pairs ∨ (a, f) ∈ o.pairs := by
  simp only [mem_pairs, cover]
  cases h : o.get? a with
  | none => simp
  | some fs => simp [FieldSet.permits_iff]

/-- Overrides with the same pairs cover the same fields. -/
theorem cover_congr {o o' : Overrides} (h : ∀ p, p ∈ o'.pairs ↔ p ∈ o.pairs) (a : Action) (f : String) :
    o'.cover a f = o.cover a f := by
  rw [Bool.eq_iff_iff, cover_iff, cover_iff, h, h]

/-! ## Adding -/

/-- Inserts fields for one action. -/
def addAction (o : Overrides) (fields : FieldSet) (a : Action) : Overrides :=
  o.alter a fun old => OrderedSet.extend (old.getD ∅) fields.toList

/-- The pairs that inserting fields for one action brings. -/
def newPairs (o : Overrides) (fields : FieldSet) (a : Action) : List (Action × String) :=
  (fields.toList.filter fun f => !((o.get? a).getD ∅).contains f).map fun f => (a, f)

/-- Inserts fields for some actions; gives the overrides and the pairs that were new. -/
def add (o : Overrides) (fields : FieldSet) : List Action → Overrides × List (Action × String)
  | [] => (o, [])
  | a :: as =>
    let (o', more) := (o.addAction fields a).add fields as
    (o', o.newPairs fields a ++ more)

theorem mem_pairs_addAction {o : Overrides} {fields : FieldSet} {a b : Action} {f : String} :
    (b, f) ∈ (o.addAction fields a).pairs ↔ (b, f) ∈ o.pairs ∨ b = a ∧ f ∈ fields := by
  simp only [mem_pairs, addAction, OrderedMap.get?_alter]
  by_cases hb : b = a
  · subst hb
    cases h : o.get? b with
    | none => simp
    | some fs => simp
  · simp [hb]

theorem mem_newPairs {o : Overrides} {fields : FieldSet} {a b : Action} {f : String} :
    (b, f) ∈ o.newPairs fields a ↔ b = a ∧ f ∈ fields ∧ (b, f) ∉ o.pairs := by
  simp only [newPairs, List.mem_map, List.mem_filter, Prod.mk.injEq, mem_pairs]
  constructor
  · rintro ⟨f', ⟨hf, hn⟩, rfl, rfl⟩
    refine ⟨rfl, hf, ?_⟩
    rintro ⟨fs, hg, hm⟩
    simp [hg, hm, OrderedSet.contains] at hn
  · rintro ⟨rfl, hf, hn⟩
    refine ⟨f, ⟨hf, ?_⟩, rfl, rfl⟩
    cases h : o.get? b with
    | none => simp [OrderedSet.contains]
    | some fs => simp only [Option.getD_some, OrderedSet.contains, Bool.not_eq_true',
        decide_eq_false_iff_not]; exact fun hm => hn ⟨fs, h, hm⟩

/-- Adding brings the given fields of the given actions and nothing else. -/
theorem mem_pairs_add {fields : FieldSet} {as : List Action} {b : Action} {f : String} :
    ∀ {o : Overrides}, (b, f) ∈ (o.add fields as).1.pairs ↔
      (b, f) ∈ o.pairs ∨ b ∈ as ∧ f ∈ fields := by
  induction as with
  | nil => intro o; simp [add]
  | cons a as ih =>
    intro o
    simp only [add, ih, mem_pairs_addAction, List.mem_cons]
    constructor
    · rintro ((h | ⟨h, hf⟩) | ⟨h, hf⟩)
      · exact Or.inl h
      · exact Or.inr ⟨Or.inl h, hf⟩
      · exact Or.inr ⟨Or.inr h, hf⟩
    · rintro (h | ⟨h | h, hf⟩)
      · exact Or.inl (Or.inl h)
      · exact Or.inl (Or.inr ⟨h, hf⟩)
      · exact Or.inr ⟨h, hf⟩

/-- The pairs that adding reports are those that were not there before. -/
theorem mem_added {fields : FieldSet} {as : List Action} {b : Action} {f : String} :
    ∀ {o : Overrides}, (b, f) ∈ (o.add fields as).2 ↔
      (b ∈ as ∧ f ∈ fields) ∧ (b, f) ∉ o.pairs := by
  induction as with
  | nil => intro o; simp [add]
  | cons a as ih =>
    intro o
    simp only [add, List.mem_append, mem_newPairs, ih, mem_pairs_addAction, List.mem_cons]
    constructor
    · rintro (⟨rfl, hf, hn⟩ | ⟨⟨h, hf⟩, hn⟩)
      · exact ⟨⟨Or.inl rfl, hf⟩, hn⟩
      · exact ⟨⟨Or.inr h, hf⟩, fun h' => hn (Or.inl h')⟩
    · rintro ⟨⟨h | h, hf⟩, hn⟩
      · exact Or.inl ⟨h, hf, hn⟩
      · by_cases hb : b = a
        · exact Or.inl ⟨hb, hf, hn⟩
        · exact Or.inr ⟨⟨h, hf⟩, fun h' => h'.elim hn fun h' => hb h'.1⟩

/-! ## Taking back -/

/-- Takes out one pair. -/
def removePair (o : Overrides) (p : Action × String) : Overrides :=
  o.adjust p.1 fun fs =>
    let left := fs.erase p.2
    if left.isEmpty then none else some left

/-- Takes out some pairs. -/
def remove (o : Overrides) (ps : List (Action × String)) : Overrides := ps.foldl removePair o

theorem mem_pairs_removePair {o : Overrides} {p : Action × String} {b : Action} {f : String} :
    (b, f) ∈ (o.removePair p).pairs ↔ (b, f) ∈ o.pairs ∧ (b, f) ≠ p := by
  obtain ⟨a, g⟩ := p
  simp only [mem_pairs, removePair, OrderedMap.get?_adjust]
  by_cases hb : b = a
  · subst hb
    cases h : o.get? b with
    | none => simp
    | some fs =>
      simp only [if_true, Option.bind_some, Option.some.injEq, exists_eq_left', ne_eq,
        Prod.mk.injEq, true_and]
      by_cases he : (fs.erase g).isEmpty = true
      · have hm : f ∉ fs.erase g := by rw [OrderedSet.isEmpty_iff.1 he]; simp
        rw [OrderedSet.mem_erase] at hm
        simp only [he, if_true]
        constructor
        · rintro ⟨_, h', _⟩; cases h'
        · rintro ⟨hf, hn⟩; exact absurd ⟨hn, hf⟩ hm
      · simp [he, and_comm]
  · simp [hb]

/-- Taking back leaves every other pair. -/
theorem mem_pairs_remove {ps : List (Action × String)} {b : Action} {f : String} :
    ∀ {o : Overrides}, (b, f) ∈ (o.remove ps).pairs ↔ (b, f) ∈ o.pairs ∧ (b, f) ∉ ps := by
  induction ps with
  | nil => intro o; simp [remove]
  | cons p ps ih =>
    intro o
    have := @ih (o.removePair p)
    simp only [remove, List.foldl_cons] at this ⊢
    rw [this, mem_pairs_removePair, List.mem_cons, not_or, and_assoc]

end Overrides

end FieldAccess
