/-
  The actions of a table, gathered from all its roles.

  1. **Order** — the built-in actions come first, in their order, then the custom ones by the bytes of
     their names (`Action.Before`).  It is what actions are compared by (`Action.compare_eq_lt_iff`), and a
     total order: a custom action that has the name of a built-in one is another action, and comes after
     it.

  2. **Entries** — an action is gathered if some role has an entry for it.  An ascending list is determined
     by its members, so nothing else about the table matters (`AccessTable.eq_actions_of_ascending`).

  3. **Main statement** — `AccessTable.actions_of_entries`: ascending, complete, and the same for tables
     that differ in their order only.
-/
import Mathlib.Order.Defs.Unbundled
import FieldAccess.Proofs.Policy.Comparison
import FieldAccess.Proofs.Text.Bytes

namespace FieldAccess

open Std

/-! ## Order -/

namespace Action

/-- One action comes before another: the built-in ones in their order, then the custom ones by the bytes
of their names. -/
inductive Before : Action → Action → Prop where
  | builtIn {a b : Action} : [a, b].Sublist builtIns → Before a b
  | kind {a : Action} {n : String} : a ∈ builtIns → Before a (custom n)
  | name {m n : String} : Text.bytes m < Text.bytes n → Before (custom m) (custom n)

theorem mem_builtIns_or_custom (a : Action) : a ∈ builtIns ∨ ∃ n, a = custom n := by
  cases a with
  | custom n => exact Or.inr ⟨n, rfl⟩
  | _ => exact Or.inl (by decide)

theorem rank_lt_of_mem_builtIns : ∀ a ∈ builtIns, a.rank < 4 := by decide

theorem sublist_builtIns_iff :
    ∀ a ∈ builtIns, ∀ b ∈ builtIns, [a, b].Sublist builtIns ↔ a.rank < b.rank := by decide

theorem rank_inj_of_mem_builtIns :
    ∀ a ∈ builtIns, ∀ b ∈ builtIns, a.rank = b.rank → a = b := by decide

/-- Kinds first, then names. -/
theorem before_iff {a b : Action} :
    a.Before b ↔ a.rank < b.rank ∨ a.rank = b.rank ∧ Text.bytes a.name < Text.bytes b.name := by
  constructor
  · intro h
    cases h with
    | builtIn h =>
      have hb : ∀ x ∈ [a, b], x ∈ builtIns := fun x hx => h.subset hx
      simp only [List.forall_mem_cons] at hb
      exact Or.inl ((sublist_builtIns_iff a hb.1 b hb.2.1).1 h)
    | kind ha => exact Or.inl (rank_lt_of_mem_builtIns a ha)
    | name h => exact Or.inr ⟨rfl, h⟩
  · intro h
    rcases a.mem_builtIns_or_custom with ha | ⟨m, rfl⟩
    · rcases b.mem_builtIns_or_custom with hb | ⟨n, rfl⟩
      · rcases h with h | ⟨hr, hn⟩
        · exact .builtIn ((sublist_builtIns_iff a ha b hb).2 h)
        · -- two built-in actions of one kind are the same
          rw [rank_inj_of_mem_builtIns a ha b hb hr] at hn
          exact absurd hn (List.lt_irrefl _)
      · exact .kind ha
    · rcases b.mem_builtIns_or_custom with hb | ⟨n, rfl⟩
      · have hlt : b.rank < (custom m).rank := rank_lt_of_mem_builtIns b hb
        omega
      · rcases h with h | ⟨-, hn⟩
        · exact absurd h (Nat.lt_irrefl 4)
        · exact .name hn

/-- **What comes before is what compares as less.** -/
theorem compare_eq_lt_iff {a b : Action} : compare a b = .lt ↔ a.Before b := by
  show (compare a.rank b.rank).then (compare a.name b.name) = .lt ↔ _
  rw [Ordering.then_eq_lt, Nat.compare_eq_lt, Nat.compare_eq_eq, Text.compare_eq_lt_iff, before_iff]

/-- The order of actions is total. -/
instance : IsStrictTotalOrder Action Before where
  irrefl a h := by
    have he : compare a a = .eq := ReflCmp.compare_self
    rw [compare_eq_lt_iff.2 h] at he
    cases he
  trans a b c hab hbc :=
    compare_eq_lt_iff.1 (TransCmp.lt_trans (compare_eq_lt_iff.2 hab) (compare_eq_lt_iff.2 hbc))
  trichotomous a b hab hba := by
    cases h : compare a b with
    | lt => exact absurd (compare_eq_lt_iff.1 h) hab
    | eq => exact LawfulEqCmp.eq_of_compare h
    | gt => exact absurd (compare_eq_lt_iff.1 (OrientedCmp.gt_iff_lt.1 h)) hba

end Action

/-! ## Entries -/

namespace AccessTable

variable {t u : AccessTable}

/-- Under the role, the table has an entry for the action, with fields or without. -/
def HasEntry (t : AccessTable) (r : Role) (a : Action) : Prop :=
  ∃ u fs, (r, u) ∈ t.roles.entries ∧ (a, fs) ∈ u.entries

theorem hasEntry_iff {r : Role} {a : Action} : t.HasEntry r a ↔ a ∈ (t.actionsFor r).keys := by
  rw [mem_keys_actionsFor]
  constructor
  · rintro ⟨u, fs, hu, ha⟩
    exact ⟨u, hu, List.mem_map_of_mem ha⟩
  · rintro ⟨u, hu, ha⟩
    obtain ⟨⟨_, fs⟩, he, rfl⟩ := List.mem_map.1 ha
    exact ⟨u, fs, hu, he⟩

theorem mem_actions_iff_hasEntry {a : Action} : a ∈ t.actions ↔ ∃ r, t.HasEntry r a := by
  simp only [mem_actions_iff, hasEntry_iff]

theorem ascending_actions (t : AccessTable) : t.actions.Pairwise Action.Before :=
  (SortedSet.sorted _).imp Action.compare_eq_lt_iff.1

/-- The actions of a table are the only ascending list of what its roles have entries for. -/
theorem eq_actions_of_ascending {as : List Action} (hs : as.Pairwise Action.Before)
    (h : ∀ a, a ∈ as ↔ ∃ r, t.HasEntry r a) : as = t.actions := by
  have hset : (⟨as, hs.imp Action.compare_eq_lt_iff.2⟩ : SortedSet Action) =
      ⟨t.actions, SortedSet.sorted _⟩ :=
    SortedSet.ext_mem fun a => (h a).trans mem_actions_iff_hasEntry.symm
  exact congrArg SortedSet.toList hset

/-- Equal tables have entries for the same actions. -/
theorem hasEntry_congr (h : t.sameAs u = true) {r : Role} {a : Action} :
    t.HasEntry r a ↔ u.HasEntry r a := by
  rw [hasEntry_iff, hasEntry_iff]
  exact ((sameAs_iff.1 h).2 r).keys a

/-- **The actions of a table.**  Actions are compared by a total order, in which only equal ones compare as
equal.  The actions of a table are listed in strictly ascending order, and they are those for which some
role has an entry, with fields or without.  Tables that are equal but for their order have the same
list. -/
theorem actions_of_entries (t : AccessTable) :
    (IsStrictTotalOrder Action Action.Before ∧ ∀ a b : Action,
      (compare a b = .lt ↔ a.Before b) ∧ (compare a b = .eq ↔ a = b) ∧
        (compare a b = .gt ↔ b.Before a)) ∧
      t.actions.Pairwise Action.Before ∧
      (∀ a, a ∈ t.actions ↔ ∃ r, t.HasEntry r a) ∧
      ∀ u : AccessTable, t.sameAs u = true → u.actions = t.actions := by
  refine ⟨⟨inferInstance, fun a b => ⟨Action.compare_eq_lt_iff, ?_, ?_⟩⟩, t.ascending_actions,
    fun a => mem_actions_iff_hasEntry, fun u h => ?_⟩
  · exact LawfulEqCmp.compare_eq_iff_eq
  · exact OrientedCmp.gt_iff_lt.trans Action.compare_eq_lt_iff
  · refine eq_actions_of_ascending u.ascending_actions fun a => ?_
    rw [mem_actions_iff_hasEntry]
    exact exists_congr fun r => (hasEntry_congr h).symm

/-- Roles and actions in another order, a custom action with the name of a built-in one, an entry without
fields and a role without entries. -/
theorem actions_of_entries_reordered :
    let editor : List (Action × FieldSet) := [(.custom "publish", .ofList ["title"]), (.delete, ∅)]
    let guest : List (Action × FieldSet) := [(.custom "read", ∅), (.delete, ∅), (.read, FieldSet.all)]
    let t : AccessTable :=
      ⟨.ofList [("editor", .ofList editor), ("guest", .ofList guest), ("nobody", ∅)]⟩
    let u : AccessTable :=
      ⟨.ofList [("nobody", ∅), ("guest", .ofList guest.reverse), ("editor", .ofList editor.reverse)]⟩
    t.sameAs u = true ∧ u.actions = t.actions ∧
      t.actions = [.read, .delete, .custom "publish", .custom "read"] := by
  intro editor guest t u
  have h : t.sameAs u = true := by decide
  exact ⟨h, (actions_of_entries t).2.2.2 u h, by decide⟩

end AccessTable

end FieldAccess
