/-
  Sets kept in ascending order.

  1. **View** — `toList` lists the members in strictly ascending order, so equal sets have equal
     lists and the first member is the least.

  2. **Insertion** — `insert` puts a new member at its place and ignores a present one; `ofList`
     inserts the elements of a list.

  Core only.
-/

namespace FieldAccess

open Std

variable {α : Type}

/-! ## Insertion into an ascending list -/

namespace Ascending

variable [Ord α]

/-- Puts `a` before the first element above it, unless it meets an equal one. -/
def insert (a : α) : List α → List α
  | [] => [a]
  | b :: rest =>
    match compare a b with
    | .lt => a :: b :: rest
    | .eq => b :: rest
    | .gt => b :: insert a rest

/-- Strictly ascending: each element is below all that follow it. -/
abbrev Sorted (as : List α) : Prop := as.Pairwise fun a b => compare a b = .lt

theorem mem_insert [LawfulEqOrd α] {a x : α} {as : List α} :
    x ∈ insert a as ↔ x = a ∨ x ∈ as := by
  induction as with
  | nil => simp [insert]
  | cons b rest ih =>
    simp only [insert]
    split
    · simp
    · next h =>
      have : a = b := LawfulEqCmp.eq_of_compare h
      subst this; simp
    · simp only [List.mem_cons, ih]
      exact or_left_comm

theorem sorted_insert [TransOrd α] [LawfulEqOrd α] {a : α} {as : List α} (h : Sorted as) :
    Sorted (insert a as) := by
  induction as with
  | nil => simp [insert]
  | cons b rest ih =>
    have hb := List.pairwise_cons.1 h
    simp only [insert]
    split
    · next hab =>
      refine List.pairwise_cons.2 ⟨?_, h⟩
      intro x hx
      rcases List.mem_cons.1 hx with rfl | hx
      · exact hab
      · exact TransCmp.lt_trans hab (hb.1 x hx)
    · exact h
    · next hab =>
      refine List.pairwise_cons.2 ⟨?_, ih hb.2⟩
      intro x hx
      rcases mem_insert.1 hx with rfl | hx
      · exact OrientedCmp.gt_iff_lt.1 hab
      · exact hb.1 x hx

end Ascending

/-! ## Sets -/

/-- A finite set listed in strictly ascending order. -/
structure SortedSet (α : Type) [Ord α] where
  toList : List α
  sorted : Ascending.Sorted toList

namespace SortedSet

variable [Ord α]

/-- The set with no members. -/
def empty : SortedSet α := ⟨[], List.Pairwise.nil⟩

instance : EmptyCollection (SortedSet α) := ⟨empty⟩
instance : Inhabited (SortedSet α) := ⟨empty⟩
instance : Membership α (SortedSet α) := ⟨fun s a => a ∈ s.toList⟩

@[ext] theorem ext_toList {s t : SortedSet α} (h : s.toList = t.toList) : s = t := by
  cases s; cases t; simp_all

theorem mem_def {a : α} {s : SortedSet α} : a ∈ s ↔ a ∈ s.toList := Iff.rfl

@[simp] theorem mem_toList {a : α} {s : SortedSet α} : a ∈ s.toList ↔ a ∈ s := Iff.rfl

@[simp] theorem toList_empty : (∅ : SortedSet α).toList = [] := rfl

@[simp] theorem not_mem_empty (a : α) : ¬ a ∈ (∅ : SortedSet α) := by simp [mem_def]

/-- How many members there are. -/
def size (s : SortedSet α) : Nat := s.toList.length

/-- Whether there are none. -/
def isEmpty (s : SortedSet α) : Bool := s.toList.isEmpty

/-- Whether `a` is a member. -/
def contains (s : SortedSet α) (a : α) : Bool := s.toList.any fun b => compare a b == .eq

theorem contains_iff [LawfulEqOrd α] {s : SortedSet α} {a : α} :
    s.contains a = true ↔ a ∈ s := by
  simp [contains, LawfulEqCmp.compare_eq_iff_eq]

variable [TransOrd α] [LawfulEqOrd α]

/-- Adds a member. -/
def insert (s : SortedSet α) (a : α) : SortedSet α :=
  ⟨Ascending.insert a s.toList, Ascending.sorted_insert s.sorted⟩

@[simp] theorem mem_insert {s : SortedSet α} {a x : α} : x ∈ s.insert a ↔ x = a ∨ x ∈ s :=
  Ascending.mem_insert

/-- The set of a list's elements. -/
def ofList (as : List α) : SortedSet α := as.foldl insert ∅

theorem mem_foldl_insert {as : List α} {s : SortedSet α} {x : α} :
    x ∈ as.foldl insert s ↔ x ∈ s ∨ x ∈ as := by
  induction as generalizing s with
  | nil => simp
  | cons a as ih => simp [ih, or_assoc, or_left_comm]

@[simp] theorem mem_ofList {as : List α} {x : α} : x ∈ ofList as ↔ x ∈ as := by
  simp [ofList, mem_foldl_insert]

/-- Two sets with the same members are equal: there is one ascending list for them. -/
theorem ext_mem {s t : SortedSet α} (h : ∀ x, x ∈ s ↔ x ∈ t) : s = t := by
  apply ext_toList
  obtain ⟨as, ha⟩ := s
  obtain ⟨bs, hb⟩ := t
  simp only [mem_def] at h
  show as = bs
  induction as generalizing bs with
  | nil =>
    cases bs with
    | nil => rfl
    | cons b bs => exact absurd ((h b).2 (by simp)) (by simp)
  | cons a as ih =>
    cases bs with
    | nil => exact absurd ((h a).1 (by simp)) (by simp)
    | cons b bs =>
      have ha' := List.pairwise_cons.1 ha
      have hb' := List.pairwise_cons.1 hb
      have irr : ∀ {x : α}, compare x x ≠ .lt := fun {x} h => by
        have e : compare x x = .eq := ReflCmp.compare_self
        rw [e] at h; cases h
      have hab : a = b := by
        rcases List.mem_cons.1 ((h a).1 (by simp)) with e | hm
        · exact e
        · rcases List.mem_cons.1 ((h b).2 (by simp)) with e | hm'
          · exact e.symm
          · exact absurd (TransCmp.lt_trans (ha'.1 b hm') (hb'.1 a hm)) irr
      subst hab
      have : as = bs := ih ha'.2 bs hb'.2 fun x => by
        constructor
        · intro hx
          rcases List.mem_cons.1 ((h x).1 (by simp [hx])) with rfl | hm
          · exact absurd (ha'.1 x hx) irr
          · exact hm
        · intro hx
          rcases List.mem_cons.1 ((h x).2 (by simp [hx])) with rfl | hm
          · exact absurd (hb'.1 x hx) irr
          · exact hm
      rw [this]

example : (ofList [3, 1, 2, 1]).toList = [1, 2, 3] := by decide

end SortedSet

end FieldAccess
