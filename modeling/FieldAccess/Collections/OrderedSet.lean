/-
  Sets that remember the order in which their members arrived.

  1. **View** — `toList` lists the members once each, oldest first.  Every operation is described by
     what it does to that list.

  2. **Operations** — `insert` appends an absent member and leaves a present one where it is;
     `erase` closes the gap; `extend` inserts a list one by one.  A member that leaves and comes back
     is therefore last.

  3. **Equality** — structural equality compares orders too; `sameMembers` compares the sets only.

  Core only.
-/

namespace FieldAccess

/-- A finite set listed in order of arrival. -/
structure OrderedSet (α : Type) where
  toList : List α
  nodup : toList.Nodup
deriving DecidableEq

namespace OrderedSet

variable {α : Type}

/-! ## The empty set and membership -/

/-- The set with no members. -/
def empty : OrderedSet α := ⟨[], List.nodup_nil⟩

instance : EmptyCollection (OrderedSet α) := ⟨empty⟩
instance : Inhabited (OrderedSet α) := ⟨empty⟩

instance : Membership α (OrderedSet α) := ⟨fun s a => a ∈ s.toList⟩

@[ext] theorem ext_toList {s t : OrderedSet α} (h : s.toList = t.toList) : s = t := by
  cases s; cases t; simp_all

@[simp] theorem toList_empty : (∅ : OrderedSet α).toList = [] := rfl

theorem mem_def {a : α} {s : OrderedSet α} : a ∈ s ↔ a ∈ s.toList := Iff.rfl

@[simp] theorem mem_toList {a : α} {s : OrderedSet α} : a ∈ s.toList ↔ a ∈ s := Iff.rfl

@[simp] theorem not_mem_empty (a : α) : ¬ a ∈ (∅ : OrderedSet α) := by simp [mem_def]

/-- How many members there are. -/
def size (s : OrderedSet α) : Nat := s.toList.length

/-- Whether there are none. -/
def isEmpty (s : OrderedSet α) : Bool := s.toList.isEmpty

@[simp] theorem size_eq_length (s : OrderedSet α) : s.size = s.toList.length := rfl

theorem isEmpty_iff {s : OrderedSet α} : s.isEmpty = true ↔ s = ∅ := by
  constructor
  · intro h; exact ext_toList (by simpa [isEmpty] using h)
  · rintro rfl; rfl

/-- The set holding `a` alone. -/
def singleton (a : α) : OrderedSet α := ⟨[a], by simp⟩

@[simp] theorem toList_singleton (a : α) : (singleton a).toList = [a] := rfl

@[simp] theorem mem_singleton {a b : α} : b ∈ singleton a ↔ b = a := by simp [mem_def]

variable [DecidableEq α]

instance (a : α) (s : OrderedSet α) : Decidable (a ∈ s) :=
  inferInstanceAs (Decidable (a ∈ s.toList))

/-- Whether `a` is a member. -/
def contains (s : OrderedSet α) (a : α) : Bool := decide (a ∈ s)

@[simp] theorem contains_iff {s : OrderedSet α} {a : α} : s.contains a = true ↔ a ∈ s := by
  simp [contains]

/-! ## Insertion -/

/-- Adds `a` at the end unless it is already there. -/
def insert (s : OrderedSet α) (a : α) : OrderedSet α :=
  if h : a ∈ s then s
  else ⟨s.toList ++ [a], by
    rw [List.nodup_append]
    exact ⟨s.nodup, by simp, fun x hx y hy hxy => by
      rw [List.mem_singleton] at hy; exact h (hy ▸ hxy ▸ hx)⟩⟩

theorem insert_of_mem {s : OrderedSet α} {a : α} (h : a ∈ s) : s.insert a = s := by
  simp [insert, h]

theorem toList_insert (s : OrderedSet α) (a : α) :
    (s.insert a).toList = if a ∈ s then s.toList else s.toList ++ [a] := by
  unfold insert; split <;> rfl

@[simp] theorem mem_insert {s : OrderedSet α} {a b : α} : b ∈ s.insert a ↔ b = a ∨ b ∈ s := by
  rw [mem_def, toList_insert]
  split
  · next h => constructor
              · exact Or.inr
              · rintro (rfl | h')
                · exact h
                · exact h'
  · simp [or_comm]

theorem mem_insert_self (s : OrderedSet α) (a : α) : a ∈ s.insert a := mem_insert.2 (.inl rfl)

/-- Inserts the elements of a list from left to right. -/
def extend (s : OrderedSet α) (as : List α) : OrderedSet α := as.foldl insert s

@[simp] theorem extend_nil (s : OrderedSet α) : s.extend [] = s := rfl

@[simp] theorem extend_cons (s : OrderedSet α) (a : α) (as : List α) :
    s.extend (a :: as) = (s.insert a).extend as := rfl

theorem extend_append (s : OrderedSet α) (as bs : List α) :
    s.extend (as ++ bs) = (s.extend as).extend bs := by simp [extend]

@[simp] theorem mem_extend {s : OrderedSet α} {as : List α} {a : α} :
    a ∈ s.extend as ↔ a ∈ s ∨ a ∈ as := by
  induction as generalizing s with
  | nil => simp
  | cons b as ih => simp [ih, or_assoc, or_left_comm]

/-- The set of a list's elements, each at its first occurrence. -/
def ofList (as : List α) : OrderedSet α := extend ∅ as

@[simp] theorem mem_ofList {as : List α} {a : α} : a ∈ ofList as ↔ a ∈ as := by
  simp [ofList]

theorem ofList_append (as bs : List α) : ofList (as ++ bs) = (ofList as).extend bs := by
  simp [ofList, extend_append]

/-! ## Removal -/

/-- Takes `a` out; the others keep their order. -/
def erase (s : OrderedSet α) (a : α) : OrderedSet α :=
  ⟨s.toList.erase a, s.nodup.erase a⟩

@[simp] theorem toList_erase (s : OrderedSet α) (a : α) :
    (s.erase a).toList = s.toList.erase a := rfl

@[simp] theorem mem_erase {s : OrderedSet α} {a b : α} : b ∈ s.erase a ↔ b ≠ a ∧ b ∈ s := by
  rw [mem_def, toList_erase, s.nodup.mem_erase_iff]; rfl

/-! ## Comparison up to order -/

/-- Whether two sets have the same members, in whatever order. -/
def sameMembers (s t : OrderedSet α) : Bool :=
  s.toList.length == t.toList.length && s.toList.all t.contains

/-- A list without repetitions whose elements are all in another list is not longer than that. -/
theorem length_le_of_subset {as : List α} (nd : as.Nodup) :
    ∀ {bs : List α}, (∀ a ∈ as, a ∈ bs) → as.length ≤ bs.length := by
  induction as with
  | nil => intro bs _; exact Nat.zero_le _
  | cons a as ih =>
    intro bs h
    obtain ⟨ha, nd'⟩ := List.nodup_cons.1 nd
    have hmem : a ∈ bs := h a (by simp)
    have hsub : ∀ x ∈ as, x ∈ bs.erase a := by
      intro x hx
      have hne : x ≠ a := fun e => ha (e ▸ hx)
      exact (List.mem_erase_of_ne hne).2 (h x (by simp [hx]))
    have hle := ih nd' hsub
    have hlen := List.length_erase_of_mem hmem
    have hpos := List.length_pos_of_mem hmem
    simp only [List.length_cons]
    omega

/-- `sameMembers` compares the sets. -/
theorem sameMembers_iff {s t : OrderedSet α} :
    s.sameMembers t = true ↔ ∀ a, a ∈ s ↔ a ∈ t := by
  simp only [sameMembers, Bool.and_eq_true, beq_iff_eq, List.all_eq_true, contains_iff, mem_toList]
  constructor
  · rintro ⟨hlen, hsub⟩ a
    refine ⟨hsub a, fun hat => Decidable.byContradiction fun has => ?_⟩
    have hnd : (a :: s.toList).Nodup := List.nodup_cons.2 ⟨has, s.nodup⟩
    have hsub' : ∀ x ∈ a :: s.toList, x ∈ t.toList := by
      intro x hx
      rcases List.mem_cons.1 hx with rfl | hx
      · exact hat
      · exact hsub x hx
    have hle := length_le_of_subset hnd hsub'
    simp only [List.length_cons] at hle
    omega
  · intro h
    have h1 := length_le_of_subset s.nodup fun a ha => (h a).1 ha
    have h2 := length_le_of_subset t.nodup fun a ha => (h a).2 ha
    exact ⟨by omega, fun a ha => (h a).1 ha⟩

example : (ofList ["b", "a", "b"]).toList = ["b", "a"] := by decide
example : (((ofList ["b", "a"]).erase "b").insert "b").toList = ["a", "b"] := by decide

end OrderedSet

end FieldAccess
