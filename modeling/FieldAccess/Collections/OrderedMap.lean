/-
  Maps that remember the order in which their keys arrived.

  1. **Entries** — an association list is updated by `Entries.alter`, which rewrites the first entry
     of a key where it stands and appends an absent key; `Entries.put` is the special case of a plain
     assignment, so a repeated key keeps its first place and takes its last value.

  2. **Maps** — an `OrderedMap` is an association list with distinct keys.  `alter` and `insert` keep
     the place of a present key, `erase` closes the gap, and `adjust` changes or drops one entry.

  3. **Equality** — structural equality compares orders too; `agrees` compares the finite maps only,
     with a given comparison on the values.

  Core only.
-/

namespace FieldAccess

variable {κ ν μ : Type}

/-! ## Association lists -/

namespace Entries

variable [DecidableEq κ]

/-- Rewrites the value of `k` in place, or appends an entry for it. -/
def alter (k : κ) (f : Option ν → ν) : List (κ × ν) → List (κ × ν)
  | [] => [(k, f none)]
  | (k', v) :: rest => if k' = k then (k', f (some v)) :: rest else (k', v) :: alter k f rest

/-- Assigns `v` to `k`. -/
def put (k : κ) (v : ν) (es : List (κ × ν)) : List (κ × ν) := alter k (fun _ => v) es

/-- The value of the first entry for `k`. -/
def get? (k : κ) : List (κ × ν) → Option ν
  | [] => none
  | (k', v) :: rest => if k' = k then some v else get? k rest

theorem keys_alter (k : κ) (f : Option ν → ν) (es : List (κ × ν)) :
    (alter k f es).map Prod.fst =
      if k ∈ es.map Prod.fst then es.map Prod.fst else es.map Prod.fst ++ [k] := by
  induction es with
  | nil => simp [alter]
  | cons e es ih =>
    obtain ⟨k', v⟩ := e
    simp only [alter]
    by_cases h : k' = k
    · simp [h]
    · simp only [h, if_false, List.map_cons, ih, List.mem_cons]
      by_cases h' : k ∈ es.map Prod.fst
      · simp [h']
      · simp [h', Ne.symm h]

theorem nodup_keys_alter {k : κ} {f : Option ν → ν} {es : List (κ × ν)}
    (h : (es.map Prod.fst).Nodup) : ((alter k f es).map Prod.fst).Nodup := by
  rw [keys_alter]
  split
  · exact h
  · next hk =>
    rw [List.nodup_append]
    exact ⟨h, by simp, fun x hx y hy hxy => by
      rw [List.mem_singleton] at hy; exact hk (hy ▸ hxy ▸ hx)⟩

theorem get?_alter_self (k : κ) (f : Option ν → ν) (es : List (κ × ν)) :
    get? k (alter k f es) = some (f (get? k es)) := by
  induction es with
  | nil => simp [alter, get?]
  | cons e es ih =>
    obtain ⟨k', v⟩ := e
    by_cases h : k' = k <;> simp [alter, get?, h, ih]

theorem get?_alter_ne {k j : κ} (hj : j ≠ k) (f : Option ν → ν) (es : List (κ × ν)) :
    get? j (alter k f es) = get? j es := by
  induction es with
  | nil => simp [alter, get?, Ne.symm hj]
  | cons e es ih =>
    obtain ⟨k', v⟩ := e
    by_cases h : k' = k
    · subst h; simp [alter, get?, Ne.symm hj]
    · simp [alter, get?, h, ih]

theorem get?_alter (k j : κ) (f : Option ν → ν) (es : List (κ × ν)) :
    get? j (alter k f es) = if j = k then some (f (get? k es)) else get? j es := by
  by_cases h : j = k
  · subst h; simp [get?_alter_self]
  · simp [h, get?_alter_ne h]

theorem get?_eq_none_iff {k : κ} {es : List (κ × ν)} :
    get? k es = none ↔ k ∉ es.map Prod.fst := by
  induction es with
  | nil => simp [get?]
  | cons e es ih =>
    obtain ⟨k', v⟩ := e
    by_cases h : k' = k
    · simp [get?, h]
    · simp only [get?, h, if_false, ih, List.map_cons, List.mem_cons, not_or, Ne.symm h,
        not_false_eq_true, true_and]

theorem mem_of_get?_eq_some {k : κ} {v : ν} {es : List (κ × ν)} (h : get? k es = some v) :
    (k, v) ∈ es := by
  induction es with
  | nil => simp [get?] at h
  | cons e es ih =>
    obtain ⟨k', v'⟩ := e
    by_cases hk : k' = k
    · simp [get?, hk] at h; simp [hk, h]
    · simp [get?, hk] at h; simp [ih h]

theorem get?_eq_some_iff {k : κ} {v : ν} {es : List (κ × ν)} (nd : (es.map Prod.fst).Nodup) :
    get? k es = some v ↔ (k, v) ∈ es := by
  refine ⟨mem_of_get?_eq_some, ?_⟩
  induction es with
  | nil => simp
  | cons e es ih =>
    obtain ⟨k', v'⟩ := e
    rw [List.map_cons, List.nodup_cons] at nd
    intro h
    rcases List.mem_cons.1 h with h | h
    · cases h; simp [get?]
    · have hk : k' ≠ k := fun hk => nd.1 (hk ▸ List.mem_map.2 ⟨(k, v), h, rfl⟩)
      simp [get?, hk, ih nd.2 h]

end Entries

/-! ## Maps -/

/-- A finite map listed in the order in which its keys arrived. -/
structure OrderedMap (κ ν : Type) where
  entries : List (κ × ν)
  nodup_keys : (entries.map Prod.fst).Nodup

namespace OrderedMap

/-- The map with no entries. -/
def empty : OrderedMap κ ν := ⟨[], List.nodup_nil⟩

instance : EmptyCollection (OrderedMap κ ν) := ⟨empty⟩
instance : Inhabited (OrderedMap κ ν) := ⟨empty⟩

instance [DecidableEq κ] [DecidableEq ν] : DecidableEq (OrderedMap κ ν) := fun m n =>
  if h : m.entries = n.entries then isTrue (by cases m; cases n; simp_all)
  else isFalse (fun e => h (e ▸ rfl))

@[ext] theorem ext_entries {m n : OrderedMap κ ν} (h : m.entries = n.entries) : m = n := by
  cases m; cases n; simp_all

@[simp] theorem entries_empty : (∅ : OrderedMap κ ν).entries = [] := rfl

/-- The keys, oldest first. -/
def keys (m : OrderedMap κ ν) : List κ := m.entries.map Prod.fst

/-- How many entries there are. -/
def size (m : OrderedMap κ ν) : Nat := m.entries.length

/-- Whether there are none. -/
def isEmpty (m : OrderedMap κ ν) : Bool := m.entries.isEmpty

@[simp] theorem keys_empty : (∅ : OrderedMap κ ν).keys = [] := rfl

variable [DecidableEq κ]

/-- The value of a key. -/
def get? (m : OrderedMap κ ν) (k : κ) : Option ν := Entries.get? k m.entries

/-- Whether a key has an entry. -/
def contains (m : OrderedMap κ ν) (k : κ) : Bool := decide (k ∈ m.keys)

@[simp] theorem contains_iff {m : OrderedMap κ ν} {k : κ} : m.contains k = true ↔ k ∈ m.keys := by
  simp [contains]

@[simp] theorem get?_empty (k : κ) : (∅ : OrderedMap κ ν).get? k = none := rfl

theorem get?_eq_none_iff {m : OrderedMap κ ν} {k : κ} : m.get? k = none ↔ k ∉ m.keys :=
  Entries.get?_eq_none_iff

theorem get?_eq_some_iff {m : OrderedMap κ ν} {k : κ} {v : ν} :
    m.get? k = some v ↔ (k, v) ∈ m.entries :=
  Entries.get?_eq_some_iff m.nodup_keys

theorem isSome_get?_iff {m : OrderedMap κ ν} {k : κ} : (m.get? k).isSome = true ↔ k ∈ m.keys := by
  rw [← Option.ne_none_iff_isSome, ne_eq, get?_eq_none_iff, Decidable.not_not]

/-! ### Changing one entry -/

/-- Rewrites the value of a key in place, or appends an entry for it. -/
def alter (m : OrderedMap κ ν) (k : κ) (f : Option ν → ν) : OrderedMap κ ν :=
  ⟨Entries.alter k f m.entries, Entries.nodup_keys_alter m.nodup_keys⟩

/-- Assigns a value to a key, in place if the key is present. -/
def insert (m : OrderedMap κ ν) (k : κ) (v : ν) : OrderedMap κ ν := m.alter k fun _ => v

@[simp] theorem entries_alter (m : OrderedMap κ ν) (k : κ) (f : Option ν → ν) :
    (m.alter k f).entries = Entries.alter k f m.entries := rfl

theorem get?_alter (m : OrderedMap κ ν) (k j : κ) (f : Option ν → ν) :
    (m.alter k f).get? j = if j = k then some (f (m.get? k)) else m.get? j :=
  Entries.get?_alter k j f m.entries

theorem get?_insert (m : OrderedMap κ ν) (k j : κ) (v : ν) :
    (m.insert k v).get? j = if j = k then some v else m.get? j := get?_alter m k j _

theorem keys_alter (m : OrderedMap κ ν) (k : κ) (f : Option ν → ν) :
    (m.alter k f).keys = if k ∈ m.keys then m.keys else m.keys ++ [k] :=
  Entries.keys_alter k f m.entries

@[simp] theorem mem_keys_alter {m : OrderedMap κ ν} {k j : κ} {f : Option ν → ν} :
    j ∈ (m.alter k f).keys ↔ j = k ∨ j ∈ m.keys := by
  rw [keys_alter]
  split
  · next h => exact ⟨Or.inr, fun h' => h'.elim (fun e => e ▸ h) id⟩
  · simp [or_comm]

@[simp] theorem mem_keys_insert {m : OrderedMap κ ν} {k j : κ} {v : ν} :
    j ∈ (m.insert k v).keys ↔ j = k ∨ j ∈ m.keys := mem_keys_alter

/-- The map of a list of assignments. -/
def ofList (es : List (κ × ν)) : OrderedMap κ ν := es.foldl (fun m e => m.insert e.1 e.2) ∅

/-- Drops the entry of a key; the others keep their order. -/
def erase (m : OrderedMap κ ν) (k : κ) : OrderedMap κ ν :=
  ⟨m.entries.filter (fun e => e.1 ≠ k),
    List.Nodup.sublist ((List.filter_sublist).map Prod.fst) m.nodup_keys⟩

@[simp] theorem entries_erase (m : OrderedMap κ ν) (k : κ) :
    (m.erase k).entries = m.entries.filter (fun e => e.1 ≠ k) := rfl

theorem get?_erase (m : OrderedMap κ ν) (k j : κ) :
    (m.erase k).get? j = if j = k then none else m.get? j := by
  have h : ∀ es : List (κ × ν), Entries.get? j (es.filter fun e => e.1 ≠ k) =
      if j = k then none else Entries.get? j es := by
    intro es
    induction es with
    | nil => simp [Entries.get?]
    | cons e es ih =>
      obtain ⟨k', v⟩ := e
      by_cases hk : k' = k
      · subst hk
        rw [List.filter_cons_of_neg (by simp), ih]
        by_cases hj : j = k'
        · simp [hj]
        · simp [hj, Entries.get?, Ne.symm hj]
      · rw [List.filter_cons_of_pos (by simpa using hk)]
        by_cases hj : k' = j
        · subst hj; simp [Entries.get?, hk]
        · simp only [Entries.get?, hj, if_false, ih]
  exact h m.entries

/-- Changes the value of a key that is present: `none` drops its entry. -/
def adjust (m : OrderedMap κ ν) (k : κ) (f : ν → Option ν) : OrderedMap κ ν :=
  match m.get? k with
  | none => m
  | some v =>
    match f v with
    | none => m.erase k
    | some v' => m.insert k v'

theorem get?_adjust (m : OrderedMap κ ν) (k j : κ) (f : ν → Option ν) :
    (m.adjust k f).get? j = if j = k then (m.get? k).bind f else m.get? j := by
  unfold adjust
  cases hk : m.get? k with
  | none =>
    by_cases hj : j = k
    · subst hj; simp [hk]
    · simp [hj]
  | some v =>
    cases hf : f v with
    | none => simp [get?_erase, hf]
    | some v' => simp [get?_insert, hf]

/-! ### Traversal -/

omit [DecidableEq κ] in
theorem nodup_keys_map (g : κ × ν → μ) (m : OrderedMap κ ν) :
    ((m.entries.map fun e => (e.1, g e)).map Prod.fst).Nodup := by
  rw [List.map_map]; exact m.nodup_keys

omit [DecidableEq κ] in
/-- Applies a function to every value. -/
def mapValues (g : ν → μ) (m : OrderedMap κ ν) : OrderedMap κ μ :=
  ⟨m.entries.map fun e => (e.1, g e.2), nodup_keys_map (fun e => g e.2) m⟩

/-- Whether two maps have the same keys and, key by key, values that `same` accepts. -/
def agrees (same : ν → ν → Bool) (m n : OrderedMap κ ν) : Bool :=
  m.entries.length == n.entries.length &&
    m.entries.all fun e => match n.get? e.1 with
      | none => false
      | some v => same e.2 v

example : (ofList [("a", 1), ("b", 2), ("a", 3)]).entries = [("a", 3), ("b", 2)] := by decide
example : ((ofList [("a", 1), ("b", 2)]).erase "a").keys = ["b"] := by decide

end OrderedMap

end FieldAccess
