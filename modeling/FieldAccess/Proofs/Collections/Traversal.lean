/-
  Traversals that may fail.

  1. **Steps** — a computation in steps succeeds iff each of its steps does (`bind_eq_ok`), and fails as
     one of them does.

  2. **Lists** — reading a list item by item succeeds iff every item can be read, and gives what the
     items give, in order (`mapM_eq_ok_iff`); checking a list succeeds iff every check does.

  3. **Maps** — assigning entries with new keys appends them in order; altering entries with distinct
     keys one after the other alters the value of each key once (`get?_foldl_alter`).

  Core only.
-/
import FieldAccess.Collections.OrderedMap

namespace FieldAccess

variable {ε α β γ : Type}

/-! ## Steps -/

theorem bind_eq_ok {x : Except ε α} {f : α → Except ε β} {b : β} :
    x >>= f = .ok b ↔ ∃ a, x = .ok a ∧ f a = .ok b := by
  cases x with
  | error e => exact ⟨(fun h => by cases h), fun ⟨_, h, _⟩ => by cases h⟩
  | ok a => exact ⟨fun h => ⟨a, rfl, h⟩, fun ⟨_, h, hf⟩ => by cases h; exact hf⟩

/-- A computation in steps fails with the failure of its first step or with that of the rest. -/
theorem bind_eq_error {x : Except ε α} {f : α → Except ε β} {e : ε} (h : x >>= f = .error e) :
    x = .error e ∨ ∃ a, f a = .error e := by
  cases x with
  | error e' =>
    cases h
    exact Or.inl rfl
  | ok a => exact Or.inr ⟨a, h⟩

theorem map_eq_ok {x : Except ε α} {f : α → β} {b : β} :
    f <$> x = .ok b ↔ ∃ a, x = .ok a ∧ f a = b := by
  cases x with
  | error e => exact ⟨(fun h => by cases h), fun ⟨_, h, _⟩ => by cases h⟩
  | ok a => exact ⟨fun h => ⟨a, rfl, Except.ok.inj h⟩, fun ⟨_, h, hf⟩ => by cases h; rw [← hf]; rfl⟩

theorem mapError_eq_ok {δ : Type} {x : Except ε α} {f : ε → δ} {a : α} :
    x.mapError f = .ok a ↔ x = .ok a := by
  cases x with
  | error e => exact ⟨(fun h => by cases h), fun h => by cases h⟩
  | ok b => exact ⟨fun h => by cases h; rfl, fun h => by cases h; rfl⟩

/-- A check in front of a computation must succeed as well. -/
theorem check_bind_eq_ok {x : Except ε Unit} {f : Unit → Except ε β} {b : β} :
    x >>= f = .ok b ↔ x = .ok () ∧ f () = .ok b := by
  rw [bind_eq_ok]
  exact ⟨fun ⟨_, h⟩ => h, fun h => ⟨(), h⟩⟩

/-! ## Lists -/

/-- A list is read iff each item is, and what the items give comes in their order. -/
theorem mapM_eq_ok_iff {f : α → Except ε β} {xs : List α} {ys : List β} :
    xs.mapM f = .ok ys ↔ xs.map f = ys.map .ok := by
  induction xs generalizing ys with
  | nil =>
    rw [List.mapM_nil]
    cases ys with
    | nil => exact ⟨fun _ => rfl, fun _ => rfl⟩
    | cons y ys => exact ⟨(fun h => by cases h), fun h => by cases h⟩
  | cons x xs ih =>
    rw [List.mapM_cons, bind_eq_ok]
    constructor
    · rintro ⟨y, hy, h⟩
      obtain ⟨ys', hys, h⟩ := bind_eq_ok.1 h
      cases h
      rw [List.map_cons, List.map_cons, hy, ih.1 hys]
    · intro h
      cases ys with
      | nil => cases h
      | cons y ys =>
        rw [List.map_cons, List.map_cons, List.cons.injEq] at h
        exact ⟨y, h.1, bind_eq_ok.2 ⟨ys, ih.2 h.2, rfl⟩⟩

theorem mapM_singleton_eq_ok_iff {f : α → Except ε β} {x : α} {ys : List β} :
    [x].mapM f = .ok ys ↔ ∃ y, f x = .ok y ∧ ys = [y] := by
  rw [List.mapM_cons, bind_eq_ok]
  refine exists_congr fun y => and_congr_right fun _ => ?_
  exact ⟨fun h => (Except.ok.inj h).symm, fun h => congrArg Except.ok h.symm⟩

/-- Two lists in a row are read one after the other. -/
theorem mapM_append_eq_ok_iff {f : α → Except ε β} {xs ys : List α} {zs : List β} :
    (xs ++ ys).mapM f = .ok zs ↔ ∃ as bs, xs.mapM f = .ok as ∧ ys.mapM f = .ok bs ∧ zs = as ++ bs := by
  simp only [mapM_eq_ok_iff, List.map_append]
  constructor
  · intro h
    obtain ⟨as, bs, rfl, has, hbs⟩ := List.map_eq_append_iff.1 h.symm
    exact ⟨as, bs, has.symm, hbs.symm, rfl⟩
  · rintro ⟨as, bs, has, hbs, rfl⟩
    rw [has, hbs, List.map_append]

/-- Where one item is replaced by several, what is read before and behind stays. -/
theorem exists_of_mapM_split {f : α → Except ε β} {xs ys more : List α} {x : α}
    {zs zs' : List β} (h : (xs ++ x :: ys).mapM f = .ok zs) (h' : (xs ++ more ++ ys).mapM f = .ok zs') :
    ∃ before z middle after, f x = .ok z ∧ more.mapM f = .ok middle ∧
      zs = before ++ ([z] ++ after) ∧ zs' = before ++ (middle ++ after) := by
  obtain ⟨before, rest, hb, hrest, rfl⟩ := mapM_append_eq_ok_iff.1 h
  obtain ⟨z, hz, hrest⟩ := bind_eq_ok.1 (List.mapM_cons.symm.trans hrest)
  obtain ⟨after, ha, e⟩ := bind_eq_ok.1 hrest
  cases e
  rw [List.append_assoc] at h'
  obtain ⟨before', rest', hb', hrest', rfl⟩ := mapM_append_eq_ok_iff.1 h'
  obtain ⟨middle, after', hm, ha', rfl⟩ := mapM_append_eq_ok_iff.1 hrest'
  rw [hb] at hb'
  rw [ha] at ha'
  cases hb'
  cases ha'
  exact ⟨before, z, middle, after, hz, hm, rfl, rfl⟩

/-- What was read is what some item gave. -/
theorem mem_of_mapM {f : α → Except ε β} {xs : List α} {ys : List β} (h : xs.mapM f = .ok ys)
    {y : β} : y ∈ ys ↔ ∃ x ∈ xs, f x = .ok y := by
  have hm : Except.ok y ∈ xs.map f ↔ y ∈ ys := by
    rw [mapM_eq_ok_iff.1 h, List.mem_map]
    exact ⟨fun ⟨y', hy', e⟩ => by cases e; exact hy', fun hy => ⟨y, hy, rfl⟩⟩
  rw [← hm, List.mem_map]

/-- No item of a list that was read is faulty. -/
theorem exists_of_mapM {f : α → Except ε β} {xs : List α} {ys : List β} (h : xs.mapM f = .ok ys)
    {x : α} (hx : x ∈ xs) : ∃ y ∈ ys, f x = .ok y := by
  have hm : f x ∈ ys.map Except.ok := mapM_eq_ok_iff.1 h ▸ List.mem_map_of_mem hx
  obtain ⟨y, hy, e⟩ := List.mem_map.1 hm
  exact ⟨y, hy, e.symm⟩

/-- A list can be read iff each of its items can. -/
theorem exists_mapM_eq_ok_iff {f : α → Except ε β} {xs : List α} :
    (∃ ys, xs.mapM f = .ok ys) ↔ ∀ x ∈ xs, ∃ y, f x = .ok y := by
  constructor
  · rintro ⟨ys, h⟩ x hx
    obtain ⟨y, _, hy⟩ := exists_of_mapM h hx
    exact ⟨y, hy⟩
  · intro h
    induction xs with
    | nil => exact ⟨[], rfl⟩
    | cons x xs ih =>
      obtain ⟨hx, hxs⟩ := List.forall_mem_cons.1 h
      obtain ⟨y, hy⟩ := hx
      obtain ⟨ys, hys⟩ := ih hxs
      exact ⟨y :: ys, mapM_eq_ok_iff.2 (by rw [List.map_cons, List.map_cons, hy, mapM_eq_ok_iff.1 hys])⟩

/-- What a reading keeps of every item, it keeps of the list. -/
theorem map_eq_of_mapM {κ : Type} {f : α → Except ε β} {p : α → κ} {q : β → κ} {xs : List α}
    {ys : List β} (hf : ∀ x ∈ xs, ∀ y, f x = .ok y → q y = p x) (h : xs.mapM f = .ok ys) :
    ys.map q = xs.map p := by
  rw [mapM_eq_ok_iff] at h
  induction xs generalizing ys with
  | nil =>
    cases ys with
    | nil => rfl
    | cons y ys => cases h
  | cons x xs ih =>
    obtain ⟨hx, hxs⟩ := List.forall_mem_cons.1 hf
    cases ys with
    | nil => cases h
    | cons y ys =>
      rw [List.map_cons, List.map_cons, List.cons.injEq] at h
      rw [List.map_cons, List.map_cons, hx y h.1, ih hxs h.2]

theorem eq_map_of_mapM {f : α → Except ε β} {g : α → β} {xs : List α} {ys : List β}
    (hf : ∀ x ∈ xs, ∀ y, f x = .ok y → y = g x) (h : xs.mapM f = .ok ys) : ys = xs.map g := by
  have hmap : ys.map id = xs.map g := map_eq_of_mapM hf h
  rw [List.map_id] at hmap
  exact hmap

/-- Items of one kind are read on their own: they give what is selected of all that is read. -/
theorem mapM_filter_of_mapM {f : α → Except ε β} {g : α → Except ε γ} {p : α → Bool}
    {sel : β → Option γ} {xs : List α} {ys : List β}
    (hp : ∀ x y, f x = .ok y → p x = true → ∃ c, g x = .ok c ∧ sel y = some c)
    (hn : ∀ x y, f x = .ok y → p x = false → sel y = none) (h : xs.mapM f = .ok ys) :
    (xs.filter p).mapM g = .ok (ys.filterMap sel) := by
  rw [mapM_eq_ok_iff] at h ⊢
  induction xs generalizing ys with
  | nil =>
    cases ys with
    | nil => rfl
    | cons y ys => cases h
  | cons x xs ih =>
    cases ys with
    | nil => cases h
    | cons y ys =>
      rw [List.map_cons, List.map_cons, List.cons.injEq] at h
      cases hx : p x with
      | true =>
        obtain ⟨c, hg, hs⟩ := hp x y h.1 hx
        rw [List.filter_cons_of_pos hx, List.filterMap_cons_some hs, List.map_cons, List.map_cons,
          hg, ih h.2]
      | false =>
        have hx' : ¬ p x = true := by simp [hx]
        rw [List.filter_cons_of_neg hx', List.filterMap_cons_none (hn x y h.1 hx), ih h.2]

/-- A reading that has an inverse reads what the inverse writes. -/
theorem mapM_eq_ok_of_inverse {f : α → Except ε β} {g : β → α}
    (hf : ∀ x y, f x = .ok y ↔ x = g y) {xs : List α} {ys : List β} :
    xs.mapM f = .ok ys ↔ xs = ys.map g := by
  rw [mapM_eq_ok_iff]
  induction xs generalizing ys with
  | nil => cases ys <;> simp
  | cons x xs ih =>
    cases ys with
    | nil => simp
    | cons y ys => rw [List.map_cons, List.map_cons, List.map_cons, List.cons.injEq,
        List.cons.injEq, ih, hf]

/-- A reading that checks its argument checks every item. -/
theorem mapM_eq_ok_of_checked {f : α → Except ε β} {P : α → Prop} {g : α → β}
    (hf : ∀ x y, f x = .ok y ↔ P x ∧ y = g x) {xs : List α} {ys : List β} :
    xs.mapM f = .ok ys ↔ (∀ x ∈ xs, P x) ∧ ys = xs.map g := by
  rw [mapM_eq_ok_iff]
  induction xs generalizing ys with
  | nil => cases ys <;> simp
  | cons x xs ih =>
    cases ys with
    | nil => simp
    | cons y ys =>
      rw [List.map_cons, List.map_cons, List.map_cons, List.cons.injEq, List.cons.injEq, ih, hf,
        List.forall_mem_cons]
      exact ⟨fun ⟨⟨hx, hy⟩, hxs, hys⟩ => ⟨⟨hx, hxs⟩, hy, hys⟩,
        fun ⟨⟨hx, hxs⟩, hy, hys⟩ => ⟨⟨hx, hy⟩, hxs, hys⟩⟩

/-- Reading item by item, and taking in each at once, is reading all and then taking them in. -/
theorem foldlM_map_eq (f : α → Except ε β) (g : γ → β → γ) (xs : List α) (c : γ) :
    xs.foldlM (fun c x => g c <$> f x) c = (fun ys => ys.foldl g c) <$> xs.mapM f := by
  induction xs generalizing c with
  | nil => rfl
  | cons x xs ih =>
    rw [List.foldlM_cons, List.mapM_cons]
    cases hx : f x with
    | error e => rfl
    | ok y =>
      show xs.foldlM (fun c x => g c <$> f x) (g c y) = _
      rw [ih]
      cases xs.mapM f <;> rfl

/-- A list passes a check iff each item does. -/
theorem forM_eq_ok_iff {f : α → Except ε Unit} {xs : List α} :
    xs.forM f = .ok () ↔ ∀ x ∈ xs, f x = .ok () := by
  induction xs with
  | nil => exact ⟨(fun _ x hx => by cases hx), fun _ => rfl⟩
  | cons x xs ih =>
    show (f x >>= fun _ => xs.forM f) = .ok () ↔ _
    rw [check_bind_eq_ok, List.forall_mem_cons, ih]

/-- A list fails a check with the failure of one of its items. -/
theorem exists_of_forM_eq_error {f : α → Except ε Unit} {xs : List α} {e : ε}
    (h : xs.forM f = .error e) : ∃ x ∈ xs, f x = .error e := by
  induction xs with
  | nil => cases h
  | cons x xs ih =>
    have h : (f x >>= fun _ => xs.forM f) = .error e := h
    rcases bind_eq_error h with hx | ⟨_, hxs⟩
    · exact ⟨x, List.mem_cons_self, hx⟩
    · obtain ⟨y, hy, hf⟩ := ih hxs
      exact ⟨y, List.mem_cons_of_mem x hy, hf⟩

/-! ## Maps -/

variable {κ ν : Type} [DecidableEq κ]

theorem Entries.alter_of_not_mem {k : κ} {f : Option ν → ν} {es : List (κ × ν)}
    (h : k ∉ es.map Prod.fst) : alter k f es = es ++ [(k, f none)] := by
  induction es with
  | nil => rfl
  | cons e es ih =>
    obtain ⟨k', v⟩ := e
    rw [List.map_cons, List.mem_cons, not_or] at h
    unfold alter
    rw [if_neg (Ne.symm h.1), ih h.2]
    rfl

theorem Entries.mem_of_mem_put {k : κ} {v : ν} {es : List (κ × ν)} {e : κ × ν}
    (h : e ∈ put k v es) : e.2 = v ∨ e ∈ es := by
  induction es with
  | nil =>
    rw [List.mem_singleton.1 h]
    exact Or.inl rfl
  | cons d es ih =>
    obtain ⟨k', v'⟩ := d
    have h : e ∈ (if k' = k then (k', v) :: es else (k', v') :: put k v es) := h
    split at h
    · rcases List.mem_cons.1 h with rfl | h
      · exact Or.inl rfl
      · exact Or.inr (List.mem_cons_of_mem _ h)
    · rcases List.mem_cons.1 h with rfl | h
      · exact Or.inr List.mem_cons_self
      · exact (ih h).imp_right (List.mem_cons_of_mem _)

/-- Altering entries with new keys appends them. -/
theorem OrderedMap.entries_foldl_alter {f : κ × β → Option ν → ν} {es : List (κ × β)} :
    ∀ {m : OrderedMap κ ν}, (m.keys ++ es.map Prod.fst).Nodup →
      (es.foldl (fun m e => m.alter e.1 (f e)) m).entries =
        m.entries ++ es.map fun e => (e.1, f e none) := by
  induction es with
  | nil => intro m _; exact (List.append_nil _).symm
  | cons e es ih =>
    intro m nd
    have hk : e.1 ∉ m.keys := by
      intro hm
      exact (List.nodup_append.1 nd).2.2 _ hm _ (by simp) rfl
    have he : (m.alter e.1 (f e)).entries = m.entries ++ [(e.1, f e none)] := by
      rw [entries_alter, Entries.alter_of_not_mem hk]
    have hkeys : (m.alter e.1 (f e)).keys = m.keys ++ [e.1] := by
      rw [keys_alter, if_neg hk]
    rw [List.foldl_cons, ih, he]
    · simp
    · rw [hkeys]
      simpa using nd

/-- Assigning entries with new keys appends them. -/
theorem OrderedMap.entries_foldl_insert {es : List (κ × ν)} {m : OrderedMap κ ν}
    (nd : (m.keys ++ es.map Prod.fst).Nodup) :
    (es.foldl (fun m e => m.insert e.1 e.2) m).entries = m.entries ++ es := by
  have h := entries_foldl_alter (f := fun e _ => e.2) nd
  rw [List.map_id''] at h
  · exact h
  · exact fun e => rfl

/-- Altering brings in the keys that are altered. -/
theorem OrderedMap.mem_keys_foldl_alter {f : κ × β → Option ν → ν} {es : List (κ × β)}
    {m : OrderedMap κ ν} {k : κ} :
    k ∈ (es.foldl (fun m e => m.alter e.1 (f e)) m).keys ↔ k ∈ es.map Prod.fst ∨ k ∈ m.keys := by
  induction es generalizing m with
  | nil => simp
  | cons e es ih =>
    rw [List.foldl_cons, ih, mem_keys_alter, List.map_cons, List.mem_cons, ← or_assoc,
      or_comm (a := k ∈ es.map Prod.fst)]

/-- Assigning brings in no entry but those assigned. -/
theorem OrderedMap.mem_of_mem_foldl_insert {es : List (κ × ν)} {m : OrderedMap κ ν} {e : κ × ν}
    (h : e ∈ (es.foldl (fun m e => m.insert e.1 e.2) m).entries) : e ∈ m.entries ∨ e ∈ es := by
  induction es generalizing m with
  | nil => exact Or.inl h
  | cons d es ih =>
    rcases ih h with h | h
    · obtain ⟨k, v⟩ := e
      rw [← get?_eq_some_iff, get?_insert] at h
      split at h
      · next hk =>
        cases h
        exact Or.inr (List.mem_cons.2 (Or.inl (Prod.ext hk rfl)))
      · exact Or.inl (get?_eq_some_iff.1 h)
    · exact Or.inr (List.mem_cons_of_mem _ h)

/-- Altering entries with distinct keys alters the value of each key once. -/
theorem OrderedMap.get?_foldl_alter {f : κ × β → Option ν → ν} {es : List (κ × β)}
    (nd : (es.map Prod.fst).Nodup) (m : OrderedMap κ ν) (k : κ) :
    (es.foldl (fun m e => m.alter e.1 (f e)) m).get? k =
      match Entries.get? k es with
      | some v => some (f (k, v) (m.get? k))
      | none => m.get? k := by
  induction es generalizing m with
  | nil => rfl
  | cons e es ih =>
    obtain ⟨k', v⟩ := e
    obtain ⟨hk', nd⟩ := List.nodup_cons.1 nd
    rw [List.foldl_cons, ih nd, get?_alter]
    by_cases hk : k = k'
    · subst hk
      rw [Entries.get?_eq_none_iff.2 hk', if_pos rfl]
      unfold Entries.get?
      rw [if_pos rfl]
    · rw [if_neg hk]
      have hg : Entries.get? k ((k', v) :: es) = Entries.get? k es := by
        show (if k' = k then some v else _) = _
        rw [if_neg (Ne.symm hk)]
      rw [hg]

end FieldAccess
