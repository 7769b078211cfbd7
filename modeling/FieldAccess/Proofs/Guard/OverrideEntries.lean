/-
  The entries of overrides, in order.

  1. **Order** — adding fields for an action never moves a pair that is there, and taking one out never
     moves another: the pairs before an addition are a sublist of those after it, and the pairs after a
     removal a sublist of those before it.

  2. **Closed forms** — no pair occurs twice, so a sublist is fixed by its members.  With what
     `Overrides` says about membership, removing is filtering (`pairs_remove`), and dropping the pairs
     that an addition reports gives back the pairs before it (`pairs_filter_added`).

  Core only.
-/
import FieldAccess.Guard.Overrides

namespace FieldAccess

/-! ## Sublists without repetitions -/

/-- A sublist of a list without repetitions is what a test for its members keeps. -/
theorem eq_filter_of_sublist {α : Type} {p : α → Bool} {ks ls : List α} (h : ks.Sublist ls)
    (nd : ls.Nodup) (hp : ∀ x ∈ ls, p x = true ↔ x ∈ ks) : ks = ls.filter p := by
  induction h with
  | slnil => rfl
  | @cons ks ls a h ih =>
    obtain ⟨ha, nd'⟩ := List.nodup_cons.1 nd
    have hpa : ¬ p a = true := fun h' => ha (h.subset ((hp a List.mem_cons_self).1 h'))
    rw [List.filter_cons_of_neg hpa]
    exact ih nd' fun x hx => hp x (List.mem_cons_of_mem a hx)
  | @cons_cons ks ls a h ih =>
    obtain ⟨ha, nd'⟩ := List.nodup_cons.1 nd
    rw [List.filter_cons_of_pos ((hp a List.mem_cons_self).2 List.mem_cons_self)]
    have hps : ∀ x ∈ ls, p x = true ↔ x ∈ ks := by
      intro x hx
      rw [hp x (List.mem_cons_of_mem a hx), List.mem_cons]
      exact or_iff_right fun e => ha (e ▸ hx)
    exact congrArg _ (ih nd' hps)

/-- A sublist gives a sublist of what the list gives element by element. -/
theorem flatMap_sublist {α β : Type} (g : α → List β) {ks ls : List α} (h : ks.Sublist ls) :
    (ks.flatMap g).Sublist (ls.flatMap g) := by
  induction h with
  | slnil => exact List.Sublist.refl _
  | cons a _ ih => exact ih.trans (List.sublist_append_right (g a) _)
  | cons_cons a _ ih => exact (List.Sublist.refl (g a)).append ih

theorem OrderedSet.sublist_extend {α : Type} [DecidableEq α] (s : OrderedSet α) (as : List α) :
    s.toList.Sublist (s.extend as).toList := by
  induction as generalizing s with
  | nil => exact List.Sublist.refl _
  | cons a as ih =>
    refine List.Sublist.trans ?_ (ih (s.insert a))
    rw [toList_insert]
    split
    · exact List.Sublist.refl _
    · exact List.sublist_append_left _ _

/-! ## Lists of entries -/

namespace Entries

variable {κ ν μ : Type} [DecidableEq κ]

/-- What the entries list together grows if what the changed entry lists grows. -/
theorem flatMap_sublist_alter (g : κ × ν → List μ) (k : κ) (f : Option ν → ν)
    (h : ∀ v, (g (k, v)).Sublist (g (k, f (some v)))) (es : List (κ × ν)) :
    (es.flatMap g).Sublist ((alter k f es).flatMap g) := by
  induction es with
  | nil => exact List.nil_sublist _
  | cons e es ih =>
    obtain ⟨k', v⟩ := e
    unfold alter
    split
    · next hk =>
      subst hk
      exact (h v).append (List.Sublist.refl _)
    · exact (List.Sublist.refl _).append ih

/-- What the entries list together shrinks if what the changed entry lists shrinks. -/
theorem flatMap_alter_sublist (g : κ × ν → List μ) (k : κ) (f : Option ν → ν) {es : List (κ × ν)}
    (hk : k ∈ es.map Prod.fst)
    (h : ∀ v, (k, v) ∈ es → (g (k, f (some v))).Sublist (g (k, v))) :
    ((alter k f es).flatMap g).Sublist (es.flatMap g) := by
  induction es with
  | nil => cases hk
  | cons e es ih =>
    obtain ⟨k', v⟩ := e
    unfold alter
    split
    · next hk =>
      subst hk
      exact (h v List.mem_cons_self).append (List.Sublist.refl _)
    · next hne =>
      have hk' : k ∈ es.map Prod.fst := by
        rcases List.mem_cons.1 hk with h' | h'
        · exact absurd h'.symm hne
        · exact h'
      exact (List.Sublist.refl _).append (ih hk' fun v' hv => h v' (List.mem_cons_of_mem _ hv))

end Entries

/-! ## Pairs -/

namespace Overrides

/-- No pair occurs twice. -/
theorem nodup_pairs (o : Overrides) : o.pairs.Nodup := by
  have aux : ∀ es : List (Action × FieldSet), (es.map Prod.fst).Nodup →
      (es.flatMap fun e => e.2.toList.map fun f => (e.1, f)).Nodup := by
    intro es nd
    induction es with
    | nil => exact List.nodup_nil
    | cons e es ih =>
      obtain ⟨hk, nd'⟩ := List.nodup_cons.1 nd
      rw [List.flatMap_cons, List.nodup_append]
      refine ⟨?_, ih nd', ?_⟩
      · refine List.Pairwise.map _ (fun x y hxy e => hxy ?_) e.2.nodup
        exact (Prod.mk.inj e).2
      · intro p hp q hq hpq
        obtain ⟨f, -, rfl⟩ := List.mem_map.1 hp
        obtain ⟨e', he', hq⟩ := List.mem_flatMap.1 hq
        obtain ⟨f', -, rfl⟩ := List.mem_map.1 hq
        exact hk (List.mem_map.2 ⟨e', he', (Prod.mk.inj hpq).1.symm⟩)
  exact aux o.entries o.nodup_keys

/-- Adding keeps the pairs that are there in their order. -/
theorem sublist_add (fields : FieldSet) (as : List Action) :
    ∀ o : Overrides, o.pairs.Sublist (o.add fields as).1.pairs := by
  induction as with
  | nil => exact fun o => List.Sublist.refl _
  | cons a as ih =>
    intro o
    have h1 : o.pairs.Sublist (o.addAction fields a).pairs :=
      Entries.flatMap_sublist_alter _ a _
        (fun v => (OrderedSet.sublist_extend v fields.toList).map _) o.entries
    exact h1.trans (ih _)

/-- Taking out one pair keeps the others in their order. -/
theorem sublist_removePair (o : Overrides) (p : Action × String) :
    (o.removePair p).pairs.Sublist o.pairs := by
  unfold removePair OrderedMap.adjust
  cases hg : o.get? p.1 with
  | none => exact List.Sublist.refl _
  | some fs =>
    have hmem := OrderedMap.get?_eq_some_iff.1 hg
    dsimp only
    split
    · exact flatMap_sublist _ List.filter_sublist
    · next left hleft =>
      have hl : left = fs.erase p.2 := by
        split at hleft
        · cases hleft
        · exact (Option.some.inj hleft).symm
      refine Entries.flatMap_alter_sublist _ p.1 _ (List.mem_map.2 ⟨_, hmem, rfl⟩) ?_
      intro v hv
      have hvf : v = fs := by
        have := OrderedMap.get?_eq_some_iff.2 hv
        rw [hg] at this
        exact (Option.some.inj this).symm
      rw [hl, hvf]
      exact List.erase_sublist.map _

/-- Taking out pairs keeps the others in their order. -/
theorem sublist_remove (ps : List (Action × String)) :
    ∀ o : Overrides, (o.remove ps).pairs.Sublist o.pairs := by
  induction ps with
  | nil => exact fun o => List.Sublist.refl _
  | cons p ps ih => exact fun o => (ih (o.removePair p)).trans (sublist_removePair o p)

/-- **Removing is filtering.** -/
theorem pairs_remove (o : Overrides) (ps : List (Action × String)) :
    (o.remove ps).pairs = o.pairs.filter (· ∉ ps) := by
  refine eq_filter_of_sublist (sublist_remove ps o) (nodup_pairs o) fun x hx => ?_
  rw [decide_eq_true_iff, show x ∈ (o.remove ps).pairs ↔ _ from mem_pairs_remove]
  exact (and_iff_right hx).symm

/-- **Without the pairs that it reports, an addition changes nothing**, not even the order. -/
theorem pairs_filter_added (o : Overrides) (fields : FieldSet) (as : List Action) :
    (o.add fields as).1.pairs.filter (· ∉ (o.add fields as).2) = o.pairs := by
  refine (eq_filter_of_sublist (sublist_add fields as o) (nodup_pairs _) fun x hx => ?_).symm
  rw [decide_eq_true_iff, show x ∈ (o.add fields as).2 ↔ _ from mem_added]
  rcases mem_pairs_add.1 hx with h | h
  · simp [h]
  · simp [h]

end Overrides

end FieldAccess
