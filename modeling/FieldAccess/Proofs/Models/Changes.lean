/-
  What an edit of one field leaves of an instance.

  1. **Changes** — `Resource.Changed r f v r'` says that `r'` is `r` with the value `v` in the field
     `f`: that field reads as the value, every other field as before, and the names of the fields, the
     model and its table are the same.

  2. **Assignments** — an edit gives the instance back in any case.  `Edit.Assigns` says how: changed, if
     the edit ends well, and as it was, if it ends with a fault.  There is one rule for each way to
     write an edit.

  3. **Lawful resources** — a resource is lawful if writing assigns the value and clearing assigns
     `null`.  Users and records are lawful, arm by arm: no arm assigns anything before it fails.

  Core only.
-/
import FieldAccess.Models.Record
import FieldAccess.Models.User
import FieldAccess.Proofs.Collections.Traversal

namespace FieldAccess

/-! ## Changes -/

/-- An instance differs from another by the value of one field. -/
structure Resource.Changed {R : Type} [Resource R] (r : R) (f : String) (v : Json) (r' : R) :
    Prop where
  value : readField r' f = some v
  others : ∀ f', f' ≠ f → readField r' f' = readField r f'
  names : fieldNames r' = fieldNames r
  model : Modelled.modelName r' = Modelled.modelName r
  table : Modelled.permissions r' = Modelled.permissions r

/-! ## Assignments -/

/-- On an instance, the edit puts a value in a field, or fails and leaves the instance as it was. -/
structure Edit.Assigns {R : Type} [Resource R] (e : Edit R Unit) (r : R) (f : String) (v : Json) :
    Prop where
  changed : (e.run.run r).1.isOk = true → Resource.Changed r f v (e.run.run r).2
  unchanged : (e.run.run r).1.isOk = false → (e.run.run r).2 = r

/-- Writing and clearing assign the field that they name. -/
class Resource.Lawful (R : Type) [Resource R] : Prop where
  assigns_write (r : R) (f : String) (v : Json) : (writeField f v : Edit R Unit).Assigns r f v
  assigns_clear (r : R) (f : String) : (clearField f : Edit R Unit).Assigns r f .null

namespace Edit.Assigns

variable {R α : Type} [Resource R] {r : R} {f : String} {v : Json}

/-- A fault assigns nothing. -/
theorem throwing (fault : FieldFault) : Assigns (throw fault : Edit R Unit) r f v where
  changed h := Bool.noConfusion h
  unchanged _ := rfl

theorem modifying {change : R → R} (h : Resource.Changed r f v (change r)) :
    Assigns (modify change : Edit R Unit) r f v where
  changed _ := h
  unchanged h := Bool.noConfusion h

/-- Looking at the instance first leaves it. -/
theorem looking {k : R → Edit R Unit} (h : (k r).Assigns r f v) :
    Assigns (do k (← get) : Edit R Unit) r f v where
  changed := h.changed
  unchanged := h.unchanged

/-- Reading the value first ends with the fault of the reading, or goes on. -/
theorem reading {x : Except FieldFault α} {k : α → Edit R Unit}
    (h : ∀ a, x = .ok a → (k a).Assigns r f v) : Assigns (do k (← x) : Edit R Unit) r f v := by
  cases x with
  | error fault => exact throwing fault
  | ok a => exact ⟨(h a rfl).changed, (h a rfl).unchanged⟩

end Edit.Assigns

open Resource

/-! ## Records -/

namespace Record

theorem assigns_setField (r : Record) (f : String) (v : Json) : (setField f v).Assigns r f v := by
  refine .looking ?_
  split
  · next hc =>
    have hk : f ∈ r.values.keys := OrderedMap.contains_iff.1 hc
    refine .modifying ⟨?_, ?_, ?_, rfl, rfl⟩
    · show (r.values.insert f v).get? f = some v
      rw [OrderedMap.get?_insert, if_pos rfl]
    · intro f' hf
      show (r.values.insert f v).get? f' = r.values.get? f'
      rw [OrderedMap.get?_insert, if_neg hf]
    · show (r.values.insert f v).keys = r.values.keys
      exact (OrderedMap.keys_alter _ _ _).trans (if_pos hk)
  · exact .throwing _

instance : Lawful Record where
  assigns_write := assigns_setField
  assigns_clear r f := assigns_setField r f .null

end Record

/-! ## Users -/

namespace User

theorem stringOf_eq_ok_iff {v : Json} {s : String} : stringOf v = .ok s ↔ v = .string s := by
  cases v <;> simp [stringOf]

theorem optionalStringOf_eq_ok_iff {v : Json} {o : Option String} :
    optionalStringOf v = .ok o ↔ v = o.elim .null .string := by
  cases v <;> cases o <;> simp [optionalStringOf, stringOf, Except.map]

/-- The three fields have different names, so that a change of one of them is seen under its name
only. -/
theorem changed_of_fields {u u' : User} {f : String} {v : Json} (hv : u'.field? f = some v)
    (hid : f ≠ "id" → u'.id = u.id) (hname : f ≠ "username" → u'.username = u.username)
    (hfull : f ≠ "fullname" → u'.fullname = u.fullname) : Changed u f v u' := by
  refine ⟨hv, ?_, rfl, rfl, rfl⟩
  intro f' hf
  -- whichever field `f'` is, it is not `f`, so that the hypothesis about it applies
  show u'.field? f' = u.field? f'
  unfold field?
  by_cases h1 : f' = "id"
  · subst h1
    rw [if_pos rfl, if_pos rfl, hid (Ne.symm hf)]
  · rw [if_neg h1, if_neg h1]
    by_cases h2 : f' = "username"
    · subst h2
      rw [if_pos rfl, if_pos rfl, hname (Ne.symm hf)]
    · rw [if_neg h2, if_neg h2]
      by_cases h3 : f' = "fullname"
      · subst h3
        rw [if_pos rfl, if_pos rfl, hfull (Ne.symm hf)]
      · rw [if_neg h3, if_neg h3]

theorem assigns_setField (u : User) (f : String) (v : Json) : (setField f v).Assigns u f v := by
  unfold setField
  split
  · next hf =>
    subst hf
    refine .reading fun s hs => .modifying ?_
    rw [stringOf_eq_ok_iff.1 hs]
    exact changed_of_fields rfl (fun hn => absurd rfl hn) (fun _ => rfl) (fun _ => rfl)
  · split
    · next hf =>
      subst hf
      refine .reading fun s hs => .modifying ?_
      rw [stringOf_eq_ok_iff.1 hs]
      exact changed_of_fields rfl (fun _ => rfl) (fun hn => absurd rfl hn) (fun _ => rfl)
    · split
      · next hf =>
        subst hf
        refine .reading fun o ho => .modifying ?_
        rw [optionalStringOf_eq_ok_iff.1 ho]
        exact changed_of_fields rfl (fun _ => rfl) (fun _ => rfl) (fun hn => absurd rfl hn)
      · exact .throwing _

theorem assigns_clearField (u : User) (f : String) : (clearField f).Assigns u f .null := by
  unfold clearField
  split
  · next hf =>
    subst hf
    exact .modifying
      (changed_of_fields rfl (fun _ => rfl) (fun _ => rfl) (fun hn => absurd rfl hn))
  · split <;> exact .throwing _

instance : Lawful User where
  assigns_write := assigns_setField
  assigns_clear := assigns_clearField

end User

end FieldAccess
