/-
  What the calls on a wrapped instance answer, and what they do to the wrapper.

  1. **Unguarded calls** — `unguardedRead` and `unguarded` are what the model does by itself, with its
     faults as errors; none of these errors is a refusal.  An edit hands the wrapper back in any case,
     with the instance as the model left it.

  2. **Guarded calls** — a call checks first and then does the unguarded call (`run_write`,
     `run_clear`), so its answer is the answer of the check followed by that of the unguarded call
     (`answer_read` and its fellows).

  3. **Refusals** — `refusal` tells with which refusal an access ends.  A call ends with the refusal of
     its check and with no other; as long as the guard answers as an oracle, that refusal is known from
     the wrapper, the actor, the action and the field.

  Core only.
-/
import FieldAccess.Proofs.Collections.Traversal
import FieldAccess.Proofs.Guard.Decision
import FieldAccess.Proofs.Models.Changes

namespace FieldAccess

variable {ω A R : Type}

/-! ## Refusals -/

/-- The refusal with which a computation ends, if it ends with one. -/
def Access.refusal {α : Type} (x : Access ω α) (s : ω) : Option Denial :=
  match (x.run.run s).1 with
  | .error (.forbidden d) => some d
  | _ => none

theorem Access.refusal_eq_some_iff {α : Type} {x : Access ω α} {s : ω} {d : Denial} :
    x.refusal s = some d ↔ (x.run.run s).1 = .error (.forbidden d) := by
  unfold refusal
  split
  · next e h => rw [h]; simp
  · next h =>
    constructor
    · intro e; cases e
    · intro e; exact absurd e (h d)

/-- The answer of a computation followed by one that answers alike everywhere. -/
theorem Access.answer_bind {α : Type} (x : Access ω Unit) (k : Access ω α)
    {r : Except AccessError α} (hk : ∀ s, (k.run.run s).1 = r) (s : ω) :
    ((do x; k : Access ω α).run.run s).1 = ((x.run.run s).1 >>= fun _ => r) := by
  rw [ExceptT.run_bind, StateT.run_bind]
  -- an error ends both sides; otherwise `k` runs in what `x` made of the surroundings
  rcases x.run.run s with ⟨_ | _, s'⟩
  · rfl
  · exact hk s'

/-- What a change of the wrapper answers. -/
def GuardedEdit.answer {α : Type} (x : GuardedEdit ω R α) (w : Wrapper R) : Access ω α :=
  ExceptT.mk do return (← x.run.run w).1

namespace Wrapper

variable [Resource R]

/-! ## Unguarded calls -/

/-- What the model gives for a field. -/
def unguardedRead (w : Wrapper R) (f : String) : Except AccessError Json :=
  match Resource.readField w.subject f with
  | some v => .ok v
  | none => .error (w.fieldError f .noSuchField)

/-- What the model makes of an edit: its answer, and the wrapper around the instance as it is then. -/
def unguarded (w : Wrapper R) (f : String) (e : Edit R Unit) : Except AccessError Unit × Wrapper R :=
  ((e.run.run w.subject).1.mapError (w.fieldError f), { w with subject := (e.run.run w.subject).2 })

/-- A fault of the model is no refusal. -/
theorem unguardedRead_ne_forbidden (w : Wrapper R) (f : String) (d : Denial) :
    w.unguardedRead f ≠ .error (.forbidden d) := by
  unfold unguardedRead fieldError
  split <;> simp

theorem unguarded_ne_forbidden (w : Wrapper R) (f : String) (e : Edit R Unit) (d : Denial) :
    (w.unguarded f e).1 ≠ .error (.forbidden d) := by
  unfold unguarded
  cases (e.run.run w.subject).1 with
  | error fault => intro h; cases h
  | ok _ => intro h; cases h

/-! ## Guarded calls -/

theorem answer_read (g : Guard ω A R) (w : Wrapper R) (f : String) (s : ω) :
    ((w.read g f).run.run s).1 = ((w.checked g .read f s).1 >>= fun _ => w.unguardedRead f) := by
  apply Access.answer_bind
  intro s'
  unfold unguardedRead
  cases Resource.readField w.subject f <;> rfl

/-- What follows a check, which leaves the wrapper: nothing after an error, otherwise `x`. -/
def afterCheck (w : Wrapper R) (c : Except AccessError Unit)
    (x : Except AccessError Unit × Wrapper R) : Except AccessError Unit × Wrapper R :=
  match c with
  | .ok _ => x
  | .error e => (.error e, w)

omit [Resource R] in
theorem afterCheck_fst (w : Wrapper R) (c : Except AccessError Unit)
    (x : Except AccessError Unit × Wrapper R) : (w.afterCheck c x).1 = (c >>= fun _ => x.1) := by
  cases c <;> rfl

/-- The two ways in which an assignment ends after a check: the instance is changed, or the wrapper is
what it was, whether the check failed or the model. -/
theorem afterCheck_of_assigns {w : Wrapper R} {f : String} {v : Json} {e : Edit R Unit}
    (he : e.Assigns w.subject f v) (c : Except AccessError Unit) :
    (∃ r, w.afterCheck c (w.unguarded f e) = (.ok (), { w with subject := r }) ∧ c = .ok () ∧
        Resource.Changed w.subject f v r) ∨
      ∃ err, w.afterCheck c (w.unguarded f e) = (.error err, w) := by
  cases c with
  | error err => exact .inr ⟨err, rfl⟩
  | ok _ =>
    show (∃ r, w.unguarded f e = _ ∧ _) ∨ ∃ err, w.unguarded f e = _
    obtain ⟨hchanged, hunchanged⟩ := he
    unfold unguarded
    rcases hx : e.run.run w.subject with ⟨fault | _, r⟩
    · rw [hx] at hunchanged
      obtain rfl := hunchanged rfl
      exact .inr ⟨_, rfl⟩
    · rw [hx] at hchanged
      exact .inl ⟨r, rfl, rfl, hchanged rfl⟩

theorem run_edit (w : Wrapper R) (f : String) (e : Edit R Unit) :
    (edit f e : GuardedEdit ω R Unit).run.run w = pure (w.unguarded f e) := rfl

/-- A check with an edit after it. -/
theorem run_checked_edit (g : Guard ω A R) (w : Wrapper R) (a : Action) (f : String)
    (e : Edit R Unit) :
    (do (← get).check g a f; edit f e : GuardedEdit ω R Unit).run.run w =
      (do return w.afterCheck (← (w.check g a f).run) (w.unguarded f e)) := by
  funext s
  show ((ExceptT.bindCont (fun _ => edit f e) (w.checked g a f s).1).run w).run (w.checked g a f s).2 =
    (w.afterCheck (w.checked g a f s).1 (w.unguarded f e), (w.checked g a f s).2)
  rcases w.checked g a f s with ⟨_ | _, s'⟩
  · rfl
  · exact congrFun (run_edit w f e) s'

theorem run_write (g : Guard ω A R) (w : Wrapper R) (f : String) (v : Json) :
    (write g f v).run.run w = (do
      return w.afterCheck (← (w.check g .update f).run) (w.unguarded f (Resource.writeField f v))) :=
  run_checked_edit g w .update f _

theorem run_clear (g : Guard ω A R) (w : Wrapper R) (f : String) :
    (clear g f).run.run w = (do
      return w.afterCheck (← (w.check g .delete f).run) (w.unguarded f (Resource.clearField f))) :=
  run_checked_edit g w .delete f _

theorem answer_of_run {g : Guard ω A R} {w : Wrapper R} {a : Action} {f : String}
    {x : GuardedEdit ω R Unit} {e : Edit R Unit}
    (hx : x.run.run w = (do return w.afterCheck (← (w.check g a f).run) (w.unguarded f e))) (s : ω) :
    ((x.answer w).run.run s).1 = ((w.checked g a f s).1 >>= fun _ => (w.unguarded f e).1) := by
  unfold GuardedEdit.answer
  rw [hx]
  exact afterCheck_fst w _ _

theorem answer_deleteRow (g : Guard ω A R) (w : Wrapper R) (s : ω) :
    ((w.deleteRow g).run.run s).1 =
      ((w.checked g .delete wildcard s).1 >>= fun _ => .ok w.subject) :=
  Access.answer_bind _ _ (fun _ => rfl) s

/-! ## Refusals of calls -/

/-- What follows a check adds no refusal, if it answers as a call that is none. -/
theorem refusal_of_answer {α : Type} {x : Access ω α} {g : Guard ω A R} {w : Wrapper R} {a : Action}
    {f : String} {s : ω} {raw : Except AccessError α}
    (hx : (x.run.run s).1 = ((w.checked g a f s).1 >>= fun _ => raw))
    (hraw : ∀ d, raw ≠ .error (.forbidden d)) : x.refusal s = (w.check g a f).refusal s := by
  apply Option.ext
  intro d
  rw [Access.refusal_eq_some_iff, Access.refusal_eq_some_iff, hx]
  show (_ >>= fun _ => raw) = _ ↔ (w.checked g a f s).1 = _
  rcases (w.checked g a f s).1 with e | u
  · show Except.error e = _ ↔ Except.error e = _
    simp
  · constructor
    · intro h; exact absurd h (hraw d)
    · intro h; cases h

theorem refusal_read (g : Guard ω A R) (w : Wrapper R) (f : String) (s : ω) :
    (w.read g f).refusal s = (w.check g .read f).refusal s :=
  refusal_of_answer (answer_read g w f s) (w.unguardedRead_ne_forbidden f)

theorem refusal_write (g : Guard ω A R) (w : Wrapper R) (f : String) (v : Json) (s : ω) :
    ((write g f v).answer w).refusal s = (w.check g .update f).refusal s :=
  refusal_of_answer (answer_of_run (run_write g w f v) s) (w.unguarded_ne_forbidden f _)

theorem refusal_clear (g : Guard ω A R) (w : Wrapper R) (f : String) (s : ω) :
    ((clear g f).answer w).refusal s = (w.check g .delete f).refusal s :=
  refusal_of_answer (answer_of_run (run_clear g w f) s) (w.unguarded_ne_forbidden f _)

theorem refusal_deleteRow (g : Guard ω A R) (w : Wrapper R) (s : ω) :
    (w.deleteRow g).refusal s = (w.check g .delete wildcard).refusal s :=
  refusal_of_answer (answer_deleteRow g w s) (by intro d h; cases h)

/-- As long as the guard answers as an oracle, a check refuses what does not pass. -/
theorem refusal_check {g : Guard ω A R} {o : Oracle A R} {who : Option A} {K : ω → Prop}
    (h : g.Answers o who K) (w : Wrapper R) (a : Action) (f : String) {s : ω} (hs : K s) :
    (w.check g a f).refusal s =
      if w.passes o who a f then none
        else some (g.denial w.subject (w.blamed o who a f) f) := by
  have hc := (answers_check (w := w) (a := a) (f := f) h hs).1
  unfold Access.refusal
  rw [show ((w.check g a f).run.run s).1 = _ from hc]
  cases w.passes o who a f <;> rfl

end Wrapper

end FieldAccess
