/-
  Wrapped instances: every access to a field passes the guard.

  1. **Checking** — the instance itself passes an access, refuses it, or leaves it to the guard.  Before
     it refuses anything but a reading, reading is checked, so that an unreadable field is reported as
     such.

  2. **Accesses** — reading, assigning, clearing and deleting the row check first and then do what the
     model does.  Assigning and clearing change the wrapper in place, and what they did to it before an
     error stays done.

  3. **Scopes** — an override scope adds overrides and takes back exactly the pairs that it added; an
     exposure scope sets the protection and restores what it was.

  Core only.
-/
import FieldAccess.Guard.Basic
import FieldAccess.Guard.Overrides

namespace FieldAccess

/-- An instance behind a guard. -/
structure Wrapper (R : Type) where
  subject : R
  isProtected : Bool
  allowed : Overrides := ∅
  denied : Overrides := ∅

/-- A change of a wrapper in place.  The errors stand over the wrapper and the surroundings, so that what
was done to both before an error stays done. -/
abbrev GuardedEdit (ω R α : Type) := ExceptT AccessError (StateT (Wrapper R) (StateM ω)) α

/-- An access in the middle of a change: it leaves the wrapper alone, and its error ends the change.  The
priority is low because `get` is to give the wrapper and not the surroundings. -/
instance (priority := low) {ω R : Type} : MonadLift (Access ω) (GuardedEdit ω R) where
  monadLift x := ExceptT.mk (StateT.lift x.run)

/-! ## Overrides and scopes -/

/-- What an override does. -/
inductive Effect where
  | allow
  | deny
deriving DecidableEq, Inhabited

/-- A scope: for its duration it overrides accesses or sets the protection. -/
inductive WrapperScope where
  | override (kind : Effect) (actions : List Action) (fields : FieldSet)
  | exposure (isProtected : Bool)
deriving DecidableEq, Inhabited

/-- What the end of a scope has to undo. -/
inductive Undo where
  | override (kind : Effect) (added : List (Action × String))
  | exposure (previous : Bool)
deriving DecidableEq, Inhabited

namespace Wrapper

variable {R : Type}

/-- The overrides of a kind. -/
def overrides (w : Wrapper R) : Effect → Overrides
  | .allow => w.allowed
  | .deny => w.denied

/-- Replaces the overrides of a kind. -/
def setOverrides (w : Wrapper R) : Effect → Overrides → Wrapper R
  | .allow, o => { w with allowed := o }
  | .deny, o => { w with denied := o }

/-- Adds overrides for good. -/
def override (w : Wrapper R) (kind : Effect) (actions : List Action) (fields : FieldSet) :
    Wrapper R :=
  w.setOverrides kind ((w.overrides kind).add fields actions).1

/-- Opens a scope. -/
def enter (w : Wrapper R) : WrapperScope → Wrapper R × Undo
  | .override kind actions fields =>
    let (o, added) := (w.overrides kind).add fields actions
    (w.setOverrides kind o, .override kind added)
  | .exposure p => ({ w with isProtected := p }, .exposure w.isProtected)

/-- Ends a scope. -/
def leave (w : Wrapper R) : Undo → Wrapper R
  | .override kind added => w.setOverrides kind ((w.overrides kind).remove added)
  | .exposure previous => { w with isProtected := previous }

@[simp] theorem overrides_setOverrides_self (w : Wrapper R) (kind : Effect) (o : Overrides) :
    (w.setOverrides kind o).overrides kind = o := by cases kind <;> rfl

/-- Replacing the overrides of one kind leaves those of the other. -/
theorem overrides_setOverrides_ne (w : Wrapper R) {kind other : Effect} (h : other ≠ kind)
    (o : Overrides) : (w.setOverrides kind o).overrides other = w.overrides other := by
  cases kind <;> cases other <;> first | rfl | exact absurd rfl h

@[simp] theorem isProtected_setOverrides (w : Wrapper R) (kind : Effect) (o : Overrides) :
    (w.setOverrides kind o).isProtected = w.isProtected := by cases kind <;> rfl

@[simp] theorem subject_setOverrides (w : Wrapper R) (kind : Effect) (o : Overrides) :
    (w.setOverrides kind o).subject = w.subject := by cases kind <;> rfl

/-! ## Checking -/

/-- What the instance itself says about an access. -/
inductive Ruling where
  /-- It passes without further question. -/
  | pass
  /-- It is refused. -/
  | refuse
  /-- The guard has to decide. -/
  | consult
deriving DecidableEq, Inhabited

/-- What the instance itself says about an access: everything passes while it is unprotected, and a
denied override outweighs an allowed one. -/
def ruling (w : Wrapper R) (a : Action) (field : String) : Ruling :=
  if !w.isProtected then .pass
  else if w.denied.cover a field then .refuse
  else if w.allowed.cover a field then .pass
  else .consult

theorem ruling_eq_pass_iff {w : Wrapper R} {a : Action} {field : String} :
    w.ruling a field = .pass ↔
      w.isProtected = false ∨ w.denied.cover a field = false ∧ w.allowed.cover a field = true := by
  unfold ruling
  cases w.isProtected <;> cases w.denied.cover a field <;> cases w.allowed.cover a field <;> simp

theorem ruling_eq_refuse_iff {w : Wrapper R} {a : Action} {field : String} :
    w.ruling a field = .refuse ↔ w.isProtected = true ∧ w.denied.cover a field = true := by
  unfold ruling
  cases w.isProtected <;> cases w.denied.cover a field <;> cases w.allowed.cover a field <;> simp

theorem ruling_eq_consult_iff {w : Wrapper R} {a : Action} {field : String} :
    w.ruling a field = .consult ↔
      w.isProtected = true ∧ w.denied.cover a field = false ∧ w.allowed.cover a field = false := by
  unfold ruling
  cases w.isProtected <;> cases w.denied.cover a field <;> cases w.allowed.cover a field <;> simp

/-- The protection and the pairs of both kinds of overrides are all that a ruling depends on. -/
theorem ruling_congr {w w' : Wrapper R} (hp : w'.isProtected = w.isProtected)
    (he : ∀ kind p, p ∈ (w'.overrides kind).pairs ↔ p ∈ (w.overrides kind).pairs) (a : Action)
    (field : String) : w'.ruling a field = w.ruling a field := by
  have hd : w'.denied.cover a field = w.denied.cover a field :=
    Overrides.cover_congr (he .deny) a field
  have ha : w'.allowed.cover a field = w.allowed.cover a field :=
    Overrides.cover_congr (he .allow) a field
  unfold ruling
  rw [hp, hd, ha]

variable {ω A : Type} [Resource R]

/-- Checks one access; `beforeRefusal` runs before the instance refuses. -/
def checkWith (g : Guard ω A R) (w : Wrapper R) (beforeRefusal : Access ω Unit) (a : Action)
    (field : String) : Access ω Unit :=
  match w.ruling a field with
  | .pass => pure ()
  | .refuse => do
    beforeRefusal
    throw (.forbidden (g.denial w.subject a field))
  | .consult => do
    let actor ← g.currentActor
    let _ ← g.authorize actor w.subject a field

/-- Checks reading a field. -/
def checkRead (g : Guard ω A R) (w : Wrapper R) (field : String) : Access ω Unit :=
  w.checkWith g (pure ()) .read field

/-- Checks one access without performing it. -/
def check (g : Guard ω A R) (w : Wrapper R) (a : Action) (field : String) : Access ω Unit :=
  w.checkWith g (if a = .read then pure () else w.checkRead g field) a field

/-- Whether an access would be allowed. -/
def can (g : Guard ω A R) (w : Wrapper R) (a : Action) (field : String) : StateM ω Bool := do
  match ← (w.check g a field).run with
  | .ok _ => return true
  | .error _ => return false

/-! ## Accesses -/

/-- The error of a field fault on the instance. -/
def fieldError (w : Wrapper R) (field : String) (fault : FieldFault) : AccessError :=
  .field (Modelled.modelName w.subject) field fault

/-- Reads a field. -/
def read (g : Guard ω A R) (w : Wrapper R) (field : String) : Access ω Json := do
  w.check g .read field
  match Resource.readField w.subject field with
  | some v => return v
  | none => throw (w.fieldError field .noSuchField)

/-- Changes the instance; a fault of the model becomes an error. -/
def edit (field : String) (e : Edit R Unit) : GuardedEdit ω R Unit := do
  let w ← get
  let (outcome, subject) := e.run.run w.subject
  set { w with subject }
  outcome.mapError (w.fieldError field)

/-- Assigns a field. -/
def write (g : Guard ω A R) (field : String) (v : Json) : GuardedEdit ω R Unit := do
  (← get).check g .update field
  edit field (Resource.writeField field v)

/-- Clears a field. -/
def clear (g : Guard ω A R) (field : String) : GuardedEdit ω R Unit := do
  (← get).check g .delete field
  edit field (Resource.clearField field)

/-- Hands the instance over for the removal of its row. -/
def deleteRow (g : Guard ω A R) (w : Wrapper R) : Access ω R := do
  w.check g .delete wildcard
  return w.subject

/-! ## Questions -/

/-- The roles of the current actor on the instance. -/
def roles (g : Guard ω A R) (w : Wrapper R) : StateM ω RoleSet := do
  return g.roles (← g.currentActor) w.subject

/-- The fields that the model's table grants a role. -/
def authorizedFieldsFor (w : Wrapper R) (r : Role) (a : Action) : FieldSet :=
  (Modelled.permissions w.subject).authorizedFields r a

/-- The fields of a list on which an action is allowed. -/
def allowedAmong (g : Guard ω A R) (w : Wrapper R) (a : Action) : List String → StateM ω (List String)
  | [] => return []
  | f :: fs => do
    let ok ← w.can g a f
    let rest ← w.allowedAmong g a fs
    return if ok then f :: rest else rest

/-- The fields of the instance on which an action is allowed. -/
def authorizedFields (g : Guard ω A R) (w : Wrapper R) (a : Action) : StateM ω (List String) :=
  w.allowedAmong g a (Resource.fieldNames w.subject)

end Wrapper

/-! ## Wrapping -/

namespace Guard

variable {ω A R : Type} [Resource R]

/-- Puts an existing instance behind the guard. -/
def wrap (g : Guard ω A R) (r : R) : Wrapper R :=
  { subject := r, isProtected := g.settings.protectedByDefault }

/-- Puts a new instance behind the guard, after checking the fields that were provided for it if the
options say so. -/
def create (g : Guard ω A R) (r : R) (provided : List String) (options : CreationOptions) :
    Access ω (Wrapper R) := do
  if options.checkCreate then
    let actor ← g.currentActor
    g.authorizeAll actor r .create provided
  return { subject := r, isProtected := options.isProtected }

end Guard

end FieldAccess
