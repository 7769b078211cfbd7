/-
  Sessions: several wrapped instances under names, and the surroundings in which they are used.

  1. **Surroundings** — the scopes in which actors act, an actor that can be replaced, and the audit
     trail.

  2. **Steps aside** — entering and leaving actor scopes, and questions to the guard itself.

  3. **Steps** — instances are wrapped or created under a name, used, and given up.  A new instance
     takes the place of the one that had its name, even if its creation is refused.

  Core only.
-/
import FieldAccess.Guard.Program
import FieldAccess.Actors.Scope

namespace FieldAccess

/-! ## Surroundings -/

/-- What a guard of actors `A` works in. -/
structure Surroundings (A : Type) where
  scopes : Actors.Register Unit (fun _ => A) := ∅
  /-- An actor that can be replaced. -/
  cell : Option A := none
  trail : AuditTrail := {}

namespace Surroundings

variable {A : Type}

/-- Puts another audit trail. -/
def setTrail (t : AuditTrail) (s : Surroundings A) : Surroundings A := { s with trail := t }

/-- Changes the audit trail. -/
def onTrail (f : AuditTrail → AuditTrail) (s : Surroundings A) : Surroundings A :=
  s.setTrail (f s.trail)

/-- The actor of the innermost scope. -/
def scopedActor (s : Surroundings A) : Option A := s.scopes.«stacks».current ()

end Surroundings

/-- Where a guard learns who is acting. -/
inductive ActorSource (A : Type) where
  /-- Always the same actor, or nobody. -/
  | fixed (actor : Option A)
  /-- The actor of the innermost scope. -/
  | innermost
  /-- The actor that can be replaced. -/
  | cell

/-- The actor that a source gives. -/
def ActorSource.current {A : Type} : ActorSource A → Surroundings A → Option A
  | fixed actor, _ => actor
  | innermost, s => s.scopedActor
  | cell, s => s.cell

/-! ## Steps aside -/

/-- Something that is done with the guard or its surroundings. -/
inductive Aside (A R : Type) where
  | enter (name : String) (actor : Option A)
  | leave (name : String)
  | become (actor : Option A)
  | counts
  | settings
  | authorize (subject : R) (actor : Option A) (action : Action) (field : String)
  | roles (subject : R) (actor : Option A)
  | showGuard
  /-- A step whose description is faulty. -/
  | invalid (error : AccessError)

/-- A guard in a session, and whether it keeps an audit trail. -/
structure SessionGuard (A R : Type) where
  guard : Guard (Surroundings A) A R
  isAudited : Bool

namespace SessionGuard

variable {A R : Type}

/-- A guard that decides by roles. -/
def byRoles [Modelled R] (held : HeldRoles A R) (source : ActorSource A)
    (settings : GuardSettings) : SessionGuard A R :=
  ⟨{ Guard.withRoles held source.current with settings }, false⟩

/-- A guard with an audited oracle, which may know about roles as well. -/
def byOracle (o : Oracle A R) (held : Option (HeldRoles A R)) (source : ActorSource A)
    (settings : GuardSettings) : SessionGuard A R :=
  ⟨{ Guard.audited o Surroundings.trail Surroundings.setTrail source.current with settings, held }, true⟩

variable [Resource R]

/-- Answers who is acting. -/
def whoActs (g : SessionGuard A R) : StateM (Surroundings A) (Reply A) := do
  return .ok (.actor (← g.guard.currentActor))

/-- Does one step aside. -/
def aside (g : SessionGuard A R) : Aside A R → StateM (Surroundings A) (Reply A)
  | .enter name actor => do
    modify fun s => { s with scopes := s.scopes.enter name () actor }
    g.whoActs
  | .leave name => do
    modify fun s => { s with scopes := s.scopes.leave name }
    g.whoActs
  | .become actor => do
    modify fun s => { s with cell := actor }
    g.whoActs
  | .counts => do
    let t := (← get).trail
    return .ok (.counts (if g.isAudited then some (t.evaluations, t.denials) else none))
  | .settings => return .ok (.settings g.guard.settings)
  | .authorize subject actor a field => do
    return (← (g.guard.authorize actor subject a field).run).map .verdict
  | .roles subject actor => return .ok (.names (g.guard.roles actor subject).toList)
  | .showGuard => return .ok (.text g.guard.shown)
  | .invalid e => return .error e

end SessionGuard

/-! ## Steps -/

/-- A step of a session. -/
inductive SessionStep (A R : Type) where
  | wrap (name : String) (subject : R)
  | create (name : String) (subject : R) (provided : List String) (choice : CreationChoice)
  | use (name : String) (program : Program (Aside A R))
  | deleteRow (name : String)
  | release (name : String)
  | aside (act : Aside A R)
  /-- A new instance whose description is faulty. -/
  | invalid (name : String) (error : AccessError)

/-- What a step of a session answers. -/
inductive SessionReply (A : Type) where
  | reply (r : Reply A)
  | transcript (t : Transcript A)
  /-- There is no instance of that name. -/
  | noInstance

/-- The wrapped instances of a session, by name. -/
abbrev Instances (R : Type) := OrderedMap String (Wrapper R)

namespace SessionGuard

variable {A R : Type} [Resource R]

/-- The fields of an instance with their values. -/
def row (r : R) : List (String × Json) :=
  (Resource.fieldNames r).map fun f => (f, (Resource.readField r f).getD .null)

/-- Keeps a new instance under its name. -/
def keep (name : String) (is : Instances R) (w : Wrapper R) : SessionReply A × Instances R :=
  (.reply (.ok (.truth w.isProtected)), is.insert name w)

/-- Does one step. -/
def step (g : SessionGuard A R) (is : Instances R) :
    SessionStep A R → StateM (Surroundings A) (SessionReply A × Instances R)
  | .wrap name r => return keep name (is.erase name) (g.guard.wrap r)
  | .create name r provided choice => do
    let is := is.erase name
    match ← (g.guard.create r provided (choice.options g.guard.settings)).run with
    | .ok w => return keep name is w
    | .error e => return (.reply (.error e), is)
  | .use name program =>
    match is.get? name with
    | none => return (.noInstance, is)
    | some w => do
      let (t, w) ← program.run g.guard g.aside w
      return (.transcript t, is.insert name w)
  | .deleteRow name =>
    match is.get? name with
    | none => return (.noInstance, is)
    | some w => do
      return (.reply ((← (w.deleteRow g.guard).run).map fun r => .row (row r)), is.erase name)
  | .release name =>
    match is.get? name with
    | none => return (.noInstance, is)
    | some w => return (.reply (.ok (.row (row w.subject))), is.erase name)
  | .aside act => do return (.reply (← g.aside act), is)
  | .invalid name e => return (.reply (.error e), is.erase name)

/-- Does some steps, one after the other. -/
def steps (g : SessionGuard A R) :
    Instances R → List (SessionStep A R) → StateM (Surroundings A) (List (SessionReply A))
  | _, [] => return []
  | is, s :: ss => do
    let (r, is) ← g.step is s
    return r :: (← g.steps is ss)

end SessionGuard

end FieldAccess
