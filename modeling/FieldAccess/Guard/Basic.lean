/-
  Guards: what stands between actors and the instances of a model.

  1. **Surroundings** — a guard works in surroundings of a type `ω`: it asks them who is acting, and
     its oracle may leave traces in them, such as an audit trail.

  2. **Access** — an access runs in the surroundings and ends with a value or an error; whatever an
     oracle recorded stays recorded after an error.

  3. **Decisions** — `authorize` consults the oracle and turns a denial into an error, which is hidden
     for reads if the settings say so.

  Core only.
-/
import FieldAccess.Guard.Resource
import FieldAccess.Guard.Settings
import FieldAccess.Oracle.Audit
import FieldAccess.Oracle.ByRole

namespace FieldAccess

/-- An access in surroundings `ω`, which ends with a value or an error. -/
abbrev Access (ω α : Type) := ExceptT AccessError (StateM ω) α

/-- Decides accesses of actors to instances. -/
structure Guard (ω A R : Type) where
  /-- Answers a request, possibly leaving a trace. -/
  consult : Request A R → StateM ω Verdict
  /-- Gives the roles of an actor, if the guard knows about roles. -/
  held : Option (HeldRoles A R)
  /-- Tells who is acting. -/
  actor : ω → Option A
  settings : GuardSettings := {}

namespace Guard

variable {ω A R : Type}

/-- A guard that asks an oracle, without traces. -/
def ofOracle (o : Oracle A R) (actor : ω → Option A) : Guard ω A R where
  consult q := pure (o q)
  held := none
  actor := actor

/-- A guard that decides by the roles an actor holds, without traces. -/
def withRoles [Modelled R] (held : HeldRoles A R) (actor : ω → Option A) : Guard ω A R :=
  { ofOracle (Oracle.byRoles held) actor with held := some held }

/-- A guard whose oracle is audited; the surroundings keep the audit trail, where `trail` finds it and
`keep` puts it. -/
def audited (o : Oracle A R) (trail : ω → AuditTrail) (keep : AuditTrail → ω → ω)
    (actor : ω → Option A) : Guard ω A R where
  consult q := do
    let (v, t) := (AuditTrail.audit o q).run (trail (← get))
    modify (keep t)
    return v
  held := none
  actor := actor

/-- Auditing does not change the answer. -/
theorem run_consult_audited (o : Oracle A R) (trail : ω → AuditTrail) (keep : AuditTrail → ω → ω)
    (actor : ω → Option A) (q : Request A R) (s : ω) :
    ((audited o trail keep actor).consult q).run s = (o q, keep ((trail s).record q (o q)) s) := rfl

/-- Who is acting. -/
def currentActor (g : Guard ω A R) : StateM ω (Option A) := do return g.actor (← get)

/-- The roles of an actor; a guard that knows nothing about roles gives none. -/
def roles (g : Guard ω A R) (actor : Option A) (subject : R) : RoleSet :=
  match g.held with
  | some held => held actor subject
  | none => ∅

variable [Modelled R]

/-- The refusal of an access. -/
def denial (g : Guard ω A R) (subject : R) (a : Action) (field : String) : Denial :=
  ⟨Modelled.modelName subject, a, field, g.settings.concealReads && a = .read⟩

/-- Consults the oracle on one access. -/
def authorize (g : Guard ω A R) (actor : Option A) (subject : R) (a : Action) (field : String) :
    Access ω Verdict := do
  let v ← g.consult ⟨actor, a, subject, field⟩
  if v.allowed then return v else throw (.forbidden (g.denial subject a field))

/-- Consults the oracle on several fields, up to the first refusal. -/
def authorizeAll (g : Guard ω A R) (actor : Option A) (subject : R) (a : Action) :
    List String → Access ω Unit
  | [] => return ()
  | f :: fs => do
    let _ ← g.authorize actor subject a f
    g.authorizeAll actor subject a fs

/-- How a guard is shown. -/
def shown (g : Guard ω A R) : String :=
  Text.shownPart "Guard" [
    ("config", g.settings.shown),
    ("resolves_roles", Text.shownBool g.held.isSome)]

end Guard

end FieldAccess
