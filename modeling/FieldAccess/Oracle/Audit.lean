/-
  The audit trail: a record of every decision.

  1. **Trail** — two counters of 64 bits, which wrap, and the list of events, oldest first.

  2. **Events** — one for each decision, at level `DEBUG` if the access was allowed and at level `INFO`
     if it was denied.

  3. **Auditing** — an audited oracle answers what the oracle within answers, and records it.

  Core only.
-/
import FieldAccess.Oracle.Request

namespace FieldAccess

/-- How an audited decision ended. -/
inductive Outcome where
  | granted (role : Option Role)
  | refused (reason : String)
deriving DecidableEq, Inhabited

namespace Outcome

/-- The level at which an outcome is recorded. -/
def level : Outcome → String
  | granted _ => "DEBUG"
  | refused _ => "INFO"

/-- The message with which an outcome is recorded. -/
def message : Outcome → String
  | granted _ => "access allowed"
  | refused _ => "access denied"

/-- Whether access was refused. -/
def isRefused : Outcome → Bool
  | granted _ => false
  | refused _ => true

/-- The outcome that a verdict states. -/
def ofVerdict (v : Verdict) : Outcome := if v.allowed then granted v.role else refused v.reason

end Outcome

/-- One recorded decision. -/
structure Event where
  action : Action
  field : String
  /-- Whether the actor was unknown. -/
  anonymous : Bool
  outcome : Outcome
deriving DecidableEq, Inhabited

/-- What was recorded so far. -/
structure AuditTrail where
  evaluations : UInt64 := 0
  denials : UInt64 := 0
  /-- Oldest first. -/
  events : List Event := []
deriving DecidableEq, Inhabited

namespace AuditTrail

variable {A R : Type}

/-- The event that records a verdict on a request. -/
def event (q : Request A R) (v : Verdict) : Event :=
  ⟨q.action, q.field, q.actor.isNone, .ofVerdict v⟩

/-- Records a verdict on a request. -/
def record (t : AuditTrail) (q : Request A R) (v : Verdict) : AuditTrail :=
  { evaluations := t.evaluations + 1
    denials := if v.allowed then t.denials else t.denials + 1
    events := t.events ++ [event q v] }

/-- Asks an oracle and records its answer. -/
def audit (o : Oracle A R) (q : Request A R) : StateM AuditTrail Verdict := do
  modify fun t => t.record q (o q)
  return o q

/-- The counters agree with the events. -/
def Exact (t : AuditTrail) : Prop :=
  t.evaluations = UInt64.ofNat t.events.length ∧
    t.denials = UInt64.ofNat (t.events.countP fun e => e.outcome.isRefused)

theorem exact_new : Exact {} := ⟨rfl, rfl⟩

/-- Recording keeps the counters in agreement with the events. -/
theorem Exact.record {t : AuditTrail} (h : t.Exact) (q : Request A R) (v : Verdict) :
    (t.record q v).Exact := by
  obtain ⟨h1, h2⟩ := h
  constructor
  · simp [AuditTrail.record, h1, UInt64.ofNat_add]
  · cases hv : v.allowed <;>
      simp [AuditTrail.record, hv, h2, UInt64.ofNat_add, event, Outcome.ofVerdict, Outcome.isRefused]

end AuditTrail

end FieldAccess
