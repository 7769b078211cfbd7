import FieldAccess.Main
import FieldAccess.Guard.Session
import FieldAccess.Models.Record
import FieldAccess.Models.User
import FieldAccess.Proofs.Guard.Decision
import FieldAccess.Proofs.Guard.Scopes
import FieldAccess.Proofs.Tool.Commands
import FieldAccess.Proofs.Guard.Calls
import FieldAccess.Proofs.Models.Changes
import FieldAccess.Proofs.Guard.Secrecy
import FieldAccess.Proofs.Guard.Gate
import FieldAccess.Proofs.Guard.Escalation
import FieldAccess.Proofs.Actors.Drops
import FieldAccess.Proofs.Guard.Permanence
import FieldAccess.Proofs.Policy.EmptyNames
import FieldAccess.Proofs.Guard.AuditTrail
import FieldAccess.Proofs.Policy.Reference
import FieldAccess.Proofs.Policy.Drafts
import FieldAccess.Proofs.Policy.Acceptance
import FieldAccess.Proofs.Policy.Comparison
import FieldAccess.Proofs.Policy.Rewriting
import FieldAccess.Proofs.Policy.Order
import FieldAccess.Proofs.Policy.Shorthand
import FieldAccess.Proofs.Policy.Growth
import FieldAccess.Proofs.Policy.Transcription
import FieldAccess.Proofs.Policy.TwoReaders
import FieldAccess.Proofs.Collections.Arrivals
import FieldAccess.Proofs.Oracle.Assignments
import FieldAccess.Proofs.Guard.Creation
import FieldAccess.Proofs.Policy.Origins
import FieldAccess.Proofs.Tool.Listing
import FieldAccess.Proofs.Policy.ActionUnion
