/-
  The guard is a transparent and atomic gate.

  1. **Transparent** — right after the question whether an access would be allowed, the call is refused
     iff the answer was no, and otherwise it answers exactly as the unguarded call and leaves what that
     leaves.  This needs a steady guard: the consultation for the question must not change the answer
     to the call.

  2. **Atomic** — an operation on one field fails and leaves everything as it was, or leaves that field
     with the value it stands for; in both cases nothing else changes.  This needs no property of the
     guard, but a check that does not touch the wrapper and a lawful resource: edits hand the instance
     back after a fault too, so that no arm of a model may assign anything before it fails.

  3. **Main statement** — `gate_of_steady`: both hold of every wrapper around a user or a record, in
     whatever state it is.

  Core only.
-/
import FieldAccess.Proofs.Guard.Calls
import FieldAccess.Proofs.Guard.Scopes
import FieldAccess.Proofs.Models.Changes

namespace FieldAccess

variable {ω A R : Type} [Resource R]

namespace Wrapper

/-! ## Transparent -/

/-- The call `x` is gated by an access: made right after the question whether the access would be
allowed, it is refused iff the answer was no, and otherwise it answers as the unguarded call. -/
structure Gated (g : Guard ω A R) (w : Wrapper R) (s : ω) (a : Action) (f : String) {α : Type}
    (x : Access ω α) (raw : Except AccessError α) : Prop where
  refused_iff : (x.refusal ((w.can g a f).run s).2).isSome = true ↔ ((w.can g a f).run s).1 = false
  answer_eq : ((w.can g a f).run s).1 = true → (x.run.run ((w.can g a f).run s).2).1 = raw

/-- The change `x` is gated by an access: it answers as a gated call, leaves the wrapper if the access
was not allowed, and otherwise leaves in it what the model makes of the edit `e`. -/
structure GatedEdit (g : Guard ω A R) (w : Wrapper R) (s : ω) (a : Action) (f : String)
    (x : GuardedEdit ω R Unit) (e : Edit R Unit) : Prop
    extends w.Gated g s a f (x.answer w) (w.unguarded f e).1 where
  left : ((w.can g a f).run s).1 = false → ((x.run.run w).run ((w.can g a f).run s).2).1.2 = w
  edited : ((w.can g a f).run s).1 = true →
    ((x.run.run w).run ((w.can g a f).run s).2).1.2 = (w.unguarded f e).2

/-- Every call is gated by the access that it stands for. -/
structure Transparent (g : Guard ω A R) (w : Wrapper R) (s : ω) : Prop where
  read : ∀ f, w.Gated g s .read f (w.read g f) (w.unguardedRead f)
  write : ∀ f v, w.GatedEdit g s .update f (write g f v) (Resource.writeField f v)
  clear : ∀ f, w.GatedEdit g s .delete f (clear g f) (Resource.clearField f)
  deleteRow : w.Gated g s .delete wildcard (w.deleteRow g) (.ok w.subject)

/-- Under a steady guard, the check after the question succeeds iff the answer was yes. -/
theorem checked_after_can {g : Guard ω A R} {o : Oracle A R} (h : g.Steady o) (w : Wrapper R)
    (a : Action) (f : String) (s : ω) :
    ∃ d, (w.checked g a f ((w.can g a f).run s).2).1 =
      if ((w.can g a f).run s).1 then .ok () else .error (.forbidden d) := by
  obtain ⟨hcan, hactor⟩ := answers_can (w := w) (a := a) (f := f) (h.answers s) rfl
  -- the question may have left a trace, but the same actor acts after it
  have hcheck := answers_check (w := w) (a := a) (f := f) (h.answers s) hactor
  rw [hcan]
  exact ⟨_, hcheck.1⟩

/-- A call that checks an access and then answers `raw` is gated by that access. -/
theorem gated_of_answer {g : Guard ω A R} {o : Oracle A R} (h : g.Steady o) {w : Wrapper R} {s : ω}
    {a : Action} {f : String} {α : Type} {x : Access ω α} {raw : Except AccessError α}
    (hx : ∀ s, (x.run.run s).1 = ((w.checked g a f s).1 >>= fun _ => raw))
    (hraw : ∀ d, raw ≠ .error (.forbidden d)) : w.Gated g s a f x raw := by
  obtain ⟨d, hcheck⟩ := checked_after_can h w a f s
  constructor
  · rw [refusal_of_answer (hx ((w.can g a f).run s).2) hraw]
    unfold Access.refusal
    rw [show ((w.check g a f).run.run ((w.can g a f).run s).2).1 = _ from hcheck]
    cases ((w.can g a f).run s).1 <;> simp
  · intro hmay
    rw [hx, hcheck, hmay]
    rfl

/-- A change that is an edit after a check is gated by the access that is checked. -/
theorem gatedEdit_of_run {g : Guard ω A R} {o : Oracle A R} (h : g.Steady o) {w : Wrapper R} {s : ω}
    {a : Action} {f : String} {x : GuardedEdit ω R Unit} {e : Edit R Unit}
    (hx : x.run.run w = (do return w.afterCheck (← (w.check g a f).run) (w.unguarded f e))) :
    w.GatedEdit g s a f x e := by
  obtain ⟨d, hcheck⟩ := checked_after_can h w a f s
  have hleft : ((x.run.run w).run ((w.can g a f).run s).2).1.2 =
      (w.afterCheck (w.checked g a f ((w.can g a f).run s).2).1 (w.unguarded f e)).2 := by
    rw [hx]
    rfl
  refine ⟨gated_of_answer h (answer_of_run hx) (w.unguarded_ne_forbidden f e), ?_, ?_⟩
  · intro hmay
    rw [hleft, hcheck, hmay]
    rfl
  · intro hmay
    rw [hleft, hcheck, hmay]
    rfl

theorem transparent_of_steady {g : Guard ω A R} {o : Oracle A R} (h : g.Steady o) (w : Wrapper R)
    (s : ω) : w.Transparent g s where
  read f := gated_of_answer h (answer_read g w f) (w.unguardedRead_ne_forbidden f)
  write f v := gatedEdit_of_run h (run_write g w f v)
  clear f := gatedEdit_of_run h (run_clear g w f)
  deleteRow := gated_of_answer h (answer_deleteRow g w) (by intro d hd; cases hd)

/-! ## Atomic -/

/-- Two wrappers differ in the value of one field of the instance at most. -/
structure SameBut (w : Wrapper R) (f : String) (w' : Wrapper R) : Prop where
  others : ∀ f', f' ≠ f → Resource.readField w'.subject f' = Resource.readField w.subject f'
  names : Resource.fieldNames w'.subject = Resource.fieldNames w.subject
  overrides : ∀ kind, w'.overrides kind = w.overrides kind
  protection : w'.isProtected = w.isProtected

theorem SameBut.refl (w : Wrapper R) (f : String) : w.SameBut f w :=
  ⟨fun _ _ => rfl, rfl, fun _ => rfl, rfl⟩

theorem SameBut.of_changed {w : Wrapper R} {f : String} {v : Json} {r : R}
    (h : Resource.Changed w.subject f v r) : w.SameBut f { w with subject := r } :=
  ⟨h.others, h.names, fun kind => by cases kind <;> rfl, rfl⟩

end Wrapper

/-- What an operation answers. -/
def Operation.reply (op : Operation) (g : Guard ω A R) (w : Wrapper R) (s : ω) : Reply A :=
  ((op.run g w).run s).1.1

/-- The operation on a field fails and leaves the wrapper, with the instance in it, as it was, or leaves
`v` in the field; in both cases nothing else changes. -/
structure Operation.Atomic (op : Operation) (f : String) (v : Option Json) (g : Guard ω A R)
    (w : Wrapper R) (s : ω) : Prop where
  failed : (op.reply g w s).isOk = false → (op.finish g w s).1 = w
  done : (op.reply g w s).isOk = true → Resource.readField (op.finish g w s).1.subject f = v
  frame : w.SameBut f (op.finish g w s).1

namespace Wrapper

/-- Every operation on a field is atomic. -/
structure Atomic (g : Guard ω A R) (w : Wrapper R) (s : ω) : Prop where
  read : ∀ f, (Operation.read f).Atomic f (Resource.readField w.subject f) g w s
  write : ∀ f v, (Operation.write f v).Atomic f (some v) g w s
  clear : ∀ f, (Operation.clear f).Atomic f (some .null) g w s

/-- An operation that settles on an assignment after a check is atomic. -/
theorem atomic_of_assigns {op : Operation} {f : String} {v : Json} {e : Edit R Unit}
    {g : Guard ω A R} {w : Wrapper R} {s : ω} {c : Except AccessError Unit} {s' : ω}
    (hop : (op.run g w).run s = (Operation.settled (w.afterCheck c (w.unguarded f e)), s'))
    (he : e.Assigns w.subject f v) : op.Atomic f (some v) g w s := by
  rcases afterCheck_of_assigns he c with ⟨r, hx, -, hr⟩ | ⟨err, hx⟩
  · rw [hx] at hop
    have hreply : op.reply g w s = .ok .done := congrArg (·.1.1) hop
    have hfinish : (op.finish g w s).1 = { w with subject := r } := congrArg (·.1.2) hop
    constructor <;> rw [hfinish]
    · intro hfail
      rw [hreply] at hfail
      cases hfail
    · intro _
      exact hr.value
    · exact .of_changed hr
  · rw [hx] at hop
    have hreply : op.reply g w s = .error err := congrArg (·.1.1) hop
    have hfinish : (op.finish g w s).1 = w := congrArg (·.1.2) hop
    constructor <;> rw [hfinish]
    · intro _
      rfl
    · intro hdone
      rw [hreply] at hdone
      cases hdone
    · exact .refl w f

theorem atomic_of_lawful [Resource.Lawful R] (g : Guard ω A R) (w : Wrapper R) (s : ω) :
    w.Atomic g s where
  read f := ⟨fun _ => rfl, fun _ => rfl, .refl w f⟩
  write f v := atomic_of_assigns (Operation.run_write g f v w s) (Resource.Lawful.assigns_write _ f v)
  clear f := atomic_of_assigns (Operation.run_clear g f w s) (Resource.Lawful.assigns_clear _ f)

/-! ## The gate -/

/-- **The guard is a transparent and atomic gate.**  Around a user or a record, in whatever state the
wrapper and the surroundings are, and for every guard that answers as an oracle: reading, assigning or
clearing a field and deleting the row are refused iff the access was not allowed just before, and
otherwise give exactly what the model gives without a guard and leave the instance as the model leaves
it.  An access that fails, be it refused by the guard or by the model, leaves the wrapper and every field
of the instance in it; one that succeeds leaves the assigned value or `null`, and no other field, no name
of a field, no override and not the protection changes. -/
theorem gate_of_steady :
    (∀ (g : Guard ω A User) (o : Oracle A User), g.Steady o → ∀ (w : Wrapper User) (s : ω),
      w.Transparent g s ∧ w.Atomic g s) ∧
    (∀ (g : Guard ω A Record) (o : Oracle A Record), g.Steady o → ∀ (w : Wrapper Record) (s : ω),
      w.Transparent g s ∧ w.Atomic g s) := by
  -- users and records are lawful, and nothing else about them matters
  constructor
  · intro g o h w s
    exact ⟨transparent_of_steady h w s, atomic_of_lawful g w s⟩
  · intro g o h w s
    exact ⟨transparent_of_steady h w s, atomic_of_lawful g w s⟩

/-- A user behind a guard that is audited and lets everyone change user names, and a record behind one
that lets everyone read: a value of the wrong kind is a fault of the model after the access is allowed
and changes nothing, and clearing is refused. -/
theorem gate_of_steady_audited :
    let names : Oracle Unit User := Oracle.ofTest "names" fun q => q.field = "username"
    let audited : Guard AuditTrail Unit User := Guard.audited names id (fun t _ => t) fun _ => none
    let u : Wrapper User := { subject := ⟨"1", "ann", none⟩, isProtected := true }
    let reading : Oracle Unit Record := Oracle.ofTest "reading" fun q => q.action = .read
    let silent : Guard Unit Unit Record := Guard.ofOracle reading fun _ => none
    let r : Wrapper Record := { subject := ⟨∅, OrderedMap.ofList [("a", .null)]⟩, isProtected := true }
    audited.Steady names ∧ silent.Steady reading ∧
      (((write audited "username" (.bool true)).answer u).run.run
          ((u.can audited .update "username").run {}).2).1 =
        .error (.field "User" "username" (.stringExpected (.bool true))) ∧
      ((Operation.write "username" (.bool true)).finish audited u {}).1 = u ∧
      (((clear silent "a").answer r).refusal ((r.can silent .delete "a").run ()).2).isSome = true := by
  intro names audited u reading silent r
  have hu : audited.Steady names := Guard.steady_audited names id fun _ _ => rfl
  have hr : silent.Steady reading := Guard.Silent.steady fun _ => rfl
  obtain ⟨tu, au⟩ := gate_of_steady.1 audited names hu u {}
  obtain ⟨tr, -⟩ := gate_of_steady.2 silent reading hr r ()
  refine ⟨hu, hr, ?_, ?_, ?_⟩
  · exact (tu.write "username" (.bool true)).answer_eq (by decide)
  · exact (au.write "username" (.bool true)).failed (by decide)
  · exact (tr.clear "a").refused_iff.2 (by decide)

end Wrapper

end FieldAccess
