/-
  Creating an instance behind an audited guard.

  1. **Consultations** — the surroundings after the oracle was asked about some fields, one after the
     other: every question adds one event and counts once, and nothing else changes.

  2. **The loop** — the fields provided for a new instance are asked about in order.  `run_authorizeAll`
     says what the loop comes to when all of them are allowed, and when there is a first one that is
     not: then it was asked about last, and nothing was asked about what follows.

  3. **Main statement** — `creation_of_fields`: when a creation succeeds, what it gives, whom it names
     when it is refused, and what it consulted.
-/
import FieldAccess.Guard.Session
import FieldAccess.Models.Record
import FieldAccess.Proofs.Guard.AuditTrail

namespace FieldAccess

variable {A R : Type}

/-! ## Consultations -/

/-- The question whether a field of a new instance may be provided. -/
def Request.creating (who : Option A) (r : R) (f : String) : Request A R := ⟨who, .create, r, f⟩

namespace Surroundings

/-- The surroundings after an audited oracle was asked about some fields of a new instance. -/
def asked (o : Oracle A R) (who : Option A) (r : R) (s : Surroundings A) (fs : List String) :
    Surroundings A :=
  fs.foldl (fun s f => s.onTrail fun t => t.record (.creating who r f) (o (.creating who r f))) s

/-- Each of some fields was asked about once, in order, and nothing else happened. -/
structure Consulted (o : Oracle A R) (who : Option A) (r : R) (fs : List String)
    (s s' : Surroundings A) : Prop where
  frame : s'.untrailed = s.untrailed
  events : s'.trail.events = s.trail.events ++
    fs.map fun f => AuditTrail.event (.creating who r f) (o (.creating who r f))
  evaluations : s'.trail.evaluations = s.trail.evaluations + UInt64.ofNat fs.length
  denials : s'.trail.denials = s.trail.denials +
    UInt64.ofNat (fs.countP fun f => !o.allows (.creating who r f))

theorem consulted_asked (o : Oracle A R) (who : Option A) (r : R) (fs : List String)
    (s : Surroundings A) : s.Consulted o who r fs (s.asked o who r fs) := by
  induction fs generalizing s with
  | nil => exact ⟨rfl, (List.append_nil _).symm, (UInt64.add_zero _).symm, (UInt64.add_zero _).symm⟩
  | cons f fs ih =>
    have h := ih (s.onTrail fun t => t.record (.creating who r f) (o (.creating who r f)))
    refine ⟨h.frame, h.events.trans ?_, h.evaluations.trans ?_, h.denials.trans ?_⟩
    · exact List.append_assoc _ _ _
    · show s.trail.evaluations + 1 + UInt64.ofNat fs.length = _
      rw [List.length_cons, UInt64.ofNat_add, UInt64.add_assoc, UInt64.add_comm 1]
      rfl
    · rw [List.countP_cons, UInt64.ofNat_add, UInt64.add_comm (UInt64.ofNat _), ← UInt64.add_assoc]
      unfold Surroundings.onTrail Surroundings.setTrail AuditTrail.record Oracle.allows
      cases (o (.creating who r f)).allowed
      · rfl
      · exact congrArg (· + _) (UInt64.add_zero _).symm

end Surroundings

/-! ## The loop -/

namespace Guard

/-- A guard whose oracle is audited, whoever acts, whatever the settings, and whether or not it knows
about roles. -/
def auditing (o : Oracle A R) (held : Option (HeldRoles A R)) (actor : Surroundings A → Option A)
    (settings : GuardSettings) : Guard (Surroundings A) A R :=
  { Guard.audited o Surroundings.trail Surroundings.setTrail actor with settings, held }

variable [Resource R] {o : Oracle A R} {held : Option (HeldRoles A R)}
  {actor : Surroundings A → Option A} {settings : GuardSettings} {who : Option A} {r : R}

/-- The refusal of a field of a new instance; it is never hidden. -/
def creationDenial (r : R) (f : String) : Denial := ⟨Modelled.modelName r, .create, f, false⟩

/-- One turn of the loop asks once, whatever the answer. -/
theorem run_authorize_creating (f : String) (s : Surroundings A) :
    ((auditing o held actor settings).authorize who r .create f).run.run s =
      (if o.allows (.creating who r f) then .ok (o (.creating who r f))
        else .error (.forbidden (creationDenial r f)), s.asked o who r [f]) := by
  rw [run_authorize]
  have hdenial : (auditing o held actor settings).denial r .create f = creationDenial r f := by
    unfold denial creationDenial
    simp
  rw [hdenial]
  rfl

/-- When all fields are allowed, all are asked about. -/
theorem run_authorizeAll_allowed {fs : List String}
    (h : ∀ f ∈ fs, o.allows (.creating who r f) = true) (s : Surroundings A) :
    ((auditing o held actor settings).authorizeAll who r .create fs).run.run s =
      (.ok (), s.asked o who r fs) := by
  induction fs generalizing s with
  | nil => rfl
  | cons f fs ih =>
    obtain ⟨hf, hfs⟩ := List.forall_mem_cons.1 h
    unfold authorizeAll
    rw [ExceptT.run_bind, StateT.run_bind, run_authorize_creating, if_pos hf]
    exact ih hfs (s.asked o who r [f])

/-- When a field is refused, it is the last one that is asked about. -/
theorem run_authorizeAll_refused {before : List String} {f : String}
    (hb : ∀ x ∈ before, o.allows (.creating who r x) = true)
    (hf : o.allows (.creating who r f) = false) (after : List String) (s : Surroundings A) :
    ((auditing o held actor settings).authorizeAll who r .create (before ++ f :: after)).run.run s =
      (.error (.forbidden (creationDenial r f)), s.asked o who r (before ++ [f])) := by
  induction before generalizing s with
  | nil =>
    unfold authorizeAll
    rw [List.nil_append, ExceptT.run_bind, StateT.run_bind, run_authorize_creating,
      if_neg (Bool.eq_false_iff.1 hf)]
    rfl
  | cons x before ih =>
    obtain ⟨hx, hb⟩ := List.forall_mem_cons.1 hb
    unfold authorizeAll
    rw [List.cons_append, ExceptT.run_bind, StateT.run_bind, run_authorize_creating, if_pos hx]
    exact ih hb (s.asked o who r [x])

/-! ## Creations -/

theorem run_create_unchecked {provided : List String} {options : CreationOptions}
    (hc : options.checkCreate = false) (s : Surroundings A) :
    ((auditing o held actor settings).create r provided options).run.run s =
      (.ok ⟨r, options.isProtected, ∅, ∅⟩, s) := by
  unfold create
  rw [hc]
  rfl

/-- A checked creation ends as its loop does. -/
theorem run_create_checked {provided : List String} {options : CreationOptions}
    (hc : options.checkCreate = true) {s s' : Surroundings A} {x : Except AccessError Unit}
    (hloop : ((auditing o held actor settings).authorizeAll (actor s) r .create provided).run.run s =
      (x, s')) :
    ((auditing o held actor settings).create r provided options).run.run s =
      (x.map fun _ => ⟨r, options.isProtected, ∅, ∅⟩, s') := by
  unfold create
  rw [hc]
  show StateT.run (ExceptT.run ((auditing o held actor settings).authorizeAll (actor s) r .create
    provided >>= fun _ => pure (Wrapper.mk r options.isProtected ∅ ∅))) s = _
  rw [ExceptT.run_bind, StateT.run_bind, hloop]
  cases x <;> rfl

/-- Either all elements of a list pass, or there is a first one that does not. -/
theorem all_or_first {α : Type} (p : α → Bool) (as : List α) :
    (∀ a ∈ as, p a = true) ∨
      ∃ before a after, as = before ++ a :: after ∧ (∀ x ∈ before, p x = true) ∧ p a = false := by
  cases h : as.find? fun a => !p a with
  | none =>
    have hall := List.find?_eq_none.1 h
    refine Or.inl fun a ha => ?_
    simpa using hall a ha
  | some a =>
    obtain ⟨ha, before, after, rfl, hb⟩ := List.find?_eq_some_iff_append.1 h
    refine Or.inr ⟨before, a, after, rfl, fun x hx => ?_, ?_⟩
    · simpa using hb x hx
    · simpa using ha

/-- What a creation comes to: its result, and the surroundings after it. -/
structure Creates (o : Oracle A R) (who : Option A) (r : R) (provided : List String)
    (options : CreationOptions) (s : Surroundings A) (result : Except AccessError (Wrapper R))
    (s' : Surroundings A) : Prop where
  succeeds_iff : (∃ w, result = .ok w) ↔
    (options.checkCreate = true → ∀ f ∈ provided, o.allows (.creating who r f) = true)
  /-- The instance is unchanged, without overrides, and protected as the options say. -/
  created : ∀ w, result = .ok w → w = ⟨r, options.isProtected, ∅, ∅⟩
  /-- A refusal names the first field that is refused, and nothing was asked about what follows. -/
  refused : ∀ e, result = .error e → ∃ before f after, provided = before ++ f :: after ∧
    (∀ x ∈ before, o.allows (.creating who r x) = true) ∧ o.allows (.creating who r f) = false ∧
    e = .forbidden ⟨Modelled.modelName r, .create, f, false⟩ ∧
    s.Consulted o who r (before ++ [f]) s'
  consulted : ∀ w, result = .ok w → options.checkCreate = true → s.Consulted o who r provided s'
  unchecked : options.checkCreate = false → s' = s

section

variable {provided : List String} {options : CreationOptions} (s : Surroundings A)

theorem creates_unchecked (hc : options.checkCreate = false) :
    Creates o who r provided options s (.ok ⟨r, options.isProtected, ∅, ∅⟩) s where
  succeeds_iff := by
    rw [hc]
    exact ⟨(fun _ h => nomatch h), fun _ => ⟨_, rfl⟩⟩
  created := by
    rintro _ ⟨⟩
    rfl
  refused := by
    rintro _ ⟨⟩
  consulted _ _ h := absurd (hc.symm.trans h) Bool.false_ne_true
  unchecked _ := rfl

theorem creates_allowed (hc : options.checkCreate = true)
    (hall : ∀ f ∈ provided, o.allows (.creating who r f) = true) :
    Creates o who r provided options s (.ok ⟨r, options.isProtected, ∅, ∅⟩)
      (s.asked o who r provided) where
  succeeds_iff := ⟨fun _ _ => hall, fun _ => ⟨_, rfl⟩⟩
  created := by
    rintro _ ⟨⟩
    rfl
  refused := by
    rintro _ ⟨⟩
  consulted _ _ _ := s.consulted_asked o who r provided
  unchecked h := absurd (h.symm.trans hc) Bool.false_ne_true

theorem creates_refused {before : List String} {f : String} (hc : options.checkCreate = true)
    (hb : ∀ x ∈ before, o.allows (.creating who r x) = true)
    (hf : o.allows (.creating who r f) = false) (after : List String) :
    Creates o who r (before ++ f :: after) options s (.error (.forbidden (creationDenial r f)))
      (s.asked o who r (before ++ [f])) where
  succeeds_iff := by
    constructor
    · rintro ⟨_, ⟨⟩⟩
    · intro h
      have hallowed := h hc f (List.mem_append_right _ List.mem_cons_self)
      exact absurd (hf.symm.trans hallowed) Bool.false_ne_true
  created := by
    rintro _ ⟨⟩
  refused := by
    rintro _ ⟨⟩
    exact ⟨before, f, after, rfl, hb, hf, rfl, s.consulted_asked o who r (before ++ [f])⟩
  consulted := by
    rintro _ ⟨⟩
  unchecked h := absurd (h.symm.trans hc) Bool.false_ne_true

end

/-- **What a creation consults and gives.**  Take any audited guard, any instance, any fields that are
provided for it, any options and any surroundings.  The creation succeeds iff it is not checked or the
oracle allows the current actor to create every field.  It gives the instance unchanged, without
overrides and protected as the options say.  Otherwise it is refused openly, in the name of the first
field that the oracle refuses.  Every field up to that one is asked about once, in order, and nothing
is asked about the others; without the check, nothing is asked at all. -/
theorem creation_of_fields (o : Oracle A R) (held : Option (HeldRoles A R))
    (actor : Surroundings A → Option A) (settings : GuardSettings) (r : R) (provided : List String)
    (options : CreationOptions) (s : Surroundings A) :
    let run := ((auditing o held actor settings).create r provided options).run.run s
    Creates o (actor s) r provided options s run.1 run.2 := by
  intro run
  cases hc : options.checkCreate with
  | false =>
    have hrun : run = _ := run_create_unchecked hc s
    rw [hrun]
    exact creates_unchecked s hc
  | true =>
    rcases all_or_first (fun f => o.allows (.creating (actor s) r f)) provided with
      hall | ⟨before, f, after, rfl, hb, hf⟩
    · have hrun : run = _ := run_create_checked hc (run_authorizeAll_allowed hall s)
      rw [hrun]
      exact creates_allowed s hc hall
    · have hrun : run = _ := run_create_checked hc (run_authorizeAll_refused hb hf after s)
      rw [hrun]
      exact creates_refused s hc hb hf after

/-- Of a name given twice and two fields that are refused, the first refused one is asked about last. -/
example :
    let o : Oracle Unit Record := Oracle.ofTest "names" fun q => q.field = "name"
    let g := auditing o none (fun _ => none) {}
    let run := (g.create ⟨∅, ∅⟩ ["name", "name", "id", "key"] ⟨true, true⟩).run.run {}
    (run.2.trail.events.map fun e => (e.field, e.outcome.level)) =
      [("name", "DEBUG"), ("name", "DEBUG"), ("id", "INFO")] := by decide

end Guard

end FieldAccess
