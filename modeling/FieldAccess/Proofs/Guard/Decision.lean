/-
  What a check on a wrapped instance comes to.

  1. **Guards that answer as an oracle** — a silent guard leaves no trace in the surroundings; a steady
     one may leave a trace, as an audited guard does, but not one that changes its answers or who
     acts.  In both a check is a function of the wrapper, the actor, the action and the field:
     `passes` is that function and `blamed` the action that a refusal names.

  2. **Runs** — `answers_check` evaluates a check as long as the surroundings keep a property under
     which the guard answers as an oracle; what it says of `can` and of the authorized fields follows.
     For a silent guard the property is to be the same surroundings, for a steady one to have the same
     actor.

  3. **Guards that decide by roles** — there the condition reads: unprotected, or not denied on the
     instance and either allowed on the instance or granted to one of the roles that are held.  The
     wildcard counts on each of the three levels.

  Core only.
-/
import FieldAccess.Guard.Wrapper

namespace FieldAccess

variable {ω A R : Type} [Resource R]

/-! ## Guards that answer as an oracle -/

/-- The guard answers as an oracle does and leaves no trace. -/
def Guard.Silent (g : Guard ω A R) (o : Oracle A R) : Prop := ∀ q, g.consult q = pure (o q)

/-- The guard answers as an oracle does, whatever trace it leaves, and consulting it never changes who
acts. -/
structure Guard.Steady (g : Guard ω A R) (o : Oracle A R) : Prop where
  verdict : ∀ q s, ((g.consult q).run s).1 = o q
  actor : ∀ q s, g.actor ((g.consult q).run s).2 = g.actor s

/-- In surroundings with the property `K` it is `who` that acts and the guard answers as an oracle
does, and consulting it keeps `K`. -/
structure Guard.Answers (g : Guard ω A R) (o : Oracle A R) (who : Option A) (K : ω → Prop) :
    Prop where
  actor : ∀ s, K s → g.actor s = who
  verdict : ∀ q s, K s → ((g.consult q).run s).1 = o q
  keeps : ∀ q s, K s → K ((g.consult q).run s).2

omit [Resource R] in
/-- A silent guard keeps the surroundings themselves. -/
theorem Guard.Silent.answers {g : Guard ω A R} {o : Oracle A R} (h : g.Silent o) (s : ω) :
    g.Answers o (g.actor s) (· = s) where
  actor := by rintro _ rfl; rfl
  verdict q s' _ := by rw [h q]; rfl
  keeps q s' hs := by rw [h q]; exact hs

omit [Resource R] in
/-- A steady guard keeps who acts. -/
theorem Guard.Steady.answers {g : Guard ω A R} {o : Oracle A R} (h : g.Steady o) (s : ω) :
    g.Answers o (g.actor s) (fun s' => g.actor s' = g.actor s) where
  actor _ hs := hs
  verdict q s' _ := h.verdict q s'
  keeps q s' hs := (h.actor q s').trans hs

omit [Resource R] in
theorem Guard.Silent.steady {g : Guard ω A R} {o : Oracle A R} (h : g.Silent o) : g.Steady o where
  verdict q s := by rw [h q]; rfl
  actor q s := by rw [h q]; rfl

omit [Resource R] in
/-- An audited guard is steady, if its trail is kept apart from what tells who acts. -/
theorem Guard.steady_audited (o : Oracle A R) (trail : ω → AuditTrail) {keep : AuditTrail → ω → ω}
    {actor : ω → Option A} (h : ∀ t s, actor (keep t s) = actor s) :
    (Guard.audited o trail keep actor).Steady o where
  verdict q s := congrArg Prod.fst (run_consult_audited o trail keep actor q s)
  actor q s := by
    rw [run_consult_audited]
    exact h _ s

omit [Resource R] in
/-- A refusal is hidden iff it is one of reading and the settings conceal reads. -/
theorem Guard.hidden_denial [Modelled R] (g : Guard ω A R) (subject : R) (a : Action) (f : String) :
    (g.denial subject a f).hidden = true ↔ a = .read ∧ g.settings.concealReads = true := by
  unfold Guard.denial
  rw [Bool.and_eq_true, decide_eq_true_iff, and_comm]

/-- Consulting the oracle is what decides, and it leaves its trace either way. -/
theorem Guard.run_authorize (g : Guard ω A R) (who : Option A) (subject : R) (a : Action)
    (f : String) (s : ω) :
    (g.authorize who subject a f).run.run s =
      (if ((g.consult ⟨who, a, subject, f⟩).run s).1.allowed then
          .ok ((g.consult ⟨who, a, subject, f⟩).run s).1
        else .error (.forbidden (g.denial subject a f)),
        ((g.consult ⟨who, a, subject, f⟩).run s).2) := by
  unfold Guard.authorize
  rw [ExceptT.run_bind, StateT.run_bind]
  show StateT.run (ExceptT.run
    (if ((g.consult ⟨who, a, subject, f⟩).run s).1.allowed = true then _ else _)) _ = _
  split <;> rfl

namespace Wrapper

/-- Whether a check succeeds when an oracle decides what the instance leaves open. -/
def passes (o : Oracle A R) (actor : Option A) (w : Wrapper R) (a : Action) (f : String) : Bool :=
  match w.ruling a f with
  | .pass => true
  | .refuse => false
  | .consult => o.allows ⟨actor, a, w.subject, f⟩

/-- The action that the refusal of an access names: reading, where the instance itself refuses and the
field cannot be read either. -/
def blamed (o : Oracle A R) (actor : Option A) (w : Wrapper R) (a : Action) (f : String) : Action :=
  if w.ruling a f = .refuse ∧ w.passes o actor .read f = false then .read else a

/-- What a check answers, and the surroundings after it. -/
def checked (g : Guard ω A R) (w : Wrapper R) (a : Action) (f : String) (s : ω) :
    Except AccessError Unit × ω :=
  (w.check g a f).run.run s

/-! ## Runs -/

section Runs

variable {g : Guard ω A R} {o : Oracle A R} {w : Wrapper R} {a : Action} {f : String} {s : ω}

theorem run_checkWith_pass {before : Access ω Unit} (hr : w.ruling a f = .pass) :
    (w.checkWith g before a f).run.run s = (.ok (), s) := by
  unfold checkWith
  rw [hr]
  rfl

/-- Where the instance refuses, an error of the computation before the refusal comes first. -/
theorem run_checkWith_refuse {before : Access ω Unit} (hr : w.ruling a f = .refuse) :
    (w.checkWith g before a f).run.run s =
      match before.run.run s with
      | (.ok _, s') => (.error (.forbidden (g.denial w.subject a f)), s')
      | (.error e, s') => (.error e, s') := by
  unfold checkWith
  rw [hr]
  show (before >>= fun _ => throw _ : Access ω Unit).run.run s = _
  rw [ExceptT.run_bind, StateT.run_bind]
  rcases before.run.run s with ⟨_ | _, s'⟩ <;> rfl

/-- What the instance leaves open is answered by the guard. -/
theorem run_checkWith_consult {before : Access ω Unit} (hr : w.ruling a f = .consult) :
    (w.checkWith g before a f).run.run s =
      (if ((g.consult ⟨g.actor s, a, w.subject, f⟩).run s).1.allowed then .ok ()
        else .error (.forbidden (g.denial w.subject a f)),
        ((g.consult ⟨g.actor s, a, w.subject, f⟩).run s).2) := by
  unfold checkWith
  rw [hr]
  show ((do let _ ← g.authorize (g.actor s) w.subject a f : Access ω Unit)).run.run s = _
  rw [ExceptT.run_bind, StateT.run_bind, Guard.run_authorize]
  cases ((g.consult ⟨g.actor s, a, w.subject, f⟩).run s).1.allowed <;> rfl

end Runs

/-! ### While the guard answers as an oracle -/

section Answers

variable {g : Guard ω A R} {o : Oracle A R} {who : Option A} {K : ω → Prop} {w : Wrapper R}
  {a : Action} {f : String} {s : ω}

theorem answers_consult {before : Access ω Unit} (h : g.Answers o who K) (hs : K s)
    (hr : w.ruling a f = .consult) :
    ((w.checkWith g before a f).run.run s).1 =
        (if w.passes o who a f then .ok () else .error (.forbidden (g.denial w.subject a f))) ∧
      K ((w.checkWith g before a f).run.run s).2 := by
  have hp : w.passes o who a f = o.allows ⟨who, a, w.subject, f⟩ := by unfold passes; rw [hr]
  rw [run_checkWith_consult hr, h.actor s hs, h.verdict _ s hs, hp]
  exact ⟨rfl, h.keeps _ s hs⟩

/-- Reading has no check before its refusal, so that every refusal of it names reading. -/
theorem answers_checkRead (h : g.Answers o who K) (hs : K s) :
    ((w.checkRead g f).run.run s).1 =
        (if w.passes o who .read f then .ok ()
          else .error (.forbidden (g.denial w.subject .read f))) ∧
      K ((w.checkRead g f).run.run s).2 := by
  unfold checkRead
  cases hr : w.ruling .read f with
  | pass => rw [run_checkWith_pass hr]; simp [passes, hr, hs]
  | refuse =>
    rw [run_checkWith_refuse hr]
    have hf : w.passes o who .read f = false := by simp [passes, hr]
    rw [hf]
    exact ⟨rfl, hs⟩
  | consult => exact answers_consult h hs hr

/-- **The closed form of a check**: it succeeds iff the access passes, a refusal names the blamed
action, and the surroundings keep the property. -/
theorem answers_check (h : g.Answers o who K) (hs : K s) :
    (w.checked g a f s).1 =
        (if w.passes o who a f then .ok ()
          else .error (.forbidden (g.denial w.subject (w.blamed o who a f) f))) ∧
      K (w.checked g a f s).2 := by
  unfold checked check
  by_cases ha : a = .read
  · subst ha
    rw [if_pos rfl]
    have hb : w.blamed o who .read f = .read := by unfold blamed; split <;> rfl
    rw [hb]
    exact answers_checkRead h hs
  · rw [if_neg ha]
    cases hr : w.ruling a f with
    | pass => rw [run_checkWith_pass hr]; simp [passes, hr, hs]
    | refuse =>
      -- the only ruling under which the check of reading decides whom the refusal names
      obtain ⟨h1, h2⟩ := answers_checkRead (w := w) (f := f) h hs
      have hf : w.passes o who a f = false := by simp [passes, hr]
      rw [run_checkWith_refuse hr]
      rcases hx : (w.checkRead g f).run.run s with ⟨x, s'⟩
      rw [hx] at h1 h2
      simp only at h1 h2
      subst h1
      cases hp : w.passes o who .read f <;> simp [blamed, hr, hp, hf, h2]
    | consult =>
      have hb : w.blamed o who a f = a := by simp [blamed, hr]
      rw [hb]
      exact answers_consult h hs hr

theorem answers_can (h : g.Answers o who K) (hs : K s) :
    ((w.can g a f).run s).1 = w.passes o who a f ∧ K ((w.can g a f).run s).2 := by
  obtain ⟨h1, h2⟩ := answers_check (w := w) (a := a) (f := f) h hs
  rcases hx : w.checked g a f s with ⟨x, s'⟩
  rw [hx] at h1 h2
  have hc : (w.check g a f).run.run s = (x, s') := hx
  unfold can
  rw [StateT.run_bind, hc]
  simp only at h1 h2
  subst h1
  cases w.passes o who a f <;> exact ⟨rfl, h2⟩

theorem answers_allowedAmong (h : g.Answers o who K) (hs : K s) (fs : List String) :
    ((w.allowedAmong g a fs).run s).1 = fs.filter (w.passes o who a) ∧
      K ((w.allowedAmong g a fs).run s).2 := by
  induction fs generalizing s with
  | nil => exact ⟨rfl, hs⟩
  | cons f fs ih =>
    obtain ⟨h1, h2⟩ := answers_can (w := w) (a := a) (f := f) h hs
    obtain ⟨h3, h4⟩ := ih h2
    rw [List.filter_cons, ← h1, ← h3]
    exact ⟨rfl, h4⟩

end Answers

/-! ### Silent guards -/

section Silent

variable {g : Guard ω A R} {o : Oracle A R} {w : Wrapper R} {a : Action} {f : String} {s : ω}

/-- A check of a silent guard leaves the surroundings as they are. -/
theorem run_check (h : g.Silent o) :
    w.checked g a f s =
      (if w.passes o (g.actor s) a f then .ok ()
        else .error (.forbidden (g.denial w.subject (w.blamed o (g.actor s) a f) f)), s) := by
  obtain ⟨h1, h2⟩ := answers_check (w := w) (a := a) (f := f) (h.answers s) rfl
  exact Prod.ext h1 h2

theorem isOk_checked (h : g.Silent o) :
    (w.checked g a f s).1.isOk = w.passes o (g.actor s) a f := by
  rw [run_check h]
  cases w.passes o (g.actor s) a f <;> rfl

/-- The fields on which an action is allowed are those that pass, in the order of the model. -/
theorem run_authorizedFields (h : g.Silent o) :
    (w.authorizedFields g a).run s =
      ((Resource.fieldNames w.subject).filter (w.passes o (g.actor s) a), s) := by
  obtain ⟨h1, h2⟩ :=
    answers_allowedAmong (w := w) (a := a) (h.answers s) rfl (Resource.fieldNames w.subject)
  exact Prod.ext h1 h2

end Silent

end Wrapper

/-! ## Guards that decide by roles -/

theorem AccessError.code_forbidden (d : Denial) :
    (forbidden d).code = "NOT_FOUND" ↔ d.hidden = true := by
  cases h : d.hidden <;> simp [code, h]

/-- A guard that decides by roles, under any settings. -/
def Guard.roleBased (held : HeldRoles A R) (actor : ω → Option A) (settings : GuardSettings) :
    Guard ω A R :=
  { Guard.withRoles held actor with settings }

theorem Guard.silent_roleBased (held : HeldRoles A R) (actor : ω → Option A)
    (settings : GuardSettings) : (roleBased held actor settings).Silent (Oracle.byRoles held) :=
  fun _ => rfl

/-- Overrides hold a field for an action: by its name or by the wildcard. -/
def Overrides.Hold (o : Overrides) (a : Action) (f : String) : Prop :=
  (a, f) ∈ o.pairs ∨ (a, wildcard) ∈ o.pairs

instance (o : Overrides) (a : Action) (f : String) : Decidable (o.Hold a f) :=
  inferInstanceAs (Decidable (_ ∨ _))

theorem Overrides.hold_iff {o : Overrides} {a : Action} {f : String} :
    o.Hold a f ↔ o.cover a f = true := by
  rw [cover_iff, or_comm]
  rfl

namespace Wrapper

omit [Resource R] in
/-- On a protected wrapper a refusal names reading iff the instance denies the access and reading does
not pass either. -/
theorem blamed_eq {o : Oracle A R} {actor : Option A} {w : Wrapper R} (hp : w.isProtected = true)
    (a : Action) (f : String) :
    w.blamed o actor a f =
      if a ≠ .read ∧ w.denied.Hold a f ∧ w.passes o actor .read f = false then .read else a := by
  have hr : w.ruling a f = .refuse ↔ w.denied.Hold a f := by
    rw [ruling_eq_refuse_iff, Overrides.hold_iff]
    exact and_iff_right hp
  unfold blamed
  by_cases ha : a = .read
  · subst ha; simp
  · simp [ha, hr]

/-- Some role that the current actor holds on the instance has the field or the wildcard for the
action. -/
def Granted (g : Guard ω A R) (w : Wrapper R) (s : ω) (a : Action) (f : String) : Prop :=
  ∃ r ∈ ((w.roles g).run s).1, f ∈ w.authorizedFieldsFor r a ∨ wildcard ∈ w.authorizedFieldsFor r a

/-- What has to hold for an access: no protection, or no denial on the instance and a permission, on
the instance or by a role. -/
def Permitted (g : Guard ω A R) (w : Wrapper R) (s : ω) (a : Action) (f : String) : Prop :=
  w.isProtected = false ∨ ¬ w.denied.Hold a f ∧ (w.allowed.Hold a f ∨ w.Granted g s a f)

instance (g : Guard ω A R) (w : Wrapper R) (s : ω) (a : Action) (f : String) :
    Decidable (w.Granted g s a f) :=
  inferInstanceAs (Decidable (∃ r ∈ ((w.roles g).run s).1.toList,
    f ∈ w.authorizedFieldsFor r a ∨ wildcard ∈ w.authorizedFieldsFor r a))

instance (g : Guard ω A R) (w : Wrapper R) (s : ω) (a : Action) (f : String) :
    Decidable (w.Permitted g s a f) := inferInstanceAs (Decidable (_ ∨ _))

section Roles

variable (held : HeldRoles A R) (actor : ω → Option A) (settings : GuardSettings)
  (w : Wrapper R) (s : ω)

/-- The oracle allows what is granted to a role that is held. -/
theorem allows_byRoles_iff (a : Action) (f : String) :
    (Oracle.byRoles held).allows ⟨actor s, a, w.subject, f⟩ = true ↔
      w.Granted (Guard.roleBased held actor settings) s a f := by
  have h : (Verdict.forRoles (held (actor s) w.subject) w.subject a f).allowed = true ↔
      ∃ r ∈ held (actor s) w.subject, Modelled.grants w.subject a f r = true :=
    Verdict.allowed_forRoles
  rw [Oracle.allows, Oracle.byRoles, h]
  constructor
  · rintro ⟨r, hr, hg⟩
    exact ⟨r, hr, (AccessTable.permits_iff.1 hg).symm⟩
  · rintro ⟨r, hr, hf⟩
    exact ⟨r, hr, AccessTable.permits_iff.2 hf.symm⟩

theorem passes_byRoles_iff (a : Action) (f : String) :
    w.passes (Oracle.byRoles held) (actor s) a f = true ↔
      w.Permitted (Guard.roleBased held actor settings) s a f := by
  have ho := allows_byRoles_iff held actor settings w s a f
  unfold passes Permitted
  rw [Overrides.hold_iff, Overrides.hold_iff]
  cases hr : w.ruling a f with
  | pass =>
    rcases ruling_eq_pass_iff.1 hr with hp | ⟨hd, ha⟩
    · simp [hp]
    · simp [hd, ha]
  | refuse =>
    obtain ⟨hp, hd⟩ := ruling_eq_refuse_iff.1 hr
    simp [hp, hd]
  | consult =>
    obtain ⟨hp, hd, ha⟩ := ruling_eq_consult_iff.1 hr
    simp [hp, hd, ha, ho]

end Roles

/-- **Decision and error of a check under roles.**  Whatever the settings, the wrapper and the
surroundings, a check of any action on any field succeeds iff the access is permitted.  Otherwise it
is refused in the name of the model and the field, and the refusal names the action, or reading where
the instance denies an action other than reading and the check of reading fails too.  The refusal is
hidden, and so answers as a missing thing, iff it names reading and the settings conceal reads.  The
fields on which an action is allowed are those of the model, in order, on which it is permitted. -/
theorem checked_roleBased (held : HeldRoles A R) (actor : ω → Option A) (settings : GuardSettings)
    (w : Wrapper R) (s : ω) (a : Action) :
    (∀ f, (w.checked (Guard.roleBased held actor settings) a f s).2 = s ∧
      (w.Permitted (Guard.roleBased held actor settings) s a f ∧
          (w.checked (Guard.roleBased held actor settings) a f s).1 = .ok () ∨
        ¬ w.Permitted (Guard.roleBased held actor settings) s a f ∧
          ∃ d : Denial, (w.checked (Guard.roleBased held actor settings) a f s).1 =
              .error (.forbidden d) ∧
            d.model = Modelled.modelName w.subject ∧ d.field = f ∧
            d.action = (if a ≠ .read ∧ w.denied.Hold a f ∧
                (w.checked (Guard.roleBased held actor settings) .read f s).1.isOk = false
              then .read else a) ∧
            (d.hidden = true ↔ d.action = .read ∧ settings.concealReads = true) ∧
            ((AccessError.forbidden d).code = "NOT_FOUND" ↔ d.hidden = true) ∧
            ((AccessError.forbidden d).status = 404 ↔ d.hidden = true))) ∧
    (w.authorizedFields (Guard.roleBased held actor settings) a).run s =
      ((Resource.fieldNames w.subject).filter
        (fun f => w.Permitted (Guard.roleBased held actor settings) s a f), s) := by
  have hs := Guard.silent_roleBased held actor settings
  have hp := passes_byRoles_iff held actor settings w s
  constructor
  · intro f
    rw [run_check hs]
    refine ⟨rfl, ?_⟩
    by_cases h : w.Permitted (Guard.roleBased held actor settings) s a f
    · exact Or.inl ⟨h, if_pos ((hp a f).2 h)⟩
    · have hprot : w.isProtected = true := by
        cases hw : w.isProtected with
        | true => rfl
        | false => exact absurd (Or.inl hw) h
      refine Or.inr ⟨h, _, if_neg (fun h' => h ((hp a f).1 h')), rfl, rfl, ?_, ?_, ?_, ?_⟩
      · rw [isOk_checked hs]
        exact blamed_eq hprot a f
      · exact Guard.hidden_denial _ _ _ _
      · exact AccessError.code_forbidden _
      · exact AccessError.status_forbidden _
  · rw [run_authorizedFields hs]
    congr 2
    funext f
    exact Bool.eq_iff_iff.2 ((hp a f).trans (decide_eq_true_iff).symm)

end Wrapper

end FieldAccess
