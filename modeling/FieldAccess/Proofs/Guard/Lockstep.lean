/-
  Two guards that go in step.

  1. **Computations** — two computations in different surroundings are in lockstep under a relation `K`
     if, started in related surroundings, they give the same value and end in related surroundings.
     There is one rule for each way to put computations together.

  2. **Guards** — two guards are in step if their consultations are in lockstep, they name the same
     actor, and they have the same roles and settings.  Then so is everything that a wrapper does with
     them, one rule for each call.

  3. **Programs** — by induction a whole program is in lockstep, if the steps aside that it has are
     (`Guard.InStep.program`), and so is every state that it passes through
     (`Guard.InStep.states`).
-/
import Mathlib.Data.List.Forall2
import FieldAccess.Proofs.Guard.Scopes

namespace FieldAccess

variable {ω ω' σ A R α β : Type} {K : ω → ω' → Prop}

/-! ## Computations -/

/-- The same value in related surroundings. -/
def Alongside (K : ω → ω' → Prop) (x : α × ω) (y : α × ω') : Prop := x.1 = y.1 ∧ K x.2 y.2

/-- From related surroundings, the same value in related surroundings. -/
def Lockstep (K : ω → ω' → Prop) (x : StateM ω α) (y : StateM ω' α) : Prop :=
  ∀ s t, K s t → Alongside K (x.run s) (y.run t)

theorem Lockstep.pure (a : α) : Lockstep K (Pure.pure a) (Pure.pure a) := fun _ _ h => ⟨rfl, h⟩

theorem Lockstep.bind {x : StateM ω α} {y : StateM ω' α} {k : α → StateM ω β} {l : α → StateM ω' β}
    (h : Lockstep K x y) (hk : ∀ a, Lockstep K (k a) (l a)) : Lockstep K (x >>= k) (y >>= l) := by
  intro s t hst
  obtain ⟨hv, hK⟩ := h s t hst
  show Alongside K ((k (x.run s).1).run (x.run s).2) ((l (y.run t).1).run (y.run t).2)
  rw [← hv]
  exact hk _ _ _ hK

theorem Lockstep.update {f : ω → ω} {f' : ω' → ω'} (h : ∀ s t, K s t → K (f s) (f' t)) :
    Lockstep K (modify f) (modify f') := fun s t hst => ⟨rfl, h s t hst⟩

/-- Accesses are put together in the same way; an error ends both. -/
theorem Lockstep.bindAccess {x : Access ω α} {y : Access ω' α} {k : α → Access ω β}
    {l : α → Access ω' β} (h : Lockstep K x.run y.run) (hk : ∀ a, Lockstep K (k a).run (l a).run) :
    Lockstep K (x >>= k).run (y >>= l).run := by
  rw [ExceptT.run_bind, ExceptT.run_bind]
  refine h.bind ?_
  intro r
  cases r with
  | ok a => exact hk a
  | error e => exact .pure _

/-! ## Guards -/

/-- Two guards that differ in their surroundings only. -/
structure Guard.InStep (K : ω → ω' → Prop) (g : Guard ω A R) (g' : Guard ω' A R) : Prop where
  consult : ∀ q, Lockstep K (g.consult q) (g'.consult q)
  actor : ∀ s t, K s t → g.actor s = g'.actor t
  held : g.held = g'.held
  settings : g.settings = g'.settings

namespace Guard.InStep

variable {g : Guard ω A R} {g' : Guard ω' A R} (h : g.InStep K g')

include h

theorem currentActor : Lockstep K g.currentActor g'.currentActor :=
  fun s t hst => ⟨h.actor s t hst, hst⟩

/-- What is done for the current actor is in lockstep if it is for every actor. -/
theorem forActor {x : Option A → Access ω α} {y : Option A → Access ω' α}
    (hx : ∀ who, Lockstep K (x who).run (y who).run) :
    Lockstep K (do x (← g.currentActor) : Access ω α).run
      (do y (← g'.currentActor) : Access ω' α).run := by
  intro s t hst
  have hactor := h.actor s t hst
  show Alongside K ((x (g.actor s)).run.run s) ((y (g'.actor t)).run.run t)
  rw [← hactor]
  exact hx _ s t hst

theorem roles_eq (actor : Option A) (r : R) : g.roles actor r = g'.roles actor r := by
  unfold Guard.roles
  rw [h.held]

variable [Resource R]

theorem denial_eq (r : R) (a : Action) (f : String) : g.denial r a f = g'.denial r a f := by
  unfold Guard.denial
  rw [h.settings]

theorem authorize (who : Option A) (r : R) (a : Action) (f : String) :
    Lockstep K (g.authorize who r a f).run (g'.authorize who r a f).run := by
  intro s t hst
  obtain ⟨hv, hK⟩ := h.consult ⟨who, a, r, f⟩ s t hst
  rw [run_authorize, run_authorize, h.denial_eq, hv]
  exact ⟨rfl, hK⟩

theorem authorizeAll (who : Option A) (r : R) (a : Action) (fs : List String) :
    Lockstep K (g.authorizeAll who r a fs).run (g'.authorizeAll who r a fs).run := by
  induction fs with
  | nil => exact .pure _
  | cons f fs ih => exact (h.authorize who r a f).bindAccess fun _ => ih

variable (w : Wrapper R)

/-- A check is in lockstep if the check before its refusal is. -/
theorem checkWith {before : Access ω Unit} {before' : Access ω' Unit}
    (hb : Lockstep K before.run before'.run) (a : Action) (f : String) :
    Lockstep K (w.checkWith g before a f).run (w.checkWith g' before' a f).run := by
  unfold Wrapper.checkWith
  cases w.ruling a f with
  | pass => exact .pure _
  | refuse =>
    refine hb.bindAccess fun _ => ?_
    rw [h.denial_eq]
    exact .pure _
  | consult => exact h.forActor fun who => (h.authorize who w.subject a f).bindAccess fun _ => .pure _

theorem check (a : Action) (f : String) : Lockstep K (w.check g a f).run (w.check g' a f).run := by
  refine h.checkWith w ?_ a f
  split
  · exact .pure _
  · exact h.checkWith w (.pure _) .read f

theorem can (a : Action) (f : String) : Lockstep K (w.can g a f) (w.can g' a f) := by
  refine (h.check w a f).bind fun r => ?_
  cases r <;> exact .pure _

theorem read (f : String) : Lockstep K (w.read g f).run (w.read g' f).run := by
  refine (h.check w .read f).bindAccess fun _ => ?_
  cases Resource.readField w.subject f <;> exact .pure _

theorem write (f : String) (v : Json) :
    Lockstep K ((Wrapper.write g f v).run.run w) ((Wrapper.write g' f v).run.run w) := by
  rw [Wrapper.run_write, Wrapper.run_write]
  exact (h.check w .update f).bind fun _ => .pure _

theorem clear (f : String) :
    Lockstep K ((Wrapper.clear g f).run.run w) ((Wrapper.clear g' f).run.run w) := by
  rw [Wrapper.run_clear, Wrapper.run_clear]
  exact (h.check w .delete f).bind fun _ => .pure _

theorem deleteRow : Lockstep K (w.deleteRow g).run (w.deleteRow g').run :=
  (h.check w .delete wildcard).bindAccess fun _ => .pure _

omit [Resource R] in
theorem roles : Lockstep K (w.roles g) (w.roles g') := by
  refine h.currentActor.bind fun who => ?_
  rw [h.roles_eq]
  exact .pure _

theorem allowedAmong (a : Action) (fs : List String) :
    Lockstep K (w.allowedAmong g a fs) (w.allowedAmong g' a fs) := by
  induction fs with
  | nil => exact .pure _
  | cons f fs ih => exact (h.can w a f).bind fun _ => ih.bind fun _ => .pure _

theorem create (r : R) (provided : List String) (options : CreationOptions) :
    Lockstep K (g.create r provided options).run (g'.create r provided options).run := by
  unfold Guard.create
  split
  · exact h.forActor fun who => (h.authorizeAll who r .create provided).bindAccess fun _ => .pure _
  · exact .pure _

/-! ## Programs -/

/-- The step: every operation is in lockstep. -/
theorem operation (op : Operation) : Lockstep K (op.run g w) (op.run g' w) := by
  cases op with
  | read f => exact (h.read w f).bind fun _ => .pure _
  | write f v => exact (h.write w f v).bind fun _ => .pure _
  | clear f => exact (h.clear w f).bind fun _ => .pure _
  | check a f => exact (h.check w a f).bind fun _ => .pure _
  | can a f => exact (h.can w a f).bind fun _ => .pure _
  | roles => exact (h.roles w).bind fun _ => .pure _
  | authorizedFields a => exact (h.allowedAmong w a _).bind fun _ => .pure _
  | currentActor => exact h.currentActor.bind fun _ => .pure _
  -- everything else has nothing to do with the guard
  | _ => exact .pure _

end Guard.InStep

/-- The steps aside of a program, at whatever depth. -/
def Program.acts : Program σ → List σ
  | .done => []
  | .step _ rest => rest.acts
  | .scope _ body rest => body.acts ++ rest.acts
  | .aside act rest => act :: rest.acts

/-- The states that the run of a program passes through: the wrapper and the surroundings before every
step, at whatever depth, and at the end of every body and of the program itself. -/
def Program.states [Resource R] (g : Guard ω A R) (aside : σ → StateM ω (Reply A)) :
    Program σ → Wrapper R → ω → List (Wrapper R × ω)
  | .done, w, s => [(w, s)]
  | .step op rest, w, s =>
    (w, s) :: rest.states g aside (op.finish g w s).1 (op.finish g w s).2
  | .scope sc body rest, w, s =>
    (w, s) :: (body.states g aside (w.enter sc).1 s ++
      rest.states g aside (visit g aside sc body w s).after
        (body.finish g aside (w.enter sc).1 s).2)
  | .aside act rest, w, s => (w, s) :: rest.states g aside w ((aside act).run s).2

/-- The last state is the one in which the program ends. -/
theorem Program.getLast?_states [Resource R] (g : Guard ω A R) (aside : σ → StateM ω (Reply A))
    (p : Program σ) (w : Wrapper R) (s : ω) :
    (p.states g aside w s).getLast? = some (p.finish g aside w s) := by
  induction p generalizing w s with
  | done => rfl
  | step op rest ih =>
    show ((w, s) :: rest.states g aside _ _).getLast? = _
    rw [List.getLast?_cons, ih, finish_step]
    rfl
  | scope sc body rest ihBody ihRest =>
    show ((w, s) :: (body.states g aside _ _ ++ rest.states g aside _ _)).getLast? = _
    rw [List.getLast?_cons, List.getLast?_append, ihRest, finish_scope]
    rfl
  | aside act rest ih =>
    show ((w, s) :: rest.states g aside _ _).getLast? = _
    rw [List.getLast?_cons, ih, finish_aside]
    rfl

namespace Guard.InStep

variable [Resource R] {g : Guard ω A R} {g' : Guard ω' A R} {aside : σ → StateM ω (Reply A)}
  {aside' : σ → StateM ω' (Reply A)} {p : Program σ}

/-- **The run**: a program is in lockstep if its steps aside are. -/
theorem program (h : g.InStep K g') (ha : ∀ act ∈ p.acts, Lockstep K (aside act) (aside' act))
    (w : Wrapper R) : Lockstep K (p.run g aside w) (p.run g' aside' w) := by
  induction p generalizing w with
  | done => exact .pure _
  | step op rest ih =>
    refine (h.operation w op).bind ?_
    rintro ⟨r, w'⟩
    exact (ih ha w').bind fun _ => .pure _
  | scope sc body rest ihBody ihRest =>
    obtain ⟨haBody, haRest⟩ := List.forall_mem_append.1 ha
    refine (ihBody haBody (w.enter sc).1).bind ?_
    rintro ⟨b, w'⟩
    exact (ihRest haRest (w'.leave (w.enter sc).2)).bind fun _ => .pure _
  | aside act rest ih =>
    obtain ⟨hact, haRest⟩ := List.forall_mem_cons.1 ha
    exact hact.bind fun _ => (ih haRest w).bind fun _ => .pure _

/-- The states of a run are related one by one. -/
theorem states (h : g.InStep K g') (ha : ∀ act ∈ p.acts, Lockstep K (aside act) (aside' act))
    (w : Wrapper R) {s : ω} {t : ω'} (hst : K s t) :
    List.Forall₂ (Alongside K) (p.states g aside w s) (p.states g' aside' w t) := by
  induction p generalizing w s t with
  | done => exact .cons ⟨rfl, hst⟩ .nil
  | step op rest ih =>
    obtain ⟨hv, hK⟩ := h.operation w op s t hst
    have hw : (op.finish g w s).1 = (op.finish g' w t).1 := congrArg Prod.snd hv
    refine .cons ⟨rfl, hst⟩ ?_
    rw [hw]
    exact ih ha _ hK
  | scope sc body rest ihBody ihRest =>
    obtain ⟨haBody, haRest⟩ := List.forall_mem_append.1 ha
    obtain ⟨hv, hK⟩ := h.program haBody (w.enter sc).1 s t hst
    -- the bodies end with the same wrapper, so the scopes drop to the same one
    have hw : (Program.visit g aside sc body w s).after = (Program.visit g' aside' sc body w t).after :=
      congrArg (fun x : Transcript A × Wrapper R => x.2.leave (w.enter sc).2) hv
    refine .cons ⟨rfl, hst⟩ (List.rel_append (ihBody haBody _ hst) ?_)
    rw [hw]
    exact ihRest haRest _ hK
  | aside act rest ih =>
    obtain ⟨hact, haRest⟩ := List.forall_mem_cons.1 ha
    exact .cons ⟨rfl, hst⟩ (ih haRest w (hact s t hst).2)

end Guard.InStep

end FieldAccess
