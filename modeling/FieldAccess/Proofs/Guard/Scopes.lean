/-
  Scopes undo what they did, at any nesting.

  1. **Visits** — a run of a program visits every scope that it enters and leaves, at whatever depth.  A
     visit records the wrapper at four moments: before the scope is entered, at the start of the body,
     at its end, and when the scope has dropped.

  2. **What entering and dropping do** — `Opens`: an override scope puts its pairs in effect, an exposure
     scope sets the protection.  `Undone`: an override scope takes away the pairs of its kind that it
     brought itself, an exposure scope restores the protection.  All else stays in both cases.

  3. **Temporary programs** — without permanent overrides and bare changes of the protection, a program
     leaves the entries, in order, and the protection as they were.  The invariant is `Agree`; one step
     keeps it, and a scope brings it back: what is added on entering is what is filtered out on leaving.

  Core only.
-/
import FieldAccess.Guard.Program
import FieldAccess.Proofs.Guard.Calls
import FieldAccess.Proofs.Guard.OverrideEntries
import FieldAccess.Models.User

namespace FieldAccess

variable {ω σ A R : Type}

/-! ## Visits -/

/-- A scope in a run, with the wrapper at four moments. -/
structure Visit (σ R : Type) where
  scope : WrapperScope
  body : Program σ
  /-- Before the scope is entered. -/
  before : Wrapper R
  /-- At the start of the body. -/
  atStart : Wrapper R
  /-- At the end of the body. -/
  atEnd : Wrapper R
  /-- When the scope has dropped. -/
  after : Wrapper R

section Runs

variable [Resource R] (g : Guard ω A R) (aside : σ → StateM ω (Reply A))

/-- The wrapper and the surroundings after an operation. -/
def Operation.finish (op : Operation) (w : Wrapper R) (s : ω) : Wrapper R × ω :=
  (((op.run g w).run s).1.2, ((op.run g w).run s).2)

/-- A change that is an edit after a check settles on what the model makes of the edit. -/
theorem Operation.run_settled {a : Action} {f : String} {x : GuardedEdit ω R Unit} {e : Edit R Unit}
    {w : Wrapper R}
    (hx : x.run.run w = (do return w.afterCheck (← (w.check g a f).run) (w.unguarded f e))) (s : ω) :
    (do return settled (← x.run.run w) : StateM ω (Reply A × Wrapper R)).run s =
      (settled (w.afterCheck (w.checked g a f s).1 (w.unguarded f e)), (w.checked g a f s).2) := by
  rw [hx]
  rfl

theorem Operation.run_write (f : String) (v : Json) (w : Wrapper R) (s : ω) :
    ((write f v).run g w).run s =
      (settled (w.afterCheck (w.checked g .update f s).1
        (w.unguarded f (Resource.writeField f v))), (w.checked g .update f s).2) :=
  run_settled g (Wrapper.run_write g w f v) s

theorem Operation.run_clear (f : String) (w : Wrapper R) (s : ω) :
    ((clear f).run g w).run s =
      (settled (w.afterCheck (w.checked g .delete f s).1
        (w.unguarded f (Resource.clearField f))), (w.checked g .delete f s).2) :=
  run_settled g (Wrapper.run_clear g w f) s

/-- The wrapper and the surroundings after a program. -/
def Program.finish (p : Program σ) (w : Wrapper R) (s : ω) : Wrapper R × ω :=
  (((p.run g aside w).run s).1.2, ((p.run g aside w).run s).2)

/-- The visit of a scope that is entered with a wrapper in some surroundings. -/
def Program.visit (sc : WrapperScope) (body : Program σ) (w : Wrapper R) (s : ω) : Visit σ R :=
  let (atStart, undo) := w.enter sc
  let atEnd := (body.finish g aside atStart s).1
  { scope := sc, body, before := w, atStart, atEnd, after := atEnd.leave undo }

/-- The visits of the run of a program: the scope that comes next, the scopes in its body, and those
that follow. -/
inductive Program.Visits : Program σ → Wrapper R → ω → Visit σ R → Prop where
  | here (sc : WrapperScope) (body rest : Program σ) (w : Wrapper R) (s : ω) :
    Visits (.scope sc body rest) w s (visit g aside sc body w s)
  | inside {sc : WrapperScope} {body rest : Program σ} {w : Wrapper R} {s : ω} {v : Visit σ R} :
    Visits body (w.enter sc).1 s v → Visits (.scope sc body rest) w s v
  | afterScope {sc : WrapperScope} {body rest : Program σ} {w : Wrapper R} {s : ω}
    {v : Visit σ R} :
    Visits rest (visit g aside sc body w s).after (body.finish g aside (w.enter sc).1 s).2 v →
      Visits (.scope sc body rest) w s v
  | afterStep {op : Operation} {rest : Program σ} {w : Wrapper R} {s : ω} {v : Visit σ R} :
    Visits rest (op.finish g w s).1 (op.finish g w s).2 v → Visits (.step op rest) w s v
  | afterAside {act : σ} {rest : Program σ} {w : Wrapper R} {s : ω} {v : Visit σ R} :
    Visits rest w ((aside act).run s).2 v → Visits (.aside act rest) w s v

theorem Program.finish_done (w : Wrapper R) (s : ω) :
    (Program.done : Program σ).finish g aside w s = (w, s) := rfl

theorem Program.finish_step (op : Operation) (rest : Program σ) (w : Wrapper R) (s : ω) :
    (Program.step op rest).finish g aside w s =
      rest.finish g aside (op.finish g w s).1 (op.finish g w s).2 := rfl

theorem Program.finish_scope (sc : WrapperScope) (body rest : Program σ) (w : Wrapper R) (s : ω) :
    (Program.scope sc body rest).finish g aside w s =
      rest.finish g aside (visit g aside sc body w s).after
        (body.finish g aside (w.enter sc).1 s).2 := rfl

theorem Program.finish_aside (act : σ) (rest : Program σ) (w : Wrapper R) (s : ω) :
    (Program.aside act rest).finish g aside w s = rest.finish g aside w ((aside act).run s).2 := rfl

end Runs

/-! ## What entering and dropping do -/

/-- Opening a scope puts its pairs in effect or sets its protection, and does nothing else. -/
def WrapperScope.Opens (sc : WrapperScope) (w w' : Wrapper R) : Prop :=
  match sc with
  | .override kind actions fields =>
    (∀ p, p ∈ (w'.overrides kind).pairs ↔
        p ∈ (w.overrides kind).pairs ∨ p.1 ∈ actions ∧ p.2 ∈ fields) ∧
      (∀ other, other ≠ kind → w'.overrides other = w.overrides other) ∧
      w'.isProtected = w.isProtected ∧ w'.subject = w.subject
  | .exposure p =>
    w'.isProtected = p ∧ (∀ kind, w'.overrides kind = w.overrides kind) ∧ w'.subject = w.subject

theorem Wrapper.opens_enter (w : Wrapper R) (sc : WrapperScope) : sc.Opens w (w.enter sc).1 := by
  cases sc with
  | exposure p => exact ⟨rfl, fun kind => by cases kind <;> rfl, rfl⟩
  | override kind actions fields =>
    refine ⟨fun p => ?_, fun other ho => overrides_setOverrides_ne _ ho _,
      isProtected_setOverrides .., subject_setOverrides ..⟩
    simp only [enter, overrides_setOverrides_self]
    exact Overrides.mem_pairs_add

/-- A scope undoes what it did and nothing else. -/
def Visit.Undone (v : Visit σ R) : Prop :=
  match v.scope with
  | .override kind actions fields =>
    (v.after.overrides kind).pairs = (v.atEnd.overrides kind).pairs.filter (fun p =>
        ¬ (p.1 ∈ actions ∧ p.2 ∈ fields ∧ p ∉ (v.before.overrides kind).pairs)) ∧
      (∀ other, other ≠ kind → v.after.overrides other = v.atEnd.overrides other) ∧
      v.after.isProtected = v.atEnd.isProtected ∧ v.after.subject = v.atEnd.subject
  | .exposure _ =>
    v.after.isProtected = v.before.isProtected ∧
      (∀ kind, v.after.overrides kind = v.atEnd.overrides kind) ∧
      v.after.subject = v.atEnd.subject

/-- A visit ends with what the body left, less what entering had brought. -/
theorem Program.undone_visit [Resource R] (g : Guard ω A R) (aside : σ → StateM ω (Reply A))
    (sc : WrapperScope) (body : Program σ) (w : Wrapper R) (s : ω) :
    (visit g aside sc body w s).Undone := by
  cases sc with
  | exposure p => exact ⟨rfl, fun kind => by cases kind <;> rfl, rfl⟩
  | override kind actions fields =>
    simp only [Visit.Undone, visit, Wrapper.enter, Wrapper.leave,
      Wrapper.overrides_setOverrides_self, Wrapper.isProtected_setOverrides,
      Wrapper.subject_setOverrides, and_true]
    constructor
    · rw [Overrides.pairs_remove]
      refine List.filter_congr fun p _ => decide_eq_decide.2 (not_congr ?_)
      exact Overrides.mem_added.trans and_assoc
    · exact fun other ho => Wrapper.overrides_setOverrides_ne _ ho _

/-! ## Temporary programs -/

/-- Two wrappers have the same entries, in the same order, and the same protection. -/
structure Wrapper.Agree (w w' : Wrapper R) : Prop where
  entries : ∀ kind, (w'.overrides kind).pairs = (w.overrides kind).pairs
  protection : w'.isProtected = w.isProtected

namespace Wrapper.Agree

theorem refl (w : Wrapper R) : Agree w w := ⟨fun _ => rfl, rfl⟩

theorem trans {w₁ w₂ w₃ : Wrapper R} (h : Agree w₁ w₂) (h' : Agree w₂ w₃) : Agree w₁ w₃ :=
  ⟨fun kind => (h'.entries kind).trans (h.entries kind), h'.protection.trans h.protection⟩

theorem withSubject (w : Wrapper R) (r : R) : Agree w { w with subject := r } :=
  ⟨fun kind => by cases kind <;> rfl, rfl⟩

/-- Wrappers that agree rule alike on every access. -/
theorem ruling_eq {w w' : Wrapper R} (h : Agree w w') (a : Action) (f : String) :
    w'.ruling a f = w.ruling a f :=
  ruling_congr h.protection (fun kind p => by rw [h.entries kind]) a f

/-- Wrappers of one instance that agree are checked alike on every access. -/
theorem check_eq [Resource R] {w w' : Wrapper R} (h : Agree w w') (hs : w'.subject = w.subject)
    (g : Guard ω A R) (a : Action) (f : String) : w'.check g a f = w.check g a f := by
  have hr : ∀ b, w'.ruling b f = w.ruling b f := fun b => h.ruling_eq b f
  have hw : ∀ (before : Access ω Unit) (b : Action),
      w'.checkWith g before b f = w.checkWith g before b f := by
    intro before b
    unfold checkWith
    rw [hr b, hs]
  have hread : w'.checkRead g f = w.checkRead g f := hw _ .read
  unfold check
  rw [hw, hread]

/-- A body that keeps what it found when its scope was entered is undone altogether. -/
theorem leave {w w' : Wrapper R} {sc : WrapperScope} (h : Agree (w.enter sc).1 w') :
    Agree w (w'.leave (w.enter sc).2) := by
  obtain ⟨he, hp⟩ := h
  cases sc with
  | exposure p =>
    refine ⟨fun kind => ?_, rfl⟩
    have := he kind
    cases kind <;> exact this
  | override kind actions fields =>
    refine ⟨fun other => ?_, ?_⟩
    · by_cases ho : other = kind
      · subst ho
        -- the drop filters out of the pairs what entering had added to them
        have hk := he other
        simp only [enter, Wrapper.leave, overrides_setOverrides_self] at hk ⊢
        rw [Overrides.pairs_remove, hk, Overrides.pairs_filter_added]
      · have hk := he other
        simp only [enter, Wrapper.leave, overrides_setOverrides_ne _ ho] at hk ⊢
        exact hk
    · simp only [enter, Wrapper.leave, isProtected_setOverrides] at hp ⊢
      exact hp

end Wrapper.Agree

/-- An operation that changes overrides or the protection for good. -/
def Operation.isPermanent : Operation → Bool
  | override .. => true
  | setProtection _ => true
  | _ => false

/-- A program without permanent operations, at whatever depth. -/
def Program.Temporary : Program σ → Prop
  | .done => True
  | .step op rest => op.isPermanent = false ∧ rest.Temporary
  | .scope _ body rest => body.Temporary ∧ rest.Temporary
  | .aside _ rest => rest.Temporary

section Runs

variable [Resource R] (g : Guard ω A R) (aside : σ → StateM ω (Reply A))

/-- Whatever an edit does, it does it to the instance. -/
theorem Wrapper.agree_afterCheck (w : Wrapper R) (c : Except AccessError Unit) (f : String)
    (e : Edit R Unit) : w.Agree (w.afterCheck c (w.unguarded f e)).2 := by
  cases c with
  | error err => exact .refl w
  | ok _ => exact .withSubject w _

/-- The step: an operation that is not permanent leaves entries and protection alone. -/
theorem Operation.agree_finish {op : Operation} (h : op.isPermanent = false) (w : Wrapper R) (s : ω) :
    w.Agree (op.finish g w s).1 := by
  cases op with
  | override kind actions fields => cases h
  | setProtection p => cases h
  | write field v =>
    unfold finish
    rw [run_write]
    exact w.agree_afterCheck _ field _
  | clear field =>
    unfold finish
    rw [run_clear]
    exact w.agree_afterCheck _ field _
  | _ => exact .refl w

/-- The run: a temporary program leaves entries and protection as they were. -/
theorem Program.agree_finish {p : Program σ} (h : p.Temporary) (w : Wrapper R) (s : ω) :
    w.Agree (p.finish g aside w s).1 := by
  induction p generalizing w s with
  | done =>
    rw [finish_done]
    exact .refl w
  | step op rest ih =>
    rw [finish_step]
    exact (Operation.agree_finish g h.1 w s).trans (ih h.2 _ _)
  | scope sc body rest ihBody ihRest =>
    rw [finish_scope]
    have hv : w.Agree (visit g aside sc body w s).after := (ihBody h.1 (w.enter sc).1 s).leave
    exact hv.trans (ihRest h.2 _ _)
  | aside act rest ih =>
    rw [finish_aside]
    exact ih h w _

/-! ## Every visit -/

/-- **Scopes undo exactly what they did, at any nesting.**  Every scope that a run visits puts its pairs in
effect or sets its protection; when it drops it takes away the pairs that it brought and restores the
protection that it found, and it leaves all else as its body left it.  If its body has no permanent
operation, at whatever depth, then the entries of both kinds, in order, and the protection are those from
before the scope, so that the instance rules on every access as it did before, and every check is the
same one unless the body changed the instance. -/
theorem Program.undone_of_visits {p : Program σ} {w : Wrapper R} {s : ω} {v : Visit σ R}
    (h : p.Visits g aside w s v) :
    v.scope.Opens v.before v.atStart ∧ v.Undone ∧ (v.body.Temporary →
      v.before.Agree v.after ∧ ∀ a f, v.after.ruling a f = v.before.ruling a f ∧
        (v.after.subject = v.before.subject → v.after.check g a f = v.before.check g a f)) := by
  induction h with
  | here sc body rest w s =>
    refine ⟨w.opens_enter sc, undone_visit g aside sc body w s, fun ht => ?_⟩
    have h := (agree_finish g aside ht (w.enter sc).1 s).leave
    exact ⟨h, fun a f => ⟨h.ruling_eq a f, fun he => h.check_eq he g a f⟩⟩
  | inside _ ih => exact ih
  | afterScope _ ih => exact ih
  | afterStep _ ih => exact ih
  | afterAside _ ih => exact ih

end Runs

/-- A scope inside a scope, over an entry that is there already: the inner one denies updates of `id`,
as the wrapper does anyway, and of every field; the outer one denies readings and updates of `id`. -/
theorem Program.undone_of_visits_nested :
    let g : Guard Unit Unit User := Guard.withRoles (fun _ _ => ∅) fun _ => none
    let aside : Unit → StateM Unit (Reply Unit) := fun _ => pure (.ok .done)
    let w : Wrapper User :=
      { subject := ⟨"1", "ann", none⟩, isProtected := true
        denied := OrderedMap.ofList [(.update, OrderedSet.ofList ["id"])] }
    let inner : WrapperScope := .override .deny [.update] (OrderedSet.ofList ["id", "*"])
    let outer : WrapperScope := .override .deny [.read, .update] (OrderedSet.ofList ["id"])
    let body : Program Unit := .step (.write "username" (.string "bea")) .done
    let v := visit g aside inner body (w.enter outer).1 ()
    (Program.scope outer (.scope inner body .done) .done).Visits g aside w () v ∧
      v.body.Temporary ∧ (.update, "*") ∈ v.atStart.denied.pairs ∧ v.Undone ∧
      v.before.Agree v.after ∧ v.after.denied.pairs = [(.update, "id"), (.read, "id")] := by
  intro g aside w inner outer body v
  have hv : (Program.scope outer (.scope inner body .done) .done).Visits g aside w () v :=
    .inside (.here inner body .done _ _)
  have ht : v.body.Temporary := ⟨rfl, trivial⟩
  obtain ⟨hopens, hundone, hkept⟩ := undone_of_visits g aside hv
  have hagree : v.before.Agree v.after := (hkept ht).1
  refine ⟨hv, ht, ?_, hundone, hagree, ?_⟩
  · exact (hopens.1 (.update, "*")).2 (Or.inr (by decide))
  · rw [show v.after.denied.pairs = v.before.denied.pairs from hagree.entries .deny]
    decide

end FieldAccess
