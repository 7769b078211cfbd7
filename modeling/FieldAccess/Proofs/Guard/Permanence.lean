/-
  What stays of overrides that are made for good.

  1. **Calls** — a run makes permanent calls at any depth.  A call is recorded with what the scopes
     around it have yet to undo.

  2. **Owned entries** — a scope takes back the pairs that it brought.  A call for a pair that an open
     scope of its kind has brought adds nothing, so the pair goes with that scope
     (`permanent_denial_lost`): entries do not record who asked for them.

  3. **The crux** — a pair that is there when a scope is entered is not among those that the scope
     brings, so no scope that is entered later takes it away.  Hence whatever is there when a program
     starts is there when it ends (`Program.mem_pairs_finish`), and in force; a call inside a scope
     needs in addition that the scopes that are open around it leave its pair alone.

  Core only.
-/
import FieldAccess.Proofs.Guard.Decision
import FieldAccess.Proofs.Guard.Scopes

namespace FieldAccess

variable {ω σ A R : Type}

/-! ## What a scope takes back -/

/-- The end of the scope takes away a pair of a kind. -/
def Undo.Takes (kind : Effect) (e : Action × String) : Undo → Prop
  | override k added => k = kind ∧ e ∈ added
  | exposure _ => False

namespace Wrapper

theorem mem_pairs_leave {w : Wrapper R} {u : Undo} {kind : Effect} {e : Action × String} :
    e ∈ ((w.leave u).overrides kind).pairs ↔ e ∈ (w.overrides kind).pairs ∧ ¬ u.Takes kind e := by
  cases u with
  | exposure p =>
    have hsame : (w.leave (.exposure p)).overrides kind = w.overrides kind := by cases kind <;> rfl
    rw [hsame]
    exact (and_iff_left id).symm
  | override k added =>
    by_cases hk : kind = k
    · subst hk
      have hpairs : e ∈ ((w.overrides kind).remove added).pairs ↔
          e ∈ (w.overrides kind).pairs ∧ e ∉ added := Overrides.mem_pairs_remove
      have hrest : ¬ (Undo.override kind added).Takes kind e ↔ e ∉ added :=
        not_congr (and_iff_right rfl)
      simp only [leave, overrides_setOverrides_self]
      rw [hrest]
      exact hpairs
    · have hnot : ¬ (Undo.override k added).Takes kind e := fun h => hk h.1.symm
      simp only [leave, overrides_setOverrides_ne _ hk]
      exact (and_iff_left hnot).symm

/-- A pair that is there when a scope is entered stays, and the scope does not take it back. -/
theorem mem_pairs_enter {w : Wrapper R} {sc : WrapperScope} {kind : Effect} {e : Action × String}
    (h : e ∈ (w.overrides kind).pairs) :
    e ∈ ((w.enter sc).1.overrides kind).pairs ∧ ¬ (w.enter sc).2.Takes kind e := by
  have hopens := w.opens_enter sc
  cases sc with
  | exposure p =>
    rw [hopens.2.1 kind]
    exact ⟨h, id⟩
  | override k actions fields =>
    by_cases hk : kind = k
    · subst hk
      have hadded : e ∉ ((w.overrides kind).add fields actions).2 := by
        intro hm
        exact (Overrides.mem_added.1 hm).2 h
      exact ⟨(hopens.1 e).2 (Or.inl h), fun ht => hadded ht.2⟩
    · rw [hopens.2.1 kind hk]
      exact ⟨h, fun ht => hk ht.1.symm⟩

theorem mem_pairs_override {w : Wrapper R} {k kind : Effect} {actions : List Action}
    {fields : FieldSet} {e : Action × String} :
    e ∈ ((w.override k actions fields).overrides kind).pairs ↔
      e ∈ (w.overrides kind).pairs ∨ kind = k ∧ e.1 ∈ actions ∧ e.2 ∈ fields := by
  unfold override
  by_cases hk : kind = k
  · subst hk
    rw [overrides_setOverrides_self]
    have hadd : e ∈ ((w.overrides kind).add fields actions).1.pairs ↔
        e ∈ (w.overrides kind).pairs ∨ e.1 ∈ actions ∧ e.2 ∈ fields := Overrides.mem_pairs_add
    rw [and_iff_right rfl]
    exact hadd
  · rw [overrides_setOverrides_ne _ hk]
    exact (or_iff_left fun h => hk h.1).symm

end Wrapper

/-! ## What stays -/

section Runs

variable [Resource R] (g : Guard ω A R) (aside : σ → StateM ω (Reply A))

/-- The step: no operation takes a pair away. -/
theorem Operation.mem_pairs_finish (op : Operation) {w : Wrapper R} {kind : Effect}
    {e : Action × String} (h : e ∈ (w.overrides kind).pairs) (s : ω) :
    e ∈ ((op.finish g w s).1.overrides kind).pairs := by
  cases hop : op.isPermanent with
  | false =>
    have hagree := Operation.agree_finish g hop w s
    rw [hagree.entries kind]
    exact h
  | true =>
    cases op with
    | override k actions fields => exact Wrapper.mem_pairs_override.2 (Or.inl h)
    | setProtection p => cases kind <;> exact h
    | _ => cases hop

/-- The run: whatever pair is there when a program starts is there when it ends. -/
theorem Program.mem_pairs_finish (p : Program σ) {w : Wrapper R} {kind : Effect}
    {e : Action × String} (h : e ∈ (w.overrides kind).pairs) (s : ω) :
    e ∈ ((p.finish g aside w s).1.overrides kind).pairs := by
  induction p generalizing w s with
  | done => exact h
  | step op rest ih =>
    rw [finish_step]
    exact ih (Operation.mem_pairs_finish g op h s) _
  | scope sc body rest ihBody ihRest =>
    rw [finish_scope]
    have henter : e ∈ ((w.enter sc).1.overrides kind).pairs ∧ ¬ (w.enter sc).2.Takes kind e :=
      Wrapper.mem_pairs_enter h
    obtain ⟨hin, hleft⟩ := henter
    have hend : e ∈ ((visit g aside sc body w s).after.overrides kind).pairs :=
      Wrapper.mem_pairs_leave.2 ⟨ihBody hin s, hleft⟩
    exact ihRest hend _
  | aside act rest ih =>
    rw [finish_aside]
    exact ih h _

/-! ## Permanent calls -/

/-- An override that is made for good, and what the scopes around it have yet to undo, innermost
first. -/
structure PermanentCall where
  kind : Effect
  actions : List Action
  fields : FieldSet
  pending : List Undo

/-- The pair is one that the call asks for, and no scope of its kind that is open has brought it. -/
structure PermanentCall.Lasting (c : PermanentCall) (e : Action × String) : Prop where
  action : e.1 ∈ c.actions
  field : e.2 ∈ c.fields
  unowned : ∀ u ∈ c.pending, ¬ u.Takes c.kind e

/-- The permanent calls of the run of a program, at whatever depth. -/
inductive Program.Calls : Program σ → Wrapper R → ω → PermanentCall → Prop where
  | here (kind : Effect) (actions : List Action) (fields : FieldSet) (rest : Program σ)
    (w : Wrapper R) (s : ω) :
    Calls (.step (.override kind actions fields) rest) w s ⟨kind, actions, fields, []⟩
  | inside {sc : WrapperScope} {body rest : Program σ} {w : Wrapper R} {s : ω} {c : PermanentCall} :
    Calls body (w.enter sc).1 s c →
      Calls (.scope sc body rest) w s { c with pending := c.pending ++ [(w.enter sc).2] }
  | afterScope {sc : WrapperScope} {body rest : Program σ} {w : Wrapper R} {s : ω}
    {c : PermanentCall} :
    Calls rest (visit g aside sc body w s).after (body.finish g aside (w.enter sc).1 s).2 c →
      Calls (.scope sc body rest) w s c
  | afterStep {op : Operation} {rest : Program σ} {w : Wrapper R} {s : ω} {c : PermanentCall} :
    Calls rest (op.finish g w s).1 (op.finish g w s).2 c → Calls (.step op rest) w s c
  | afterAside {act : σ} {rest : Program σ} {w : Wrapper R} {s : ω} {c : PermanentCall} :
    Calls rest w ((aside act).run s).2 c → Calls (.aside act rest) w s c

/-- What a permanent call asks for is there when everything has dropped, unless a scope around the call
owns it. -/
theorem PermanentCall.Lasting.mem_pairs_finish {p : Program σ} {w : Wrapper R} {s : ω}
    {c : PermanentCall} {e : Action × String} (hl : c.Lasting e) (h : p.Calls g aside w s c) :
    e ∈ ((p.finish g aside w s).1.overrides c.kind).pairs := by
  induction h with
  | here kind actions fields rest w s =>
    rw [Program.finish_step]
    have hmade : e ∈ ((w.override kind actions fields).overrides kind).pairs :=
      Wrapper.mem_pairs_override.2 (Or.inr ⟨rfl, hl.action, hl.field⟩)
    exact Program.mem_pairs_finish g aside rest hmade _
  | @inside sc body rest w s c _ ih =>
    rw [Program.finish_scope]
    -- the scope is the outermost of those around the call
    have hinner : c.Lasting e :=
      ⟨hl.action, hl.field, fun u hu => hl.unowned u (List.mem_append_left _ hu)⟩
    have hleft : ¬ (w.enter sc).2.Takes c.kind e :=
      hl.unowned _ (List.mem_append_right _ List.mem_cons_self)
    have hend : e ∈ ((Program.visit g aside sc body w s).after.overrides c.kind).pairs :=
      Wrapper.mem_pairs_leave.2 ⟨ih hinner, hleft⟩
    exact Program.mem_pairs_finish g aside rest hend _
  | afterScope _ ih => exact ih hl
  | afterStep _ ih => exact ih hl
  | afterAside _ ih => exact ih hl

/-- A protected wrapper refuses what it denies by name or by the wildcard. -/
theorem Wrapper.refused_of_denied {w : Wrapper R} (hp : w.isProtected = true) {a : Action}
    {f field : String} (h : (a, f) ∈ w.denied.pairs) (hf : f = field ∨ f = wildcard) (s : ω) :
    (w.checked g a field s).1.isOk = false := by
  have hheld : w.denied.Hold a field := by
    rcases hf with rfl | rfl
    · exact Or.inl h
    · exact Or.inr h
  have hr : w.ruling a field = .refuse := ruling_eq_refuse_iff.2 ⟨hp, Overrides.hold_iff.1 hheld⟩
  unfold checked check
  rw [run_checkWith_refuse hr]
  split <;> rfl

/-- The entry is there, and if it denies an action, a protected wrapper refuses that action: on the field
that the entry names, or on every field if it names the wildcard. -/
structure Wrapper.InForce (w : Wrapper R) (kind : Effect) (e : Action × String) : Prop where
  mem : e ∈ (w.overrides kind).pairs
  refused : kind = .deny → w.isProtected = true → ∀ field, e.2 = field ∨ e.2 = wildcard →
    ∀ s, (w.checked g e.1 field s).1.isOk = false

theorem Wrapper.InForce.of_mem {w : Wrapper R} {kind : Effect} {e : Action × String}
    (h : e ∈ (w.overrides kind).pairs) : w.InForce g kind e where
  mem := h
  refused := by
    rintro rfl hp field hf s
    exact refused_of_denied g hp h hf s

/-- **Permanent overrides are kept, unless a scope owns them.**  Once every scope of a program has
dropped, each entry that was there before is still in force, and so is each entry of each permanent call,
at whatever depth, that no scope of its kind around the call had brought itself.  A field that such an
entry denies, by name or by the wildcard, stays denied. -/
theorem Program.overrides_of_calls (p : Program σ) (w : Wrapper R) (s : ω) :
    (∀ kind, ∀ e ∈ (w.overrides kind).pairs, (p.finish g aside w s).1.InForce g kind e) ∧
    ∀ c, p.Calls g aside w s c → ∀ e, c.Lasting e →
      (p.finish g aside w s).1.InForce g c.kind e := by
  constructor
  · intro kind e he
    exact .of_mem g (mem_pairs_finish g aside p he s)
  · intro c hc e hl
    exact .of_mem g (hl.mem_pairs_finish g aside hc)

end Runs

/-- Inside a scope that denies updates of `id`, and a scope in it that denies readings of every field,
`id` is denied for reading and every field for deleting, for good; both denials outlast the scopes. -/
theorem Program.overrides_of_calls_nested :
    let g : Guard Unit Unit User := Guard.withRoles (fun _ _ => ∅) fun _ => none
    let aside : Unit → StateM Unit (Reply Unit) := fun _ => pure (.ok .done)
    let w : Wrapper User := { subject := ⟨"1", "ann", none⟩, isProtected := true }
    let outer : WrapperScope := .override .deny [.update] (OrderedSet.ofList ["id"])
    let inner : WrapperScope := .override .deny [.read] FieldSet.all
    let call : Operation := .override .deny [.read, .delete] (OrderedSet.ofList ["id", "*"])
    let p : Program Unit := .scope outer (.scope inner (.step call .done) .done) .done
    let c : PermanentCall := ⟨.deny, [.read, .delete], OrderedSet.ofList ["id", "*"],
      [.override .deny [(.read, "*")], .override .deny [(.update, "id")]]⟩
    p.Calls g aside w () c ∧ c.Lasting (.read, "id") ∧ c.Lasting (.delete, "*") ∧
      (.read, "id") ∈ (p.finish g aside w ()).1.denied.pairs ∧
      ((p.finish g aside w ()).1.checked g .delete "username" ()).1.isOk = false := by
  intro g aside w outer inner call p c
  have hc : p.Calls g aside w () c := .inside (.inside (.here ..))
  have hid : c.Lasting (.read, "id") := by
    refine ⟨by decide, by decide, ?_⟩
    simp [c, Undo.Takes]
  have hrow : c.Lasting (.delete, "*") := by
    refine ⟨by decide, by decide, ?_⟩
    simp [c, Undo.Takes]
  have hkept := (overrides_of_calls g aside p w ()).2 c hc
  refine ⟨hc, hid, hrow, (hkept _ hid).mem, ?_⟩
  exact (hkept _ hrow).refused rfl (by decide) "username" (Or.inr rfl) ()

/-- A scope denies readings of `id`, and inside it the same is denied for good.  The denial is gone when
the scope has dropped, and `id` can be read. -/
theorem Program.permanent_denial_lost :
    let g : Guard Unit Unit User := Guard.withRoles (fun _ _ => SortedSet.ofList ["public"]) fun _ => none
    let aside : Unit → StateM Unit (Reply Unit) := fun _ => pure (.ok .done)
    let w : Wrapper User := g.wrap ⟨"1", "ann", none⟩
    let ids : FieldSet := OrderedSet.ofList ["id"]
    let p : Program Unit :=
      .scope (.override .deny [.read] ids) (.step (.override .deny [.read] ids) .done) .done
    (∃ c, p.Calls g aside w () c ∧ c.kind = .deny ∧ .read ∈ c.actions ∧ "id" ∈ c.fields) ∧
      (.read, "id") ∉ ((p.finish g aside w ()).1.overrides .deny).pairs ∧
      ((p.finish g aside w ()).1.checked g .read "id" ()).1.isOk = true := by
  intro g aside w ids p
  let o : Oracle Unit User := Oracle.byRoles fun _ _ => SortedSet.ofList ["public"]
  have hs : g.Silent o := fun _ => rfl
  have hpass : (p.finish g aside w ()).1.passes o none .read "id" = true := by decide
  refine ⟨⟨_, .inside (.here ..), rfl, by decide, by decide⟩, by decide, ?_⟩
  exact (Wrapper.isOk_checked hs).trans hpass

end FieldAccess
