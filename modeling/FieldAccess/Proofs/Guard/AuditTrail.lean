/-
  The audit trail is exact, and auditing changes nothing.

  1. **Without a trail** — `bare` is the session guard that asks the oracle itself.  Surroundings are
     audited next to others if they are the same apart from the trail and the counters of the trail
     agree with its events (`Surroundings.Audits`).

  2. **Sessions** — under that relation the audited guard and the bare one are in step, and so is every
     step of a session and every state that it passes through.

  3. **What a check adds** — an access that the instance lets pass is not recorded, one that it refuses
     leaves what the check of reading leaves, and one that it leaves open is recorded once
     (`Wrapper.recorded_check`).

  4. **Main statement** — `audit_of_steps`: the replies and states of a session are those without
     auditing, the trail is exact in every state, and a check adds what it should.
-/
import FieldAccess.Guard.Session
import FieldAccess.Proofs.Guard.Lockstep

namespace FieldAccess

variable {A R : Type}

/-! ## Without a trail -/

/-- The surroundings with a new trail. -/
def Surroundings.untrailed (s : Surroundings A) : Surroundings A := { s with trail := {} }

/-- The second surroundings are the first without the trail, which is exact. -/
structure Surroundings.Audits (s t : Surroundings A) : Prop where
  bare : s.untrailed = t
  exact : s.trail.Exact

/-- A source looks for the actor outside the trail. -/
theorem ActorSource.current_untrailed (source : ActorSource A) (s : Surroundings A) :
    source.current s.untrailed = source.current s := by cases source <;> rfl

/-- A guard that asks the oracle itself and keeps no trail. -/
def SessionGuard.bare (o : Oracle A R) (held : Option (HeldRoles A R)) (source : ActorSource A)
    (settings : GuardSettings) : SessionGuard A R :=
  ⟨{ Guard.ofOracle o source.current with settings, held }, false⟩

/-- **The audited guard and the bare one are in step**: one consultation adds an event, which keeps the
trail exact, and is otherwise the answer of the oracle. -/
theorem SessionGuard.inStep_byOracle (o : Oracle A R) (held : Option (HeldRoles A R))
    (source : ActorSource A) (settings : GuardSettings) :
    (byOracle o held source settings).guard.InStep Surroundings.Audits
      (bare o held source settings).guard where
  consult := by
    rintro q s t ⟨rfl, hexact⟩
    exact ⟨rfl, rfl, hexact.record q (o q)⟩
  actor := by
    rintro s t ⟨rfl, -⟩
    exact (source.current_untrailed s).symm
  held := rfl
  settings := rfl

/-- The guard answers as the oracle, and records every answer. -/
def SessionGuard.Audited (g : SessionGuard A R) (o : Oracle A R) : Prop :=
  ∀ q s, (g.guard.consult q).run s = (o q, s.onTrail fun t => t.record q (o q))

theorem SessionGuard.audited_byOracle (o : Oracle A R) (held : Option (HeldRoles A R))
    (source : ActorSource A) (settings : GuardSettings) :
    (byOracle o held source settings).Audited o :=
  Guard.run_consult_audited o Surroundings.trail Surroundings.setTrail source.current

/-! ## Sessions -/

/-- The steps aside of a step, at whatever depth. -/
def SessionStep.acts : SessionStep A R → List (Aside A R)
  | use _ program => program.acts
  | aside act => [act]
  | _ => []

namespace SessionGuard

variable [Resource R]

/-- The states that a step passes through within a program: the instances, the one in use being as it is
then, and the surroundings. -/
def within (g : SessionGuard A R) (is : Instances R) (s : Surroundings A) :
    SessionStep A R → List (Instances R × Surroundings A)
  | .use name program =>
    match is.get? name with
    | some w => (program.states g.guard g.aside w s).map fun x => (is.insert name x.1, x.2)
    | none => []
  | _ => []

/-- The states that a session passes through: before every step, within its program, and at the end. -/
def states (g : SessionGuard A R) :
    Instances R → List (SessionStep A R) → Surroundings A → List (Instances R × Surroundings A)
  | is, [], s => [(is, s)]
  | is, st :: ss, s =>
    (is, s) :: (g.within is s st ++
      g.states ((g.step is st).run s).1.2 ss ((g.step is st).run s).2)

/-- The last state is the one in which the session ends. -/
theorem getLast?_states (g : SessionGuard A R) (is : Instances R) (ss : List (SessionStep A R))
    (s : Surroundings A) :
    (g.states is ss s).getLast?.map Prod.snd = some ((g.steps is ss).run s).2 := by
  induction ss generalizing is s with
  | nil => rfl
  | cons st ss ih =>
    have hrest := ih ((g.step is st).run s).1.2 ((g.step is st).run s).2
    obtain ⟨x, hx, hfinish⟩ := Option.map_eq_some_iff.1 hrest
    show ((is, s) :: (g.within is s st ++ g.states _ ss _)).getLast?.map Prod.snd = _
    rw [List.getLast?_cons, List.getLast?_append, hx]
    exact congrArg some hfinish

variable {g g' : SessionGuard A R} (h : g.guard.InStep Surroundings.Audits g'.guard)

include h

omit [Resource R] in
theorem lockstep_whoActs : Lockstep Surroundings.Audits g.whoActs g'.whoActs :=
  h.currentActor.bind fun _ => .pure _

omit [Resource R] in
/-- A change that has nothing to do with the trail is in lockstep. -/
theorem lockstep_change {f : Surroundings A → Surroundings A} (htrail : ∀ s, (f s).trail = s.trail)
    (hbare : ∀ s, (f s).untrailed = f s.untrailed) :
    Lockstep Surroundings.Audits (do modify f; g.whoActs) (do modify f; g'.whoActs) := by
  have hmodify : Lockstep Surroundings.Audits (modify f) (modify f) := by
    refine .update ?_
    rintro s t ⟨rfl, hexact⟩
    refine ⟨hbare s, ?_⟩
    rw [htrail]
    exact hexact
  exact hmodify.bind fun _ => lockstep_whoActs h

/-- A step aside is in lockstep, unless it asks for the counts. -/
theorem lockstep_aside {act : Aside A R} (hc : act ≠ .counts) :
    Lockstep Surroundings.Audits (g.aside act) (g'.aside act) := by
  cases act with
  | enter name actor => exact lockstep_change h (fun _ => rfl) fun _ => rfl
  | leave name => exact lockstep_change h (fun _ => rfl) fun _ => rfl
  | become actor => exact lockstep_change h (fun _ => rfl) fun _ => rfl
  | counts => exact absurd rfl hc
  | settings =>
    simp only [SessionGuard.aside]
    rw [h.settings]
    exact .pure _
  | authorize subject actor a f => exact (h.authorize actor subject a f).bind fun _ => .pure _
  | roles subject actor =>
    simp only [SessionGuard.aside]
    rw [h.roles_eq]
    exact .pure _
  | showGuard =>
    have hshown : g.guard.shown = g'.guard.shown := by
      unfold Guard.shown
      rw [h.settings, h.held]
    simp only [SessionGuard.aside]
    rw [hshown]
    exact .pure _
  | invalid e => exact .pure _

theorem lockstep_acts {acts : List (Aside A R)} (hc : .counts ∉ acts) :
    ∀ act ∈ acts, Lockstep Surroundings.Audits (g.aside act) (g'.aside act) := by
  intro act hact
  exact lockstep_aside h fun he => hc (he ▸ hact)

/-- The step: it is in lockstep, unless it asks for the counts. -/
theorem lockstep_step (is : Instances R) {st : SessionStep A R} (hc : .counts ∉ st.acts) :
    Lockstep Surroundings.Audits (g.step is st) (g'.step is st) := by
  cases st with
  | wrap name r =>
    have hwrap : g.guard.wrap r = g'.guard.wrap r := by
      unfold Guard.wrap
      rw [h.settings]
    show Lockstep _ (pure (keep name (is.erase name) (g.guard.wrap r))) _
    rw [hwrap]
    exact .pure _
  | create name r provided choice =>
    have hcreate := h.create r provided (choice.options g.guard.settings)
    unfold SessionGuard.step
    rw [← h.settings]
    refine hcreate.bind fun x => ?_
    cases x <;> exact .pure _
  | use name program =>
    simp only [SessionGuard.step]
    cases is.get? name with
    | none => exact .pure _
    | some w => exact (h.program (lockstep_acts h hc) w).bind fun _ => .pure _
  | deleteRow name =>
    simp only [SessionGuard.step]
    cases is.get? name with
    | none => exact .pure _
    | some w => exact (h.deleteRow w).bind fun _ => .pure _
  | release name =>
    simp only [SessionGuard.step]
    cases is.get? name <;> exact .pure _
  | aside act => exact (lockstep_acts h hc act List.mem_cons_self).bind fun _ => .pure _
  | invalid name e => exact .pure _

theorem within_alongside (is : Instances R) {st : SessionStep A R} (hc : .counts ∉ st.acts)
    {s t : Surroundings A} (hst : s.Audits t) :
    List.Forall₂ (Alongside Surroundings.Audits) (g.within is s st) (g'.within is t st) := by
  cases st with
  | use name program =>
    simp only [within]
    cases is.get? name with
    | none => exact .nil
    | some w =>
      have hstates := h.states (lockstep_acts h hc) w hst
      rw [List.forall₂_map_left_iff, List.forall₂_map_right_iff]
      refine hstates.imp ?_
      rintro x y ⟨hv, hK⟩
      exact ⟨congrArg (is.insert name) hv, hK⟩
  | _ => exact .nil

/-- **The run**: a session that never asks for the counts is in lockstep. -/
theorem lockstep_steps {ss : List (SessionStep A R)} (hc : ∀ st ∈ ss, .counts ∉ st.acts)
    (is : Instances R) : Lockstep Surroundings.Audits (g.steps is ss) (g'.steps is ss) := by
  induction ss generalizing is with
  | nil => exact .pure _
  | cons st ss ih =>
    obtain ⟨hstep, hrest⟩ := List.forall_mem_cons.1 hc
    refine (lockstep_step h is hstep).bind ?_
    rintro ⟨r, is'⟩
    exact (ih hrest is').bind fun _ => .pure _

theorem states_alongside {ss : List (SessionStep A R)} (hc : ∀ st ∈ ss, .counts ∉ st.acts)
    (is : Instances R) {s t : Surroundings A} (hst : s.Audits t) :
    List.Forall₂ (Alongside Surroundings.Audits) (g.states is ss s) (g'.states is ss t) := by
  induction ss generalizing is s t with
  | nil => exact .cons ⟨rfl, hst⟩ .nil
  | cons st ss ih =>
    obtain ⟨hstep, hrest⟩ := List.forall_mem_cons.1 hc
    obtain ⟨hv, hK⟩ := lockstep_step h is hstep s t hst
    refine .cons ⟨rfl, hst⟩ (List.rel_append (within_alongside h is hstep hst) ?_)
    -- both sides go on with the same instances
    rw [hv]
    exact ih hrest _ hK

end SessionGuard

/-- States that are audited next to others are these with a trail that is exact. -/
theorem Surroundings.map_untrailed {α : Type} {xs ys : List (α × Surroundings A)}
    (h : List.Forall₂ (Alongside Audits) xs ys) :
    xs.map (fun x => (x.1, x.2.untrailed)) = ys ∧ ∀ x ∈ xs, x.2.trail.Exact := by
  induction h with
  | nil => exact ⟨rfl, fun _ hx => nomatch hx⟩
  | cons hxy _ ih =>
    obtain ⟨hv, hbare, hexact⟩ := hxy
    refine ⟨?_, List.forall_mem_cons.2 ⟨hexact, ih.2⟩⟩
    rw [List.map_cons, ih.1]
    exact congrArg (· :: _) (Prod.ext hv hbare)

/-! ## What a check adds -/

theorem Outcome.level_ofVerdict (v : Verdict) :
    (ofVerdict v).level = if v.allowed then "DEBUG" else "INFO" := by
  unfold ofVerdict
  split <;> rfl

/-- The refusals are what is recorded at level `INFO`. -/
theorem Outcome.level_eq_info_iff {x : Outcome} : x.level = "INFO" ↔ x.isRefused = true := by
  cases x with
  | granted role => simp [level, isRefused]
  | refused reason => simp [level, isRefused]

/-- The counters are the numbers of events and of those at level `INFO`, in 64 bits. -/
theorem AuditTrail.Exact.counts {t : AuditTrail} (h : t.Exact) :
    t.evaluations.toNat = t.events.length % UInt64.size ∧
      t.denials.toNat = (t.events.countP fun e => e.outcome.level = "INFO") % UInt64.size := by
  have hlevel : (fun e : Event => decide (e.outcome.level = "INFO")) = fun e => e.outcome.isRefused := by
    funext e
    exact Bool.eq_iff_iff.2 (decide_eq_true_iff.trans Outcome.level_eq_info_iff)
  rw [hlevel, h.1, h.2]
  exact ⟨UInt64.toNat_ofNat', UInt64.toNat_ofNat'⟩

theorem Overrides.not_hold_iff {o : Overrides} {a : Action} {f : String} :
    ¬ o.Hold a f ↔ o.cover a f = false := by
  rw [hold_iff, Bool.not_eq_true]

namespace Wrapper

variable [Resource R]

section Finish

variable {ω : Type} {g : Guard ω A R} {w : Wrapper R} {a : Action} {f : String} {s : ω}

theorem finish_check_pass (hr : w.ruling a f = .pass) : (w.checked g a f s).2 = s := by
  unfold checked check
  rw [run_checkWith_pass hr]

/-- A refusal by the instance leaves what the check of reading leaves. -/
theorem finish_check_refuse (hr : w.ruling a f = .refuse) :
    (w.checked g a f s).2 = if a = .read then s else (w.checked g .read f s).2 := by
  have hfinish : (w.checked g a f s).2 =
      ((if a = .read then pure () else w.checkRead g f : Access ω Unit).run.run s).2 := by
    unfold checked check
    rw [run_checkWith_refuse hr]
    rcases (if a = .read then pure () else w.checkRead g f : Access ω Unit).run.run s with ⟨_ | _, s'⟩
    · rfl
    · rfl
  rw [hfinish]
  split <;> rfl

theorem finish_check_consult (hr : w.ruling a f = .consult) :
    (w.checked g a f s).2 = ((g.consult ⟨g.actor s, a, w.subject, f⟩).run s).2 := by
  unfold checked check
  rw [run_checkWith_consult hr]

end Finish

/-- The events that a check adds. -/
def recorded (g : SessionGuard A R) (w : Wrapper R) (s : Surroundings A) (a : Action) (f : String) :
    List Event :=
  (w.checked g.guard a f s).2.trail.events.drop s.trail.events.length

/-- A check adds events to the trail and changes nothing else in the surroundings. -/
structure Appends (g : SessionGuard A R) (w : Wrapper R) (s : Surroundings A) (a : Action)
    (f : String) : Prop where
  frame : (w.checked g.guard a f s).2.untrailed = s.untrailed
  appended : (w.checked g.guard a f s).2.trail.events = s.trail.events ++ w.recorded g s a f

/-- The events that a check adds are those of the accesses for which it asks the oracle. -/
structure Records (o : Oracle A R) (g : SessionGuard A R) (w : Wrapper R) (s : Surroundings A)
    (a : Action) (f : String) : Prop extends w.Appends g s a f where
  exposed : w.isProtected = false → w.recorded g s a f = []
  denied : w.isProtected = true → w.denied.Hold a f →
    w.recorded g s a f = if a = .read then [] else w.recorded g s .read f
  allowed : w.isProtected = true → ¬ w.denied.Hold a f → w.allowed.Hold a f →
    w.recorded g s a f = []
  consulted : w.isProtected = true → ¬ w.denied.Hold a f → ¬ w.allowed.Hold a f →
    ∃ e, w.recorded g s a f = [e] ∧ e.action = a ∧ e.field = f ∧
      e.anonymous = (g.guard.actor s).isNone ∧
      e.outcome.level = if (o ⟨g.guard.actor s, a, w.subject, f⟩).allowed then "DEBUG" else "INFO"

section Records

variable {o : Oracle A R} {g : SessionGuard A R} {w : Wrapper R} {s : Surroundings A} {a : Action}
  {f : String}

theorem recorded_of_unchanged (h : (w.checked g.guard a f s).2 = s) : w.recorded g s a f = [] := by
  unfold recorded
  rw [h]
  exact List.drop_length

theorem appends_of_unchanged (h : (w.checked g.guard a f s).2 = s) : w.Appends g s a f := by
  have hrec := recorded_of_unchanged h
  constructor
  · rw [h]
  · rw [hrec, h, List.append_nil]

theorem finish_check_audited (hg : g.Audited o) (hr : w.ruling a f = .consult) :
    (w.checked g.guard a f s).2 = s.onTrail fun t =>
      t.record ⟨g.guard.actor s, a, w.subject, f⟩ (o ⟨g.guard.actor s, a, w.subject, f⟩) := by
  rw [finish_check_consult hr, hg]

/-- What the instance leaves open is recorded once. -/
theorem recorded_of_consult (hg : g.Audited o) (hr : w.ruling a f = .consult) :
    w.recorded g s a f =
      [AuditTrail.event ⟨g.guard.actor s, a, w.subject, f⟩
        (o ⟨g.guard.actor s, a, w.subject, f⟩)] := by
  unfold recorded
  rw [finish_check_audited hg hr]
  exact List.drop_left

theorem appends_of_ruling (hg : g.Audited o) (hr : w.ruling a f ≠ .refuse) : w.Appends g s a f := by
  cases h : w.ruling a f with
  | pass => exact appends_of_unchanged (finish_check_pass h)
  | refuse => exact absurd h hr
  | consult =>
    have hfinish := finish_check_audited (s := s) hg h
    constructor
    · rw [hfinish]
      rfl
    · rw [recorded_of_consult hg h, hfinish]
      rfl

theorem appends_check (hg : g.Audited o) (w : Wrapper R) (s : Surroundings A) (a : Action)
    (f : String) : w.Appends g s a f := by
  -- reading comes first: a refusal of another action leaves what the check of reading leaves
  have hread : w.Appends g s .read f := by
    by_cases hr : w.ruling .read f = .refuse
    · exact appends_of_unchanged ((finish_check_refuse hr).trans (if_pos rfl))
    · exact appends_of_ruling hg hr
  by_cases hr : w.ruling a f = .refuse
  · by_cases ha : a = .read
    · rw [ha]
      exact hread
    · have hfinish := finish_check_refuse (g := g.guard) (s := s) hr
      rw [if_neg ha] at hfinish
      have hrec : w.recorded g s a f = w.recorded g s .read f := by
        unfold recorded
        rw [hfinish]
      constructor
      · rw [hfinish]
        exact hread.frame
      · rw [hrec, hfinish]
        exact hread.appended
  · exact appends_of_ruling hg hr

/-- **What a check records.** -/
theorem recorded_check (hg : g.Audited o) (w : Wrapper R) (s : Surroundings A) (a : Action)
    (f : String) : w.Records o g s a f where
  toAppends := appends_check hg w s a f
  exposed hp := recorded_of_unchanged (finish_check_pass (ruling_eq_pass_iff.2 (Or.inl hp)))
  denied hp hd := by
    have hr : w.ruling a f = .refuse := ruling_eq_refuse_iff.2 ⟨hp, Overrides.hold_iff.1 hd⟩
    have hfinish := finish_check_refuse (g := g.guard) (s := s) hr
    split at hfinish
    · next ha =>
      rw [if_pos ha]
      exact recorded_of_unchanged hfinish
    · next ha =>
      rw [if_neg ha]
      unfold recorded
      rw [hfinish]
  allowed hp hd ha := by
    have hr : w.ruling a f = .pass :=
      ruling_eq_pass_iff.2 (Or.inr ⟨Overrides.not_hold_iff.1 hd, Overrides.hold_iff.1 ha⟩)
    exact recorded_of_unchanged (finish_check_pass hr)
  consulted hp hd ha := by
    have hr : w.ruling a f = .consult :=
      ruling_eq_consult_iff.2 ⟨hp, Overrides.not_hold_iff.1 hd, Overrides.not_hold_iff.1 ha⟩
    exact ⟨_, recorded_of_consult hg hr, rfl, rfl, rfl, Outcome.level_ofVerdict _⟩

end Records

end Wrapper

/-! ## The trail of a session -/

namespace SessionGuard

variable [Resource R]

/-- **The audit trail is exact, and auditing changes nothing.**  Take any oracle, any way to learn who
acts, any settings, and a session on any number of instances that never asks for the counts, started
with an exact trail.  The audited guard gives every reply that the guard without auditing gives, and
passes through the same states, within programs and scopes too.  In each of them the two counters are
the numbers of events and of events at level `INFO`, in 64 bits.  And a check, whatever the wrapper
and the surroundings, adds the events that `Wrapper.Records` says and changes nothing else. -/
theorem audit_of_steps (o : Oracle A R) (held : Option (HeldRoles A R)) (source : ActorSource A)
    (settings : GuardSettings) (is : Instances R) {ss : List (SessionStep A R)}
    (hc : ∀ st ∈ ss, .counts ∉ st.acts) {s : Surroundings A} (hs : s.trail.Exact) :
    let audited := byOracle o held source settings
    let unaudited := bare o held source settings
    ((audited.steps is ss).run s).1 = ((unaudited.steps is ss).run s.untrailed).1 ∧
      (audited.states is ss s).map (fun x => (x.1, x.2.untrailed)) =
        unaudited.states is ss s.untrailed ∧
      (∀ x ∈ audited.states is ss s,
        x.2.trail.evaluations.toNat = x.2.trail.events.length % UInt64.size ∧
          x.2.trail.denials.toNat =
            (x.2.trail.events.countP fun e => e.outcome.level = "INFO") % UInt64.size) ∧
      ∀ (w : Wrapper R) (s : Surroundings A) (a : Action) (f : String),
        w.Records o audited s a f := by
  intro audited unaudited
  have hstep : audited.guard.InStep Surroundings.Audits unaudited.guard :=
    inStep_byOracle o held source settings
  have hstart : s.Audits s.untrailed := ⟨rfl, hs⟩
  obtain ⟨hreplies, -⟩ := lockstep_steps hstep hc is s s.untrailed hstart
  obtain ⟨hstates, hexact⟩ := Surroundings.map_untrailed (states_alongside hstep hc is hstart)
  refine ⟨hreplies, hstates, ?_, ?_⟩
  · intro x hx
    exact (hexact x hx).counts
  · exact Wrapper.recorded_check (audited_byOracle o held source settings)

/-- Within a scope that denies updates of `id`, an update of `id` is checked, which asks for reading it,
and an update of the name is refused, which asks for updating it. -/
theorem audit_of_steps_denied_update :
    let reading : Oracle Unit User := Oracle.ofTest "reading" fun q => q.action = .read
    let audited := byOracle reading none .innermost {}
    let body : Program (Aside Unit User) :=
      .step (.check .update "id") (.step (.write "username" (.string "bea")) .done)
    let ss : List (SessionStep Unit User) := [
      .wrap "u" ⟨"1", "ann", none⟩,
      .use "u" (.scope (.override .deny [.update] (OrderedSet.ofList ["id"])) body .done)]
    let s : Surroundings Unit := {}
    (∀ st ∈ ss, .counts ∉ st.acts) ∧ s.trail.Exact ∧
      ((audited.steps ∅ ss).run s).1 =
        (((bare reading none .innermost {}).steps ∅ ss).run s.untrailed).1 ∧
      (((audited.steps ∅ ss).run s).2.trail.events.map fun e => (e.action, e.outcome.level)) =
        [(.read, "DEBUG"), (.update, "INFO")] := by
  intro reading audited body ss s
  have hc : ∀ st ∈ ss, .counts ∉ st.acts := by
    intro st hst
    rcases List.mem_cons.1 hst with rfl | hst
    · exact List.not_mem_nil
    · obtain rfl := List.mem_singleton.1 hst
      exact List.not_mem_nil
  have hs : s.trail.Exact := AuditTrail.exact_new
  have h := audit_of_steps reading none .innermost {} ∅ hc hs
  exact ⟨hc, hs, h.1, by decide⟩

end SessionGuard

end FieldAccess
