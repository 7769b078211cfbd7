/-
  No run of accesses gains an authority.

  1. **What conditions look at** — the conditions of a role assignment look at an instance only through
     the values of some fields.  While those values stay, so do the roles that an actor holds.

  2. **Fixed fields** — a field is fixed if no role that is held at the start may update or clear it.  A
     start is confined if every field that the conditions look at is fixed, and the wrapper is protected
     and has no override that could let an access pass.

  3. **The crux** — `Kept` joins what a run has to keep: entries and protection, names of fields, table,
     and the values of the fixed fields.  The values need all the rest: a write goes through only by a
     role that is held now; the roles held now are those of the start, because the fields that they
     depend on are fixed; and so what is written is not a fixed field.

  4. **Steps and runs** — one operation keeps `Kept` (`Kept.finish`), hence every state does that a run
     passes through (`Kept.of_mem_states`).

  Core only.
-/
import FieldAccess.Models.Viewer
import FieldAccess.Proofs.Guard.Scopes
import FieldAccess.Proofs.Guard.Secrecy
import FieldAccess.Proofs.Models.Changes

namespace FieldAccess

variable {ω A R : Type} [Resource R]

/-! ## What conditions look at -/

/-- The condition looks at the instance only through the values of the fields in `P`. -/
def RoleAssignment.LooksAt (x : RoleAssignment A R) (P : String → Prop) : Prop :=
  ∀ actor r r', (∀ f, P f → Resource.readField r' f = Resource.readField r f) →
    x.applies actor r' = x.applies actor r

/-- Roles stay while the values stay that their conditions look at. -/
theorem RoleAssignments.held_of_values {as : RoleAssignments A R} {P : String → Prop}
    (h : ∀ x ∈ as, x.LooksAt P) (who : Option A) {r r' : R}
    (hv : ∀ f, P f → Resource.readField r' f = Resource.readField r f) :
    held as who r' = held as who r := by
  have hf : (as.filter fun x => x.applies who r') = as.filter fun x => x.applies who r := by
    apply List.filter_congr
    intro x hx
    exact h x hx who r r' hv
  unfold held
  rw [hf]

/-- A guard under which always the same actor acts, with roles that come from assignments. -/
def Guard.forActor (as : RoleAssignments A R) (who : Option A) (settings : GuardSettings) :
    Guard ω A R :=
  roleBased as.held (fun _ => who) settings

namespace Wrapper

/-! ## Fixed fields -/

/-- No role that is held may update or clear the field. -/
def Fixed (g : Guard ω A R) (w : Wrapper R) (s : ω) (f : String) : Prop :=
  ¬ w.Granted g s .update f ∧ ¬ w.Granted g s .delete f

/-- A protected wrapper without overrides, on which every field in `P` is fixed, where the conditions of
all assignments look at nothing else. -/
structure Confined (g : Guard ω A R) (as : RoleAssignments A R) (P : String → Prop) (w : Wrapper R)
    (s : ω) : Prop where
  looks : ∀ x ∈ as, x.LooksAt P
  protection : w.isProtected = true
  bare : ∀ kind, (w.overrides kind).pairs = []
  fixed : ∀ f, P f → w.Fixed g s f

/-- What a run that starts with `w` has to keep. -/
structure Kept (g : Guard ω A R) (w : Wrapper R) (s : ω) (w' : Wrapper R) : Prop where
  agree : w.Agree w'
  names : Resource.fieldNames w'.subject = Resource.fieldNames w.subject
  table : Modelled.permissions w'.subject = Modelled.permissions w.subject
  values : ∀ f, w.Fixed g s f → Resource.readField w'.subject f = Resource.readField w.subject f

theorem Kept.refl (g : Guard ω A R) (w : Wrapper R) (s : ω) : w.Kept g s w :=
  ⟨.refl w, rfl, rfl, fun _ _ => rfl⟩

/-- Changing a field that is not fixed keeps all of it. -/
theorem Kept.change {g : Guard ω A R} {w w' : Wrapper R} {s : ω} {f : String} {v : Json} {r : R}
    (h : w.Kept g s w') (hr : Resource.Changed w'.subject f v r) (hf : ¬ w.Fixed g s f) :
    w.Kept g s { w' with subject := r } where
  agree := h.agree.trans (.withSubject w' r)
  names := hr.names.trans h.names
  table := hr.table.trans h.table
  values := by
    intro f' hf'
    have hne : f' ≠ f := by
      intro e
      exact hf (e ▸ hf')
    exact (hr.others f' hne).trans (h.values f' hf')

/-- An edit after a check keeps all of it, if the check does not let fixed fields pass; an edit that
fails leaves the wrapper. -/
theorem Kept.afterCheck {g : Guard ω A R} {w w' : Wrapper R} {s : ω} {f : String} {v : Json}
    {e : Edit R Unit} (h : w.Kept g s w') (he : e.Assigns w'.subject f v)
    {c : Except AccessError Unit} (hfix : c = .ok () → ¬ w.Fixed g s f) :
    w.Kept g s (w'.afterCheck c (w'.unguarded f e)).2 := by
  rcases afterCheck_of_assigns he c with ⟨r, hx, hc, hr⟩ | ⟨err, hx⟩
  · rw [hx]
    exact h.change hr (hfix hc)
  · rw [hx]
    exact h

section Roles

variable {as : RoleAssignments A R} {who : Option A} {settings : GuardSettings}
  {P : String → Prop} {w w' : Wrapper R} {s s' : ω}

/-- Without overrides, a protected wrapper lets pass what a role is granted and nothing else. -/
theorem Confined.granted_of_passes
    (hc : w.Confined (Guard.forActor as who settings) as P s) {a : Action}
    {f : String} (hp : w.passes (Oracle.byRoles as.held) who a f = true) :
    w.Granted (Guard.forActor as who settings) s a f := by
  have hpermit := (passes_byRoles_iff as.held (fun _ => who) settings w s a f).1 hp
  -- of the three ways to pass, two are closed at the start
  have hallowed : ¬ w.allowed.Hold a f := by
    have hb : w.allowed.pairs = [] := hc.bare .allow
    unfold Overrides.Hold
    rw [hb]
    simp
  rcases hpermit with hexposed | ⟨-, hallow | hgrant⟩
  · rw [hc.protection] at hexposed
    cases hexposed
  · exact absurd hallow hallowed
  · exact hgrant

theorem Kept.held_eq (hc : w.Confined (Guard.forActor as who settings) as P s)
    (h : w.Kept (Guard.forActor as who settings) s w') :
    as.held who w'.subject = as.held who w.subject :=
  RoleAssignments.held_of_values hc.looks who fun f hf => h.values f (hc.fixed f hf)

/-- What is checked with success now was granted at the start. -/
theorem Kept.granted_of_checked
    (hc : w.Confined (Guard.forActor as who settings) as P s)
    (h : w.Kept (Guard.forActor as who settings) s w') {a : Action} {f : String}
    (hok : (w'.checked (Guard.forActor as who settings) a f s').1 = .ok ()) :
    w.Granted (Guard.forActor as who settings) s a f := by
  have hs : (Guard.forActor as who settings : Guard ω A R).Silent (Oracle.byRoles as.held) :=
    Guard.silent_roleBased as.held (fun _ => who) settings
  have hnow : w'.passes (Oracle.byRoles as.held) who a f = true := by
    have hiff := isOk_checked (w := w') (a := a) (f := f) (s := s') hs
    rw [hok] at hiff
    exact hiff.symm
  -- what passes now passes at the start, because rulings, roles and table are the same
  apply hc.granted_of_passes
  rw [← passes_congr h.agree.ruling_eq (h.held_eq hc) h.table]
  exact hnow

/-! ## Steps -/

/-- The step: an operation that is not permanent keeps all of it. -/
theorem Kept.finish [Resource.Lawful R]
    (hc : w.Confined (Guard.forActor as who settings) as P s)
    (h : w.Kept (Guard.forActor as who settings) s w') {op : Operation}
    (hop : op.isPermanent = false) :
    w.Kept (Guard.forActor as who settings) s
      (op.finish (Guard.forActor as who settings) w' s').1 := by
  cases op with
  | override kind actions fields => cases hop
  | setProtection p => cases hop
  | write f v =>
    unfold Operation.finish
    rw [Operation.run_write]
    exact h.afterCheck (Resource.Lawful.assigns_write _ f v) fun hok hfix =>
      hfix.1 (h.granted_of_checked hc hok)
  | clear f =>
    unfold Operation.finish
    rw [Operation.run_clear]
    exact h.afterCheck (Resource.Lawful.assigns_clear _ f) fun hok hfix =>
      hfix.2 (h.granted_of_checked hc hok)
  -- everything else only asks
  | _ => exact h

end Roles

end Wrapper

/-! ## Runs -/

/-- The states that a run of operations passes through, the first and the last included. -/
def Operation.states (g : Guard ω A R) : List Operation → Wrapper R → ω → List (Wrapper R × ω)
  | [], w, s => [(w, s)]
  | op :: ops, w, s => (w, s) :: states g ops (op.finish g w s).1 (op.finish g w s).2

namespace Wrapper

/-- The run: every state keeps what the start has. -/
theorem Kept.of_mem_states [Resource.Lawful R] {as : RoleAssignments A R} {who : Option A}
    {settings : GuardSettings} {P : String → Prop} {w : Wrapper R} {s : ω}
    (hc : w.Confined (Guard.forActor as who settings) as P s)
    {ops : List Operation} (hops : ∀ op ∈ ops, op.isPermanent = false) {w' : Wrapper R} {s' : ω}
    (h : w.Kept (Guard.forActor as who settings) s w') {x : Wrapper R × ω}
    (hx : x ∈ Operation.states (Guard.forActor as who settings) ops w' s') :
    w.Kept (Guard.forActor as who settings) s x.1 := by
  induction ops generalizing w' s' with
  | nil =>
    obtain rfl := List.mem_singleton.1 hx
    exact h
  | cons op ops ih =>
    rcases List.mem_cons.1 hx with rfl | hx
    · exact h
    · have hop := hops op List.mem_cons_self
      exact ih (fun op' h' => hops op' (List.mem_cons_of_mem _ h')) (h.finish hc hop) hx

end Wrapper

/-- **No run gains an authority.**  Take a record, role assignments whose conditions look at it only
through the values of the fields in `P`, a fixed actor, and a protected wrapper without overrides.  If
no role that the actor holds at the start may update or clear a field in `P`, then in every state that
a run of accesses and questions passes through the actor holds the same roles as at the start, every
field that no role of the start may update or clear has its first value, and the record has its first
field names and its first table. -/
theorem Record.authority_of_mem_states {as : RoleAssignments A Record} {who : Option A}
    {settings : GuardSettings} {P : String → Prop} {w : Wrapper Record} {s : ω}
    (hc : w.Confined (Guard.forActor as who settings) as P s)
    {ops : List Operation} (hops : ∀ op ∈ ops, op.isPermanent = false) {x : Wrapper Record × ω}
    (hx : x ∈ Operation.states (Guard.forActor as who settings) ops w s) :
    ((x.1.roles (Guard.forActor as who settings)).run x.2).1 =
        ((w.roles (Guard.forActor as who settings)).run s).1 ∧
      (∀ f, w.Fixed (Guard.forActor as who settings) s f →
        x.1.subject.values.get? f = w.subject.values.get? f) ∧
      x.1.subject.values.keys = w.subject.values.keys ∧ x.1.subject.table = w.subject.table := by
  have hk := Wrapper.Kept.of_mem_states hc hops (.refl _ w s) hx
  have hroles : as.held who x.1.subject = as.held who w.subject := hk.held_eq hc
  exact ⟨hroles, hk.values, hk.names, hk.table⟩

/-- An owner may change the title of a record but not who owns it.  She tries to hand the record over
and then changes the title twice; she still holds her roles, and the record is still hers. -/
theorem Record.authority_of_mem_states_owner :
    let owner : Condition := .owner "owner"
    let as : RoleAssignments Viewer Record := [.everyone, .whenever "owner" owner.holds]
    let ann : Option Viewer := some { id := "ann" }
    let P : String → Prop := (· = "owner")
    let w : Wrapper Record :=
      { subject :=
          { table := ⟨OrderedMap.ofList [
              ("public", OrderedMap.ofList [(.read, OrderedSet.ofList ["owner", "title"])]),
              ("owner", OrderedMap.ofList [(.update, OrderedSet.ofList ["title"])])]⟩
            values := OrderedMap.ofList [("owner", .string "ann"), ("title", .null)] }
        isProtected := true }
    let ops : List Operation := [.write "owner" (.string "bea"), .write "title" (.string "a"),
      .can .update "owner", .write "title" (.string "b")]
    w.Confined (Guard.forActor as ann {}) as P () ∧ (∀ op ∈ ops, op.isPermanent = false) ∧
      ∀ x ∈ Operation.states (Guard.forActor as ann {}) ops w (),
        ((x.1.roles (Guard.forActor as ann {})).run x.2).1.toList = ["owner", "public"] ∧
          x.1.subject.values.get? "owner" = some (.string "ann") := by
  intro owner as ann P w ops
  have hc : w.Confined (Guard.forActor as ann {}) as P () := by
    refine ⟨?_, rfl, fun kind => by cases kind <;> rfl, ?_⟩
    · intro x hx actor r r' hv
      have hnames : ∀ v, Condition.names r' "owner" v = Condition.names r "owner" v := by
        intro v
        unfold Condition.names
        rw [hv "owner" rfl]
      rcases List.mem_cons.1 hx with rfl | hx
      · rfl
      · obtain rfl := List.mem_singleton.1 hx
        show actor.any (Condition.names r' "owner") = actor.any (Condition.names r "owner")
        cases actor with
        | none => rfl
        | some v => exact hnames v
    · rintro f rfl
      constructor <;> decide
  have hops : ∀ op ∈ ops, op.isPermanent = false := by
    intro op hop
    simp only [ops, List.mem_cons, List.not_mem_nil, or_false] at hop
    rcases hop with rfl | rfl | rfl | rfl <;> rfl
  refine ⟨hc, hops, ?_⟩
  intro x hx
  obtain ⟨hroles, hvalues, -⟩ := Record.authority_of_mem_states hc hops hx
  rw [hroles, hvalues "owner" (hc.fixed "owner" rfl)]
  exact ⟨by decide, rfl⟩

end FieldAccess
