/-
  Programs on a wrapped instance: accesses and overrides in order, with scopes around some of them.

  1. **Operations** — everything that can be done with one wrapped instance.

  2. **Programs** — a list of steps in which a step is an operation, a scope with a program as its
     body, or something that is done in the surroundings.  Scopes are properly nested, because a scope
     holds its body.

  3. **Running** — a program turns a wrapped instance into another and tells what every step answered.
     After a step that fails the program goes on, with the instance as that step left it.

  Core only.
-/
import FieldAccess.Guard.Shown

namespace FieldAccess

/-! ## Operations -/

/-- Something that is done with a wrapped instance. -/
inductive Operation where
  | read (field : String)
  | write (field : String) (value : Json)
  | clear (field : String)
  | check (action : Action) (field : String)
  | can (action : Action) (field : String)
  | roles
  | authorizedFieldsFor (role : Role) (action : Action)
  | authorizedFields (action : Action)
  | override (kind : Effect) (actions : List Action) (fields : FieldSet)
  | setProtection (isProtected : Bool)
  | isProtected
  | showWrapper
  | currentActor
deriving Inhabited

/-- What a step answers. -/
inductive Answer (A : Type) where
  | done
  | value (v : Json)
  | truth (b : Bool)
  | names (ns : List String)
  | text (s : String)
  | actor (a : Option A)
  | counts (c : Option (UInt64 × UInt64))
  | settings (s : GuardSettings)
  | verdict (v : Verdict)
  | row (fields : List (String × Json))
deriving Inhabited

/-- An answer or an error. -/
abbrev Reply (A : Type) := Except AccessError (Answer A)

namespace Operation

variable {ω A R : Type} [Resource R]

/-- The answer of a change, and the wrapper as it is then. -/
def settled : Except AccessError Unit × Wrapper R → Reply A × Wrapper R
  | (outcome, w) => (outcome.map fun _ => .done, w)

/-- Does one operation. -/
def run (g : Guard ω A R) (w : Wrapper R) : Operation → StateM ω (Reply A × Wrapper R)
  | read field => do return ((← (w.read g field).run).map .value, w)
  | write field v => do return settled (← (Wrapper.write g field v).run.run w)
  | clear field => do return settled (← (Wrapper.clear g field).run.run w)
  | check a field => do return ((← (w.check g a field).run).map fun _ => .done, w)
  | can a field => do return (.ok (.truth (← w.can g a field)), w)
  | roles => do return (.ok (.names (← w.roles g).toList), w)
  | authorizedFieldsFor r a => return (.ok (.names (w.authorizedFieldsFor r a).toList), w)
  | authorizedFields a => do return (.ok (.names (← w.authorizedFields g a)), w)
  | override kind actions fields => return (.ok .done, w.override kind actions fields)
  | setProtection p => return (.ok .done, { w with isProtected := p })
  | isProtected => return (.ok (.truth w.isProtected), w)
  | showWrapper => return (.ok (.text w.shown), w)
  | currentActor => do return (.ok (.actor (← g.currentActor)), w)

end Operation

/-! ## Programs -/

/-- Steps on a wrapped instance; `aside` is a step in the surroundings. -/
inductive Program (σ : Type) where
  | done
  | step (op : Operation) (rest : Program σ)
  | scope (s : WrapperScope) (body rest : Program σ)
  | aside (act : σ) (rest : Program σ)
deriving Inhabited

/-- What the steps of a program answered. -/
inductive Transcript (A : Type) where
  | done
  | reply (r : Reply A) (rest : Transcript A)
  | scope (body rest : Transcript A)
deriving Inhabited

/-! ## Running -/

/-- Runs a program; `aside` does what is done in the surroundings. -/
def Program.run {ω σ A R : Type} [Resource R] (g : Guard ω A R) (aside : σ → StateM ω (Reply A)) :
    Program σ → Wrapper R → StateM ω (Transcript A × Wrapper R)
  | .done, w => return (.done, w)
  | .step op rest, w => do
    let (r, w) ← op.run g w
    let (t, w) ← rest.run g aside w
    return (.reply r t, w)
  | .scope s body rest, w => do
    let (w, undo) := w.enter s
    let (b, w) ← body.run g aside w
    let (t, w) ← rest.run g aside (w.leave undo)
    return (.scope b t, w)
  | .aside act rest, w => do
    let r ← aside act
    let (t, w) ← rest.run g aside w
    return (.reply r t, w)

end FieldAccess
