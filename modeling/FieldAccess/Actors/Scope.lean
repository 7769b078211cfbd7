/-
  Actors in scope: who is acting right now.

  1. **Stacks** — for each kind of actor there is a stack of open scopes.  A scope holds an actor, or
     nobody; the last one opened decides who acts.

  2. **Entering and leaving** — every scope gets a number of its own, from one counter of 64 bits that
     wraps.  Leaving a scope takes away exactly that scope, wherever it stands, so scopes may end in
     any order.

  3. **Named scopes** — a register keeps open scopes under names; using a name again opens the new
     scope before it leaves the old one.

  Core only.
-/
import FieldAccess.Collections.OrderedMap

namespace FieldAccess.Actors

/-! ## Stacks -/

/-- An entry on a stack: the number of the scope and the actor who acts in it. -/
structure Entry (A : Type) where
  id : UInt64
  actor : Option A
deriving DecidableEq, Inhabited

/-- The open scopes of every kind of actor, oldest first. -/
structure Stacks (κ : Type) (A : κ → Type) where
  next : UInt64
  stack : (k : κ) → List (Entry (A k))

/-- Takes away the last entry with a number. -/
def removeLast {A : Type} (id : UInt64) (es : List (Entry A)) : List (Entry A) :=
  (es.reverse.eraseP fun e => e.id == id).reverse

/-- A handle on an open scope. -/
structure Scope (κ : Type) where
  kind : κ
  id : UInt64
deriving DecidableEq

namespace Stacks

variable {κ : Type} {A : κ → Type}

/-- No scope is open. -/
def empty : Stacks κ A := ⟨0, fun _ => []⟩

instance : EmptyCollection (Stacks κ A) := ⟨empty⟩
instance : Inhabited (Stacks κ A) := ⟨empty⟩

/-- The actor of a kind who acts right now. -/
def current (s : Stacks κ A) (k : κ) : Option (A k) := (s.stack k).getLast?.bind Entry.actor

variable [DecidableEq κ]

/-- Replaces the stack of one kind. -/
def setStack (s : Stacks κ A) (k : κ) (es : List (Entry (A k))) : Stacks κ A :=
  { s with stack := fun j => if h : j = k then h ▸ es else s.stack j }

@[simp] theorem stack_setStack_self (s : Stacks κ A) (k : κ) (es : List (Entry (A k))) :
    (s.setStack k es).stack k = es := by simp [setStack]

theorem stack_setStack_ne (s : Stacks κ A) {k j : κ} (h : j ≠ k) (es : List (Entry (A k))) :
    (s.setStack k es).stack j = s.stack j := by simp [setStack, h]

/-- Opens a scope in which an actor, or nobody, acts. -/
def enter (s : Stacks κ A) (k : κ) (actor : Option (A k)) : Scope κ × Stacks κ A :=
  (⟨k, s.next⟩, { s.setStack k (s.stack k ++ [⟨s.next, actor⟩]) with next := s.next + 1 })

/-- Ends a scope. -/
def leave (s : Stacks κ A) (h : Scope κ) : Stacks κ A :=
  s.setStack h.kind (removeLast h.id (s.stack h.kind))

theorem stack_enter_self (s : Stacks κ A) (k : κ) (actor : Option (A k)) :
    (s.enter k actor).2.stack k = s.stack k ++ [⟨s.next, actor⟩] := by
  simp [enter, setStack]

/-- Opening a scope of one kind leaves the other kinds alone. -/
theorem stack_enter_ne (s : Stacks κ A) {k j : κ} (h : j ≠ k) (actor : Option (A k)) :
    (s.enter k actor).2.stack j = s.stack j := by
  simp [enter, setStack, h]

/-- Ending a scope of one kind leaves the other kinds alone. -/
theorem stack_leave_ne (s : Stacks κ A) {h : Scope κ} {j : κ} (hj : j ≠ h.kind) :
    (s.leave h).stack j = s.stack j := stack_setStack_ne s hj _

end Stacks

/-! ## Named scopes -/

/-- Open scopes, some of which are kept under names. -/
structure Register (κ : Type) (A : κ → Type) where
  «stacks» : Stacks κ A
  named : OrderedMap String (Scope κ)

namespace Register

variable {κ : Type} {A : κ → Type} [DecidableEq κ]

/-- No scope is open. -/
def empty : Register κ A := ⟨∅, ∅⟩

instance : EmptyCollection (Register κ A) := ⟨empty⟩
instance : Inhabited (Register κ A) := ⟨empty⟩

/-- Ends the scope that has a name, if there is one. -/
def leave (r : Register κ A) (name : String) : Register κ A :=
  match r.named.get? name with
  | none => r
  | some h => ⟨r.«stacks».leave h, r.named.erase name⟩

/-- Opens a scope under a name, then ends the scope that had the name. -/
def enter (r : Register κ A) (name : String) (k : κ) (actor : Option (A k)) : Register κ A :=
  let (h, opened) := r.«stacks».enter k actor
  let left : Register κ A := Register.leave ⟨opened, r.named⟩ name
  ⟨left.«stacks», left.named.insert name h⟩

end Register

end FieldAccess.Actors
