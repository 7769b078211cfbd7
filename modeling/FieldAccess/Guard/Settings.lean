/-
  Settings of a guard.

  1. **Settings** — whether wrapped instances start protected, whether creation is checked, and
     whether a refused read hides that there is anything to read.

  2. **In JSON** — an object of three truth values, each of which may be left out; a list gives them
     in the same order and may stop early.

  3. **Creation options** — the choices for one creation, taken from the settings unless given.

  Core only.
-/
import FieldAccess.AccessError
import FieldAccess.Json.Typed
import FieldAccess.Text.Shown

namespace FieldAccess

/-- How a guard behaves. -/
structure GuardSettings where
  protectedByDefault : Bool := true
  checkCreateByDefault : Bool := false
  concealReads : Bool := true
deriving DecidableEq, Inhabited

/-- How one instance is created. -/
structure CreationOptions where
  checkCreate : Bool
  isProtected : Bool
deriving DecidableEq, Inhabited

namespace GuardSettings

/-- The creation options that follow from the settings. -/
def creationOptions (s : GuardSettings) : CreationOptions :=
  ⟨s.checkCreateByDefault, s.protectedByDefault⟩

/-! ## In JSON -/

/-- Settings as an object. -/
def toJson (s : GuardSettings) : Json := .object [
  ("protected_by_default", .bool s.protectedByDefault),
  ("check_create_by_default", .bool s.checkCreateByDefault),
  ("conceal_reads", .bool s.concealReads)]

open Json (Reader)

/-- The settings that were read so far. -/
structure Gathered where
  protectedByDefault : Option Bool := none
  checkCreateByDefault : Option Bool := none
  concealReads : Option Bool := none

/-- The settings from what was read; the rest keeps its default. -/
def ofGathered (g : Gathered) : GuardSettings :=
  let d : GuardSettings := {}
  { protectedByDefault := g.protectedByDefault.getD d.protectedByDefault
    checkCreateByDefault := g.checkCreateByDefault.getD d.checkCreateByDefault
    concealReads := g.concealReads.getD d.concealReads }

/-- How settings are read. -/
def fields : Reader.Fields Gathered where
  wanted := "struct GuardConfig"
  start := {}
  slots := [
    { name := "protected_by_default"
      given := fun g => g.protectedByDefault.isSome
      fill := fun g => do return { g with protectedByDefault := some (← Reader.bool) } },
    { name := "check_create_by_default"
      given := fun g => g.checkCreateByDefault.isSome
      fill := fun g => do return { g with checkCreateByDefault := some (← Reader.bool) } },
    { name := "conceal_reads"
      given := fun g => g.concealReads.isSome
      fill := fun g => do return { g with concealReads := some (← Reader.bool) } }]

/-- Reads settings. -/
def reader : Reader GuardSettings :=
  fields.read (fun r => pure (ofGathered r.1)) (fun g => pure (ofGathered g))

/-- The settings that a JSON text states. -/
def parse (text : String) : Except AccessError GuardSettings := (reader.run text).mapError .json

/-! ## As shown -/

/-- How settings are shown. -/
def shown (s : GuardSettings) : String :=
  Text.shownRecord "GuardConfig" [
    ("protected_by_default", Text.shownBool s.protectedByDefault),
    ("check_create_by_default", Text.shownBool s.checkCreateByDefault),
    ("conceal_reads", Text.shownBool s.concealReads)]

end GuardSettings

/-- The options of a creation that asks for nothing special. -/
def CreationOptions.default : CreationOptions := ({} : GuardSettings).creationOptions

/-- What a creation asks for: the settings of the guard or the defaults as a base, and what to
change in it. -/
structure CreationChoice where
  fromSettings : Bool := false
  checkCreate : Option Bool := none
  isProtected : Option Bool := none
deriving DecidableEq, Inhabited

/-- The options that a choice comes to under some settings. -/
def CreationChoice.options (c : CreationChoice) (s : GuardSettings) : CreationOptions :=
  let base := if c.fromSettings then s.creationOptions else CreationOptions.default
  ⟨c.checkCreate.getD base.checkCreate, c.isProtected.getD base.isProtected⟩

end FieldAccess
