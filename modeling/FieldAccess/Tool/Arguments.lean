/-
  Command lines.

  1. **Words** — a word is an option with a long name, a group of one-letter options, the end of the
     options, or plain.  After `--` every word is plain.

  2. **Options** — an option with a value takes it from its own word, after `=` or after its letter,
     or from the next word if that is plain.  Roles may be given several times, anything else once.

  3. **Outcome** — a command, a request for help, or misuse; the words are taken in order and the
     first help or misuse decides.  Whether something is missing is decided at the end.

  Core only.
-/

namespace FieldAccess.Tool

/-! ## Words -/

/-- What a word of the command line is. -/
inductive Word where
  | endOfOptions
  | long (name : String) (value : Option String)
  | letters (cs : List Char)
  | plain (text : String)
deriving DecidableEq, Inhabited

/-- Splits a long option at its first equals sign. -/
def Word.ofLong (cs : List Char) : Word :=
  match cs.dropWhile (· ≠ '=') with
  | [] => .long (String.ofList cs) none
  | _ :: value => .long (String.ofList (cs.takeWhile (· ≠ '='))) (some (String.ofList value))

/-- Recognizes a word. -/
def Word.ofString (s : String) : Word :=
  match s.toList with
  | ['-', '-'] => .endOfOptions
  | '-' :: '-' :: cs => .ofLong cs
  | '-' :: c :: cs => .letters (c :: cs)
  | _ => .plain s

/-! ## Commands -/

/-- What the tool is asked to do. -/
inductive Command where
  | normalize (file : String)
  | inspect (file : String)
  | check (file : String) (roles : List String) (action field : String)
deriving DecidableEq, Inhabited

/-- Why the tool does nothing. -/
inductive Stop where
  | help
  | misuse
deriving DecidableEq, Inhabited

/-- The names of the commands. -/
inductive CommandName where
  | normalize
  | inspect
  | check
deriving DecidableEq, Inhabited

/-- Recognizes the name of a command. -/
def CommandName.ofString? (s : String) : Option CommandName :=
  if s = "normalize" then some normalize
  else if s = "inspect" then some inspect
  else if s = "check" then some check
  else none

/-- The options that take a value. -/
inductive ValueOption where
  | role
  | action
  | field
deriving DecidableEq, Inhabited

/-- The options that `check` takes by their long names. -/
def ValueOption.ofName? (s : String) : Option ValueOption :=
  if s = "role" then some role
  else if s = "action" then some action
  else if s = "field" then some field
  else none

/-- The options that `check` takes by their letters. -/
def ValueOption.ofLetter? (c : Char) : Option ValueOption :=
  if c = 'r' then some role
  else if c = 'a' then some action
  else if c = 'f' then some field
  else none

/-! ## The words after a command -/

/-- What the words gave so far. -/
structure Gathered where
  file : Option String := none
  roles : List String := []
  action : Option String := none
  field : Option String := none
  jsonLogs : Bool := false
deriving DecidableEq, Inhabited

namespace Gathered

/-- Takes a value that may be given only once. -/
def once (old : Option String) (v : String) : Except Stop (Option String) :=
  if old.isSome then .error .misuse else .ok (some v)

/-- Takes the value of an option. -/
def take (g : Gathered) (o : ValueOption) (v : String) : Except Stop Gathered :=
  match o with
  | .role => .ok { g with roles := g.roles ++ [v] }
  | .action => do return { g with action := ← once g.action v }
  | .field => do return { g with field := ← once g.field v }

/-- Takes the file, which must have a name. -/
def takeFile (g : Gathered) (v : String) : Except Stop Gathered := do
  if v = "" then throw .misuse
  return { g with file := ← once g.file v }

/-- Takes an option without a value. -/
def takeFlag (g : Gathered) (name : String) (value : Option String) : Except Stop Gathered :=
  if value.isSome then .error .misuse
  else if name = "help" then .error .help
  else if name = "json-logs" ∧ ¬ g.jsonLogs then .ok { g with jsonLogs := true }
  else .error .misuse

/-- Takes a group of letters.  Gives the option that waits for its value, if there is one. -/
def takeLetters (g : Gathered) (name : CommandName) :
    List Char → Except Stop (Gathered × Option ValueOption)
  | [] => .ok (g, none)
  | c :: cs =>
    match if name = .check then ValueOption.ofLetter? c else none with
    | none => if c = 'h' then .error .help else .error .misuse
    | some o =>
      match cs with
      | [] => .ok (g, some o)
      | '=' :: v => return (← g.take o (String.ofList v), none)
      | v => return (← g.take o (String.ofList v), none)

/-- Takes a long option.  Gives the option that waits for its value, if there is one. -/
def takeLong (g : Gathered) (command : CommandName) (name : String) (value : Option String) :
    Except Stop (Gathered × Option ValueOption) :=
  match if command = .check then ValueOption.ofName? name else none with
  | none => return (← g.takeFlag name value, none)
  | some o =>
    match value with
    | none => .ok (g, some o)
    | some v => return (← g.take o v, none)

/-- Takes the words after a command.  `waiting` is the option whose value comes next. -/
def words (command : CommandName) (waiting : Option ValueOption) (g : Gathered) :
    List String → Except Stop Gathered
  | [] => if waiting.isSome then .error .misuse else .ok g
  | s :: ss =>
    match waiting, Word.ofString s with
    | some o, .plain v => do words command none (← g.take o v) ss
    | some _, _ => .error .misuse
    | none, .plain v => do words command none (← g.takeFile v) ss
    | none, .endOfOptions => ss.foldlM takeFile g
    | none, .long name value => do
      let (g, waiting) ← g.takeLong command name value
      words command waiting g ss
    | none, .letters cs => do
      let (g, waiting) ← g.takeLetters command cs
      words command waiting g ss

/-- The command that the words make up, unless something is missing. -/
def command (g : Gathered) : CommandName → Except Stop Command
  | .normalize => g.file.elim (.error .misuse) fun f => .ok (.normalize f)
  | .inspect => g.file.elim (.error .misuse) fun f => .ok (.inspect f)
  | .check =>
    match g.file, g.roles, g.action, g.field with
    | some f, r :: rs, some a, some field => .ok (.check f (r :: rs) a field)
    | _, _, _, _ => .error .misuse

end Gathered

/-! ## The whole command line -/

/-- Help on a command: only the name of a command, or of help itself, may follow. -/
def helpOn : List String → Stop
  | [] => .help
  | [s] => if s = "help" ∨ (CommandName.ofString? s).isSome then .help else .misuse
  | _ => .misuse

/-- Takes a command line; `logs` tells that the flag for logs was seen. -/
def commandLine (logs : Bool) : List String → Except Stop Command
  | [] => .error .misuse
  | s :: ss =>
    if s = "help" then .error (helpOn ss)
    else match CommandName.ofString? s with
      | some name => do (← Gathered.words name none {} ss).command name
      | none =>
        match Word.ofString s with
        | .long name value => do
          let g ← Gathered.takeFlag { jsonLogs := logs } name value
          commandLine g.jsonLogs ss
        | .letters ('h' :: _) => .error .help
        | _ => .error .misuse

/-- The command that a command line asks for. -/
def Command.ofArguments (args : List String) : Except Stop Command := commandLine false args

example : (Command.ofArguments ["inspect", "a.json"]).toOption = some (.inspect "a.json") := by
  decide +kernel
example : (Command.ofArguments ["check", "f", "-rx", "--action=read", "-f", "id"]).toOption
    = some (.check "f" ["x"] "read" "id") := by decide +kernel
example : (Command.ofArguments ["check", "f", "-r"]).toOption = none := by decide +kernel

end FieldAccess.Tool
