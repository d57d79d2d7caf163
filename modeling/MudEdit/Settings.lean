import MudEdit.Json.Basic

/-!
# Settings

What an editor may configure. Settings are read from an object whose absent fields keep
their defaults, or from an array of the fields in order. They may stand under the name
of the language among the settings for others.
-/

namespace MudEdit

structure Settings where
  /-- Directories that are searched for included files. -/
  includePaths : List String
  showDiagnostics : Bool
  /-- What to run for a saved program, whose name replaces a placeholder. -/
  compileCommand : List String
  /-- The directory that saved programs are copied to. -/
  deployRoot : Option String
  deriving DecidableEq, Repr

namespace Settings

/-- The settings that hold unless others are given. -/
def default : Settings := ⟨[], true, [], none⟩

instance : Inhabited Settings := ⟨default⟩

def text? : Json → Option String
  | .string s => some s
  | _ => none

def texts? : Json → Option (List String)
  | .array items => items.mapM text?
  | _ => none

def flag? : Json → Option Bool
  | .bool b => some b
  | _ => none

/-- A text or nothing, where `none` says that it is neither. -/
def optionalText? : Json → Option (Option String)
  | .null => some none
  | .string s => some (some s)
  | _ => none

/-- Reads a field if it is given, and fails if it is malformed. -/
def orDefault {α : Type} (read : Json → Option α) (fallback : α) : Option Json → Option α
  | none => some fallback
  | some value => read value

/-- Settings from their fields, each of which may be absent. -/
def ofFields? (paths shown command root : Option Json) : Option Settings := do
  return {
    includePaths := ← orDefault texts? default.includePaths paths
    showDiagnostics := ← orDefault flag? default.showDiagnostics shown
    compileCommand := ← orDefault texts? default.compileCommand command
    deployRoot := ← orDefault optionalText? default.deployRoot root }

/-- Settings on their own. -/
def ofPlain? : Json → Option Settings
  | .null => some default
  | .object members =>
    let field (name : String) := (Json.object members).member? name
    ofFields? (field "includePaths") (field "showDiagnostics") (field "compileCommand")
      (field "deployRoot")
  | .array items =>
    if items.length ≤ 4 then ofFields? items[0]? items[1]? items[2]? items[3]? else none
  | _ => none

/-- Settings, alone or among others. -/
def ofJson? (value : Json) : Option Settings := ofPlain? ((value.member? "lpc").getD value)

end Settings

end MudEdit
