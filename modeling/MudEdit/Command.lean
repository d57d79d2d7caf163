import MudEdit.Diagnostic
import MudEdit.Json.Forest

/-!
# The command line

Four commands show what can be said of one file: its tree, its tokens, its highlights
and its errors. What a command prints depends on its arguments and the file alone.
-/

namespace MudEdit.Command

/-- What a command prints, and whether it succeeded. -/
structure Outcome where
  output : String
  errors : String
  succeeded : Bool
  deriving DecidableEq, Repr

/-- What a command does with a file. -/
inductive Action where
  | parse
  | tokens
  | highlight
  | check
  deriving DecidableEq, Repr

/-- Why a command fails before it does anything. -/
inductive Failure where
  | invalidPath (path : String)
  | invalidCommand (name : String)
  deriving DecidableEq, Repr

def Failure.message : Failure → String
  | invalidPath path => "Invalid path: " ++ path
  | invalidCommand name => "Invalid command: " ++ name

def Action.ofName? : String → Option Action
  | "parse" => some parse
  | "tokens" => some tokens
  | "highlight" => some highlight
  | "check" => some check
  | _ => none

/-- How to use the commands. -/
def help : String :=
  String.intercalate "\n"
    ["lpc",
     "",
     "USAGE:",
     "  lpc <COMMAND> <file>",
     "",
     "COMMANDS:",
     "  parse <file>      print the syntax tree as JSON",
     "  tokens <file>     print the token stream as JSON",
     "  highlight <file>  print highlight ranges as JSON",
     "  check <file>      report syntax holes; exit code 1 when any exist",
     "",
     "  -h, --help"]

def Outcome.print (text : String) : Outcome := ⟨text ++ "\n", "", true⟩

def Outcome.fail (text : String) : Outcome := ⟨"", text ++ "\n", false⟩

/-- Prints a value with a line for every item. -/
def Outcome.json (value : Json) : Outcome := .print value.pretty

/-- Reports the errors of a file, if it has any. -/
def check (path text : String) : Outcome :=
  match (Forest.parse .interpretation text).diagnostics text with
  | [] => ⟨"", "", true⟩
  | found => .fail (renderDiagnostics path found)

/-- What a command says of a file. -/
def Action.perform (path text : String) : Action → Outcome
  | parse => .json (.list Node.toJson (Forest.parse .interpretation text).nodes)
  | tokens => .json (.list Token.toJson (lex .editor text))
  | highlight => .json (.list Highlight.toJson (Forest.parse .editor text).highlights)
  | check => Command.check path text

/-- What the arguments ask for, where files are read with `read`. -/
def run (read : String → Option String) : List String → Outcome
  | [] => .print help
  | name :: arguments =>
    if name = "-h" || name = "--help" then .print help
    else
      match Action.ofName? name, arguments with
      | none, _ => .fail (Failure.invalidCommand name).message
      | some _, [] => .print help
      | some action, path :: _ =>
        match read path with
        | some text => action.perform path text
        | none => .fail (Failure.invalidPath path).message

/-- The file that the arguments name, if they name one. -/
def file? : List String → Option String
  | name :: path :: _ => if (Action.ofName? name).isSome then some path else none
  | _ => none

end MudEdit.Command
