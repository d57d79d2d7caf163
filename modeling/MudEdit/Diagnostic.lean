import MudEdit.Forest
import MudEdit.Text.Lines

/-!
# Diagnostics

Every hole of a file is an error. Its code says whether something is missing or a
token is wrong, and its message says what was expected.
-/

namespace MudEdit

structure Diagnostic where
  code : String
  message : String
  begin : Nat
  stop : Nat
  /-- Line and column where the hole begins, from one. -/
  start : Nat × Nat
  /-- Line and column where the hole ends, from one. -/
  finish : Nat × Nat
  deriving DecidableEq, Repr, Inhabited

namespace Diagnostic

/-- The code of a hole. -/
def codeOf (hole : Node) : String := if hole.isMissing then "P001" else "P002"

def ofHole (lines : Text.Lines) (hole : Node) : Diagnostic where
  code := codeOf hole
  message := hole.message?.getD ""
  begin := hole.begin
  stop := hole.stop
  start := lines.position hole.begin
  finish := lines.position hole.stop

/-- The diagnostic on a line of its own, for a file of that path. -/
def render (path : String) (d : Diagnostic) : String :=
  "error[" ++ d.code ++ "] " ++ path ++ ":" ++ toString d.start.1 ++ ":" ++
    toString d.start.2 ++ " " ++ d.message

end Diagnostic

/-- The diagnostics of a file, in the order of its holes. -/
def Forest.diagnostics (f : Forest) (text : String) : List Diagnostic :=
  let lines := Text.Lines.ofString text
  f.holes.map (Diagnostic.ofHole lines)

/-- Diagnostics with a newline between them. -/
def renderDiagnostics (path : String) (ds : List Diagnostic) : String :=
  String.intercalate "\n" (ds.map (Diagnostic.render path))

end MudEdit
