import MudEdit.Diagnostic
import MudEdit.Document.Basic
import MudEdit.Text.Quoted

/-!
# Findings

What an editor marks in a document: an error for every hole, and a warning for every
link to something that could not be loaded, along the line of the link.
-/

namespace MudEdit

inductive Severity where
  | error
  | warning
  | info
  deriving DecidableEq, Repr, Inhabited

/-- A marked stretch of a document. -/
structure Finding where
  range : Text.Range
  severity : Severity
  code : String
  message : String
  deriving DecidableEq, Repr, Inhabited

namespace Finding

/-- The error for a hole. -/
def ofDiagnostic (lines : Text.Lines) (d : Diagnostic) : Finding :=
  ⟨lines.range d.begin d.stop, .error, d.code, d.message⟩

/-- The warning for a link at an offset. -/
def unresolved (lines : Text.Lines) (offset : Nat) (path : String) : Finding :=
  ⟨lines.range offset (lines.lineEnd offset), .warning, "R001", "cannot find " ++ Text.quoted path⟩

end Finding

namespace Document

/-- The links to what is missing, each with its offset. -/
def missingLinks (d : Document) : List (Nat × String) :=
  d.program.root.instructions.filterMap fun (offset, instruction) =>
    (instruction.path?.filter d.missing.contains).map (offset, ·)

/-- The findings of a document: errors, then warnings. -/
def findings (d : Document) : List Finding :=
  let lines := d.lines
  (d.forest.diagnostics d.text).map (Finding.ofDiagnostic lines) ++
    d.missingLinks.map fun (offset, path) => Finding.unresolved lines offset path

end Document

end MudEdit
