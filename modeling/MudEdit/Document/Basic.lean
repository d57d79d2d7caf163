import MudEdit.Forest
import MudEdit.Program.Resolution
import MudEdit.Text.Lines

/-!
# Open documents

A document that is open in an editor, with what was made of its current text. It is
resolved as soon as the text is known, and again when programs that it links to were
loaded; what is missing then stays missing.
-/

namespace MudEdit

structure Document where
  /-- The name of the document's program. -/
  name : String
  text : String
  /-- The number that the editor gave to the text. -/
  version : Option Int
  forest : Forest
  program : Program
  /-- What the document links to and could not be loaded. -/
  missing : List String

namespace Document

/-- A document with a text, and what it links to that is not in the library. -/
def analyze (library : Library) (stamp : Nat) (name text : String) (version : Option Int) :
    Document × List String :=
  let forest := Forest.parse .editor text
  let resolution := resolve library stamp (some name) forest.nodes
  (⟨name, text, version, forest, resolution.program, []⟩, resolution.unresolved)

/-- The document resolved again. -/
def reresolve (library : Library) (stamp : Nat) (d : Document) : Document :=
  let resolution := resolve library stamp (some d.name) d.forest.nodes
  { d with program := resolution.program, missing := resolution.unresolved }

def lines (d : Document) : Text.Lines := .ofString d.text

end Document

end MudEdit
