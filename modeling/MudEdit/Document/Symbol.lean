import MudEdit.Document.Basic
import MudEdit.Signature

/-!
# Symbols

The outline of a document: what its file declares outside of functions and classes.
-/

namespace MudEdit

inductive SymbolKind where
  | function
  | cls
  | var
  deriving DecidableEq, Repr, Inhabited

structure DocumentSymbol where
  name : String
  detail : String
  kind : SymbolKind
  range : Text.Range
  deriving DecidableEq, Repr, Inhabited

namespace SymbolKind

def ofDefinition : DefinitionKind → SymbolKind
  | .func _ _ => function
  | .cls => cls
  | .var | .param => var

end SymbolKind

/-- The outline of a document, in source order. -/
def Document.symbols (d : Document) : List DocumentSymbol :=
  let lines := d.lines
  d.program.topLevel.map fun definition =>
    ⟨definition.name, definition.signature, .ofDefinition definition.kind,
      lines.range definition.begin definition.stop⟩

end MudEdit
