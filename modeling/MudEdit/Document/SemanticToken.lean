import MudEdit.Document.Basic
import MudEdit.Highlight

/-!
# Semantic tokens

The highlights of a document as editors receive them. They must not overlap or reach
over the end of a line, so of two that overlap the first one stays, and one that covers
several lines is cut into pieces. Each piece is then placed relative to the one before.
-/

namespace MudEdit

/-- What an editor can style. -/
inductive TokenClass where
  | keyword
  | type
  | modifier
  | function
  | var
  | parameter
  | number
  | string
  | enumMember
  | comment
  deriving DecidableEq, Repr, Inhabited

namespace TokenClass

/-- All classes, each at its number. -/
def all : List TokenClass :=
  [keyword, type, modifier, function, var, parameter, number, string, enumMember, comment]

/-- The number of a class. -/
def index (c : TokenClass) : Nat := all.idxOf c

/-- The name under which editors know a class. -/
def title : TokenClass → String
  | keyword => "keyword"
  | type => "type"
  | modifier => "modifier"
  | function => "function"
  | var => "variable"
  | parameter => "parameter"
  | number => "number"
  | string => "string"
  | enumMember => "enumMember"
  | comment => "comment"

/-- The class of a highlight, with the bits for what else holds of it; holes have none. -/
def ofHighlight? : HighlightKind → Option (TokenClass × Nat)
  | .keyword => some (keyword, 0)
  | .type => some (type, 0)
  | .modifier => some (modifier, 0)
  | .function => some (function, 0)
  | .var => some (var, 1)
  | .parameter => some (parameter, 1)
  | .name => some (var, 0)
  | .integer | .float => some (number, 0)
  | .string | .character | .symbol => some (string, 0)
  | .constant => some (enumMember, 0)
  | .comment => some (comment, 0)
  | .docComment => some (comment, 2)
  | .missing | .wrong => none

end TokenClass

/-- What may hold of a token, each with a bit of its own, the lowest first. -/
def tokenModifiers : List String := ["declaration", "documentation"]

/-- A styled piece of a line. -/
structure StyledPiece where
  piece : Text.Piece
  style : TokenClass
  modifiers : Nat
  deriving DecidableEq, Repr, Inhabited

/-- A styled piece, placed relative to the one before. -/
structure SemanticToken where
  deltaLine : Nat
  deltaStart : Nat
  length : Nat
  style : TokenClass
  modifiers : Nat
  deriving DecidableEq, Repr, Inhabited

namespace SemanticToken

/-- The highlights that are not empty and begin where those kept before have ended. -/
def kept (covered : Nat) : List Highlight → List Highlight
  | [] => []
  | h :: rest =>
    if h.begin < covered || h.stop ≤ h.begin then kept covered rest else h :: kept h.stop rest

/-- The pieces of a highlight. -/
def pieces (lines : Text.Lines) (h : Highlight) : List StyledPiece :=
  match TokenClass.ofHighlight? h.kind with
  | some (style, modifiers) => (lines.pieces h.begin h.stop).map (⟨·, style, modifiers⟩)
  | none => []

/-- Pieces placed relative to each other, the first one to a line and column. -/
def place (line start : Nat) : List StyledPiece → List SemanticToken
  | [] => []
  | p :: rest =>
    let deltaStart := if p.piece.line = line then p.piece.start - start else p.piece.start
    ⟨p.piece.line - line, deltaStart, p.piece.length, p.style, p.modifiers⟩ ::
      place p.piece.line p.piece.start rest

/-- The semantic tokens of a text that was read into a forest. -/
def ofForest (lines : Text.Lines) (f : Forest) : List SemanticToken :=
  place 0 0 <| (kept 0 (f.highlights.filter (!·.kind.isHole))).flatMap (pieces lines)

end SemanticToken

def Document.tokens (d : Document) : List SemanticToken :=
  SemanticToken.ofForest d.lines d.forest

end MudEdit
