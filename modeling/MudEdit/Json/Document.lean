import MudEdit.Completion
import MudEdit.Document.Finding
import MudEdit.Document.Hover
import MudEdit.Document.SemanticToken
import MudEdit.Document.Symbol
import MudEdit.Json.Basic

/-!
# What editors are told about documents, as JSON

Editors know kinds and severities by number. A completion carries its rank as a text
that sorts like the rank, since an editor would sort by label otherwise.
-/

namespace MudEdit

namespace Text

/-- A line and a column. -/
def positionJson (p : Nat × Nat) : Json := .object [("line", p.1), ("character", p.2)]

def Range.toJson (r : Range) : Json :=
  .object [("start", positionJson r.start), ("end", positionJson r.stop)]

end Text

def Severity.number : Severity → Nat
  | .error => 1
  | .warning => 2
  | .info => 3

def Finding.toJson (f : Finding) : Json :=
  .object [("range", f.range.toJson), ("severity", f.severity.number), ("code", f.code),
    ("source", "lpc"), ("message", f.message)]

def SymbolKind.number : SymbolKind → Nat
  | .cls => 5
  | .function => 12
  | .var => 13

def DocumentSymbol.toJson (s : DocumentSymbol) : Json :=
  .object [("name", s.name), ("detail", s.detail), ("kind", s.kind.number),
    ("range", s.range.toJson), ("selectionRange", s.range.toJson)]

def Hover.toJson (h : Hover) : Json :=
  .object [("contents", .object [("kind", "markdown"), ("value", h.value)]),
    ("range", h.range.toJson)]

def SuggestionKind.number : SuggestionKind → Nat
  | .function => 3
  | .var | .parameter => 6
  | .cls => 7
  | .keyword => 14
  | .type => 25

/-- A rank with at least five digits. -/
def rankText (rank : Nat) : String :=
  let digits := Nat.toDigits 10 rank
  String.ofList (List.replicate (5 - digits.length) '0' ++ digits)

/-- A suggestion of a rank. -/
def Suggestion.toJson (s : Suggestion) (rank : Nat) : Json :=
  .object <| [("label", .string s.label), ("kind", .int s.kind.number)] ++
    (s.detail.map fun d => ("detail", Json.string d)).toList ++
    [("sortText", .string (rankText rank))]

/-- Suggestions from the best one down. -/
def suggestionsJson (suggestions : List Suggestion) : Json :=
  .array (suggestions.zipIdx.map fun (s, rank) => s.toJson rank)

/-- The numbers that describe a token. -/
def SemanticToken.numbers (t : SemanticToken) : List Nat :=
  [t.deltaLine, t.deltaStart, t.length, t.style.index, t.modifiers]

end MudEdit
