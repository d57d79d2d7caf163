import MudEdit.Token.Words

/-!
# What a hole stands in for

Source that is being edited is rarely complete. Where the grammar needs something
that is not there, the tree has a hole, and the hole says what was expected.
-/

namespace MudEdit

/-- The construct that a hole stands in for. -/
inductive Expected where
  | semicolon
  | comma
  | colon
  | leftParen
  | rightParen
  | leftBrace
  | rightBrace
  | leftBracket
  | rightBracket
  | greater
  | assign
  | whileWord
  | catchWord
  | caseWord
  | name
  | type
  | string
  | operator
  | expression
  | statement
  | declaration
  deriving DecidableEq, Repr, Inhabited

namespace Expected

/-- How a message names it. -/
def text : Expected → String
  | semicolon => "';'"
  | comma => "','"
  | colon => "':'"
  | leftParen => "'('"
  | rightParen => "')'"
  | leftBrace => "'\x7b'"
  | rightBrace => "'\x7d'"
  | leftBracket => "'['"
  | rightBracket => "']'"
  | greater => "'>'"
  | assign => "'='"
  | whileWord => "'while'"
  | catchWord => "'catch'"
  | caseWord => "'case' or 'default'"
  | name => "a name"
  | type => "a type"
  | string => "a string"
  | operator => "an overloadable operator"
  | expression => "an expression"
  | statement => "a statement"
  | declaration => "a declaration"

/-- Its name in serialized form. -/
def serialName : Expected → String
  | semicolon => "Semicolon"
  | comma => "Comma"
  | colon => "Colon"
  | leftParen => "LeftParen"
  | rightParen => "RightParen"
  | leftBrace => "LeftBrace"
  | rightBrace => "RightBrace"
  | leftBracket => "LeftBracket"
  | rightBracket => "RightBracket"
  | greater => "Greater"
  | assign => "Assign"
  | whileWord => "While"
  | catchWord => "Catch"
  | caseWord => "Case"
  | name => "Name"
  | type => "Type"
  | string => "String"
  | operator => "Operator"
  | expression => "Expression"
  | statement => "Statement"
  | declaration => "Declaration"

/-- The message where it is missing. -/
def missingMessage (e : Expected) : String := "missing " ++ e.text

/-- The message where a token stands in its place. -/
def wrongMessage (e : Expected) (found : TokenKind) : String :=
  "expected " ++ e.text ++ ", found " ++ found.describe

end Expected

end MudEdit
