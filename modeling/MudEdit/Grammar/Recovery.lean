import MudEdit.Grammar.Cursor
import MudEdit.Node.Walk

/-!
# Holes

Where the grammar needs a token that is not there, it leaves a hole and goes on. At a
token from which reading can resume — a closing bracket, a semicolon, the start of a
statement or declaration, the end of the text — the hole is empty and nothing is
taken. Any other token is taken as wrong, so that it cannot stall the reading.

Two limits keep trees shallow: constructs nest at most `maxDepth` levels deep, and a
chain of operators or suffixes grows no node taller than `maxHeight`.
-/

namespace MudEdit

/-- Keywords that a statement starts with, the parts of statements among them. -/
def Keyword.startsStatement : Keyword → Bool
  | .ifWord | .elseWord | .whileWord | .doWord | .forWord | .foreachWord | .switchWord | .caseWord
  | .defaultWord | .breakWord | .continueWord | .returnWord | .tryWord | .catchWord => true
  | _ => false

namespace TokenKind

/-- Whether a declaration can start with the token. -/
def startsDeclaration : TokenKind → Bool
  | basic _ | modifier _ | keyword .letWord | keyword .inheritWord | keyword .classWord
  | includeDirective => true
  | _ => false

/-- Whether a statement other than a declaration or an expression starts with the token. -/
def startsStatement : TokenKind → Bool
  | sign .leftBrace => true
  | keyword k => k.startsStatement
  | _ => false

/-- Whether reading can resume at the token. -/
def isSync : TokenKind → Bool
  | eof | sign .semicolon | sign .rightBrace | sign .rightParen | sign .rightBracket => true
  | kind => kind.startsStatement || kind.startsDeclaration

end TokenKind

/-- How deep statements, expressions and types nest before the rest is read as holes. -/
def maxDepth : Nat := 64

/-- How tall a node gets before a chain of operators or suffixes is read no further. -/
def maxHeight : Nat := 128

/-- Whether a chain may wrap the node in one more level. -/
def Node.canGrow (n : Node) : Bool := n.height < maxHeight

namespace Parse

/-- Takes the current token as one that is wrong here. -/
def wrongCurrent (expected : Expected) : Parse Node := return .wrong (← advance) expected

/-- A hole for what is not there; takes the current token unless reading can resume at it. -/
def hole (expected : Expected) : Parse Node := do
  if (← kind).isSync then return .missing (← lastStop) expected else wrongCurrent expected

/-- A hole that takes the current token, if there is one. -/
def refuse (expected : Expected) : Parse Node := do
  if ← atEnd then return .missing (← lastStop) expected else wrongCurrent expected

/--
Takes a token of the kind, and says whether it was there and which hole it left. After a
wrong token, one of the kind is still taken.
-/
def expect (kind : TokenKind) (expected : Expected) : Parse (Bool × List Node) := do
  if ← eats kind then return (true, [])
  let h ← hole expected
  if h.isMissing then return (false, [h]) else return (← eats kind, [h])

/-! The tokens that constructs need, each with the hole that it leaves. -/

def semicolon : Parse (List Node) := return (← expect (.sign .semicolon) .semicolon).2

def colon : Parse (List Node) := return (← expect (.sign .colon) .colon).2

def openParen : Parse (List Node) := return (← expect (.sign .leftParen) .leftParen).2

def closeParen : Parse (List Node) := return (← expect (.sign .rightParen) .rightParen).2

def closeBracket : Parse (List Node) := return (← expect (.sign .rightBracket) .rightBracket).2

def closeBrace : Parse (List Node) := return (← expect (.sign .rightBrace) .rightBrace).2

/--
The production, with the current token added as wrong if the production took none. So a
loop over it always moves on.
-/
def guarded (production : Parse Node) : Parse Node := do
  let before ← left
  let node ← production
  if (← atEnd) || (← left) != before then return node
  return node.combine [← wrongCurrent .statement]

/-- A name token as a node. -/
def nameNode (t : Token) : Node := .new t.begin t.stop (.name t.text)

/-- A name, or a hole for one. -/
def name : Parse Node := do
  match ← eat? .identifier with
  | some t => return nameNode t
  | none => hole .name

/-- The current token as a string literal. -/
def stringLiteral : Parse Node := do
  let t ← advance
  return .new t.begin t.stop (.string t.text)

/-- One string literal, or several that stand side by side. -/
def strings : Parse Node := do
  match ← manyUntil (· != .string) stringLiteral with
  | [single] => return single
  | parts =>
    let begin := (parts.head?.map Node.begin).getD (← lastStop)
    return .new begin begin (.strings parts)

/-- String literals that name a file, or a hole for them. -/
def path : Parse Node := do
  if ← sees .string then strings else hole .string

end Parse

/-- The productions that nest, as they read one level further down. -/
structure Nested where
  statement : Parse Node
  member : Parse Node
  expression : Parse Node
  alternative : Parse Node
  operand : (loosest : Nat) → Parse Node
  unary : Parse Node
  type : Parse Node

/-- Below the deepest level there are only holes. -/
def Nested.none : Nested where
  statement := Parse.refuse .statement
  member := Parse.refuse .declaration
  expression := Parse.refuse .expression
  alternative := Parse.refuse .expression
  operand _ := Parse.refuse .expression
  unary := Parse.refuse .expression
  type := Parse.refuse .type

end MudEdit
