import MudEdit.Grammar.Annotation

/-!
# Declarations

Variables, functions, classes, and the directives that name other programs.
-/

namespace MudEdit.Parse

variable (below : Nested)

/-- The current token as a statement of its own. -/
def emptyStatement : Parse Node := do
  let t ← advance
  return .new t.begin t.stop .empty

/-- An included file; the directive takes no semicolon. -/
def includeDirective : Parse Node := do
  let word ← advance
  let file ← path
  return .new word.begin word.stop (.includeFile file)

/-- An inherited program. -/
def inheritance : Parse Node := do
  let word ← advance
  let file ← path
  let holes ← semicolon
  return (Node.new word.begin (← lastStop) (.inheritFile file)).combine holes

/--
The members of a class with the holes of its braces, which a semicolon may follow; none, if
they do not open.
-/
def classBody : Parse (List Node × List Node) := do
  let (opened, opening) ← expect (.sign .leftBrace) .leftBrace
  if !opened then return ([], opening)
  let members ← manyUntil (· == .sign .rightBrace) (guarded below.member)
  let closing ← closeBrace
  let _ ← eats (.sign .semicolon)
  return (members, opening ++ closing)

/-- A class with members, or one that is made from another program. -/
def classDefinition : Parse Node := do
  let word ← advance
  let title ← name
  if ← sees .string then
    let file ← strings
    let holes ← semicolon
    return (Node.new word.begin (← lastStop) (.classDef title (some file) [])).combine holes
  let (members, bracing) ← classBody below
  return (Node.new word.begin (← lastStop) (.classDef title none members)).combine bracing

/-- The current token as a modifier. -/
def modifier : Parse (Option Modifier) := do
  match (← advance).kind with
  | .modifier m => return some m
  | _ => return none

/-- The modifiers of a declaration. -/
def modifiers : Parse (Option Node) := do
  let begin ← here
  let words ← manyUntil (!·.isModifier) modifier
  if words.isEmpty then return none
  return some (.new begin (← lastStop) (.modifiers (words.filterMap id)))

/-- The value that a variable starts with. -/
def initialValue : Parse (Option Node) := do
  if ← eats (.sign .assign) then return some (← below.expression) else return none

/-- The type after a colon; where a colon may mean something else, it has to start with a word. -/
def annotatedType (certain : Bool) : Parse (Option Node) := do
  if (← sees (.sign .colon)) && (certain || (← nextKind).isTypeWord) then
    let _ ← advance
    return some (← below.type)
  else return none

/-- A variable declared with `let`, its modifiers and where they begin given. -/
def letDefinition (begin : Nat) (mods : Option Node) : Parse Node := do
  let _ ← advance
  let title ← name
  let type ← annotatedType below true
  let value ← initialValue below
  let holes ← semicolon
  return (Node.new begin (← lastStop) (.variableDef mods type title value)).combine holes

/-- A variable that a loop or a handler binds, without a value of its own. -/
def bareVariable : Parse Node := do
  let begin ← here
  if ← eats (.keyword .letWord) then
    let title ← name
    let type ← annotatedType below false
    return .new begin (← lastStop) (.variableDef none type title none)
  else
    let type ← below.type
    let title ← name
    return .new begin (← lastStop) (.variableDef none (some type) title none)

/-- The sign that closes an overloadable bracket, and its hole. -/
def closer? : TokenKind → Option (Sign × Expected)
  | .sign .leftBracket => some (.rightBracket, .rightBracket)
  | .sign .leftParen => some (.rightParen, .rightParen)
  | _ => none

/-- The rest of an operator's name: the closing bracket of an opening one. -/
def operatorCloser (kind : TokenKind) : Parse (String × List Node) := do
  match closer? kind with
  | some (sign, expected) =>
    let (closed, holes) ← expect (.sign sign) expected
    return (if closed then sign.text else "", holes)
  | none => return ("", [])

/-- The name that a declaration gives: a plain one or that of an operator. -/
def declaredName : Parse Node := do
  match ← eat? (.keyword .operatorWord) with
  | none => name
  | some word =>
    let kind ← kind
    if !kind.isOverloadable then hole .operator
    else
      let _ ← advance
      let (closing, holes) ← operatorCloser kind
      let text := "operator" ++ kind.signText?.getD "" ++ closing
      return (Node.new word.begin (← lastStop) (.name text)).combine holes

/-- A parameter; a prototype may leave out its name. -/
def parameter : Parse Node := do
  let begin ← here
  if !(← kind).isTypeWord && !(← seesParenthesizedType) then hole .type
  else
    let type ← below.type
    let title ← eat? .identifier
    return .new begin (← lastStop) (.parameter type (title.map nameNode))

/-- The statements of a block. -/
def block : Parse Node := do
  let opening ← advance
  let statements ← manyUntil (· == .sign .rightBrace) (guarded below.statement)
  let holes ← closeBrace
  return (Node.new opening.begin (← lastStop) (.block statements)).combine holes

/-- The body of a function, or the semicolon of a prototype. -/
def functionBody : Parse (Option Node × List Node) := do
  if ← sees (.sign .leftBrace) then return (some (← block below), [])
  else return (none, ← semicolon)

/-- A function after its name, with what was read before. -/
def functionRest (begin : Nat) (mods : Option Node) (returns title : Node) : Parse Node := do
  let _ ← advance
  let (parameters, variadic) ← separatedOpen (parameter below)
  let closing ← closeParen
  let (body, ending) ← functionBody below
  return (Node.new begin (← lastStop)
    (.functionDef mods returns title parameters variadic body)).combine (closing ++ ending)

/-- The value and the semicolon of a variable, with what was read before. -/
def variableRest (begin : Nat) (mods : Option Node) (type title : Node) : Parse Node := do
  let value ← initialValue below
  let holes ← semicolon
  return (Node.new begin (← lastStop) (.variableDef mods (some type) title value)).combine holes

/-- A variable or a function, with its modifiers. -/
def declaration : Parse Node := do
  let begin ← here
  if !(← kind).startsDeclaration && !(← seesParenthesizedType) then refuse .declaration
  else
    let mods ← modifiers
    if ← sees (.keyword .letWord) then letDefinition below begin mods
    else
      let type ← below.type
      let title ← declaredName
      if ← sees (.sign .leftParen) then functionRest below begin mods type title
      else variableRest below begin mods type title

/-- A construct of a file or a class. -/
def member : Parse Node := do
  match ← kind with
  | .includeDirective => includeDirective
  | .keyword .inheritWord => inheritance
  | .keyword .classWord => classDefinition below
  | .sign .semicolon => emptyStatement
  | _ => declaration below

end MudEdit.Parse
