import MudEdit.Grammar.Declaration
import MudEdit.Grammar.Expression

/-!
# Statements

The statements that steer control, and statements that are declarations or
expressions.
-/

namespace MudEdit.Parse

variable (below : Nested)

/-- An expression and its semicolon. -/
def expressionStatement : Parse Node := do
  let value ← below.expression
  return value.combine (← semicolon)

/-- An expression in parentheses, with the holes of the parentheses. -/
def parenthesizedCondition : Parse (Node × List Node) := do
  let opening ← openParen
  let condition ← below.expression
  let closing ← closeParen
  return (condition, opening ++ closing)

/-- What is done otherwise, if anything. -/
def otherwise : Parse (Option Node) := do
  if ← eats (.keyword .elseWord) then return some (← below.statement) else return none

def ifStatement : Parse Node := do
  let word ← advance
  let (condition, holes) ← parenthesizedCondition below
  let thenBranch ← below.statement
  let elseBranch ← otherwise below
  return (Node.new word.begin (← lastStop)
    (.ifElse condition thenBranch elseBranch)).combine holes

def whileStatement : Parse Node := do
  let word ← advance
  let (condition, holes) ← parenthesizedCondition below
  let body ← below.statement
  return (Node.new word.begin (← lastStop) (.whileLoop condition body)).combine holes

def doStatement : Parse Node := do
  let word ← advance
  let body ← below.statement
  let (_, holes) ← expect (.keyword .whileWord) .whileWord
  let (condition, more) ← parenthesizedCondition below
  let ending ← semicolon
  return (Node.new word.begin (← lastStop)
    (.doWhile body condition)).combine (holes ++ more ++ ending)

/-- The first part of a `for`; a declaration takes its own semicolon. -/
def forStart : Parse (Option Node × List Node) := do
  if ← eats (.sign .semicolon) then return (none, [])
  if (← kind).startsDeclaration then return (some (← declaration below), [])
  let start ← below.expression
  return (some start, ← semicolon)

def forStatement : Parse Node := do
  let word ← advance
  let opening ← openParen
  let (start, starting) ← forStart below
  let condition ← optionalExpression below .semicolon
  let between ← semicolon
  let step ← optionalExpression below .rightParen
  let closing ← closeParen
  let body ← below.statement
  return (Node.new word.begin (← lastStop) (.forLoop start condition step body)).combine
    (opening ++ starting ++ between ++ closing)

/-- An expression, or a range from one to another. -/
def spanned : Parse Node := do
  let lower ← below.expression
  if ← eats (.sign .range) then
    let upper ← below.expression
    return .new lower.begin upper.stop (.range (some lower) (some upper))
  else return lower

/-- What a `foreach` binds to each value, a new variable or something that exists. -/
def foreachBinding : Parse Node := do
  if (← kind).startsDeclaration then bareVariable below else below.expression

def foreachStatement : Parse Node := do
  let word ← advance
  let opening ← openParen
  let binding ← foreachBinding below
  let between ← colon
  let iterable ← spanned below
  let closing ← closeParen
  let body ← below.statement
  return (Node.new word.begin (← lastStop) (.foreachLoop binding iterable body)).combine
    (opening ++ between ++ closing)

/-- The kinds at which the statements under a label end. -/
def endsCase : TokenKind → Bool
  | .keyword .caseWord | .keyword .defaultWord | .sign .rightBrace => true
  | _ => false

/-- The values of a label; the default label has none. -/
def caseValues (word : Token) : Parse (Option Node) := do
  if word.kind == .keyword .caseWord then return some (← spanned below) else return none

/-- A label and the statements under it. -/
def labelledCase : Parse Node := do
  let word ← advance
  let label ← caseValues below word
  let holes ← colon
  let statements ← manyUntil endsCase (guarded below.statement)
  return (Node.new word.begin (← lastStop) (.caseLabel label statements)).combine holes

/-- A case of a switch; any other token is wrong there. -/
def switchCase : Parse Node := do
  match ← kind with
  | .keyword .caseWord | .keyword .defaultWord => labelledCase below
  | _ => wrongCurrent .caseWord

/-- The cases of a switch with the holes of its braces; none, if they do not open. -/
def switchBody : Parse (List Node × List Node) := do
  let (opened, opening) ← expect (.sign .leftBrace) .leftBrace
  if !opened then return ([], opening)
  let cases ← manyUntil (· == .sign .rightBrace) (switchCase below)
  return (cases, opening ++ (← closeBrace))

def switchStatement : Parse Node := do
  let word ← advance
  let (value, holes) ← parenthesizedCondition below
  let (cases, bracing) ← switchBody below
  return (Node.new word.begin (← lastStop) (.switchOn value cases)).combine (holes ++ bracing)

/-- The variable of a handler, if it is written. -/
def handlerVariable : Parse (Option Node × List Node) := do
  if ← eats (.sign .leftParen) then
    let exception ← bareVariable below
    return (some exception, ← closeParen)
  else return (none, [])

def tryStatement : Parse Node := do
  let word ← advance
  let body ← below.statement
  if ← eats (.keyword .catchWord) then
    let (exception, holes) ← handlerVariable below
    let handler ← below.statement
    return (Node.new word.begin (← lastStop) (.tryCatch body exception handler)).combine holes
  else
    let handler ← hole .catchWord
    return .new word.begin (← lastStop) (.tryCatch body none handler)

def returnStatement : Parse Node := do
  let word ← advance
  let value ← optionalExpression below .semicolon
  let holes ← semicolon
  return (Node.new word.begin (← lastStop) (.returnValue value)).combine holes

/-- A statement that is one word and a semicolon. -/
def wordStatement (construct : NodeKind) : Parse Node := do
  let word ← advance
  let holes ← semicolon
  return (Node.new word.begin (← lastStop) construct).combine holes

/-- A statement. -/
def statement : Parse Node := do
  match ← kind with
  | .sign .leftBrace => block below
  | .keyword .ifWord => ifStatement below
  | .keyword .whileWord => whileStatement below
  | .keyword .doWord => doStatement below
  | .keyword .forWord => forStatement below
  | .keyword .foreachWord => foreachStatement below
  | .keyword .switchWord => switchStatement below
  | .keyword .tryWord => tryStatement below
  | .keyword .returnWord => returnStatement below
  | .keyword .breakWord => wordStatement .breakLoop
  | .keyword .continueWord => wordStatement .continueLoop
  | .sign .semicolon => emptyStatement
  | .keyword .classWord => member below
  | kind => if kind.startsDeclaration then declaration below else expressionStatement below

end MudEdit.Parse
