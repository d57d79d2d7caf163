import MudEdit.Grammar.Annotation

/-!
# Operands

A primary expression — a literal, a name, something in brackets — with its suffixes,
or an operand behind an operator or a cast.
-/

namespace MudEdit.Parse

variable (below : Nested)

/-- Expressions with commas between them, up to a closing token. -/
def arguments (closer : Sign) : Parse (List Node) := separated (.sign closer) below.expression

/-- An expression that a token of the kind shows to be left out. -/
def optionalExpression (without : Sign) : Parse (Option Node) := do
  if ← sees (.sign without) then return none else return some (← below.expression)

/-- One more scope of a name, written with `::`. -/
def scopeLink (scope : Option Node) : Parse Node := do
  let separator ← advance
  let member ← name
  let begin := (scope.map Node.begin).getD separator.begin
  return .new begin (← lastStop) (.scopeChain scope member)

/-- One more scope, if there is one. -/
def scopeSuffix (scope : Node) : Parse (Option Node) := do
  if scope.canGrow && (← sees (.sign .scope)) then return some (← scopeLink (some scope))
  else return none

/-- A name with its scopes: `name`, `a::b::c` or `::name`. -/
def scopedName : Parse Node := do
  match ← eat? .identifier with
  | some t => chain scopeSuffix (nameNode t)
  | none => chain scopeSuffix (← scopeLink none)

/-- An expression in parentheses, which leave no node. -/
def parenthesized : Parse Node := do
  let _ ← advance
  let inner ← below.expression
  return inner.combine (← closeParen)

/-- An array: `({ a, b })`. -/
def arrayLiteral : Parse Node := do
  let opening ← advance
  let items ← arguments below .rightBrace
  let holes := (← closeBrace) ++ (← closeParen)
  return (Node.new opening.begin (← lastStop) (.array items)).combine holes

/-- A key and its value. -/
def mappingEntry : Parse Node := do
  let key ← below.expression
  let holes ← colon
  let value ← below.expression
  return (Node.new key.begin value.stop (.entry key value)).combine holes

/-- A mapping: `([ key: value ])`. -/
def mappingLiteral : Parse Node := do
  let opening ← advance
  let entries ← separated (.sign .rightBracket) (mappingEntry below)
  let holes := (← closeBracket) ++ (← closeParen)
  return (Node.new opening.begin (← lastStop) (.mapping entries)).combine holes

/-- What is made, a type or an expression. -/
def newTarget : Parse Node := do
  if (← kind).isTypeWord then below.type else below.expression

/-- What it is made with, if anything. -/
def newArguments : Parse (List Node) := do
  if ← eats (.sign .comma) then arguments below .rightParen else return []

/-- A new object or value: `new(target, arguments)`. -/
def newValue : Parse Node := do
  let word ← advance
  let opening ← openParen
  let target ← newTarget below
  let args ← newArguments below
  let closing ← closeParen
  return (Node.new word.begin (← lastStop) (.new target args)).combine (opening ++ closing)

/-- The construct that a token is on its own. -/
def literal? (t : Token) : Option NodeKind :=
  match t.kind with
  | .int => some <| match t.payload with
    | some (.int value) => .int value
    | _ => .int 0
  | .float => some <| match t.payload with
    | some (.float value) => .float value
    | _ => .float (.finite 0 0)
  | .character => some <| match t.payload with
    | some (.char value) => .char value
    | _ => .char '\x00'
  | .symbol => some (.symbol t.text)
  | .keyword .trueWord => some (.bool true)
  | .keyword .falseWord => some (.bool false)
  | .keyword .nilWord => some .nil
  | .keyword .thisWord => some .this
  | _ => none

/-- The current token, if it is an expression on its own. -/
def atom : Parse Node := do
  match literal? (← current) with
  | some construct =>
    let t ← advance
    return .new t.begin t.stop construct
  | none => hole .expression

/-- An expression without operators or suffixes. -/
def primary : Parse Node := do
  match ← kind with
  | .identifier | .sign .scope => scopedName
  | .string => strings
  | .sign .leftParen => parenthesized below
  | .sign .arrayOpen => arrayLiteral below
  | .sign .mappingOpen => mappingLiteral below
  | .keyword .newWord => newValue below
  | _ => atom

/-- A call, after its function. -/
def callSuffix (callee : Node) : Parse Node := do
  let _ ← advance
  let args ← arguments below .rightParen
  let holes ← closeParen
  return (Node.new callee.begin (← lastStop) (.call callee args)).combine holes

/-- What stands in the brackets of a subscript: an index or a range. -/
def subscriptIndex : Parse Node := do
  let begin ← here
  let lower ← optionalExpression below .range
  match lower, ← eats (.sign .range) with
  | some index, false => return index
  | lower, _ =>
    let upper ← optionalExpression below .rightBracket
    return .new begin (← lastStop) (.range lower upper)

/-- A subscript, after its target. -/
def subscriptSuffix (target : Node) : Parse Node := do
  let _ ← advance
  let index ← subscriptIndex below
  let holes ← closeBracket
  return (Node.new target.begin (← lastStop) (.subscript target index)).combine holes

/-- A member, after its receiver. -/
def memberSuffix (access : Access) (receiver : Node) : Parse Node := do
  let _ ← advance
  let member ← name
  return .new receiver.begin (← lastStop) (.member receiver access member)

/-- An operator behind its operand. -/
def trailingOperator (op : UnaryOp) (operand : Node) : Parse Node := do
  let t ← advance
  return .new operand.begin t.stop (.unary op operand)

/-- One more suffix of an expression. -/
def suffix (target : Node) : Parse (Option Node) := do
  if !target.canGrow then return none
  match ← kind with
  | .sign .leftParen => some <$> callSuffix below target
  | .sign .leftBracket => some <$> subscriptSuffix below target
  | .sign .arrow => some <$> memberSuffix .arrow target
  | .sign .dot => some <$> memberSuffix .dot target
  | .sign .increment => some <$> trailingOperator .postIncrement target
  | .sign .decrement => some <$> trailingOperator .postDecrement target
  | _ => return none

/-- An operand behind a type in parentheses. -/
def castOperand : Parse Node := do
  let opening ← advance
  let type ← below.type
  let holes ← closeParen
  let value ← below.unary
  return (Node.new opening.begin value.stop (.cast type value)).combine holes

/-- An operand with the operators before it and the suffixes behind it. -/
def unary : Parse Node := do
  match UnaryOp.leading? (← kind) with
  | some op =>
    let t ← advance
    let operand ← below.unary
    return .new t.begin operand.stop (.unary op operand)
  | none =>
    if ← seesParenthesizedType then castOperand below
    else chain (suffix below) (← primary below)

end MudEdit.Parse
