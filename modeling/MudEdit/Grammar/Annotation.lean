import MudEdit.Grammar.Recovery

/-!
# Types in source

A basic type or a type in parentheses, then suffixes for arrays and function
references, then alternatives. All but the innermost are chains.
-/

namespace MudEdit

/-- The text of string literals that name a file. -/
def Node.stringValue? (n : Node) : Option String :=
  match n.kind with
  | .string value => some value
  | .strings parts => some <| String.join <| parts.filterMap fun part =>
      match part.kind with
      | .string value => some value
      | _ => none
  | _ => none

namespace Parse

variable (below : Nested)

/-- Whether a type in parentheses starts here. -/
def seesParenthesizedType : Parse Bool :=
  return (← sees (.sign .leftParen)) && (← nextKind).isTypeWord

/-- The file that a basic type is from, and the holes left while it was read. -/
def typeFile (basic : BasicKind) : Parse (Option String × List Node) := do
  if !basic.takesFile then return (none, [])
  if !(← eats (.sign .less)) then return (none, [])
  let file ← path
  let (_, closing) ← expect (.sign .greater) .greater
  match file.stringValue? with
  | some text => return (some text, closing)
  | none => return (none, file :: closing)

/-- A basic type, or a type in parentheses. -/
def typeAtom : Parse Node := do
  match ← kind with
  | .sign .leftParen =>
    let _ ← advance
    let inner ← below.type
    return inner.combine (← closeParen)
  | .basic basic =>
    let word ← advance
    let (file, holes) ← typeFile basic
    return (Node.new word.begin (← lastStop) (.basicType basic file)).combine holes
  | _ => hole .type

/-- The suffix of a function reference, after its return type. -/
def functionSuffix (returns : Node) : Parse Node := do
  let _ ← advance
  let (parameters, variadic) ← separatedOpen below.type
  let holes ← closeParen
  return (Node.new returns.begin (← lastStop)
    (.functionType returns parameters variadic)).combine holes

/-- One more suffix of a type. -/
def typeSuffix (type : Node) : Parse (Option Node) := do
  if !type.canGrow then return none
  match ← kind, ← nextKind with
  | .sign .leftBracket, .sign .rightBracket =>
    let _ ← advance
    let _ ← advance
    return some (.new type.begin (← lastStop) (.arrayType type))
  | .sign .star, _ =>
    let _ ← advance
    return some (.new type.begin (← lastStop) (.arrayType type))
  | .sign .leftParen, _ => return some (← functionSuffix below type)
  | _, _ => return none

/-- A type with its suffixes. -/
def suffixedType : Parse Node := do chain (typeSuffix below) (← typeAtom below)

/-- One more alternative of a type. -/
def typeAlternative (type : Node) : Parse (Option Node) := do
  if !type.canGrow then return none
  if ← eats (.sign .pipe) then
    let other ← suffixedType below
    return some (.new type.begin other.stop (.orType type other))
  else return none

/-- A type with its alternatives. -/
def type : Parse Node := do chain (typeAlternative below) (← suffixedType below)

end Parse

end MudEdit
