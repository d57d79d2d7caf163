import MudEdit.Program.Lookup

/-!
# Programs from parsed files

One walk through a forest makes the program of a file. It opens a scope for every
construct that has one, records each declaration where it stands, links the programs
that a library has for the included and inherited paths, and works out the types of
expressions on the way, since a variable without a type takes that of its value. A name
in an expression stands for what was declared before the walk came to it.
-/

namespace MudEdit

/-- The program of a file, and the paths for which the library had none. -/
structure Resolution where
  program : Program
  unresolved : List String

/-- A step of the walk: what it finds, and the program made so far. -/
abbrev Resolve := StateM Resolution

namespace Resolve

/-! ## Constructs -/

/-- The text of string literals, holes aside. -/
def pathOf? (n : Node) : Option String :=
  match n.primary.kind with
  | .string value => some value
  | .strings parts =>
    String.join <$> parts.mapM fun part =>
      match part.kind with
      | .string value => some value
      | _ => none
  | _ => none

/-- Whether one of the holes is a missing closing brace. -/
def lacksBrace (holes : List Node) : Bool :=
  holes.any fun h =>
    match h.kind with
    | .missing .rightBrace => true
    | _ => false

/-- Whether the node spells a type. -/
def isType (n : Node) : Bool :=
  match n.primary.kind with
  | .basicType _ _ | .arrayType _ | .orType _ _ | .functionType _ _ _ => true
  | _ => false

/-- Whether the node is a range. -/
def isRange (n : Node) : Bool :=
  match n.primary.kind with
  | .range _ _ => true
  | _ => false

/-- The modifiers of a declaration. -/
def modifiersOf (mods : Option Node) : List Modifier :=
  match mods.map Node.kind with
  | some (.modifiers words) => words
  | _ => []

/-- The type of a parameter; what is no parameter may be of any type. -/
def parameterType (n : Node) : Ty :=
  match n.primary.kind with
  | .parameter type _ => .ofNode type
  | _ => .any

/-- The declaration that a named parameter is. -/
def parameterDefinition? (n : Node) : Option Definition :=
  match n.primary.kind with
  | .parameter type (some name) =>
    name.nameText?.map fun text => ⟨n.begin, n.stop, text, .ofNode type, .param, []⟩
  | _ => none

/-! ## Types of expressions -/

/-- The type of a binary operation, from those of its operands. -/
def operationType (op : BinaryOp) (lhs rhs : Ty) : Ty :=
  if op.isAssignment then lhs
  else if op.isComparison then .plain .int
  else
    let kindOf : Ty → Option BasicKind
      | .basic kind _ => some kind
      | _ => none
    match kindOf lhs, kindOf rhs with
    | l, r =>
      if op = .add && (l == some .string || r == some .string) then .plain .string
      else if (l == some .float && r == some .int) || (l == some .int && r == some .float) then
        .plain .float
      else if lhs = rhs then lhs
      else .any

/-- The type of a prefix or postfix operation, from that of its operand. -/
def unaryType (op : UnaryOp) (operand : Ty) : Ty :=
  match op with
  | .not | .sizeof => .plain .int
  | _ => operand

/-- The type of a choice between two values. -/
def choiceType (a b : Ty) : Ty := if a = b then a else .or a b

/-- The type of an array of items. -/
def arrayType : List Ty → Ty
  | [] => .array .any
  | t :: ts => if ts.all (· = t) then .array t else .array .any

/-- The type of an item of a value. -/
def itemType : Ty → Ty
  | .array element => element
  | .basic .string _ => .plain .int
  | _ => .any

/-- The type of a call's result. -/
def resultType : Ty → Ty
  | .function returns _ _ => returns
  | _ => .any

/-- The type of a new value of a target that is no type. -/
def newType (target : Node) : Ty :=
  match pathOf? target with
  | some path => .object path
  | none => .plain .object

/-- The type of the first of some definitions. -/
def firstType (found : List Definition) : Ty := (found.head?.map Definition.valueType).getD .any

/-! ## Steps -/

/-- Changes the program made so far. -/
def update (f : Program → Program) : Resolve Unit :=
  modify fun r => { r with program := f r.program }

/-- Opens a scope in another one and gives its number. -/
def openScope (parent begin stop : Nat) : Resolve Nat := do
  let id := (← get).program.scopes.size
  update (·.openScope parent begin stop)
  return id

/-- Opens the scope of a body, which has no end if its closing brace is missing. -/
def openBody (parent begin stop : Nat) (unclosed : Bool) : Resolve Nat :=
  openScope parent begin (if unclosed then endless else stop)

/-- Records a declaration in a scope. -/
def define (scope : Nat) (d : Definition) : Resolve Unit :=
  update (·.modifyScope scope (·.record d.begin (.define d)))

/-- Records a declaration whose name is not a hole. -/
def defineNamed (scope begin stop : Nat) (name : Node) (type : Ty) (kind : DefinitionKind)
    (modifiers : List Modifier) : Resolve Unit :=
  match name.nameText? with
  | some text => define scope ⟨begin, stop, text, type, kind, modifiers⟩
  | none => pure ()

/-- Records that a path could not be linked. -/
def lack (path : String) : Resolve Unit :=
  modify fun r =>
    if r.unresolved.contains path then r else { r with unresolved := r.unresolved ++ [path] }

/-- Records a link and makes it, if the library has the program. -/
def link (library : Library) (begin : Nat) (file : Node) (instruction : String → Instruction)
    (add : Program → Program → Program) : Resolve Ty := do
  match pathOf? file with
  | none => return .void
  | some path =>
    update (·.modifyScope 0 (·.record begin (instruction path)))
    match library path with
    | some linked => update (add · linked)
    | none => lack path
    return .void

/-- The type of a name used in a scope at an offset. -/
def nameType (scope offset : Nat) (name : String) : Resolve Ty :=
  return firstType ((← get).program.identifiers name .inheritor scope offset)

/-- The type of a name in a labelled program, or in the inherited ones. -/
def scopedType (label_ : Option Node) (name : Node) : Resolve Ty := do
  let program := (← get).program
  match name.nameText?, label_.bind Node.nameText? with
  | none, _ => return .any
  | some text, some label_ => return firstType (program.labelledIdentifiers label_ text)
  | some text, none => return firstType (program.superIdentifiers text)

/-- The type of `this`. -/
def thisType : Resolve Ty := do
  match (← get).program.fileName with
  | some file => return .object file
  | none => return .this

/-- Records a class, and opens a scope for its members if it has them. -/
def openClass (scope begin stop : Nat) (unclosed : Bool) (name : Node) (inherits : Option Node) :
    Resolve (Option Nat) := do
  let type := match inherits.bind pathOf? with
    | some path => Ty.object path
    | none => .plain .object
  defineNamed scope begin stop name type .cls []
  if inherits.isSome then return none
  some <$> openBody scope begin stop unclosed

/-- Records a function. -/
def defineFunction (scope begin stop : Nat) (mods : Option Node) (returns name : Node)
    (parameters : List Node) (variadic : Bool) : Resolve Unit :=
  defineNamed scope begin stop name (.ofNode returns)
    (.func (parameters.map parameterType) variadic) (modifiersOf mods)

/-- Whether a body was read without its closing brace. -/
def isUnclosed (n : Node) : Bool :=
  match n.kind with
  | .combination _ holes => lacksBrace holes
  | _ => false

/-- Opens the scope of a function's body, with its parameters. -/
def openFunction (scope owner : Nat) (body : Node) (parameters : List Node) : Resolve Nat := do
  let id ← openBody scope body.begin body.stop (isUnclosed body)
  update (·.modifyScope id fun s => { s with owner := some owner })
  (parameters.filterMap parameterDefinition?).forM (define id)
  return id

/-- Records the variable that a loop binds to the items of a value, if it is a declaration. -/
def defineItem? (scope : Nat) (binding : Node) (iterable : Ty) : Option (Resolve Unit) :=
  match binding.primary with
  | .mk begin stop (.variableDef _ type name _) =>
    let declared := (type.map Ty.ofNode).getD (itemType iterable)
    some (defineNamed scope begin stop name declared .var [])
  | _ => none

/-! ## The walk -/

section Walk

variable (library : Library)

mutual

/-- Walks a construct in a scope and gives the type of its value; a statement has none. -/
def visit (scope : Nat) : Node → Resolve Ty
  | .mk begin stop kind => visitKind scope begin stop kind

/-- Walks a construct with its span. -/
def visitKind (scope begin stop : Nat) : NodeKind → Resolve Ty
  | .missing _ | .wrong _ _ => return .any
  | .combination (.mk _ _ (.block statements)) holes => do
    let id ← openBody scope begin stop (lacksBrace holes)
    let _ ← visitAll id statements
    return .void
  | .combination (.mk _ _ (.classDef name inherits body)) holes => do
    match ← openClass scope begin stop (lacksBrace holes) name inherits with
    | some id => let _ ← visitAll id body
    | none => pure ()
    return .void
  | .combination primary holes => do
    let type ← visit scope primary
    let _ ← visitAll scope holes
    return type
  | .includeFile path => link library begin path .includeFile .addIncluded
  | .inheritFile path => link library begin path .inheritFile .addInherited
  | .classDef name inherits body => do
    match ← openClass scope begin stop false name inherits with
    | some id => let _ ← visitAll id body
    | none => pure ()
    return .void
  | .modifiers _ | .parameter _ _ | .breakLoop | .continueLoop | .empty => return .void
  | .variableDef mods type name value => do
    let valueType ← visitOption scope value
    let declared := ((type.map Ty.ofNode).or valueType).getD .any
    defineNamed scope begin stop name declared .var (modifiersOf mods)
    return .void
  | .functionDef mods returns name parameters variadic body => do
    defineFunction scope begin stop mods returns name parameters variadic
    match body with
    | some body => let _ ← visitBody (← openFunction scope begin body parameters) body
    | none => pure ()
    return .void
  | .block statements => do
    let id ← openBody scope begin stop false
    let _ ← visitAll id statements
    return .void
  | .ifElse condition thenBranch elseBranch => do
    let _ ← visit scope condition
    let _ ← visit scope thenBranch
    let _ ← visitOption scope elseBranch
    return .void
  | .whileLoop condition body => do
    let _ ← visit scope condition
    let _ ← visit scope body
    return .void
  | .doWhile body condition => do
    let _ ← visit scope condition
    let _ ← visit scope body
    return .void
  | .forLoop initializer condition step body => do
    let id ← openScope scope begin stop
    let _ ← visitOption id initializer
    let _ ← visitOption id condition
    let _ ← visitOption id step
    let _ ← visit id body
    return .void
  | .foreachLoop binding iterable body => do
    let iterableType ← visit scope iterable
    let id ← openScope scope begin stop
    match defineItem? id binding iterableType with
    | some defined => defined
    | none => let _ ← visit id binding
    let _ ← visit id body
    return .void
  | .switchOn value cases => do
    let _ ← visit scope value
    let id ← openScope scope begin stop
    let _ ← visitAll id cases
    return .void
  | .caseLabel label statements => do
    let _ ← visitOption scope label
    let _ ← visitAll scope statements
    return .void
  | .returnValue value => do
    let _ ← visitOption scope value
    return .void
  | .tryCatch body exception handler => do
    let _ ← visit scope body
    let id ← openScope scope begin stop
    let _ ← visitOption id exception
    let _ ← visit id handler
    return .void
  | .name text => nameType scope begin text
  | .scopeChain label_ name => scopedType label_ name
  | .call callee arguments => do
    let calleeType ← visit scope callee
    let _ ← visitAll scope arguments
    return resultType calleeType
  | .member receiver _ _ => do
    let _ ← visit scope receiver
    return .any
  | .new target arguments => do
    let _ ← visitAll scope arguments
    if isType target then return .ofNode target
    let _ ← visit scope target
    return newType target
  | .cast type value => do
    let _ ← visit scope value
    return .ofNode type
  | .subscript target index => do
    let targetType ← visit scope target
    let _ ← visit scope index
    return if isRange index then targetType else itemType targetType
  | .range lower upper => do
    let _ ← visitOption scope lower
    let _ ← visitOption scope upper
    return .any
  | .binary op lhs rhs => do
    let lhsType ← visit scope lhs
    let rhsType ← visit scope rhs
    return operationType op lhsType rhsType
  | .unary op operand => return unaryType op (← visit scope operand)
  | .ternary condition thenValue elseValue => do
    let _ ← visit scope condition
    let thenType ← visit scope thenValue
    let elseType ← visit scope elseValue
    return choiceType thenType elseType
  | .typeTest value _ => do
    let _ ← visit scope value
    return .plain .bool
  | .array items => return arrayType (← visitAll scope items)
  | .mapping entries => do
    let _ ← visitAll scope entries
    return .plain .mapping
  | .entry key value => do
    let _ ← visit scope key
    let _ ← visit scope value
    return .any
  | .strings _ | .string _ => return .plain .string
  | .int _ => return .plain .int
  | .float _ => return .plain .float
  | .char _ => return .plain .char
  | .symbol _ => return .plain .symbol
  | .bool _ => return .plain .bool
  | .nil => return .nil
  | .this => thisType
  | .basicType kind file => return .basic kind file
  | .arrayType element => return .array (.ofNode element)
  | .orType lhs rhs => return .or (.ofNode lhs) (.ofNode rhs)
  | .functionType returns parameters variadic =>
    return .function (.ofNode returns) (Ty.ofNodes parameters) variadic

/-- Walks the body of a function in the scope that its parameters are in. -/
def visitBody (scope : Nat) : Node → Resolve Unit
  | .mk _ _ (.block statements) => do let _ ← visitAll scope statements
  | .mk _ _ (.combination primary _) => visitBody scope primary
  | .mk begin stop kind => do let _ ← visitKind scope begin stop kind

/-- Walks constructs one after the other. -/
def visitAll (scope : Nat) : List Node → Resolve (List Ty)
  | [] => return []
  | n :: ns => do
    let type ← visit scope n
    return type :: (← visitAll scope ns)

/-- Walks a construct that may be absent. -/
def visitOption (scope : Nat) : Option Node → Resolve (Option Ty)
  | none => return none
  | some n => some <$> visit scope n

end

end Walk

end Resolve

/-- The program of a forest, linked to the programs of a library. -/
def resolve (library : Library) (stamp : Nat) (fileName : Option String) (nodes : List Node) :
    Resolution :=
  ((Resolve.visitAll library 0 nodes).run ⟨.empty stamp fileName, []⟩).2

end MudEdit
