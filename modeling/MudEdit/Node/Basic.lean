import MudEdit.Node.Expected
import MudEdit.Token.Basic
import MudEdit.Token.Operator

/-!
# Syntax trees

A node is a construct of the language with the stretch of source it covers. Its kind
holds the parts by their roles; `children` lists them in source order. Nodes are made
with `Node.new`, which widens the span to cover the children, so that in every tree
that is made this way a child lies inside its parent.

Holes are nodes too. A construct that was read with holes is the primary node of a
combination, whose holes come after it.
-/

namespace MudEdit

/-- How a member is reached. -/
inductive Access where
  | arrow
  | dot
  deriving DecidableEq, Repr, Inhabited

mutual

/-- A construct and the bytes of the source that it covers, the end not included. -/
inductive Node where
  | mk (begin stop : Nat) (kind : NodeKind)

/-- The constructs of the language. -/
inductive NodeKind where
  /-- Nothing stands where this was expected. -/
  | missing (expected : Expected)
  /-- A token stands where something else was expected. -/
  | wrong (expected : Expected) (found : TokenKind)
  /-- A construct and the holes found while it was read. -/
  | combination (primary : Node) (holes : List Node)
  | includeFile (path : Node)
  | inheritFile (path : Node)
  /-- A class with members, or one that is made from another program. -/
  | classDef (name : Node) (inherits : Option Node) (body : List Node)
  | modifiers (words : List Modifier)
  /-- A variable; without a type, its type is that of its value. -/
  | variableDef (modifiers : Option Node) (type : Option Node) (name : Node) (value : Option Node)
  /-- A function; a prototype has no body. -/
  | functionDef (modifiers : Option Node) (returns : Node) (name : Node)
    (parameters : List Node) (variadic : Bool) (body : Option Node)
  | parameter (type : Node) (name : Option Node)
  | block (statements : List Node)
  | ifElse (condition : Node) (thenBranch : Node) (elseBranch : Option Node)
  | whileLoop (condition : Node) (body : Node)
  | doWhile (body : Node) (condition : Node)
  | forLoop (initializer : Option Node) (condition : Option Node) (step : Option Node) (body : Node)
  | foreachLoop (binding : Node) (iterable : Node) (body : Node)
  | switchOn (value : Node) (cases : List Node)
  /-- The statements under a label; `default` has none. -/
  | caseLabel (label : Option Node) (statements : List Node)
  | breakLoop
  | continueLoop
  | returnValue (value : Option Node)
  | tryCatch (body : Node) (exception : Option Node) (handler : Node)
  /-- A semicolon on its own. -/
  | empty
  | name (text : String)
  /-- A name in a scope; without a scope, in the inherited programs. -/
  | scopeChain (scope : Option Node) (name : Node)
  | call (callee : Node) (arguments : List Node)
  | member (receiver : Node) (access : Access) (name : Node)
  | new (target : Node) (arguments : List Node)
  | cast (type : Node) (value : Node)
  | subscript (target : Node) (index : Node)
  | range (lower : Option Node) (upper : Option Node)
  | binary (op : BinaryOp) (lhs : Node) (rhs : Node)
  | unary (op : UnaryOp) (operand : Node)
  | ternary (condition : Node) (thenValue : Node) (elseValue : Node)
  | typeTest (value : Node) (type : Node)
  | array (items : List Node)
  | mapping (entries : List Node)
  | entry (key : Node) (value : Node)
  /-- Adjacent string literals. -/
  | strings (parts : List Node)
  | int (value : Nat)
  | float (value : Number.Binary64)
  | string (value : String)
  | char (value : Char)
  | symbol (value : String)
  | bool (value : Bool)
  | nil
  | this
  | basicType (kind : BasicKind) (file : Option String)
  | arrayType (element : Node)
  | orType (lhs : Node) (rhs : Node)
  | functionType (returns : Node) (parameters : List Node) (variadic : Bool)

end

instance : Inhabited NodeKind := ⟨.empty⟩

instance : Inhabited Node := ⟨.mk 0 0 default⟩

namespace NodeKind

/-- The name of the construct in serialized form. -/
def title : NodeKind → String
  | .missing .. => "Missing"
  | .wrong .. => "Wrong"
  | .combination .. => "Combination"
  | .includeFile .. => "Include"
  | .inheritFile .. => "Inherit"
  | .classDef .. => "Class"
  | .modifiers .. => "Modifiers"
  | .variableDef .. => "VariableDefinition"
  | .functionDef .. => "FunctionDefinition"
  | .parameter .. => "Parameter"
  | .block .. => "Block"
  | .ifElse .. => "If"
  | .whileLoop .. => "While"
  | .doWhile .. => "DoWhile"
  | .forLoop .. => "For"
  | .foreachLoop .. => "Foreach"
  | .switchOn .. => "Switch"
  | .caseLabel .. => "Case"
  | .breakLoop => "Break"
  | .continueLoop => "Continue"
  | .returnValue .. => "Return"
  | .tryCatch .. => "TryCatch"
  | .empty => "Empty"
  | .name .. => "Name"
  | .scopeChain .. => "ScopeChain"
  | .call .. => "FunctionCall"
  | .member .. => "MemberAccess"
  | .new .. => "New"
  | .cast .. => "Cast"
  | .subscript .. => "Subscript"
  | .range .. => "Range"
  | .binary .. => "BinaryOperation"
  | .unary .. => "UnaryOperation"
  | .ternary .. => "Ternary"
  | .typeTest .. => "TypeTest"
  | .array .. => "ArrayLiteral"
  | .mapping .. => "MappingLiteral"
  | .entry .. => "MappingEntry"
  | .strings .. => "StringConcatenation"
  | .int .. => "IntLiteral"
  | .float .. => "FloatLiteral"
  | .string .. => "StringLiteral"
  | .char .. => "CharLiteral"
  | .symbol .. => "SymbolLiteral"
  | .bool .. => "BoolLiteral"
  | .nil => "Nil"
  | .this => "This"
  | .basicType .. => "BasicType"
  | .arrayType .. => "ArrayType"
  | .orType .. => "OrType"
  | .functionType .. => "FunctionReferenceType"

/-- The parts of the construct in source order. -/
def children : NodeKind → List Node
  | .combination primary holes => primary :: holes
  | .includeFile path => [path]
  | .inheritFile path => [path]
  | .classDef ident inherits body => [ident] ++ inherits.toList ++ body
  | .variableDef mods type ident value => mods.toList ++ type.toList ++ [ident] ++ value.toList
  | .functionDef mods returns ident parameters _ body =>
    mods.toList ++ [returns, ident] ++ parameters ++ body.toList
  | .parameter type ident => type :: ident.toList
  | .block statements => statements
  | .ifElse condition thenBranch elseBranch => [condition, thenBranch] ++ elseBranch.toList
  | .whileLoop condition body => [condition, body]
  | .doWhile body condition => [body, condition]
  | .forLoop initializer condition step body =>
    initializer.toList ++ condition.toList ++ step.toList ++ [body]
  | .foreachLoop binding iterable body => [binding, iterable, body]
  | .switchOn value cases => value :: cases
  | .caseLabel label statements => label.toList ++ statements
  | .returnValue value => value.toList
  | .tryCatch body exception handler => [body] ++ exception.toList ++ [handler]
  | .scopeChain scope ident => scope.toList ++ [ident]
  | .call callee arguments => callee :: arguments
  | .member receiver _ ident => [receiver, ident]
  | .new target arguments => target :: arguments
  | .cast type value => [type, value]
  | .subscript target index => [target, index]
  | .range lower upper => lower.toList ++ upper.toList
  | .binary _ lhs rhs => [lhs, rhs]
  | .unary _ operand => [operand]
  | .ternary condition thenValue elseValue => [condition, thenValue, elseValue]
  | .typeTest value type => [value, type]
  | .array items => items
  | .mapping entries => entries
  | .entry key value => [key, value]
  | .strings parts => parts
  | .arrayType element => [element]
  | .orType lhs rhs => [lhs, rhs]
  | .functionType returns parameters _ => returns :: parameters
  | _ => []

end NodeKind

namespace Node

def begin : Node → Nat
  | .mk begin _ _ => begin

def stop : Node → Nat
  | .mk _ stop _ => stop

def kind : Node → NodeKind
  | .mk _ _ kind => kind

@[simp] theorem begin_mk (b s : Nat) (k : NodeKind) : (Node.mk b s k).begin = b := rfl

@[simp] theorem stop_mk (b s : Nat) (k : NodeKind) : (Node.mk b s k).stop = s := rfl

@[simp] theorem kind_mk (b s : Nat) (k : NodeKind) : (Node.mk b s k).kind = k := rfl

/-- The parts of the construct in source order. -/
def children (n : Node) : List Node := n.kind.children

/-- A node whose span is widened to cover all of its children. -/
def new (begin stop : Nat) (kind : NodeKind) : Node :=
  .mk (kind.children.foldl (fun b c => min b c.begin) begin)
    (kind.children.foldl (fun s c => max s c.stop) (max begin stop)) kind

/-- The hole for something that is missing at an offset. -/
def missing (at_ : Nat) (expected : Expected) : Node := .mk at_ at_ (.missing expected)

/-- The hole for something in whose place a token stands. -/
def wrong (found : Token) (expected : Expected) : Node :=
  .mk found.begin found.stop (.wrong expected found.kind)

/-- The node with the holes found while it was read; without holes, the node as it is. -/
def combine (primary : Node) (holes : List Node) : Node :=
  if holes.isEmpty then primary
  else new primary.begin primary.stop (.combination primary holes)

/-- Whether the offset is in the node's span or right at its end. -/
def contains (n : Node) (offset : Nat) : Bool := n.begin ≤ offset && offset ≤ n.stop

def isMissing (n : Node) : Bool :=
  match n.kind with
  | .missing _ => true
  | _ => false

def isHole (n : Node) : Bool :=
  match n.kind with
  | .missing _ | .wrong _ _ => true
  | _ => false

/-- What a hole reports. -/
def message? (n : Node) : Option String :=
  match n.kind with
  | .missing expected => some expected.missingMessage
  | .wrong expected found => some (expected.wrongMessage found)
  | _ => none

/-- The node itself, or the construct that a combination is about. -/
def primary : Node → Node
  | .mk _ _ (.combination p _) => p.primary
  | n => n

/-- The text of a name, holes aside. -/
def nameText? (n : Node) : Option String :=
  match n.primary.kind with
  | .name text => some text
  | _ => none

end Node

end MudEdit
