import MudEdit.Json.Basic
import MudEdit.Node.Basic
import MudEdit.Token.Basic
import MudEdit.Token.Words

/-!
# Tokens and trees in serialized form

A construct without parts is written as its name, one with a single unnamed value as
that name with the value, and any other as the name with an object of its parts.
-/

namespace MudEdit

def Payload.toJson : Payload → Json
  | .int value => .tagged "Int" value
  | .float value => .tagged "Float" (.float value)
  | .char value => .tagged "Char" value.toString
  | .text value => .tagged "Text" value

def Token.toJson (t : Token) : Json :=
  .object [("begin", t.begin), ("end", t.stop), ("kind", t.kind.name),
    ("value", .optional Payload.toJson t.payload)]

def Access.name : Access → String
  | .arrow => "Arrow"
  | .dot => "Dot"

mutual

def Node.toJson : Node → Json
  | .mk b s k => .object [("begin", b), ("end", s), ("kind", k.toJson)]

def NodeKind.toJson : NodeKind → Json
  | .missing expected => .tagged "Missing" <| .object
      [("message", expected.missingMessage), ("expected", expected.serialName)]
  | .wrong expected found => .tagged "Wrong" <| .object
      [("message", expected.wrongMessage found), ("expected", expected.serialName),
        ("found", found.name)]
  | .combination a b => .tagged "Combination" <| .object
      [("primary", a.toJson), ("diagnostics", .array (Node.listJson b))]
  | .includeFile a => .tagged "Include" <| .object
      [("path", a.toJson)]
  | .inheritFile a => .tagged "Inherit" <| .object
      [("path", a.toJson)]
  | .classDef a b c => .tagged "Class" <| .object
      [("name", a.toJson), ("inherits", Node.optionJson b), ("body", .array (Node.listJson c))]
  | .modifiers a => .tagged "Modifiers" <| .object
      [("modifiers", .list (fun m => .string m.name) a)]
  | .variableDef a b c d => .tagged "VariableDefinition" <| .object
      [("modifiers", Node.optionJson a), ("ty", Node.optionJson b), ("name", c.toJson),
        ("value", Node.optionJson d), ("inferred", .bool b.isNone)]
  | .functionDef a b c d e f => .tagged "FunctionDefinition" <| .object
      [("modifiers", Node.optionJson a), ("return_type", b.toJson), ("name", c.toJson),
        ("parameters", .array (Node.listJson d)), ("variadic", .bool e),
        ("body", Node.optionJson f)]
  | .parameter a b => .tagged "Parameter" <| .object
      [("ty", a.toJson), ("name", Node.optionJson b)]
  | .block a => .tagged "Block" <| .object
      [("statements", .array (Node.listJson a))]
  | .ifElse a b c => .tagged "If" <| .object
      [("condition", a.toJson), ("then_branch", b.toJson), ("else_branch", Node.optionJson c)]
  | .whileLoop a b => .tagged "While" <| .object
      [("condition", a.toJson), ("body", b.toJson)]
  | .doWhile a b => .tagged "DoWhile" <| .object
      [("body", a.toJson), ("condition", b.toJson)]
  | .forLoop a b c d => .tagged "For" <| .object
      [("initializer", Node.optionJson a), ("condition", Node.optionJson b),
        ("step", Node.optionJson c), ("body", d.toJson)]
  | .foreachLoop a b c => .tagged "Foreach" <| .object
      [("variable", a.toJson), ("iterable", b.toJson), ("body", c.toJson)]
  | .switchOn a b => .tagged "Switch" <| .object
      [("value", a.toJson), ("cases", .array (Node.listJson b))]
  | .caseLabel a b => .tagged "Case" <| .object
      [("label", Node.optionJson a), ("statements", .array (Node.listJson b))]
  | .breakLoop => "Break"
  | .continueLoop => "Continue"
  | .returnValue a => .tagged "Return" <| .object
      [("value", Node.optionJson a)]
  | .tryCatch a b c => .tagged "TryCatch" <| .object
      [("body", a.toJson), ("exception", Node.optionJson b), ("handler", c.toJson)]
  | .empty => "Empty"
  | .name a => .tagged "Name" <| .object
      [("name", .string a)]
  | .scopeChain a b => .tagged "ScopeChain" <| .object
      [("scope", Node.optionJson a), ("name", b.toJson)]
  | .call a b => .tagged "FunctionCall" <| .object
      [("callee", a.toJson), ("arguments", .array (Node.listJson b))]
  | .member a b c => .tagged "MemberAccess" <| .object
      [("receiver", a.toJson), ("access", b.name), ("name", c.toJson)]
  | .new a b => .tagged "New" <| .object
      [("target", a.toJson), ("arguments", .array (Node.listJson b))]
  | .cast a b => .tagged "Cast" <| .object
      [("ty", a.toJson), ("value", b.toJson)]
  | .subscript a b => .tagged "Subscript" <| .object
      [("target", a.toJson), ("index", b.toJson)]
  | .range a b => .tagged "Range" <| .object
      [("lower", Node.optionJson a), ("upper", Node.optionJson b)]
  | .binary a b c => .tagged "BinaryOperation" <| .object
      [("op", a.name), ("lhs", b.toJson), ("rhs", c.toJson)]
  | .unary a b => .tagged "UnaryOperation" <| .object
      [("op", a.name), ("operand", b.toJson)]
  | .ternary a b c => .tagged "Ternary" <| .object
      [("condition", a.toJson), ("then_value", b.toJson), ("else_value", c.toJson)]
  | .typeTest a b => .tagged "TypeTest" <| .object
      [("value", a.toJson), ("ty", b.toJson)]
  | .array a => .tagged "ArrayLiteral" <| .object
      [("items", .array (Node.listJson a))]
  | .mapping a => .tagged "MappingLiteral" <| .object
      [("entries", .array (Node.listJson a))]
  | .entry a b => .tagged "MappingEntry" <| .object
      [("key", a.toJson), ("value", b.toJson)]
  | .strings a => .tagged "StringConcatenation" <| .object
      [("parts", .array (Node.listJson a))]
  | .int value => .tagged "IntLiteral" (.int value)
  | .float value => .tagged "FloatLiteral" (.float value)
  | .string value => .tagged "StringLiteral" (.string value)
  | .char value => .tagged "CharLiteral" (.string value.toString)
  | .symbol value => .tagged "SymbolLiteral" (.string value)
  | .bool value => .tagged "BoolLiteral" (.bool value)
  | .nil => "Nil"
  | .this => "This"
  | .basicType a b => .tagged "BasicType" <| .object
      [("kind", a.name), ("type_file", .optional .string b)]
  | .arrayType a => .tagged "ArrayType" <| .object
      [("element", a.toJson)]
  | .orType a b => .tagged "OrType" <| .object
      [("lhs", a.toJson), ("rhs", b.toJson)]
  | .functionType a b c => .tagged "FunctionReferenceType" <| .object
      [("return_type", a.toJson), ("parameters", .array (Node.listJson b)), ("variadic", .bool c)]

def Node.listJson : List Node → List Json
  | [] => []
  | n :: ns => n.toJson :: Node.listJson ns

def Node.optionJson : Option Node → Json
  | none => .null
  | some n => n.toJson

end

end MudEdit
