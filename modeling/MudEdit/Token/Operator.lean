import MudEdit.Token.Kind

/-!
# Operators

The operators of expressions, told apart by meaning: one sign can stand for several
of them, `&` for "address of" and "bitwise and". A binary operator other than an
assignment has a priority; the smaller it is, the tighter the operator binds.
-/

namespace MudEdit

/-- An operator between two operands. -/
inductive BinaryOp where
  | assign
  | addAssign
  | subAssign
  | mulAssign
  | divAssign
  | modAssign
  | andAssign
  | orAssign
  | xorAssign
  | shiftLeftAssign
  | shiftRightAssign
  | logicalOr
  | logicalAnd
  | bitOr
  | bitXor
  | bitAnd
  | equal
  | notEqual
  | less
  | greater
  | lessEqual
  | greaterEqual
  | shiftLeft
  | shiftRight
  | add
  | sub
  | mul
  | div
  | mod
  deriving DecidableEq, Repr, Inhabited

/-- An operator on one operand. -/
inductive UnaryOp where
  | reference
  | dereference
  | not
  | negate
  | plus
  | complement
  | sizeof
  | preIncrement
  | preDecrement
  | postIncrement
  | postDecrement
  deriving DecidableEq, Repr, Inhabited

namespace BinaryOp

/-- The binary operator that a sign stands for between two operands. -/
def ofSign? : Sign → Option BinaryOp
  | .assign => some .assign
  | .addAssign => some .addAssign
  | .subAssign => some .subAssign
  | .mulAssign => some .mulAssign
  | .divAssign => some .divAssign
  | .modAssign => some .modAssign
  | .andAssign => some .andAssign
  | .orAssign => some .orAssign
  | .xorAssign => some .xorAssign
  | .shiftLeftAssign => some .shiftLeftAssign
  | .shiftRightAssign => some .shiftRightAssign
  | .logicalOr => some .logicalOr
  | .logicalAnd => some .logicalAnd
  | .pipe => some .bitOr
  | .caret => some .bitXor
  | .ampersand => some .bitAnd
  | .equal => some .equal
  | .notEqual => some .notEqual
  | .less => some .less
  | .greater => some .greater
  | .lessEqual => some .lessEqual
  | .greaterEqual => some .greaterEqual
  | .shiftLeft => some .shiftLeft
  | .shiftRight => some .shiftRight
  | .plus => some .add
  | .minus => some .sub
  | .star => some .mul
  | .slash => some .div
  | .percent => some .mod
  | _ => none

/-- The binary operator that a token stands for between two operands. -/
def ofToken? : TokenKind → Option BinaryOp
  | .sign s => ofSign? s
  | _ => none

def isAssignment : BinaryOp → Bool
  | assign | addAssign | subAssign | mulAssign | divAssign | modAssign | andAssign | orAssign
  | xorAssign | shiftLeftAssign | shiftRightAssign => true
  | _ => false

/-- Operators whose result is a truth value. -/
def isComparison : BinaryOp → Bool
  | logicalOr | logicalAnd | equal | notEqual | less | greater | lessEqual | greaterEqual => true
  | _ => false

/-- Binding strength; the smaller, the tighter. Assignments have none. -/
def priority? : BinaryOp → Option Nat
  | logicalOr => some 11
  | logicalAnd => some 10
  | bitOr => some 9
  | bitXor => some 8
  | bitAnd => some 7
  | equal | notEqual => some 6
  | less | greater | lessEqual | greaterEqual => some 5
  | shiftLeft | shiftRight => some 4
  | add | sub => some 3
  | mul | div | mod => some 2
  | _ => none

/-- The priority of the operator that binds loosest. -/
def loosest : Nat := 11

def text : BinaryOp → String
  | assign => "="
  | addAssign => "+="
  | subAssign => "-="
  | mulAssign => "*="
  | divAssign => "/="
  | modAssign => "%="
  | andAssign => "&="
  | orAssign => "|="
  | xorAssign => "^="
  | shiftLeftAssign => "<<="
  | shiftRightAssign => ">>="
  | logicalOr => "||"
  | logicalAnd => "&&"
  | bitOr => "|"
  | bitXor => "^"
  | bitAnd => "&"
  | equal => "=="
  | notEqual => "!="
  | less => "<"
  | greater => ">"
  | lessEqual => "<="
  | greaterEqual => ">="
  | shiftLeft => "<<"
  | shiftRight => ">>"
  | add => "+"
  | sub => "-"
  | mul => "*"
  | div => "/"
  | mod => "%"

/-- The name of the operator in serialized form. -/
def name : BinaryOp → String
  | assign => "Assign"
  | addAssign => "AddAssign"
  | subAssign => "SubAssign"
  | mulAssign => "MulAssign"
  | divAssign => "DivAssign"
  | modAssign => "ModAssign"
  | andAssign => "AndAssign"
  | orAssign => "OrAssign"
  | xorAssign => "XorAssign"
  | shiftLeftAssign => "ShiftLeftAssign"
  | shiftRightAssign => "ShiftRightAssign"
  | logicalOr => "LogicalOr"
  | logicalAnd => "LogicalAnd"
  | bitOr => "BitOr"
  | bitXor => "BitXor"
  | bitAnd => "BitAnd"
  | equal => "Equal"
  | notEqual => "NotEqual"
  | less => "Less"
  | greater => "Greater"
  | lessEqual => "LessEqual"
  | greaterEqual => "GreaterEqual"
  | shiftLeft => "ShiftLeft"
  | shiftRight => "ShiftRight"
  | add => "Add"
  | sub => "Sub"
  | mul => "Mul"
  | div => "Div"
  | mod => "Mod"

end BinaryOp

namespace UnaryOp

/-- The operator that a token stands for in front of its operand. -/
def leading? : TokenKind → Option UnaryOp
  | .sign .ampersand => some .reference
  | .sign .star => some .dereference
  | .sign .bang => some .not
  | .sign .minus => some .negate
  | .sign .plus => some .plus
  | .sign .tilde => some .complement
  | .keyword .sizeofWord => some .sizeof
  | .sign .increment => some .preIncrement
  | .sign .decrement => some .preDecrement
  | _ => none

def text : UnaryOp → String
  | reference => "&"
  | dereference => "*"
  | not => "!"
  | negate => "-"
  | plus => "+"
  | complement => "~"
  | sizeof => "sizeof"
  | preIncrement => "++"
  | preDecrement => "--"
  | postIncrement => "++"
  | postDecrement => "--"

/-- The name of the operator in serialized form. -/
def name : UnaryOp → String
  | reference => "Reference"
  | dereference => "Dereference"
  | not => "Not"
  | negate => "Negate"
  | plus => "Plus"
  | complement => "Complement"
  | sizeof => "Sizeof"
  | preIncrement => "PreIncrement"
  | preDecrement => "PreDecrement"
  | postIncrement => "PostIncrement"
  | postDecrement => "PostDecrement"

end UnaryOp

end MudEdit
