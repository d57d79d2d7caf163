import MudEdit.Grammar.Operand

/-!
# Expressions

Binary operators by their priority, the conditional expression, and assignments, which
bind loosest and to the right.
-/

namespace MudEdit.Parse

variable (below : Nested)

/-- An operation on two operands. -/
def operation (op : BinaryOp) (lhs rhs : Node) : Node :=
  .new lhs.begin rhs.stop (.binary op lhs rhs)

/-- One more type test, which binds tighter than any binary operator. -/
def typeTestSuffix (value : Node) : Parse (Option Node) := do
  if !value.canGrow then return none
  if ← eats (.keyword .isWord) then
    let type ← below.type
    return some (.new value.begin type.stop (.typeTest value type))
  else return none

/-- An operand with its type tests. -/
def typeTest : Parse Node := do chain (typeTestSuffix below) (← below.unary)

/-- The binary operator that a token stands for, and its priority. -/
def ranked? (kind : TokenKind) : Option (BinaryOp × Nat) := do
  let op ← BinaryOp.ofToken? kind
  return (op, ← op.priority?)

/-- One more operator that binds no looser than `loosest`, with its right operand. -/
def operatorSuffix (loosest : Nat) (lhs : Node) : Parse (Option Node) := do
  match ranked? (← kind) with
  | some (op, priority) =>
    if priority ≤ loosest && lhs.canGrow then
      let _ ← advance
      return some (operation op lhs (← below.operand (priority - 1)))
    else return none
  | none => return none

/-- Operators that bind no looser than `loosest`; equal ones group to the left. -/
def operand (loosest : Nat) : Parse Node := do
  chain (operatorSuffix below loosest) (← typeTest below)

/-- An expression that is not an assignment. -/
def alternative : Parse Node := do
  let condition ← operand below BinaryOp.loosest
  if ← eats (.sign .question) then
    let thenValue ← below.expression
    let holes ← colon
    let elseValue ← below.alternative
    return (Node.new condition.begin elseValue.stop
      (.ternary condition thenValue elseValue)).combine holes
  else return condition

/-- An expression. -/
def expression : Parse Node := do
  let target ← alternative below
  match BinaryOp.ofToken? (← kind) with
  | some op =>
    if op.isAssignment then
      let _ ← advance
      return operation op target (← below.expression)
    else return target
  | none => return target

end MudEdit.Parse
