import MudEdit.Grammar.Control

/-!
# The grammar, tied together

A production that nests is read one level deeper than what it is part of, with the
productions of the level below it. The levels are counted down while the depth is
counted up, so the grammar needs no recursion but that on the number of levels, and the
last level is the one that is too deep.
-/

namespace MudEdit

/-- The production read one level deeper, or a hole if that is too deep. -/
def Parse.nested (expected : Expected) (production : Parse Node) : Parse Node := do
  let outer ← depth
  if outer ≥ maxDepth then refuse expected
  else
    setDepth (outer + 1)
    let node ← production
    setDepth ((← depth) - 1)
    return node

/-! A production that nests does not look at the cursor before it knows whether it is read. -/

theorem Parse.nested_refused {production : Parse Node} {c : Cursor} (expected : Expected)
    (h : c.depth ≥ maxDepth) : nested expected production c = refuse expected c :=
  congrFun (if_pos h) c

theorem Parse.nested_read {production : Parse Node} {c : Cursor} (expected : Expected)
    (h : ¬c.depth ≥ maxDepth) : nested expected production c =
      let turned := production { c with depth := c.depth + 1 }
      (turned.1, { turned.2 with depth := turned.2.depth - 1 }) :=
  congrFun (if_neg h) c

/-- The productions one level up, given those below. -/
def Nested.above (below : Nested) : Nested where
  statement := Parse.nested .statement (Parse.statement below)
  member := Parse.nested .declaration (Parse.member below)
  expression := Parse.nested .expression (Parse.expression below)
  alternative := Parse.nested .expression (Parse.alternative below)
  operand loosest := Parse.nested .expression (Parse.operand below loosest)
  unary := Parse.nested .expression (Parse.unary below)
  type := Parse.nested .type (Parse.type below)

/-- The productions with so many levels to nest in. -/
def Nested.levels : Nat → Nested
  | 0 => .none
  | n + 1 => (levels n).above

/-- The constructs of a file up to a token of the kind, or to the end of the text. -/
def Parse.members (until_ : TokenKind) : Parse (List Node) :=
  manyUntil (· == until_) (guarded (member (.levels maxDepth)))

end MudEdit
