import MudEdit.Node.Fold
import MudEdit.Number.Shortest
import MudEdit.Text.Quoted

/-!
# Trees as indented text

One line for a node: two spaces for each level, the construct, its span, and the
detail that its children do not show.
-/

namespace MudEdit

open Text (quoted quotedCharacter)

/-- What a node says beyond its construct and its children. -/
def NodeKind.detail? : NodeKind → Option String
  | .missing expected => some (quoted expected.missingMessage)
  | .wrong expected found => some (quoted (expected.wrongMessage found))
  | .modifiers words => some (String.intercalate " " (words.map Modifier.text))
  | .variableDef _ none _ _ => some "let"
  | .functionDef _ _ _ _ true _ => some "variadic"
  | .functionType _ _ true => some "variadic"
  | .member _ .arrow _ => some "->"
  | .member _ .dot _ => some "."
  | .name text => some text
  | .binary op _ _ => some op.text
  | .unary op _ => some op.text
  | .int value => some (toString value)
  | .float value => some value.text
  | .string value => some (quoted value)
  | .symbol value => some (quoted value)
  | .char value => some (quotedCharacter value)
  | .bool value => some (if value then "true" else "false")
  | .basicType kind none => some kind.text
  | .basicType kind (some file) => some (kind.text ++ "<" ++ quoted file ++ ">")
  | _ => none

/-- The line of a node at a level of indentation. -/
def Node.line (n : Node) (level : Nat) : String :=
  String.ofList (List.replicate (2 * level) ' ') ++ n.kind.title ++
    " [" ++ toString n.begin ++ ".." ++ toString n.stop ++ "]" ++
    (match n.kind.detail? with
      | some detail => " " ++ detail
      | none => "") ++ "\n"

/-- The lines of a tree, the top node at the given level. -/
def Node.dumpAt : Node → (level : Nat) → String :=
  fold fun n below level => n.line level ++ String.join (below.map (· (level + 1)))

/-- The tree as text. -/
def Node.dump (n : Node) : String := n.dumpAt 0

end MudEdit
