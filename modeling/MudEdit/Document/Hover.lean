import MudEdit.Document.Basic
import MudEdit.Program.Lookup
import MudEdit.Signature

/-!
# Hovering

The declaration behind the name at an offset. A name after `::` is looked up in the
inherited programs; one after `->` or `.` belongs to another object and shows nothing.
-/

namespace MudEdit

structure Hover where
  /-- The text to show, in the markup of editors. -/
  value : String
  /-- The name that it is about. -/
  range : Text.Range
  deriving DecidableEq, Repr, Inhabited

namespace Hover

/-- The last name on a path, and what stands before it there, the nearest first. -/
def lastName? : List Node → Option (Node × List Node)
  | [] => none
  | n :: above =>
    match n.kind with
    | .name _ => some (n, above)
    | _ => lastName? above

/-- What a name stands for that is found on a path below the given nodes. -/
def declarations (p : Program) (offset : Nat) (n : Node) (name : String) (above : List Node) :
    List Definition :=
  let around := p.identifiers name ⟨true, true⟩ (p.scopeAt offset) n.stop
  match above.head?.map Node.kind with
  | some (.scopeChain scope member) =>
    if member.begin = n.begin then
      match scope.bind Node.nameText? with
      | some label => p.labelledIdentifiers label name
      | none => p.superIdentifiers name
    else around
  | some (.member _ _ member) => if member.begin = n.begin then [] else around
  | _ => around

/-- A signature as the markup of a piece of source. -/
def markup (signature : String) : String := "\x60\x60\x60lpc\n" ++ signature ++ "\n\x60\x60\x60"

end Hover

/-- What to show for an offset. -/
def Document.hover? (d : Document) (offset : Nat) : Option Hover := do
  let (n, above) ← Hover.lastName? (pathAt d.forest.nodes offset).reverse
  let name ← n.nameText?
  let found ← (Hover.declarations d.program offset n name above).head?
  return ⟨Hover.markup found.signature, d.lines.range n.begin n.stop⟩

end MudEdit
