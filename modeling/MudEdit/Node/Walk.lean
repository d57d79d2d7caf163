import MudEdit.Node.Fold

/-!
# Walks over trees

The height of a tree, its holes in the order of a walk, the steps of a walk that may
leave out what is below some constructs, and the path to the construct at an offset.
-/

namespace MudEdit

namespace Node

/-- Nodes on the longest path down to a leaf. -/
def height : Node → Nat :=
  fold fun _ heights => 1 + heights.foldl max 0

/-- The missing and wrong nodes of the tree, a parent before its children. -/
def holes : Node → List Node :=
  fold fun n below => if n.isHole then n :: below.flatten else below.flatten

/-- A step of a walk. -/
inductive Step where
  | enter (kind : NodeKind)
  | leave (kind : NodeKind)

/-- The walk through the tree that enters no child of a construct for which `skips` holds. -/
def walk (skips : NodeKind → Bool) : Node → List Step :=
  fold fun n below =>
    .enter n.kind :: (if skips n.kind then [] else below.flatten) ++ [.leave n.kind]

/--
The node among siblings that a cursor at the offset belongs to: of those that
contain the offset, the last one that is not missing; a missing one only if there is
no other. The siblings come with whatever belongs to them.
-/
def pick? {α : Type} (offset : Nat) (siblings : List (Node × α)) : Option (Node × α) :=
  let candidates := siblings.reverse.filter (·.1.contains offset)
  (candidates.find? (!·.1.isMissing)).or candidates.head?

/-- A node's path to an offset: a child that contains the offset, then the child's own path. -/
def pathBelow (offset : Nat) : Node → List Node :=
  fun n => (fold (fun n below => (n, match pick? offset below with
    | some (child, path) => child :: path
    | none => [])) n).2

end Node

/-- The missing and wrong nodes of a forest in the order of a walk. -/
def holesOf (nodes : List Node) : List Node := nodes.flatMap Node.holes

/-- The nodes that contain the offset, each a child of the one before. -/
def pathAt (nodes : List Node) (offset : Nat) : List Node :=
  match Node.pick? offset (nodes.map fun n => (n, n.pathBelow offset)) with
  | some (n, path) => n :: path
  | none => []

end MudEdit
