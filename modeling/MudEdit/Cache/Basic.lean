import MudEdit.Forest
import MudEdit.Program.Resolution
import MudEdit.Table

/-!
# The cache of programs

The programs of other files, by the names that files include and inherit them with. The
source of a name is fetched once and kept in a place. Forgetting a name takes the place
away from it, and whoever still works on the old place can no longer publish: a program
is published only from the place that its name has at that moment.
-/

namespace MudEdit

/-- A fetched file: its constructs, and the program they stood for when it was fetched. -/
structure Source where
  nodes : List Node
  program : Program

/--
Where the source of a name is kept. One task at a time has the turn to fetch it. The
others wait in line.
-/
structure Place where
  source : Option Source
  /-- The task whose turn it is. -/
  turn : Option Nat
  waiting : List Nat
  deriving Inhabited

namespace Place

/-- A place where no task was yet. -/
def empty : Place := ⟨none, none, []⟩

/-- The place filled, which ends the turn and the waiting. -/
def fill (source : Source) (_ : Place) : Place := ⟨some source, none, []⟩

/-- The place with the turn passed on to the first in line. -/
def passOn (p : Place) : Place := { p with turn := p.waiting.head?, waiting := p.waiting.tail }

/-- The place with one more task in line. -/
def join (task : Nat) (p : Place) : Place := { p with waiting := p.waiting ++ [task] }

/-- The place with a task no longer in line. -/
def leave (task : Nat) (p : Place) : Place := { p with waiting := p.waiting.erase task }

/-- The place with the turn given to a task. -/
def take (task : Nat) (p : Place) : Place := { p with turn := some task }

end Place

/-- Programs by name, and the places that they come from. -/
structure Cache where
  /-- What files can link to. -/
  published : Table Program
  /-- All places that names ever had. -/
  places : Array Place
  /-- The number of the place that a name has now. -/
  current : Table Nat
  /-- The stamp of the next program. -/
  stamp : Nat

namespace Cache

/-- A cache in which no name is known. -/
def empty : Cache := ⟨[], #[], [], 0⟩

/-- The program that a name has now. -/
def program? (c : Cache) (name : String) : Option Program := c.published.find? name

/-- The published programs, as files link to them. -/
def library (c : Cache) : Library := c.program?

/-- The place with the given number. -/
def place (c : Cache) (id : Nat) : Place := c.places.getD id .empty

def modifyPlace (c : Cache) (id : Nat) (f : Place → Place) : Cache :=
  { c with places := c.places.modify id f }

/-- The number of a name's place, which is made if there is none. -/
def placeOf (c : Cache) (name : String) : Nat × Cache :=
  match c.current.find? name with
  | some id => (id, c)
  | none =>
    (c.places.size,
      { c with places := c.places.push .empty, current := c.current.put name c.places.size })

/-- The program of a name, or the one from its source if none is published. -/
def programOr (c : Cache) (name : String) (source : Source) : Program :=
  (c.program? name).getD source.program

/-- Resolves constructs against what is published now. -/
def resolve (c : Cache) (name : String) (nodes : List Node) : Resolution :=
  MudEdit.resolve c.library c.stamp (some name) nodes

/-- The cache after a program was made with its stamp. -/
def nextStamp (c : Cache) : Cache := { c with stamp := c.stamp + 1 }

/-- The source that a text gives for a name. -/
def sourceOf (c : Cache) (name text : String) : Source :=
  let nodes := (Forest.parse .interpretation text).nodes
  ⟨nodes, (c.resolve name nodes).program⟩

/-- Publishes a program under a name that still has the place it comes from. -/
def publish (c : Cache) (name : String) (id : Nat) (program : Program) : Cache :=
  if c.current.find? name = some id then { c with published := c.published.put name program }
  else c

/-- Forgets a name, which will be fetched again. -/
def forget (c : Cache) (name : String) : Cache :=
  { c with current := c.current.remove name, published := c.published.remove name }

/-- How many links the fetched files have. -/
def links (c : Cache) : Nat :=
  c.places.toList.foldr (fun p n =>
    (match p.source with
    | some s => s.program.dependencies.length
    | none => 0) + n) 0

end Cache

end MudEdit
