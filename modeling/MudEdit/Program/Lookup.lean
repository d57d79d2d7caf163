import MudEdit.Program.Basic

/-!
# Names and what they stand for

A name is looked up from the inside out: in the scopes around the place where it is
used, as far as they were declared before it, then in the included files, then in the
inherited programs. An included file counts as part of the file itself. Of an inherited
program only the members that a visibility admits are seen, and those that it hides are
passed over as if they were not there.

`visibleDefinitions` lists at once what can be seen from a place.
-/

namespace MudEdit

/-- Which members of inherited programs are seen. -/
structure Visibility where
  includePrivate : Bool
  includeProtected : Bool
  deriving DecidableEq, Repr

namespace Visibility

/-- What an inheriting program sees. -/
def inheritor : Visibility := ⟨false, true⟩

def admits (v : Visibility) (d : Definition) : Bool :=
  (v.includePrivate || !d.has .privateWord) && (v.includeProtected || !d.has .protectedWord)

end Visibility

/-- The first list that is not empty. -/
def firstFound {α : Type} : List (List α) → List α
  | [] => []
  | found :: rest => if found.isEmpty then firstFound rest else found

namespace Program

/-! ## Scopes -/

/-- From a scope down to the innermost one that contains the offset, at most `fuel` levels. -/
def descend (p : Program) (offset : Nat) : (fuel : Nat) → (id : Nat) → Nat
  | 0, id => id
  | fuel + 1, id =>
    match (p.scope id).children.reverse.find? fun child => (p.scope child).contains offset with
    | some child => descend p offset fuel child
    | none => id

/-- The innermost scope that contains the offset. -/
def scopeAt (p : Program) (offset : Nat) : Nat := p.descend offset p.scopes.size 0

/-- A scope and those around it, the innermost first. A scope opens after its parent. -/
def scopesFrom (p : Program) (id : Nat) : List Nat :=
  match (p.scope id).parent with
  | some parent => if parent < id then id :: scopesFrom p parent else [id]
  | none => [id]
termination_by id

/-! ## Looking up a name -/

section Named

variable (name : String) (visibility : Visibility)

mutual

/-- What a name stands for in a program, as one that inherits it sees it. -/
def asInherited : Program → List Definition
  | .mk stamp fileName scopes included inherited =>
    let own := (Program.mk stamp fileName scopes [] []).topLevel.filter fun d =>
      d.name == name && visibility.admits d
    if !own.isEmpty then own
    else
      let found := asInheritedAny included
      if !found.isEmpty then found else asInheritedAny inherited

/-- What a name stands for in the first of the programs that has it for an inheritor. -/
def asInheritedAny : List Program → List Definition
  | [] => []
  | p :: ps =>
    let found := asInherited p
    if !found.isEmpty then found else asInheritedAny ps

end

mutual

/-- What a name stands for in a program, as a file that includes it sees it. -/
def asIncluded : Program → List Definition
  | .mk stamp fileName scopes included inherited =>
    let own := ((Program.mk stamp fileName scopes [] []).root.definitionsBefore endless).filter
      (·.name == name)
    if !own.isEmpty then own
    else
      let found := asIncludedAny included
      if !found.isEmpty then found else asInheritedAny name visibility inherited

/-- What a name stands for in the first of the programs that has it for an including file. -/
def asIncludedAny : List Program → List Definition
  | [] => []
  | p :: ps =>
    let found := asIncluded p
    if !found.isEmpty then found else asIncludedAny ps

end

/-- What a name stands for in a scope, declared before the offset. -/
def ownNamed (p : Program) (offset : Nat) (id : Nat) : List Definition :=
  ((p.scope id).definitionsBefore offset).filter (·.name == name)

/-- What a name stands for in a scope at an offset. -/
def identifiers (p : Program) (id offset : Nat) : List Definition :=
  let own := firstFound ((p.scopesFrom id).map (ownNamed name p offset))
  if !own.isEmpty then own
  else
    let found := asIncludedAny name visibility p.included
    if !found.isEmpty then found else asInheritedAny name visibility p.inherited

end Named

/-- What a name stands for in the inherited programs, written `::name`. -/
def superIdentifiers (name : String) (p : Program) : List Definition :=
  asInheritedAny name .inheritor p.inherited

/-- The last segment of a path, up to its first dot. -/
def label (path : String) : String :=
  String.ofList <| (((path.toList.splitOnP (· == '/')).getLast?.getD []).takeWhile (· != '.'))

/--
What `label::name` stands for: a name in the inherited program of that label, or in any
inherited one if there is no such program.
-/
def labelledIdentifiers (label_ name : String) (p : Program) : List Definition :=
  match p.inherited.find? fun q => q.fileName.any fun file => label file == label_ with
  | some q => asInherited name .inheritor q
  | none => p.superIdentifiers name

/-! ## All that can be seen -/

/-- What was found so far: the definitions, and the programs that need no second visit. -/
structure Sight where
  definitions : List Definition
  visited : List Nat

namespace Sight

/-- With one more definition, unless its name is taken. -/
def add (s : Sight) (d : Definition) : Sight :=
  if s.definitions.any (·.name == d.name) then s
  else { s with definitions := s.definitions ++ [d] }

def addAll (s : Sight) (ds : List Definition) : Sight := ds.foldl add s

end Sight

mutual

/-- With what can be seen through the links of a program. -/
def seeLinks : Program → Sight → Sight
  | .mk _ _ _ included inherited, s => seeInherited inherited (seeIncluded included s)

/-- With what can be seen of included programs. -/
def seeIncluded : List Program → Sight → Sight
  | [], s => s
  | p :: ps, s =>
    if s.visited.contains p.stamp then seeIncluded ps s
    else seeIncluded ps <| seeLinks p <|
      { s with visited := p.stamp :: s.visited }.addAll p.topLevel

/-- With what can be seen of inherited programs. -/
def seeInherited : List Program → Sight → Sight
  | [], s => s
  | p :: ps, s =>
    if s.visited.contains p.stamp then seeInherited ps s
    else seeInherited ps <| seeLinks p <|
      { s with visited := p.stamp :: s.visited }.addAll
        (p.topLevel.filter Visibility.inheritor.admits)

end

/-- All that can be seen from an offset; of definitions of one name, the innermost. -/
def visibleDefinitions (p : Program) (offset : Nat) : List Definition :=
  let own := (p.scopesFrom (p.scopeAt offset)).flatMap fun id =>
    (p.scope id).definitionsBefore offset
  (p.seeLinks (Sight.addAll ⟨[], []⟩ own)).definitions

/-! ## Questions about a place -/

/-- The scope of a function body, and the function's offset, innermost first. -/
def enclosingOwner? (p : Program) (offset : Nat) : Option (Nat × Nat) :=
  (p.scopesFrom (p.scopeAt offset)).findSome? fun id =>
    match (p.scope id).owner, (p.scope id).parent with
    | some owner, some parent => some (owner, parent)
    | _, _ => none

/-- The function whose body contains the offset. -/
def enclosingFunction? (p : Program) (offset : Nat) : Option Definition := do
  let (owner, parent) ← p.enclosingOwner? offset
  let (_, instruction) ← (p.scope parent).instructions.find? (·.1 == owner)
  instruction.definition?

/-- The type of the value that a name stands for at an offset. -/
def typeOfName? (p : Program) (n : Node) (offset : Nat) : Option Ty := do
  let name ← n.nameText?
  let found ← (p.identifiers name .inheritor (p.scopeAt offset) offset).head?
  return found.valueType

end Program

end MudEdit
