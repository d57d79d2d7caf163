import MudEdit.Forest
import MudEdit.Program.Lookup

/-!
# Completion

What can be written at an offset. Normally these are the definitions that are visible
there and the reserved words, as far as they start with what is typed already; where a
function returns a value, definitions that fit its type come first. After `->` or `.`
they are the functions of the receiver's program.
-/

namespace MudEdit

inductive SuggestionKind where
  | function
  | var
  | parameter
  | cls
  | keyword
  | type
  deriving DecidableEq, Repr, Inhabited

/-- A completion; definitions show their type. -/
structure Suggestion where
  label : String
  kind : SuggestionKind
  detail : Option String
  deriving DecidableEq, Repr, Inhabited

namespace SuggestionKind

/-- The name of the kind in serialized form. -/
def title : SuggestionKind → String
  | function => "function"
  | var => "variable"
  | parameter => "parameter"
  | cls => "class"
  | keyword => "keyword"
  | type => "type"

def ofDefinition : DefinitionKind → SuggestionKind
  | .func _ _ => function
  | .var => var
  | .param => parameter
  | .cls => cls

/-- The kind of a reserved word. -/
def ofWord (kind : TokenKind) : SuggestionKind := if kind.isTypeWord then type else keyword

end SuggestionKind

namespace Completion

def ofDefinition (d : Definition) : Suggestion :=
  ⟨d.name, .ofDefinition d.kind, some d.valueType.text⟩

/-- Whether a name starts with what is typed already. -/
def startsWith (typed : List Char) (name : String) : Bool := typed.isPrefixOf name.toList

/-- The part of the name at the end of a path that is before an offset. -/
def typed (path : List Node) (offset : Nat) : List Char :=
  match path.getLast? with
  | some n =>
    match n.kind with
    | .name text =>
      match Text.splitBytes? (offset - n.begin) text.toList with
      | some (head, _) => head
      | none => text.toList
    | _ => []
  | none => []

/-- The receiver of the member access whose name is at an offset. -/
def receiver? (path : List Node) (offset : Nat) : Option Node :=
  path.reverse.findSome? fun n =>
    match n.kind with
    | .member receiver _ name => if name.contains offset then some receiver else none
    | _ => none

/-- The type of a receiver, where it shows without resolving whole expressions. -/
def receiverType? (program : Program) (offset : Nat) (receiver : Node) : Option Ty :=
  let receiver := receiver.primary
  match receiver.kind with
  | .name _ => program.typeOfName? receiver offset
  | .this => some (Ty.this.resolveThis program.fileName)
  | .string path => some (.object path)
  | .call callee _ =>
    match program.typeOfName? callee offset with
    | some (.function returns _ _) => some returns
    | _ => none
  | .cast type _ => some (.ofNode type)
  | _ => none

/-- The functions of a program that anyone may call, by name. -/
def members (program : Program) (start : List Char) : List Suggestion :=
  ((program.topLevel.filter fun d =>
    d.isFunction && startsWith start d.name && !d.has .privateWord && !d.has .protectedWord).map
      ofDefinition).mergeSort fun a b => !(b.label < a.label)

/-- The functions that a receiver has. -/
def ofReceiver (library : Library) (program : Program) (offset : Nat) (start : List Char)
    (receiver : Node) : List Suggestion :=
  match receiverType? program offset receiver with
  | some (.basic _ (some file)) =>
    match library file with
    | some other => members other start
    | none => []
  | _ => []

/-- The type of the value that a path to an offset has the function return. -/
def returned? (program : Program) (path : List Node) (offset : Nat) : Option Ty :=
  let returns (n : Node) := match n.kind with
    | .returnValue _ => true
    | _ => false
  if path.any returns then (program.enclosingFunction? offset).map (·.type) else none

/-- Whether a definition is of a type that is wanted. -/
def fits (program : Program) (wanted : Option Ty) (d : Definition) : Bool :=
  wanted.any fun type => type.acceptsIn program.fileName d.valueType

/-- The reserved words that are not taken as names. -/
def words (start : List Char) (taken : List String) : List Suggestion :=
  (vocabulary.filter fun (text, _) => startsWith start text && !taken.contains text).map
    fun (text, kind) => ⟨text, .ofWord kind, none⟩

/-- The visible definitions, the fitting ones first, and the reserved words. -/
def ofScope (program : Program) (path : List Node) (offset : Nat) (start : List Char) :
    List Suggestion :=
  let wanted := returned? program path offset
  let visible := (program.visibleDefinitions offset).filter (startsWith start ·.name)
  let ranked := (visible.filter (fits program wanted) ++
    visible.filter (!fits program wanted ·)).map ofDefinition
  ranked ++ words start (ranked.map (·.label))

end Completion

/-- What can be written at an offset of a file that was resolved to a program. -/
def suggestions (library : Library) (f : Forest) (program : Program) (offset : Nat) :
    List Suggestion :=
  let path := pathAt f.nodes offset
  let start := Completion.typed path offset
  match Completion.receiver? path offset with
  | some receiver => Completion.ofReceiver library program offset start receiver
  | none => Completion.ofScope program path offset start

end MudEdit
