import MudEdit.Ty

/-!
# Programs

What a file declares. The scopes of a program are numbered in the order in which they
open; the first one is the file itself. A scope holds its instructions in source order,
each at the offset where it begins, and no two at the same offset. The programs that a
file includes and inherits are linked to it as whole programs.

Programs that were made separately are different even if they declare the same, which
is what their stamps are for.
-/

namespace MudEdit

/-- What a declared name stands for. -/
inductive DefinitionKind where
  | var
  | param
  | func (parameters : List Ty) (variadic : Bool)
  | cls
  deriving DecidableEq

/-- A declared name. The type of a function is that of its result. -/
structure Definition where
  begin : Nat
  stop : Nat
  name : String
  type : Ty
  kind : DefinitionKind
  modifiers : List Modifier
  deriving DecidableEq

namespace Definition

def isFunction (d : Definition) : Bool :=
  match d.kind with
  | .func _ _ => true
  | _ => false

def has (d : Definition) (m : Modifier) : Bool := d.modifiers.contains m

/-- The type of the name used as a value, where a function is a reference to it. -/
def valueType (d : Definition) : Ty :=
  match d.kind with
  | .func parameters variadic => .function d.type parameters variadic
  | _ => d.type

end Definition

/-- What a file says at some place: a declaration, or a link to another program. -/
inductive Instruction where
  | define (definition : Definition)
  | includeFile (path : String)
  | inheritFile (path : String)
  deriving DecidableEq

namespace Instruction

def definition? : Instruction → Option Definition
  | define d => some d
  | _ => none

/-- The path that a link names. -/
def path? : Instruction → Option String
  | includeFile path | inheritFile path => some path
  | define _ => none

end Instruction

/-- The greatest offset. What has no end of its own ends there. -/
def endless : Nat := Nat.pow 2 64 - 1

/-- A stretch of source whose declarations are seen in it and nowhere else. -/
structure Scope where
  begin : Nat
  /-- Where the scope ends; `endless` if it is never closed. -/
  stop : Nat
  parent : Option Nat
  children : List Nat
  instructions : List (Nat × Instruction)
  /-- Where the function begins whose body the scope is. -/
  owner : Option Nat
  deriving DecidableEq

namespace Scope

/-- A scope in which nothing is declared yet. -/
def fresh (begin stop : Nat) (parent : Option Nat) : Scope := ⟨begin, stop, parent, [], [], none⟩

instance : Inhabited Scope := ⟨fresh 0 0 none⟩

/-- Whether the offset is strictly inside; a cursor before the opening brace is outside. -/
def contains (s : Scope) (offset : Nat) : Bool := s.begin < offset && offset < s.stop

def definitions (s : Scope) : List Definition := s.instructions.filterMap (·.2.definition?)

/-- The declarations that begin before the offset. -/
def definitionsBefore (s : Scope) (offset : Nat) : List Definition :=
  (s.instructions.takeWhile (·.1 < offset)).filterMap (·.2.definition?)

/-- The list with an instruction at its place, unless there is one at this offset. -/
def insertAt (offset : Nat) (i : Instruction) : List (Nat × Instruction) → List (Nat × Instruction)
  | [] => [(offset, i)]
  | (at_, j) :: rest =>
    if offset < at_ then (offset, i) :: (at_, j) :: rest
    else if offset = at_ then (at_, j) :: rest
    else (at_, j) :: insertAt offset i rest

/-- The scope with one more instruction, unless there is one at its offset. -/
def record (s : Scope) (offset : Nat) (i : Instruction) : Scope :=
  { s with instructions := insertAt offset i s.instructions }

end Scope

/-- What a file declares, with the programs that it includes and inherits. -/
inductive Program where
  | mk (stamp : Nat) (fileName : Option String) (scopes : Array Scope)
    (included inherited : List Program)

namespace Program

instance : Inhabited Program := ⟨.mk 0 none #[] [] []⟩

def stamp : Program → Nat
  | .mk stamp _ _ _ _ => stamp

def fileName : Program → Option String
  | .mk _ fileName _ _ _ => fileName

def scopes : Program → Array Scope
  | .mk _ _ scopes _ _ => scopes

def included : Program → List Program
  | .mk _ _ _ included _ => included

def inherited : Program → List Program
  | .mk _ _ _ _ inherited => inherited

/-- A program that declares nothing. -/
def empty (stamp : Nat) (fileName : Option String) : Program :=
  .mk stamp fileName #[.fresh 0 endless none] [] []

def scope (p : Program) (id : Nat) : Scope := p.scopes.getD id default

/-- The scope of the file itself. -/
def root (p : Program) : Scope := p.scope 0

def isEmpty (p : Program) : Bool := p.scopes.size ≤ 1 && p.root.instructions.isEmpty

/-- What the file itself declares, outside of any other scope. -/
def topLevel (p : Program) : List Definition := p.root.definitions

/-- The paths that the file includes and inherits, in source order. -/
def dependencies (p : Program) : List String := p.root.instructions.filterMap (·.2.path?)

/-- The program with one of its scopes changed. -/
def modifyScope (p : Program) (id : Nat) (f : Scope → Scope) : Program :=
  match p with
  | .mk stamp fileName scopes included inherited =>
    .mk stamp fileName (scopes.modify id f) included inherited

/-- The program with a new scope in another one. -/
def openScope (p : Program) (parent begin stop : Nat) : Program :=
  match p with
  | .mk stamp fileName scopes included inherited =>
    let opened := scopes.modify parent fun s => { s with children := s.children ++ [scopes.size] }
    .mk stamp fileName (opened.push (.fresh begin stop (some parent))) included inherited

/-- The program with one more program included. -/
def addIncluded (p q : Program) : Program :=
  match p with
  | .mk stamp fileName scopes included inherited =>
    .mk stamp fileName scopes (included ++ [q]) inherited

/-- The program with one more program inherited. -/
def addInherited (p q : Program) : Program :=
  match p with
  | .mk stamp fileName scopes included inherited =>
    .mk stamp fileName scopes included (inherited ++ [q])

end Program

/-- Programs by the paths that files name them with. -/
abbrev Library := String → Option Program

end MudEdit
