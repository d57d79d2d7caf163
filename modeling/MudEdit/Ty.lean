import MudEdit.Grammar.Annotation
import MudEdit.Text.Quoted

/-!
# Types

A type is a basic one, an array, a choice between two, a reference to a function, or
the type of `this`, which becomes an object type once the program is known.

`accepts` says whether a value of one type may be stored where another is expected. A
choice accepts what one of its members accepts, and is accepted where one of its
members is: that lets `nil`, which may be any reference, be stored in a string.
-/

namespace MudEdit

inductive Ty where
  /-- A type that one word names; objects and exceptions may be of a program. -/
  | basic (kind : BasicKind) (file : Option String)
  | array (element : Ty)
  | or (lhs rhs : Ty)
  | function (returns : Ty) (parameters : List Ty) (variadic : Bool)
  | this

namespace Ty

instance : Inhabited Ty := ⟨.this⟩

mutual

/-- Whether two types are the same. -/
def decEq : (a b : Ty) → Decidable (a = b)
  | .basic k f, .basic k' f' =>
    if h : k = k' ∧ f = f' then isTrue (by rw [h.1, h.2]) else isFalse (by simpa using h)
  | .array a, .array b =>
    match decEq a b with
    | isTrue h => isTrue (by rw [h])
    | isFalse h => isFalse (by simpa using h)
  | .or a b, .or a' b' =>
    match decEq a a', decEq b b' with
    | isTrue h, isTrue h' => isTrue (by rw [h, h'])
    | isFalse h, _ => isFalse (by simp [h])
    | _, isFalse h => isFalse (by simp [h])
  | .function r ps v, .function r' ps' v' =>
    match decEq r r', decEqList ps ps' with
    | isTrue h, isTrue h' =>
      if hv : v = v' then isTrue (by rw [h, h', hv]) else isFalse (by simp [hv])
    | isFalse h, _ => isFalse (by simp [h])
    | _, isFalse h => isFalse (by simp [h])
  | .this, .this => isTrue rfl
  | .basic _ _, .array _ | .basic _ _, .or _ _ | .basic _ _, .function _ _ _ | .basic _ _, .this
  | .array _, .basic _ _ | .array _, .or _ _ | .array _, .function _ _ _ | .array _, .this
  | .or _ _, .basic _ _ | .or _ _, .array _ | .or _ _, .function _ _ _ | .or _ _, .this
  | .function _ _ _, .basic _ _ | .function _ _ _, .array _ | .function _ _ _, .or _ _
  | .function _ _ _, .this
  | .this, .basic _ _ | .this, .array _ | .this, .or _ _ | .this, .function _ _ _ =>
    isFalse (by simp)

/-- Whether two lists of types are the same. -/
def decEqList : (as bs : List Ty) → Decidable (as = bs)
  | [], [] => isTrue rfl
  | a :: as, b :: bs =>
    match decEq a b, decEqList as bs with
    | isTrue h, isTrue h' => isTrue (by rw [h, h'])
    | isFalse h, _ => isFalse (by simp [h])
    | _, isFalse h => isFalse (by simp [h])
  | [], _ :: _ | _ :: _, [] => isFalse (by simp)

end

instance : DecidableEq Ty := decEq

/-- A basic type that is of no program. -/
def plain (kind : BasicKind) : Ty := .basic kind none

/-- The objects of a program. -/
def object (file : String) : Ty := .basic .object (some file)

def any : Ty := plain .any

def void : Ty := plain .void

/-- The type of `nil`, which may be any reference. -/
def nil : Ty := .or (plain .mapping) (.or (plain .object) (.or (plain .string) (plain .symbol)))

mutual

/-- The type that a node spells; a hole, or what is no type, is any type. -/
def ofNode : Node → Ty
  | .mk _ _ (.basicType kind file) => .basic kind file
  | .mk _ _ (.arrayType element) => .array (ofNode element)
  | .mk _ _ (.orType lhs rhs) => .or (ofNode lhs) (ofNode rhs)
  | .mk _ _ (.functionType returns parameters variadic) =>
    .function (ofNode returns) (ofNodes parameters) variadic
  | .mk _ _ (.combination primary _) => ofNode primary
  | _ => any

/-- The types that nodes spell. -/
def ofNodes : List Node → List Ty
  | [] => []
  | n :: ns => ofNode n :: ofNodes ns

end

/-- Whether the type leaves everything open. -/
def isAny : Ty → Bool
  | basic .any _ | basic .auto _ => true
  | _ => false

mutual

/-- The type with that of `this` replaced by the objects of a program. -/
def resolveThis (file : Option String) : Ty → Ty
  | .this => .basic .object file
  | .array element => .array (resolveThis file element)
  | .or lhs rhs => .or (resolveThis file lhs) (resolveThis file rhs)
  | .function returns parameters variadic =>
    .function (resolveThis file returns) (resolveThisList file parameters) variadic
  | .basic kind f => .basic kind f

/-- The types with that of `this` replaced by the objects of a program. -/
def resolveThisList (file : Option String) : List Ty → List Ty
  | [] => []
  | t :: ts => resolveThis file t :: resolveThisList file ts

end

/--
Whether a function with these parameters may stand for one with those: one with open
parameters for any that has at least as many, any other for one with equally many.
-/
def arityFits (wanted given : List Ty) (wantedOpen givenOpen : Bool) : Bool :=
  if givenOpen then given.length ≤ wanted.length
  else wanted.length == given.length && !wantedOpen

mutual

/-- Whether a value of type `given` may be stored where `wanted` is expected. -/
def accepts (wanted given : Ty) : Bool :=
  if wanted.isAny || given.isAny then true
  else
    match wanted, given with
    | .or lhs rhs, given => accepts lhs given || accepts rhs given
    | wanted, .or lhs rhs => accepts wanted lhs || accepts wanted rhs
    | .basic kind file, .basic kind' file' => kind == kind' && (file.isNone || file == file')
    | .array element, .array element' => accepts element element'
    | .basic .function _, .function _ _ _ => true
    | .function returns parameters isOpen, .function returns' parameters' isOpen' =>
      arityFits parameters parameters' isOpen isOpen' &&
        acceptEach parameters' parameters && accepts returns returns'
    | _, _ => false
termination_by sizeOf wanted + sizeOf given

/-- Whether each type accepts the one at its place, as far as both lists go. -/
def acceptEach (wanted given : List Ty) : Bool :=
  match wanted, given with
  | w :: ws, g :: gs => accepts w g && acceptEach ws gs
  | _, _ => true
termination_by sizeOf wanted + sizeOf given

end

/-- Whether a value may be stored, in a program whose objects are what `this` is. -/
def acceptsIn (file : Option String) (wanted given : Ty) : Bool :=
  accepts (wanted.resolveThis file) (given.resolveThis file)

/-- Whether the type needs parentheses before a suffix. -/
def isCompound : Ty → Bool
  | or _ _ | function _ _ _ => true
  | _ => false

mutual

/-- The type as source spells it. -/
def text : Ty → String
  | .basic kind none => kind.text
  | .basic kind (some file) => kind.text ++ "<" ++ Text.quoted file ++ ">"
  | .array element =>
    if element.isCompound then "(" ++ text element ++ ")[]" else text element ++ "[]"
  | .or lhs rhs => text lhs ++ "|" ++ text rhs
  | .function returns parameters variadic =>
    text returns ++ "(" ++ String.intercalate ", " (texts parameters) ++
      (if variadic then "...)" else ")")
  | .this => "this"

/-- The types as source spells them. -/
def texts : List Ty → List String
  | [] => []
  | t :: ts => text t :: texts ts

end

end Ty

end MudEdit
