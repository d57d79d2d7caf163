import MudEdit.Json.Basic
import MudEdit.Uri.Basic

/-!
# Shapes of messages

What a part of a message has to look like. A part with fields is an object that has them
by their names, or an array that has them in their order. A part that is put together
from others can only be an object. Reading a part checks all that is known of it, and
brings it into its normal form: the object with the fields that are known and given.
-/

namespace MudEdit

/-- Reads a part of a message into its normal form, unless it is malformed. -/
abbrev Shape := Json → Option Json

namespace Shape

/-! ## Values -/

def any : Shape := some

def flag : Shape
  | .bool b => some (.bool b)
  | _ => none

def text : Shape
  | .string s => some (.string s)
  | _ => none

/-- A number that fits into 32 bits. -/
def unsigned : Shape
  | .int n => if 0 ≤ n ∧ n < Int.pow 2 32 then some (.int n) else none
  | _ => none

/-- A number that fits into 32 bits with its sign. -/
def signed : Shape
  | .int n => if -Int.pow 2 31 ≤ n ∧ n < Int.pow 2 31 then some (.int n) else none
  | _ => none

def number : Shape
  | .int n => some (.int n)
  | .float x => some (.float x)
  | _ => none

def uri : Shape
  | .string s => (Uri.ofString? s).map fun _ => .string s
  | _ => none

/-- One of some names; an object may have it as its only member, without a value. -/
def oneOf (names : List String) : Shape
  | .string name | .object [(name, .null)] => if names.contains name then some name else none
  | _ => none

/-! ## Several values -/

def list (item : Shape) : Shape
  | .array items => (items.mapM item).map .array
  | _ => none

/-- As many values of one shape. -/
def row (count : Nat) (item : Shape) : Shape
  | .array items => if items.length = count then list item (.array items) else none
  | _ => none

/-- Values by keys. -/
def keyed (key value : Shape) : Shape
  | .object members =>
    (members.mapM fun (name, j) => do
      let _ ← key (.string name)
      return (name, ← value j)).map .object
  | _ => none

/-- The first shape that fits. -/
def either (one other : Shape) : Shape := fun j => (one j).or (other j)

/-! ## Fields -/

/-- Whether a field has to be there. -/
inductive Need where
  | required
  /-- It may be null or absent, but takes its place in an array. -/
  | optional
  /-- It may be null or absent, also at the end of an array. -/
  | trailing
  /-- It may be absent, but not null. -/
  | preset
  deriving DecidableEq, Repr

structure Field where
  name : String
  need : Need
  shape : Shape

def req (name : String) (shape : Shape) : Field := ⟨name, .required, shape⟩

def opt (name : String) (shape : Shape) : Field := ⟨name, .optional, shape⟩

def trailing (name : String) (shape : Shape) : Field := ⟨name, .trailing, shape⟩

def preset (name : String) (shape : Shape) : Field := ⟨name, .preset, shape⟩

namespace Field

/-- The members of the normal form that a value of the field makes. -/
def given? (f : Field) (value : Json) : Option (List (String × Json)) :=
  match f.need, value with
  | .optional, .null | .trailing, .null => some []
  | _, value => (f.shape value).map fun j => [(f.name, j)]

/-- The members that the absence of the field makes. -/
def absent? (f : Field) : Option (List (String × Json)) :=
  if f.need = .required then none else some []

/-- The members that the field makes of an object. -/
def ofObject? (j : Json) (f : Field) : Option (List (String × Json)) :=
  match j.member? f.name with
  | some value => f.given? value
  | none => f.absent?

/-- The members that fields make of the items of an array, all of which are needed. -/
def ofItems? : List Field → List Json → Option (List (String × Json))
  | [], [] => some []
  | [], _ :: _ => none
  | f :: fields, [] =>
    if f.need = .trailing || f.need = .preset then ofItems? fields [] else none
  | f :: fields, value :: values => do return (← f.given? value) ++ (← ofItems? fields values)

end Field

/-- A part that is put together from others, with all their fields. -/
def merged (fields : List Field) : Shape
  | .object members =>
    (fields.mapM (Field.ofObject? (.object members))).map fun found => .object found.flatten
  | _ => none

/-- A part with fields. -/
def record (fields : List Field) : Shape
  | .array items => (Field.ofItems? fields items).map .object
  | j => merged fields j

/-- A part with fields, in which all other members are of one shape. -/
def withOthers (fields : List Field) (other : Shape) : Shape
  | .object members =>
    let isKnown (name : String) : Bool := fields.any (·.name == name)
    if members.all fun (name, j) => isKnown name || (other j).isSome then
      merged fields (.object members)
    else none
  | _ => none

end Shape

end MudEdit
