import MudEdit.Program.Basic

/-!
# Signatures

A declaration as an editor shows it: its modifiers, its type and its name, and for a
function the types of its parameters.
-/

namespace MudEdit.Definition

/-- The parameter list of a function. -/
def parameterList (parameters : List Ty) (variadic : Bool) : String :=
  "(" ++ String.intercalate ", " (parameters.map Ty.text) ++ (if variadic then "..." else "") ++ ")"

/-- The declaration without its modifiers. -/
def heading (d : Definition) : String :=
  match d.kind with
  | .func parameters variadic => d.type.text ++ " " ++ d.name ++ parameterList parameters variadic
  | .cls => "class " ++ d.name
  | .var | .param => d.type.text ++ " " ++ d.name

def signature (d : Definition) : String :=
  String.join (d.modifiers.map fun m => m.text ++ " ") ++ d.heading

end MudEdit.Definition
