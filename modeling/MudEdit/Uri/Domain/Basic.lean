import MudEdit.Uri.Domain.Direction
import MudEdit.Uri.Domain.Joining
import MudEdit.Uri.Domain.Mapping
import MudEdit.Uri.Punycode

/-!
# Names of hosts

A name is made of labels with dots between them. It may be written in any script, and its
normal form is in ASCII: a label with other characters is written in Punycode after
`xn--`. A label that is already written so has to stand for one that could have been
written.
-/

namespace MudEdit.Domain

/-- What cannot stand in a name. -/
def isForbidden (c : Char) : Bool :=
  Percent.controls c || " #/:<>?@[\\]^|%".toList.contains c

/-- What a label in Punycode starts with. -/
def punycodeMark : List Char := "xn--".toList

def isAscii (c : Char) : Bool := c.toNat < 128

/-- The label that one after `xn--` stands for. -/
def decoded? (coded : List Char) : Option (List Char) := do
  if !coded.all isAscii || coded.isEmpty || coded.getLast? == some '-' || 2000 < coded.length then
    none
  let label ← Punycode.decode? coded
  if (label.all fun c => image? c == some [c]) && composed label == label then some label else none

/-- The label as it is meant, from a label with nothing left to turn into something else. -/
def label? (label : List Char) : Option (List Char) :=
  if punycodeMark.isPrefixOf label then decoded? (label.drop punycodeMark.length) else some label

/-- Whether a label in another script is well formed. -/
def isWellFormed (label : List Char) : Bool :=
  label.all isAscii ||
    (!label.head?.any isMark && joinersShow [] label && label.length ≤ 1000)

/-- A label in ASCII. -/
def asciiLabel (label : List Char) : List Char :=
  if label.all isAscii then label else punycodeMark ++ Punycode.encode label

/-- The normal form of a name. -/
def normal? (name : List Char) : Option (List Char) := do
  let text := composed (← mapped? name)
  if text.any isForbidden then none
  let labels ← (text.splitOnP (· == '.')).mapM label?
  if !labels.all isWellFormed then none
  if (labels.any (·.any turns)) && !labels.all keepsDirection then none
  return List.intercalate ['.'] (labels.map asciiLabel)

end MudEdit.Domain
