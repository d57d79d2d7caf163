import MudEdit.Forest
import MudEdit.Highlight
import MudEdit.Json.Basic
import MudEdit.Json.Node

/-!
# Parsed files and highlights in serialized form
-/

namespace MudEdit

def Forest.toJson (f : Forest) : Json :=
  .object [("nodes", .list Node.toJson f.nodes), ("comments", .list Token.toJson f.comments),
    ("keywords", .list Token.toJson f.keywords)]

def Highlight.toJson (h : Highlight) : Json :=
  .object <| [("begin", .int h.begin), ("end", .int h.stop), ("kind", .string h.kind.title)] ++
    (h.message.map fun m => ("message", Json.string m)).toList

end MudEdit
