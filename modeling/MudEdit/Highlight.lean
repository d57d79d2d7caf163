import MudEdit.Forest

/-!
# Highlighting

The stretches of a file that an editor styles: keywords, comments, names, literals,
types, and the holes with their messages. A name is styled once. What declares or calls
it claims it by where it begins, before the name itself is reached, and so decides its
style.
-/

namespace MudEdit

inductive HighlightKind where
  | keyword
  | type
  | modifier
  | function
  | var
  | parameter
  | name
  | integer
  | float
  | string
  | character
  | symbol
  | constant
  | comment
  | docComment
  | missing
  | wrong
  deriving DecidableEq, Repr, Inhabited

/-- A styled stretch of source; a hole has a message. -/
structure Highlight where
  begin : Nat
  stop : Nat
  kind : HighlightKind
  message : Option String
  deriving DecidableEq, Repr, Inhabited

namespace HighlightKind

/-- The name of the style in serialized form. -/
def title : HighlightKind → String
  | keyword => "keyword"
  | type => "type"
  | modifier => "modifier"
  | function => "function"
  | var => "variable"
  | parameter => "parameter"
  | name => "name"
  | integer => "integer"
  | float => "float"
  | string => "string"
  | character => "character"
  | symbol => "symbol"
  | constant => "constant"
  | comment => "comment"
  | docComment => "doc_comment"
  | missing => "missing"
  | wrong => "wrong"

def isHole : HighlightKind → Bool
  | missing | wrong => true
  | _ => false

/-- The style of a keyword. -/
def ofKeyword : TokenKind → HighlightKind
  | .keyword .trueWord | .keyword .falseWord | .keyword .nilWord | .keyword .thisWord => constant
  | .modifier _ => modifier
  | _ => keyword

/-- The style of a comment. -/
def ofComment : TokenKind → HighlightKind
  | .docComment => docComment
  | _ => comment

end HighlightKind

namespace Highlight

/-- A token in a style. -/
def ofToken (t : Token) (kind : HighlightKind) : Highlight := ⟨t.begin, t.stop, kind, none⟩

/-- A node in a style. -/
def ofNode (n : Node) (kind : HighlightKind) : Highlight := ⟨n.begin, n.stop, kind, n.message?⟩

/-- What a node has styled: a name, which may be claimed already, or itself. -/
inductive Request where
  | claim (name : Node) (kind : HighlightKind)
  | plain (kind : HighlightKind)
  | nothing

/-- The name that a call is to. -/
def calledName (callee : Node) : Node :=
  match callee.primary.kind with
  | .member _ _ name => name
  | .scopeChain _ name => name
  | _ => callee

/-- What a node has styled. -/
def request (n : Node) : Request :=
  match n.kind with
  | .missing _ => .plain .missing
  | .wrong _ _ => .plain .wrong
  | .variableDef _ _ name _ => .claim name .var
  | .functionDef _ _ name _ _ _ => .claim name .function
  | .parameter _ (some name) => .claim name .parameter
  | .classDef name _ _ => .claim name .type
  | .call callee _ => .claim (calledName callee) .function
  | .name _ => .claim n .name
  | .int _ => .plain .integer
  | .float _ => .plain .float
  | .string _ => .plain .string
  | .char _ => .plain .character
  | .symbol _ => .plain .symbol
  | .basicType _ _ => .plain .type
  | _ => .nothing

/-- Whether the node is a name, holes aside. -/
def isName (n : Node) : Bool :=
  match n.kind with
  | .name _ => true
  | _ => false

/-- What was styled so far, the last first, and where the names among it begin. -/
structure Styled where
  highlights : List Highlight
  claimed : List Nat

/-- With what one more node has styled. -/
def Styled.add (s : Styled) (n : Node) : Styled :=
  match request n with
  | .nothing => s
  | .plain kind => { s with highlights := ofNode n kind :: s.highlights }
  | .claim name kind =>
    let name := name.primary
    if isName name && !s.claimed.contains name.begin then
      ⟨ofNode name kind :: s.highlights, name.begin :: s.claimed⟩
    else s

/-- A node, then all below it. -/
def preorder : Node → List Node := Node.fold fun n below => n :: below.flatten

/-- The highlights of constructs, in the order of a walk. -/
def ofNodes (nodes : List Node) : List Highlight :=
  ((nodes.flatMap preorder).foldl Styled.add ⟨[], []⟩).highlights.reverse

/-- Whether one highlight may stand before another: by where they begin, then end. -/
def before (a b : Highlight) : Bool := a.begin < b.begin || (a.begin == b.begin && a.stop ≤ b.stop)

end Highlight

/-- The highlights of a file, sorted by where they begin and then by where they end. -/
def Forest.highlights (f : Forest) : List Highlight :=
  (f.keywords.map (fun t => Highlight.ofToken t (.ofKeyword t.kind)) ++
    f.comments.map (fun t => Highlight.ofToken t (.ofComment t.kind)) ++
    Highlight.ofNodes f.nodes).mergeSort Highlight.before

end MudEdit
