import MudEdit.Grammar.Levels
import MudEdit.Grammar.Window
import MudEdit.Token.Lexer

/-!
# Parsed files

A file is read into a forest: its constructs, and the comments and keywords, which an
editor shows but the constructs do not hold. Any text can be read; what is wrong with
it shows as holes.

A `Reading` is a file read in part, with the constructs up to some token. The grammar
reads the significant tokens only, while the window passes over all of them, as many steps
as the grammar took, and notes what is shown besides the constructs.
-/

namespace MudEdit

/-- The constructs of a file, and what else an editor shows of it. -/
structure Forest where
  nodes : List Node
  comments : List Token
  keywords : List Token
  deriving Inhabited

namespace Forest

/-- The missing and wrong constructs, in the order of a walk. -/
def holes (f : Forest) : List Node := holesOf f.nodes

def hasHoles (f : Forest) : Bool := !f.holes.isEmpty

end Forest

/-- A text that is being read: a cursor for the grammar, and the window that follows it. -/
structure Reading where
  cursor : Cursor
  window : Window

namespace Reading

/-- A text with nothing read. -/
def start (mode : Mode) (text : String) : Reading :=
  let tokens := lex mode text
  let significant := tokens.filter Token.isSignificant
  ⟨.start significant text.utf8ByteSize, .start tokens text.utf8ByteSize⟩

/-- The constructs up to a token of the kind, or to the end of the text. -/
def readUntil (until_ : TokenKind) (r : Reading) : List Node × Reading :=
  let (nodes, cursor) := Parse.members until_ r.cursor
  (nodes, ⟨cursor, r.window.advanceBy (r.cursor.left - cursor.left)⟩)

/-- The keywords among the tokens taken. -/
def keywordsSeen (r : Reading) : List Token := r.window.keywords.reverse

/-- The comments before the token after the current one, which is as far as reading looks. -/
def commentsSeen (r : Reading) : List Token := r.window.comments.reverse

/-- The constructs with the comments and keywords seen on the way to them. -/
def finish (r : Reading) (nodes : List Node) : Forest := ⟨nodes, r.commentsSeen, r.keywordsSeen⟩

end Reading

/-- The forest of a text. -/
def Forest.parse (mode : Mode) (text : String) : Forest :=
  let (nodes, reading) := (Reading.start mode text).readUntil .eof
  reading.finish nodes

end MudEdit
