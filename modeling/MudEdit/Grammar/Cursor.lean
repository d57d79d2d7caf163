import MudEdit.Node.Basic
import MudEdit.Token.Basic

/-!
# A cursor in the tokens

The grammar reads the tokens of a text, comments left out. A `Cursor` separates those
already taken, nearest first, from those ahead. At the end of the text the `eof` token
is current and stays so, however often it is taken. The number of tokens ahead is kept
beside them, since it is what every loop of the grammar counts down, and so is how deep
the constructs being read are nested.
-/

namespace MudEdit

structure Cursor where
  /-- The tokens taken, the last one first. -/
  taken : List Token
  /-- The tokens ahead, the current one first. -/
  ahead : List Token
  /-- Bytes in the text. -/
  textEnd : Nat
  /-- How many tokens are ahead. -/
  left : Nat
  left_eq : left = ahead.length
  /-- How many constructs that nest are being read around the cursor. -/
  depth : Nat

namespace Cursor

/-- At the start of the tokens of a text of that many bytes. -/
def start (tokens : List Token) (textEnd : Nat) : Cursor := ⟨[], tokens, textEnd, _, rfl, 0⟩

/-- The token at the cursor. -/
def current (c : Cursor) : Token := c.ahead.head?.getD (.eof c.textEnd)

/-- The kind of the token at the cursor. -/
def kind (c : Cursor) : TokenKind := c.current.kind

/-- The kind of the token after it. -/
def nextKind (c : Cursor) : TokenKind :=
  match c.ahead with
  | _ :: t :: _ => t.kind
  | _ => .eof

/-- Where the last token taken ends. -/
def lastStop (c : Cursor) : Nat := (c.taken.head?.map Token.stop).getD 0

def atEnd (c : Cursor) : Bool := c.ahead.isEmpty

/-- Past the current token. -/
def skip (c : Cursor) : Cursor :=
  match h : c.ahead with
  | [] => { c with taken := .eof c.textEnd :: c.taken }
  | t :: ts =>
    { c with taken := t :: c.taken, ahead := ts, left := c.left - 1, left_eq := by simp [c.left_eq, h] }

end Cursor

/-- A production of the grammar: what it makes of the tokens ahead, and the cursor after it. -/
abbrev Parse := StateM Cursor

namespace Parse

/-- The kind of the current token. -/
def kind : Parse TokenKind := fun c => (c.kind, c)

/-- The kind of the token after the current one. -/
def nextKind : Parse TokenKind := fun c => (c.nextKind, c)

/-- Where the current token begins. -/
def here : Parse Nat := fun c => (c.current.begin, c)

/-- Where the last token taken ends. -/
def lastStop : Parse Nat := fun c => (c.lastStop, c)

def atEnd : Parse Bool := fun c => (c.atEnd, c)

/-- How many tokens are ahead. -/
def left : Parse Nat := fun c => (c.left, c)

/-- How deep the construct being read is nested. -/
def depth : Parse Nat := fun c => (c.depth, c)

/-- The current token, which is not taken. -/
def current : Parse Token := fun c => (c.current, c)

/-- Takes the current token. -/
def advance : Parse Token := fun c => (c.current, c.skip)

/-- Reads on at another depth. -/
def setDepth (depth : Nat) : Parse Unit := fun c => ((), { c with depth })

/-- Whether the current token is of the kind. -/
def sees (kind : TokenKind) : Parse Bool := return (← Parse.kind) == kind

/-- Takes the current token if it is of the kind. -/
def eat? (kind : TokenKind) : Parse (Option Token) := do
  if ← sees kind then return some (← advance) else return none

/-- Takes the current token if it is of the kind, and says whether it was. -/
def eats (kind : TokenKind) : Parse Bool := return (← eat? kind).isSome

/-! ## Loops

A loop goes on only after a turn that took a token, so the number of tokens ahead
bounds it. The turns of the grammar all take one, or are the last.
-/

section Loops

variable {α : Type}

/-- Items up to a token of a kind that `stops` the loop, or to the end of the text. -/
def manyUntil (stops : TokenKind → Bool) (item : Parse α) (c : Cursor) : List α × Cursor :=
  if stops c.kind || c.atEnd then ([], c)
  else
    let (a, after) := item c
    if after.left < c.left then
      let (as, last) := manyUntil stops item after
      (a :: as, last)
    else ([a], after)
termination_by c.left

/-- Items with commas between them, up to a closing token; a missing comma ends them too. -/
def separated (closer : TokenKind) (item : Parse α) (c : Cursor) : List α × Cursor :=
  if c.kind == closer || c.atEnd then ([], c)
  else
    let (a, after) := item c
    let (comma, next) := eats (.sign .comma) after
    if comma = true ∧ next.left < c.left then
      let (as, last) := separated closer item next
      (a :: as, last)
    else ([a], next)
termination_by c.left

/--
Items with commas between them up to a closing parenthesis. An ellipsis before or after
an item ends them and marks the list as open.
-/
def separatedOpen (item : Parse α) (c : Cursor) : (List α × Bool) × Cursor :=
  if c.kind == .sign .rightParen || c.atEnd then (([], false), c)
  else
    match eats (.sign .ellipsis) c with
    | (true, after) => (([], true), after)
    | (false, _) =>
      let (a, after) := item c
      match eats (.sign .ellipsis) after with
      | (true, last) => (([a], true), last)
      | (false, after) =>
        let (comma, next) := eats (.sign .comma) after
        if comma = true ∧ next.left < c.left then
          let ((as, isOpen), last) := separatedOpen item next
          ((a :: as, isOpen), last)
        else (([a], false), next)
termination_by c.left

/-- Grows a value as long as there is a way to. -/
def chain (grow : α → Parse (Option α)) (a : α) (c : Cursor) : α × Cursor :=
  match grow a c with
  | (none, after) => (a, after)
  | (some b, after) => if after.left < c.left then chain grow b after else (b, after)
termination_by c.left

end Loops

end Parse

end MudEdit
