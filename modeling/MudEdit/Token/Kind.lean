/-!
# Token kinds

What a token can be. Reserved words come in three families: modifiers of a
declaration, names of basic types, and the remaining keywords. Operators and
brackets are the signs.
-/

namespace MudEdit

/-- A word that qualifies a declaration. -/
inductive Modifier where
  | publicWord
  | privateWord
  | protectedWord
  | staticWord
  | overrideWord
  | deprecatedWord
  | nosaveWord
  deriving DecidableEq, Repr, Inhabited

/-- A type that one word names. -/
inductive BasicKind where
  | void
  | int
  | float
  | char
  | bool
  | string
  | symbol
  | object
  | mapping
  | function
  | exception
  | any
  | auto
  deriving DecidableEq, Repr, Inhabited

/-- A reserved word that is neither a modifier nor the name of a basic type. -/
inductive Keyword where
  | inheritWord
  | classWord
  | newWord
  | thisWord
  | nilWord
  | trueWord
  | falseWord
  | sizeofWord
  | isWord
  | letWord
  | ifWord
  | elseWord
  | whileWord
  | doWord
  | forWord
  | foreachWord
  | switchWord
  | caseWord
  | defaultWord
  | breakWord
  | continueWord
  | returnWord
  | tryWord
  | catchWord
  | operatorWord
  deriving DecidableEq, Repr, Inhabited

/-- An operator or a bracket. -/
inductive Sign where
  | leftParen
  | rightParen
  | leftBracket
  | rightBracket
  | leftBrace
  | rightBrace
  | arrayOpen
  | mappingOpen
  | semicolon
  | comma
  | dot
  | colon
  | question
  | arrow
  | scope
  | range
  | ellipsis
  | assign
  | addAssign
  | subAssign
  | mulAssign
  | divAssign
  | modAssign
  | andAssign
  | orAssign
  | xorAssign
  | shiftLeftAssign
  | shiftRightAssign
  | increment
  | decrement
  | plus
  | minus
  | star
  | slash
  | percent
  | equal
  | notEqual
  | less
  | greater
  | lessEqual
  | greaterEqual
  | logicalAnd
  | logicalOr
  | bang
  | tilde
  | ampersand
  | pipe
  | caret
  | shiftLeft
  | shiftRight
  deriving DecidableEq, Repr, Inhabited

/-- The kind of a token; `eof` stands at the end of every text. -/
inductive TokenKind where
  | identifier
  | int
  | float
  | string
  | character
  | symbol
  | comment
  | docComment
  | eof
  | includeDirective
  | modifier (m : Modifier)
  | basic (b : BasicKind)
  | keyword (k : Keyword)
  | sign (s : Sign)
  deriving DecidableEq, Repr, Inhabited

namespace TokenKind

/-- Whether the word names a basic type. -/
def isTypeWord : TokenKind → Bool
  | basic _ => true
  | _ => false

/-- Whether the word qualifies a declaration. -/
def isModifier : TokenKind → Bool
  | modifier _ => true
  | _ => false

/-- Reserved words other than type words, the include directive among them. -/
def isKeyword : TokenKind → Bool
  | includeDirective | modifier _ | keyword _ => true
  | _ => false

def isComment : TokenKind → Bool
  | comment | docComment => true
  | _ => false

end TokenKind

end MudEdit
