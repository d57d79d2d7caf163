import MudEdit.Grammar.Levels
import MudEdit.Proofs.Grammar.Sequence

/-!
# The whole grammar reads in sequence

Declarations and statements that are joined with the holes found between their parts are those
that gather holes. A name that is read before its type is that of a `let`. All others are joined
with what is found behind their last part, and so is every level read that is made of a level that
is.
-/

namespace MudEdit

variable {c c₁ : Cursor} {below : Nested} {e : Expected}

namespace Parse

variable (hb : below.Sequences)

/-! ## Declarations -/

/-- A semicolon alone has no parts that could be out of turn. -/
theorem emptyStatement_sequenced : emptyStatement.Ensures c fun n c' => Sequenced c [n] [] c' :=
  .advance (.pure (.leaf rfl rfl))

theorem includeDirective_sequenced :
    includeDirective.Ensures c fun n c' => Sequenced c [n] [] c' :=
  .advance (path_sequenced.bind fun _ _ h => .pure (.new (Sequenced.word.append h) rfl))

/-- An inheritance may lack its semicolon only, which is found last. -/
theorem inheritance_sequenced : inheritance.Ensures c fun n c' => Sequenced c [n] [] c' := by
  unfold inheritance
  refine .advance (path_sequenced.bind fun file c₁ h₁ => (needed_sequenced _ _).bind ?_)
  exact fun hs c₂ h₂ => .lastStop (.pure (.closed (Sequenced.word.append h₁) h₂ rfl))

/-- However many words there are, they leave one construct without parts. -/
theorem modifiers_sequenced : modifiers.Ensures c fun o c' => Sequenced c o.toList [] c' := by
  have hwords : Ensures (manyUntil (!·.isModifier) modifier) c fun _ c' =>
      Sequenced c [] [] c' := by
    -- the loop keeps that nothing but words was passed over
    refine (Ensures.manyUntil (I := fun _ c' => Sequenced c [] [] c') ?_ [] c .nil).mono
      fun _ _ h => h.1
    intro words c₁ h _ he
    have hword : Sequenced c [] [] c₁.skip := h.append .word
    refine .advance ?_
    split
    · exact .pure ⟨hword, Cursor.left_skip he⟩
    · exact .pure ⟨hword, Cursor.left_skip he⟩
  unfold modifiers
  refine .here (hwords.bind fun words c₁ h => ?_)
  split
  · exact .pure h
  · exact .lastStop (.pure (.new h rfl))

/-- The name of an operator is made of its sign, and the closing sign comes behind it. -/
theorem declaredName_sequenced : declaredName.Ensures c fun n c' => Sequenced c [n] [] c' := by
  have hcloser (kind : TokenKind) (c : Cursor) :
      (operatorCloser kind).Ensures c fun p c' => Sequenced c [] p.2 c' := by
    unfold operatorCloser
    split
    · exact expect_sequenced.bind fun p c' h => .pure h
    · exact .pure .nil
  unfold declaredName
  refine .eat? (fun _ => .kind ?_) fun _ => name_sequenced
  split
  · -- no sign follows that a function could be named for
    exact hole_sequenced.mono fun n c' h => Sequenced.word.append h
  -- a bracket has to be closed, and the holes of this join the name
  · refine .advance ((hcloser _ _).bind fun p c₁ h₁ => .lastStop (.pure ?_))
    exact .late (Sequenced.word.append (.leaf rfl rfl)) h₁

include hb

/-- A value with its sign before it, or nothing at all. -/
theorem initialValue_sequenced :
    (initialValue below).Ensures c fun o c' => Sequenced c o.toList [] c' := by
  unfold initialValue
  refine .eats (fun _ => ?_) fun _ => .pure .nil
  exact (hb.expression _).bind fun n c₁ h => .pure (Sequenced.word.append h)

/-- A type with its colon before it, or nothing at all. -/
theorem annotatedType_sequenced {certain : Bool} :
    (annotatedType below certain).Ensures c fun o c' => Sequenced c o.toList [] c' := by
  unfold annotatedType
  refine .sees (.nextKind ?_)
  split
  · exact .advance ((hb.type _).bind fun n c₁ h => .pure (Sequenced.word.append h))
  · exact .pure .nil

/-- A definition by its word, whose name is read before its type. -/
theorem letDefinition_sequenced {at_ : Nat} {mods : Option Node}
    (h : Sequenced c mods.toList [] c₁) :
    (letDefinition below at_ mods).Ensures c₁ fun n c' => Sequenced c [n] [] c' := by
  unfold letDefinition
  refine .advance (name_sequenced.bind fun title c₂ h₂ => ?_)
  refine (annotatedType_sequenced hb).bind fun type c₃ h₃ => ?_
  refine (initialValue_sequenced hb).bind fun value c₄ h₄ => (needed_sequenced _ _).bind ?_
  -- the semicolon comes last, but the name was read before the type
  refine fun hs c₅ h₅ => .lastStop (.pure (.late (.titled ?_) h₅))
  simpa using h.append (Sequenced.word.append (h₂.append (h₃.append h₄)))

/-- A variable of a loop or of a handler, spelled in either of the two ways. -/
theorem bareVariable_sequenced :
    (bareVariable below).Ensures c fun n c' => Sequenced c [n] [] c' := by
  unfold bareVariable
  refine .here (.eats (fun _ => ?_) fun _ => ?_)
  · refine name_sequenced.bind fun title c₁ h₁ => (annotatedType_sequenced hb).bind ?_
    refine fun type c₂ h₂ => .lastStop (.pure (.titled ?_))
    simpa using Sequenced.word.append (h₁.append h₂)
  · refine (hb.type c).bind fun type c₁ h₁ => name_sequenced.bind fun title c₂ h₂ => ?_
    exact .lastStop (.pure (.new (h₁.append h₂) rfl))

/-- What follows the type and the name of a variable is its value and a semicolon. -/
theorem variableRest_sequenced {at_ : Nat} {mods : Option Node} {type title : Node}
    (h : Sequenced c (mods.toList ++ [type, title]) [] c₁) :
    (variableRest below at_ mods type title).Ensures c₁ fun n c' => Sequenced c [n] [] c' := by
  unfold variableRest
  refine (initialValue_sequenced hb).bind fun value c₂ h₂ => (needed_sequenced _ _).bind ?_
  refine fun hs c₃ h₃ => .lastStop (.pure (.closed ?_ h₃ rfl))
  simpa [NodeKind.children] using h.append h₂

/-- A parameter may be without a name, but not without a type. -/
theorem parameter_sequenced : (parameter below).Ensures c fun n c' => Sequenced c [n] [] c' := by
  unfold parameter
  refine .here (.kind (.seesParenthesizedType ?_))
  split
  · exact hole_sequenced
  · refine (hb.type c).bind fun type c₁ h₁ => .eat? (fun _ => ?_) (fun _ => ?_)
    · exact .lastStop (.pure (.new (h₁.append (.leaf rfl rfl)) rfl))
    · exact .lastStop (.pure (.new h₁ rfl))

/-- A block has its statements in their order, and its brace at the end. -/
theorem block_sequenced : (block below).Ensures c fun n c' => Sequenced c [n] [] c' := by
  unfold block
  refine .advance ((manyUntil_sequenced fun c => guarded_sequenced hb.statement).bind ?_)
  refine fun statements c₁ h₁ => (needed_sequenced _ _).bind fun hs c₂ h₂ => ?_
  exact .lastStop (.pure (.closed (Sequenced.word.append h₁) h₂ rfl))

/-- A body, or the semicolon in its place. -/
theorem functionBody_sequenced :
    (functionBody below).Ensures c fun p c' => Sequenced c p.1.toList p.2 c' := by
  unfold functionBody
  refine .sees ?_
  split
  · exact (block_sequenced hb).bind fun body c₁ h => .pure h
  · exact (needed_sequenced _ _).bind fun hs c₁ h => .pure h

/-- What follows the type and the name of a function is read with holes on the way. -/
theorem functionRest_sequenced {at_ : Nat} {mods : Option Node} {returns title : Node}
    (h : Sequenced c (mods.toList ++ [returns, title]) [] c₁) :
    (functionRest below at_ mods returns title).Ensures c₁ fun n c' => Sequenced c [n] [] c' := by
  unfold functionRest
  refine .advance ((separatedOpen_sequenced fun c => parameter_sequenced hb).bind ?_)
  intro p c₂ h₂
  show Ensures (closeParen >>= _) _ _
  refine (needed_sequenced _ _).bind fun hs c₃ h₃ => (functionBody_sequenced hb).bind ?_
  intro p c₄ h₄
  -- the body is read after the hole of the closing parenthesis
  refine .lastStop (.pure (.gathered ?_ rfl))
  simpa [NodeKind.children] using h.append (Sequenced.word.append (h₂.append (h₃.append h₄)))

/-- The words before a declaration are read first, whichever declaration follows them. -/
theorem declaration_sequenced :
    (declaration below).Ensures c fun n c' => Sequenced c [n] [] c' := by
  unfold declaration
  refine .here (.kind (.seesParenthesizedType ?_))
  split
  · exact refuse_sequenced
  · refine modifiers_sequenced.bind fun mods c₁ h₁ => .sees ?_
    split
    · exact letDefinition_sequenced hb h₁
    · refine (hb.type c₁).bind fun type c₂ h₂ => declaredName_sequenced.bind fun title c₃ h₃ => ?_
      -- functions and variables begin alike, and part at the token behind the name
      have h₄ : Sequenced c (mods.toList ++ [type, title]) [] c₃ := by
        simpa using h₁.append (h₂.append h₃)
      refine .sees ?_
      split
      · exact functionRest_sequenced hb h₄
      · exact variableRest_sequenced hb h₄

/-! ## Members -/

/-- Members between braces, both of which may be missing. -/
theorem classBody_sequenced :
    (classBody below).Ensures c fun p c' => Sequenced c p.1 p.2 c' := by
  unfold classBody
  refine expect_sequenced.bind fun p c₁ h₁ => ?_
  -- without the opening brace there is no body, only the hole for it
  obtain ⟨opened, opening⟩ := p
  cases opened with
  | false => exact .pure h₁
  | true =>
    show Ensures (manyUntil _ _ >>= _) _ _
    refine (manyUntil_sequenced fun c => guarded_sequenced hb.member).bind fun members c₂ h₂ => ?_
    refine (needed_sequenced _ _).bind fun closing c₃ h₃ => ?_
    have hbody : Sequenced c members (opening ++ closing) c₃ := by
      simpa using h₁.append (h₂.append h₃)
    -- a semicolon may follow and leaves nothing
    exact .eats (fun _ => .pure (by simpa using hbody.append .word)) fun _ => .pure hbody

/-- A class has its body, or the file it is taken from. -/
theorem classDefinition_sequenced :
    (classDefinition below).Ensures c fun n c' => Sequenced c [n] [] c' := by
  unfold classDefinition
  refine .advance (name_sequenced.bind fun title c₁ h₁ => .sees ?_)
  have htitle : Sequenced c [title] [] c₁ := Sequenced.word.append h₁
  split
  · refine strings_sequenced.bind fun file c₂ h₂ => (needed_sequenced _ _).bind ?_
    exact fun hs c₃ h₃ => .lastStop (.pure (.closed (htitle.append h₂) h₃ rfl))
  · refine (classBody_sequenced hb).bind ?_
    intro p c₂ h₂
    exact .lastStop (.pure (.gathered (htitle.append h₂) rfl))

/-- The first token decides which member is read. -/
theorem member_sequenced : (member below).Ensures c fun n c' => Sequenced c [n] [] c' := by
  unfold member
  refine .kind ?_
  split
  · exact includeDirective_sequenced
  · exact inheritance_sequenced
  · exact classDefinition_sequenced hb
  · exact emptyStatement_sequenced
  · exact declaration_sequenced hb

/-! ## Statements -/

/-- The semicolon of an expression is found behind it. -/
theorem expressionStatement_sequenced :
    (expressionStatement below).Ensures c fun n c' => Sequenced c [n] [] c' :=
  (hb.expression c).bind fun _ _ h₁ => (needed_sequenced _ _).bind fun _ _ h₂ => .pure (h₁.late h₂)

/-- Both parentheses leave their holes around the condition. -/
theorem parenthesizedCondition_sequenced : (parenthesizedCondition below).Ensures c fun p c' =>
    Sequenced c [p.1] p.2 c' := by
  unfold parenthesizedCondition
  refine (needed_sequenced _ _).bind fun opening c₁ h₁ => (hb.expression c₁).bind ?_
  refine fun condition c₂ h₂ => (needed_sequenced _ _).bind fun closing c₃ h₃ => .pure ?_
  simpa using h₁.append (h₂.append h₃)

/-- The other branch with its word before it, or nothing at all. -/
theorem otherwise_sequenced :
    (otherwise below).Ensures c fun o c' => Sequenced c o.toList [] c' := by
  unfold otherwise
  refine .eats (fun _ => ?_) fun _ => .pure .nil
  exact (hb.statement _).bind fun n c₁ h => .pure (Sequenced.word.append h)

/-- A condition with its holes, then one branch or two. -/
theorem ifStatement_sequenced :
    (ifStatement below).Ensures c fun n c' => Sequenced c [n] [] c' := by
  unfold ifStatement
  refine .advance ((parenthesizedCondition_sequenced hb).bind fun p c₁ h₁ => ?_)
  refine (hb.statement c₁).bind fun thenBranch c₂ h₂ => (otherwise_sequenced hb).bind ?_
  refine fun elseBranch c₃ h₃ => .lastStop (.pure (.gathered ?_ rfl))
  simpa [NodeKind.children] using Sequenced.word.append (h₁.append (h₂.append h₃))

/-- A condition with its holes, then the body. -/
theorem whileStatement_sequenced :
    (whileStatement below).Ensures c fun n c' => Sequenced c [n] [] c' := by
  unfold whileStatement
  refine .advance ((parenthesizedCondition_sequenced hb).bind fun p c₁ h₁ => ?_)
  refine (hb.statement c₁).bind fun body c₂ h₂ => .lastStop (.pure (.gathered ?_ rfl))
  simpa [NodeKind.children] using Sequenced.word.append (h₁.append h₂)

/-- A body, then the condition with its holes. -/
theorem doStatement_sequenced :
    (doStatement below).Ensures c fun n c' => Sequenced c [n] [] c' := by
  unfold doStatement
  refine .advance ((hb.statement _).bind fun body c₁ h₁ => expect_sequenced.bind ?_)
  refine fun p c₂ h₂ => (parenthesizedCondition_sequenced hb).bind fun q c₃ h₃ => ?_
  refine (needed_sequenced _ _).bind fun ending c₄ h₄ => .lastStop (.pure (.gathered ?_ rfl))
  simpa [NodeKind.children] using
    Sequenced.word.append (h₁.append (h₂.append (h₃.append h₄)))

/-- What comes before the first semicolon of a loop: nothing, a declaration or an expression. -/
theorem forStart_sequenced :
    (forStart below).Ensures c fun p c' => Sequenced c p.1.toList p.2 c' := by
  unfold forStart
  refine .eats (fun _ => .pure .word) fun _ => .kind ?_
  split
  · -- a declaration brings its own semicolon
    exact (declaration_sequenced hb).bind fun n c₁ h => .pure h
  · -- an expression does not, so the hole goes to the loop
    refine (hb.expression c).bind fun n c₁ h₁ => (needed_sequenced _ _).bind fun hs c₂ h₂ => ?_
    exact .pure (h₁.append h₂)

/-- The three parts before the body may be missing, and so may the signs between them. -/
theorem forStatement_sequenced :
    (forStatement below).Ensures c fun n c' => Sequenced c [n] [] c' := by
  unfold forStatement
  refine .advance ((needed_sequenced _ _).bind fun opening c₁ h₁ => (forStart_sequenced hb).bind ?_)
  refine fun p c₂ h₂ => (optionalExpression_sequenced hb).bind fun condition c₃ h₃ => ?_
  refine (needed_sequenced _ _).bind fun between c₄ h₄ => (optionalExpression_sequenced hb).bind ?_
  refine fun step c₅ h₅ => (needed_sequenced _ _).bind fun closing c₆ h₆ => ?_
  refine (hb.statement c₆).bind fun body c₇ h₇ => .lastStop (.pure (.gathered ?_ rfl))
  simpa [NodeKind.children] using Sequenced.word.append (h₁.append (h₂.append
    (h₃.append (h₄.append (h₅.append (h₆.append h₇))))))

/-- A value, or two values with the sign for a range between them. -/
theorem spanned_sequenced : (spanned below).Ensures c fun n c' => Sequenced c [n] [] c' := by
  unfold spanned
  refine (hb.expression c).bind fun lower c₁ h₁ => .eats (fun _ => ?_) fun _ => .pure h₁
  refine (hb.expression _).bind fun upper c₂ h₂ => .pure (.new ?_ rfl)
  exact h₁.append (Sequenced.word.append h₂)

/-- A variable or an expression, what it runs over, and the body. -/
theorem foreachStatement_sequenced :
    (foreachStatement below).Ensures c fun n c' => Sequenced c [n] [] c' := by
  have hbinding (c : Cursor) :
      (foreachBinding below).Ensures c fun n c' => Sequenced c [n] [] c' := by
    unfold foreachBinding
    refine .kind ?_
    split
    · exact bareVariable_sequenced hb
    · exact hb.expression c
  unfold foreachStatement
  refine .advance ((needed_sequenced _ _).bind fun opening c₁ h₁ => (hbinding c₁).bind ?_)
  refine fun binding c₂ h₂ => (needed_sequenced _ _).bind fun between c₃ h₃ => ?_
  refine (spanned_sequenced hb).bind fun iterable c₄ h₄ => (needed_sequenced _ _).bind ?_
  refine fun closing c₅ h₅ => (hb.statement c₅).bind fun body c₆ h₆ => ?_
  refine .lastStop (.pure (.gathered ?_ rfl))
  simpa [NodeKind.children] using Sequenced.word.append
    (h₁.append (h₂.append (h₃.append (h₄.append (h₅.append h₆)))))

/-- A label with its colon, then all statements up to the next label. -/
theorem labelledCase_sequenced :
    (labelledCase below).Ensures c fun n c' => Sequenced c [n] [] c' := by
  have hvalues (word : Token) (c : Cursor) :
      (caseValues below word).Ensures c fun o c' => Sequenced c o.toList [] c' := by
    unfold caseValues
    split
    · exact (spanned_sequenced hb).bind fun n c₁ h => .pure h
    · exact .pure .nil
  unfold labelledCase
  refine .advance ((hvalues _ _).bind fun label c₁ h₁ => (needed_sequenced _ _).bind ?_)
  refine fun hs c₂ h₂ => (manyUntil_sequenced fun c => guarded_sequenced hb.statement).bind ?_
  refine fun statements c₃ h₃ => .lastStop (.pure (.gathered ?_ rfl))
  simpa [NodeKind.children] using Sequenced.word.append (h₁.append (h₂.append h₃))

/-- Cases between braces, both of which may be missing. -/
theorem switchBody_sequenced :
    (switchBody below).Ensures c fun p c' => Sequenced c p.1 p.2 c' := by
  have hcase (c : Cursor) : (switchCase below).Ensures c fun n c' => Sequenced c [n] [] c' := by
    unfold switchCase
    refine .kind ?_
    split
    · exact labelledCase_sequenced hb
    · exact labelledCase_sequenced hb
    · exact wrongCurrent_sequenced
  unfold switchBody
  refine expect_sequenced.bind fun p c₁ h₁ => ?_
  obtain ⟨opened, opening⟩ := p
  cases opened with
  | false => exact .pure h₁
  | true =>
    show Ensures (manyUntil _ _ >>= _) _ _
    refine (manyUntil_sequenced hcase).bind fun cases c₂ h₂ => (needed_sequenced _ _).bind ?_
    exact fun closing c₃ h₃ => .pure (by simpa using h₁.append (h₂.append h₃))

/-- A condition with its holes, then the cases. -/
theorem switchStatement_sequenced :
    (switchStatement below).Ensures c fun n c' => Sequenced c [n] [] c' := by
  unfold switchStatement
  refine .advance ((parenthesizedCondition_sequenced hb).bind fun p c₁ h₁ => ?_)
  refine (switchBody_sequenced hb).bind fun q c₂ h₂ => .lastStop (.pure (.gathered ?_ rfl))
  exact Sequenced.word.append (h₁.append h₂)

/-- A variable in parentheses, or nothing at all. -/
theorem handlerVariable_sequenced :
    (handlerVariable below).Ensures c fun p c' => Sequenced c p.1.toList p.2 c' := by
  unfold handlerVariable
  refine .eats (fun _ => ?_) fun _ => .pure .nil
  refine (bareVariable_sequenced hb).bind fun exception c₁ h₁ => (needed_sequenced _ _).bind ?_
  exact fun hs c₂ h₂ => .pure (Sequenced.word.append (h₁.append h₂))

/-- The handler, if it lacks, is a hole behind the statement that is tried. -/
theorem tryStatement_sequenced :
    (tryStatement below).Ensures c fun n c' => Sequenced c [n] [] c' := by
  unfold tryStatement
  refine .advance ((hb.statement _).bind fun body c₁ h₁ => .eats (fun _ => ?_) fun _ => ?_)
  · refine (handlerVariable_sequenced hb).bind fun p c₂ h₂ => (hb.statement c₂).bind ?_
    refine fun handler c₃ h₃ => .lastStop (.pure (.gathered ?_ rfl))
    simpa [NodeKind.children] using
      Sequenced.word.append (h₁.append (Sequenced.word.append (h₂.append h₃)))
  · -- without a word for the handler
    refine hole_sequenced.bind fun handler c₂ h₂ => .lastStop (.pure (.new ?_ rfl))
    exact Sequenced.word.append (h₁.append h₂)

/-- A value or none, and the semicolon behind it. -/
theorem returnStatement_sequenced :
    (returnStatement below).Ensures c fun n c' => Sequenced c [n] [] c' := by
  unfold returnStatement
  refine .advance ((optionalExpression_sequenced hb).bind fun value c₁ h₁ => ?_)
  refine (needed_sequenced _ _).bind fun hs c₂ h₂ => .lastStop (.pure (.closed ?_ h₂ rfl))
  exact Sequenced.word.append h₁

omit hb in
/-- A word and its semicolon: what is made of the word has no parts. -/
theorem wordStatement_sequenced {construct : NodeKind} (hk : construct.children = [])
    (hn : ∀ begin stop, (Node.new begin stop construct).isHole = false) :
    (wordStatement construct).Ensures c fun n c' => Sequenced c [n] [] c' :=
  .advance ((needed_sequenced _ _).bind fun _ _ h =>
    .lastStop (.pure (.late (.leaf hk (hn _ _)) h)))

/-- The first token decides which statement is read. -/
theorem statement_sequenced : (statement below).Ensures c fun n c' => Sequenced c [n] [] c' := by
  unfold statement
  refine .kind ?_
  split
  · exact block_sequenced hb
  · exact ifStatement_sequenced hb
  · exact whileStatement_sequenced hb
  · exact doStatement_sequenced hb
  · exact forStatement_sequenced hb
  · exact foreachStatement_sequenced hb
  · exact switchStatement_sequenced hb
  · exact tryStatement_sequenced hb
  · exact returnStatement_sequenced hb
  · exact wordStatement_sequenced rfl fun _ _ => rfl
  · exact wordStatement_sequenced rfl fun _ _ => rfl
  · exact emptyStatement_sequenced
  · exact member_sequenced hb
  · split
    · exact declaration_sequenced hb
    · exact expressionStatement_sequenced hb

/-! ## All levels -/

omit hb in
/-- A level more or less moves no hole. -/
theorem nested_sequenced {production : Parse Node}
    (h : ∀ c, production.Ensures c fun n c' => Sequenced c [n] [] c') :
    (nested e production).Ensures c fun n c' => Sequenced c [n] [] c' := by
  unfold nested
  refine .depth ?_
  split
  · exact refuse_sequenced
  · exact .setDepth ((h _).bind fun n c₁ h₁ => .depth (.setDepth (.pure h₁.deeper)))

end Parse

namespace Nested

open Parse

/-- Below the last level all is refused, and a refused token is a hole in its turn. -/
theorem sequences_none : Nested.none.Sequences where
  statement _ := refuse_sequenced
  member _ := refuse_sequenced
  expression _ := refuse_sequenced
  alternative _ := refuse_sequenced
  operand _ _ := refuse_sequenced
  unary _ := refuse_sequenced
  type _ := refuse_sequenced

/-- A level is in sequence if the one below it is. -/
theorem Sequences.above (hb : below.Sequences) : below.above.Sequences where
  statement _ := nested_sequenced fun _ => statement_sequenced hb
  member _ := nested_sequenced fun _ => member_sequenced hb
  expression _ := nested_sequenced fun _ => expression_sequenced hb
  alternative _ := nested_sequenced fun _ => alternative_sequenced hb
  operand loosest _ := nested_sequenced fun _ => operand_sequenced hb loosest
  unary _ := nested_sequenced fun _ => unary_sequenced hb
  type _ := nested_sequenced fun _ => type_sequenced hb

/-- So is every level that can be built. -/
theorem sequences_levels : ∀ k, (levels k).Sequences
  | 0 => sequences_none
  | k + 1 => (sequences_levels k).above

end Nested

/-- **A file is read in sequence.** -/
theorem Parse.members_sequenced (until_ : TokenKind) :
    (members until_).Ensures c fun ns c' => Sequenced c ns [] c' :=
  manyUntil_sequenced fun _ =>
    guarded_sequenced fun _ => member_sequenced (Nested.sequences_levels maxDepth)

end MudEdit
