import MudEdit.Proofs.Grammar.Agree

/-!
# The grammar satisfies its own recursion

The productions that nest are given level by level, from the deepest up. Levels are
counted down as the depth is counted up, so the last level is never reached where the
depth still allows one more: with `maxDepth` levels, another one on top changes nothing.
The productions with all levels are therefore those that the grammar defines in terms of
themselves, and what ends their recursion is the depth alone.
-/

namespace MudEdit

open Parse

/-- The productions of the two levels do the same at cursors of the depth. -/
structure Nested.Agree (d : Nat) (a b : Nested) : Prop where
  statement : Parse.Agree d a.statement b.statement
  member : Parse.Agree d a.member b.member
  expression : Parse.Agree d a.expression b.expression
  alternative : Parse.Agree d a.alternative b.alternative
  operand : ∀ loosest, Parse.Agree d (a.operand loosest) (b.operand loosest)
  unary : Parse.Agree d a.unary b.unary
  type : Parse.Agree d a.type b.type

namespace Parse

variable {d : Nat} {a b : Nested}

/-! ## Pieces that read no level below -/

theorem name_steady : Agree d name name :=
  .of_takes fun _ => name_reads.mono fun _ _ h => h.takes

theorem path_steady : Agree d path path :=
  .of_takes fun _ => path_reads.mono fun _ _ h => h.takes

/-- Strings that stand side by side make one construct, no part of which goes deeper. -/
theorem strings_steady : Agree d strings strings := by
  refine .bind (.manyUntil (.bind advance_steady fun _ => .pure _)) fun parts => ?_
  split
  · exact .pure _
  · exact .bind lastStop_steady fun _ => .pure _

/-- What is looked at ahead is two tokens, of whatever level. -/
theorem seesParenthesizedType_steady : Agree d seesParenthesizedType seesParenthesizedType :=
  .bind (sees_steady _) fun _ => .bind nextKind_steady fun _ => .pure _

/-- The file of a type is a path in parentheses, which holds no type. -/
theorem typeFile_steady (basic : BasicKind) : Agree d (typeFile basic) (typeFile basic) := by
  refine .ite (.pure _) (.bind (eats_steady _) fun _ => .ite (.pure _) ?_)
  refine .bind path_steady fun file => .bind (expect_steady _ _) fun p => ?_
  dsimp only
  split <;> exact .pure _

theorem scopeLink_steady (scope : Option Node) : Agree d (scopeLink scope) (scopeLink scope) :=
  .bind advance_steady fun _ => .bind name_steady fun _ => .bind lastStop_steady fun _ => .pure _

/-- Each `::` is followed by a name, so a chain of them reads nothing deeper. -/
theorem scopedName_steady : Agree d scopedName scopedName := by
  -- one link of the chain, which reads a sign and a name
  have hs : ∀ n, Agree d (scopeSuffix n) (scopeSuffix n) := by
    intro n
    refine .bind (sees_steady _) fun _ => .ite ?_ (.pure _)
    exact .bind (scopeLink_steady _) fun _ => .pure _
  refine .bind (eat?_steady _) fun t => ?_
  split
  · exact .chain hs _
  · exact .bind (scopeLink_steady _) fun n => .chain hs n

theorem atom_steady : Agree d atom atom :=
  .of_takes fun _ => atom_reads.mono fun _ _ h => h.takes

theorem declaredName_steady : Agree d declaredName declaredName :=
  .of_takes fun _ => declaredName_reads.mono fun _ _ h => h.takes

theorem memberSuffix_steady (access : Access) (receiver : Node) :
    Agree d (memberSuffix access receiver) (memberSuffix access receiver) :=
  .bind advance_steady fun _ => .bind name_steady fun _ => .bind lastStop_steady fun _ => .pure _

theorem trailingOperator_steady (op : UnaryOp) (operand : Node) :
    Agree d (trailingOperator op operand) (trailingOperator op operand) :=
  .bind advance_steady fun _ => .pure _

theorem emptyStatement_steady : Agree d emptyStatement emptyStatement :=
  .bind advance_steady fun _ => .pure _

theorem includeDirective_steady : Agree d includeDirective includeDirective :=
  .bind advance_steady fun _ => .bind path_steady fun _ => .pure _

theorem inheritance_steady : Agree d inheritance inheritance := by
  refine .bind advance_steady fun _ => .bind path_steady fun _ => ?_
  exact .bind (needed_steady _ _) fun _ => .bind lastStop_steady fun _ => .pure _

/-- Modifiers are words, however many of them there are. -/
theorem modifiers_steady : Agree d modifiers modifiers := by
  -- any word counts that is a modifier, and the first that is none ends them
  have hm : Agree d modifier modifier := by
    refine .bind advance_steady fun t => ?_
    split <;> exact .pure _
  refine .bind here_steady fun _ => .bind (.manyUntil hm) fun _ => .ite (.pure _) ?_
  exact .bind lastStop_steady fun _ => .pure _

theorem wordStatement_steady (construct : NodeKind) :
    Agree d (wordStatement construct) (wordStatement construct) := by
  refine .bind advance_steady fun _ => .bind (needed_steady _ _) fun _ => ?_
  exact .bind lastStop_steady fun _ => .pure _

variable (h : Nested.Agree d a b)
include h

/-! ## Types -/

/-- The only type inside another one is that in parentheses. -/
theorem typeAtom_agree : Agree d (typeAtom a) (typeAtom b) := by
  refine .bind kind_steady fun kind => ?_
  split
  · refine .bind advance_steady fun _ => .bind h.type fun inner => ?_
    exact .bind (needed_steady _ _) fun _ => .pure _
  · refine .bind advance_steady fun _ => .bind (typeFile_steady _) fun _ => ?_
    exact .bind lastStop_steady fun _ => .pure _
  · exact hole_steady _

/-- The types of parameters are read on the level below. -/
theorem functionSuffix_agree (returns : Node) :
    Agree d (functionSuffix a returns) (functionSuffix b returns) := by
  refine .bind advance_steady fun _ => .bind (.separatedOpen h.type) fun _ => ?_
  exact .bind (needed_steady _ _) fun _ => .bind lastStop_steady fun _ => .pure _

/-- Brackets and an ellipsis hold nothing, so only a function type goes deeper. -/
theorem typeSuffix_agree (type : Node) : Agree d (typeSuffix a type) (typeSuffix b type) := by
  refine .ite (.pure _) (.bind kind_steady fun kind => .bind nextKind_steady fun next => ?_)
  split
  · refine .bind advance_steady fun _ => .bind advance_steady fun _ => ?_
    exact .bind lastStop_steady fun _ => .pure _
  · exact .bind advance_steady fun _ => .bind lastStop_steady fun _ => .pure _
  · exact .bind (functionSuffix_agree h type) fun _ => .pure _
  · exact .pure _

/-- A type with its suffixes agrees since each of these does. -/
theorem suffixedType_agree : Agree d (suffixedType a) (suffixedType b) :=
  .bind (typeAtom_agree h) (.chain (typeSuffix_agree h))

/-- Behind a bar comes one more type with suffixes, on the same level. -/
theorem typeAlternative_agree (type : Node) :
    Agree d (typeAlternative a type) (typeAlternative b type) := by
  refine .ite (.pure _) (.bind (eats_steady _) fun _ => .ite ?_ (.pure _))
  exact .bind (suffixedType_agree h) fun _ => .pure _

theorem type_agree : Agree d (type a) (type b) :=
  .bind (suffixedType_agree h) (.chain (typeAlternative_agree h))

/-! ## Operands -/

/-- Arguments are expressions of the level below. -/
theorem arguments_agree (closer : Sign) : Agree d (arguments a closer) (arguments b closer) :=
  .separated h.expression

/-- Where the closing sign comes at once, the level below is not asked. -/
theorem optionalExpression_agree (without : Sign) :
    Agree d (optionalExpression a without) (optionalExpression b without) :=
  .bind (sees_steady _) fun _ => .ite (.pure _) (.bind h.expression fun _ => .pure _)

theorem parenthesized_agree : Agree d (parenthesized a) (parenthesized b) := by
  refine .bind advance_steady fun _ => .bind h.expression fun _ => ?_
  exact .bind (needed_steady _ _) fun _ => .pure _

theorem arrayLiteral_agree : Agree d (arrayLiteral a) (arrayLiteral b) := by
  refine .bind advance_steady fun _ => .bind (arguments_agree h _) fun _ => ?_
  refine .bind (needed_steady _ _) fun _ => .bind (needed_steady _ _) fun _ => ?_
  exact .bind lastStop_steady fun _ => .pure _

/-- Both halves of an entry are expressions of the level below. -/
theorem mappingEntry_agree : Agree d (mappingEntry a) (mappingEntry b) := by
  refine .bind h.expression fun _ => .bind (needed_steady _ _) fun _ => ?_
  exact .bind h.expression fun _ => .pure _

theorem mappingLiteral_agree : Agree d (mappingLiteral a) (mappingLiteral b) := by
  refine .bind advance_steady fun _ => .bind (.separated (mappingEntry_agree h)) fun _ => ?_
  refine .bind (needed_steady _ _) fun _ => .bind (needed_steady _ _) fun _ => ?_
  exact .bind lastStop_steady fun _ => .pure _

/-- Behind `new` stands a type or an expression, both of the level below. -/
theorem newTarget_agree : Agree d (newTarget a) (newTarget b) :=
  .bind kind_steady fun _ => .ite h.type h.expression

theorem newArguments_agree : Agree d (newArguments a) (newArguments b) :=
  .bind (eats_steady _) fun _ => .ite (arguments_agree h _) (.pure _)

theorem newValue_agree : Agree d (newValue a) (newValue b) := by
  refine .bind advance_steady fun _ => .bind (needed_steady _ _) fun _ => ?_
  refine .bind (newTarget_agree h) fun _ => .bind (newArguments_agree h) fun _ => ?_
  exact .bind (needed_steady _ _) fun _ => .bind lastStop_steady fun _ => .pure _

/-- Of what a value starts with, only what is in brackets or behind `new` goes deeper. -/
theorem primary_agree : Agree d (primary a) (primary b) := by
  refine .bind kind_steady fun kind => ?_
  split
  · exact scopedName_steady
  · exact scopedName_steady
  · exact strings_steady
  · exact parenthesized_agree h
  · exact arrayLiteral_agree h
  · exact mappingLiteral_agree h
  · exact newValue_agree h
  · exact atom_steady

theorem callSuffix_agree (callee : Node) :
    Agree d (callSuffix a callee) (callSuffix b callee) := by
  refine .bind advance_steady fun _ => .bind (arguments_agree h _) fun _ => ?_
  exact .bind (needed_steady _ _) fun _ => .bind lastStop_steady fun _ => .pure _

/-- An index has two bounds at most, either of which may be lacking. -/
theorem subscriptIndex_agree : Agree d (subscriptIndex a) (subscriptIndex b) := by
  refine .bind here_steady fun _ => .bind (optionalExpression_agree h _) fun lower => ?_
  refine .bind (eats_steady _) fun isRange => ?_
  split
  · exact .pure _
  · refine .bind (optionalExpression_agree h _) fun _ => ?_
    exact .bind lastStop_steady fun _ => .pure _

theorem subscriptSuffix_agree (target : Node) :
    Agree d (subscriptSuffix a target) (subscriptSuffix b target) := by
  refine .bind advance_steady fun _ => .bind (subscriptIndex_agree h) fun _ => ?_
  exact .bind (needed_steady _ _) fun _ => .bind lastStop_steady fun _ => .pure _

/-- A suffix of a value goes deeper in its brackets, and otherwise is a name or a sign. -/
theorem suffix_agree (target : Node) : Agree d (suffix a target) (suffix b target) := by
  refine .ite (.pure _) (.bind kind_steady fun kind => ?_)
  split
  · exact .map (callSuffix_agree h target)
  · exact .map (subscriptSuffix_agree h target)
  · exact .map (memberSuffix_steady _ target)
  · exact .map (memberSuffix_steady _ target)
  · exact .map (trailingOperator_steady _ target)
  · exact .map (trailingOperator_steady _ target)
  · exact .pure _

/-- A cast has a type and an operand of the level below. -/
theorem castOperand_agree : Agree d (castOperand a) (castOperand b) := by
  refine .bind advance_steady fun _ => .bind h.type fun _ => ?_
  exact .bind (needed_steady _ _) fun _ => .bind h.unary fun _ => .pure _

/-- An operator in front takes an operand of the level below; a value does not. -/
theorem unary_agree : Agree d (unary a) (unary b) := by
  refine .bind kind_steady fun kind => ?_
  split
  -- an operator in front
  · exact .bind advance_steady fun _ => .bind h.unary fun _ => .pure _
  · refine .bind seesParenthesizedType_steady fun _ => .ite (castOperand_agree h) ?_
    exact .bind (primary_agree h) (.chain (suffix_agree h))

/-! ## Expressions -/

/-- Behind `is` comes a type of the level below. -/
theorem typeTestSuffix_agree (value : Node) :
    Agree d (typeTestSuffix a value) (typeTestSuffix b value) := by
  refine .ite (.pure _) (.bind (eats_steady _) fun _ => .ite ?_ (.pure _))
  exact .bind h.type fun _ => .pure _

/-- The right side of an operator is an operand of the level below, as tight as is allowed. -/
theorem operatorSuffix_agree (loosest : Nat) (lhs : Node) :
    Agree d (operatorSuffix a loosest lhs) (operatorSuffix b loosest lhs) := by
  refine .bind kind_steady fun kind => ?_
  split
  · refine .ite (.bind advance_steady fun _ => ?_) (.pure _)
    exact .bind (h.operand _) fun _ => .pure _
  · exact .pure _

/-- The operators of one level make a chain, each link of which agrees. -/
theorem operand_agree (loosest : Nat) : Agree d (operand a loosest) (operand b loosest) := by
  -- a test of a type binds tighter than all operators between two operands
  have htest : Agree d (typeTest a) (typeTest b) := .bind h.unary (.chain (typeTestSuffix_agree h))
  exact .bind htest (.chain (operatorSuffix_agree h loosest))

/-- The branches of `?:` are read on the level below. -/
theorem alternative_agree : Agree d (alternative a) (alternative b) := by
  refine .bind (operand_agree h _) fun _ => .bind (eats_steady _) fun _ => .ite ?_ (.pure _)
  refine .bind h.expression fun _ => .bind (needed_steady _ _) fun _ => ?_
  exact .bind h.alternative fun _ => .pure _

/-- An assignment reads its right side on the level below. -/
theorem expression_agree : Agree d (expression a) (expression b) := by
  refine .bind (alternative_agree h) fun target => .bind kind_steady fun kind => ?_
  split
  · exact .ite (.bind advance_steady fun _ => .bind h.expression fun _ => .pure _) (.pure _)
  · exact .pure _

/-! ## Declarations -/

/-- Members are read on the level below, one after the other. -/
theorem classBody_agree : Agree d (classBody a) (classBody b) := by
  refine .bind (expect_steady _ _) fun _ => .ite (.pure _) ?_
  refine .bind (.manyUntil (.guarded h.member)) fun _ => .bind (needed_steady _ _) fun _ => ?_
  exact .bind (eats_steady _) fun _ => .pure _

/-- A class has its members in braces, or the name of a file that has them. -/
theorem classDefinition_agree : Agree d (classDefinition a) (classDefinition b) := by
  refine .bind advance_steady fun _ => .bind name_steady fun _ => .bind (sees_steady _) fun _ => ?_
  refine .ite ?_ (.bind (classBody_agree h) fun _ => .bind lastStop_steady fun _ => .pure _)
  refine .bind strings_steady fun _ => .bind (needed_steady _ _) fun _ => ?_
  exact .bind lastStop_steady fun _ => .pure _

theorem initialValue_agree : Agree d (initialValue a) (initialValue b) :=
  .bind (eats_steady _) fun _ => .ite (.bind h.expression fun _ => .pure _) (.pure _)

/-- A type is asked for where a colon says so. -/
theorem annotatedType_agree (certain : Bool) :
    Agree d (annotatedType a certain) (annotatedType b certain) := by
  -- where a colon may mean something else, the token behind it decides
  refine .bind (sees_steady _) fun _ => .bind nextKind_steady fun _ => .ite ?_ (.pure _)
  exact .bind advance_steady fun _ => .bind h.type fun _ => .pure _

theorem letDefinition_agree (begin : Nat) (mods : Option Node) :
    Agree d (letDefinition a begin mods) (letDefinition b begin mods) := by
  refine .bind advance_steady fun _ => .bind name_steady fun _ => ?_
  refine .bind (annotatedType_agree h _) fun _ => .bind (initialValue_agree h) fun _ => ?_
  exact .bind (needed_steady _ _) fun _ => .bind lastStop_steady fun _ => .pure _

/-- The variable of a loop or a handler has its type before the name, or behind a colon. -/
theorem bareVariable_agree : Agree d (bareVariable a) (bareVariable b) := by
  refine .bind here_steady fun _ => .bind (eats_steady _) fun _ => .ite ?_ ?_
  · refine .bind name_steady fun _ => .bind (annotatedType_agree h _) fun _ => ?_
    exact .bind lastStop_steady fun _ => .pure _
  · refine .bind h.type fun _ => .bind name_steady fun _ => ?_
    exact .bind lastStop_steady fun _ => .pure _

theorem parameter_agree : Agree d (parameter a) (parameter b) := by
  refine .bind here_steady fun _ => .bind kind_steady fun _ => ?_
  refine .bind seesParenthesizedType_steady fun _ => .ite (hole_steady _) ?_
  refine .bind h.type fun _ => .bind (eat?_steady _) fun _ => ?_
  exact .bind lastStop_steady fun _ => .pure _

/-- The statements of a block are those of the level below. -/
theorem block_agree : Agree d (block a) (block b) := by
  refine .bind advance_steady fun _ => .bind (.manyUntil (.guarded h.statement)) fun _ => ?_
  exact .bind (needed_steady _ _) fun _ => .bind lastStop_steady fun _ => .pure _

/-- A function has a block for its body, on its own level, or none. -/
theorem functionBody_agree : Agree d (functionBody a) (functionBody b) := by
  refine .bind (sees_steady _) fun _ => .ite (.bind (block_agree h) fun _ => .pure _) ?_
  exact .bind (needed_steady _ _) fun _ => .pure _

/-- What comes behind the title of a function: its parameters and its body. -/
theorem functionRest_agree (begin : Nat) (mods : Option Node) (returns title : Node) :
    Agree d (functionRest a begin mods returns title)
      (functionRest b begin mods returns title) := by
  refine .bind advance_steady fun _ => .bind (.separatedOpen (parameter_agree h)) fun _ => ?_
  refine .bind (needed_steady _ _) fun _ => .bind (functionBody_agree h) fun _ => ?_
  exact .bind lastStop_steady fun _ => .pure _

theorem variableRest_agree (begin : Nat) (mods : Option Node) (type title : Node) :
    Agree d (variableRest a begin mods type title) (variableRest b begin mods type title) := by
  refine .bind (initialValue_agree h) fun _ => .bind (needed_steady _ _) fun _ => ?_
  exact .bind lastStop_steady fun _ => .pure _

/-- A declaration is that of a function if a parenthesis opens behind its title. -/
theorem declaration_agree : Agree d (declaration a) (declaration b) := by
  refine .bind here_steady fun begin => .bind kind_steady fun _ => ?_
  refine .bind seesParenthesizedType_steady fun _ => .ite (refuse_steady _) ?_
  refine .bind modifiers_steady fun mods => .bind (sees_steady _) fun _ => ?_
  -- behind modifiers comes `let`, or a type
  refine .ite (letDefinition_agree h begin mods) (.bind h.type fun type => ?_)
  refine .bind declaredName_steady fun title => .bind (sees_steady _) fun _ => ?_
  refine .ite ?_ ?_
  · exact functionRest_agree h begin mods type title
  · exact variableRest_agree h begin mods type title

/-- Members are told apart by their first token, which is the same on both levels. -/
theorem member_agree : Agree d (member a) (member b) := by
  refine .bind kind_steady fun kind => ?_
  split
  · exact includeDirective_steady
  · exact inheritance_steady
  · exact classDefinition_agree h
  · exact emptyStatement_steady
  · exact declaration_agree h

/-! ## Statements -/

theorem expressionStatement_agree : Agree d (expressionStatement a) (expressionStatement b) :=
  .bind h.expression fun _ => .bind (needed_steady _ _) fun _ => .pure _

theorem parenthesizedCondition_agree :
    Agree d (parenthesizedCondition a) (parenthesizedCondition b) := by
  refine .bind (needed_steady _ _) fun _ => .bind h.expression fun _ => ?_
  exact .bind (needed_steady _ _) fun _ => .pure _

theorem otherwise_agree : Agree d (otherwise a) (otherwise b) :=
  .bind (eats_steady _) fun _ => .ite (.bind h.statement fun _ => .pure _) (.pure _)

theorem ifStatement_agree : Agree d (ifStatement a) (ifStatement b) := by
  refine .bind advance_steady fun _ => .bind (parenthesizedCondition_agree h) fun _ => ?_
  refine .bind h.statement fun _ => .bind (otherwise_agree h) fun _ => ?_
  exact .bind lastStop_steady fun _ => .pure _

theorem whileStatement_agree : Agree d (whileStatement a) (whileStatement b) := by
  refine .bind advance_steady fun _ => .bind (parenthesizedCondition_agree h) fun _ => ?_
  exact .bind h.statement fun _ => .bind lastStop_steady fun _ => .pure _

theorem doStatement_agree : Agree d (doStatement a) (doStatement b) := by
  refine .bind advance_steady fun _ => .bind h.statement fun _ => ?_
  refine .bind (expect_steady _ _) fun _ => .bind (parenthesizedCondition_agree h) fun _ => ?_
  exact .bind (needed_steady _ _) fun _ => .bind lastStop_steady fun _ => .pure _

/-- A loop starts with a declaration on its own level, or an expression of the level below. -/
theorem forStart_agree : Agree d (forStart a) (forStart b) := by
  refine .bind (eats_steady _) fun _ => .ite (.pure _) (.bind kind_steady fun _ => ?_)
  refine .ite (.bind (declaration_agree h) fun _ => .pure _) (.bind h.expression fun _ => ?_)
  exact .bind (needed_steady _ _) fun _ => .pure _

/-- Of a loop only the body and the expressions in its head go deeper. -/
theorem forStatement_agree : Agree d (forStatement a) (forStatement b) := by
  refine .bind advance_steady fun _ => .bind (needed_steady _ _) fun _ => ?_
  refine .bind (forStart_agree h) fun _ => .bind (optionalExpression_agree h _) fun _ => ?_
  refine .bind (needed_steady _ _) fun _ => .bind (optionalExpression_agree h _) fun _ => ?_
  refine .bind (needed_steady _ _) fun _ => .bind h.statement fun _ => ?_
  exact .bind lastStop_steady fun _ => .pure _

theorem spanned_agree : Agree d (spanned a) (spanned b) := by
  refine .bind h.expression fun _ => .bind (eats_steady _) fun _ => .ite ?_ (.pure _)
  exact .bind h.expression fun _ => .pure _

/-- The variable of a loop over items may also be any expression. -/
theorem foreachStatement_agree : Agree d (foreachStatement a) (foreachStatement b) := by
  have hbinding : Agree d (foreachBinding a) (foreachBinding b) :=
    .bind kind_steady fun _ => .ite (bareVariable_agree h) h.expression
  refine .bind advance_steady fun _ => .bind (needed_steady _ _) fun _ => ?_
  refine .bind hbinding fun _ => .bind (needed_steady _ _) fun _ => ?_
  refine .bind (spanned_agree h) fun _ => .bind (needed_steady _ _) fun _ => ?_
  exact .bind h.statement fun _ => .bind lastStop_steady fun _ => .pure _

/-- The statements of a case go on until the next label. -/
theorem labelledCase_agree : Agree d (labelledCase a) (labelledCase b) := by
  have hvalues : ∀ word, Agree d (caseValues a word) (caseValues b word) :=
    fun _ => .ite (.bind (spanned_agree h) fun _ => .pure _) (.pure _)
  refine .bind advance_steady fun word => .bind (hvalues word) fun _ => ?_
  refine .bind (needed_steady _ _) fun _ => .bind (.manyUntil (.guarded h.statement)) fun _ => ?_
  exact .bind lastStop_steady fun _ => .pure _

/-- What is no case in the braces of a switch is a hole. -/
theorem switchStatement_agree : Agree d (switchStatement a) (switchStatement b) := by
  -- one case, or a token that starts none
  have hcase : Agree d (switchCase a) (switchCase b) := by
    refine .bind kind_steady fun kind => ?_
    split
    · exact labelledCase_agree h
    · exact labelledCase_agree h
    · exact wrongCurrent_steady _
  -- without braces there are no cases at all
  have hbody : Agree d (switchBody a) (switchBody b) := by
    refine .bind (expect_steady _ _) fun _ => .ite (.pure _) (.bind (.manyUntil hcase) fun _ => ?_)
    exact .bind (needed_steady _ _) fun _ => .pure _
  refine .bind advance_steady fun _ => .bind (parenthesizedCondition_agree h) fun _ => ?_
  exact .bind hbody fun _ => .bind lastStop_steady fun _ => .pure _

theorem handlerVariable_agree : Agree d (handlerVariable a) (handlerVariable b) := by
  refine .bind (eats_steady _) fun _ => .ite (.bind (bareVariable_agree h) fun _ => ?_) (.pure _)
  exact .bind (needed_steady _ _) fun _ => .pure _

/-- Where there is no handler a hole stands for it. -/
theorem tryStatement_agree : Agree d (tryStatement a) (tryStatement b) := by
  refine .bind advance_steady fun _ => .bind h.statement fun _ => ?_
  refine .bind (eats_steady _) fun _ => .ite ?_ ?_
  · refine .bind (handlerVariable_agree h) fun _ => .bind h.statement fun _ => ?_
    exact .bind lastStop_steady fun _ => .pure _
  · exact .bind (hole_steady _) fun _ => .bind lastStop_steady fun _ => .pure _

theorem returnStatement_agree : Agree d (returnStatement a) (returnStatement b) := by
  refine .bind advance_steady fun _ => .bind (optionalExpression_agree h _) fun _ => ?_
  exact .bind (needed_steady _ _) fun _ => .bind lastStop_steady fun _ => .pure _

/-- Statements are told apart by their first token, which is the same on both levels. -/
theorem statement_agree : Agree d (statement a) (statement b) := by
  refine .bind kind_steady fun kind => ?_
  split
  · exact block_agree h
  · exact ifStatement_agree h
  · exact whileStatement_agree h
  · exact doStatement_agree h
  · exact forStatement_agree h
  · exact foreachStatement_agree h
  · exact switchStatement_agree h
  · exact tryStatement_agree h
  · exact returnStatement_agree h
  · exact wordStatement_steady _
  · exact wordStatement_steady _
  · exact emptyStatement_steady
  · exact member_agree h
  · exact .ite (declaration_agree h) (expressionStatement_agree h)

omit h in
/-- Read one level deeper, productions that agree there agree. Only a level that the depth
allows counts. -/
theorem Agree.nested_of_lt {p q : Parse Node} (e : Expected)
    (h : d < maxDepth → Agree (d + 1) p q) : Agree d (Parse.nested e p) (Parse.nested e q) := by
  intro c hc
  by_cases hd : maxDepth ≤ c.depth
  · -- too deep, so neither production is read
    rw [nested_refused e hd, nested_refused e hd]
    exact refuse_steady e c hc
  · obtain ⟨hpq, hback⟩ := h (by omega) { c with depth := c.depth + 1 } (by simp [hc])
    rw [nested_read e hd, nested_read e hd, ← hpq]
    exact ⟨rfl, by simp [hback]⟩

omit h in
theorem Agree.nested {p q : Parse Node} (e : Expected) (h : Agree (d + 1) p q) :
    Agree d (Parse.nested e p) (Parse.nested e q) := .nested_of_lt e fun _ => h

end Parse

namespace Nested

variable {d : Nat} {a b : Nested}

/-- Levels above those that agree one level deeper agree. -/
theorem Agree.above (h : Nested.Agree (d + 1) a b) : Nested.Agree d a.above b.above where
  statement := .nested _ (statement_agree h)
  member := .nested _ (member_agree h)
  expression := .nested _ (expression_agree h)
  alternative := .nested _ (alternative_agree h)
  operand loosest := .nested _ (operand_agree h loosest)
  unary := .nested _ (unary_agree h)
  type := .nested _ (type_agree h)

/-- Levels that agree at every depth are the same. -/
theorem Agree.eq (h : ∀ d, Nested.Agree d a b) : a = b := by
  -- a cursor has some depth, so there is nothing left in which productions could differ
  have hfun : ∀ {p q : Parse Node}, (∀ d, Parse.Agree d p q) → p = q :=
    fun hpq => funext fun c => (hpq c.depth c rfl).1
  cases a with
  | mk statement member expression alternative operand unary type =>
    cases b with
    | mk statement' member' expression' alternative' operand' unary' type' =>
      rw [Nested.mk.injEq]
      exact ⟨hfun fun d => (h d).statement, hfun fun d => (h d).member,
        hfun fun d => (h d).expression, hfun fun d => (h d).alternative,
        funext fun loosest => hfun fun d => (h d).operand loosest, hfun fun d => (h d).unary,
        hfun fun d => (h d).type⟩

/-- Where the depth is that of all levels, there are only holes on any level. -/
theorem none_agree (hd : maxDepth ≤ d) : Nested.Agree d .none (above .none) := by
  -- at this depth every production of the upper levels is refused as well
  have h : ∀ e p, Parse.Agree d (refuse e) (Parse.nested e p) := by
    intro e p c hc
    exact ⟨(nested_refused e (hc.symm ▸ hd)).symm, (refuse_steady e c hc).2⟩
  exact ⟨h _ _, h _ _, h _ _, h _ _, fun _ => h _ _, h _ _, h _ _⟩

/-- One level more changes nothing where the levels reach down to the greatest depth. -/
theorem levels_agree (n : Nat) :
    ∀ d, maxDepth ≤ d + n → Nested.Agree d (levels n) (levels (n + 1)) := by
  induction n with
  | zero => exact fun d hd => none_agree hd
  | succ n ih =>
    -- one level less below, but one level deeper
    exact fun d hd => .above (ih (d + 1) (by omega))

/-- **The grammar satisfies its own recursion.** With as many levels as there are depths, the
productions are those one level above themselves, so it is the depth that ends a recursion
and never the number of levels. -/
theorem above_levels : (levels maxDepth).above = levels maxDepth :=
  .symm (Agree.eq fun d => levels_agree maxDepth d (Nat.le_add_left _ _))

end Nested

end MudEdit
