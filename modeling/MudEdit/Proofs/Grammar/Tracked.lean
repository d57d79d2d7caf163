import MudEdit.Grammar.Levels
import MudEdit.Proofs.Grammar.Tracks

/-!
# Where tokens stand decides nothing

Every production tracks itself over tokens that have been moved and over tokens that more
tokens follow. So offsets never leak into what a production does: they are compared nowhere,
and what a production makes of its tokens moves as they do.
-/

namespace MudEdit

open Parse

/-- The productions of the one level track those of the other one. -/
structure Nested.Alike (φ : Relocation) (s : Setting φ) (a b : Nested) : Prop where
  statement : Parse.Tracks φ s (Node.relocate φ) a.statement b.statement
  member : Parse.Tracks φ s (Node.relocate φ) a.member b.member
  expression : Parse.Tracks φ s (Node.relocate φ) a.expression b.expression
  alternative : Parse.Tracks φ s (Node.relocate φ) a.alternative b.alternative
  operand : ∀ loosest, Parse.Tracks φ s (Node.relocate φ) (a.operand loosest) (b.operand loosest)
  unary : Parse.Tracks φ s (Node.relocate φ) a.unary b.unary
  type : Parse.Tracks φ s (Node.relocate φ) a.type b.type

/-- The productions of the level track themselves. -/
abbrev Nested.Tracks (φ : Relocation) (s : Setting φ) (below : Nested) : Prop :=
  Nested.Alike φ s below below

namespace Parse

variable {φ : Relocation} {s : Setting φ}

/-- What is made of nodes that are moved is the node moved. -/
abbrev TracksNode (φ : Relocation) (s : Setting φ) (p q : Parse Node) : Prop :=
  Tracks φ s (Node.relocate φ) p q

/-- The same for a production that starts with a token. -/
abbrev BeginsNode (φ : Relocation) (s : Setting φ) (p q : Parse Node) : Prop :=
  Begins φ s (Node.relocate φ) p q

/-- The same for several constructs. -/
abbrev TracksNodes (φ : Relocation) (s : Setting φ) (p q : Parse (List Node)) : Prop :=
  Tracks φ s (List.map (Node.relocate φ)) p q

/-- The same for a construct that may be lacking. -/
abbrev TracksOption (φ : Relocation) (s : Setting φ) (p q : Parse (Option Node)) :
    Prop :=
  Tracks φ s (Option.map (Node.relocate φ)) p q

/-! ## Holes -/

/-- A wrong token is taken, and moved with the hole that is made of it. -/
theorem wrongCurrent_begins (e : Expected) :
    BeginsNode φ s (wrongCurrent e) (wrongCurrent e) := ⟨_, _, rfl, rfl, fun _ => .pure rfl⟩

theorem wrongCurrent_tracks (e : Expected) :
    TracksNode φ s (wrongCurrent e) (wrongCurrent e) := (wrongCurrent_begins e).tracks

/-- A missing construct is noted behind the last token, which has been moved like the others. -/
theorem hole_tracks (e : Expected) : TracksNode φ s (hole e) (hole e) :=
  .look kind_tracks fun _ =>
    .ite (.bind lastStop_tracks fun _ => .pure rfl) (wrongCurrent_tracks e)

/-- Whether there is anything to refuse is seen from the kind of the next token. -/
theorem refuse_tracks (e : Expected) : TracksNode φ s (refuse e) (refuse e) :=
  .look atEnd_tracks fun _ =>
    .ite (.bind lastStop_tracks fun _ => .pure rfl) (wrongCurrent_tracks e)

/-- Whether a token was found does not move, while the holes do. -/
theorem expect_tracks (k : TokenKind) (e : Expected) :
    Tracks φ s (Prod.map id (List.map (Node.relocate φ))) (expect k e) (expect k e) := by
  refine .look (eats_tracks k) fun _ => .ite (.pure rfl) (.bind (hole_tracks e) fun h => ?_)
  -- a hole is missing or wrong also after it was moved
  rw [Node.isMissing_relocate]
  exact .ite (.pure rfl) (.look (eats_tracks k) fun _ => .pure rfl)

/-- One lemma for all the tokens that constructs need. -/
theorem needed_tracks (k : TokenKind) (e : Expected) :
    TracksNodes φ s (do return (← expect k e).2) (do return (← expect k e).2) :=
  .bind (expect_tracks k e) fun _ => .pure rfl

/-- A production that is guarded takes a token more in both readings or in neither. -/
theorem Tracks.guarded {p q : Parse Node} (h : TracksNode φ s p q) :
    TracksNode φ s (Parse.guarded p) (Parse.guarded q) := by
  refine .bind left_tracks fun before => .bind h fun node => .look atEnd_tracks fun _ => ?_
  refine .bind left_tracks fun after => ?_
  -- what follows adds as many tokens before the turn as after it
  have hne : (after + s.extra != before + s.extra) = (after != before) := by
    rw [Bool.eq_iff_iff, bne_iff_ne, bne_iff_ne]
    omega
  rw [hne]
  refine .ite (.pure rfl) (.bind (wrongCurrent_tracks _) fun _ => .pure ?_)
  rw [Node.relocate_combine]
  rfl

/-! ## Names and strings -/

@[simp] theorem relocate_nameNode (t : Token) :
    (nameNode t).relocate φ = nameNode (t.relocate φ) := by
  simp [nameNode]

theorem name_tracks : TracksNode φ s name name := by
  refine .bind (eat?_tracks _) fun t => ?_
  cases t with
  | none => exact hole_tracks _
  | some t => exact .pure (relocate_nameNode t).symm

/-- The parts move, and so does where the first of them begins. -/
theorem strings_tracks : TracksNode φ s strings strings := by
  have hliteral : TracksNode φ s stringLiteral stringLiteral :=
    .bind advance_tracks fun _ => .pure (by simp)
  refine .bind (.manyUntil hliteral) fun parts => ?_
  rcases parts with _ | ⟨first, _ | ⟨second, rest⟩⟩
  · exact .bind lastStop_tracks fun _ => .pure (by simp)
  · exact .pure rfl
  · exact .bind lastStop_tracks fun _ => .pure (by simp)

theorem path_tracks : TracksNode φ s path path :=
  .look (sees_tracks _) fun _ => .ite strings_tracks (hole_tracks _)

/-- Only where a parenthesis opens does the token behind it count. -/
theorem seesParenthesizedType_tracks :
    Tracks φ s id seesParenthesizedType seesParenthesizedType := by
  refine Tracks.peek
    (f := fun k next => Pure.pure (k == .sign .leftParen && next.isTypeWord))
    (g := fun k next => Pure.pure (k == .sign .leftParen && next.isTypeWord))
    (fun _ _ _ => .pure rfl) fun k _ _ hk => .pure ?_
  -- another token decides alone, so the second one may be a different one behind the end
  have hne : (k == .sign .leftParen) = false := beq_eq_false_iff_ne.mpr (by rintro rfl; cases hk)
  rw [hne]
  rfl

/-! ## Types -/

/-- The file of a type is a text, which does not move, and its holes do. -/
theorem typeFile_tracks (basic : BasicKind) :
    Tracks φ s (Prod.map id (List.map (Node.relocate φ))) (typeFile basic) (typeFile basic) := by
  refine .ite (.pure rfl) (.look (eats_tracks _) fun _ => .ite (.pure rfl) ?_)
  refine .bind path_tracks fun file => .bind (expect_tracks _ _) fun p => ?_
  simp only [Node.stringValue?_relocate]
  split <;> exact .pure rfl

section

variable {a b : Nested} (h : Nested.Alike φ s a b)
include h

/-- Parentheses around a type leave no trace but their holes. -/
theorem parenthesizedType_begins : BeginsNode φ s
    (do let _ ← advance
        let inner ← a.type
        return inner.combine (← closeParen))
    (do let _ ← advance
        let inner ← b.type
        return inner.combine (← closeParen)) := by
  refine ⟨_, _, rfl, rfl, fun _ => .bind h.type fun inner => ?_⟩
  exact .bind (needed_tracks _ _) fun _ => .pure (by simp)

omit h in
/-- A word for a type is found where it was moved to. -/
theorem basicType_begins (basic : BasicKind) : BeginsNode φ s
    (do let word ← advance
        let (file, holes) ← typeFile basic
        return (Node.new word.begin (← lastStop) (.basicType basic file)).combine holes)
    (do let word ← advance
        let (file, holes) ← typeFile basic
        return (Node.new word.begin (← lastStop) (.basicType basic file)).combine holes) := by
  refine ⟨_, _, rfl, rfl, fun _ => .bind (typeFile_tracks _) fun file => ?_⟩
  exact .bind lastStop_tracks fun _ => .pure (by simp)

theorem typeAtom_tracks : TracksNode φ s (typeAtom a) (typeAtom b) := by
  refine .look kind_tracks fun kind => ?_
  split
  · exact (parenthesizedType_begins h).tracks
  · exact (basicType_begins _).tracks
  · exact hole_tracks _

/-- A function type begins where its result type does, which is moved. -/
theorem functionSuffix_tracks (returns : Node) : TracksNode φ s
    (functionSuffix a returns) (functionSuffix b (returns.relocate φ)) := by
  refine .bind advance_tracks fun _ => .bind (.separatedOpen h.type) fun _ => ?_
  refine .bind (needed_tracks _ _) fun _ => .bind lastStop_tracks fun _ => .pure (by simp)

/-- What may follow a type is found by two tokens, of which the second counts for brackets only. -/
theorem typeSuffix_tracks (type : Node) : TracksOption φ s
    (typeSuffix a type) (typeSuffix b (type.relocate φ)) := by
  unfold typeSuffix
  rw [Node.canGrow_relocate]
  -- the two spellings of an array make the same construct
  have hstar : TracksOption φ s
      (do let _ ← advance; return some (.new type.begin (← lastStop) (.arrayType type)))
      (do let _ ← advance; return some (.new (type.relocate φ).begin (← lastStop)
        (.arrayType (type.relocate φ)))) :=
    .bind advance_tracks fun _ => .bind lastStop_tracks fun _ => .pure (by simp)
  refine .ite (.pure rfl) (Tracks.peek (fun k next _ => ?_) fun k next next' hk => ?_)
  · split
    · exact .bind advance_tracks fun _ => hstar
    · exact hstar
    · exact .bind (functionSuffix_tracks h type) fun _ => .pure rfl
    · exact .pure rfl
  · split
    · cases hk
    · exact hstar
    · cases hk
    · rename_i hnostar _ _
      split
      · cases hk
      · exact (hnostar rfl).elim
      · cases hk
      · exact .pure rfl

theorem suffixedType_tracks : TracksNode φ s (suffixedType a) (suffixedType b) :=
  .bind (typeAtom_tracks h) (.chain (typeSuffix_tracks h))

/-- Two types joined by a bar begin where the first of them does. -/
theorem typeAlternative_tracks (type : Node) : TracksOption φ s
    (typeAlternative a type) (typeAlternative b (type.relocate φ)) := by
  unfold typeAlternative
  rw [Node.canGrow_relocate]
  refine .ite (.pure rfl) (.look (eats_tracks _) fun _ => .ite ?_ (.pure rfl))
  exact .bind (suffixedType_tracks h) fun _ => .pure (by simp)

theorem type_tracks : TracksNode φ s (type a) (type b) :=
  .bind (suffixedType_tracks h) (.chain (typeAlternative_tracks h))

/-! ## Operands -/

/-- Each of the arguments moves on its own. -/
theorem arguments_tracks (closer : Sign) :
    TracksNodes φ s (arguments a closer) (arguments b closer) := .separated h.expression

/-- Whether there is an expression is seen from the kind of the next token. -/
theorem optionalExpression_tracks (without : Sign) : TracksOption φ s
    (optionalExpression a without) (optionalExpression b without) :=
  .look (sees_tracks _) fun _ => .ite (.pure rfl) (.bind h.expression fun _ => .pure rfl)

omit h in
/-- A link of a chain begins with the scope before it, if there is one. -/
theorem scopeLink_tracks (scope : Option Node) : TracksNode φ s
    (scopeLink scope) (scopeLink (scope.map (Node.relocate φ))) := by
  refine .bind advance_tracks fun _ => .bind name_tracks fun _ => .bind lastStop_tracks fun _ => ?_
  cases scope <;> exact .pure (by simp)

omit h in
/-- A chain grows from a name that was moved. -/
theorem scopedName_tracks : TracksNode φ s scopedName scopedName := by
  have hs : ∀ n, TracksOption φ s (scopeSuffix n) (scopeSuffix (n.relocate φ)) := by
    intro n
    unfold scopeSuffix
    rw [Node.canGrow_relocate]
    refine .look (sees_tracks _) fun _ => .ite ?_ (.pure rfl)
    exact .bind (scopeLink_tracks (some n)) fun _ => .pure rfl
  refine .bind (eat?_tracks _) fun t => ?_
  cases t with
  | none => exact .bind (scopeLink_tracks none) (.chain hs)
  | some t =>
    have hname := Tracks.chain hs (nameNode t)
    rwa [relocate_nameNode] at hname

/-- Parentheses leave nothing but their holes, which move. -/
theorem parenthesized_tracks : TracksNode φ s (parenthesized a) (parenthesized b) := by
  refine .bind advance_tracks fun _ => .bind h.expression fun _ => ?_
  exact .bind (needed_tracks _ _) fun _ => .pure (by simp)

theorem arrayLiteral_tracks : TracksNode φ s (arrayLiteral a) (arrayLiteral b) := by
  refine .bind advance_tracks fun _ => .bind (arguments_tracks h _) fun _ => ?_
  refine .bind (needed_tracks _ _) fun _ => .bind (needed_tracks _ _) fun _ => ?_
  exact .bind lastStop_tracks fun _ => .pure (by simp)

/-- An entry reaches from its key to its value, both of which are moved. -/
theorem mappingEntry_tracks : TracksNode φ s (mappingEntry a) (mappingEntry b) := by
  refine .bind h.expression fun _ => .bind (needed_tracks _ _) fun _ => ?_
  exact .bind h.expression fun _ => .pure (by simp)

theorem mappingLiteral_tracks :
    TracksNode φ s (mappingLiteral a) (mappingLiteral b) := by
  refine .bind advance_tracks fun _ => .bind (.separated (mappingEntry_tracks h)) fun _ => ?_
  refine .bind (needed_tracks _ _) fun _ => .bind (needed_tracks _ _) fun _ => ?_
  exact .bind lastStop_tracks fun _ => .pure (by simp)

theorem newTarget_tracks : TracksNode φ s (newTarget a) (newTarget b) :=
  .look kind_tracks fun _ => .ite h.type h.expression

theorem newArguments_tracks : TracksNodes φ s (newArguments a) (newArguments b) :=
  .look (eats_tracks _) fun _ => .ite (arguments_tracks h _) (.pure rfl)

theorem newValue_tracks : TracksNode φ s (newValue a) (newValue b) := by
  refine .bind advance_tracks fun _ => .bind (needed_tracks _ _) fun _ => ?_
  refine .bind (newTarget_tracks h) fun _ => .bind (newArguments_tracks h) fun _ => ?_
  exact .bind (needed_tracks _ _) fun _ => .bind lastStop_tracks fun _ => .pure (by simp)

omit h in
/-- A construct of one token has no parts that could move. -/
theorem relocate_literal {t : Token} {construct : NodeKind} (h : literal? t = some construct) :
    construct.relocate φ = construct := by
  unfold literal? at h
  split at h <;> first
    | (injection h with h; subst h; rfl)
    | (injection h with h; subst h; split <;> rfl)
    | exact absurd h (by simp)

omit h in
/-- What a token means on its own is not changed by moving it. -/
theorem atom_tracks : TracksNode φ s atom atom := by
  refine .bind current_tracks fun t => ?_
  -- a token keeps its kind and what it stands for
  have hliteral : literal? (t.relocate φ) = literal? t := rfl
  rw [hliteral]
  split
  · rename_i construct hconstruct
    exact .bind advance_tracks fun _ => .pure (by simp [relocate_literal hconstruct])
  · exact hole_tracks _

theorem primary_tracks : TracksNode φ s (primary a) (primary b) := by
  refine .look kind_tracks fun kind => ?_
  split
  · exact scopedName_tracks
  · exact scopedName_tracks
  · exact strings_tracks
  · exact parenthesized_tracks h
  · exact arrayLiteral_tracks h
  · exact mappingLiteral_tracks h
  · exact newValue_tracks h
  · exact atom_tracks

/-- A call begins where its function does, which is moved. -/
theorem callSuffix_tracks (callee : Node) :
    TracksNode φ s (callSuffix a callee) (callSuffix b (callee.relocate φ)) := by
  refine .bind advance_tracks fun _ => .bind (arguments_tracks h _) fun _ => ?_
  exact .bind (needed_tracks _ _) fun _ => .bind lastStop_tracks fun _ => .pure (by simp)

/-- A range begins where the first token of it was moved to. -/
theorem subscriptIndex_tracks :
    TracksNode φ s (subscriptIndex a) (subscriptIndex b) := by
  refine .bind here_tracks fun begin => .bind (optionalExpression_tracks h _) fun lower => ?_
  refine .look (eats_tracks _) fun isRange => ?_
  have hrange : TracksNode φ s
      (do let upper ← optionalExpression a .rightBracket
          return .new begin (← lastStop) (.range lower upper))
      (do let upper ← optionalExpression b .rightBracket
          return .new (φ.move begin) (← lastStop)
            (.range (lower.map (Node.relocate φ)) upper)) :=
    .bind (optionalExpression_tracks h _) fun _ => .bind lastStop_tracks fun _ => .pure (by simp)
  cases lower <;> cases isRange <;> first | exact .pure rfl | exact hrange

theorem subscriptSuffix_tracks (target : Node) : TracksNode φ s
    (subscriptSuffix a target) (subscriptSuffix b (target.relocate φ)) := by
  refine .bind advance_tracks fun _ => .bind (subscriptIndex_tracks h) fun _ => ?_
  exact .bind (needed_tracks _ _) fun _ => .bind lastStop_tracks fun _ => .pure (by simp)

omit h in
/-- The name of a member is found behind its receiver, wherever that is. -/
theorem memberSuffix_tracks (access : Access) (receiver : Node) : TracksNode φ s
    (memberSuffix access receiver) (memberSuffix access (receiver.relocate φ)) :=
  .bind advance_tracks fun _ => .bind name_tracks fun _ => .bind lastStop_tracks fun _ =>
    .pure (by simp)

omit h in
theorem trailingOperator_tracks (op : UnaryOp) (operand : Node) : TracksNode φ s
    (trailingOperator op operand) (trailingOperator op (operand.relocate φ)) :=
  .bind advance_tracks fun _ => .pure (by simp)

/-- Which suffix follows a value is seen from the kind of the next token. -/
theorem suffix_tracks (target : Node) :
    TracksOption φ s (suffix a target) (suffix b (target.relocate φ)) := by
  unfold suffix
  rw [Node.canGrow_relocate]
  refine .ite (.pure rfl) (.look kind_tracks fun kind => ?_)
  split
  · exact .map (callSuffix_tracks h target) fun _ => rfl
  · exact .map (subscriptSuffix_tracks h target) fun _ => rfl
  · exact .map (memberSuffix_tracks _ target) fun _ => rfl
  · exact .map (memberSuffix_tracks _ target) fun _ => rfl
  · exact .map (trailingOperator_tracks _ target) fun _ => rfl
  · exact .map (trailingOperator_tracks _ target) fun _ => rfl
  · exact .pure rfl

theorem castOperand_tracks : TracksNode φ s (castOperand a) (castOperand b) := by
  refine .bind advance_tracks fun _ => .bind h.type fun _ => ?_
  exact .bind (needed_tracks _ _) fun _ => .bind h.unary fun _ => .pure (by simp)

theorem unary_tracks : TracksNode φ s (unary a) (unary b) := by
  refine .look kind_tracks fun kind => ?_
  split
  · exact .bind advance_tracks fun _ => .bind h.unary fun _ => .pure (by simp)
  · refine .look seesParenthesizedType_tracks fun _ => .ite (castOperand_tracks h) ?_
    exact .bind (primary_tracks h) (.chain (suffix_tracks h))

/-! ## Expressions -/

omit h in
@[simp] theorem relocate_operation (op : BinaryOp) (lhs rhs : Node) :
    (operation op lhs rhs).relocate φ = operation op (lhs.relocate φ) (rhs.relocate φ) := by
  simp [operation]

/-- A test of a type begins where its value does, which is moved. -/
theorem typeTestSuffix_tracks (value : Node) : TracksOption φ s
    (typeTestSuffix a value) (typeTestSuffix b (value.relocate φ)) := by
  unfold typeTestSuffix
  rw [Node.canGrow_relocate]
  refine .ite (.pure rfl) (.look (eats_tracks _) fun _ => .ite ?_ (.pure rfl))
  exact .bind h.type fun _ => .pure (by simp)

/-- An operation reaches from one operand to the other, both of which are moved. -/
theorem operatorSuffix_tracks (loosest : Nat) (lhs : Node) : TracksOption φ s
    (operatorSuffix a loosest lhs) (operatorSuffix b loosest (lhs.relocate φ)) := by
  unfold operatorSuffix
  rw [Node.canGrow_relocate]
  refine .look kind_tracks fun kind => ?_
  split
  · refine .ite (.bind advance_tracks fun _ => ?_) (.pure rfl)
    exact .bind (h.operand _) fun _ => .pure (by simp)
  · exact .pure rfl

theorem operand_tracks (loosest : Nat) :
    TracksNode φ s (operand a loosest) (operand b loosest) := by
  have htest : TracksNode φ s (typeTest a) (typeTest b) :=
    .bind h.unary (.chain (typeTestSuffix_tracks h))
  exact .bind htest (.chain (operatorSuffix_tracks h loosest))

/-- So does a choice between two values. -/
theorem alternative_tracks : TracksNode φ s (alternative a) (alternative b) := by
  refine .bind (operand_tracks h _) fun _ => .look (eats_tracks _) fun _ => .ite ?_ (.pure rfl)
  refine .bind h.expression fun _ => .bind (needed_tracks _ _) fun _ => ?_
  exact .bind h.alternative fun _ => .pure (by simp)

/-- And so does an assignment. -/
theorem expression_tracks : TracksNode φ s (expression a) (expression b) := by
  refine .bind (alternative_tracks h) fun target => .look kind_tracks fun kind => ?_
  split
  · refine .ite (.bind advance_tracks fun _ => ?_) (.pure rfl)
    exact .bind h.expression fun _ => .pure (by simp)
  · exact .pure rfl

/-! ## Declarations -/

omit h in
theorem emptyStatement_begins : BeginsNode φ s emptyStatement emptyStatement :=
  ⟨_, _, rfl, rfl, fun _ => .pure (by simp)⟩

omit h in
theorem includeDirective_begins : BeginsNode φ s includeDirective includeDirective :=
  ⟨_, _, rfl, rfl, fun _ => .bind path_tracks fun _ => .pure (by simp)⟩

omit h in
theorem inheritance_begins : BeginsNode φ s inheritance inheritance := by
  refine ⟨_, _, rfl, rfl, fun _ => .bind path_tracks fun _ => ?_⟩
  exact .bind (needed_tracks _ _) fun _ => .bind lastStop_tracks fun _ => .pure (by simp)

/-- Members move one by one, and a semicolon behind them leaves no trace. -/
theorem classBody_tracks : Tracks φ s
    (Prod.map (List.map (Node.relocate φ)) (List.map (Node.relocate φ)))
    (classBody a) (classBody b) := by
  refine .bind (expect_tracks _ _) fun _ => .ite (.pure rfl) ?_
  refine .bind (.manyUntil (.guarded h.member)) fun _ => .bind (needed_tracks _ _) fun _ => ?_
  exact .look (eats_tracks _) fun _ => .pure (by simp)

theorem classDefinition_begins :
    BeginsNode φ s (classDefinition a) (classDefinition b) := by
  refine ⟨_, _, rfl, rfl, fun _ => .bind name_tracks fun _ => .look (sees_tracks _) fun _ => ?_⟩
  refine .ite ?_ (.bind (classBody_tracks h) fun _ => .bind lastStop_tracks fun _ =>
    .pure (by simp))
  refine .bind strings_tracks fun _ => .bind (needed_tracks _ _) fun _ => ?_
  exact .bind lastStop_tracks fun _ => .pure (by simp)

omit h in
theorem modifier_begins : Begins φ s id modifier modifier := by
  refine ⟨_, _, rfl, rfl, fun t => ?_⟩
  rw [Token.kind_relocate]
  split <;> exact .pure rfl

omit h in
/-- Modifiers are words, which do not move, in a construct that does. -/
theorem modifiers_tracks : TracksOption φ s modifiers modifiers := by
  refine .bind here_tracks fun _ => .bind (.manyUntil modifier_begins.tracks) fun words => ?_
  -- what is gathered are words, and there are none of them in both readings or in neither
  rw [List.map_id]
  exact .ite (.pure rfl) (.bind lastStop_tracks fun _ => .pure (by simp))

theorem initialValue_tracks : TracksOption φ s (initialValue a) (initialValue b) :=
  .look (eats_tracks _) fun _ => .ite (.bind h.expression fun _ => .pure rfl) (.pure rfl)

/-- Only where there is a colon does the token behind it count. -/
theorem annotatedType_tracks (certain : Bool) :
    TracksOption φ s (annotatedType a certain) (annotatedType b certain) := by
  have htype : TracksOption φ s (do let _ ← advance; return some (← a.type))
      (do let _ ← advance; return some (← b.type)) :=
    .bind advance_tracks fun _ => .bind h.type fun _ => .pure rfl
  refine Tracks.peek
    (f := fun k next => if (k == .sign .colon && (certain || next.isTypeWord)) = true
      then (do let _ ← advance; return some (← a.type)) else Pure.pure none)
    (g := fun k next => if (k == .sign .colon && (certain || next.isTypeWord)) = true
      then (do let _ ← advance; return some (← b.type)) else Pure.pure none)
    (fun _ _ _ => .ite htype (.pure rfl)) fun k _ _ hk => ?_
  -- without a colon the token after the current one is not looked at
  have hne : (k == .sign .colon) = false := beq_eq_false_iff_ne.mpr (by rintro rfl; cases hk)
  rw [hne]
  exact .pure rfl

/-- A variable begins with its modifiers, if it has any, and these are moved. -/
theorem letDefinition_begins (begin : Nat) (mods : Option Node) : BeginsNode φ s
    (letDefinition a begin mods)
    (letDefinition b (φ.move begin) (mods.map (Node.relocate φ))) := by
  refine ⟨_, _, rfl, rfl, fun _ => .bind name_tracks fun _ => ?_⟩
  refine .bind (annotatedType_tracks h _) fun _ => .bind (initialValue_tracks h) fun _ => ?_
  exact .bind (needed_tracks _ _) fun _ => .bind lastStop_tracks fun _ => .pure (by simp)

/-- A variable ends with its last token, whichever of its forms it has. -/
theorem bareVariable_tracks : TracksNode φ s (bareVariable a) (bareVariable b) := by
  refine .bind here_tracks fun _ => .look (eats_tracks _) fun _ => .ite ?_ ?_
  · refine .bind name_tracks fun _ => .bind (annotatedType_tracks h _) fun _ => ?_
    exact .bind lastStop_tracks fun _ => .pure (by simp)
  · refine .bind h.type fun _ => .bind name_tracks fun _ => ?_
    exact .bind lastStop_tracks fun _ => .pure (by simp)

omit h in
/-- The second sign of an operator's name follows from the first, which is a kind. -/
theorem operatorCloser_tracks (k : TokenKind) :
    Tracks φ s (Prod.map id (List.map (Node.relocate φ))) (operatorCloser k)
      (operatorCloser k) := by
  unfold operatorCloser
  split
  · exact .bind (expect_tracks _ _) fun _ => .pure rfl
  · exact .pure rfl

omit h in
/-- The name of an operator is made of kinds, so it is the same where it was moved to. -/
theorem declaredName_tracks : TracksNode φ s declaredName declaredName := by
  refine .bind (eat?_tracks _) fun word => ?_
  cases word with
  | none => exact name_tracks
  | some word =>
    refine .look kind_tracks fun kind => .ite (hole_tracks _) ?_
    refine .bind advance_tracks fun _ => .bind (operatorCloser_tracks kind) fun _ => ?_
    exact .bind lastStop_tracks fun _ => .pure (by simp)

/-- A parameter need not have a name, and either way it ends with its last token. -/
theorem parameter_tracks : TracksNode φ s (parameter a) (parameter b) := by
  refine .bind here_tracks fun _ => .look kind_tracks fun _ => ?_
  refine .look seesParenthesizedType_tracks fun _ => .ite (hole_tracks _) ?_
  refine .bind h.type fun _ => .bind (eat?_tracks _) fun title => ?_
  refine .bind lastStop_tracks fun _ => ?_
  cases title <;> exact .pure (by simp)

theorem block_tracks : TracksNode φ s (block a) (block b) := by
  refine .bind advance_tracks fun _ => .bind (.manyUntil (.guarded h.statement)) fun _ => ?_
  exact .bind (needed_tracks _ _) fun _ => .bind lastStop_tracks fun _ => .pure (by simp)

/-- A node that may be there, moved, and holes moved. -/
theorem functionBody_tracks : Tracks φ s
    (Prod.map (Option.map (Node.relocate φ)) (List.map (Node.relocate φ)))
    (functionBody a) (functionBody b) := by
  refine .look (sees_tracks _) fun _ => .ite (.bind (block_tracks h) fun _ => .pure rfl) ?_
  exact .bind (needed_tracks _ _) fun _ => .pure rfl

/-- A function is made of a title and a type that were moved before. -/
theorem functionRest_tracks (begin : Nat) (mods : Option Node) (returns title : Node) :
    TracksNode φ s (functionRest a begin mods returns title)
      (functionRest b (φ.move begin) (mods.map (Node.relocate φ)) (returns.relocate φ)
        (title.relocate φ)) := by
  refine .bind advance_tracks fun _ => .bind (.separatedOpen (parameter_tracks h)) fun _ => ?_
  refine .bind (needed_tracks _ _) fun _ => .bind (functionBody_tracks h) fun _ => ?_
  exact .bind lastStop_tracks fun _ => .pure (by simp)

/-- So is a variable. -/
theorem variableRest_tracks (begin : Nat) (mods : Option Node) (type title : Node) :
    TracksNode φ s (variableRest a begin mods type title)
      (variableRest b (φ.move begin) (mods.map (Node.relocate φ)) (type.relocate φ)
        (title.relocate φ)) := by
  refine .bind (initialValue_tracks h) fun _ => .bind (needed_tracks _ _) fun _ => ?_
  exact .bind lastStop_tracks fun _ => .pure (by simp)

/-- A declaration after its type. -/
def typedDeclaration (below : Nested) (begin : Nat) (mods : Option Node) (type : Node) :
    Parse Node := do
  let title ← declaredName
  if ← sees (.sign .leftParen) then functionRest below begin mods type title
  else variableRest below begin mods type title

/-- A declaration after its modifiers. -/
def declared (below : Nested) (begin : Nat) (mods : Option Node) : Parse Node := do
  if ← sees (.keyword .letWord) then letDefinition below begin mods
  else typedDeclaration below begin mods (← below.type)

theorem typedDeclaration_tracks (begin : Nat) (mods : Option Node) (type : Node) :
    TracksNode φ s (typedDeclaration a begin mods type)
      (typedDeclaration b (φ.move begin) (mods.map (Node.relocate φ)) (type.relocate φ)) := by
  refine .bind declaredName_tracks fun title => .look (sees_tracks _) fun _ => .ite ?_ ?_
  · exact functionRest_tracks h begin mods type title
  · exact variableRest_tracks h begin mods type title

theorem declared_tracks (begin : Nat) (mods : Option Node) :
    TracksNode φ s (declared a begin mods)
      (declared b (φ.move begin) (mods.map (Node.relocate φ))) :=
  .look (sees_tracks _) fun _ => .ite (letDefinition_begins h begin mods).tracks
    (.bind h.type (typedDeclaration_tracks h begin mods))

/-- What kind of declaration there is depends on kinds of tokens alone. -/
theorem declaration_tracks : TracksNode φ s (declaration a) (declaration b) := by
  refine .bind here_tracks fun begin => .look kind_tracks fun _ => ?_
  refine .look seesParenthesizedType_tracks fun _ => .ite (refuse_tracks _) ?_
  exact .bind modifiers_tracks (declared_tracks h begin)

/-- Members are told apart by the kind of their first token. -/
theorem member_tracks : TracksNode φ s (member a) (member b) := by
  refine .look kind_tracks fun kind => ?_
  split
  · exact includeDirective_begins.tracks
  · exact inheritance_begins.tracks
  · exact (classDefinition_begins h).tracks
  · exact emptyStatement_begins.tracks
  · exact declaration_tracks h

/-! ## Statements -/

theorem expressionStatement_tracks :
    TracksNode φ s (expressionStatement a) (expressionStatement b) :=
  .bind h.expression fun _ => .bind (needed_tracks _ _) fun _ => .pure (by simp)

theorem parenthesizedCondition_tracks : Tracks φ s
    (Prod.map (Node.relocate φ) (List.map (Node.relocate φ)))
    (parenthesizedCondition a) (parenthesizedCondition b) := by
  refine .bind (needed_tracks _ _) fun _ => .bind h.expression fun _ => ?_
  exact .bind (needed_tracks _ _) fun _ => .pure (by simp)

theorem otherwise_tracks : TracksOption φ s (otherwise a) (otherwise b) :=
  .look (eats_tracks _) fun _ => .ite (.bind h.statement fun _ => .pure rfl) (.pure rfl)

theorem ifStatement_tracks : TracksNode φ s (ifStatement a) (ifStatement b) := by
  refine .bind advance_tracks fun _ => .bind (parenthesizedCondition_tracks h) fun _ => ?_
  refine .bind h.statement fun _ => .bind (otherwise_tracks h) fun _ => ?_
  exact .bind lastStop_tracks fun _ => .pure (by simp)

theorem whileStatement_tracks :
    TracksNode φ s (whileStatement a) (whileStatement b) := by
  refine .bind advance_tracks fun _ => .bind (parenthesizedCondition_tracks h) fun _ => ?_
  exact .bind h.statement fun _ => .bind lastStop_tracks fun _ => .pure (by simp)

theorem doStatement_tracks : TracksNode φ s (doStatement a) (doStatement b) := by
  refine .bind advance_tracks fun _ => .bind h.statement fun _ => ?_
  refine .bind (expect_tracks _ _) fun _ => .bind (parenthesizedCondition_tracks h) fun _ => ?_
  exact .bind (needed_tracks _ _) fun _ => .bind lastStop_tracks fun _ => .pure (by simp)

/-- The start of a loop may be lacking, and its semicolon may be a hole. -/
theorem forStart_tracks : Tracks φ s
    (Prod.map (Option.map (Node.relocate φ)) (List.map (Node.relocate φ)))
    (forStart a) (forStart b) := by
  refine .look (eats_tracks _) fun _ => .ite (.pure rfl) (.look kind_tracks fun _ => ?_)
  refine .ite (.bind (declaration_tracks h) fun _ => .pure rfl) (.bind h.expression fun _ => ?_)
  exact .bind (needed_tracks _ _) fun _ => .pure rfl

theorem forStatement_tracks : TracksNode φ s (forStatement a) (forStatement b) := by
  refine .bind advance_tracks fun _ => .bind (needed_tracks _ _) fun _ => ?_
  refine .bind (forStart_tracks h) fun _ => .bind (optionalExpression_tracks h _) fun _ => ?_
  refine .bind (needed_tracks _ _) fun _ => .bind (optionalExpression_tracks h _) fun _ => ?_
  refine .bind (needed_tracks _ _) fun _ => .bind h.statement fun _ => ?_
  exact .bind lastStop_tracks fun _ => .pure (by simp)

/-- A range reaches from one bound to the other, both of which are moved. -/
theorem spanned_tracks : TracksNode φ s (spanned a) (spanned b) := by
  refine .bind h.expression fun _ => .look (eats_tracks _) fun _ => .ite ?_ (.pure rfl)
  exact .bind h.expression fun _ => .pure (by simp)

theorem foreachStatement_tracks :
    TracksNode φ s (foreachStatement a) (foreachStatement b) := by
  have hbinding : TracksNode φ s (foreachBinding a) (foreachBinding b) :=
    .look kind_tracks fun _ => .ite (bareVariable_tracks h) h.expression
  refine .bind advance_tracks fun _ => .bind (needed_tracks _ _) fun _ => ?_
  refine .bind hbinding fun _ => .bind (needed_tracks _ _) fun _ => ?_
  refine .bind (spanned_tracks h) fun _ => .bind (needed_tracks _ _) fun _ => ?_
  exact .bind h.statement fun _ => .bind lastStop_tracks fun _ => .pure (by simp)

/-- A label is moved with its word, and so are the statements under it. -/
theorem labelledCase_tracks : TracksNode φ s (labelledCase a) (labelledCase b) := by
  -- whether the label has values depends on its word only
  have hvalues : ∀ word,
      TracksOption φ s (caseValues a word) (caseValues b (word.relocate φ)) :=
    fun _ => .ite (.bind (spanned_tracks h) fun _ => .pure rfl) (.pure rfl)
  refine .bind advance_tracks fun word => .bind (hvalues word) fun _ => ?_
  refine .bind (needed_tracks _ _) fun _ => .bind (.manyUntil (.guarded h.statement)) fun _ => ?_
  exact .bind lastStop_tracks fun _ => .pure (by simp)

theorem switchStatement_tracks :
    TracksNode φ s (switchStatement a) (switchStatement b) := by
  have hcase : TracksNode φ s (switchCase a) (switchCase b) := by
    refine .look kind_tracks fun kind => ?_
    split
    · exact labelledCase_tracks h
    · exact labelledCase_tracks h
    · exact wrongCurrent_tracks _
  have hbody : Tracks φ s (Prod.map (List.map (Node.relocate φ)) (List.map (Node.relocate φ)))
      (switchBody a) (switchBody b) := by
    refine .bind (expect_tracks _ _) fun _ => .ite (.pure rfl) ?_
    refine .bind (.manyUntil hcase) fun _ => ?_
    exact .bind (needed_tracks _ _) fun _ => .pure (by simp)
  refine .bind advance_tracks fun _ => .bind (parenthesizedCondition_tracks h) fun _ => ?_
  exact .bind hbody fun _ => .bind lastStop_tracks fun _ => .pure (by simp)

theorem handlerVariable_tracks : Tracks φ s
    (Prod.map (Option.map (Node.relocate φ)) (List.map (Node.relocate φ)))
    (handlerVariable a) (handlerVariable b) := by
  refine .look (eats_tracks _) fun _ => .ite (.bind (bareVariable_tracks h) fun _ => ?_) (.pure rfl)
  exact .bind (needed_tracks _ _) fun _ => .pure rfl

/-- Where the handler is lacking the hole for it moves. -/
theorem tryStatement_tracks : TracksNode φ s (tryStatement a) (tryStatement b) := by
  refine .bind advance_tracks fun _ => .bind h.statement fun _ => ?_
  refine .look (eats_tracks _) fun _ => .ite ?_ ?_
  · refine .bind (handlerVariable_tracks h) fun _ => .bind h.statement fun _ => ?_
    exact .bind lastStop_tracks fun _ => .pure (by simp)
  · exact .bind (hole_tracks _) fun _ => .bind lastStop_tracks fun _ => .pure (by simp)

theorem returnStatement_tracks :
    TracksNode φ s (returnStatement a) (returnStatement b) := by
  refine .bind advance_tracks fun _ => .bind (optionalExpression_tracks h _) fun _ => ?_
  exact .bind (needed_tracks _ _) fun _ => .bind lastStop_tracks fun _ => .pure (by simp)

omit h in
/-- A statement that is one word is as it is. -/
theorem wordStatement_tracks {construct : NodeKind} (hk : construct.relocate φ = construct) :
    TracksNode φ s (wordStatement construct) (wordStatement construct) := by
  refine .bind advance_tracks fun _ => .bind (needed_tracks _ _) fun _ => ?_
  exact .bind lastStop_tracks fun _ => .pure (by simp [hk])

/-- Statements are told apart by the kind of their first token. -/
theorem statement_tracks : TracksNode φ s (statement a) (statement b) := by
  refine .look kind_tracks fun kind => ?_
  split
  · exact block_tracks h
  · exact ifStatement_tracks h
  · exact whileStatement_tracks h
  · exact doStatement_tracks h
  · exact forStatement_tracks h
  · exact foreachStatement_tracks h
  · exact switchStatement_tracks h
  · exact tryStatement_tracks h
  · exact returnStatement_tracks h
  · exact wordStatement_tracks rfl
  · exact wordStatement_tracks rfl
  · exact emptyStatement_begins.tracks
  · exact member_tracks h
  · exact .ite (declaration_tracks h) (expressionStatement_tracks h)

end

/-- Both readings go one level deeper, or both find it too deep. -/
theorem Tracks.nested {inner : Setting φ} {p q : Parse Node} (hs : s.Deepens inner) (e : Expected)
    (h : TracksNode φ inner p q) : TracksNode φ s (Parse.nested e p) (Parse.nested e q) := by
  refine ⟨fun c hc => ?_, fun c c' hc => ?_⟩
  · by_cases hd : c.depth ≥ maxDepth
    -- as deep as is allowed, only a hole is read
    · rw [nested_refused e hd]
      exact (refuse_tracks (s := s) e).persist c hc
    · rw [nested_read e hd]
      exact hs.cut.mpr (h.persist _ (hs.cut.mp hc))
  · by_cases hd : c.depth ≥ maxDepth
    -- the depths differ by what the setting allows, so the other reading is refused as well
    · rw [nested_refused e hd, nested_refused e ((hs.allowed hc).mpr hd)]
      exact (refuse_tracks e).follow c c' hc
    · rw [nested_read e hd, nested_read e (mt (hs.allowed hc).mp hd)]
      exact (h.follow _ _ (hs.down hc)).imp hs.cut.mpr fun hsame =>
        ⟨hsame.result, hs.up hsame.follows⟩

end Parse

namespace Nested

variable {φ : Relocation} {s : Setting φ}

/-- Below the deepest level there are only holes. -/
theorem none_tracks : Nested.none.Tracks φ s :=
  ⟨refuse_tracks _, refuse_tracks _, refuse_tracks _, refuse_tracks _, fun _ => refuse_tracks _,
    refuse_tracks _, refuse_tracks _⟩

/-- Levels above those that track each other do so too, in the setting one level higher. -/
theorem Alike.above {inner : Setting φ} {a b : Nested} (hs : s.Deepens inner)
    (h : Nested.Alike φ inner a b) : Nested.Alike φ s a.above b.above where
  statement := .nested hs _ (statement_tracks h)
  member := .nested hs _ (member_tracks h)
  expression := .nested hs _ (expression_tracks h)
  alternative := .nested hs _ (alternative_tracks h)
  operand loosest := .nested hs _ (operand_tracks h loosest)
  unary := .nested hs _ (unary_tracks h)
  type := .nested hs _ (type_tracks h)

/-- **The productions of every level track themselves.** -/
theorem levels_tracks_of (hs : s.Deepens s) (n : Nat) : (levels n).Tracks φ s := by
  induction n with
  | zero => exact none_tracks
  | succ n ih => exact ih.above hs

/-- However many levels there are, with more tokens behind or without. -/
theorem levels_tracks {more : Option (List Token)} (n : Nat) : (levels n).Tracks φ more :=
  levels_tracks_of (Setting.after_deepens more) n

end Nested

/-- The constructs of a file depend on its tokens, and on where they stand only in their
offsets. -/
theorem Parse.members_tracks {φ : Relocation} {more : Option (List Token)} (until_ : TokenKind) :
    TracksNodes φ more (members until_) (members until_) :=
  .manyUntil (.guarded (member_tracks (Nested.levels_tracks maxDepth)))

end MudEdit
