import MudEdit.Proofs.Grammar.Gap

/-!
# Types and expressions before a gap

A type or an expression that is read without holes is read so as well where a semicolon is
missing behind it. What it needs is there before the gap, and none of its suffixes, operators and
alternatives starts with what a declaration starts with.
-/

namespace MudEdit

open Parse

/-- What is read one level down stays the same at a gap, unless it has holes. -/
structure Nested.Closing (φ : Relocation) (g : Gap) (below : Nested) : Prop where
  tracks : below.Tracks φ (g.setting φ)
  expression : ClosesNode φ (g.setting φ) below.expression below.expression
  alternative : ClosesNode φ (g.setting φ) below.alternative below.alternative
  operand : ∀ loosest, ClosesNode φ (g.setting φ) (below.operand loosest) (below.operand loosest)
  unary : ClosesNode φ (g.setting φ) below.unary below.unary
  type : ClosesNode φ (g.setting φ) below.type below.type

namespace Parse

variable {α : Type} {φ : Relocation} {g : Gap}

/-! ## Names and types -/

/-- No name follows a gap, so a name that is read was there before it. -/
theorem name_closes : ClosesNode φ (g.setting φ) name name :=
  .eat? (Gap.clear (by simp) rfl) (Gap.bars (by simp) (by simp) rfl)
    (fun t => .pure (relocate_nameNode t).symm) (hole_closes _)

/-- A file in angle brackets is read whole or not begun. -/
theorem typeFile_keeps (basic : BasicKind) : Keeps φ (g.setting φ)
    (Prod.map id (List.map (Node.relocate φ))) (holesOf ·.2 = []) (typeFile basic)
    (typeFile basic) := by
  refine .ite (.pure rfl) ((eats_exact (Gap.clear (by simp) rfl)).look fun _ => .ite (.pure rfl) ?_)
  -- a file that is named has to be closed before the gap
  refine Closes.follow (.bind path_tracks fun file => ?_)
  refine .andThen (expect_closes (Gap.bars (by simp) (by simp) rfl) _) (fun p => ?_)
    fun c hclean => ?_
  · simp only [Node.stringValue?_relocate]
    split <;> exact .pure rfl
  · cases hvalue : file.stringValue? with
    | some text =>
      simp only [hvalue] at hclean
      exact hclean
    | none =>
      simp only [hvalue] at hclean
      exact @holesOf_append_right [file] _ hclean

/-- The word of a type is a token before the gap. -/
theorem basicType_opens (basic : BasicKind) : OpensNode φ (g.setting φ)
    (do let word ← advance
        let (file, holes) ← typeFile basic
        return (Node.new word.begin (← lastStop) (.basicType basic file)).combine holes)
    (do let word ← advance
        let (file, holes) ← typeFile basic
        return (Node.new word.begin (← lastStop) (.basicType basic file)).combine holes) :=
  .advance fun _ => .bind (typeFile_keeps basic)
    (fun _ => Exact.lastStop.andThen fun _ => .pure (by simp))
    fun _ => Node.holesOf_eq_nil_of_combine

section

variable {below : Nested} (h : below.Closing φ g)
include h

/-- The parenthesis that closes a type is before the gap, or the type has a hole. -/
theorem parenthesizedType_closes : ClosesNode φ (g.setting φ)
    (do let _ ← advance
        let inner ← below.type
        return inner.combine (← closeParen))
    (do let _ ← advance
        let inner ← below.type
        return inner.combine (← closeParen)) := by
  refine .bind advance_tracks fun _ => .bind h.tracks.type fun _ => ?_
  exact .andThen (needed_closes (Gap.bars (by simp) (by simp) rfl) _) (fun _ => .pure (by simp))
    fun _ => Node.holesOf_eq_nil_of_combine

/-- What a type begins with is read alike, or it is a hole in the first text. -/
theorem typeAtom_closes : ClosesNode φ (g.setting φ) (typeAtom below) (typeAtom below) := by
  have hhole : Ends (g.setting φ) (·.holes = []) (hole .type) := (hole_closes (φ := φ) _).ends
  refine .kind (ends_kind hhole hhole (parenthesizedType_closes h).ends hhole hhole) fun kind => ?_
  split
  · exact (parenthesizedType_closes h).follow.opens
  · exact basicType_opens _
  · exact (hole_closes _).follow.opens

/-- The parenthesis that closes the parameters is before the gap, or the type has a hole. -/
theorem functionSuffix_closes (returns : Node) : ClosesNode φ (g.setting φ)
    (functionSuffix below returns) (functionSuffix below (returns.relocate φ)) := by
  refine .bind advance_tracks fun _ => .bind (.separatedOpen h.tracks.type) fun _ => ?_
  exact ended_closes (Gap.bars (by simp) (by simp) rfl) _ fun _ => by simp

/-- Neither a semicolon nor a declaration is a suffix of a type. -/
theorem typeSuffix_keeps (type : Node) : KeepsOption φ (g.setting φ)
    (typeSuffix below type) (typeSuffix below (type.relocate φ)) := by
  unfold typeSuffix
  rw [Node.canGrow_relocate]
  have hstar : Opens φ (g.setting φ) (Option.map (Node.relocate φ)) (fun o => ∀ n ∈ o, n.holes = [])
      (do let _ ← advance; return some (.new type.begin (← lastStop) (.arrayType type)))
      (do let _ ← advance; return some (.new (type.relocate φ).begin (← lastStop)
        (.arrayType (type.relocate φ)))) :=
    .advance fun _ => Exact.lastStop.andThen fun _ => .pure (by simp)
  have hfunction : KeepsOption φ (g.setting φ)
      (do return some (← functionSuffix below type))
      (do return some (← functionSuffix below (type.relocate φ))) :=
    .bind (functionSuffix_closes h type).follow (fun _ => .pure rfl) fun _ hclean => hclean _ rfl
  refine .ite (.pure rfl) (keeps_peek (fun k next next' hk => ?_) (fun k next hn => ?_)
    fun k next c c' ht hnext hc hclean => ?_)
  -- the readings part at the current token, at the one after it, or further on
  · rcases TokenKind.startsDeclaration_iff.mp hk with
      ⟨_, rfl⟩ | ⟨_, rfl⟩ | rfl | rfl | rfl | rfl <;> exact .pure rfl
  · split
    · rename_i hbracket
      cases hbracket
    · exact hstar
    · exact hfunction.opens
    · rename_i hnostar hnoparen _
      split
      · cases hn
      · exact (hnostar rfl).elim
      · exact (hnoparen rfl).elim
      · exact Keeps.opens (.pure rfl)
  · split at hclean
    · have hs := hstar c.skip c'.skip ht.skip hnext hclean
      exact hs
    · exact hstar c c' hc ht hclean
    · exact hfunction c c' hc hclean
    · exact ⟨rfl, hc⟩

omit h in
/-- A type with a suffix has the holes of the type it was made of. -/
theorem typeSuffix_wraps (below : Nested) : Wraps (typeSuffix below) := by
  intro n c
  unfold typeSuffix
  split
  · exact .pure (by simp)
  · refine .kind (.nextKind ?_)
    split
    · exact wraps_new (by simp [NodeKind.children])
    · exact wraps_new (by simp [NodeKind.children])
    · exact wraps_combine (by simp [NodeKind.children])
    · exact .pure (by simp)

/-- With its suffixes a type is read alike if it has no holes. -/
theorem suffixedType_closes :
    ClosesNode φ (g.setting φ) (suffixedType below) (suffixedType below) :=
  .andThen (typeAtom_closes h) (.chain (typeSuffix_keeps h) (typeSuffix_wraps below))
    fun _ => (typeSuffix_wraps below).chain

/-- Neither a semicolon nor a declaration is an alternative to a type. -/
theorem typeAlternative_keeps (type : Node) : KeepsOption φ (g.setting φ)
    (typeAlternative below type) (typeAlternative below (type.relocate φ)) := by
  unfold typeAlternative
  rw [Node.canGrow_relocate]
  refine .ite (.pure rfl) ((eats_exact (Gap.clear (by simp) rfl)).look fun _ => .ite ?_ (.pure rfl))
  refine .bind (suffixedType_closes h).follow (fun _ => .pure (by simp)) fun _ hclean => ?_
  exact Node.holes_eq_nil_of_new (hclean _ rfl) (by simp [NodeKind.children])

omit h in
/-- An alternative has the holes of the type before it. -/
theorem typeAlternative_wraps (below : Nested) : Wraps (typeAlternative below) := by
  intro n c
  unfold typeAlternative
  split
  · exact .pure (by simp)
  · refine .eats (fun _ => ?_) fun _ => .pure (by simp)
    exact wraps_new (by simp [NodeKind.children])

/-- A type without holes is read alike. -/
theorem type_closes : ClosesNode φ (g.setting φ) (type below) (type below) :=
  .andThen (suffixedType_closes h) (.chain (typeAlternative_keeps h) (typeAlternative_wraps below))
    fun _ => (typeAlternative_wraps below).chain

/-! ## Operands -/

omit h in
/-- The name behind a scope is before the gap, or it is a hole. -/
theorem scopeLink_closes (scope : Option Node) : ClosesNode φ (g.setting φ)
    (scopeLink scope) (scopeLink (scope.map (Node.relocate φ))) := by
  refine .bind advance_tracks fun _ => .andThen name_closes (fun _ => ?_) fun _ hclean => ?_
  · exact Exact.lastStop.andThen fun _ => .pure (by cases scope <;> simp)
  · exact Node.holes_eq_nil_of_new hclean (by simp [NodeKind.children])

omit h in
/-- Neither a semicolon nor a declaration goes on with a scope. -/
theorem scopeSuffix_keeps (scope : Node) : KeepsOption φ (g.setting φ)
    (scopeSuffix scope) (scopeSuffix (scope.relocate φ)) := by
  unfold scopeSuffix
  rw [Node.canGrow_relocate]
  refine (sees_exact (Gap.clear (by simp) rfl)).look fun _ => .ite ?_ (.pure rfl)
  exact .bind (scopeLink_closes (some scope)).follow (fun _ => .pure rfl)
    fun _ hclean => hclean _ rfl

omit h in
/-- A name with a scope has the holes of the scope. -/
theorem scopeSuffix_wraps : Wraps scopeSuffix := by
  intro n c
  refine .sees ?_
  split
  · exact wraps_new (by simp [NodeKind.children])
  · exact .pure (by simp)

omit h in
/-- A name with its scopes is read alike if it has no holes. -/
theorem scopedName_closes : ClosesNode φ (g.setting φ) scopedName scopedName := by
  refine .eat? (Gap.clear (by simp) rfl) (Gap.bars (by simp) (by simp) rfl) (fun t => ?_) ?_
  · have hname := Keeps.chain (scopeSuffix_keeps (φ := φ) (g := g)) scopeSuffix_wraps (nameNode t)
    rwa [relocate_nameNode] at hname
  · exact .andThen (scopeLink_closes none) (.chain scopeSuffix_keeps scopeSuffix_wraps)
      fun _ => scopeSuffix_wraps.chain

/-- What closes a parenthesis is before the gap, or there is a hole for it. -/
theorem parenthesized_closes :
    ClosesNode φ (g.setting φ) (parenthesized below) (parenthesized below) := by
  refine .bind advance_tracks fun _ => .bind h.tracks.expression fun _ => ?_
  exact .andThen (needed_closes (Gap.bars (by simp) (by simp) rfl) _) (fun _ => .pure (by simp))
    fun _ => Node.holesOf_eq_nil_of_combine

/-- An array needs a sign at its very end. -/
theorem arrayLiteral_closes :
    ClosesNode φ (g.setting φ) (arrayLiteral below) (arrayLiteral below) := by
  refine .bind advance_tracks fun _ => .bind (arguments_tracks h.tracks _) fun _ => ?_
  refine .bind (needed_tracks _ _) fun _ => ?_
  exact ended_closes_after (Gap.bars (by simp) (by simp) rfl) _ _ fun _ => by simp

/-- A mapping needs a sign at its very end. -/
theorem mappingLiteral_closes :
    ClosesNode φ (g.setting φ) (mappingLiteral below) (mappingLiteral below) := by
  refine .bind advance_tracks fun _ => .bind (.separated (mappingEntry_tracks h.tracks)) fun _ => ?_
  refine .bind (needed_tracks _ _) fun _ => ?_
  exact ended_closes_after (Gap.bars (by simp) (by simp) rfl) _ _ fun _ => by simp

/-- What is made new ends with a parenthesis. -/
theorem newValue_closes : ClosesNode φ (g.setting φ) (newValue below) (newValue below) := by
  refine .bind advance_tracks fun _ => .bind (needed_tracks _ _) fun _ => ?_
  refine .bind (newTarget_tracks h.tracks) fun _ => .bind (newArguments_tracks h.tracks) fun _ => ?_
  exact ended_closes_after (Gap.bars (by simp) (by simp) rfl) _ _ fun _ => by simp

omit h in
/-- A literal is taken as it stands. -/
theorem atom_of_literal {c : Cursor} {construct : NodeKind}
    (hl : literal? c.current = some construct) :
    atom c = (.new c.current.begin c.current.stop construct, c.skip) := by
  have hatom : atom.Ensures c fun n d =>
      (n, d) = (.new c.current.begin c.current.stop construct, c.skip) := by
    refine .current ?_
    split
    case h_1 other hother =>
      obtain rfl := Option.some.inj (hl.symm.trans hother)
      exact .advance (.pure rfl)
    case h_2 hnone => cases hl.symm.trans hnone
  exact hatom

omit h in
/-- What is no literal leaves a hole. -/
theorem atom_of_other {c : Cursor} (hl : literal? c.current = none) :
    atom c = hole .expression c := by
  have hatom : atom.Ensures c fun n d => (n, d) = hole .expression c := by
    refine .current ?_
    split
    case h_1 other hother => cases hl.symm.trans hother
    case h_2 => rfl
  exact hatom

omit h in
/-- A literal is a token before the gap, and anything else a hole. -/
theorem atom_closes : ClosesNode φ (g.setting φ) atom atom := by
  -- neither the end, nor a semicolon, nor a sign that is looked past is a literal
  have hends : Ends (g.setting φ) (·.holes = []) atom := by
    intro c hc
    have hnone : literal? c.current = none := by
      have hk := Gap.Cut.kind hc
      rw [Cursor.kind_eq] at hk
      unfold literal?
      rcases hk with hk | hk | hk
      · rw [hk]
      · rw [hk]
      · split <;> first | rfl | (rename_i heq; rw [heq] at hk; cases hk)
    rw [atom_of_other hnone]
    exact holes_hole _ c
  refine ⟨hends, fun c c' hc hclean => ?_⟩
  -- so without holes the cursors are still together
  have ht := Setting.together hc fun hcut => hends c hcut hclean
  have hliteral : literal? c'.current = literal? c.current := by rw [ht.current]; rfl
  cases hl : literal? c.current with
  | some construct =>
    rw [atom_of_literal hl, atom_of_literal (hliteral.trans hl)]
    exact ⟨by simp [ht.current, relocate_literal hl], ht.skip⟩
  | none =>
    rw [atom_of_other hl] at hclean
    exact absurd hclean (holes_hole _ c)

/-- Every operand without holes is complete before the gap. -/
theorem primary_closes : ClosesNode φ (g.setting φ) (primary below) (primary below) := by
  have hatom : Ends (g.setting φ) (·.holes = []) atom := (atom_closes (φ := φ)).ends
  refine .kind (ends_kind hatom hatom (parenthesized_closes h).ends hatom hatom) fun kind => ?_
  split
  · exact scopedName_closes.follow.opens
  · exact scopedName_closes.follow.opens
  · exact Keeps.opens (strings_exact (Gap.clear (by simp) rfl)).keeps
  · exact (parenthesized_closes h).follow.opens
  · exact (arrayLiteral_closes h).follow.opens
  · exact (mappingLiteral_closes h).follow.opens
  · exact (newValue_closes h).follow.opens
  · exact atom_closes.follow.opens

/-- A call ends with its parenthesis. -/
theorem callSuffix_closes (callee : Node) : ClosesNode φ (g.setting φ)
    (callSuffix below callee) (callSuffix below (callee.relocate φ)) := by
  refine .bind advance_tracks fun _ => .bind (arguments_tracks h.tracks _) fun _ => ?_
  exact ended_closes (Gap.bars (by simp) (by simp) rfl) _ fun _ => by simp

/-- A subscript ends with its bracket. -/
theorem subscriptSuffix_closes (target : Node) : ClosesNode φ (g.setting φ)
    (subscriptSuffix below target) (subscriptSuffix below (target.relocate φ)) := by
  refine .bind advance_tracks fun _ => .bind (subscriptIndex_tracks h.tracks) fun _ => ?_
  exact ended_closes (Gap.bars (by simp) (by simp) rfl) _ fun _ => by simp

omit h in
/-- The name of a member is before the gap, or it is a hole. -/
theorem memberSuffix_closes (access : Access) (receiver : Node) : ClosesNode φ (g.setting φ)
    (memberSuffix access receiver) (memberSuffix access (receiver.relocate φ)) := by
  refine .bind advance_tracks fun _ => .andThen name_closes (fun _ => ?_) fun _ hclean => ?_
  · exact Exact.lastStop.andThen fun _ => .pure (by simp)
  · exact Node.holes_eq_nil_of_new hclean (by simp [NodeKind.children])

omit h in
/-- A sign behind an operand needs nothing after it. -/
theorem trailingOperator_opens (op : UnaryOp) (operand : Node) : OpensNode φ (g.setting φ)
    (trailingOperator op operand) (trailingOperator op (operand.relocate φ)) :=
  .advance fun _ => .pure (by simp)

omit h in
/-- A suffix that is read is one more suffix. -/
theorem Opens.suffix {p q : Parse Node} (h : OpensNode φ (g.setting φ) p q) :
    Opens φ (g.setting φ) (Option.map (Node.relocate φ)) (fun o => ∀ n ∈ o, n.holes = [])
      (some <$> p) (some <$> q) := by
  intro c c' hc ht hclean
  have hs := h c c' hc ht (hclean _ rfl)
  exact ⟨congrArg some hs.result, hs.follows⟩

/-- Neither a semicolon nor a declaration goes on with a suffix. -/
theorem suffix_keeps (target : Node) : KeepsOption φ (g.setting φ)
    (suffix below target) (suffix below (target.relocate φ)) := by
  unfold suffix
  rw [Node.canGrow_relocate]
  refine .ite (.pure rfl) (keeps_kind (fun k hk => ?_) fun kind => ?_)
  · rcases TokenKind.startsDeclaration_iff.mp hk with
      ⟨_, rfl⟩ | ⟨_, rfl⟩ | rfl | rfl | rfl | rfl <;> exact .pure rfl
  · split
    · exact .suffix (callSuffix_closes h target).follow.opens
    · exact .suffix (subscriptSuffix_closes h target).follow.opens
    · exact .suffix (memberSuffix_closes _ target).follow.opens
    · exact .suffix (memberSuffix_closes _ target).follow.opens
    · exact .suffix (trailingOperator_opens _ target)
    · exact .suffix (trailingOperator_opens _ target)
    · exact Keeps.opens (.pure rfl)

omit h in
/-- An operand with a suffix has the holes of the operand. -/
theorem suffix_wraps (below : Nested) : Wraps (suffix below) := by
  intro n c
  unfold suffix
  split
  · exact .pure (by simp)
  · refine .kind ?_
    split
    · exact wraps_combine (by simp [NodeKind.children])
    · exact wraps_combine (by simp [NodeKind.children])
    · exact wraps_new (by simp [NodeKind.children])
    · exact wraps_new (by simp [NodeKind.children])
    · exact wraps_new (by simp [NodeKind.children])
    · exact wraps_new (by simp [NodeKind.children])
    · exact .pure (by simp)

/-- A cast ends as its operand does. -/
theorem castOperand_closes :
    ClosesNode φ (g.setting φ) (castOperand below) (castOperand below) := by
  refine .bind advance_tracks fun _ => .bind h.tracks.type fun _ => ?_
  refine .bind (needed_tracks _ _) fun _ => ?_
  refine .andThen h.unary (fun _ => .pure (by simp)) fun _ hclean => ?_
  exact Node.holes_eq_nil_of_new (Node.holes_eq_nil_of_combine hclean) (by simp [NodeKind.children])

/-- An operand without holes is read alike, with the signs before it and the suffixes behind. -/
theorem unary_closes : ClosesNode φ (g.setting φ) (unary below) (unary below) := by
  refine .look kind_tracks fun kind => ?_
  split
  · refine .bind advance_tracks fun _ => .andThen h.unary (fun _ => .pure (by simp)) ?_
    exact fun _ hclean => Node.holes_eq_nil_of_new hclean (by simp [NodeKind.children])
  · refine .look seesParenthesizedType_tracks fun _ => .ite (castOperand_closes h) ?_
    exact .andThen (primary_closes h) (.chain (suffix_keeps h) (suffix_wraps below))
      fun _ => (suffix_wraps below).chain

/-! ## Expressions -/

/-- Neither a semicolon nor a declaration is a test. -/
theorem typeTestSuffix_keeps (value : Node) : KeepsOption φ (g.setting φ)
    (typeTestSuffix below value) (typeTestSuffix below (value.relocate φ)) := by
  unfold typeTestSuffix
  rw [Node.canGrow_relocate]
  refine .ite (.pure rfl) ((eats_exact (Gap.clear (by simp) rfl)).look fun _ => .ite ?_ (.pure rfl))
  refine .bind h.type.follow (fun _ => .pure (by simp)) fun _ hclean => ?_
  exact Node.holes_eq_nil_of_new (hclean _ rfl) (by simp [NodeKind.children])

omit h in
/-- A test has the holes of its value. -/
theorem typeTestSuffix_wraps (below : Nested) : Wraps (typeTestSuffix below) := by
  intro n c
  unfold typeTestSuffix
  split
  · exact .pure (by simp)
  · refine .eats (fun _ => ?_) fun _ => .pure (by simp)
    exact wraps_new (by simp [NodeKind.children])

/-- A value and its tests are read alike if they have no holes. -/
theorem typeTest_closes : ClosesNode φ (g.setting φ) (typeTest below) (typeTest below) :=
  .andThen h.unary (.chain (typeTestSuffix_keeps h) (typeTestSuffix_wraps below))
    fun _ => (typeTestSuffix_wraps below).chain

omit h in
/-- An operation has the holes of both its sides. -/
theorem holes_of_operation {op : BinaryOp} {lhs rhs : Node}
    (h : (operation op lhs rhs).holes = []) :
    lhs.holes = [] ∧ rhs.holes = [] :=
  ⟨Node.holes_eq_nil_of_new h (by simp [NodeKind.children]),
    Node.holes_eq_nil_of_new h (by simp [NodeKind.children])⟩

/-- No operator is current at the gap. -/
theorem operatorSuffix_keeps (loosest : Nat) (lhs : Node) : KeepsOption φ (g.setting φ)
    (operatorSuffix below loosest lhs) (operatorSuffix below loosest (lhs.relocate φ)) := by
  unfold operatorSuffix
  rw [Node.canGrow_relocate]
  refine keeps_kind (fun k hk => ?_) fun kind => ?_
  · rcases TokenKind.startsDeclaration_iff.mp hk with
      ⟨_, rfl⟩ | ⟨_, rfl⟩ | rfl | rfl | rfl | rfl <;> exact .pure rfl
  · split
    · split
      · refine .advance fun _ => .bind (h.operand _).follow (fun _ => .pure (by simp)) ?_
        exact fun _ hclean => (holes_of_operation (hclean _ rfl)).2
      · exact Keeps.opens (.pure rfl)
    · exact Keeps.opens (.pure rfl)

omit h in
/-- What an operator makes of its left side has the holes of it. -/
theorem operatorSuffix_wraps (below : Nested) (loosest : Nat) :
    Wraps (operatorSuffix below loosest) := by
  intro n c
  refine .kind ?_
  split
  · split
    · rintro _ ⟨⟩ hclean
      exact (holes_of_operation hclean).1
    · exact .pure (by simp)
  · exact .pure (by simp)

/-- Operators and their sides are read alike if they have no holes. -/
theorem operand_closes (loosest : Nat) :
    ClosesNode φ (g.setting φ) (operand below loosest) (operand below loosest) :=
  .andThen (typeTest_closes h)
    (.chain (operatorSuffix_keeps h loosest) (operatorSuffix_wraps below loosest))
    fun _ => (operatorSuffix_wraps below loosest).chain

/-- The conditional expression that an operand may be the condition of. -/
def conditional (below : Nested) (condition : Node) : Parse Node := do
  if ← eats (.sign .question) then
    let thenValue ← below.expression
    let holes ← colon
    let elseValue ← below.alternative
    return (Node.new condition.begin elseValue.stop
      (.ternary condition thenValue elseValue)).combine holes
  else return condition

/-- No question mark is current at the gap. -/
theorem conditional_keeps (condition : Node) : KeepsNode φ (g.setting φ)
    (conditional below condition) (conditional below (condition.relocate φ)) := by
  refine (eats_exact (Gap.clear (by simp) rfl)).look fun _ => .ite (Closes.follow ?_) (.pure rfl)
  refine .bind h.tracks.expression fun _ => .bind (needed_tracks _ _) fun _ => ?_
  refine .andThen h.alternative (fun _ => .pure (by simp)) fun _ hclean => ?_
  exact Node.holes_eq_nil_of_new (Node.holes_eq_nil_of_combine hclean) (by simp [NodeKind.children])

omit h in
/-- A conditional expression has the holes of its condition. -/
theorem holes_of_conditional {condition : Node} (c : Cursor) :
    (conditional below condition).Ensures c fun n _ => n.holes = [] → condition.holes = [] := by
  refine .eats (fun _ hclean => ?_) fun _ => .pure id
  exact Node.holes_eq_nil_of_new (Node.holes_eq_nil_of_combine hclean) (by simp [NodeKind.children])

/-- A conditional expression ends as its last part does. -/
theorem alternative_closes : ClosesNode φ (g.setting φ) (alternative below) (alternative below) :=
  .andThen (operand_closes h _) (conditional_keeps h) fun _ => holes_of_conditional _

/-- The assignment that an expression may be the target of. -/
def assigned (below : Nested) (target : Node) : Parse Node := do
  match BinaryOp.ofToken? (← kind) with
  | some op =>
    if op.isAssignment then
      let _ ← advance
      return operation op target (← below.expression)
    else return target
  | none => return target

/-- No assignment is current at the gap. -/
theorem assigned_keeps (target : Node) : KeepsNode φ (g.setting φ)
    (assigned below target) (assigned below (target.relocate φ)) := by
  refine keeps_kind (fun k hk => ?_) fun kind => ?_
  · rcases TokenKind.startsDeclaration_iff.mp hk with
      ⟨_, rfl⟩ | ⟨_, rfl⟩ | rfl | rfl | rfl | rfl <;> exact .pure rfl
  · split
    · split
      · refine .advance fun _ => .bind h.expression.follow (fun _ => .pure (by simp)) ?_
        exact fun _ hclean => (holes_of_operation hclean).2
      · exact Keeps.opens (.pure rfl)
    · exact Keeps.opens (.pure rfl)

omit h in
/-- An assignment has the holes of its target. -/
theorem holes_of_assigned {target : Node} (c : Cursor) :
    (assigned below target).Ensures c fun n _ => n.holes = [] → target.holes = [] := by
  refine .kind ?_
  split
  · split
    · exact fun hclean => (holes_of_operation hclean).1
    · exact .pure id
  · exact .pure id

/-- An expression without holes is read alike. -/
theorem expression_closes : ClosesNode φ (g.setting φ) (expression below) (expression below) :=
  .andThen (alternative_closes h) (assigned_keeps h) fun _ => holes_of_assigned _

end

end Parse

namespace Nested

variable {φ : Relocation} {g : Gap}

/-- Where all is refused, nothing is without holes. -/
theorem none_closing : Nested.none.Closing φ g :=
  ⟨none_tracks, refuse_closes _, refuse_closes _, fun _ => refuse_closes _, refuse_closes _,
    refuse_closes _⟩

/-- Expressions and types of every level stay the same at a gap, unless they have holes. -/
theorem levels_closing (n : Nat) : (levels n).Closing φ g := by
  induction n with
  | zero => exact none_closing
  | succ n ih =>
    have hs := Gap.deepens φ g
    exact ⟨levels_tracks_of hs _, .nested hs _ (expression_closes ih),
      .nested hs _ (alternative_closes ih), fun loosest => .nested hs _ (operand_closes ih loosest),
      .nested hs _ (unary_closes ih), .nested hs _ (type_closes ih)⟩

end Nested

end MudEdit
