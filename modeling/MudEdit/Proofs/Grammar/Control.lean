import MudEdit.Proofs.Grammar.Declaration
import MudEdit.Proofs.Grammar.Operand

/-!
# Statements are read by the rules

A statement may end with a declaration that takes nothing, so it may reach up to the
current token. What stands in braces does not: the braces end it.
-/

namespace MudEdit.Parse

variable {c c' : Cursor} {below : Nested} (hb : below.Sound)
include hb

/-- A semicolon that lacks is joined with the expression, for there is no other construct. -/
theorem expressionStatement_reads :
    (expressionStatement below).Ensures c fun n c' => Reads .flat c [n] [] c' := by
  unfold expressionStatement
  refine (hb.expression _).bind fun value c₁ h₁ => semicolon_reads.bind fun hs c₂ h₂ => ?_
  exact .pure (.combineFlat (h₁.append h₂))

/-- The holes of both parentheses are kept for the statement. -/
theorem parenthesizedCondition_reads :
    (parenthesizedCondition below).Ensures c fun p c' => Reads .flat c [p.1] p.2 c' := by
  unfold parenthesizedCondition
  refine openParen_reads.bind fun hs c₁ h₁ => (hb.expression _).bind fun condition c₂ h₂ => ?_
  refine closeParen_reads.bind fun gs c₃ h₃ => .pure ?_
  simpa using h₁.append (h₂.append h₃)

/-! ## Branches and loops -/

/-- The other branch, if its word is there. -/
theorem otherwise_reads :
    (otherwise below).Ensures c fun o c' => Reads .ahead c o.toList [] c' := by
  unfold otherwise
  refine .eats (fun hk => ?_) (fun _ => .pure .nil)
  exact (hb.statement _).bind fun n c' h => .pure ((Reads.of_word rfl hk).append h)

/-- A branch may reach ahead, so the statement does. -/
theorem ifStatement_reads (hk : c.kind = .keyword .ifWord) :
    (ifStatement below).Ensures c fun n c' => Reads .ahead c [n] [] c' := by
  unfold ifStatement
  refine .advance ((parenthesizedCondition_reads hb).bind ?_)
  intro p c₁ h₁
  obtain ⟨condition, hs⟩ := p
  refine (hb.statement _).bind fun thenBranch c₂ h₂ => ?_
  refine (otherwise_reads hb).bind fun elseBranch c₃ h₃ => ?_
  refine .lastStop (.pure (.combine (.worded rfl rfl hk ?_ rfl) (.inl rfl)))
  simpa [NodeKind.children] using h₁.of_flat.append (h₂.append h₃)

/-- The body may reach ahead, so the statement does. -/
theorem whileStatement_reads (hk : c.kind = .keyword .whileWord) :
    (whileStatement below).Ensures c fun n c' => Reads .ahead c [n] [] c' := by
  unfold whileStatement
  refine .advance ((parenthesizedCondition_reads hb).bind ?_)
  intro p c₁ h₁
  obtain ⟨condition, hs⟩ := p
  refine (hb.statement _).bind fun body c₂ h₂ => ?_
  refine .lastStop (.pure (.combine (.worded rfl rfl hk ?_ rfl) (.inl rfl)))
  simpa [NodeKind.children] using h₁.of_flat.append h₂

/-- What follows the body closes it, and the condition is flat. -/
theorem doStatement_reads (hk : c.kind = .keyword .doWord) :
    (doStatement below).Ensures c fun n c' => Reads .ahead c [n] [] c' := by
  unfold doStatement
  refine .advance ((hb.statement _).bind fun body c₁ h₁ => ?_)
  refine (expect_reads rfl _).bind ?_
  intro p c₂ h₂
  obtain ⟨found, hs⟩ := p
  refine (parenthesizedCondition_reads hb).bind ?_
  intro p c₃ h₃
  obtain ⟨condition, more⟩ := p
  refine semicolon_reads.bind fun gs c₄ h₄ => ?_
  -- the rule for such a loop asks that its condition is flat
  have hflat := h₃.isFlat condition (by simp)
  refine .lastStop (.pure (.combine (.worded hflat rfl hk ?_ rfl) (.inl rfl)))
  simpa [NodeKind.children] using h₁.append (h₂.append (h₃.append h₄)).of_flat

/-- A declaration brings its semicolon along, an expression leaves the hole of it to the loop. -/
theorem forStart_reads : (forStart below).Ensures c fun p c' =>
    Reads .ahead c p.1.toList p.2 c' := by
  unfold forStart
  refine .eats (fun hk => .pure (.of_word rfl hk)) (fun _ => .kind ?_)
  split
  · exact (declaration_reads hb (by simp) (.inl rfl)).bind fun n c' h => .pure h
  · refine (hb.expression _).bind fun start c₁ h₁ => semicolon_reads.bind fun hs c₂ h₂ => ?_
    exact .pure (h₁.append h₂).of_flat

/-- Everything up to the body is gathered, and then the body is read. -/
theorem forStatement_reads (hk : c.kind = .keyword .forWord) :
    (forStatement below).Ensures c fun n c' => Reads .ahead c [n] [] c' := by
  unfold forStatement
  refine .advance (openParen_reads.bind fun hs₁ c₁ h₁ => (forStart_reads hb).bind ?_)
  intro p c₂ h₂
  obtain ⟨start, hs₂⟩ := p
  refine (optionalExpression_reads hb _).bind fun condition c₃ h₃ => ?_
  refine semicolon_reads.bind fun hs₃ c₄ h₄ => ?_
  refine (optionalExpression_reads hb _).bind fun step c₅ h₅ => ?_
  refine closeParen_reads.bind fun hs₄ c₆ h₆ => (hb.statement _).bind fun body c₇ h₇ => ?_
  refine .lastStop (.pure (.combine (.worded rfl rfl hk ?_ rfl) (.inl rfl)))
  -- between the start and the body all is flat
  have hr := (h₃.append (h₄.append (h₅.append h₆))).of_flat (r := .ahead)
  simpa [NodeKind.children] using h₁.of_flat.append (h₂.append (hr.append h₇))

/-- A range takes over its first value, or the value stays as it is. -/
theorem spanned_reads : (spanned below).Ensures c fun n c' => Reads .flat c [n] [] c' := by
  unfold spanned
  refine (hb.expression _).bind fun lower c₁ h₁ => .eats (fun hk => ?_) (fun _ => .pure h₁)
  refine (hb.expression _).bind fun upper c₂ h₂ => .pure ?_
  exact h₁.grownUpTo ((Reads.of_word rfl hk).append h₂) rfl rfl (List.mem_singleton.mpr rfl) rfl

/-- What is bound is a variable or an expression, and nothing else. -/
theorem foreachBinding_reads :
    (foreachBinding below).Ensures c fun n c' =>
      Reads .ahead c [n] [] c' ∧ (n.isFlat || n.kind.isVariable) = true := by
  unfold foreachBinding
  refine .kind ?_
  split
  · refine (bareVariable_reads hb).mono ?_
    intro n c' hp
    obtain ⟨h, hn⟩ := hp
    exact ⟨h, by rw [hn, Bool.or_true]⟩
  · refine (hb.expression _).mono fun n c' h => ?_
    exact ⟨h.of_flat, by rw [h.isFlat n List.mem_cons_self, Bool.true_or]⟩

/-- What the loop runs over is flat, what it binds may be a variable. -/
theorem foreachStatement_reads (hk : c.kind = .keyword .foreachWord) :
    (foreachStatement below).Ensures c fun n c' => Reads .ahead c [n] [] c' := by
  unfold foreachStatement
  refine .advance (openParen_reads.bind fun hs₁ c₁ h₁ => ?_)
  refine (foreachBinding_reads hb).bind ?_
  intro binding c₂ hp
  obtain ⟨h₂, hbinding⟩ := hp
  refine colon_reads.bind fun hs₂ c₃ h₃ => ?_
  refine (spanned_reads hb).bind fun iterable c₄ h₄ => closeParen_reads.bind fun hs₃ c₅ h₅ => ?_
  refine (hb.statement _).bind fun body c₆ h₆ => ?_
  refine .lastStop (.pure (.combine (.worded ?_ rfl hk ?_ rfl) (.inl rfl)))
  · exact Bool.and_eq_true_iff.mpr ⟨hbinding, h₄.isFlat iterable (by simp)⟩
  · have hr := (h₃.append (h₄.append h₅)).of_flat (r := .ahead)
    simpa [NodeKind.children] using h₁.of_flat.append (h₂.append (hr.append h₆))

/-! ## Switches -/

/-- A case has values, a default has none. -/
theorem caseValues_reads (word : Token) :
    (caseValues below word).Ensures c fun o c' => Reads .flat c o.toList [] c' := by
  unfold caseValues
  split
  · exact (spanned_reads hb).bind fun n c' h => .pure h
  · exact .pure .nil

/-- A label takes its word, however many statements follow. -/
theorem labelledCase_reads
    (hk : c.kind = .keyword .caseWord ∨ c.kind = .keyword .defaultWord) :
    (labelledCase below).Ensures c fun n c' =>
      Reads .ahead c [n] [] c' ∧ c'.left < c.left := by
  have hw : c.kind.leavesNoTrace = true := by rcases hk with h | h <;> rw [h] <;> rfl
  unfold labelledCase
  refine .advance ((caseValues_reads hb _).bind fun label c₁ h₁ => ?_)
  refine colon_reads.bind fun hs c₂ h₂ => ?_
  refine (manyUntil_reads fun c _ he => guarded_reads he (hb.statement c)).bind ?_
  intro statements c₃ hp
  obtain ⟨h₃, -⟩ := hp
  -- values and colon are flat, the statements may reach ahead
  have hr := (h₁.append h₂).of_flat.append h₃
  refine .lastStop (.pure ⟨.combine (.worded rfl hw rfl ?_ rfl) (.inl rfl),
    Reads.left_lt_of_word hw rfl hr⟩)
  simpa [NodeKind.children] using hr

/-- What is no label is taken as wrong, so each turn takes a token. -/
theorem switchCase_reads (he : c.atEnd = false) : (switchCase below).Ensures c fun n c' =>
    Reads .ahead c [n] [] c' ∧ c'.left < c.left := by
  unfold switchCase
  refine .kind ?_
  split
  · exact labelledCase_reads hb (.inl ‹_›)
  · exact labelledCase_reads hb (.inr ‹_›)
  · refine (wrongCurrent_ensures _).mono ?_
    intro _ _ heq
    obtain ⟨rfl, rfl⟩ := heq
    exact ⟨.wrong _ he, Cursor.left_skip he⟩

/-- What stands between the braces stays between them. -/
theorem switchBody_reads :
    (switchBody below).Ensures c fun p c' => Reads .taken c p.1 p.2 c' := by
  unfold switchBody
  refine (expect_reads rfl _).bind ?_
  intro p c₁ h₁
  obtain ⟨opened, opening⟩ := p
  cases opened with
  | false => exact .pure h₁.of_flat
  | true =>
    show Ensures (manyUntil _ _ >>= _) _ _
    refine (manyUntil_reads fun c _ he => switchCase_reads hb he).bind ?_
    intro cases c₂ hp
    obtain ⟨h₂, hstop⟩ := hp
    -- the brace or the end is beyond whatever the last statement reached
    refine (closeBrace_reads.and (closeBrace_settles hstop)).bind fun closing c₃ ⟨h₃, hl⟩ => ?_
    exact .pure (h₁.of_flat.append (by simpa using h₂.settle h₃.of_flat hl))

/-- The value is flat, and the cases are gathered with the holes of the braces. -/
theorem switchStatement_reads (hk : c.kind = .keyword .switchWord) :
    (switchStatement below).Ensures c fun n c' => Reads .ahead c [n] [] c' := by
  unfold switchStatement
  refine .advance ((parenthesizedCondition_reads hb).bind ?_)
  intro p c₁ h₁
  obtain ⟨value, hs⟩ := p
  refine (switchBody_reads hb).bind ?_
  intro p c₂ h₂
  obtain ⟨cases, bracing⟩ := p
  have hr : Reads .ahead c.skip (value :: cases) (hs ++ bracing) c₂ :=
    h₁.of_flat.append h₂.loosen
  -- the rule for a switch asks that its value is flat
  have hflat := h₁.isFlat value (by simp)
  exact .lastStop (.pure (.combine (.worded hflat rfl hk hr rfl) (.inl rfl)))

/-! ## Other statements -/

/-- The variable of a handler, if its parenthesis opens. -/
theorem handlerVariable_reads : (handlerVariable below).Ensures c fun p c' =>
    Reads .ahead c p.1.toList p.2 c' := by
  unfold handlerVariable
  refine .eats (fun hk => ?_) (fun _ => .pure .nil)
  refine (bareVariable_reads hb).bind fun exception c₁ ⟨h₁, _⟩ => ?_
  refine closeParen_reads.bind fun hs c₂ h₂ => .pure ?_
  exact (Reads.of_word rfl hk).append (h₁.append h₂.of_flat)

/-- A handler follows its word, or a hole stands in its place. -/
theorem tryStatement_reads (hk : c.kind = .keyword .tryWord) :
    (tryStatement below).Ensures c fun n c' => Reads .ahead c [n] [] c' := by
  unfold tryStatement
  refine .advance ((hb.statement _).bind fun body c₁ h₁ => .eats (fun hc => ?_) (fun _ => ?_))
  · refine (handlerVariable_reads hb).bind ?_
    intro p c₂ h₂
    obtain ⟨exception, hs⟩ := p
    refine (hb.statement _).bind fun handler c₃ h₃ => ?_
    refine .lastStop (.pure (.combine (.worded rfl rfl hk ?_ rfl) (.inl rfl)))
    simpa [NodeKind.children] using h₁.append ((Reads.of_word rfl hc).append (h₂.append h₃))
  · -- the hole stands where the handler should
    refine (hole_reads _).bind fun handler c₂ h₂ => .lastStop (.pure (.worded rfl rfl hk ?_ rfl))
    exact h₁.append h₂.2.of_flat

/-- A value, unless the semicolon follows at once. -/
theorem returnStatement_reads (hk : c.kind = .keyword .returnWord) :
    (returnStatement below).Ensures c fun n c' => Reads .ahead c [n] [] c' := by
  unfold returnStatement
  refine .advance ((optionalExpression_reads hb _).bind fun value c₁ h₁ => ?_)
  refine semicolon_reads.bind fun hs c₂ h₂ => ?_
  refine .lastStop (.pure (.combine (.worded rfl rfl hk ?_ rfl) (.inl rfl)))
  simpa [NodeKind.children] using (h₁.append h₂).of_flat (r := .ahead)

omit hb in
/-- Statements that are only a word have no parts at all. -/
theorem wordStatement_reads {construct : NodeKind} (hc : construct.children = [])
    (hp : construct.isPlain .flat = true) {k : TokenKind} (hw : k.leavesNoTrace = true)
    (hk : c.kind = k) : (wordStatement construct).Ensures c fun n c' =>
      Reads .flat c [n] [] c' := by
  unfold wordStatement
  refine .advance (semicolon_reads.bind fun hs c₁ h => .lastStop (.pure (.combineFlat ?_)))
  exact .worded hp hw hk (hc ▸ h) (NodeKind.isRecorded_of_children hc)

/-- The first token decides which statement is read. -/
theorem statement_reads :
    (statement below).Ensures c fun n c' => Reads .ahead c [n] [] c' := by
  unfold statement
  refine .kind ?_
  split
  · exact (block_reads hb ‹_›).mono fun _ _ h => h.loosen
  · exact ifStatement_reads hb ‹_›
  · exact whileStatement_reads hb ‹_›
  · exact doStatement_reads hb ‹_›
  · exact forStatement_reads hb ‹_›
  · exact foreachStatement_reads hb ‹_›
  · exact switchStatement_reads hb ‹_›
  · exact tryStatement_reads hb ‹_›
  · exact returnStatement_reads hb ‹_›
  · exact (wordStatement_reads rfl rfl rfl ‹_›).mono fun _ _ h => h.of_flat
  · exact (wordStatement_reads rfl rfl rfl ‹_›).mono fun _ _ h => h.of_flat
  · exact (emptyStatement_reads ‹_›).mono fun _ _ h => h.loosen
  · exact (member_reads hb).mono fun _ _ h => h.loosen
  · split
    · exact declaration_reads hb (by simp) (.inl rfl)
    · exact (expressionStatement_reads hb).mono fun _ _ h => h.of_flat

end MudEdit.Parse
