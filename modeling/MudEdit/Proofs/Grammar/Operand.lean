import MudEdit.Proofs.Grammar.Annotation

/-!
# Expressions are read by the rules

Literals and names become leaves; everything else passes over signs and words and makes
constructs of what stands between them.
-/

namespace MudEdit.Parse

variable {c c' : Cursor} {below : Nested}

/-! ## Leaves -/

/-- The literals an expression is made of are leaves; strings and names, which are read elsewhere,
are none of them. -/
theorem leaf_of_literal {t : Token} {kind : NodeKind} (h : literal? t = some kind) :
    t.leaf? = some kind := by
  unfold Token.leaf?
  split
  · rename_i hk
    unfold literal? at h
    rw [hk] at h
    exact absurd h (by simp)
  · rename_i hk
    unfold literal? at h
    rw [hk] at h
    exact absurd h (by simp)
  · exact h

/-- No literal stands at the end of the text. -/
theorem atEnd_of_literal {kind : NodeKind} (h : literal? c.current = some kind) :
    c.atEnd = false := by
  -- what stands at the end of the text is no literal
  cases he : c.atEnd with
  | false => rfl
  | true =>
    rw [Cursor.current_of_atEnd he] at h
    exact absurd h (by simp [literal?, Token.eof])

/-- What begins no other operand is a literal or a hole. -/
theorem atom_reads : atom.Ensures c fun n c' => Reads .flat c [n] [] c' := by
  unfold atom
  refine .current ?_
  split
  · rename_i kind hl
    exact .advance (.pure (.leaf (atEnd_of_literal hl) (leaf_of_literal hl)))
  · exact (hole_reads _).mono fun _ _ h => h.2

/-! ## Names in scopes -/

/-- A name behind a scope takes the scope over as its part. -/
theorem scopeLink_grown {scope : Node} (hk : c.kind = .sign .scope) :
    (scopeLink (some scope)).Ensures c (Grown scope c) := by
  unfold scopeLink
  refine .advance (name_reads.bind fun member c' h => .lastStop (.pure ?_))
  exact ⟨Reads.left_lt_of_word rfl hk h,
    fun c₀ h₀ => h₀.grown ((Reads.of_word rfl hk).append h) rfl rfl rfl⟩

/-- A name behind a sign for the scope of the file itself. -/
theorem scopeLink_reads (hk : c.kind = .sign .scope) :
    (scopeLink none).Ensures c fun n c' => Reads .flat c [n] [] c' := by
  unfold scopeLink
  exact .advance (name_reads.bind fun member c' h => .lastStop (.pure (.worded rfl rfl hk h rfl)))

/-- A scope is only one where the sign behind it is followed by a name. -/
theorem scopeSuffix_grows : Grows scopeSuffix := by
  intro target c
  unfold scopeSuffix
  refine .sees ?_
  split
  · rename_i h
    rw [Bool.and_eq_true, beq_iff_eq] at h
    exact grown_ensures (scopeLink_grown h.2)
  · exact unchanged_ensures

/-- A name with the scopes before it, whichever of both it begins with. -/
theorem scopedName_reads (hk : c.kind = .identifier ∨ c.kind = .sign .scope) :
    scopedName.Ensures c fun n c' => Reads .flat c [n] [] c' := by
  unfold scopedName
  refine .eat? (fun hi => ?_) (fun hn => ?_)
  · exact (chain_reads scopeSuffix_grows (nameNode_reads hi)).mono fun _ _ h => h.1
  · refine (scopeLink_reads (hk.resolve_left hn)).bind fun n c₁ h => ?_
    exact (chain_reads scopeSuffix_grows h).mono fun _ _ h => h.1

/-! ## What stands in brackets -/

section Below

variable (hb : below.Sound)
include hb

theorem arguments_reads (closer : Sign) :
    (arguments below closer).Ensures c fun ns c' => Reads .flat c ns [] c' :=
  separated_reads fun c _ => hb.expression c

/-- Left out, it takes nothing; otherwise it is read. -/
theorem optionalExpression_ensures (without : Sign) :
    (optionalExpression below without).Ensures c fun o c' =>
      (o = none ∧ c.kind = .sign without ∧ c' = c) ∨
        ∃ n, o = some n ∧ Reads .flat c [n] [] c' := by
  unfold optionalExpression
  refine .sees ?_
  split
  · exact .pure (.inl ⟨rfl, beq_iff_eq.mp ‹_›, rfl⟩)
  · exact (hb.expression _).bind fun n c' h => .pure (.inr ⟨n, rfl, h⟩)

theorem optionalExpression_reads (without : Sign) :
    (optionalExpression below without).Ensures c fun o c' =>
      Reads .flat c o.toList [] c' := by
  refine (optionalExpression_ensures hb without).mono ?_
  intro o c' hcase
  rcases hcase with ⟨rfl, -, rfl⟩ | ⟨n, rfl, h⟩
  · exact .nil
  · exact h

/-- Parentheses leave no construct of their own: their holes go to what stands in them. -/
theorem parenthesized_reads (hk : c.kind = .sign .leftParen) :
    (parenthesized below).Ensures c fun n c' => Reads .flat c [n] [] c' := by
  unfold parenthesized
  refine .advance ((hb.expression _).bind fun inner c₁ h => ?_)
  refine closeParen_reads.bind fun hs c₂ h' => .pure (.combineFlat ?_)
  simpa using (Reads.of_word rfl hk).append (h.append h')

theorem arrayLiteral_reads (hk : c.kind = .sign .arrayOpen) :
    (arrayLiteral below).Ensures c fun n c' => Reads .flat c [n] [] c' := by
  unfold arrayLiteral
  refine .advance ((arguments_reads hb _).bind fun items c₁ h₁ => ?_)
  refine closeBrace_reads.bind fun hs c₂ h₂ => closeParen_reads.bind fun gs c₃ h₃ => ?_
  refine .lastStop (.pure (.combineFlat (.worded rfl rfl hk ?_ rfl)))
  simpa [NodeKind.children] using h₁.append (h₂.append h₃)

theorem mappingEntry_reads :
    (mappingEntry below).Ensures c fun n c' => Reads .flat c [n] [] c' := by
  unfold mappingEntry
  refine (hb.expression _).bind fun key c₁ h₁ => colon_reads.bind fun hs c₂ h₂ => ?_
  refine (hb.expression _).bind fun value c₃ h₃ => .pure (.combineFlat ?_)
  refine h₁.grownUpTo ?_ rfl rfl (List.mem_singleton.mpr rfl) rfl
  simpa using h₂.append h₃

theorem mappingLiteral_reads (hk : c.kind = .sign .mappingOpen) :
    (mappingLiteral below).Ensures c fun n c' => Reads .flat c [n] [] c' := by
  unfold mappingLiteral
  refine .advance ((separated_reads fun c _ => mappingEntry_reads hb).bind fun entries c₁ h₁ => ?_)
  refine closeBracket_reads.bind fun hs c₂ h₂ => closeParen_reads.bind fun gs c₃ h₃ => ?_
  refine .lastStop (.pure (.combineFlat (.worded rfl rfl hk ?_ rfl)))
  simpa [NodeKind.children] using h₁.append (h₂.append h₃)

/-- What is made is named by a type or computed. -/
theorem newTarget_reads :
    (newTarget below).Ensures c fun n c' => Reads .flat c [n] [] c' := by
  unfold newTarget
  refine .kind ?_
  split
  · exact hb.type c
  · exact hb.expression c

/-- Arguments follow their comma, and there are none without it. -/
theorem newArguments_reads :
    (newArguments below).Ensures c fun ns c' => Reads .flat c ns [] c' := by
  unfold newArguments
  refine .eats (fun hk => ?_) (fun _ => .pure .nil)
  exact (arguments_reads hb _).mono fun ns c' h => (Reads.of_word rfl hk).append h

theorem newValue_reads (hk : c.kind = .keyword .newWord) :
    (newValue below).Ensures c fun n c' => Reads .flat c [n] [] c' := by
  unfold newValue
  refine .advance (openParen_reads.bind fun hs c₁ h₁ => ?_)
  refine (newTarget_reads hb).bind fun target c₂ h₂ => ?_
  refine (newArguments_reads hb).bind fun args c₃ h₃ => ?_
  refine closeParen_reads.bind fun gs c₄ h₄ =>
    .lastStop (.pure (.combineFlat (.worded rfl rfl hk ?_ rfl)))
  simpa [NodeKind.children] using h₁.append (h₂.append (h₃.append h₄))

/-- The first token decides which operand is read. -/
theorem primary_reads : (primary below).Ensures c fun n c' => Reads .flat c [n] [] c' := by
  unfold primary
  refine .kind ?_
  split
  · exact scopedName_reads (.inl ‹_›)
  · exact scopedName_reads (.inr ‹_›)
  · exact strings_reads ‹_›
  · exact parenthesized_reads hb ‹_›
  · exact arrayLiteral_reads hb ‹_›
  · exact mappingLiteral_reads hb ‹_›
  · exact newValue_reads hb ‹_›
  · exact atom_reads

/-! ## Suffixes -/

/-- A call takes over what is called, and the arguments behind it. -/
theorem callSuffix_grown {callee : Node} (hk : c.kind = .sign .leftParen) :
    (callSuffix below callee).Ensures c (Grown callee c) := by
  unfold callSuffix
  refine .advance ((arguments_reads hb _).bind fun args c₁ h₁ => ?_)
  refine closeParen_reads.bind fun hs c₂ h₂ => .lastStop (.pure ?_)
  have hr := (Reads.of_word rfl hk).append (h₁.append h₂)
  exact ⟨Reads.left_lt_of_word rfl hk (h₁.append h₂),
    fun c₀ h₀ => .combineFlat (h₀.grown hr rfl (by simp [NodeKind.children]) rfl)⟩

/-- An index, or a range of which either end may lack. -/
theorem subscriptIndex_reads :
    (subscriptIndex below).Ensures c fun n c' => Reads .flat c [n] [] c' := by
  unfold subscriptIndex
  refine .here ((optionalExpression_ensures hb .range).bind ?_)
  intro lower c₁ h
  have hr : Reads .flat c lower.toList [] c₁ := by
    rcases h with ⟨rfl, -, rfl⟩ | ⟨n, rfl, h⟩
    · exact .nil
    · exact h
  refine .eats (fun hk => ?_) (fun hk => ?_)
  · -- a range, with or without its beginning
    have hrange : Ensures (do
        let upper ← optionalExpression below .rightBracket
        return Node.new c.current.begin (← lastStop) (.range lower upper)) c₁.skip
        fun n c' => Reads .flat c [n] [] c' := by
      refine (optionalExpression_reads hb _).bind fun upper c₂ h₂ => .lastStop (.pure ?_)
      have hl : c₂.left < c.left :=
        Nat.lt_of_lt_of_le (Reads.left_lt_of_word rfl hk h₂) hr.left_le
      -- a range begins where the index was looked for, with or without a lower end
      exact .construct (hr.append ((Reads.of_word rfl hk).append h₂)) rfl (.inl ⟨rfl, .inr hl⟩)
        (.inl (.inl rfl)) rfl (.of_not rfl _ _)
    cases lower <;> exact hrange
  · -- an index: it is only left out where a range follows
    rcases h with ⟨-, hn, rfl⟩ | ⟨n, rfl, h⟩
    · exact absurd hn hk
    · exact .pure h

theorem subscriptSuffix_grown {target : Node} (hk : c.kind = .sign .leftBracket) :
    (subscriptSuffix below target).Ensures c (Grown target c) := by
  unfold subscriptSuffix
  refine .advance ((subscriptIndex_reads hb).bind fun index c₁ h₁ => ?_)
  refine closeBracket_reads.bind fun hs c₂ h₂ => .lastStop (.pure ?_)
  have hr := (Reads.of_word rfl hk).append (h₁.append h₂)
  exact ⟨Reads.left_lt_of_word rfl hk (h₁.append h₂),
    fun c₀ h₀ => .combineFlat (h₀.grown hr rfl (by simp [NodeKind.children]) rfl)⟩

omit hb in
theorem memberSuffix_grown {receiver : Node} (access : Access)
    (hk : c.kind = .sign .arrow ∨ c.kind = .sign .dot) :
    (memberSuffix access receiver).Ensures c (Grown receiver c) := by
  have hw : c.kind.leavesNoTrace = true := by rcases hk with h | h <;> rw [h] <;> rfl
  unfold memberSuffix
  refine .advance (name_reads.bind fun member c₁ h => .lastStop (.pure ?_))
  exact ⟨Reads.left_lt_of_word hw rfl h,
    fun c₀ h₀ => h₀.grown ((Reads.of_word hw rfl).append h) rfl rfl rfl⟩

omit hb in
theorem trailingOperator_grown {operand : Node} (op : UnaryOp)
    (hk : c.kind = .sign .increment ∨ c.kind = .sign .decrement) :
    (trailingOperator op operand).Ensures c (Grown operand c) := by
  have hw : c.kind.leavesNoTrace = true := by rcases hk with h | h <;> rw [h] <;> rfl
  have he := Reads.atEnd_of_word hw rfl
  unfold trailingOperator
  refine .advance (.pure ⟨Cursor.left_skip he, fun c₀ h₀ => ?_⟩)
  -- the operator is the last token taken
  rw [← Cursor.lastStop_skip he]
  exact h₀.grown (.of_word hw rfl) rfl rfl rfl

/-- What follows an operand takes it over, whatever sign it begins with. -/
theorem suffix_grows : Grows (suffix below) := by
  intro target c
  unfold suffix
  split
  · exact unchanged_ensures
  · refine .kind ?_
    split
    · exact grown_ensures (callSuffix_grown hb ‹_›)
    · exact grown_ensures (subscriptSuffix_grown hb ‹_›)
    · exact grown_ensures (memberSuffix_grown _ (.inl ‹_›))
    · exact grown_ensures (memberSuffix_grown _ (.inr ‹_›))
    · exact grown_ensures (trailingOperator_grown _ (.inl ‹_›))
    · exact grown_ensures (trailingOperator_grown _ (.inr ‹_›))
    · exact unchanged_ensures

/-! ## Operators before an operand -/

/-- A cast ends with its operand, so it has no end of its own to record. -/
theorem castOperand_reads (hk : c.kind = .sign .leftParen) :
    (castOperand below).Ensures c fun n c' => Reads .flat c [n] [] c' := by
  unfold castOperand
  refine .advance ((hb.type _).bind fun type c₁ h₁ => ?_)
  refine closeParen_reads.bind fun hs c₂ h₂ => ?_
  refine (hb.unary _).bind fun value c₃ h₃ =>
    .pure (.combineFlat (.wordedUpTo rfl rfl hk ?_ ?_ rfl))
  · simpa [NodeKind.children] using h₁.append (h₂.append h₃)
  · exact ⟨value, by simp [NodeKind.children], rfl⟩

omit hb in
/-- Signs before an operand are passed over. -/
theorem leavesNoTrace_of_leading {k : TokenKind} {op : UnaryOp}
    (h : UnaryOp.leading? k = some op) : k.leavesNoTrace = true := by
  unfold UnaryOp.leading? at h
  split at h <;> first | rfl | exact absurd h (by simp)

/-- A sign before an operand, a cast, or an operand with what follows it. -/
theorem unary_reads : (unary below).Ensures c fun n c' => Reads .flat c [n] [] c' := by
  unfold unary
  refine .kind ?_
  split
  · rename_i op hop
    have hw := leavesNoTrace_of_leading hop
    refine .advance ((hb.unary _).bind fun operand c₁ h => .pure ?_)
    exact .wordedUpTo rfl hw rfl h ⟨operand, List.mem_singleton.mpr rfl, rfl⟩ rfl
  · refine .seesParenthesizedType ?_
    split
    · rename_i h
      -- the two tokens looked at say that a parenthesis opens here
      rw [Bool.and_eq_true, beq_iff_eq] at h
      exact castOperand_reads hb h.1
    · refine (primary_reads hb).bind fun n c₁ h => ?_
      exact (chain_reads (suffix_grows hb) h).mono fun _ _ h => h.1

end Below

/-! ## Operations

An operator is passed over when what is before it grows, so that the operands are the
only parts of an operation. -/

/-- Signs between operands are passed over. -/
theorem leavesNoTrace_of_binary {k : TokenKind} {op : BinaryOp}
    (h : BinaryOp.ofToken? k = some op) : k.leavesNoTrace = true := by
  unfold BinaryOp.ofToken? at h
  split at h <;> first | rfl | exact absurd h (by simp)

/-- A sign with a rank is that of its operator. -/
theorem ofToken_of_ranked {k : TokenKind} {op : BinaryOp} {priority : Nat}
    (h : ranked? k = some (op, priority)) : BinaryOp.ofToken? k = some op := by
  unfold ranked? at h
  simp only [bind, Option.bind_eq_some_iff] at h
  obtain ⟨op', h₁, p, -, h₂⟩ := h
  injection h₂ with h₂
  injection h₂ with h₂ _
  rw [h₁, h₂]

section Below

variable (hb : below.Sound)
include hb

/-- A test takes over the value and the type behind its word. -/
theorem typeTestSuffix_grows : Grows (typeTestSuffix below) := by
  intro target c
  unfold typeTestSuffix
  split
  · exact unchanged_ensures
  · refine .eats (fun hk => ?_) (fun _ => unchanged_ensures)
    refine (hb.type _).bind fun type c₁ h => .pure (.inr ⟨_, rfl, ?_, fun c₀ h₀ => ?_⟩)
    · exact Reads.left_lt_of_word rfl hk h
    · exact h₀.grownUpTo ((Reads.of_word rfl hk).append h) rfl rfl (List.mem_singleton.mpr rfl) rfl

theorem typeTest_reads : (typeTest below).Ensures c fun n c' => Reads .flat c [n] [] c' := by
  unfold typeTest
  refine (hb.unary _).bind fun n c₁ h => ?_
  exact (chain_reads (typeTestSuffix_grows hb) h).mono fun _ _ h => h.1

/-- An operator takes its left side over if it binds tightly enough, and else leaves all as it is.
-/
theorem operatorSuffix_grows (loosest : Nat) : Grows (operatorSuffix below loosest) := by
  intro lhs c
  unfold operatorSuffix
  refine .kind ?_
  split
  · rename_i op priority hr
    have hw := leavesNoTrace_of_binary (ofToken_of_ranked hr)
    split
    · refine .advance ((hb.operand _ _).bind fun rhs c₁ h => .pure ?_)
      refine .inr ⟨_, rfl, ?_, fun c₀ h₀ => ?_⟩
      · exact Reads.left_lt_of_word hw rfl h
      · exact h₀.grownUpTo ((Reads.of_word hw rfl).append h) rfl rfl
          (List.mem_singleton.mpr rfl) rfl
    · exact unchanged_ensures
  · exact unchanged_ensures

/-- Operators are chained behind the first operand, whatever the loosest rank that is taken. -/
theorem operand_reads (loosest : Nat) :
    (operand below loosest).Ensures c fun n c' => Reads .flat c [n] [] c' := by
  unfold operand
  refine (typeTest_reads hb).bind fun n c₁ h => ?_
  exact (chain_reads (operatorSuffix_grows hb loosest) h).mono fun _ _ h => h.1

/-- A condition, with its two alternatives where the question mark follows. -/
theorem alternative_reads :
    (alternative below).Ensures c fun n c' => Reads .flat c [n] [] c' := by
  unfold alternative
  refine (operand_reads hb _).bind fun condition c₁ h₁ => .eats (fun hk => ?_) (fun _ => .pure h₁)
  refine (hb.expression _).bind fun thenValue c₂ h₂ => colon_reads.bind fun hs c₃ h₃ => ?_
  refine (hb.alternative _).bind fun elseValue c₄ h₄ => .pure ?_
  -- all that comes behind the condition is read as one run of parts, with the colon's holes
  have hr : Reads .flat c₁ [thenValue, elseValue] hs c₄ := by
    simpa using (Reads.of_word rfl hk).append (h₂.append (h₃.append h₄))
  exact .combineFlat (h₁.grownUpTo hr rfl rfl (by simp) rfl)

/-- An alternative, or an assignment to it. -/
theorem expression_reads :
    (expression below).Ensures c fun n c' => Reads .flat c [n] [] c' := by
  unfold expression
  refine (alternative_reads hb).bind fun target c₁ h => .kind ?_
  split
  · rename_i op hop
    have hw := leavesNoTrace_of_binary hop
    split
    · refine .advance ((hb.expression _).bind fun value c₂ h₂ => .pure ?_)
      exact h.grownUpTo ((Reads.of_word hw rfl).append h₂) rfl rfl (List.mem_singleton.mpr rfl) rfl
    · exact .pure h
  · exact .pure h

end Below

end MudEdit.Parse
