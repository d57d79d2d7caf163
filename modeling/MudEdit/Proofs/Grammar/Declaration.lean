import MudEdit.Proofs.Grammar.Annotation

/-!
# Declarations are read by the rules

A declaration notes where it begins before it knows that there is a type. At a word that
starts another construct it takes nothing, and reaches up to that word. Files and classes
look for such words first, so that among their members every declaration takes a token.
-/

namespace MudEdit

variable {r : Reach} {c c' c₁ : Cursor} {below : Nested}

namespace Parse

/-! ## Directives -/

theorem emptyStatement_reads (hk : c.kind = .sign .semicolon) :
    emptyStatement.Ensures c fun n c' => Reads .taken c [n] [] c' := by
  have hl := Cursor.left_skip (Reads.atEnd_of_word rfl hk)
  exact .advance (.pure (.construct (.of_word rfl hk) rfl (.inl ⟨rfl, .inr hl⟩)
    (.inl (.inr ⟨rfl, hl⟩)) rfl (.of_not rfl _ _)))

theorem includeDirective_reads (hk : c.kind = .includeDirective) :
    includeDirective.Ensures c fun n c' => Reads .taken c [n] [] c' := by
  unfold includeDirective
  refine .advance (path_reads.bind fun file c₁ h => .pure ?_)
  have hl := Cursor.left_skip (Reads.atEnd_of_word rfl hk)
  have hflat := h.isFlat file (by simp)
  exact .record (.of_word rfl hk) hl h.of_flat rfl hflat (.inr rfl) (.of_not rfl _ _)

theorem inheritance_reads (hk : c.kind = .keyword .inheritWord) :
    inheritance.Ensures c fun n c' => Reads .taken c [n] [] c' := by
  unfold inheritance
  refine .advance (path_reads.bind fun file c₁ h₁ => semicolon_reads.bind fun hs c₂ h₂ => ?_)
  have hl := Cursor.left_skip (Reads.atEnd_of_word rfl hk)
  have hflat := h₁.isFlat file (by simp)
  refine .lastStop (.pure (.combine ?_ (.inl rfl)))
  exact .record (.of_word rfl hk) hl (h₁.append h₂).of_flat rfl hflat (.inl rfl) (.of_not rfl _ _)

/-! ## Names -/

theorem leavesNoTrace_of_overloadable {k : TokenKind} (h : k.isOverloadable = true) :
    k.leavesNoTrace = true := by
  cases k with
  | sign s => rfl
  | _ => exact absurd h (by simp [TokenKind.isOverloadable])

/-- The name of an operator has a sign in it, which no reserved word has. -/
theorem reservedWord?_operator {k : TokenKind} (h : k.isOverloadable = true) (closing : String) :
    reservedWord? ("operator" ++ k.signText?.getD "" ++ closing) = none := by
  have hall : (overloadable.all fun s => s.text.toList.any (!isWordChar ·)) = true := by decide
  cases k with
  | sign s =>
    have hs := List.all_eq_true.mp hall s (List.contains_iff_mem.mp h)
    obtain ⟨d, hd, hword⟩ := List.any_eq_true.mp hs
    refine Lexeme.reservedWord?_of_mem (c := d) ?_ (by simpa using hword)
    simp only [String.toList_append, List.mem_append]
    exact .inl (.inr hd)
  | _ => exact absurd h (by simp [TokenKind.isOverloadable])

theorem operatorCloser_reads (k : TokenKind) :
    (operatorCloser k).Ensures c fun p c' => Reads .flat c [] p.2 c' := by
  unfold operatorCloser
  split
  · rename_i s e _
    exact (expect_reads (k := .sign s) rfl e).bind fun p c' h => .pure h
  · exact .pure .nil

theorem declaredName_reads : declaredName.Ensures c fun n c' => Reads .flat c [n] [] c' := by
  unfold declaredName
  refine .eat? (fun hk => ?_) (fun _ => name_reads)
  refine .kind ?_
  split
  · exact (hole_reads _).mono fun n c' h => (Reads.of_word rfl hk).append h.2
  · rename_i ho
    have ho : c.skip.kind.isOverloadable = true := by simpa using ho
    have hw : c.skip.kind.leavesNoTrace = true := leavesNoTrace_of_overloadable ho
    refine .advance ((operatorCloser_reads _).bind fun p c' h =>
      .lastStop (.pure (.combineFlat ?_)))
    exact .operatorName _ (reservedWord?_operator ho _) (Reads.atEnd_of_word rfl hk)
      (by rw [hk]; rfl)
      ((Reads.of_word hw rfl).append h)

/-! ## Modifiers -/

theorem modifier_ensures : modifier.Ensures c fun _ c' => c' = c.skip := by
  unfold modifier
  refine .advance ?_
  split
  · exact .pure rfl
  · exact .pure rfl

theorem isContent_of_isModifier {k : TokenKind} (h : k.isModifier = true) :
    k.isContent = false := by
  unfold TokenKind.isModifier at h
  split at h
  · rfl
  · exact absurd h (by simp)

/-- The words of the modifiers are taken; without one nothing is. -/
theorem modifierWords_ensures : Ensures (manyUntil (!·.isModifier) modifier) c fun words c' =>
    (Reads .flat c [] [] c' ∧ (words = [] ∧ c' = c ∨ words ≠ [] ∧ c'.left < c.left)) ∧
      ((!c'.kind.isModifier) = true ∨ c'.atEnd = true) := by
  -- the words read so far are the tokens passed, and the first of them took one
  let I := fun (words : List (Option Modifier)) c' => Reads .flat c [] [] c' ∧
    (words = [] ∧ c' = c ∨ words ≠ [] ∧ c'.left < c.left)
  refine Ensures.manyUntil (I := I) ?_ [] c ⟨.nil, .inl ⟨rfl, rfl⟩⟩
  intro words c₁ hp hk he
  obtain ⟨hr, -⟩ := hp
  have hm : c₁.kind.isModifier = true := by simpa using hk
  have hl : c₁.skip.left < c.left := Nat.lt_of_lt_of_le (Cursor.left_skip he) hr.left_le
  refine modifier_ensures.mono ?_
  intro word _ heq
  subst heq
  exact ⟨⟨hr.append (.word he (isContent_of_isModifier hm)), .inr ⟨by simp, hl⟩⟩,
    Cursor.left_skip he⟩

/-- Without a modifier at the cursor nothing is taken, and with one something is. -/
theorem modifiers_ensures : modifiers.Ensures c fun o c' =>
    (o = none ∧ c.kind.isModifier = false ∧ c' = c) ∨
      ∃ n, o = some n ∧ Reads .flat c [n] [] c' ∧ c'.left < c.left := by
  unfold modifiers
  refine .here (modifierWords_ensures.bind ?_)
  intro words c' hp
  obtain ⟨⟨hr, hw⟩, hstop⟩ := hp
  rcases hw with ⟨rfl, rfl⟩ | ⟨hw, hl⟩
  · refine .pure (.inl ⟨rfl, ?_, rfl⟩)
    rcases hstop with h | h
    · simpa using h
    · rw [Cursor.kind_of_atEnd h]; rfl
  · rw [if_neg (by simpa using hw)]
    refine .lastStop (.pure (.inr ⟨_, rfl, ?_, hl⟩))
    exact .construct hr rfl (.inl ⟨rfl, .inr hl⟩) (.inl (.inl rfl)) rfl (.of_not rfl _ _)

section Below

variable (hb : below.Sound)
include hb

/-! ## Variables -/

theorem initialValue_reads :
    (initialValue below).Ensures c fun o c' => Reads .flat c o.toList [] c' := by
  unfold initialValue
  refine .eats (fun hk => ?_) (fun _ => .pure .nil)
  exact (hb.expression _).bind fun n c' h => .pure ((Reads.of_word rfl hk).append h)

/-- A type behind a name stands behind a colon. -/
theorem annotatedType_ensures (certain : Bool) :
    (annotatedType below certain).Ensures c fun o c' => Reads .flat c o.toList [] c' ∧
      ∀ mark, c.Placed mark → ∀ type ∈ o, c.current.begin < type.begin := by
  unfold annotatedType
  refine .sees (.nextKind ?_)
  split
  · rename_i h
    rw [Bool.and_eq_true, beq_iff_eq] at h
    refine .advance ((hb.type _).bind fun n c' h' => .pure ⟨?_, fun mark hc type ht => ?_⟩)
    · exact (Reads.of_word rfl h.1).append h'
    -- the colon lies before the type
    · obtain ⟨hskip, hlt⟩ := hc.skip (Reads.atEnd_of_word rfl h.1)
      have hle := (h'.within hskip n (by simp)).lo_le
      exact Option.some.inj ht ▸ Nat.lt_of_lt_of_le hlt hle
  · exact .pure ⟨.nil, by simp⟩

omit hb in
/-- A name that was read before its type is put behind it. -/
theorem variableDef_reads {mods type value : Option Node} {title : Node} {c₂ c₃ : Cursor}
    {hs : List Node} (h : Reads .flat c mods.toList [] c₁) (h₁ : Reads .flat c₁ [title] [] c₂)
    (h₂ : Reads .flat c₂ type.toList [] c₃)
    (hcolon : ∀ mark, c₂.Placed mark → ∀ t ∈ type, c₂.current.begin < t.begin)
    (h₃ : Reads .flat c₃ value.toList hs c') :
    Reads .flat c (NodeKind.variableDef mods type title value).children hs c' := by
  have hr : Reads .flat c (mods.toList ++ title :: (type.toList ++ value.toList)) hs c' :=
    h.append (h₁.append (h₂.append h₃))
  -- the node lists the type before the name, which is not the order it was read in
  refine .reorder hr ?_ fun mark hc hparts => ?_
  · simp only [NodeKind.children, List.append_assoc]
    exact (List.perm_middle.symm).append_left _
  · refine NodeKind.pairwise_variableDef hparts fun t ht => .inr ⟨?_, ?_, ?_⟩
    · exact h₂.isFlat t (List.mem_append_left _ (Option.mem_toList.mpr ht))
    · exact h₁.isFlat title (by simp)
    · obtain ⟨_, ht₁⟩ := h.takes
      obtain ⟨_, ht₂⟩ := h₁.takes
      have hp₁ := (hc.takes ht₁).1
      have hp₂ := (hp₁.takes ht₂).1
      have hstop := (h₁.within hp₁ title (by simp)).le_hi
      have hlimit := hp₂.limit_le_current .flat
      have := hcolon mark hp₂ t ht
      omega

/-- The parts of a `let` are all flat; the modifiers were read before. -/
theorem letDefinition_ensures (begin : Nat) {mods : Option Node}
    (h : Reads .flat c mods.toList [] c₁) (hk : c₁.kind = .keyword .letWord) :
    (letDefinition below begin mods).Ensures c₁ fun n c' =>
      ∃ type title value hs, n = (Node.new begin c'.lastStop
          (.variableDef mods type title value)).combine hs ∧
        Reads .flat c (NodeKind.variableDef mods type title value).children hs c' ∧
        c'.left < c.left := by
  unfold letDefinition
  refine .advance (name_reads.bind fun title c₂ h₂ => ?_)
  refine (annotatedType_ensures hb _).bind fun type c₃ ⟨h₃, hcolon⟩ => ?_
  refine (initialValue_reads hb).bind fun value c₄ h₄ => semicolon_reads.bind fun hs c₅ h₅ => ?_
  -- the missing semicolon's hole goes with the value
  have hvalue : Reads .flat c₃ value.toList hs c₅ := by simpa using h₄.append h₅
  have hmods : Reads .flat c mods.toList [] c₁.skip := by
    simpa using h.append (Reads.of_word rfl hk)
  have hp := variableDef_reads hmods h₂ h₃ hcolon hvalue
  have hl : c₅.left < c.left :=
    Nat.lt_of_lt_of_le (Reads.left_lt_of_word rfl hk (h₂.append (h₃.append hvalue))) h.left_le
  exact .lastStop (.pure ⟨type, title, value, hs, rfl, hp, hl⟩)

/-- The definition begins where its modifiers do. -/
theorem letDefinition_reads {mods : Option Node} (h : Reads .flat c mods.toList [] c₁)
    (hk : c₁.kind = .keyword .letWord) :
    (letDefinition below c.current.begin mods).Ensures c₁ fun n c' =>
      Reads .taken c [n] [] c' := by
  refine (letDefinition_ensures hb _ h hk).mono ?_
  intro _ c' hcase
  obtain ⟨type, title, value, hs, rfl, hp, hl⟩ := hcase
  exact .combine (.variableDef (by simp) hp (.inr hl)) (.inl rfl)

/-- The type and the name were read before, and more if this is not the start of a statement. -/
theorem variableRest_reads {mods : Option Node} {type title : Node}
    (h : Reads .flat c (mods.toList ++ [type, title]) [] c₁) (hf : r ≠ .flat)
    (hl : r = .ahead ∨ c₁.left < c.left) :
    (variableRest below c.current.begin mods type title).Ensures c₁ fun n c' =>
      Reads r c [n] [] c' := by
  unfold variableRest
  refine (initialValue_reads hb).bind fun value c₂ h₂ => semicolon_reads.bind fun hs c₃ h₃ => ?_
  have hr := h₂.append h₃
  refine .lastStop (.pure (.combine (.variableDef hf ?_ ?_) (.inl rfl)))
  · simpa [NodeKind.children] using h.append hr
  · exact hl.imp_right (Nat.lt_of_le_of_lt hr.left_le)

/-- The parts of a variable without a value are all flat. -/
theorem bareVariable_ensures : (bareVariable below).Ensures c fun n c' =>
    ∃ type title, n = .new c.current.begin c'.lastStop (.variableDef none type title none) ∧
      Reads .flat c (NodeKind.variableDef none type title none).children [] c' := by
  unfold bareVariable
  refine .here (.eats (fun hk => ?_) (fun _ => ?_))
  · refine name_reads.bind fun title c₁ h₁ => ?_
    refine (annotatedType_ensures hb _).bind fun type c₂ ⟨h₂, hcolon⟩ => .lastStop (.pure ?_)
    exact ⟨type, title, rfl, variableDef_reads (.of_word rfl hk) h₁ h₂ hcolon .nil⟩
  · refine (hb.type _).bind fun type c₁ h₁ => name_reads.bind fun title c₂ h₂ => ?_
    exact .lastStop (.pure ⟨some type, title, rfl, h₁.append h₂⟩)

theorem bareVariable_reads : (bareVariable below).Ensures c fun n c' =>
    Reads .ahead c [n] [] c' ∧ n.kind.isVariable = true := by
  refine (bareVariable_ensures hb).mono ?_
  intro _ c' hcase
  obtain ⟨type, title, rfl, hp⟩ := hcase
  exact ⟨.variableDef (by simp) hp (.inl rfl), rfl⟩

/-! ## Functions -/

omit hb in
theorem parameter_isProper {type : Node} {title : Option Node}
    (h : Reads .flat c (type :: title.toList) [] c') :
    (NodeKind.parameter type title).isProper = true := by
  rw [NodeKind.isProper, List.all_eq_true]
  exact fun n hn => h.isFlat n (List.mem_append_left _ hn)

theorem parameter_reads : (parameter below).Ensures c fun n c' =>
    Reads .taken c [n] [] c' ∧ (n.isFlat || n.kind.isParameter) = true := by
  unfold parameter
  refine .here (.kind (.seesParenthesizedType ?_))
  split
  · refine (hole_reads _).mono ?_
    intro n c' hp
    obtain ⟨-, h⟩ := hp
    exact ⟨h.of_flat, by rw [h.isFlat n (by simp), Bool.true_or]⟩
  · rename_i hs
    -- what starts like a type is known to take a token
    have hw : c.kind.isTypeWord = true ∨ c.kind = .sign .leftParen := by
      simp only [Bool.and_eq_true, Bool.not_eq_true', not_and, Bool.not_eq_false,
        beq_iff_eq] at hs
      cases ht : c.kind.isTypeWord with
      | true => exact .inl rfl
      | false => exact .inr (hs ht).1
    refine ((hb.type c).and (hb.type_takes c hw)).bind fun type c₁ ⟨h₁, hl⟩ => ?_
    refine .eat? (fun hk => ?_) (fun _ => ?_)
    · have hr : Reads .flat c [type, nameNode c₁.current] [] c₁.skip :=
        h₁.append (nameNode_reads hk)
      have hlt : c₁.skip.left < c.left :=
        Nat.lt_trans (Cursor.left_skip (Cursor.atEnd_of_kind (by simp [hk]))) hl
      have hp : (NodeKind.parameter type (some (nameNode c₁.current))).isProper = true :=
        parameter_isProper hr
      exact .lastStop (.pure ⟨.recordFlat hr hlt hp rfl, rfl⟩)
    · refine .lastStop (.pure ⟨?_, rfl⟩)
      have hp : (NodeKind.parameter type none).isProper = true := parameter_isProper h₁
      exact .construct h₁.embed hp (.inl ⟨rfl, .inr hl⟩) (.inl (.inl rfl)) rfl (.of_not rfl _ _)

/-- A block ends with its brace or with the text, which is beyond all of its statements. -/
theorem block_reads (hk : c.kind = .sign .leftBrace) :
    (block below).Ensures c fun n c' => Reads .taken c [n] [] c' := by
  unfold block
  refine .advance ?_
  -- the statements may reach up to the token that stops them
  refine (manyUntil_reads fun c _ he => guarded_reads he (hb.statement c)).bind ?_
  intro statements c₁ hp
  obtain ⟨h₁, hstop⟩ := hp
  refine (closeBrace_reads.and (closeBrace_settles hstop)).bind fun hs c₂ ⟨h₂, hl⟩ => ?_
  have hr : Reads .taken c.skip statements hs c₂ := by
    simpa using h₁.settle h₂.of_flat hl
  refine .lastStop (.pure (.combine (.worded rfl rfl hk hr rfl) ?_))
  have hskip := Cursor.left_skip (Reads.atEnd_of_word rfl hk)
  exact Reads.precedes (.of_word (r := .flat) rfl hk) hskip hr (Node.begin_new_le ..)

theorem functionBody_reads : (functionBody below).Ensures c fun p c' =>
    Reads .taken c p.1.toList p.2 c' := by
  unfold functionBody
  refine .sees ?_
  split
  · exact (block_reads hb (beq_iff_eq.mp ‹_›)).bind fun n c' h => .pure h
  · exact semicolon_reads.bind fun hs c' h => .pure h.of_flat

/-- The type and the name were read before. -/
theorem functionRest_reads {mods : Option Node} {returns title : Node}
    (h : Reads .flat c (mods.toList ++ [returns, title]) [] c₁)
    (hk : c₁.kind = .sign .leftParen) :
    (functionRest below c.current.begin mods returns title).Ensures c₁ fun n c' =>
      Reads .taken c [n] [] c' := by
  unfold functionRest
  refine .advance ((separatedOpen_reads fun c _ => parameter_reads hb).bind ?_)
  intro p c₂ hp
  obtain ⟨parameters, variadic⟩ := p
  obtain ⟨h₂, hformal⟩ := hp
  show Ensures (closeParen >>= _) _ _
  refine closeParen_reads.bind fun hs c₃ h₃ => (functionBody_reads hb).bind ?_
  intro p c₄ h₄
  obtain ⟨body, gs⟩ := p
  -- the parameters are read after the parenthesis that opens, and declare names as well
  have hhead : Reads .flat c (mods.toList ++ [returns, title]) [] c₁.skip := by
    simpa using h.append (Reads.of_word rfl hk)
  have hl : c₁.skip.left < c.left :=
    Nat.lt_of_lt_of_le (Cursor.left_skip (Reads.atEnd_of_word rfl hk)) h.left_le
  have hrest : Reads .taken c₁.skip (parameters ++ body.toList) (hs ++ gs) c₄ := by
    simpa using h₂.append (h₃.of_flat.append h₄)
  let kind := NodeKind.functionDef mods returns title parameters variadic body
  have hp : kind.isProper = true := by
    rw [NodeKind.isProper, Bool.and_eq_true, List.all_eq_true, List.all_eq_true]
    exact ⟨fun n hn => h.isFlat n (List.mem_append_left _ hn), hformal⟩
  have hch : kind.children = mods.toList ++ [returns, title] ++ (parameters ++ body.toList) := by
    simp [kind, NodeKind.children]
  have hrec : Reads .taken c [.new c.current.begin c₄.lastStop kind] (hs ++ gs) c₄ := by
    simpa using Reads.record hhead hl hrest hch hp (.inl rfl) (.of_not rfl _ _)
  exact .lastStop (.pure (.combine hrec (.inl rfl)))

/-! ## Declarations and members -/

/-- The words at which a declaration takes nothing, since other constructs start with them. -/
def startsOther : TokenKind → Bool
  | .keyword .inheritWord | .keyword .classWord | .includeDirective => true
  | _ => false

omit hb in
theorem startsType_of_declaration {k : TokenKind} (h : k.startsDeclaration = true)
    (hm : k.isModifier = false) (hl : k ≠ .keyword .letWord) (ho : startsOther k = false) :
    k.isTypeWord = true := by
  unfold TokenKind.startsDeclaration at h
  split at h
  · rfl
  · exact absurd hm (by simp [TokenKind.isModifier])
  · exact absurd rfl hl
  · exact absurd ho (by simp [startsOther])
  · exact absurd ho (by simp [startsOther])
  · exact absurd ho (by simp [startsOther])
  · exact absurd h (by simp)

/-- A declaration takes a token, unless it starts with a word of another construct. -/
theorem declaration_reads (hf : r ≠ .flat) (hr : r = .ahead ∨ startsOther c.kind = false) :
    (declaration below).Ensures c fun n c' => Reads r c [n] [] c' := by
  unfold declaration
  refine .here (.kind (.seesParenthesizedType ?_))
  split
  · exact (refuse_reads _).mono fun n c' h => .of_flat h.1
  · rename_i hs
    refine modifiers_ensures.bind fun mods c₁ hm => ?_
    have h₁ : Reads .flat c mods.toList [] c₁ := by
      rcases hm with ⟨rfl, -, rfl⟩ | ⟨n, rfl, h, -⟩
      · exact .nil
      · exact h
    refine .sees ?_
    split
    · rename_i hk
      exact (letDefinition_reads hb h₁ (beq_iff_eq.mp hk)).mono fun _ _ h => .of_taken h hf
    · rename_i hk
      have htype : below.type.Ensures c₁ fun n c' =>
          Reads .flat c₁ [n] [] c' ∧ (r = .ahead ∨ c'.left < c.left) := by
        rcases hr with hr | ho
        · exact (hb.type c₁).mono fun n c' h => ⟨h, .inl hr⟩
        · rcases hm with ⟨-, hm, rfl⟩ | ⟨n, -, -, hl⟩
          · -- without modifiers the type is what the declaration starts with
            have hw : c₁.kind.isTypeWord = true ∨ c₁.kind = .sign .leftParen := by
              cases hd : c₁.kind.startsDeclaration with
              | true => exact .inl (startsType_of_declaration hd hm (by simpa using hk) ho)
              | false =>
                have hp : c₁.kind = .sign .leftParen ∧ c₁.nextKind.isTypeWord = true := by
                  simpa [hd] using hs
                exact .inr hp.1
            exact ((hb.type c₁).and (hb.type_takes c₁ hw)).mono fun n c' h => ⟨h.1, .inr h.2⟩
          · exact (hb.type c₁).mono fun n c' h => ⟨h, .inr (Nat.lt_of_le_of_lt h.left_le hl)⟩
      refine htype.bind fun type c₂ ⟨h₂, hl⟩ => declaredName_reads.bind fun title c₃ h₃ => ?_
      have h₄ : Reads .flat c (mods.toList ++ [type, title]) [] c₃ := by
        simpa using h₁.append (h₂.append h₃)
      refine .sees ?_
      split
      · rename_i hp
        exact (functionRest_reads hb h₄ (beq_iff_eq.mp hp)).mono fun _ _ h => .of_taken h hf
      · exact variableRest_reads hb h₄ hf (hl.imp_right (Nat.lt_of_le_of_lt h₃.left_le))

/-- A class body takes its braces and its members, or reports what is missing of them. -/
theorem classBody_reads : (classBody below).Ensures c fun p c' => Reads .taken c p.1 p.2 c' := by
  unfold classBody
  refine (expect_reads rfl _).bind ?_
  intro p c₁ h₁
  obtain ⟨opened, opening⟩ := p
  cases opened with
  | false => exact .pure h₁.of_flat
  | true =>
    show Ensures (manyUntil _ _ >>= _) _ _
    refine (manyUntil_reads fun c _ he => guarded_reads he (hb.member c)).bind ?_
    intro members c₂ hp
    obtain ⟨h₂, -⟩ := hp
    refine closeBrace_reads.bind fun closing c₃ h₃ => ?_
    have hr := h₁.of_flat.append (h₂.append h₃.of_flat)
    -- the semicolon behind the brace may be there or not
    refine .eats (fun hk => .pure ?_) (fun _ => .pure (by simpa using hr))
    simpa using hr.append (.of_word rfl hk)

/-- A class is its word, its name and then a file or a body. -/
theorem classDefinition_reads (hk : c.kind = .keyword .classWord) :
    (classDefinition below).Ensures c fun n c' => Reads .taken c [n] [] c' := by
  unfold classDefinition
  refine .advance (name_reads.bind fun title c₁ h₁ => ?_)
  have ht : Reads .flat c [title] [] c₁ := (Reads.of_word rfl hk).append h₁
  have hl : c₁.left < c.left := Reads.left_lt_of_word rfl hk h₁
  have hflat := h₁.isFlat title (by simp)
  refine .sees ?_
  split
  · refine (strings_reads (beq_iff_eq.mp ‹_›)).bind fun file c₂ h₂ => ?_
    refine semicolon_reads.bind fun hs c₃ h₃ => .lastStop (.pure (.combine ?_ ?_))
    -- a class of another file: its strings, then a semicolon
    · have hfile := h₂.isFlat file (by simp)
      have hp : (NodeKind.classDef title (some file) []).isProper = true := by
        simp [NodeKind.isProper, hflat, hfile]
      have hr : Reads .taken c₁ [file] hs c₃ := (h₂.append h₃).of_flat
      exact .record ht hl hr rfl hp (.inl rfl) (Reads.headed rfl hk (h₁.of_flat.append hr))
    · exact Reads.precedes ht hl (h₂.append h₃) (Node.begin_new_le ..)
  · refine (classBody_reads hb).bind ?_
    intro p c₂ h₂
    obtain ⟨members, bracing⟩ := p
    have hp : (NodeKind.classDef title none members).isProper = true := by
      simp [NodeKind.isProper, hflat]
    have hhead : (NodeKind.classDef title none members).Headed c c.current.begin :=
      Reads.headed rfl hk (h₁.of_flat.append h₂)
    refine .lastStop (.pure (.combine (.record ht hl h₂ rfl hp (.inl rfl) hhead) ?_))
    exact Reads.precedes ht hl h₂ (Node.begin_new_le ..)

/-- Files and classes look for the words of other constructs first. -/
theorem member_reads : (member below).Ensures c fun n c' => Reads .taken c [n] [] c' := by
  unfold member
  refine .kind ?_
  split
  · exact includeDirective_reads ‹_›
  · exact inheritance_reads ‹_›
  · exact classDefinition_reads hb ‹_›
  · exact emptyStatement_reads ‹_›
  · rename_i h₁ h₂ h₃ _
    -- what is left starts with none of those words
    refine declaration_reads hb (by simp) (.inr ?_)
    unfold startsOther
    split
    · exact absurd ‹_› h₂
    · exact absurd ‹_› h₃
    · exact absurd ‹_› h₁
    · rfl

end Below

end Parse

end MudEdit
