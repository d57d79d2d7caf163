import MudEdit.Grammar.Expression
import MudEdit.Proofs.Grammar.Operand
import MudEdit.Proofs.Node.Sequence

/-!
# Holes come as their constructs are read

A hole lies where the cursor is when it is left, at the end of the last token taken or at the
current one, and the cursor only moves on. So holes begin in the order in which they are left, and
it remains to follow where each production puts them: behind a construct, if all of it was read
before, or behind a construct of which some part was read later. Types and expressions are followed
here.
-/

namespace MudEdit

variable {α : Type} {mark : Nat → Prop} {c c₁ c₂ c' : Cursor} {n p : Node} {ns ms hs gs : List Node}
  {begin stop : Nat} {kind : NodeKind} {e : Expected}

namespace Cursor.Placed

/-- Past the current token, be it the end of the text, the places are still in order. -/
theorem past (h : c.Placed mark) :
    c.skip.Placed mark ∧ c.lastStop ≤ c.current.begin ∧ c.current.begin ≤ c.skip.lastStop := by
  have hle := h.lastStop_le_current
  cases he : c.atEnd with
  | false =>
    obtain ⟨hp, hlt⟩ := h.skip he
    exact ⟨hp, hle, Nat.le_of_lt hlt⟩
  | true =>
    -- the end of the text is taken again and again
    have hskip : c.skip.taken = .eof c.textEnd :: c.taken ∧ c.skip.ahead = [] ∧
        c.skip.textEnd = c.textEnd := by
      unfold Cursor.skip
      split
      · exact ⟨rfl, ahead_eq_nil he, rfl⟩
      · rename_i ha
        exact absurd (ahead_eq_nil he) (by simp [ha])
    -- so the last token taken is that end from here on
    have hstop : c.skip.lastStop = c.textEnd := by rw [Cursor.lastStop, hskip.1]; rfl
    refine ⟨⟨?_, ?_, ?_, ?_⟩, hle, ?_⟩
    · rw [hstop, hskip.2.1, hskip.2.2]
      exact .nil (Nat.le_refl _)
    · rw [hstop]
      exact h.textEnd_mark
    · rw [hskip.2.2]
      exact h.textEnd_mark
    · rw [hskip.2.1]
      exact List.forall_mem_nil _
    · rw [hstop]
      exact h.current_le_textEnd.1

end Cursor.Placed

/-! ## Ways to read -/

/-- Between the cursors the constructs `ns` and the holes `hs` were read, each in its turn. -/
def Sequenced (c : Cursor) (ns hs : List Node) (c' : Cursor) : Prop :=
  ∀ mark, c.Placed mark → c'.Placed mark ∧ InTurn c.lastStop c'.lastStop ns hs

namespace Sequenced

/-- What reads nothing has nothing out of turn. -/
theorem nil : Sequenced c [] [] c := fun _ hc => ⟨hc, .nil (Nat.le_refl _)⟩

/-- What is read first has its holes first. -/
theorem append (h₁ : Sequenced c ns hs c₁) (h₂ : Sequenced c₁ ms gs c') :
    Sequenced c (ns ++ ms) (hs ++ gs) c' := fun mark hc => by
  obtain ⟨hc₁, hturn₁⟩ := h₁ mark hc
  obtain ⟨hc', hturn₂⟩ := h₂ mark hc₁
  exact ⟨hc', hturn₁.append hturn₂⟩

/-- A token is passed over. -/
theorem word : Sequenced c [] [] c.skip := fun _ hc => by
  obtain ⟨hp, hle, hle'⟩ := hc.past
  exact ⟨hp, .nil (Nat.le_trans hle hle')⟩

/-- A hole left where the cursor is. -/
theorem missing : Sequenced c [.missing c.lastStop e] [] c :=
  fun _ hc => ⟨hc, .hole rfl (Nat.le_refl _) (Nat.le_refl _)⟩

/-- A token is taken as wrong. -/
theorem wrong : Sequenced c [.wrong c.current e] [] c.skip := fun _ hc => by
  obtain ⟨hp, hle, hle'⟩ := hc.past
  exact ⟨hp, .hole rfl hle hle'⟩

/-- Holes that stand among the constructs are as well kept apart from them. -/
theorem toAside (h : Sequenced c hs [] c') : Sequenced c [] hs c' :=
  fun mark hc => ⟨(h mark hc).1, (h mark hc).2.toAside⟩

/-- Of what is thrown away only the holes remain. -/
theorem drop (h : Sequenced c ns hs c') : Sequenced c [] hs c' :=
  fun mark hc => ⟨(h mark hc).1, (h mark hc).2.drop⟩

/-- A construct of the parts just read. -/
theorem new (h : Sequenced c kind.children hs c')
    (hn : (Node.new begin stop kind).isHole = false) : Sequenced c [.new begin stop kind] hs c' :=
  fun mark hc => ⟨(h mark hc).1, (h mark hc).2.new hn⟩

/-- A construct without parts, made where a token is passed over. -/
theorem leaf (hk : kind.children = []) (hn : (Node.new begin stop kind).isHole = false) :
    Sequenced c [.new begin stop kind] [] c.skip :=
  .new (by rw [hk]; exact .word) hn

/-- A construct joined with the holes found after it. -/
theorem late (h : Sequenced c [p] [] c₁) (hh : Sequenced c₁ [] hs c') :
    Sequenced c [p.combine hs] [] c' := fun mark hc => by
  obtain ⟨hc₁, hturn⟩ := h mark hc
  obtain ⟨hc', hholes⟩ := hh mark hc₁
  exact ⟨hc', hturn.late hholes⟩

/-- A construct of its parts, joined with the holes found after them. -/
theorem closed (h : Sequenced c kind.children [] c₁) (hh : Sequenced c₁ [] hs c')
    (hn : (Node.new begin stop kind).isHole = false) :
    Sequenced c [(Node.new begin stop kind).combine hs] [] c' := (h.new hn).late hh

/-- A construct of its parts, joined with the holes found between them. -/
theorem gathered (h : Sequenced c kind.children hs c') (hk : kind.gathers = true) :
    Sequenced c [(Node.new begin stop kind).combine hs] [] c' := fun mark hc => by
  have hn : (Node.new begin stop kind).isHole = false := by
    unfold NodeKind.gathers at hk
    split at hk <;> first | rfl | exact absurd hk Bool.false_ne_true
  obtain ⟨hc', hturn⟩ := h mark hc
  exact ⟨hc', (hturn.new hn).gathered hk⟩

/-- A variable that was read with its name before its type. -/
theorem titled {mods type value : Option Node} {title : Node}
    (h : Sequenced c (mods.toList ++ title :: (type.toList ++ value.toList)) [] c') :
    Sequenced c [.new begin stop (.variableDef mods type title value)] [] c' :=
  fun mark hc => ⟨(h mark hc).1, (h mark hc).2.titled⟩

/-- One level deeper and back. -/
theorem deeper (h : Sequenced { c with depth := c.depth + 1 } ns hs c') :
    Sequenced c ns hs { c' with depth := c'.depth - 1 } := fun mark hc => by
  obtain ⟨hp, hturn⟩ := h mark ⟨hc.order, hc.lastStop_mark, hc.textEnd_mark, hc.ahead_mark⟩
  exact ⟨⟨hp.order, hp.lastStop_mark, hp.textEnd_mark, hp.ahead_mark⟩, hturn⟩

end Sequenced

/-- The productions of a level read in sequence. -/
structure Nested.Sequences (below : Nested) : Prop where
  statement : ∀ c, below.statement.Ensures c fun n c' => Sequenced c [n] [] c'
  member : ∀ c, below.member.Ensures c fun n c' => Sequenced c [n] [] c'
  expression : ∀ c, below.expression.Ensures c fun n c' => Sequenced c [n] [] c'
  alternative : ∀ c, below.alternative.Ensures c fun n c' => Sequenced c [n] [] c'
  operand : ∀ loosest c, (below.operand loosest).Ensures c fun n c' => Sequenced c [n] [] c'
  unary : ∀ c, below.unary.Ensures c fun n c' => Sequenced c [n] [] c'
  type : ∀ c, below.type.Ensures c fun n c' => Sequenced c [n] [] c'

namespace Parse

/-! ## Holes -/

/-- A wrong token is a hole as long as the token. -/
theorem wrongCurrent_sequenced : (wrongCurrent e).Ensures c fun n c' => Sequenced c [n] [] c' :=
  .advance (.pure .wrong)

/-- A hole is left behind the last token or made of the next one. -/
theorem hole_sequenced : (hole e).Ensures c fun n c' => Sequenced c [n] [] c' := by
  unfold hole
  refine .kind ?_
  split
  · exact .lastStop (.pure .missing)
  · exact wrongCurrent_sequenced

/-- What is refused is a hole wherever it is. -/
theorem refuse_sequenced : (refuse e).Ensures c fun n c' => Sequenced c [n] [] c' := by
  unfold refuse
  refine .atEnd ?_
  split
  · exact .lastStop (.pure .missing)
  · exact wrongCurrent_sequenced

/-- The hole of a token that is looked for is kept apart, whether or not the token comes after it.
-/
theorem expect_sequenced {k : TokenKind} :
    (expect k e).Ensures c fun p c' => Sequenced c [] p.2 c' := by
  unfold expect
  refine .eats (fun _ => .pure .word) fun _ => hole_sequenced.bind fun h c₁ h₁ => ?_
  split
  · exact .pure h₁.toAside
  · refine .eats (fun _ => .pure ?_) fun _ => .pure h₁.toAside
    simpa using h₁.toAside.append .word

/-- One lemma for all the tokens that constructs need. -/
theorem needed_sequenced (k : TokenKind) (e : Expected) :
    Ensures (do return (← expect k e).2) c fun hs c' => Sequenced c [] hs c' :=
  expect_sequenced.bind fun _ _ h => .pure h

/-! ## Loops -/

section Loops

variable {stops : TokenKind → Bool} {closer : TokenKind} {item : Parse Node}

/-- A token more that a loop takes as wrong is found behind the construct of its turn. -/
theorem guarded_sequenced (h : ∀ c, item.Ensures c fun n c' => Sequenced c [n] [] c') :
    (guarded item).Ensures c fun n c' => Sequenced c [n] [] c' := by
  unfold guarded
  refine .left ((h c).bind fun n c₁ h₁ => .atEnd (.left ?_))
  split
  · exact .pure h₁
  · exact wrongCurrent_sequenced.bind fun g c₂ h₂ => .pure (h₁.late h₂.toAside)

/-- It does not matter whether a turn takes a token: if it does not, it is the last one. -/
theorem manyUntil_sequenced (h : ∀ c, item.Ensures c fun n c' => Sequenced c [n] [] c') :
    Ensures (manyUntil stops item) c fun ns c' => Sequenced c ns [] c' := by
  -- by the tokens left, of which a turn that is followed by another one takes some
  induction hleft : c.left using Nat.strongRecOn generalizing c with
  | ind k ih =>
    have hturn := h c
    unfold Ensures at hturn ⊢
    rw [manyUntil]
    split
    · exact .nil
    · generalize item c = turned at hturn ⊢
      obtain ⟨n, after⟩ := turned
      dsimp only at hturn ⊢
      split
      · rename_i hlt
        exact hturn.append (ih _ (hleft ▸ hlt) rfl)
      · exact hturn

/-- The signs between the constructs of a list leave nothing. -/
theorem separated_sequenced (h : ∀ c, item.Ensures c fun n c' => Sequenced c [n] [] c') :
    Ensures (separated closer item) c fun ns c' => Sequenced c ns [] c' := by
  refine Ensures.separated (I := fun ns c' => Sequenced c ns [] c') ?_ ?_ [] c .nil
  · exact fun ns c₁ h₁ _ => (h c₁).mono fun n c₂ h₂ => by simpa using h₁.append h₂
  · exact fun ns c₁ h₁ _ => by simpa using h₁.append .word

/-- The same of a list that may end with a sign of its own. -/
theorem separatedOpen_sequenced (h : ∀ c, item.Ensures c fun n c' => Sequenced c [n] [] c') :
    Ensures (separatedOpen item) c fun ps c' => Sequenced c ps.1 [] c' := by
  refine Ensures.separatedOpen (I := fun ns c' => Sequenced c ns [] c') ?_ ?_ [] c .nil
  · exact fun ns c₁ h₁ _ => (h c₁).mono fun n c₂ h₂ => by simpa using h₁.append h₂
  · exact fun ns c₁ h₁ _ => by simpa using h₁.append .word

end Loops

/-- Wherever a construct was read, what it grows to was read from there on as well. -/
def Prolongs (grow : Node → Parse (Option Node)) : Prop :=
  ∀ c₀ n c, Sequenced c₀ [n] [] c → (grow n).Ensures c fun o c' => Sequenced c₀ [o.getD n] [] c'

/-- A construct that grows again and again stays in sequence. -/
theorem chain_sequenced {grow : Node → Parse (Option Node)} (hg : Prolongs grow)
    (h : Sequenced c [n] [] c₁) : Ensures (chain grow n) c₁ fun m c' => Sequenced c [m] [] c' :=
  Ensures.chain (I := fun m c' => Sequenced c [m] [] c') (fun m c₂ => hg c m c₂) n c₁ h

/-! ## Names and strings -/

/-- A name that is not there is a hole in its place. -/
theorem name_sequenced : name.Ensures c fun n c' => Sequenced c [n] [] c' :=
  .eat? (fun _ => .pure (.leaf rfl rfl)) fun _ => hole_sequenced

/-- Literals side by side are read in their order. -/
theorem strings_sequenced : strings.Ensures c fun n c' => Sequenced c [n] [] c' := by
  unfold strings
  refine (manyUntil_sequenced fun c => .advance (.pure (.leaf rfl rfl))).bind fun parts c₁ h => ?_
  split
  · exact .pure h
  · exact .lastStop (.pure (.new h rfl))

/-- The strings of a path, or a hole in their place. -/
theorem path_sequenced : path.Ensures c fun n c' => Sequenced c [n] [] c' := by
  unfold path
  refine .sees ?_
  split
  · exact strings_sequenced
  · exact hole_sequenced

/-- What stands in the angle brackets of a type leaves its holes only. -/
theorem typeFile_sequenced (basic : BasicKind) :
    (typeFile basic).Ensures c fun p c' => Sequenced c [] p.2 c' := by
  unfold typeFile
  split
  · exact .pure .nil
  · refine .eats (fun _ => ?_) fun _ => .pure .nil
    show Ensures (path >>= _) _ _
    refine path_sequenced.bind fun file c₁ h₁ => expect_sequenced.bind fun p c₂ h₂ => ?_
    have hword : Sequenced c [] [] c.skip := .word
    dsimp only
    -- the type takes the text of a file over, and any other node is put aside as a hole
    split
    · exact .pure (by simpa using (hword.append h₁.drop).append h₂)
    · exact .pure (by simpa using (hword.append h₁.toAside).append h₂)

variable {below : Nested} (hb : below.Sequences)
include hb

/-! ## Types -/

/-- The holes of a type are joined behind what it begins with. -/
theorem typeAtom_sequenced : (typeAtom below).Ensures c fun n c' => Sequenced c [n] [] c' := by
  unfold typeAtom
  refine .kind ?_
  split
  · refine .advance ((hb.type _).bind fun inner c₁ h₁ => (needed_sequenced _ _).bind ?_)
    exact fun hs c₂ h₂ => .pure ((Sequenced.word.append h₁).late h₂)
  · refine .advance ((typeFile_sequenced _).bind fun p c₁ h₁ => .lastStop (.pure ?_))
    exact (Sequenced.leaf rfl rfl).late h₁
  · exact hole_sequenced

/-- The types in parentheses come behind the one before them. -/
theorem functionSuffix_sequenced {returns : Node} (h : Sequenced c [returns] [] c₁) :
    (functionSuffix below returns).Ensures c₁ fun n c' => Sequenced c [n] [] c' := by
  unfold functionSuffix
  refine .advance ((separatedOpen_sequenced hb.type).bind fun p c₂ h₂ => ?_)
  show Ensures (closeParen >>= _) _ _
  refine (needed_sequenced _ _).bind fun hs c₃ h₃ => .lastStop (.pure (.closed ?_ h₃ rfl))
  exact h.append (Sequenced.word.append h₂)

/-- Whatever follows a type, the type was read before. -/
theorem typeSuffix_prolongs : Prolongs (typeSuffix below) := by
  intro c₀ type c h
  unfold typeSuffix
  have hword : Sequenced c₀ [type] [] c.skip := by simpa using h.append .word
  split
  · exact .pure h
  · refine .kind (.nextKind ?_)
    split
    · refine .advance (.advance (.lastStop (.pure (.new ?_ rfl))))
      simpa [NodeKind.children] using hword.append .word
    · exact .advance (.lastStop (.pure (.new hword rfl)))
    · exact (functionSuffix_sequenced hb h).bind fun n c₁ h₁ => .pure h₁
    · exact .pure h

/-- A type with all that follows it. -/
theorem suffixedType_sequenced :
    (suffixedType below).Ensures c fun n c' => Sequenced c [n] [] c' :=
  (typeAtom_sequenced hb).bind fun _ _ h => chain_sequenced (typeSuffix_prolongs hb) h

/-- An alternative is read behind the types before it. -/
theorem typeAlternative_prolongs : Prolongs (typeAlternative below) := by
  intro c₀ type c h
  unfold typeAlternative
  split
  · exact .pure h
  · refine .eats (fun _ => ?_) fun _ => .pure h
    refine (suffixedType_sequenced hb).bind fun other c₁ h₁ => .pure (.new ?_ rfl)
    exact h.append (Sequenced.word.append h₁)

/-- A type with all its alternatives. -/
theorem type_sequenced : (type below).Ensures c fun n c' => Sequenced c [n] [] c' :=
  (suffixedType_sequenced hb).bind fun _ _ h => chain_sequenced (typeAlternative_prolongs hb) h

/-! ## Operands -/

omit hb in
/-- A literal has no parts, and anything else is a hole. -/
theorem atom_sequenced : atom.Ensures c fun n c' => Sequenced c [n] [] c' := by
  unfold atom
  refine .current ?_
  split
  · rename_i construct hl
    have hleaf := Token.isLeaf_of_leaf (leaf_of_literal hl)
    refine .advance (.pure (.leaf (NodeKind.children_of_isLeaf hleaf) ?_))
    -- no literal is a hole
    cases construct with
    | missing | wrong => exact absurd hleaf Bool.false_ne_true
    | _ => rfl
  · exact hole_sequenced

omit hb in
/-- The name of a member comes behind its scope. -/
theorem scopeLink_sequenced {scope : Option Node} (h : Sequenced c scope.toList [] c₁) :
    (scopeLink scope).Ensures c₁ fun n c' => Sequenced c [n] [] c' := by
  unfold scopeLink
  refine .advance (name_sequenced.bind fun member c₂ h₂ => .lastStop (.pure (.new ?_ rfl)))
  exact h.append (Sequenced.word.append h₂)

omit hb in
/-- Scopes are read from the outermost one on. -/
theorem scopedName_sequenced : scopedName.Ensures c fun n c' => Sequenced c [n] [] c' := by
  have hsuffix : Prolongs scopeSuffix := by
    intro c₀ scope c h
    unfold scopeSuffix
    have hscope : Sequenced c₀ (some scope).toList [] c := h
    refine .sees ?_
    split
    · exact (scopeLink_sequenced hscope).bind fun n c₁ h₁ => .pure h₁
    · exact .pure h
  unfold scopedName
  refine .eat? (fun _ => chain_sequenced hsuffix (.leaf rfl rfl)) fun _ => ?_
  exact (scopeLink_sequenced .nil).bind fun n c₁ h₁ => chain_sequenced hsuffix h₁

/-- An expression that may lack has nothing if it does. -/
theorem optionalExpression_sequenced {without : Sign} :
    (optionalExpression below without).Ensures c fun o c' => Sequenced c o.toList [] c' := by
  unfold optionalExpression
  refine .sees ?_
  split
  · exact .pure .nil
  · exact (hb.expression _).bind fun n c₁ h => .pure h

/-- The closing parenthesis is found last. -/
theorem parenthesized_sequenced :
    (parenthesized below).Ensures c fun n c' => Sequenced c [n] [] c' := by
  unfold parenthesized
  refine .advance ((hb.expression _).bind fun inner c₁ h₁ => (needed_sequenced _ _).bind ?_)
  exact fun hs c₂ h₂ => .pure ((Sequenced.word.append h₁).late h₂)

/-- The two signs that close an array are found behind its items. -/
theorem arrayLiteral_sequenced :
    (arrayLiteral below).Ensures c fun n c' => Sequenced c [n] [] c' := by
  unfold arrayLiteral
  refine .advance ((separated_sequenced hb.expression).bind fun items c₁ h₁ => ?_)
  refine (needed_sequenced _ _).bind fun hs c₂ h₂ => (needed_sequenced _ _).bind fun gs c₃ h₃ => ?_
  exact .lastStop (.pure (.closed (Sequenced.word.append h₁) (h₂.append h₃) rfl))

/-- The colon of an entry is found between its parts. -/
theorem mappingEntry_sequenced :
    (mappingEntry below).Ensures c fun n c' => Sequenced c [n] [] c' := by
  unfold mappingEntry
  refine (hb.expression _).bind fun key c₁ h₁ => (needed_sequenced _ _).bind fun hs c₂ h₂ => ?_
  refine (hb.expression _).bind fun value c₃ h₃ => .pure (.gathered ?_ rfl)
  simpa [NodeKind.children] using h₁.append (h₂.append h₃)

/-- The two signs that close a mapping are found behind its entries. -/
theorem mappingLiteral_sequenced :
    (mappingLiteral below).Ensures c fun n c' => Sequenced c [n] [] c' := by
  unfold mappingLiteral
  refine .advance ((separated_sequenced fun c => mappingEntry_sequenced hb).bind ?_)
  intro entries c₁ h₁
  refine (needed_sequenced _ _).bind fun hs c₂ h₂ => (needed_sequenced _ _).bind fun gs c₃ h₃ => ?_
  exact .lastStop (.pure (.closed (Sequenced.word.append h₁) (h₂.append h₃) rfl))

/-- Both parentheses and the arguments are read behind the word, in their order. -/
theorem newValue_sequenced : (newValue below).Ensures c fun n c' => Sequenced c [n] [] c' := by
  have htarget (c : Cursor) : (newTarget below).Ensures c fun n c' => Sequenced c [n] [] c' := by
    unfold newTarget
    refine .kind ?_
    split
    · exact hb.type c
    · exact hb.expression c
  have hargs (c : Cursor) :
      (newArguments below).Ensures c fun ns c' => Sequenced c ns [] c' := by
    refine .eats (fun _ => ?_) fun _ => .pure .nil
    exact (separated_sequenced hb.expression).mono fun ns c₁ h₁ => Sequenced.word.append h₁
  unfold newValue
  refine .advance ((needed_sequenced _ _).bind fun hs c₁ h₁ => (htarget c₁).bind ?_)
  refine fun target c₂ h₂ => (hargs c₂).bind fun args c₃ h₃ => (needed_sequenced _ _).bind ?_
  refine fun gs c₄ h₄ => .lastStop (.pure (.gathered ?_ rfl))
  simpa [NodeKind.children] using
    Sequenced.word.append (h₁.append (h₂.append (h₃.append h₄)))

/-- The first token decides which operand is read. -/
theorem primary_sequenced : (primary below).Ensures c fun n c' => Sequenced c [n] [] c' := by
  unfold primary
  refine .kind ?_
  split
  · exact scopedName_sequenced
  · exact scopedName_sequenced
  · exact strings_sequenced
  · exact parenthesized_sequenced hb
  · exact arrayLiteral_sequenced hb
  · exact mappingLiteral_sequenced hb
  · exact newValue_sequenced hb
  · exact atom_sequenced

/-! ## Suffixes and operators -/

/-- Arguments are read behind what is called. -/
theorem callSuffix_sequenced {callee : Node} (h : Sequenced c [callee] [] c₁) :
    (callSuffix below callee).Ensures c₁ fun n c' => Sequenced c [n] [] c' := by
  unfold callSuffix
  refine .advance ((separated_sequenced hb.expression).bind fun args c₂ h₂ => ?_)
  refine (needed_sequenced _ _).bind fun hs c₃ h₃ => .lastStop (.pure (.closed ?_ h₃ rfl))
  exact h.append (Sequenced.word.append h₂)

/-- The ends of a range are read in their order, each of which may lack. -/
theorem subscriptIndex_sequenced :
    (subscriptIndex below).Ensures c fun n c' => Sequenced c [n] [] c' := by
  unfold subscriptIndex
  refine .here ((optionalExpression_sequenced hb).bind fun lower c₁ h₁ => ?_)
  -- whether or not the range begins with an expression, it goes on alike
  have hrange {c₂ : Cursor} (h₂ : Sequenced c lower.toList [] c₂) : Ensures (do
      let upper ← optionalExpression below .rightBracket
      return Node.new c.current.begin (← lastStop) (.range lower upper)) c₂
      fun n c' => Sequenced c [n] [] c' :=
    (optionalExpression_sequenced hb).bind fun upper c₃ h₃ =>
      .lastStop (.pure (.new (h₂.append h₃) rfl))
  refine .eats (fun _ => ?_) fun _ => ?_
  · have hword : Sequenced c lower.toList [] c₁.skip := by simpa using h₁.append .word
    cases lower <;> exact hrange hword
  · cases lower with
    | none => exact hrange h₁
    | some index => exact .pure h₁

/-- An index is read behind what it is the index of. -/
theorem subscriptSuffix_sequenced {target : Node} (h : Sequenced c [target] [] c₁) :
    (subscriptSuffix below target).Ensures c₁ fun n c' => Sequenced c [n] [] c' := by
  unfold subscriptSuffix
  refine .advance ((subscriptIndex_sequenced hb).bind fun index c₂ h₂ => ?_)
  refine (needed_sequenced _ _).bind fun hs c₃ h₃ => .lastStop (.pure (.closed ?_ h₃ rfl))
  exact h.append (Sequenced.word.append h₂)

omit hb in
/-- A member is read behind what it is a member of. -/
theorem memberSuffix_sequenced {receiver : Node} {access : Access}
    (h : Sequenced c [receiver] [] c₁) :
    (memberSuffix access receiver).Ensures c₁ fun n c' => Sequenced c [n] [] c' := by
  unfold memberSuffix
  refine .advance (name_sequenced.bind fun member c₂ h₂ => .lastStop (.pure (.new ?_ rfl)))
  exact h.append (Sequenced.word.append h₂)

omit hb in
/-- A sign behind an operand leaves nothing of its own. -/
theorem trailingOperator_sequenced {operand : Node} {op : UnaryOp}
    (h : Sequenced c [operand] [] c₁) :
    (trailingOperator op operand).Ensures c₁ fun n c' => Sequenced c [n] [] c' :=
  .advance (.pure (.new (by simpa [NodeKind.children] using h.append .word) rfl))

/-- Whatever follows an operand, the operand was read before. -/
theorem suffix_prolongs : Prolongs (suffix below) := by
  intro c₀ target c h
  -- what grows by a suffix is that suffix
  have hsome {p : Parse Node} (hp : p.Ensures c fun n c' => Sequenced c₀ [n] [] c') :
      Ensures (some <$> p) c fun o c' => Sequenced c₀ [o.getD target] [] c' := hp
  unfold suffix
  split
  · exact .pure h
  · refine .kind ?_
    split
    · exact hsome (callSuffix_sequenced hb h)
    · exact hsome (subscriptSuffix_sequenced hb h)
    · exact hsome (memberSuffix_sequenced h)
    · exact hsome (memberSuffix_sequenced h)
    · exact hsome (trailingOperator_sequenced h)
    · exact hsome (trailingOperator_sequenced h)
    · exact .pure h

/-- The parenthesis of a cast is found between the type and the operand. -/
theorem castOperand_sequenced :
    (castOperand below).Ensures c fun n c' => Sequenced c [n] [] c' := by
  unfold castOperand
  refine .advance ((hb.type _).bind fun type c₁ h₁ => (needed_sequenced _ _).bind ?_)
  refine fun hs c₂ h₂ => (hb.unary _).bind fun value c₃ h₃ => .pure (.gathered ?_ rfl)
  simpa [NodeKind.children] using Sequenced.word.append (h₁.append (h₂.append h₃))

/-- Signs before an operand leave nothing of their own. -/
theorem unary_sequenced : (unary below).Ensures c fun n c' => Sequenced c [n] [] c' := by
  unfold unary
  refine .kind ?_
  split
  · refine .advance ((hb.unary _).bind fun operand c₁ h₁ => .pure (.new ?_ rfl))
    exact Sequenced.word.append h₁
  · refine .seesParenthesizedType ?_
    split
    · exact castOperand_sequenced hb
    · exact (primary_sequenced hb).bind fun n c₁ h₁ => chain_sequenced (suffix_prolongs hb) h₁

/-! ## Expressions -/

/-- The type of a test is read behind the value. -/
theorem typeTestSuffix_prolongs : Prolongs (typeTestSuffix below) := by
  intro c₀ value c h
  unfold typeTestSuffix
  split
  · exact .pure h
  · refine .eats (fun _ => ?_) fun _ => .pure h
    refine (hb.type _).bind fun type c₁ h₁ => .pure (.new ?_ rfl)
    exact h.append (Sequenced.word.append h₁)

/-- The right side of an operator is read behind the left one. -/
theorem operatorSuffix_prolongs (loosest : Nat) : Prolongs (operatorSuffix below loosest) := by
  intro c₀ lhs c h
  unfold operatorSuffix
  refine .kind ?_
  split
  · split
    · refine .advance ((hb.operand _ _).bind fun rhs c₁ h₁ => .pure (.new ?_ rfl))
      exact h.append (Sequenced.word.append h₁)
    · exact .pure h
  · exact .pure h

/-- Operators are chained behind the first operand. -/
theorem operand_sequenced (loosest : Nat) :
    (operand below loosest).Ensures c fun n c' => Sequenced c [n] [] c' := by
  have htest : (typeTest below).Ensures c fun n c' => Sequenced c [n] [] c' :=
    (hb.unary _).bind fun n c₁ h₁ => chain_sequenced (typeTestSuffix_prolongs hb) h₁
  exact htest.bind fun n c₁ h₁ => chain_sequenced (operatorSuffix_prolongs hb loosest) h₁

/-- The colon of a condition is found between its alternatives. -/
theorem alternative_sequenced :
    (alternative below).Ensures c fun n c' => Sequenced c [n] [] c' := by
  unfold alternative
  refine (operand_sequenced hb _).bind fun condition c₁ h₁ => .eats (fun _ => ?_) fun _ => .pure h₁
  refine (hb.expression _).bind fun thenValue c₂ h₂ => (needed_sequenced _ _).bind ?_
  refine fun hs c₃ h₃ => (hb.alternative _).bind fun elseValue c₄ h₄ => .pure (.gathered ?_ rfl)
  simpa [NodeKind.children] using
    h₁.append (Sequenced.word.append (h₂.append (h₃.append h₄)))

/-- An assignment is read behind its target. -/
theorem expression_sequenced : (expression below).Ensures c fun n c' => Sequenced c [n] [] c' := by
  unfold expression
  refine (alternative_sequenced hb).bind fun target c₁ h₁ => .kind ?_
  split
  · split
    · refine .advance ((hb.expression _).bind fun value c₂ h₂ => .pure (.new ?_ rfl))
      exact h₁.append (Sequenced.word.append h₂)
    · exact .pure h₁
  · exact .pure h₁

end Parse

end MudEdit
