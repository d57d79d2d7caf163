import MudEdit.Proofs.Grammar.Recovery

/-!
# Types are read by the rules

The strings in the angle brackets of a type are the one place where content is taken
without leaving a construct: their text goes into the type.
-/

namespace MudEdit

variable {r : Reach} {c c' : Cursor} {below : Nested}

/-- The kind behind the current token is that of the next one, after one step. -/
theorem Cursor.kind_skip_of_nextKind (h : c.nextKind ≠ .eof) : c.skip.kind = c.nextKind := by
  unfold nextKind at h ⊢
  split at h
  · rename_i t u ts ha
    rw [kind_eq, current_of_ahead (skip_of_ahead ha).1]
  · exact absurd rfl h

namespace Parse

/-- To look at two tokens takes none of them. -/
theorem Ensures.seesParenthesizedType {α : Type} {f : Bool → Parse α} {Q : α → Cursor → Prop}
    (h : (f (c.kind == .sign .leftParen && c.nextKind.isTypeWord)).Ensures c Q) :
    Ensures (Parse.seesParenthesizedType >>= f) c Q := h

/-- A hole has no text of its own. -/
theorem stringValue_of_isHole {n : Node} (h : n.isHole = true) : n.stringValue? = none := by
  unfold Node.isHole at h
  unfold Node.stringValue?
  split at h <;> simp_all

/-- Either a hole was left, or strings were taken up to a token that is none. -/
theorem path_ensures : path.Ensures c fun n c' =>
    (n.isHole = true ∧ Reads .flat c [n] [] c') ∨
      ∃ ts, n.stringValue? = some (String.join (ts.map Token.text)) ∧
        c.Takes ts c' ∧ (∀ t ∈ ts, t.kind = .string) ∧ c'.kind ≠ .string := by
  unfold path
  refine .sees ?_
  split
  · exact (strings_ensures (beq_iff_eq.mp ‹_›)).mono fun _ _ h => .inr h.2
  · exact (hole_reads _).mono fun _ _ h => .inl h

/-- No string is taken where a sign is looked for, if there is none at the cursor. -/
theorem expect_takes_no_string {s : Sign} (e : Expected) (h : c.kind ≠ .string) :
    (expect (.sign s) e).Ensures c fun _ c' =>
      ∃ us, c.Takes us c' ∧ ∀ t ∈ us, t.kind ≠ .string := by
  rw [Cursor.kind_eq] at h
  refine (expect_ensures _ e).mono ?_
  intro _ c' hcase
  -- what may be found is the sign, nothing, or another token, behind which the sign may stand
  rcases hcase with ⟨hk, -, rfl⟩ | ⟨-, -, -, rfl⟩ | ⟨-, hs, -, rfl | ⟨hk, rfl⟩⟩
  · exact ⟨_, Cursor.takes_skip (Reads.atEnd_of_word rfl hk), by simpa using h⟩
  · exact ⟨[], .refl _, by simp⟩
  · exact ⟨_, Cursor.takes_skip (Cursor.atEnd_of_not_isSync hs), by simpa using h⟩
  · have h₁ := Cursor.takes_skip (Cursor.atEnd_of_not_isSync hs)
    have h₂ := Cursor.takes_skip (Reads.atEnd_of_word rfl hk)
    rw [Cursor.kind_eq] at hk
    exact ⟨_, h₁.trans h₂, by simp [h, hk]⟩

/-- What is read of a type in angle brackets: strings with the text, or holes only. -/
theorem typeFile_ensures (basic : BasicKind) : (typeFile basic).Ensures c fun p c' =>
    (p.1 = none ∧ Reads .flat c [] p.2 c') ∨
      ∃ c₁ c₂ ts us, p.1 = some (String.join (ts.map Token.text)) ∧ Reads .flat c [] [] c₁ ∧
        c₁.Takes ts c₂ ∧ (∀ t ∈ ts, t.kind = .string) ∧
        Reads .flat c₂ [] p.2 c' ∧ c₂.Takes us c' ∧ ∀ t ∈ us, t.kind ≠ .string := by
  unfold typeFile
  split
  · exact .pure (.inl ⟨rfl, .nil⟩)
  · refine .eats (fun hk => ?_) (fun _ => .pure (.inl ⟨rfl, .nil⟩))
    have hless : Reads .flat c [] [] c.skip := .of_word rfl hk
    show Ensures (path >>= _) _ _
    refine path_ensures.bind ?_
    -- a hole for the strings, or strings whose text the type takes over
    intro file c₁ hcase
    rcases hcase with ⟨hh, hr⟩ | ⟨ts, hv, ht, hs, hn⟩
    · refine (expect_reads rfl _).bind fun p c₂ h => ?_
      dsimp only
      rw [stringValue_of_isHole hh]
      refine .pure (.inl ⟨rfl, ?_⟩)
      simpa using hless.append ((Reads.aside hr hh).append h)
    · refine (Ensures.and (expect_reads rfl _) (expect_takes_no_string _ hn)).bind ?_
      intro p c₂ hp
      obtain ⟨h, us, hu, hus⟩ := hp
      dsimp only
      rw [hv]
      exact .pure (.inr ⟨c.skip, c₁, ts, us, rfl, hless, ht, hs, h, hu, hus⟩)

/-! ## The parts of a type -/

/-- A word for a type takes a token, with or without a file behind it. -/
theorem basicType_ensures {basic : BasicKind} (hk : c.kind = .basic basic) :
    Ensures (do
      let word ← advance
      let (file, holes) ← typeFile basic
      return (Node.new word.begin (← lastStop) (.basicType basic file)).combine holes) c
      fun n c' => Reads .flat c [n] [] c' ∧ c'.left < c.left := by
  have hw : c.kind.leavesNoTrace = true := by rw [hk]; rfl
  refine .advance ((typeFile_ensures basic).bind ?_)
  intro p c' hcase
  obtain ⟨file, holes⟩ := p
  rcases hcase with ⟨hf, h⟩ | ⟨c₁, c₂, ts, us, hf, h₀, ht, hs, h, hu, hus⟩
  · obtain rfl : file = none := hf
    exact .lastStop (.pure ⟨.combineFlat (.worded rfl hw rfl h rfl),
      Reads.left_lt_of_word hw rfl h⟩)
  · obtain rfl : file = some _ := hf
    have hr : Reads .flat c [Node.new c.current.begin c'.lastStop _] holes c' :=
      .fileType basic (Reads.atEnd_of_word hw rfl) (by rw [hk]; rfl) h₀ ht hs h hu hus
    refine .lastStop (.pure ⟨.combineFlat hr, ?_⟩)
    -- the word itself is taken, and the brackets give nothing back
    have h₁ := Reads.left_lt_of_word hw rfl h₀
    have h₂ := ht.left
    have h₃ := hu.left
    omega

variable (hb : below.Sound)
include hb

/-- What a type begins with takes a token wherever a type may begin. -/
theorem typeAtom_reads : (typeAtom below).Ensures c fun n c' =>
    Reads .flat c [n] [] c' ∧
      (c.kind.isTypeWord = true ∨ c.kind = .sign .leftParen → c'.left < c.left) := by
  unfold typeAtom
  refine .kind ?_
  split
  · rename_i hk
    refine .advance ((hb.type _).bind fun inner c₁ h => closeParen_reads.bind fun hs c₂ h' => ?_)
    have hr := h.append h'
    exact .pure ⟨.combineFlat (by simpa using (Reads.of_word rfl hk).append hr),
      fun _ => Reads.left_lt_of_word rfl hk hr⟩
  · rename_i basic hk
    exact (basicType_ensures hk).mono fun n c' h => ⟨h.1, fun _ => h.2⟩
  -- neither word nor parenthesis: the hole has nothing to take
  · rename_i hp hn
    refine (hole_reads _).mono fun n c' h => ⟨h.2, ?_⟩
    intro hcase
    rcases hcase with hw | hw
    · unfold TokenKind.isTypeWord at hw
      split at hw
      · exact absurd ‹_› (hn _)
      · exact absurd hw (by simp)
    · exact absurd hw hp

/-- A type takes over the types in the parentheses behind it. -/
theorem functionSuffix_grown {returns : Node} (hk : c.kind = .sign .leftParen) :
    (functionSuffix below returns).Ensures c (Grown returns c) := by
  unfold functionSuffix
  have hitem (c : Cursor) (_ : c.atEnd = false) : below.type.Ensures c fun n c' =>
      Reads .flat c [n] [] c' ∧ True := (hb.type c).mono fun _ _ h => ⟨h, trivial⟩
  refine .advance ((separatedOpen_reads hitem).bind ?_)
  intro p c₁ hp
  -- whether more may follow is noted in the type, not in the reading
  obtain ⟨parameters, variadic⟩ := p
  obtain ⟨h, -⟩ := hp
  show Ensures (closeParen >>= _) _ _
  refine closeParen_reads.bind fun hs c₂ h' => .lastStop (.pure ?_)
  have hr := (Reads.of_word rfl hk).append (h.append h')
  exact ⟨Reads.left_lt_of_word rfl hk (h.append h'),
    fun c₀ h₀ => .combineFlat (h₀.grown hr rfl (by simp [NodeKind.children]) rfl)⟩

/-- Each suffix takes the type before it over, or leaves it as it is. -/
theorem typeSuffix_grows : Grows (typeSuffix below) := by
  intro target c
  unfold typeSuffix
  split
  · exact unchanged_ensures
  · refine .kind (.nextKind ?_)
    split
    · rename_i hk hn
      have hn' : c.skip.kind = .sign .rightBracket := by
        rw [Cursor.kind_skip_of_nextKind (by simp [hn]), hn]
      refine .advance (.advance (.lastStop (.pure (.inr ⟨_, rfl, ?_, fun c₀ h₀ => ?_⟩))))
      · exact Reads.left_lt_of_word (r := .flat) rfl hk (.of_word rfl hn')
      · exact h₀.grown ((Reads.of_word rfl hk).append (.of_word rfl hn')) rfl rfl rfl
    · rename_i hk
      refine .advance (.lastStop (.pure (.inr ⟨_, rfl, ?_, fun c₀ h₀ => ?_⟩)))
      · exact Cursor.left_skip (Reads.atEnd_of_word rfl hk)
      · exact h₀.grown (.of_word rfl hk) rfl rfl rfl
    · rename_i hk
      exact grown_ensures (functionSuffix_grown hb hk)
    · exact unchanged_ensures

/-- The start of a type takes a token already, and suffixes give none back. -/
theorem suffixedType_reads : (suffixedType below).Ensures c fun n c' =>
    Reads .flat c [n] [] c' ∧
      (c.kind.isTypeWord = true ∨ c.kind = .sign .leftParen → c'.left < c.left) := by
  unfold suffixedType
  refine (typeAtom_reads hb).bind fun n c₁ h => ?_
  exact (chain_reads (typeSuffix_grows hb) h.1).mono fun m c₂ h₂ =>
    ⟨h₂.1, fun hw => Nat.lt_of_le_of_lt h₂.2 (h.2 hw)⟩

/-- A word for another type is only an alternative if a type was read before it. -/
theorem typeAlternative_grows : Grows (typeAlternative below) := by
  intro target c
  unfold typeAlternative
  split
  · exact unchanged_ensures
  · refine .eats (fun hk => ?_) (fun _ => unchanged_ensures)
    refine (suffixedType_reads hb).bind fun other c₁ ⟨h, _⟩ => .pure ?_
    refine .inr ⟨_, rfl, ?_, fun c₀ h₀ => ?_⟩
    · exact Reads.left_lt_of_word rfl hk h
    · exact h₀.grownUpTo ((Reads.of_word rfl hk).append h) rfl rfl (List.mem_singleton.mpr rfl) rfl

/-- A type takes a token wherever a type may begin, and alternatives give none back. -/
theorem type_reads : (type below).Ensures c fun n c' =>
    Reads .flat c [n] [] c' ∧
      (c.kind.isTypeWord = true ∨ c.kind = .sign .leftParen → c'.left < c.left) := by
  unfold type
  refine (suffixedType_reads hb).bind fun n c₁ h => ?_
  exact (chain_reads (typeAlternative_grows hb) h.1).mono fun m c₂ h₂ =>
    ⟨h₂.1, fun hw => Nat.lt_of_le_of_lt h₂.2 (h.2 hw)⟩

end Parse

end MudEdit
