import MudEdit.Proofs.Grammar.Closing

/-!
# Where a semicolon is missing

A text that ends with a semicolon, and one that lacks it and goes on with a declaration: the
two are read alike up to there. Nothing but the semicolon could come next in the one text, and
no expression, type or name goes on with what comes next in the other one. So whatever still
needs a token has a hole in the first text already, and whatever may be left out is left out in
both.
-/

namespace MudEdit

/-- A semicolon at the end of a text, and the tokens of a declaration that may stand instead. -/
structure Gap where
  own : Token
  other : Token
  rest : List Token
  own_kind : own.kind = .sign .semicolon
  other_starts : other.kind.startsDeclaration = true

namespace Gap

variable {φ : Relocation} {g : Gap} {c c' : Cursor}

/-- Both texts go on with the same tokens up to the semicolon of the one. -/
structure Follows (φ : Relocation) (g : Gap) (c c' : Cursor) : Prop where
  ahead : ∃ ts, c.ahead = ts ++ [g.own] ∧ c'.ahead = ts.map (Token.relocate φ) ++ g.other :: g.rest
  depth : c'.depth = c.depth
  lastStop : c'.lastStop = φ.move c.lastStop

/-- The semicolon is all that is ahead, or a sign before it that is looked past. -/
def Cut (g : Gap) (c : Cursor) : Prop :=
  c.ahead = [] ∨ c.ahead = [g.own] ∨ ∃ t, c.ahead = [t, g.own] ∧ t.kind.peeks = true

/-- Once the end is that near, it stays so. -/
theorem Cut.skip (h : g.Cut c) : g.Cut c.skip := by
  rcases h with hnil | hown | ⟨t, ht, -⟩
  · exact .inl (by rw [Cursor.skip_of_nil hnil]; exact hnil)
  · exact .inl (Cursor.skip_of_ahead hown).1
  · exact .inr (.inl (Cursor.skip_of_ahead ht).1)

/-- Nothing but a semicolon or a sign that is looked past is current there. -/
theorem Cut.kind (h : g.Cut c) :
    c.kind = .eof ∨ c.kind = .sign .semicolon ∨ c.kind.peeks = true := by
  rcases h with hnil | hown | ⟨t, ht, hpeeks⟩
  · exact .inl (Cursor.kind_of_atEnd (by simp [Cursor.atEnd, hnil]))
  · exact .inr (.inl (by rw [Cursor.kind_eq, Cursor.current_of_ahead hown, g.own_kind]))
  · exact .inr (.inr (by rwa [Cursor.kind_eq, Cursor.current_of_ahead ht]))

/-- Both texts are at the gap. -/
structure Reached (g : Gap) (c c' : Cursor) : Prop where
  own : c.ahead = [g.own]
  other : c'.ahead = g.other :: g.rest

/-- There the one text has the semicolon and the other one its declaration. -/
theorem Reached.kind (h : g.Reached c c') :
    c.kind = .sign .semicolon ∧ c'.kind = g.other.kind := by
  rw [Cursor.kind_eq, Cursor.kind_eq, Cursor.current_of_ahead h.own,
    Cursor.current_of_ahead h.other]
  exact ⟨g.own_kind, rfl⟩

/-- Before the gap both texts go on with the same token. -/
theorem Follows.cases (h : Follows φ g c c') : g.Reached c c' ∨ ∃ t ts,
    c.ahead = t :: (ts ++ [g.own]) ∧
      c'.ahead = t.relocate φ :: (ts.map (Token.relocate φ) ++ g.other :: g.rest) := by
  obtain ⟨ts, ha, ha'⟩ := h.ahead
  cases ts with
  | nil => exact .inl ⟨ha, ha'⟩
  | cons t ts => exact .inr ⟨t, ts, ha, ha'⟩

/-- A token both have is taken by both. -/
theorem Follows.step (h : Follows φ g c c') {t : Token} {ts : List Token}
    (ha : c.ahead = t :: (ts ++ [g.own]))
    (ha' : c'.ahead = t.relocate φ :: (ts.map (Token.relocate φ) ++ g.other :: g.rest)) :
    c'.current = c.current.relocate φ ∧ Follows φ g c.skip c'.skip := by
  obtain ⟨h₁, h₂, -, h₄⟩ := Cursor.skip_of_ahead ha
  obtain ⟨k₁, k₂, -, k₄⟩ := Cursor.skip_of_ahead ha'
  -- what is ahead, the depth and the last token taken agree again
  refine ⟨by rw [Cursor.current_of_ahead ha, Cursor.current_of_ahead ha'], ⟨ts, h₁, k₁⟩, ?_, ?_⟩
  · rw [k₄, h₄, h.depth]
  · simp [Cursor.lastStop, h₂, k₂]

/-- The second text lacks the semicolon of the first one. -/
@[reducible] def setting (φ : Relocation) (g : Gap) : Setting φ where
  Follows := Follows φ g
  Cut := g.Cut
  extra := g.rest.length
  cut_skip := Cut.skip
  left h := by
    obtain ⟨ts, ha, ha'⟩ := h.ahead
    rw [Cursor.left_eq, Cursor.left_eq, ha, ha']
    simp
    omega
  lastStop h := h.lastStop
  current h := by
    rcases h.cases with hr | ⟨t, ts, ha, ha'⟩
    · exact .inl (.inr (.inl hr.own))
    · exact .inr (h.step ha ha').1
  atEnd h := by
    obtain ⟨ts, ha, ha'⟩ := h.ahead
    exact .inr (by cases ts <;> simp [Cursor.atEnd, ha, ha'])
  nextKind h hk := by
    rcases h.cases with hr | ⟨t, ts, ha, ha'⟩
    · exact .inl (.inr (.inl hr.own))
    · cases ts with
      | nil =>
        rw [Cursor.kind_eq, Cursor.current_of_ahead ha] at hk
        exact .inl (.inr (.inr ⟨t, ha, hk⟩))
      | cons u us => exact .inr (by simp [Cursor.nextKind, ha, ha'])
  skip h := by
    rcases h.cases with hr | ⟨t, ts, ha, ha'⟩
    · exact .inl (.inr (.inl hr.own))
    · exact .inr (h.step ha ha').2

variable (φ g)

/-- A level more or less counts nothing. -/
theorem deepens : (g.setting φ).Deepens (g.setting φ) where
  cut := Iff.rfl
  allowed h := by rw [h.depth]
  down h := ⟨h.ahead, congrArg (· + 1) h.depth, h.lastStop⟩
  up h := ⟨h.ahead, congrArg (· - 1) h.depth, h.lastStop⟩

variable {φ g}

/-- Both texts are at the gap, or they have the same token before them. -/
theorem Follows.reached_or (h : Follows φ g c c') :
    g.Reached c c' ∨ (g.setting φ).Together c c' := by
  rcases h.cases with hr | ⟨t, ts, ha, ha'⟩
  · exact .inl hr
  · exact .inr ⟨(h.step ha ha').1, (h.step ha ha').2⟩

/-- Neither text has a token of the kind at the gap. -/
theorem clear {k : TokenKind} (hk : k ≠ .sign .semicolon) (hk' : k.startsDeclaration = false) :
    (g.setting φ).Clear k := by
  intro c c' hc
  refine hc.reached_or.symm.imp_right fun hr => ?_
  rw [hr.kind.1, hr.kind.2]
  refine ⟨hk.symm, ?_⟩
  rintro rfl
  exact absurd g.other_starts (by simp [hk'])

/-- The first text has no token of the kind any more, if a semicolon is none and nothing looks past
it. -/
theorem bars {k : TokenKind} (hend : k ≠ .eof) (hk : k ≠ .sign .semicolon)
    (hpeeks : k.peeks = false) : (g.setting φ).Bars k := by
  rintro c hc rfl
  rcases hc.kind with h | h | h
  · exact hend h
  · exact hk h
  · exact absurd h (by simp [hpeeks])

end Gap

namespace Parse

variable {α β : Type} {φ : Relocation} {g : Gap}

/-! ## At the gap -/

/-- The current token decides what is read: at the gap, that are the semicolon in the one text
and the start of a declaration in the other one. -/
theorem keeps_kind {m : β → β} {clean : β → Prop} {f f' : TokenKind → Parse β}
    (halt : ∀ k, k.startsDeclaration = true →
      Keeps φ (g.setting φ) m clean (f (.sign .semicolon)) (f' k))
    (go : ∀ k, Opens φ (g.setting φ) m clean (f k) (f' k)) :
    Keeps φ (g.setting φ) m clean (kind >>= f) (kind >>= f') := by
  intro c c' hc hclean
  show Same φ _ m (f c.kind c) (f' c'.kind c')
  rcases hc.reached_or with hr | ht
  · have hclean : clean (f c.kind c).1 := hclean
    -- at the gap the kinds differ, and what is to be shown there is given
    rw [hr.kind.1] at hclean ⊢
    exact halt _ (hr.kind.2 ▸ g.other_starts) c c' hc hclean
  · rw [ht.kind]
    exact go c.kind c c' hc ht hclean

open Gap (Follows) in
/-- The same if the token after the current one decides as well. -/
theorem keeps_peek {m : β → β} {clean : β → Prop} {f f' : TokenKind → TokenKind → Parse β}
    (halt : ∀ k next next', k.startsDeclaration = true →
      Keeps φ (g.setting φ) m clean (f (.sign .semicolon) next) (f' k next'))
    (last : ∀ k next, next.startsDeclaration = true →
      Opens φ (g.setting φ) m clean (f k (.sign .semicolon)) (f' k next))
    (go : ∀ k next c c', (g.setting φ).Together c c' → (g.setting φ).Together c.skip c'.skip →
      Follows φ g c c' → clean (f k next c).1 →
      Same φ (g.setting φ) m (f k next c) (f' k next c')) :
    Keeps φ (g.setting φ) m clean (do f (← kind) (← nextKind)) (do f' (← kind) (← nextKind)) := by
  intro c c' hc hclean
  have hclean : clean (f c.kind c.nextKind c).1 := hclean
  show Same φ _ m (f c.kind c.nextKind c) (f' c'.kind c'.nextKind c')
  rcases hc.cases with hr | ⟨t, ts, ha, ha'⟩
  · rw [hr.kind.1] at hclean ⊢
    exact halt _ _ _ (hr.kind.2 ▸ g.other_starts) c c' hc hclean
  · have ht : (g.setting φ).Together c c' := ⟨(hc.step ha ha').1, (hc.step ha ha').2⟩
    rw [ht.kind]
    cases ts with
    | nil =>
      have hnext : c.nextKind = .sign .semicolon := by simp [Cursor.nextKind, ha, g.own_kind]
      have hnext' : c'.nextKind = g.other.kind := by simp [Cursor.nextKind, ha']
      rw [hnext] at hclean ⊢
      rw [hnext']
      exact last _ _ g.other_starts c c' hc ht hclean
    | cons u us =>
      have hnext : c'.nextKind = c.nextKind := by simp [Cursor.nextKind, ha, ha']
      -- two tokens are common, so what is looked at and what is behind it agree
      have hrest := (hc.step ha ha').2.step (Cursor.skip_of_ahead ha).1 (Cursor.skip_of_ahead ha').1
      rw [hnext]
      exact go _ _ c c' ht ⟨hrest.1, hrest.2⟩ hc hclean

/-- Nothing is read without holes at the gap if nothing is so at the kinds that may be current
there. -/
theorem ends_kind {clean : β → Prop} {f : TokenKind → Parse β}
    (eof : Ends (g.setting φ) clean (f .eof))
    (semicolon : Ends (g.setting φ) clean (f (.sign .semicolon)))
    (paren : Ends (g.setting φ) clean (f (.sign .leftParen)))
    (bracket : Ends (g.setting φ) clean (f (.sign .leftBracket)))
    (colon : Ends (g.setting φ) clean (f (.sign .colon))) :
    Ends (g.setting φ) clean (kind >>= f) := by
  intro c hc
  show ¬clean (f c.kind c).1
  rcases hc.kind with hk | hk | hk
  · rw [hk]
    exact eof c hc
  · rw [hk]
    exact semicolon c hc
  · unfold TokenKind.peeks at hk
    split at hk
    · rename_i hparen
      rw [hparen]
      exact paren c hc
    · rename_i hbracket
      rw [hbracket]
      exact bracket c hc
    · rename_i hcolon
      rw [hcolon]
      exact colon c hc
    · cases hk

end Parse

end MudEdit
