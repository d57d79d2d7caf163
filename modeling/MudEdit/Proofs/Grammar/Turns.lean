import MudEdit.Proofs.Grammar.Levels

/-!
# Every loop ends by itself

The loops of the grammar are written so that they stop after a turn that took no token.
Here they are described as they would run without that: `Many`, `Listed`, `OpenListed` and
`Chained` are derivations of a loop turn by turn, in which a turn that another one follows
has taken a token. That each loop of the grammar runs by such a derivation says both
that the loop ends by its own condition and that none of its turns stalls.
-/

namespace MudEdit.Parse

variable {α : Type}

/-! ## The loops turn by turn -/

/-- Items up to a token that stops the loop or to the end of the text. -/
inductive Many (stops : TokenKind → Bool) (item : Parse α) : Cursor → List α → Cursor → Prop where
  | done {c : Cursor} : stops c.kind = true ∨ c.atEnd = true → Many stops item c [] c
  | turn {c after last : Cursor} {a : α} {as : List α} :
      stops c.kind = false → c.atEnd = false → item c = (a, after) → after.left < c.left →
      Many stops item after as last → Many stops item c (a :: as) last

/-- Items up to a closing token, as long as there are commas between them. -/
inductive Listed (closer : TokenKind) (item : Parse α) : Cursor → List α → Cursor → Prop where
  | done {c : Cursor} : c.kind = closer ∨ c.atEnd = true → Listed closer item c [] c
  | last {c after : Cursor} {a : α} :
      c.kind ≠ closer → c.atEnd = false → item c = (a, after) → after.kind ≠ .sign .comma →
      Listed closer item c [a] after
  | turn {c after last : Cursor} {a : α} {as : List α} :
      c.kind ≠ closer → c.atEnd = false → item c = (a, after) → after.kind = .sign .comma →
      after.skip.left < c.left → Listed closer item after.skip as last →
      Listed closer item c (a :: as) last

/-- Items up to a closing parenthesis, which an ellipsis before or after an item ends as well. -/
inductive OpenListed (item : Parse α) : Cursor → List α × Bool → Cursor → Prop where
  | done {c : Cursor} :
      c.kind = .sign .rightParen ∨ c.atEnd = true → OpenListed item c ([], false) c
  | ellipsis {c : Cursor} : c.kind = .sign .ellipsis → OpenListed item c ([], true) c.skip
  | closed {c after : Cursor} {a : α} :
      c.kind ≠ .sign .rightParen → c.kind ≠ .sign .ellipsis → c.atEnd = false →
      item c = (a, after) → after.kind = .sign .ellipsis → OpenListed item c ([a], true) after.skip
  | last {c after : Cursor} {a : α} :
      c.kind ≠ .sign .rightParen → c.kind ≠ .sign .ellipsis → c.atEnd = false →
      item c = (a, after) → after.kind ≠ .sign .ellipsis → after.kind ≠ .sign .comma →
      OpenListed item c ([a], false) after
  | turn {c after last : Cursor} {a : α} {as : List α} {isOpen : Bool} :
      c.kind ≠ .sign .rightParen → c.kind ≠ .sign .ellipsis → c.atEnd = false →
      item c = (a, after) → after.kind = .sign .comma → after.skip.left < c.left →
      OpenListed item after.skip (as, isOpen) last → OpenListed item c (a :: as, isOpen) last

/-- A value that grows as long as there is a way to. -/
inductive Chained (grow : α → Parse (Option α)) : α → Cursor → α → Cursor → Prop where
  | done {a : α} {c after : Cursor} : grow a c = (none, after) → Chained grow a c a after
  | turn {a b d : α} {c after last : Cursor} :
      grow a c = (some b, after) → after.left < c.left → Chained grow b after d last →
      Chained grow a c d last

/-! ## Loops whose turns take tokens -/

section Runs

variable {stops : TokenKind → Bool} {closer : TokenKind} {item : Parse α}
  {grow : α → Parse (Option α)}

/-- A guarded loop makes its turns one by one, since each takes a token. -/
theorem many_runs
    (h : ∀ c, stops c.kind = false → c.atEnd = false → item.Ensures c fun _ c' => c'.left < c.left)
    (c : Cursor) : Ensures (manyUntil stops item) c (Many stops item c) := by
  induction hn : c.left using Nat.strongRecOn generalizing c with
  | ind n ih =>
    unfold Ensures
    rw [manyUntil]
    split
    · rename_i hs
      exact .done (by simpa using hs)
    · rename_i hs
      rw [Bool.not_eq_true, Bool.or_eq_false_iff] at hs
      have hl := h c hs.1 hs.2
      unfold Ensures at hl
      -- the guard of the loop never fires, as the item took a token
      generalize hi : item c = turned at hl ⊢
      obtain ⟨a, after⟩ := turned
      dsimp only at hl ⊢
      rw [if_pos hl]
      exact .turn hs.1 hs.2 hi hl (ih _ (hn ▸ hl) after rfl)

/-- A comma taken after an item is a token taken. -/
theorem left_skip_lt {c after : Cursor} (hk : after.kind = .sign .comma)
    (hle : after.left ≤ c.left) : after.skip.left < c.left :=
  Nat.lt_of_lt_of_le (Cursor.left_skip (Cursor.atEnd_of_kind (by simp [hk]))) hle

/-- A list loop makes its turns one by one, each up to a comma. -/
theorem listed_runs
    (h : ∀ c, c.atEnd = false → item.Ensures c fun _ c' => c'.left ≤ c.left) (c : Cursor) :
    Ensures (separated closer item) c (Listed closer item c) := by
  induction hn : c.left using Nat.strongRecOn generalizing c with
  | ind n ih =>
    unfold Ensures
    rw [separated]
    split
    · rename_i hs
      exact .done (by simpa using hs)
    · rename_i hs
      rw [Bool.not_eq_true, Bool.or_eq_false_iff, beq_eq_false_iff_ne] at hs
      have hle := h c hs.2
      unfold Ensures at hle
      generalize hi : item c = turned at hle ⊢
      obtain ⟨a, after⟩ := turned
      dsimp only at hle ⊢
      by_cases hk : after.kind = .sign .comma
      -- the comma is the token that a turn takes for certain
      · have hl := left_skip_lt hk hle
        rw [Ensures.eats_of_kind hk]
        dsimp only
        rw [if_pos ⟨rfl, hl⟩]
        exact .turn hs.1 hs.2 hi hk hl (ih _ (hn ▸ hl) _ rfl)
      · rw [Ensures.eats_of_ne hk]
        dsimp only
        rw [if_neg (by simp)]
        exact .last hs.1 hs.2 hi hk

theorem openListed_runs
    (h : ∀ c, c.atEnd = false → item.Ensures c fun _ c' => c'.left ≤ c.left) (c : Cursor) :
    Ensures (separatedOpen item) c (OpenListed item c) := by
  induction hn : c.left using Nat.strongRecOn generalizing c with
  | ind n ih =>
    unfold Ensures
    rw [separatedOpen]
    split
    · rename_i hs
      exact .done (by simpa using hs)
    · rename_i hs
      rw [Bool.not_eq_true, Bool.or_eq_false_iff, beq_eq_false_iff_ne] at hs
      by_cases he : c.kind = .sign .ellipsis
      · rw [Ensures.eats_of_kind he]
        exact .ellipsis he
      · have hle := h c hs.2
        unfold Ensures at hle
        rw [Ensures.eats_of_ne he]
        generalize hi : item c = turned at hle ⊢
        obtain ⟨a, after⟩ := turned
        dsimp only at hle ⊢
        by_cases he' : after.kind = .sign .ellipsis
        · rw [Ensures.eats_of_kind he']
          exact .closed hs.1 he hs.2 hi he'
        · rw [Ensures.eats_of_ne he']
          dsimp only
          by_cases hk : after.kind = .sign .comma
          · -- the comma is a token taken, whatever the item takes
            have hl := left_skip_lt hk hle
            rw [Ensures.eats_of_kind hk]
            dsimp only
            rw [if_pos ⟨rfl, hl⟩]
            exact .turn hs.1 he hs.2 hi hk hl (ih _ (hn ▸ hl) _ rfl)
          · rw [Ensures.eats_of_ne hk]
            dsimp only
            rw [if_neg (by simp)]
            exact .last hs.1 he hs.2 hi he' hk

/-- A chain grows as long as its step gives something, and each step takes a token. -/
theorem chained_runs
    (h : ∀ a c, (grow a).Ensures c fun o c' => o = none ∨ c'.left < c.left) (a : α) (c : Cursor) :
    Ensures (chain grow a) c (Chained grow a c) := by
  induction hn : c.left using Nat.strongRecOn generalizing a c with
  | ind n ih =>
    have hg := h a c
    unfold Ensures at hg ⊢
    rw [chain]
    split
    · rename_i after he
      exact .done he
    · rename_i b after he
      rw [he] at hg
      have hl : after.left < c.left := hg.resolve_left (by simp)
      rw [if_pos hl]
      exact .turn he hl (ih _ (hn ▸ hl) b after rfl)

end Runs

/-! ## The loops of the grammar -/

/-- The loop over items runs by turns that take a token each. -/
def UnrollsMany (stops : TokenKind → Bool) (item : Parse α) : Prop :=
  ∀ c, Ensures (manyUntil stops item) c (Many stops item c)

/-- The list of items runs by turns that take a token each, the last one aside. -/
def UnrollsListed (closer : TokenKind) (item : Parse α) : Prop :=
  ∀ c, Ensures (separated closer item) c (Listed closer item c)

/-- The same of a list that an ellipsis may end. -/
def UnrollsOpenListed (item : Parse α) : Prop :=
  ∀ c, Ensures (separatedOpen item) c (OpenListed item c)

/-- The chain runs by turns that take a token each. -/
def UnrollsChained (grow : α → Parse (Option α)) : Prop :=
  ∀ a c, Ensures (chain grow a) c (Chained grow a c)

theorem Grows.unrolls {grow : Node → Parse (Option Node)} (h : Grows grow) :
    UnrollsChained grow := by
  refine chained_runs fun n c => (h n c).mono ?_
  intro o c' hcase
  rcases hcase with ⟨ho, -⟩ | ⟨m, -, hl, -⟩
  · exact .inl ho
  · exact .inr hl

section Items

variable {r : Reach} {stops : TokenKind → Bool} {closer : TokenKind} {item : Parse Node}

theorem guarded_unrolls (h : ∀ c, item.Ensures c fun n c' => Reads r c [n] [] c') :
    UnrollsMany stops (guarded item) := by
  refine many_runs fun c _ he => ?_
  exact (guarded_reads he (h c)).mono fun _ _ h => h.2

theorem listed_unrolls (h : ∀ c, item.Ensures c fun n c' => Reads r c [n] [] c') :
    UnrollsListed closer item := by
  refine listed_runs fun c _ => ?_
  exact (h c).mono fun _ _ h => h.left_le

theorem openListed_unrolls (h : ∀ c, item.Ensures c fun n c' => Reads r c [n] [] c') :
    UnrollsOpenListed item := by
  refine openListed_runs fun c _ => ?_
  exact (h c).mono fun _ _ h => h.left_le

end Items

/-- All the loops in the productions that read one level above `below`, and at the top level. -/
structure LoopsUnroll (below : Nested) : Prop where
  topLevel : ∀ until_, UnrollsMany (· == until_) (guarded (member below))
  block : UnrollsMany (· == .sign .rightBrace) (guarded below.statement)
  classBody : UnrollsMany (· == .sign .rightBrace) (guarded below.member)
  caseBody : UnrollsMany endsCase (guarded below.statement)
  switchCases : UnrollsMany (· == .sign .rightBrace) (switchCase below)
  modifiers : UnrollsMany (!·.isModifier) modifier
  strings : UnrollsMany (· != .string) stringLiteral
  arguments : ∀ closer, UnrollsListed closer below.expression
  mappingEntries : UnrollsListed (.sign .rightBracket) (mappingEntry below)
  parameters : UnrollsOpenListed (parameter below)
  parameterTypes : UnrollsOpenListed below.type
  operators : ∀ loosest, UnrollsChained (operatorSuffix below loosest)
  typeTests : UnrollsChained (typeTestSuffix below)
  suffixes : UnrollsChained (suffix below)
  scopes : UnrollsChained scopeSuffix
  typeSuffixes : UnrollsChained (typeSuffix below)
  typeAlternatives : UnrollsChained (typeAlternative below)

variable {below : Nested}

theorem switchCases_unroll (hb : below.Sound) :
    UnrollsMany (· == .sign .rightBrace) (switchCase below) := by
  refine many_runs fun c _ he => ?_
  exact (switchCase_reads hb he).mono fun _ _ h => h.2

theorem modifiers_unroll : UnrollsMany (!·.isModifier) modifier := by
  refine many_runs fun c _ he => modifier_ensures.mono ?_
  intro _ _ heq
  subst heq
  exact Cursor.left_skip he

theorem strings_unroll : UnrollsMany (· != .string) stringLiteral :=
  many_runs fun _ _ he => .advance (.pure (Cursor.left_skip he))

/-- **No loop of the grammar stalls**, whatever the tokens. -/
theorem loops_unroll (hb : below.Sound) : LoopsUnroll below where
  topLevel _ := guarded_unrolls fun _ => member_reads hb
  block := guarded_unrolls hb.statement
  classBody := guarded_unrolls hb.member
  caseBody := guarded_unrolls hb.statement
  switchCases := switchCases_unroll hb
  modifiers := modifiers_unroll
  strings := strings_unroll
  arguments _ := listed_unrolls hb.expression
  mappingEntries := listed_unrolls fun _ => mappingEntry_reads hb
  parameters := openListed_unrolls fun _ => (parameter_reads hb).mono fun _ _ h => h.1
  parameterTypes := openListed_unrolls hb.type
  operators loosest := (operatorSuffix_grows hb loosest).unrolls
  typeTests := (typeTestSuffix_grows hb).unrolls
  suffixes := (suffix_grows hb).unrolls
  scopes := scopeSuffix_grows.unrolls
  typeSuffixes := (typeSuffix_grows hb).unrolls
  typeAlternatives := (typeAlternative_grows hb).unrolls

end MudEdit.Parse
