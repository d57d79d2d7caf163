import MudEdit.Proofs.Grammar.Turns
import MudEdit.Proofs.Grammar.Tracked

/-!
# A file may start anywhere

A missing hole lies where the last token taken ends, and at the start of a file there is no such
token. It makes no difference: a construct of a file takes a token before it leaves a hole. So
what was taken before the tokens of a file does not show in what is made of them.
-/

namespace MudEdit

/-- Whether a type starts with a token of the kind. -/
def TokenKind.opensType : TokenKind → Bool
  | .sign .leftParen | .basic _ => true
  | _ => false

/-- A declaration that has no word of its own starts with its type. -/
theorem TokenKind.opensType_of_startsDeclaration {k : TokenKind} (h : k.startsDeclaration = true)
    (hmodifier : k.isModifier = false)
    (hother : k ≠ .includeDirective ∧ k ≠ .keyword .inheritWord ∧ k ≠ .keyword .classWord)
    (hlet : k ≠ .keyword .letWord) : k.opensType = true := by
  unfold startsDeclaration at h
  split at h
  · rfl
  · cases hmodifier
  · exact (hlet rfl).elim
  · exact (hother.2.1 rfl).elim
  · exact (hother.2.2 rfl).elim
  · exact (hother.1 rfl).elim
  · cases h

namespace Parse

variable {α β : Type} {φ : Relocation}

/-- Wherever the last token taken ends, from a token of these kinds on the second production
does what the first one does. -/
def Settles (φ : Relocation) (m : α → α) (kinds : TokenKind → Prop) (p q : Parse α) : Prop :=
  ∀ c c' : Cursor, c.Leads φ none c' → c.atEnd = false → kinds c.kind →
    Same φ (.after φ none) m (p c) (q c')

/-- In a text that ends with its tokens nothing is cut off. -/
theorem Tracks.same {m : α → α} {p q : Parse α} {c c' : Cursor}
    (h : Tracks φ (.after φ none) m p q) (hc : c.Follows φ none c') :
    Same φ (.after φ none) m (p c) (q c') :=
  (h.follow c c' hc).resolve_left fun hcut => hcut.1 rfl

/-! ## Ways to put productions together -/

namespace Settles

variable {m : α → α} {m' : β → β} {kinds : TokenKind → Prop} {p q p' q' : Parse α}
  {f g : α → Parse β}

theorem of_begins (h : Begins φ (.after φ none) m p q) : Settles φ m kinds p q := by
  obtain ⟨f, g, rfl, rfl, h⟩ := h
  intro c c' hc he _
  have hs := (h c.current).same (hc.skip_of he)
  show Same φ (.after φ none) m (f c.current c.skip) (g c'.current c'.skip)
  rwa [hc.current_of he]

theorem bind (h : Settles φ m kinds p q) (k : ∀ a, Tracks φ (.after φ none) m' (f a) (g (m a))) :
    Settles φ m' kinds (p >>= f) (q >>= g) := by
  intro c c' hc he hk
  have hs := h c c' hc he hk
  have hrest := (k (p c).1).same hs.follows
  rw [← hs.result] at hrest
  exact hrest

/-- A production that takes nothing may come first. -/
theorem after {P : TokenKind → α → Prop}
    (h : ∀ c c' : Cursor, c.Leads φ none c' → c.atEnd = false → kinds c.kind →
      (p c).2 = c ∧ q c' = (m (p c).1, c') ∧ P c.kind (p c).1)
    (k : ∀ kind a, kinds kind → P kind a → Settles φ m' (· = kind) (f a) (g (m a))) :
    Settles φ m' kinds (p >>= f) (q >>= g) := by
  intro c c' hc he hk
  obtain ⟨hp, hq, hP⟩ := h c c' hc he hk
  show Same φ (.after φ none) m' (f (p c).1 (p c).2) (g (q c').1 (q c').2)
  rw [hp, hq]
  exact k c.kind _ hk hP c c' hc he rfl

theorem kind {f g : TokenKind → Parse β}
    (k : ∀ kind, kinds kind → Settles φ m' (· = kind) (f kind) (g kind)) :
    Settles φ m' kinds (Parse.kind >>= f) (Parse.kind >>= g) := by
  refine .after (m := id) (P := fun kind k => k = kind)
    (fun c c' hc he _ => ⟨rfl, Prod.ext (hc.kind_of he) rfl, rfl⟩) fun kind k' hk heq => ?_
  subst heq
  exact k _ hk

theorem here {f g : Nat → Parse β}
    (k : ∀ kind begin, kinds kind → Settles φ m' (· = kind) (f begin) (g (φ.move begin))) :
    Settles φ m' kinds (Parse.here >>= f) (Parse.here >>= g) := by
  refine .after (m := φ.move) (P := fun _ _ => True) (fun c c' hc he _ => ⟨rfl, ?_, trivial⟩)
    fun kind begin hk _ => k kind begin hk
  exact Prod.ext (congrArg Token.begin (hc.current_of he)) rfl

/-- A loop settles with its first turn, whatever the texts led from. -/
theorem manyUntil {stops : TokenKind → Bool} (h : Settles φ m kinds p q)
    (ht : Tracks φ (.after φ none) m p q) (hstops : ∀ k, kinds k → stops k = false) :
    Settles φ (List.map m) kinds (Parse.manyUntil stops p) (Parse.manyUntil stops q) := by
  intro c c' hc he hk
  have hs := h c c' hc he hk
  rw [Parse.manyUntil, Parse.manyUntil, hc.kind_of he, he, hc.atEnd_of he, hstops _ hk, hc.left]
  generalize p c = turned, q c' = turned' at hs ⊢
  obtain ⟨a, after⟩ := turned
  obtain ⟨a', after'⟩ := turned'
  obtain ⟨hr, hf⟩ := hs
  dsimp only at hr hf
  subst hr
  simp only [Bool.or_self, Bool.false_eq_true, if_false, hf.left, Nat.add_lt_add_iff_right]
  -- the guard looks at what is left, which differs by the one token on both sides
  split
  · have hrest : Same φ (.after φ none) (List.map m) (Parse.manyUntil stops p after)
        (Parse.manyUntil stops q after') := ht.manyUntil.same hf
    exact ⟨congrArg (m a :: ·) hrest.result, hrest.follows⟩
  · exact ⟨rfl, hf⟩

theorem mono {kinds' : TokenKind → Prop} (h : Settles φ m kinds p q)
    (himp : ∀ k, kinds' k → kinds k) : Settles φ m kinds' p q :=
  fun c c' hc he hk => h c c' hc he (himp _ hk)

end Settles

/-! ## Types -/

theorem refuse_settles (kinds : TokenKind → Prop) (e : Expected) :
    Settles φ (Node.relocate φ) kinds (refuse e) (refuse e) := by
  intro c c' hc he hk
  have hrefuse : ∀ d : Cursor, d.atEnd = false → refuse e d = wrongCurrent e d := fun d hd =>
    congrFun (if_neg (by simp [hd])) d
  rw [hrefuse c he, hrefuse c' (hc.atEnd_of he)]
  have hwrong : Settles φ (Node.relocate φ) kinds (wrongCurrent e) (wrongCurrent e) :=
    .of_begins (wrongCurrent_begins e)
  exact hwrong c c' hc he hk

section

variable {below : Nested} (h : below.Tracks φ (.after φ none))
include h

theorem typeAtom_settles : Settles φ (Node.relocate φ) (·.opensType = true)
    (typeAtom below) (typeAtom below) := by
  refine .kind fun kind hk => ?_
  split
  · exact .of_begins (parenthesizedType_begins h)
  · exact .of_begins (basicType_begins _)
  · rename_i hparen hbasic
    -- a type does not start with any other token
    unfold TokenKind.opensType at hk
    split at hk
    · exact (hparen rfl).elim
    · exact (hbasic _ rfl).elim
    · cases hk

theorem type_settles :
    Settles φ (Node.relocate φ) (·.opensType = true) (type below) (type below) :=
  .bind (.bind (typeAtom_settles h) (.chain (typeSuffix_tracks h)))
    (.chain (typeAlternative_tracks h))

end

/-- Both readings go one level deeper, or both find it too deep. -/
theorem Settles.nested {kinds : TokenKind → Prop} {p q : Parse Node} (e : Expected)
    (h : Settles φ (Node.relocate φ) kinds p q) :
    Settles φ (Node.relocate φ) kinds (Parse.nested e p) (Parse.nested e q) := by
  intro c c' hc he hk
  by_cases hd : c.depth ≥ maxDepth
  · rw [nested_refused e hd, nested_refused e (by rwa [hc.depth])]
    exact refuse_settles kinds e c c' hc he hk
  · rw [nested_read e hd, nested_read e (by rwa [hc.depth])]
    have hs := h { c with depth := c.depth + 1 } { c' with depth := c'.depth + 1 }
      ⟨hc.ahead, congrArg (· + 1) hc.depth, hc.textEnd⟩ he hk
    exact ⟨hs.result, ⟨hs.follows.ahead, congrArg (· - 1) hs.follows.depth, hs.follows.textEnd⟩,
      hs.follows.lastStop⟩

theorem levels_type_settles (n : Nat) : Settles φ (Node.relocate φ) (·.opensType = true)
    (Nested.levels n).type (Nested.levels n).type := by
  cases n with
  | zero => exact refuse_settles _ _
  | succ n => exact .nested _ (type_settles (Nested.levels_tracks n))

/-! ## Declarations -/

theorem seesParenthesizedType_of {c c' : Cursor} (hc : c.Leads φ none c')
    (he : c.atEnd = false) :
    seesParenthesizedType c' = ((seesParenthesizedType c).1, c') ∧
      ((seesParenthesizedType c).1 = true → c.kind = .sign .leftParen) := by
  show ((c'.kind == .sign .leftParen && c'.nextKind.isTypeWord), c') =
      ((c.kind == .sign .leftParen && c.nextKind.isTypeWord), c') ∧
    ((c.kind == .sign .leftParen && c.nextKind.isTypeWord) = true → c.kind = .sign .leftParen)
  rw [hc.kind_of he]
  by_cases hopen : c.kind = .sign .leftParen
  · have hnext := (hc.nextKind (by rw [hopen]; rfl)).resolve_left fun hcut => hcut.1 rfl
    exact ⟨by rw [hnext], fun _ => hopen⟩
  · rw [beq_eq_false_iff_ne.mpr hopen]
    exact ⟨rfl, fun h => by cases h⟩

/-- Without modifiers nothing is taken for them. -/
theorem modifiers_of_other {c : Cursor} (h : c.kind.isModifier = false) :
    modifiers c = (none, c) := by
  have hnone : modifiers.Ensures c fun mods c' => mods = none ∧ c' = c := by
    refine .here (.bind (P := fun words c' => words = [] ∧ c' = c) ?_ ?_)
    · unfold Ensures
      rw [manyUntil, h]
      exact ⟨rfl, rfl⟩
    · rintro words c' ⟨rfl, rfl⟩
      exact .pure ⟨rfl, rfl⟩
  exact Prod.ext hnone.1 hnone.2

theorem modifiers_settles : Settles φ (Option.map (Node.relocate φ)) (·.isModifier = true)
    modifiers modifiers := by
  refine .here fun kind begin hk => ?_
  have hwords : Settles φ (List.map id) (· = kind) (manyUntil (!·.isModifier) modifier)
      (manyUntil (!·.isModifier) modifier) := by
    refine .manyUntil (.of_begins modifier_begins) modifier_begins.tracks ?_
    rintro k rfl
    rw [hk]
    rfl
  refine .bind hwords fun words => ?_
  rw [List.map_id]
  exact .ite (.pure rfl) (.bind lastStop_tracks fun _ => .pure (by simp))

section

variable {below : Nested} (h : below.Tracks φ (.after φ none))
  (ht : Settles φ (Node.relocate φ) (·.opensType = true) below.type below.type)
include h ht

/-- A declaration starts with a modifier, with `let` or with its type. -/
theorem declaration_settles : Settles φ (Node.relocate φ)
    (fun k => k ≠ .includeDirective ∧ k ≠ .keyword .inheritWord ∧ k ≠ .keyword .classWord)
    (declaration below) (declaration below) := by
  -- before the first token is taken all that is looked up is the same on both sides
  refine .here fun kind begin hkind => .kind fun k hk => ?_
  subst hk
  refine .after (m := id) (P := fun k paren => paren = true → k = .sign .leftParen)
    (fun c c' hc he _ => ⟨rfl, seesParenthesizedType_of hc he⟩) fun k paren hk hparen => ?_
  subst hk
  simp only [id_eq]
  split
  · exact refuse_settles _ _
  · rename_i hstarts
    cases hmodifier : k.isModifier with
    | true =>
      exact .bind (modifiers_settles.mono fun _ hk => hk ▸ hmodifier) (declared_tracks h begin)
    | false =>
      refine .after (m := Option.map (Node.relocate φ)) (P := fun _ _ => True)
        (fun c c' hc he hk => ?_) fun k mods hk _ => ?_
      · have hc' := hc.kind_of he
        subst hk
        rw [modifiers_of_other hmodifier, modifiers_of_other (hc'.symm ▸ hmodifier)]
        exact ⟨rfl, rfl, trivial⟩
      · -- no modifiers, so the word `let` comes first or the type does
        subst hk
        refine .after (m := id) (P := fun k isLet => isLet = (k == .keyword .letWord))
          (fun c c' hc he _ => ⟨rfl, ?_, rfl⟩) fun k isLet hk hlet => ?_
        · show (c'.kind == .keyword .letWord, c') = (c.kind == .keyword .letWord, c')
          rw [hc.kind_of he]
        · subst hk
          simp only [id_eq]
          split
          · exact .of_begins (letDefinition_begins h begin mods)
          · rename_i hnolet
            have hopens : k.opensType = true := by
              cases paren with
              | true => rw [hparen rfl]; rfl
              | false =>
                refine TokenKind.opensType_of_startsDeclaration (by simpa using hstarts) hmodifier
                  hkind fun hk => hnolet ?_
                rw [hlet, hk]
                rfl
            exact .bind (ht.mono fun _ hk => hk ▸ hopens) (typedDeclaration_tracks h begin mods)

theorem member_settles (kinds : TokenKind → Prop) :
    Settles φ (Node.relocate φ) kinds (member below) (member below) := by
  refine .kind fun kind _ => ?_
  split
  · exact .of_begins includeDirective_begins
  · exact .of_begins inheritance_begins
  · exact .of_begins (classDefinition_begins h)
  · exact .of_begins emptyStatement_begins
  · rename_i hinclude hinherit hclass _
    refine (declaration_settles h ht).mono ?_
    rintro k rfl
    exact ⟨hinclude, hinherit, hclass⟩

end

/-! ## Files -/

theorem guarded_eq (p : Parse Node) (c : Cursor) : guarded p c =
    if ((p c).2.atEnd || (p c).2.left != c.left) = true then p c
    else ((p c).1.combine [.wrong (p c).2.current .statement], (p c).2.skip) := by
  show (if ((p c).2.atEnd || (p c).2.left != c.left) = true then Pure.pure (p c).1
    else _ : Parse Node) (p c).2 = _
  split <;> rfl

/-- The guard, which reports an item that took nothing, settles with the item. -/
theorem Settles.guarded {kinds : TokenKind → Prop} {p q : Parse Node}
    (h : Settles φ (Node.relocate φ) kinds p q) :
    Settles φ (Node.relocate φ) kinds (Parse.guarded p) (Parse.guarded q) := by
  intro c c' hc he hk
  have hs := h c c' hc he hk
  have hatEnd := hs.follows.atEnd.resolve_left fun hcut => hcut.1 rfl
  rw [guarded_eq, guarded_eq, hatEnd, hs.follows.left, hc.left]
  show Same φ (.after φ none) _
    (if ((p c).2.atEnd || (p c).2.left != c.left) = true then _ else _)
    (if ((p c).2.atEnd || (p c).2.left != c.left) = true then _ else _)
  split
  · exact hs
  · have hwrong := (wrongCurrent_tracks .statement).same hs.follows
    refine ⟨?_, hwrong.follows⟩
    have hresult : Node.wrong (q c').2.current .statement =
      (Node.wrong (p c).2.current .statement).relocate φ := hwrong.result
    dsimp only
    rw [hresult, hs.result, Node.relocate_combine]
    rfl

/-- **A file may start anywhere.** What its tokens are read as does not depend on the tokens
before them, and moves as they do. -/
theorem members_fresh (until_ : TokenKind) {c c' : Cursor} (hc : c.Leads φ none c') :
    (members until_ c').1 = (members until_ c).1.map (Node.relocate φ) := by
  have hatEnd := hc.atEnd.resolve_left fun hcut => hcut.1 rfl
  have hkind := hc.kind.resolve_left fun hcut => hcut.1 rfl
  -- either both stop at once, or the first member settles the two readings
  cases hstop : c.kind == until_ || c.atEnd with
  | true =>
    have hnone (d : Cursor) (hd : (d.kind == until_ || d.atEnd) = true) :
        (members until_ d).1 = [] := by
      rw [members, manyUntil, hd]
      rfl
    rw [hnone c hstop, hnone c' (by rwa [hkind, hatEnd])]
    rfl
  | false =>
    obtain ⟨hkind, he⟩ := Bool.or_eq_false_iff.mp hstop
    have hitem := member_settles (φ := φ) (Nested.levels_tracks maxDepth)
      (levels_type_settles maxDepth) (fun k => (k == until_) = false)
    have hmembers : Settles φ (List.map (Node.relocate φ)) (fun k => (k == until_) = false)
        (members until_) (members until_) :=
      .manyUntil hitem.guarded (.guarded (member_tracks (Nested.levels_tracks maxDepth)))
        fun _ hk => hk
    exact (hmembers c c' hc he hkind).result

end Parse

end MudEdit
