import MudEdit.Grammar.Control
import MudEdit.Proofs.Grammar.Ensures
import MudEdit.Proofs.Node.Relocation

/-!
# Two readings of the same tokens

Of a token a production sees the kind, what it carries and where it stands, and it sees one
token further only at a few signs. Where tokens stand shows in the offsets of the trees and
nowhere else. A `Setting` says how two readings go side by side: the second text is the first one,
moved by `φ`, and it may go on after it, have a gap in it or be one level further down.
`Tracks φ s m p q` says that `q` makes of it what `p` does, moved by `m`, unless `p` comes so close
to the end of what both readings share that the rest could make a difference.
-/

namespace MudEdit

/-- Whether the grammar looks past a token of the kind. -/
def TokenKind.peeks : TokenKind → Bool
  | .sign .leftParen | .sign .leftBracket | .sign .colon => true
  | _ => false

namespace Cursor

/-- Little is ahead, so that what may follow could make a difference at the cursor. -/
def Cut (more : Option (List Token)) (c : Cursor) : Prop :=
  more ≠ none ∧ (c.ahead = [] ∨ ∃ t, c.ahead = [t] ∧ t.kind.peeks = true)

/-- The tokens ahead of the one cursor, moved, are ahead of the other one. Either both texts end
after them, or the other text goes on, maybe with more tokens. -/
structure Leads (φ : Relocation) (more : Option (List Token)) (c c' : Cursor) : Prop where
  ahead : c'.ahead = c.ahead.map (Token.relocate φ) ++ more.getD []
  depth : c'.depth = c.depth
  textEnd : more = none → c'.textEnd = φ.move c.textEnd

/-- Also the last token taken ends in the same place. -/
structure Follows (φ : Relocation) (more : Option (List Token)) (c c' : Cursor) : Prop
    extends Leads φ more c c' where
  lastStop : c'.lastStop = φ.move c.lastStop

variable {φ : Relocation} {more : Option (List Token)} {c c' : Cursor}

/-- At the end of the text, its end is taken. -/
theorem skip_of_nil (h : c.ahead = []) :
    c.skip = { c with taken := .eof c.textEnd :: c.taken } := by
  unfold skip
  split
  · rfl
  · rename_i ha
    exact absurd (h.symm.trans ha) (by simp)

namespace Cut

/-- A cursor that has little ahead has less after a token. -/
theorem skip (h : c.Cut more) : c.skip.Cut more := by
  obtain ⟨hmore, hnil | ⟨t, ht, -⟩⟩ := h
  · refine ⟨hmore, .inl ?_⟩
    rw [skip_of_nil hnil]
    exact hnil
  · exact ⟨hmore, .inl (skip_of_ahead ht).1⟩

/-- At such a cursor is the end of the text, or a sign that may mean more than one thing. -/
theorem kind (h : c.Cut more) : c.kind = .eof ∨ c.kind.peeks = true := by
  obtain ⟨-, hnil | ⟨t, ht, hpeeks⟩⟩ := h
  · exact .inl (kind_of_atEnd (by simp [Cursor.atEnd, hnil]))
  · exact .inr (by rwa [kind_eq, current_of_ahead ht])

/-- At the end of a text that goes on, what follows makes a difference. -/
theorem of_atEnd (hmore : more ≠ none) (h : c.atEnd = true) : c.Cut more :=
  ⟨hmore, .inl (ahead_eq_nil h)⟩

end Cut

namespace Leads

/-- The second cursor has as many tokens more as follow. -/
theorem left (h : Leads φ more c c') : c'.left = c.left + (more.getD []).length := by
  rw [c'.left_eq, h.ahead, List.length_append, List.length_map, c.left_eq]

/-! With a token ahead, the other cursor is at the same one. -/

theorem ahead_of (h : Leads φ more c c') (he : c.atEnd = false) : ∃ ts,
    c.ahead = c.current :: ts ∧
      c'.ahead = c.current.relocate φ :: (ts.map (Token.relocate φ) ++ more.getD []) := by
  obtain ⟨ts, ha⟩ := ahead_eq_cons he
  refine ⟨ts, ha, ?_⟩
  rw [h.ahead, ha]
  simp

/-- The current token has moved. -/
theorem current_of (h : Leads φ more c c') (he : c.atEnd = false) :
    c'.current = c.current.relocate φ := by
  obtain ⟨ts, -, ha'⟩ := h.ahead_of he
  exact current_of_ahead ha'

/-- Its kind is the same. -/
theorem kind_of (h : Leads φ more c c') (he : c.atEnd = false) : c'.kind = c.kind := by
  rw [kind_eq, h.current_of he]
  rfl

/-- Neither of the cursors is at the end. -/
theorem atEnd_of (h : Leads φ more c c') (he : c.atEnd = false) : c'.atEnd = false := by
  obtain ⟨ts, -, ha'⟩ := h.ahead_of he
  simp [Cursor.atEnd, ha']

/-- A token that both cursors take ends in the same place. -/
theorem skip_of (h : Leads φ more c c') (he : c.atEnd = false) :
    Follows φ more c.skip c'.skip := by
  obtain ⟨ts, ha, ha'⟩ := h.ahead_of he
  obtain ⟨h₁, h₂, h₃, h₄⟩ := skip_of_ahead ha
  obtain ⟨k₁, k₂, k₃, k₄⟩ := skip_of_ahead ha'
  refine ⟨⟨by rw [k₁, h₁], by rw [k₄, h₄, h.depth], fun hm => ?_⟩, ?_⟩
  · rw [k₃, h₃, h.textEnd hm]
  · simp [Cursor.lastStop, h₂, k₂]

/-! At the end of the text, the other cursor is at its end too or the first one is cut. -/

theorem atEnd (h : Leads φ more c c') : c.Cut more ∨ c'.atEnd = c.atEnd := by
  cases he : c.atEnd with
  | false => exact .inr (h.atEnd_of he)
  | true =>
    cases more with
    | some us => exact .inl (.of_atEnd (by simp) he)
    | none => exact .inr (by simp [Cursor.atEnd, h.ahead, ahead_eq_nil he])

theorem current (h : Leads φ more c c') : c.Cut more ∨ c'.current = c.current.relocate φ := by
  cases he : c.atEnd with
  | false => exact .inr (h.current_of he)
  | true =>
    cases more with
    | some us => exact .inl (.of_atEnd (by simp) he)
    | none =>
      have he' := h.atEnd.resolve_left fun hcut => hcut.1 rfl
      rw [current_of_atEnd he, current_of_atEnd (he'.trans he), h.textEnd rfl]
      exact .inr rfl

theorem kind (h : Leads φ more c c') : c.Cut more ∨ c'.kind = c.kind :=
  h.current.imp_right fun hc => by rw [Cursor.kind, hc]; rfl

/-- At most signs the token after them makes no difference. -/
theorem nextKind (h : Leads φ more c c') (hk : c.kind.peeks = true) :
    c.Cut more ∨ c'.nextKind = c.nextKind := by
  have he : c.atEnd = false := atEnd_of_kind (by rintro he; rw [he] at hk; cases hk)
  obtain ⟨ts, ha, ha'⟩ := h.ahead_of he
  cases ts with
  | cons u us => exact .inr (by simp [Cursor.nextKind, ha, ha'])
  | nil =>
    cases more with
    | some us => exact .inl ⟨by simp, .inr ⟨c.current, ha, hk⟩⟩
    | none => exact .inr (by simp [Cursor.nextKind, ha, ha'])

/-- Unless it is cut off, both readings take a token or both are at the end. -/
theorem skip (h : Leads φ more c c') : c.Cut more ∨ Follows φ more c.skip c'.skip := by
  cases he : c.atEnd with
  | false => exact .inr (h.skip_of he)
  | true =>
    cases more with
    | some us => exact .inl (.of_atEnd (by simp) he)
    | none =>
      have ha := ahead_eq_nil he
      have ha' : c'.ahead = [] := by rw [h.ahead, ha]; rfl
      rw [skip_of_nil ha, skip_of_nil ha']
      exact .inr ⟨⟨h.ahead, h.depth, h.textEnd⟩, h.textEnd rfl⟩

end Leads

end Cursor

/--
How two readings go side by side: at which cursors the second one is where the first one is, and
at which ones too little is ahead of the first one. Unless that is so, both readings see the same
and stay side by side when they take a token. The depths of the cursors are left open.
-/
structure Setting (φ : Relocation) where
  Follows : Cursor → Cursor → Prop
  Cut : Cursor → Prop
  /-- How many more tokens are ahead in the second reading. -/
  extra : Nat
  cut_skip : ∀ {c}, Cut c → Cut c.skip
  left : ∀ {c c'}, Follows c c' → c'.left = c.left + extra
  lastStop : ∀ {c c'}, Follows c c' → c'.lastStop = φ.move c.lastStop
  current : ∀ {c c'}, Follows c c' → Cut c ∨ c'.current = c.current.relocate φ
  atEnd : ∀ {c c'}, Follows c c' → Cut c ∨ c'.atEnd = c.atEnd
  nextKind : ∀ {c c'}, Follows c c' → c.kind.peeks = true → Cut c ∨ c'.nextKind = c.nextKind
  skip : ∀ {c c'}, Follows c c' → Cut c ∨ Follows c.skip c'.skip

namespace Setting

variable {φ : Relocation} {s : Setting φ} {c c' : Cursor}

theorem kind (h : s.Follows c c') : s.Cut c ∨ c'.kind = c.kind :=
  (s.current h).imp_right fun hc => by rw [Cursor.kind, hc]; rfl

/-- What loops test is the same in both readings. -/
theorem tests (h : s.Follows c c') : s.Cut c ∨ c'.kind = c.kind ∧ c'.atEnd = c.atEnd := by
  rcases s.kind h with hcut | hk
  · exact .inl hcut
  · exact (s.atEnd h).imp_right fun he => ⟨hk, he⟩

/-- The second text is the first one, maybe with more tokens after it. -/
@[reducible] def after (φ : Relocation) (more : Option (List Token)) : Setting φ where
  Follows := Cursor.Follows φ more
  Cut := Cursor.Cut more
  extra := (more.getD []).length
  cut_skip := Cursor.Cut.skip
  left h := h.left
  lastStop h := h.lastStop
  current h := h.current
  atEnd h := h.atEnd
  nextKind h := h.nextKind
  skip h := h.skip

instance : Coe (Option (List Token)) (Setting φ) := ⟨after φ⟩

/-- One level deeper, both readings are side by side in the second setting if they are so in the
first one, and the depth allows both to go there or neither. -/
structure Deepens (s inner : Setting φ) : Prop where
  cut : ∀ {c d}, s.Cut c ↔ inner.Cut { c with depth := d }
  allowed : ∀ {c c'}, s.Follows c c' → (c'.depth ≥ maxDepth ↔ c.depth ≥ maxDepth)
  down : ∀ {c c'}, s.Follows c c' →
    inner.Follows { c with depth := c.depth + 1 } { c' with depth := c'.depth + 1 }
  up : ∀ {c c'}, inner.Follows c c' →
    s.Follows { c with depth := c.depth - 1 } { c' with depth := c'.depth - 1 }

/-- Depths count nothing for tokens that follow. -/
theorem after_deepens (more : Option (List Token)) : (after φ more).Deepens (after φ more) where
  cut := Iff.rfl
  allowed h := by rw [h.depth]
  down h := ⟨⟨h.ahead, congrArg (· + 1) h.depth, h.textEnd⟩, h.lastStop⟩
  up h := ⟨⟨h.ahead, congrArg (· - 1) h.depth, h.textEnd⟩, h.lastStop⟩

end Setting

namespace Parse

variable {α β : Type} {φ : Relocation} {s : Setting φ}

/-- The one production makes what the other one makes, moved. -/
structure Same (φ : Relocation) (s : Setting φ) (m : α → α)
    (r r' : α × Cursor) : Prop where
  result : r'.1 = m r.1
  follows : s.Follows r.2 r'.2

/-- Unless what the first production reads is cut off, the second one does the same. -/
structure Tracks (φ : Relocation) (s : Setting φ) (m : α → α)
    (p q : Parse α) : Prop where
  persist : ∀ c : Cursor, s.Cut c → s.Cut (p c).2
  follow : ∀ c c' : Cursor, s.Follows c c' → s.Cut (p c).2 ∨ Same φ s m (p c) (q c')

namespace Tracks

variable {m : α → α} {m' : β → β} {p q p' q' : Parse α} {f g : α → Parse β}

/-! ## Ways to put productions together -/

/-- One production after another tracks itself if both do. -/
theorem bind (h : Tracks φ s m p q) (k : ∀ a, Tracks φ s m' (f a) (g (m a))) :
    Tracks φ s m' (p >>= f) (q >>= g) where
  persist c hc := (k (p c).1).persist _ (h.persist c hc)
  follow c c' hc := by
    rcases h.follow c c' hc with hcut | hsame
    · exact .inl ((k _).persist _ hcut)
    · have hk := (k (p c).1).follow _ _ hsame.follows
      rw [← hsame.result] at hk
      exact hk

/-- What is looked up is the same in both readings. -/
theorem look (h : Tracks φ s id p q) (k : ∀ a, Tracks φ s m' (f a) (g a)) :
    Tracks φ s m' (p >>= f) (q >>= g) := h.bind k

/-- A result that has been moved. -/
theorem pure {a b : α} (h : b = m a) : Tracks φ s m (Pure.pure a) (Pure.pure b) where
  persist _ hc := hc
  follow _ _ hc := .inr ⟨h, hc⟩

/-- What is made of a result that has been moved. -/
theorem map {u v : α → β} (h : Tracks φ s m p q) (hu : ∀ a, v (m a) = m' (u a)) :
    Tracks φ s m' (u <$> p) (v <$> q) where
  persist c hc := h.persist c hc
  follow c c' hc := (h.follow c c' hc).imp_right fun hs =>
    ⟨(congrArg v hs.result).trans (hu _), hs.follows⟩

/-- Both readings decide alike. -/
theorem ite {b : Prop} [Decidable b] (h : Tracks φ s m p q) (h' : Tracks φ s m p' q') :
    Tracks φ s m (if b then p else p') (if b then q else q') := by
  split
  · exact h
  · exact h'

/-- A production that looks at the cursor only. -/
theorem of_look {u : Cursor → α}
    (h : ∀ c c', s.Follows c c' → s.Cut c ∨ u c' = m (u c)) :
    Tracks φ s m (fun c => (u c, c)) (fun c => (u c, c)) where
  persist _ hc := hc
  follow c c' hc := (h c c' hc).imp_right fun hu => ⟨hu, hc⟩

end Tracks

/-! ## Looking at the cursor and moving it -/

/-- Kinds do not move. -/
theorem kind_tracks : Tracks φ s id kind kind := .of_look fun _ _ h => s.kind h

/-- The token after the current one is looked at as well, but it counts at a few signs only. -/
theorem Tracks.peek {m : β → β} {f g : TokenKind → TokenKind → Parse β}
    (yes : ∀ k next, k.peeks = true → Tracks φ s m (f k next) (g k next))
    (no : ∀ k next next', k.peeks = false → Tracks φ s m (f k next) (g k next')) :
    Tracks φ s m (do f (← kind) (← nextKind)) (do g (← kind) (← nextKind)) where
  persist c hc := by
    cases hp : c.kind.peeks with
    | true => exact (yes _ c.nextKind hp).persist c hc
    | false => exact (no _ c.nextKind c.nextKind hp).persist c hc
  follow c c' h := by
    show s.Cut (f c.kind c.nextKind c).2 ∨
      Same φ s m (f c.kind c.nextKind c) (g c'.kind c'.nextKind c')
    cases hp : c.kind.peeks with
    | true =>
      -- at the few signs both kinds have to agree
      rcases s.nextKind h hp with hcut | hn
      · exact .inl ((yes _ _ hp).persist c hcut)
      rcases s.kind h with hcut | hk
      · exact .inl ((yes _ _ hp).persist c hcut)
      rw [hn, hk]
      exact (yes _ _ hp).follow c c' h
    | false =>
      rcases s.kind h with hcut | hk
      · exact .inl ((no _ _ c.nextKind hp).persist c hcut)
      rw [hk]
      exact (no _ _ _ hp).follow c c' h

/-- The place of the current token moves with it. -/
theorem here_tracks : Tracks φ s φ.move here here :=
  .of_look fun _ _ h => (s.current h).imp_right fun hc => by rw [hc]; rfl

/-- So does the end of the last one. -/
theorem lastStop_tracks : Tracks φ s φ.move lastStop lastStop :=
  .of_look fun _ _ h => .inr (s.lastStop h)

/-- Unless it is cut off, both readings end together. -/
theorem atEnd_tracks : Tracks φ s id atEnd atEnd := .of_look fun _ _ h => s.atEnd h

/-- How many tokens are left differs by what follows, so it may only be compared. -/
theorem left_tracks : Tracks φ s (· + s.extra) left left := .of_look fun _ _ h => .inr (s.left h)

/-- The current token moves as a whole. -/
theorem current_tracks : Tracks φ s (Token.relocate φ) current current :=
  .of_look fun _ _ h => s.current h

/-- A token is taken by both readings. -/
theorem advance_tracks : Tracks φ s (Token.relocate φ) advance advance where
  persist _ hc := s.cut_skip hc
  follow _ _ h := by
    rcases s.current h with hcut | hc
    · exact .inl (s.cut_skip hcut)
    · exact (s.skip h).imp s.cut_skip fun hs => ⟨hc, hs⟩

/-- Before they do anything else, both productions take a token. -/
def Begins (φ : Relocation) (s : Setting φ) (m : α → α) (p q : Parse α) : Prop :=
  ∃ f g : Token → Parse α, p = advance >>= f ∧ q = advance >>= g ∧
    ∀ t, Tracks φ s m (f t) (g (t.relocate φ))

/-- To begin with a token is one way to track. -/
theorem Begins.tracks {m : α → α} {p q : Parse α} (h : Begins φ s m p q) :
    Tracks φ s m p q := by
  obtain ⟨f, g, rfl, rfl, h⟩ := h
  exact .bind advance_tracks h

/-- A look at the kind. -/
theorem sees_tracks (k : TokenKind) : Tracks φ s id (sees k) (sees k) :=
  kind_tracks.look fun _ => .pure rfl

/-- A token that may be there. -/
theorem eat?_tracks (k : TokenKind) :
    Tracks φ s (Option.map (Token.relocate φ)) (eat? k) (eat? k) :=
  (sees_tracks k).look fun _ => .ite (advance_tracks.bind fun _ => .pure rfl) (.pure rfl)

/-- The same if only its presence counts. -/
theorem eats_tracks (k : TokenKind) : Tracks φ s id (eats k) (eats k) :=
  (eat?_tracks k).bind fun t => .pure (by cases t <;> rfl)

/-- A token taken after what was read in both readings. -/
theorem eats_after {m : α → α} {r r' : α × Cursor} (k : TokenKind)
    (h : s.Cut r.2 ∨ Same φ s m r r') : s.Cut (eats k r.2).2 ∨
      r'.1 = m r.1 ∧ (eats k r'.2).1 = (eats k r.2).1 ∧
        s.Follows (eats k r.2).2 (eats k r'.2).2 := by
  rcases h with hcut | hs
  · exact .inl ((eats_tracks (φ := φ) k).persist _ hcut)
  · exact ((eats_tracks k).follow _ _ hs.follows).imp_right fun he =>
      ⟨hs.result, he.result, he.follows⟩

/-! ## Loops -/

namespace Tracks

section Loops

variable {m : α → α} {p q : Parse α} {stops : TokenKind → Bool} {closer : TokenKind}
  {grow grow' : α → Parse (Option α)}

/-- A loop stops at the same token in both readings. -/
theorem manyUntil (h : Tracks φ s m p q) :
    Tracks φ s (List.map m) (Parse.manyUntil stops p) (Parse.manyUntil stops q) := by
  -- once the first reading is past the cut, the loop does not bring it back
  have hpersist : ∀ c : Cursor, s.Cut c → s.Cut (Parse.manyUntil stops p c).2 := by
    intro c hc
    induction hn : c.left using Nat.strongRecOn generalizing c with
    | ind n ih =>
      have hafter := h.persist c hc
      rw [Parse.manyUntil]
      split
      · exact hc
      · generalize p c = turned at hafter ⊢
        obtain ⟨a, after⟩ := turned
        dsimp only at hafter ⊢
        split
        · rename_i hl
          exact ih _ (hn ▸ hl) after hafter rfl
        · exact hafter
  refine ⟨hpersist, fun c c' hc => ?_⟩
  -- by the tokens that are left to the first reading, as each turn takes one
  induction hn : c.left using Nat.strongRecOn generalizing c c' with
  | ind n ih =>
    rcases s.tests hc with hcut | ⟨hk, he⟩
    · exact .inl (hpersist c hcut)
    rw [Parse.manyUntil, Parse.manyUntil, hk, he, s.left hc]
    split
    · exact .inr ⟨rfl, hc⟩
    · have hturn := h.follow c c' hc
      generalize p c = turned, q c' = turned' at hturn ⊢
      obtain ⟨a, after⟩ := turned
      obtain ⟨a', after'⟩ := turned'
      dsimp only at hturn ⊢
      rcases hturn with hcut | ⟨hr, hf⟩
      · left
        split
        · exact hpersist after hcut
        · exact hcut
      · -- both turns took as many tokens, so both loops go on or neither does
        dsimp only at hr hf
        subst hr
        simp only [s.left hf, Nat.add_lt_add_iff_right]
        split
        · rename_i hl
          exact (ih _ (hn ▸ hl) after after' hf rfl).imp_right fun hs =>
            ⟨congrArg (m a :: ·) hs.result, hs.follows⟩
        · exact .inr ⟨rfl, hf⟩

/-- So does a loop over items with commas. -/
theorem separated (h : Tracks φ s m p q) :
    Tracks φ s (List.map m) (Parse.separated closer p) (Parse.separated closer q) := by
  have hpersist : ∀ c : Cursor, s.Cut c → s.Cut (Parse.separated closer p c).2 := fun c hc =>
    Ensures.separated (I := fun _ c => s.Cut c) (fun _ c hc _ => h.persist c hc)
      (fun _ _ hc _ => s.cut_skip hc) [] c hc
  refine ⟨hpersist, fun c c' hc => ?_⟩
  induction hn : c.left using Nat.strongRecOn generalizing c c' with
  | ind n ih =>
    rcases s.tests hc with hcut | ⟨hk, he⟩
    · exact .inl (hpersist c hcut)
    rw [Parse.separated, Parse.separated, hk, he, s.left hc]
    split
    · exact .inr ⟨rfl, hc⟩
    · have hturn := h.follow c c' hc
      generalize p c = turned, q c' = turned' at hturn ⊢
      obtain ⟨a, after⟩ := turned
      obtain ⟨a', after'⟩ := turned'
      -- item and comma make up one turn
      have hcomma := eats_after (.sign .comma) hturn
      dsimp only at hcomma ⊢
      generalize eats (.sign .comma) after = taken, eats (.sign .comma) after' = taken'
        at hcomma ⊢
      obtain ⟨comma, next⟩ := taken
      obtain ⟨comma', next'⟩ := taken'
      rcases hcomma with hcut | ⟨hr, hb, hf⟩
      · left
        dsimp only at hcut ⊢
        split
        · exact hpersist next hcut
        · exact hcut
      · dsimp only at hr hb hf ⊢
        subst hr hb
        simp only [s.left hf, Nat.add_lt_add_iff_right]
        split
        · rename_i hl
          exact (ih _ (hn ▸ hl.2) next next' hf rfl).imp_right fun hs =>
            ⟨congrArg (m a :: ·) hs.result, hs.follows⟩
        · exact .inr ⟨rfl, hf⟩

/-- And one that an ellipsis may end. -/
theorem separatedOpen (h : Tracks φ s m p q) :
    Tracks φ s (Prod.map (List.map m) id) (Parse.separatedOpen p) (Parse.separatedOpen q) := by
  have hpersist : ∀ c : Cursor, s.Cut c → s.Cut (Parse.separatedOpen p c).2 := fun c hc =>
    Ensures.separatedOpen (I := fun _ c => s.Cut c) (fun _ c hc _ => h.persist c hc)
      (fun _ _ hc _ => s.cut_skip hc) [] c hc
  refine ⟨hpersist, fun c c' hc => ?_⟩
  induction hn : c.left using Nat.strongRecOn generalizing c c' with
  | ind n ih =>
    rcases s.tests hc with hcut | ⟨hk, he⟩
    · exact .inl (hpersist c hcut)
    rw [Parse.separatedOpen, Parse.separatedOpen, hk, he, s.left hc]
    split
    · exact .inr ⟨rfl, hc⟩
    · by_cases hopen : c.kind = .sign .ellipsis
      · rw [Ensures.eats_of_kind hopen, Ensures.eats_of_kind (hk.trans hopen)]
        exact (s.skip hc).imp s.cut_skip fun hs => ⟨rfl, hs⟩
      · rw [Ensures.eats_of_ne hopen, Ensures.eats_of_ne (hk ▸ hopen)]
        have hturn := h.follow c c' hc
        generalize p c = turned, q c' = turned' at hturn ⊢
        obtain ⟨a, after⟩ := turned
        obtain ⟨a', after'⟩ := turned'
        -- an ellipsis behind the item ends the list
        have hclosed := eats_after (.sign .ellipsis) hturn
        dsimp only at hclosed ⊢
        generalize eats (.sign .ellipsis) after = closed, eats (.sign .ellipsis) after' = closed'
          at hclosed ⊢
        obtain ⟨stop, after⟩ := closed
        obtain ⟨stop', after'⟩ := closed'
        rcases hclosed with hcut | ⟨hr, hb, hf⟩
        · -- the first reading is past the cut in this turn, and stays there to its end
          left
          cases stop with
          | true => exact hcut
          | false =>
            have hnext := (eats_tracks (φ := φ) (.sign .comma)).persist after hcut
            dsimp only at hcut hnext ⊢
            generalize eats (.sign .comma) after = taken at hnext ⊢
            obtain ⟨comma, next⟩ := taken
            dsimp only at hnext ⊢
            split
            · exact hpersist next hnext
            · exact hnext
        · dsimp only at hr hb hf ⊢
          subst hr hb
          cases stop' with
          | true => exact .inr ⟨rfl, hf⟩
          | false =>
            have hcomma := (eats_tracks (.sign .comma)).follow after after' hf
            dsimp only at hcomma ⊢
            generalize eats (.sign .comma) after = taken, eats (.sign .comma) after' = taken'
              at hcomma ⊢
            obtain ⟨comma, next⟩ := taken
            obtain ⟨comma', next'⟩ := taken'
            rcases hcomma with hcut | ⟨hb, hf⟩
            · left
              dsimp only at hcut ⊢
              split
              · exact hpersist next hcut
              · exact hcut
            · dsimp only at hb hf ⊢
              subst hb
              simp only [s.left hf, Nat.add_lt_add_iff_right]
              split
              · rename_i hl
                exact (ih _ (hn ▸ hl.2) next next' hf rfl).imp_right fun hs =>
                  ⟨congrArg (fun r : List α × Bool => (m a :: r.1, r.2)) hs.result, hs.follows⟩
              · exact .inr ⟨rfl, hf⟩

/-- What grows in both readings grows as often. -/
theorem chain (h : ∀ a, Tracks φ s (Option.map m) (grow a) (grow' (m a))) (a : α) :
    Tracks φ s m (Parse.chain grow a) (Parse.chain grow' (m a)) := by
  have hpersist : ∀ a, ∀ c : Cursor, s.Cut c → s.Cut (Parse.chain grow a c).2 :=
    fun a c hc => Ensures.chain (I := fun _ c => s.Cut c) (fun a c hc => (h a).persist c hc)
      a c hc
  refine ⟨hpersist a, fun c c' hc => ?_⟩
  induction hn : c.left using Nat.strongRecOn generalizing a c c' with
  | ind n ih =>
    -- either both grow by the same, or both are done
    have hturn := (h a).follow c c' hc
    rw [Parse.chain, Parse.chain, s.left hc]
    generalize grow a c = turned, grow' (m a) c' = turned' at hturn ⊢
    obtain ⟨b, after⟩ := turned
    obtain ⟨b', after'⟩ := turned'
    rcases hturn with hcut | ⟨hr, hf⟩
    · left
      cases b with
      | none => exact hcut
      | some b =>
        dsimp only at hcut ⊢
        split
        · exact hpersist b after hcut
        · exact hcut
    · dsimp only at hr hf
      subst hr
      cases b with
      | none => exact .inr ⟨rfl, hf⟩
      | some b =>
        simp only [Option.map_some, s.left hf, Nat.add_lt_add_iff_right]
        split
        · rename_i hl
          exact ih _ (hn ▸ hl) b after after' hf rfl
        · exact .inr ⟨rfl, hf⟩

end Loops

end Tracks

end Parse

end MudEdit
