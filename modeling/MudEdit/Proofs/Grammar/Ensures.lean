import MudEdit.Proofs.Grammar.Cursor

/-!
# What a production ensures

`p.Ensures c Q` says that the production `p`, read at the cursor `c`, ends with a result
and a cursor of which `Q` holds. There is one rule for each way in which productions are
put together, so that a proof about a production follows its text line by line: `bind`
for a production that comes first, one rule each for what looks at the cursor or moves it,
and an invariant for each loop.
-/

namespace MudEdit.Parse

variable {α β : Type} {c : Cursor}

/-- Read at the cursor, the production ends with a result and a cursor of this kind. -/
def Ensures (p : Parse α) (c : Cursor) (Q : α → Cursor → Prop) : Prop := Q (p c).1 (p c).2

namespace Ensures

variable {p : Parse α} {f : α → Parse β} {P : α → Cursor → Prop} {Q : β → Cursor → Prop}

/-- What is ensured may be said with less. -/
theorem mono {Q : α → Cursor → Prop} (h : p.Ensures c P) (k : ∀ a c', P a c' → Q a c') :
    p.Ensures c Q := k _ _ h

/-- What is ensured in two ways is ensured at once. -/
theorem and {P' : α → Cursor → Prop} (h : p.Ensures c P) (h' : p.Ensures c P') :
    p.Ensures c fun a c' => P a c' ∧ P' a c' := ⟨h, h'⟩

/-- What comes first ensures what the rest may rely on. -/
theorem bind (h : p.Ensures c P) (k : ∀ a c', P a c' → (f a).Ensures c' Q) :
    Ensures (p >>= f) c Q := k _ _ h

/-- A production of which it is known what it does. -/
theorem bind_eq {a : α} {c' : Cursor} (h : p c = (a, c')) (k : (f a).Ensures c' Q) :
    Ensures (p >>= f) c Q :=
  bind (P := fun b last => b = a ∧ last = c') (by unfold Ensures; rw [h]; exact ⟨rfl, rfl⟩) (by
    rintro _ _ ⟨rfl, rfl⟩
    exact k)

theorem pure {b : β} (h : Q b c) : Ensures (Pure.pure b) c Q := h

/-- What a production ends with, where that is known in full. -/
theorem eq {x : α × Cursor} (h : p.Ensures c fun a c' => (a, c') = x) : p c = x := h

/-! ## Looking at the cursor and moving it -/

theorem kind {f : TokenKind → Parse β} (h : (f c.kind).Ensures c Q) :
    Ensures (Parse.kind >>= f) c Q := h

theorem nextKind {f : TokenKind → Parse β} (h : (f c.nextKind).Ensures c Q) :
    Ensures (Parse.nextKind >>= f) c Q := h

theorem here {f : Nat → Parse β} (h : (f c.current.begin).Ensures c Q) :
    Ensures (Parse.here >>= f) c Q := h

theorem lastStop {f : Nat → Parse β} (h : (f c.lastStop).Ensures c Q) :
    Ensures (Parse.lastStop >>= f) c Q := h

theorem atEnd {f : Bool → Parse β} (h : (f c.atEnd).Ensures c Q) :
    Ensures (Parse.atEnd >>= f) c Q := h

theorem left {f : Nat → Parse β} (h : (f c.left).Ensures c Q) :
    Ensures (Parse.left >>= f) c Q := h

theorem depth {f : Nat → Parse β} (h : (f c.depth).Ensures c Q) :
    Ensures (Parse.depth >>= f) c Q := h

theorem setDepth {depth : Nat} {f : Unit → Parse β}
    (h : (f ()).Ensures { c with depth } Q) : Ensures (Parse.setDepth depth >>= f) c Q := h

theorem current {f : Token → Parse β} (h : (f c.current).Ensures c Q) :
    Ensures (Parse.current >>= f) c Q := h

theorem sees {k : TokenKind} {f : Bool → Parse β} (h : (f (c.kind == k)).Ensures c Q) :
    Ensures (Parse.sees k >>= f) c Q := h

theorem advance {f : Token → Parse β} (h : (f c.current).Ensures c.skip Q) :
    Ensures (Parse.advance >>= f) c Q := h

/-! ## Taking a token of a kind -/

/-- A token of the kind is taken. -/
theorem eat?_of_kind {k : TokenKind} (h : c.kind = k) :
    Parse.eat? k c = (some c.current, c.skip) := by
  show (if (c.kind == k) = true then (some <$> Parse.advance : Parse (Option Token))
    else Pure.pure none) c = _
  rw [if_pos (beq_iff_eq.mpr h)]
  rfl

/-- Any other one is left. -/
theorem eat?_of_ne {k : TokenKind} (h : c.kind ≠ k) : Parse.eat? k c = (none, c) := by
  show (if (c.kind == k) = true then (some <$> Parse.advance : Parse (Option Token))
    else Pure.pure none) c = _
  rw [if_neg (by simpa using h)]
  rfl

theorem eats_of_kind {k : TokenKind} (h : c.kind = k) : Parse.eats k c = (true, c.skip) := by
  show ((Parse.eat? k c).1.isSome, (Parse.eat? k c).2) = _
  rw [eat?_of_kind h]
  rfl

theorem eats_of_ne {k : TokenKind} (h : c.kind ≠ k) : Parse.eats k c = (false, c) := by
  show ((Parse.eat? k c).1.isSome, (Parse.eat? k c).2) = _
  rw [eat?_of_ne h]
  rfl

/-- Whether a token is taken decides how it goes on. -/
theorem eat? {k : TokenKind} {f : Option Token → Parse β}
    (yes : c.kind = k → (f (some c.current)).Ensures c.skip Q)
    (no : c.kind ≠ k → (f none).Ensures c Q) : Ensures (Parse.eat? k >>= f) c Q := by
  show Ensures (f (Parse.eat? k c).1) (Parse.eat? k c).2 Q
  by_cases hk : c.kind = k
  · rw [eat?_of_kind hk]; exact yes hk
  · rw [eat?_of_ne hk]; exact no hk

theorem eats {k : TokenKind} {f : Bool → Parse β}
    (yes : c.kind = k → (f true).Ensures c.skip Q)
    (no : c.kind ≠ k → (f false).Ensures c Q) : Ensures (Parse.eats k >>= f) c Q :=
  eat? (f := fun t => f t.isSome) yes no

/-! ## Loops -/

section Loops

variable {stops : TokenKind → Bool} {closer : TokenKind} {item : Parse α}
  {grow : α → Parse (Option α)}

/-- A loop whose turns keep `I` and take a token ends with `I`, at a token that stops it. -/
theorem manyUntil {I : List α → Cursor → Prop}
    (turn : ∀ as c, I as c → stops c.kind = false → c.atEnd = false →
      item.Ensures c fun a c' => I (as ++ [a]) c' ∧ c'.left < c.left)
    (as : List α) (c : Cursor) (h : I as c) :
    Ensures (Parse.manyUntil stops item) c fun bs c' =>
      I (as ++ bs) c' ∧ (stops c'.kind = true ∨ c'.atEnd = true) := by
  induction hn : c.left using Nat.strongRecOn generalizing as c with
  | ind n ih =>
    unfold Ensures
    rw [Parse.manyUntil]
    split
    · rename_i hs
      rw [Bool.or_eq_true] at hs
      exact ⟨by rwa [List.append_nil], hs⟩
    · rename_i hs
      rw [Bool.not_eq_true, Bool.or_eq_false_iff] at hs
      -- one turn, by what it ensures
      have hi := turn as c h hs.1 hs.2
      unfold Ensures at hi
      generalize item c = turned at hi ⊢
      obtain ⟨a, after⟩ := turned
      -- the turn took a token, so the rest is a loop over fewer
      have hrest := ih _ (hn ▸ hi.2) (as ++ [a]) after hi.1 rfl
      dsimp only
      rw [if_pos hi.2]
      simpa only [Ensures, List.append_assoc, List.singleton_append] using hrest

/-- A loop over items with commas keeps what its items and commas keep. -/
theorem separated {I : List α → Cursor → Prop}
    (turn : ∀ as c, I as c → c.atEnd = false → item.Ensures c fun a c' => I (as ++ [a]) c')
    (comma : ∀ as c, I as c → c.kind = .sign .comma → I as c.skip)
    (as : List α) (c : Cursor) (h : I as c) :
    Ensures (Parse.separated closer item) c fun bs c' => I (as ++ bs) c' := by
  induction hn : c.left using Nat.strongRecOn generalizing as c with
  | ind n ih =>
    unfold Ensures
    rw [Parse.separated]
    split
    · show I (as ++ []) c
      rwa [List.append_nil]
    · rename_i hs
      rw [Bool.not_eq_true, Bool.or_eq_false_iff] at hs
      have hi := turn as c h hs.2
      unfold Ensures at hi
      generalize item c = turned at hi ⊢
      obtain ⟨a, after⟩ := turned
      dsimp only at hi ⊢
      -- with a comma the list goes on if a token was taken, without one it ends
      by_cases hk : after.kind = .sign .comma
      · rw [eats_of_kind hk]
        have hi' := comma _ _ hi hk
        dsimp only
        split
        · rename_i hl
          have hrest := ih _ (hn ▸ hl.2) (as ++ [a]) after.skip hi' rfl
          simpa only [Ensures, List.append_assoc, List.singleton_append] using hrest
        · exact hi'
      · rw [eats_of_ne hk]
        dsimp only
        rw [if_neg (by simp)]
        exact hi

/-- The same of a list that an ellipsis may end. -/
theorem separatedOpen {I : List α → Cursor → Prop}
    (turn : ∀ as c, I as c → c.atEnd = false → item.Ensures c fun a c' => I (as ++ [a]) c')
    (sign : ∀ as c, I as c → c.kind = .sign .comma ∨ c.kind = .sign .ellipsis → I as c.skip)
    (as : List α) (c : Cursor) (h : I as c) :
    Ensures (Parse.separatedOpen item) c fun bs c' => I (as ++ bs.1) c' := by
  induction hn : c.left using Nat.strongRecOn generalizing as c with
  | ind n ih =>
    unfold Ensures
    rw [Parse.separatedOpen]
    split
    · show I (as ++ []) c
      rwa [List.append_nil]
    · rename_i hs
      rw [Bool.not_eq_true, Bool.or_eq_false_iff] at hs
      by_cases he : c.kind = .sign .ellipsis
      · rw [eats_of_kind he]
        show I (as ++ []) c.skip
        rw [List.append_nil]
        exact sign _ _ h (.inr he)
      · rw [eats_of_ne he]
        have hi := turn as c h hs.2
        unfold Ensures at hi
        generalize item c = turned at hi ⊢
        obtain ⟨a, after⟩ := turned
        dsimp only at hi ⊢
        -- behind an item the list ends, goes on after a comma, or ends without one
        by_cases he' : after.kind = .sign .ellipsis
        · rw [eats_of_kind he']
          exact sign _ _ hi (.inr he')
        · rw [eats_of_ne he']
          dsimp only
          by_cases hk : after.kind = .sign .comma
          · rw [eats_of_kind hk]
            have hi' := sign _ _ hi (.inl hk)
            dsimp only
            split
            · rename_i hl
              have hrest := ih _ (hn ▸ hl.2) (as ++ [a]) after.skip hi' rfl
              simpa only [Ensures, List.append_assoc, List.singleton_append] using hrest
            · exact hi'
          · rw [eats_of_ne hk]
            dsimp only
            rw [if_neg (by simp)]
            exact hi

/-- A chain keeps what every way to grow keeps. -/
theorem chain {I : α → Cursor → Prop}
    (turn : ∀ a c, I a c → (grow a).Ensures c fun b c' => I (b.getD a) c')
    (a : α) (c : Cursor) (h : I a c) : Ensures (Parse.chain grow a) c I := by
  induction hn : c.left using Nat.strongRecOn generalizing a c with
  | ind n ih =>
    have hi := turn a c h
    unfold Ensures at hi ⊢
    rw [Parse.chain]
    split
    · rename_i c' hg
      rw [hg] at hi
      exact hi
    -- it has grown, and goes on if that took a token
    · rename_i b c' hg
      rw [hg] at hi
      split
      · rename_i hl
        exact ih _ (hn ▸ hl) b c' hi rfl
      · exact hi

end Loops

end Ensures

/-! ## Loops that end at once -/

/-- A chain that cannot grow ends. -/
theorem chain_stop {grow : α → Parse (Option α)} {a : α}
    (h : (grow a).Ensures c fun o c' => o = none ∧ c' = c) : chain grow a c = (a, c) := by
  unfold Ensures at h
  rw [chain]
  generalize grow a c = turned at h ⊢
  obtain ⟨o, c'⟩ := turned
  obtain ⟨rfl, rfl⟩ := h
  rfl

theorem separatedOpen_closed {item : Parse α} (h : c.kind = .sign .rightParen) :
    separatedOpen item c = (([], false), c) := by
  rw [separatedOpen, h, if_pos (by rfl)]

end MudEdit.Parse
