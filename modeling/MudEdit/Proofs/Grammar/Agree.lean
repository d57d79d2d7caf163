import MudEdit.Proofs.Grammar.Levels

/-!
# Productions that agree at a depth

What a production does depends on the productions below it only as they are one level
deeper. `Agree d p q` says that two productions do the same at cursors of depth `d`, and
come back to that depth. Productions put together in the same way of productions that
agree do agree, and so each production of the grammar is the same over levels that agree.
-/

namespace MudEdit

namespace Parse

variable {α β : Type} {d : Nat}

/-- Read at a cursor of the depth, both productions do the same and come back to the depth. -/
def Agree (d : Nat) (p q : Parse α) : Prop := ∀ c, c.depth = d → p c = q c ∧ (p c).2.depth = d

namespace Agree

variable {p q p' q' : Parse α} {f g : α → Parse β}

/-! ## Ways to put productions together -/

/-- One production after another agrees if both do. -/
theorem bind (h : Agree d p q) (k : ∀ a, Agree d (f a) (g a)) : Agree d (p >>= f) (q >>= g) := by
  intro c hc
  obtain ⟨hpq, hd⟩ := h c hc
  -- both go on with the same result, from the same cursor of that depth
  have hk := k (p c).1 (p c).2 hd
  refine ⟨?_, hk.2⟩
  show f (p c).1 (p c).2 = g (q c).1 (q c).2
  rw [← hpq]
  exact hk.1

theorem pure (a : α) : Agree d (Pure.pure a) (Pure.pure a) := fun _ hc => ⟨rfl, hc⟩

theorem map {u : α → β} (h : Agree d p q) : Agree d (u <$> p) (u <$> q) := by
  intro c hc
  obtain ⟨hpq, hd⟩ := h c hc
  refine ⟨?_, hd⟩
  show (u (p c).1, (p c).2) = (u (q c).1, (q c).2)
  rw [hpq]

theorem ite {b : Prop} [Decidable b] (h : Agree d p q) (h' : Agree d p' q') :
    Agree d (if b then p else p') (if b then q else q') := by
  split
  · exact h
  · exact h'

end Agree

/-! ## Productions that read no level below -/

/-- A production that only takes tokens comes back to its depth. -/
theorem Agree.of_takes {p : Parse α} (h : ∀ c, p.Ensures c fun _ c' => ∃ ts, c.Takes ts c') :
    Agree d p p := by
  intro c hc
  obtain ⟨ts, ht⟩ := h c
  exact ⟨rfl, ht.depth.trans hc⟩

theorem kind_steady : Agree d kind kind := fun _ hc => ⟨rfl, hc⟩

theorem nextKind_steady : Agree d nextKind nextKind := fun _ hc => ⟨rfl, hc⟩

theorem here_steady : Agree d here here := fun _ hc => ⟨rfl, hc⟩

theorem lastStop_steady : Agree d lastStop lastStop := fun _ hc => ⟨rfl, hc⟩

theorem atEnd_steady : Agree d atEnd atEnd := fun _ hc => ⟨rfl, hc⟩

theorem left_steady : Agree d left left := fun _ hc => ⟨rfl, hc⟩

/-- A token taken leaves the depth as it is. -/
theorem advance_steady : Agree d advance advance := by
  intro c hc
  refine ⟨rfl, ?_⟩
  show c.skip.depth = d
  unfold Cursor.skip
  split <;> exact hc

theorem sees_steady (k : TokenKind) : Agree d (sees k) (sees k) :=
  .bind kind_steady fun _ => .pure _

theorem eat?_steady (k : TokenKind) : Agree d (eat? k) (eat? k) :=
  .bind (sees_steady k) fun _ => .ite (.bind advance_steady fun _ => .pure _) (.pure _)

theorem eats_steady (k : TokenKind) : Agree d (eats k) (eats k) :=
  .bind (eat?_steady k) fun _ => .pure _

theorem wrongCurrent_steady (e : Expected) : Agree d (wrongCurrent e) (wrongCurrent e) :=
  .bind advance_steady fun _ => .pure _

/-- A hole takes a token at most. -/
theorem hole_steady (e : Expected) : Agree d (hole e) (hole e) := by
  refine .of_takes fun c => ?_
  exact (hole_reads e).mono fun _ _ h => h.2.takes

/-- So does a refusal. -/
theorem refuse_steady (e : Expected) : Agree d (refuse e) (refuse e) := by
  refine .of_takes fun c => ?_
  exact (refuse_reads e).mono fun _ _ h => h.1.takes

/-- A token that has to be there brings no level with it. -/
theorem expect_steady (k : TokenKind) (e : Expected) : Agree d (expect k e) (expect k e) := by
  refine .bind (eats_steady k) fun _ => .ite (.pure _) ?_
  exact .bind (hole_steady e) fun _ => .ite (.pure _) (.bind (eats_steady k) fun _ => .pure _)

/-- One lemma for all the tokens that constructs need. -/
theorem needed_steady (k : TokenKind) (e : Expected) :
    Agree d (do return (← expect k e).2) (do return (← expect k e).2) :=
  .bind (expect_steady k e) fun _ => .pure _

namespace Agree

variable {p q : Parse α}

/-! ## Loops -/

section Loops

variable {stops : TokenKind → Bool} {closer : TokenKind} {grow grow' : α → Parse (Option α)}

/-- A loop agrees with one whose turns agree with its own. -/
theorem manyUntil (h : Agree d p q) :
    Agree d (Parse.manyUntil stops p) (Parse.manyUntil stops q) := by
  intro c hc
  induction hn : c.left using Nat.strongRecOn generalizing c with
  | ind n ih =>
    obtain ⟨hpq, hd⟩ := h c hc
    rw [Parse.manyUntil, Parse.manyUntil, ← hpq]
    split
    · exact ⟨rfl, hc⟩
    · generalize p c = turned at hd ⊢
      obtain ⟨a, after⟩ := turned
      dsimp only at hd ⊢
      split
      · -- the rest is a loop over fewer tokens
        rename_i hl
        obtain ⟨hrest, hd'⟩ := ih _ (hn ▸ hl) after hd rfl
        rw [← hrest]
        exact ⟨rfl, hd'⟩
      · exact ⟨rfl, hd⟩

/-- So does a loop over items with commas. -/
theorem separated (h : Agree d p q) :
    Agree d (Parse.separated closer p) (Parse.separated closer q) := by
  intro c hc
  induction hn : c.left using Nat.strongRecOn generalizing c with
  | ind n ih =>
    obtain ⟨hpq, hd⟩ := h c hc
    rw [Parse.separated, Parse.separated, ← hpq]
    split
    · exact ⟨rfl, hc⟩
    · generalize p c = turned at hd ⊢
      obtain ⟨a, after⟩ := turned
      dsimp only at hd ⊢
      -- the comma is the same for both, so only the rest of the loop is left
      have hd' := (eats_steady (.sign .comma) after hd).2
      generalize eats (.sign .comma) after = taken at hd' ⊢
      obtain ⟨comma, next⟩ := taken
      dsimp only at hd' ⊢
      split
      · rename_i hl
        obtain ⟨hrest, hd''⟩ := ih _ (hn ▸ hl.2) next hd' rfl
        rw [← hrest]
        exact ⟨rfl, hd''⟩
      · exact ⟨rfl, hd'⟩

/-- And one that an ellipsis may end. -/
theorem separatedOpen (h : Agree d p q) :
    Agree d (Parse.separatedOpen p) (Parse.separatedOpen q) := by
  intro c hc
  induction hn : c.left using Nat.strongRecOn generalizing c with
  | ind n ih =>
    obtain ⟨hpq, hd⟩ := h c hc
    rw [Parse.separatedOpen, Parse.separatedOpen, ← hpq]
    split
    · exact ⟨rfl, hc⟩
    -- signs are read alike, so the two loops may part at an item only
    · have hd₀ := (eats_steady (.sign .ellipsis) c hc).2
      generalize eats (.sign .ellipsis) c = start at hd₀ ⊢
      obtain ⟨_ | _, c₀⟩ := start
      · generalize p c = turned at hd ⊢
        obtain ⟨a, after⟩ := turned
        dsimp only at hd ⊢
        have hd₁ := (eats_steady (.sign .ellipsis) after hd).2
        generalize eats (.sign .ellipsis) after = closed at hd₁ ⊢
        obtain ⟨_ | _, c₁⟩ := closed
        · dsimp only at hd₁ ⊢
          have hd₂ := (eats_steady (.sign .comma) c₁ hd₁).2
          generalize eats (.sign .comma) c₁ = taken at hd₂ ⊢
          obtain ⟨comma, next⟩ := taken
          dsimp only at hd₂ ⊢
          split
          · rename_i hl
            obtain ⟨hrest, hd₃⟩ := ih _ (hn ▸ hl.2) next hd₂ rfl
            rw [← hrest]
            exact ⟨rfl, hd₃⟩
          · exact ⟨rfl, hd₂⟩
        · exact ⟨rfl, hd₁⟩
      · exact ⟨rfl, hd₀⟩

/-- What grows alike at each turn has grown alike at last. -/
theorem chain (h : ∀ a, Agree d (grow a) (grow' a)) (a : α) :
    Agree d (Parse.chain grow a) (Parse.chain grow' a) := by
  intro c hc
  induction hn : c.left using Nat.strongRecOn generalizing a c with
  | ind n ih =>
    -- both grow by the same
    obtain ⟨hg, hd⟩ := h a c hc
    rw [Parse.chain, Parse.chain, ← hg]
    generalize grow a c = turned at hd ⊢
    obtain ⟨b | b, after⟩ := turned
    · exact ⟨rfl, hd⟩
    · dsimp only at hd ⊢
      split
      · rename_i hl
        exact ih _ (hn ▸ hl) b after hd rfl
      · exact ⟨rfl, hd⟩

end Loops

/-- A guarded production may take a token more, but stays at its depth. -/
theorem guarded {p q : Parse Node} (h : Agree d p q) :
    Agree d (Parse.guarded p) (Parse.guarded q) := by
  refine .bind left_steady fun _ => .bind h fun _ => .bind atEnd_steady fun _ => ?_
  refine .bind left_steady fun _ => .ite (.pure _) ?_
  exact .bind (wrongCurrent_steady _) fun _ => .pure _

end Agree

end Parse

end MudEdit
