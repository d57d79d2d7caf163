import MudEdit.Proofs.Forest.Bounds
import MudEdit.Proofs.Grammar.Tracked

/-!
# One level deeper

The depth at which a production is read decides nothing but how deep the productions that nest
may go. A reading that never comes near the greatest depth is the same one level deeper.
-/

namespace MudEdit

namespace Cursor

/-- The other cursor is at the same place, one level deeper. -/
structure Sunk (d : Nat) (c c' : Cursor) : Prop where
  taken : c'.taken = c.taken
  ahead : c'.ahead = c.ahead
  textEnd : c'.textEnd = c.textEnd
  depth : c.depth = d
  deeper : c'.depth = d + 1

namespace Sunk

variable {d : Nat} {c c' : Cursor}

theorem current (h : Sunk d c c') : c'.current = c.current := by
  rw [Cursor.current, Cursor.current, h.ahead, h.textEnd]

theorem skip (h : Sunk d c c') : Sunk d c.skip c'.skip := by
  cases ha : c.ahead with
  | nil =>
    rw [skip_of_nil ha, skip_of_nil (h.ahead.trans ha)]
    exact ⟨by rw [h.taken, h.textEnd], h.ahead, h.textEnd, h.depth, h.deeper⟩
  | cons t ts =>
    obtain ⟨h₁, h₂, h₃, h₄⟩ := skip_of_ahead ha
    obtain ⟨k₁, k₂, k₃, k₄⟩ := skip_of_ahead (h.ahead.trans ha)
    exact ⟨by rw [k₂, h₂, h.taken], by rw [k₁, h₁], by rw [k₃, h₃, h.textEnd], by rw [h₄, h.depth],
      by rw [k₄, h.deeper]⟩

end Sunk

end Cursor

namespace Setting

/-- The same reading from the given depth and from one level below it. Nothing is cut off. -/
@[reducible] def sunk (d : Nat) : Setting .stay where
  Follows := Cursor.Sunk d
  Cut _ := False
  extra := 0
  cut_skip h := h
  left h := by rw [Cursor.left_eq, Cursor.left_eq, h.ahead]; rfl
  lastStop h := by rw [Cursor.lastStop, Cursor.lastStop, h.taken]; rfl
  current h := .inr h.current
  atEnd h := .inr (by rw [Cursor.atEnd, Cursor.atEnd, h.ahead])
  nextKind h _ := .inr (by rw [Cursor.nextKind, Cursor.nextKind, h.ahead])
  skip h := .inr h.skip

/-- Both readings may go deeper unless only the second one is as deep as can be. -/
theorem sunk_deepens {d : Nat} (hd : d + 2 ≤ maxDepth) : (sunk d).Deepens (sunk (d + 1)) where
  cut := Iff.rfl
  allowed {c c'} h := by
    have hc := h.depth
    have hc' := h.deeper
    omega
  down h := ⟨h.taken, h.ahead, h.textEnd, congrArg (· + 1) h.depth, congrArg (· + 1) h.deeper⟩
  up h := ⟨h.taken, h.ahead, h.textEnd, congrArg (· - 1) h.depth, congrArg (· - 1) h.deeper⟩

end Setting

namespace Parse

variable {d limit : Nat} {p q beyond : Parse Node}

/-! At a given depth it is settled which of two productions is read. -/

theorem upTo_tracks (hd : d ≤ limit) (h : TracksNode .stay (.sunk d) p q) :
    TracksNode .stay (.sunk d) (p.upTo limit beyond) q where
  persist _ hc := hc.elim
  follow c c' hc := by
    have hp : p.upTo limit beyond c = p c := if_pos (hc.depth ▸ hd)
    rw [hp]
    exact h.follow c c' hc

theorem beyond_tracks (hd : limit < d) (h : TracksNode .stay (.sunk d) beyond q) :
    TracksNode .stay (.sunk d) (p.upTo limit beyond) q where
  persist _ hc := hc.elim
  follow c c' hc := by
    have hp : p.upTo limit beyond c = beyond c := if_neg (hc.depth ▸ Nat.not_le.mpr hd)
    rw [hp]
    exact h.follow c c' hc

end Parse

namespace Nested

open Parse

/-- What the last level reads: whatever nests in it is too deep. -/
def last : Nested where
  statement := Parse.statement .none
  member := Parse.member .none
  expression := Parse.expression .none
  alternative := Parse.alternative .none
  operand := Parse.operand .none
  unary := Parse.unary .none
  type := Parse.type .none

variable {d limit : Nat} {a b : Nested}

theorem Alike.upTo (beyond : Nested) (hd : d + 1 ≤ limit) (hmax : d + 2 ≤ maxDepth)
    (h : Alike .stay (.sunk (d + 1)) a b) :
    Alike .stay (.sunk d) (aboveUpTo limit beyond a) b.above :=
  have hs := Setting.sunk_deepens hmax
  { statement := .nested hs _ (upTo_tracks hd (statement_tracks h))
    member := .nested hs _ (upTo_tracks hd (member_tracks h))
    expression := .nested hs _ (upTo_tracks hd (expression_tracks h))
    alternative := .nested hs _ (upTo_tracks hd (alternative_tracks h))
    operand := fun loosest => .nested hs _ (upTo_tracks hd (operand_tracks h loosest))
    unary := .nested hs _ (upTo_tracks hd (unary_tracks h))
    type := .nested hs _ (upTo_tracks hd (type_tracks h)) }

/-- Beyond the limit the last level is read, which is also what is left one level deeper. -/
theorem Alike.beyond (a : Nested) (hd : limit < d + 1) (hmax : d + 2 ≤ maxDepth) :
    Alike .stay (.sunk d) (aboveUpTo limit last a) Nested.none.above :=
  have hs := Setting.sunk_deepens hmax
  have h := none_tracks (φ := .stay) (s := .sunk (d + 1))
  { statement := .nested hs _ (beyond_tracks hd (statement_tracks h))
    member := .nested hs _ (beyond_tracks hd (member_tracks h))
    expression := .nested hs _ (beyond_tracks hd (expression_tracks h))
    alternative := .nested hs _ (beyond_tracks hd (alternative_tracks h))
    operand := fun loosest => .nested hs _ (beyond_tracks hd (operand_tracks h loosest))
    unary := .nested hs _ (beyond_tracks hd (unary_tracks h))
    type := .nested hs _ (beyond_tracks hd (type_tracks h)) }

/-- From the limit up, a level that stops two levels short of the greatest depth reads what one
level less reads one level deeper. -/
theorem levelsUpTo_sunk (k : Nat) (hk : k + 2 ≤ maxDepth) :
    Alike .stay (.sunk (maxDepth - 2 - k)) (levelsUpTo (maxDepth - 2) last (k + 2))
      (levels (k + 1)) := by
  induction k with
  | zero => exact .beyond _ (by omega) (by omega)
  | succ k ih =>
    have hdepth : maxDepth - 2 - (k + 1) + 1 = maxDepth - 2 - k := by omega
    exact .upTo last (by omega) (by omega) (hdepth ▸ ih (by omega))

end Nested

namespace Parse

/-- **One level deeper everything is the same** if two levels are not needed. -/
theorem members_sunk (until_ : TokenKind) : TracksNodes .stay (.sunk 0)
    (membersUpTo (maxDepth - 2) .last until_)
    (manyUntil (· == until_) (guarded (member (.levels (maxDepth - 1))))) := by
  have hlevels := Nested.levelsUpTo_sunk (maxDepth - 2) (by decide)
  exact .manyUntil (.guarded (upTo_tracks (Nat.zero_le _) (member_tracks hlevels)))

end Parse

end MudEdit
