import MudEdit.Grammar.Cursor
import MudEdit.Proofs.Token.Order

/-!
# What lies between two cursors

A production moves its cursor over the tokens it takes and changes nothing else of it.
`Takes c ts c'` says just that: `ts` stood ahead of `c`, all of `ts` and nothing else has
been taken at `c'`, and text and depth are the same. The `eof` token does not stand ahead
of any cursor, so a cursor that takes only what stands ahead never takes the end of the
text.
-/

namespace MudEdit

namespace Cursor

variable {c c' c₁ c₂ : Cursor} {t : Token} {ts us : List Token}

/-! ## The current token -/

theorem current_of_ahead (h : c.ahead = t :: ts) : c.current = t := by
  simp [current, h]

theorem kind_eq (c : Cursor) : c.kind = c.current.kind := rfl

/-- Nothing is ahead of the end. -/
theorem ahead_eq_nil (h : c.atEnd = true) : c.ahead = [] := List.isEmpty_iff.mp h

/-- Before the end, the current token is the first one ahead. -/
theorem ahead_eq_cons (h : c.atEnd = false) : ∃ ts, c.ahead = c.current :: ts := by
  cases ha : c.ahead with
  | nil => simp [atEnd, ha] at h
  | cons t ts => exact ⟨ts, by rw [current_of_ahead ha]⟩

/-- The end of the text counts as a token. -/
theorem current_of_atEnd (h : c.atEnd = true) : c.current = .eof c.textEnd := by
  simp [current, ahead_eq_nil h]

theorem kind_of_atEnd (h : c.atEnd = true) : c.kind = .eof := by
  rw [kind_eq, current_of_atEnd h]; rfl

theorem atEnd_of_kind (h : c.kind ≠ .eof) : c.atEnd = false := by
  cases he : c.atEnd with
  | false => rfl
  | true => exact absurd (kind_of_atEnd he) h

/-! ## Past the current token -/

/-- One token goes from ahead to taken, and nothing else changes. -/
theorem skip_of_ahead (h : c.ahead = t :: ts) :
    c.skip.ahead = ts ∧ c.skip.taken = t :: c.taken ∧ c.skip.textEnd = c.textEnd ∧
      c.skip.depth = c.depth := by
  unfold skip
  split
  · rename_i he; rw [he] at h; exact absurd h (by simp)
  · rename_i u us he
    rw [he] at h
    injection h with h₁ h₂
    subst h₁; subst h₂
    exact ⟨rfl, rfl, rfl, rfl⟩

/-- The token taken last is the one that was current. -/
theorem lastStop_skip (h : c.atEnd = false) : c.skip.lastStop = c.current.stop := by
  obtain ⟨ts, ha⟩ := ahead_eq_cons h
  simp [lastStop, (skip_of_ahead ha).2.1]

/-! ## Taking tokens -/

/-- From the one cursor to the other, the tokens have been taken and nothing else changed. -/
structure Takes (c : Cursor) (ts : List Token) (c' : Cursor) : Prop where
  ahead : c.ahead = ts ++ c'.ahead
  taken : c'.taken = ts.reverse ++ c.taken
  textEnd : c'.textEnd = c.textEnd
  depth : c'.depth = c.depth

theorem Takes.refl (c : Cursor) : c.Takes [] c := ⟨rfl, rfl, rfl, rfl⟩

/-- What is taken twice is taken at once. -/
theorem Takes.trans (h₁ : c.Takes ts c₁) (h₂ : c₁.Takes us c₂) : c.Takes (ts ++ us) c₂ where
  ahead := by rw [h₁.ahead, h₂.ahead, List.append_assoc]
  taken := by rw [h₂.taken, h₁.taken, List.reverse_append, List.append_assoc]
  textEnd := h₂.textEnd.trans h₁.textEnd
  depth := h₂.depth.trans h₁.depth

/-- One step takes the current token. -/
theorem takes_skip (h : c.atEnd = false) : c.Takes [c.current] c.skip := by
  obtain ⟨ts, ha⟩ := ahead_eq_cons h
  obtain ⟨h₁, h₂, h₃, h₄⟩ := skip_of_ahead ha
  exact ⟨by rw [ha, h₁]; rfl, h₂, h₃, h₄⟩

/-- As many tokens fewer are left. -/
theorem Takes.left (h : c.Takes ts c') : c.left = ts.length + c'.left := by
  rw [c.left_eq, c'.left_eq, h.ahead, List.length_append]

/-- So a step leaves fewer. -/
theorem left_skip (h : c.atEnd = false) : c.skip.left < c.left := by
  have := (takes_skip h).left
  simp only [List.length_singleton] at this
  omega

/-- The last token taken is the last of the list. -/
theorem Takes.lastStop (h : c.Takes (ts ++ [t]) c') : c'.lastStop = t.stop := by
  simp [Cursor.lastStop, h.taken]

/-- What is taken from one cursor to another is one list only. -/
theorem Takes.unique (h : c.Takes ts c') (h' : c.Takes us c') : ts = us :=
  List.append_cancel_right (h.ahead.symm.trans h'.ahead)

/-- Where nothing is taken, nothing has changed. -/
theorem Takes.eq_of_nil (h : c.Takes [] c') : c' = c := by
  -- a cursor also carries its number of tokens left, which the list determines
  obtain ⟨taken, ahead, textEnd, left, left_eq, depth⟩ := c
  obtain ⟨taken', ahead', textEnd', left', left_eq', depth'⟩ := c'
  obtain ⟨h₁, h₂, h₃, h₄⟩ := h
  simp only [List.nil_append, List.reverse_nil] at h₁ h₂ h₃ h₄
  subst h₁ h₂ h₃ h₄ left_eq left_eq'
  rfl

/-- Tokens taken one level deeper have been taken. -/
theorem Takes.deeper (h : Takes { c with depth := c.depth + 1 } ts c') :
    c.Takes ts { c' with depth := c'.depth - 1 } :=
  ⟨h.ahead, h.taken, h.textEnd, by simp [h.depth]⟩

/-- The first token taken is the current one. -/
theorem Takes.cons (h : c.Takes (t :: ts) c') :
    c.atEnd = false ∧ c.current = t ∧ c.skip.Takes ts c' := by
  have ha := h.ahead
  rw [List.cons_append] at ha
  obtain ⟨h₁, h₂, h₃, h₄⟩ := skip_of_ahead ha
  refine ⟨by simp [atEnd, ha], current_of_ahead ha, h₁, ?_, ?_, ?_⟩
  · rw [h.taken, h₂, List.reverse_cons, List.append_assoc]; rfl
  · rw [h.textEnd, h₃]
  · rw [h.depth, h₄]

/-- At the end of the text nothing is ahead that could be taken. -/
theorem Takes.eq_of_atEnd (h : c.Takes ts c') (he : c.atEnd = true) : ts = [] ∧ c' = c := by
  have ha := h.ahead
  rw [ahead_eq_nil he] at ha
  obtain ⟨rfl, -⟩ := List.append_eq_nil_iff.mp ha.symm
  exact ⟨rfl, h.eq_of_nil⟩

/-! ## A cursor in a list of tokens -/

/-- The tokens taken and those ahead make up the list. -/
def In (all : List Token) (c : Cursor) : Prop := c.taken.reverse ++ c.ahead = all

namespace In

variable {all : List Token}

/-- A list of tokens contains the cursor wherever it moves. -/
theorem takes (h : c.In all) (ht : c.Takes ts c') : c'.In all := by
  rw [In, ht.taken, List.reverse_append, List.reverse_reverse, List.append_assoc, ← ht.ahead]
  exact h

/-- What is taken is between what was taken before and what is still ahead. -/
theorem eq_append (h : c.In all) (ht : c.Takes ts c') :
    all = c.taken.reverse ++ (ts ++ c'.ahead) := by
  rw [← ht.ahead]
  exact h.symm

/-- Only tokens of the list are taken. -/
theorem mem_of_takes (h : c.In all) (ht : c.Takes ts c') : ∀ t ∈ ts, t ∈ all := by
  intro t hm
  rw [h.eq_append ht]
  simp [hm]

theorem current_mem (h : c.In all) (he : c.atEnd = false) : c.current ∈ all :=
  h.mem_of_takes (takes_skip he) _ List.mem_cons_self

end In

/-! ## The places of the tokens -/

variable {mark : Nat → Prop}

/-- The tokens ahead stand in order after those taken, and all offsets are marks. -/
structure Placed (mark : Nat → Prop) (c : Cursor) : Prop where
  order : Token.InOrder c.lastStop c.ahead c.textEnd
  lastStop_mark : mark c.lastStop
  textEnd_mark : mark c.textEnd
  ahead_mark : ∀ t ∈ c.ahead, mark t.begin ∧ mark t.stop

namespace Placed

/-- The current token, be it the end, stands at marks. -/
theorem current_mark (h : c.Placed mark) : mark c.current.begin ∧ mark c.current.stop := by
  cases he : c.atEnd with
  | true => rw [current_of_atEnd he]; exact ⟨h.textEnd_mark, h.textEnd_mark⟩
  | false =>
    obtain ⟨ts, ha⟩ := ahead_eq_cons he
    exact h.ahead_mark _ (ha ▸ List.mem_cons_self)

/-- Tokens do not overlap. -/
theorem lastStop_le_current (h : c.Placed mark) : c.lastStop ≤ c.current.begin := by
  cases he : c.atEnd with
  | true => rw [current_of_atEnd he]; exact h.order.le
  | false =>
    obtain ⟨ts, ha⟩ := ahead_eq_cons he
    exact (h.order.within _ (ha ▸ List.mem_cons_self)).1

/-- No token reaches beyond the text. -/
theorem current_le_textEnd (h : c.Placed mark) :
    c.current.begin ≤ c.textEnd ∧ c.current.stop ≤ c.textEnd := by
  cases he : c.atEnd with
  | true => rw [current_of_atEnd he]; exact ⟨Nat.le_refl _, Nat.le_refl _⟩
  | false =>
    obtain ⟨ts, ha⟩ := ahead_eq_cons he
    have := h.order.within _ (ha ▸ List.mem_cons_self)
    omega

/-- One step keeps the order, and takes a token that is not empty. -/
theorem skip (h : c.Placed mark) (he : c.atEnd = false) :
    c.skip.Placed mark ∧ c.current.begin < c.skip.lastStop := by
  obtain ⟨ts, ha⟩ := ahead_eq_cons he
  have hs := skip_of_ahead ha
  have hl := lastStop_skip he
  have ho := h.order
  rw [ha] at ho
  -- order, the last end, the end of the text and the marks ahead
  refine ⟨⟨?_, ?_, ?_, ?_⟩, ?_⟩
  · rw [hl, hs.1, hs.2.2.1]; exact ho.tail
  · rw [hl]; exact h.current_mark.2
  · rw [hs.2.2.1]; exact h.textEnd_mark
  · rw [hs.1]; exact fun t ht => h.ahead_mark t (ha ▸ List.mem_cons_of_mem _ ht)
  · rw [hl]; exact (ho.within _ List.mem_cons_self).2.1

/-- What tokens taken in between change about the places of the two cursors. -/
theorem takes {ts : List Token} (h : c.Placed mark) (ht : c.Takes ts c') :
    c'.Placed mark ∧ c.lastStop ≤ c'.lastStop ∧ c.current.begin ≤ c'.current.begin ∧
      (c'.left < c.left →
        c.current.begin < c'.lastStop ∧ c.current.stop ≤ c'.lastStop) := by
  induction ts generalizing c with
  | nil =>
    rw [ht.eq_of_nil]
    exact ⟨h, Nat.le_refl _, Nat.le_refl _, fun hl => absurd hl (Nat.lt_irrefl _)⟩
  | cons t ts ih =>
    -- the first token is the current one, and the others are taken after it
    obtain ⟨he, -, ht'⟩ := ht.cons
    obtain ⟨hs, hlt⟩ := h.skip he
    obtain ⟨hp, hle, hb, -⟩ := ih hs ht'
    have h₁ := h.lastStop_le_current
    have h₂ := hs.lastStop_le_current
    have h₃ := lastStop_skip he
    exact ⟨hp, by omega, by omega, fun _ => ⟨by omega, by omega⟩⟩

end Placed

end Cursor

end MudEdit
