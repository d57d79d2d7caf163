import Mathlib.Order.Bounds.Defs
import MudEdit.Proofs.Text.Lines
import MudEdit.Proofs.Text.Runs

/-!
# Character boundaries

A boundary cuts a text in two, and it lies as many bytes from the start as the first part takes.
The characters that fit into so many bytes end at the greatest boundary that is not above them.
A cursor that is sent to an offset stands there, with the characters behind the boundary ahead.

Wherever else a cursor moves, it passes characters of those ahead. So it is on a boundary after any
moves, and between two boundaries in order there is always a slice.
-/

namespace MudEdit.Text

variable {text : String} {before after : List Char}

/-- The boundaries of a text are where it can be cut. -/
theorem isValid_iff_split {offset : Nat} : String.Pos.Raw.IsValid text ⟨offset⟩ ↔
    ∃ before after, text.toList = before ++ after ∧ offset = byteSize before := by
  constructor
  · intro h
    obtain ⟨s, t, rfl, hoffset⟩ := String.Pos.Raw.isValid_iff_exists_append.mp h
    refine ⟨s.toList, t.toList, String.toList_append, ?_⟩
    rw [byteSize_toList]
    exact congrArg String.Pos.Raw.byteIdx hoffset
  · rintro ⟨before, after, hsplit, rfl⟩
    exact isValid_of_split hsplit

theorem eq_nil_of_byteSize (h : byteSize before = 0) : before = [] := by
  cases before with
  | nil => rfl
  | cons c cs =>
    have := c.utf8Size_pos
    rw [byteSize_cons] at h
    omega

/-- Of two parts that a text starts with, the one with no fewer bytes goes on after the other. -/
theorem exists_append_of_byteSize_le {cs part part' rest rest' : List Char}
    (h : cs = part ++ rest) (h' : cs = part' ++ rest') (hle : byteSize part ≤ byteSize part') :
    ∃ more, part' = part ++ more ∧ rest = more ++ rest' := by
  rcases List.append_eq_append_iff.mp (h.symm.trans h') with ⟨more, rfl, hrest⟩ | ⟨more, rfl, rfl⟩
  · exact ⟨more, rfl, hrest⟩
  · rw [byteSize_append] at hle
    have hnil : more = [] := eq_nil_of_byteSize (by omega)
    rw [hnil]
    exact ⟨[], by simp, rfl⟩

theorem exists_append_of_byteSize_lt {cs part part' rest rest' : List Char}
    (h : cs = part ++ rest) (h' : cs = part' ++ rest') (hlt : byteSize part < byteSize part') :
    ∃ more, more ≠ [] ∧ part' = part ++ more := by
  obtain ⟨more, rfl, -⟩ := exists_append_of_byteSize_le h h' (Nat.le_of_lt hlt)
  refine ⟨more, ?_, rfl⟩
  rintro rfl
  simp at hlt

/-! ## The characters before an offset -/

/-- The characters that fit into so many bytes. -/
def charsUpTo (n : Nat) (cs : List Char) : List Char := cs.take (charsWithin n cs)

theorem charsUpTo_append_drop (n : Nat) (cs : List Char) :
    charsUpTo n cs ++ cs.drop (charsWithin n cs) = cs := List.take_append_drop ..

theorem charsUpTo_cons_of_le {n : Nat} {c : Char} (h : c.utf8Size ≤ n) (cs : List Char) :
    charsUpTo n (c :: cs) = c :: charsUpTo (n - c.utf8Size) cs := by
  rw [charsUpTo, charsWithin, if_pos h, List.take_succ_cons, charsUpTo]

theorem charsUpTo_cons_of_lt {n : Nat} {c : Char} (h : n < c.utf8Size) (cs : List Char) :
    charsUpTo n (c :: cs) = [] := by
  rw [charsUpTo, charsWithin, if_neg (Nat.not_le.mpr h), List.take_zero]

theorem byteSize_charsUpTo_le (n : Nat) (cs : List Char) : byteSize (charsUpTo n cs) ≤ n := by
  induction cs generalizing n with
  | nil => exact Nat.zero_le _
  | cons c cs ih =>
    by_cases h : c.utf8Size ≤ n
    · have hle := ih (n - c.utf8Size)
      rw [charsUpTo_cons_of_le h, byteSize_cons]
      omega
    · rw [charsUpTo_cons_of_lt (Nat.lt_of_not_le h)]
      exact Nat.zero_le _

/-- What fits in is passed. -/
theorem charsUpTo_append {n : Nat} (h : byteSize before ≤ n) (after : List Char) :
    charsUpTo n (before ++ after) = before ++ charsUpTo (n - byteSize before) after := by
  induction before generalizing n with
  | nil => rfl
  | cons c cs ih =>
    rw [byteSize_cons] at h
    rw [List.cons_append, charsUpTo_cons_of_le (by omega), ih (by omega), byteSize_cons,
      Nat.sub_sub]
    rfl

theorem charsUpTo_zero (cs : List Char) : charsUpTo 0 cs = [] := by
  rw [charsUpTo, charsWithin_zero, List.take_zero]

/-- Up to a boundary there are the characters that it has before it. -/
theorem charsUpTo_byteSize (before after : List Char) :
    charsUpTo (byteSize before) (before ++ after) = before := by
  rw [charsUpTo_append (Nat.le_refl _), Nat.sub_self, charsUpTo_zero, List.append_nil]

/-- **The characters before an offset end at the greatest boundary that is not above it.** -/
theorem isGreatest_charsUpTo (text : String) (offset : Nat) :
    IsGreatest {o | String.Pos.Raw.IsValid text ⟨o⟩ ∧ o ≤ offset}
      (byteSize (charsUpTo offset text.toList)) := by
  refine ⟨⟨?_, byteSize_charsUpTo_le _ _⟩, ?_⟩
  · exact isValid_of_split (charsUpTo_append_drop offset text.toList).symm
  · rintro o ⟨hvalid, hle⟩
    obtain ⟨before, after, hsplit, rfl⟩ := isValid_iff_split.mp hvalid
    rw [hsplit, charsUpTo_append hle, byteSize_append]
    exact Nat.le_add_right _ _

/-! ## A cursor that is sent to an offset -/

namespace Stream

@[simp] theorem chars_ofList (cs : List Char) : (ofList cs).chars = cs := rfl

theorem chars_reset (s : Stream) (offset : Nat) : (s.reset offset).chars = s.chars := by
  rw [reset, chars_forward, chars_ofList]

theorem position_reset (s : Stream) (offset : Nat) :
    (s.reset offset).position = byteSize (charsUpTo offset s.chars) := by
  rw [reset, position_forward]
  exact Nat.zero_add _

theorem after_reset (s : Stream) (offset : Nat) :
    (s.reset offset).after = s.chars.drop (charsWithin offset s.chars) := by
  rw [reset, after_forward]
  rfl

/-- A cursor sent to a boundary has the characters behind it ahead. -/
theorem after_reset_boundary {s : Stream} (h : s.chars = before ++ after) :
    (s.reset (byteSize before)).after = after ∧
      (s.reset (byteSize before)).position = byteSize before := by
  have hbefore : charsUpTo (byteSize before) s.chars = before := h ▸ charsUpTo_byteSize ..
  have hsplit := charsUpTo_append_drop (byteSize before) s.chars
  rw [hbefore] at hsplit
  refine ⟨?_, by rw [position_reset, hbefore]⟩
  rw [after_reset]
  exact List.append_cancel_left (hsplit.trans h)

end Stream

/-! ## Slices -/

/-- A slice is what is left when the text is cut at both of its ends. -/
theorem slice?_eq_some_iff {cs run : List Char} {lo hi : Nat} : slice? cs lo hi = some run ↔
    ∃ before after, cs = before ++ (run ++ after) ∧ lo = byteSize before ∧
      hi = byteSize before + byteSize run := by
  constructor
  · intro h
    obtain ⟨⟨upTo, after⟩, hupTo, h⟩ := Option.bind_eq_some_iff.mp h
    obtain ⟨⟨before, cut⟩, hcut, h⟩ := Option.bind_eq_some_iff.mp h
    obtain rfl := Option.some.inj h
    obtain ⟨rfl, rfl⟩ := of_splitBytes? hupTo
    obtain ⟨rfl, rfl⟩ := of_splitBytes? hcut
    exact ⟨before, after, List.append_assoc .., rfl, byteSize_append ..⟩
  · rintro ⟨before, after, rfl, rfl, rfl⟩
    rw [slice?, ← List.append_assoc, ← byteSize_append, splitBytes?_append]
    simp only [Option.bind_eq_bind, Option.bind_some, splitBytes?_append]
    rfl

/-- Between two boundaries in order there is a slice. -/
theorem exists_slice? {lo hi : Nat} (hlo : String.Pos.Raw.IsValid text ⟨lo⟩)
    (hhi : String.Pos.Raw.IsValid text ⟨hi⟩) (hle : lo ≤ hi) :
    ∃ run, slice? text.toList lo hi = some run := by
  obtain ⟨part, rest, h, rfl⟩ := isValid_iff_split.mp hlo
  obtain ⟨part', rest', h', rfl⟩ := isValid_iff_split.mp hhi
  obtain ⟨run, rfl, hrest⟩ := exists_append_of_byteSize_le h h' hle
  exact ⟨run, slice?_eq_some_iff.mpr ⟨part, rest', hrest ▸ h, rfl, byteSize_append ..⟩⟩

/-- The literal stands at the offset of the text. -/
def OccursAt (cs literal : List Char) (offset : Nat) : Prop :=
  slice? cs offset (offset + byteSize literal) = some literal

theorem occursAt_iff {cs literal : List Char} {offset : Nat} : OccursAt cs literal offset ↔
    ∃ before after, cs = before ++ (literal ++ after) ∧ offset = byteSize before := by
  rw [OccursAt, slice?_eq_some_iff]
  constructor
  · rintro ⟨before, after, h, hoffset, -⟩
    exact ⟨before, after, h, hoffset⟩
  · rintro ⟨before, after, h, rfl⟩
    exact ⟨before, after, h, rfl, rfl⟩

/-- Before the first occurrence of a literal there is nothing of which another one is behind. -/
theorem of_occurrence? {literal cs : List Char} {n : Nat} (h : occurrence? literal cs = some n) :
    ∃ before after, cs = before ++ (literal ++ after) ∧ before.length = n ∧
      ∀ before' after', cs = before' ++ (literal ++ after') → before <+: before' := by
  induction cs generalizing n with
  | nil =>
    unfold occurrence? at h
    split at h
    · rename_i hliteral
      -- it stands at the head, before which nothing stands
      obtain rfl := Option.some.inj h
      exact ⟨[], [], by simpa using hliteral, rfl, fun _ _ _ => List.nil_prefix⟩
    · cases h
  | cons c cs ih =>
    rw [occurrence?] at h
    split at h
    · rename_i hprefix
      obtain rfl := Option.some.inj h
      obtain ⟨after, hafter⟩ := List.isPrefixOf_iff_prefix.mp hprefix
      exact ⟨[], after, hafter.symm, rfl, fun _ _ _ => List.nil_prefix⟩
    · rename_i hprefix
      -- not at the head: the first one of the tail, moved by a character
      obtain ⟨m, hm, rfl⟩ := Option.map_eq_some_iff.mp h
      obtain ⟨before, after, rfl, rfl, hfirst⟩ := ih hm
      refine ⟨c :: before, after, rfl, rfl, fun before' after' heq => ?_⟩
      cases before' with
      | nil => exact absurd (List.isPrefixOf_iff_prefix.mpr ⟨after', heq.symm⟩) hprefix
      | cons d before' =>
        obtain ⟨hc, hcs⟩ := List.cons.inj heq
        exact List.cons_prefix_cons.mpr ⟨hc, hfirst before' after' hcs⟩

/-- A literal that is not found stands nowhere in the text. -/
theorem ne_of_occurrence?_eq_none {literal cs : List Char} (h : occurrence? literal cs = none)
    (before after : List Char) : cs ≠ before ++ (literal ++ after) := by
  induction cs generalizing before with
  | nil =>
    intro heq
    obtain ⟨-, hrest⟩ := List.append_eq_nil_iff.mp heq.symm
    rw [(List.append_eq_nil_iff.mp hrest).1] at h
    cases h
  | cons c cs ih =>
    rw [occurrence?] at h
    split at h
    · cases h
    · rename_i hprefix
      rintro heq
      cases before with
      | nil => exact hprefix (List.isPrefixOf_iff_prefix.mpr ⟨after, heq.symm⟩)
      | cons d before => exact ih (Option.map_eq_none_iff.mp h) before (List.cons.inj heq).2

/-! ## A cursor that moves -/

/-- A way to move a cursor. -/
inductive Move where
  | reset (offset : Nat)
  | advance
  | advanceBy (count : Nat)
  | advanceWhile (p : Char → Bool)
  | skipPast (literal : List Char)

namespace Stream

variable {s : Stream}

/-- The cursor after a move. -/
def move (s : Stream) : Move → Stream
  | .reset offset => s.reset offset
  | .advance => s.advance.2
  | .advanceBy count => (s.advanceBy count).2
  | .advanceWhile p => (s.advanceWhile p).2
  | .skipPast literal => (s.skipPast literal).2

/-- The cursor after moves, one after the other. -/
def moves (s : Stream) (ms : List Move) : Stream := ms.foldl move s

theorem forward_one (s : Stream) : s.forward 1 = s.skip := by
  rw [forward]
  split
  · rename_i hend
    unfold skip
    rw [List.isEmpty_iff.mp hend]
  · rfl

/-- A cursor that is not sent to an offset passes some of the characters ahead. -/
theorem move_cases (s : Stream) (m : Move) :
    (∃ n, s.move m = s.forward n) ∨ ∃ offset, m = .reset offset := by
  cases m with
  | reset offset => exact .inr ⟨offset, rfl⟩
  | advance => exact .inl ⟨1, s.forward_one.symm⟩
  | advanceBy count => exact .inl ⟨count, rfl⟩
  | advanceWhile p => exact .inl ⟨(s.after.takeWhile p).length, rfl⟩
  | skipPast literal =>
    rw [move, skipPast]
    cases occurrence? literal s.after with
    | none => exact .inl ⟨s.after.length, rfl⟩
    | some n => exact .inl ⟨n + literal.length, rfl⟩

/-- **A move** does not change the text. -/
theorem chars_move (s : Stream) (m : Move) : (s.move m).chars = s.chars := by
  rcases s.move_cases m with ⟨n, h⟩ | ⟨offset, rfl⟩
  · rw [h, chars_forward]
  · exact s.chars_reset offset

theorem chars_moves (s : Stream) (ms : List Move) : (s.moves ms).chars = s.chars := by
  induction ms generalizing s with
  | nil => rfl
  | cons m ms ih => exact (ih (s.move m)).trans (s.chars_move m)

/-- What is passed is the slice between where the cursor was and where it is. -/
theorem slice?_forward (n : Nat) (s : Stream) :
    slice? s.chars s.position (s.forward n).position = some (s.after.take n) := by
  refine slice?_eq_some_iff.mpr ⟨s.before.reverse, s.after.drop n, ?_, ?_, ?_⟩
  · rw [List.take_append_drop]
    rfl
  · rw [byteSize_reverse, s.position_eq]
  · rw [position_forward, byteSize_reverse, s.position_eq]

theorem position_toEnd (s : Stream) : s.toEnd.position = s.size := by
  rw [toEnd, position_forward, List.take_length]
  rfl

/-- A cut that is not behind the cursor is one of the characters ahead. -/
theorem exists_of_position_le (h : s.chars = before ++ after)
    (hle : s.position ≤ byteSize before) :
    ∃ more, s.after = more ++ after ∧ byteSize before = s.position + byteSize more := by
  have hbehind : s.position = byteSize s.before.reverse := by rw [byteSize_reverse, s.position_eq]
  have hchars : s.chars = s.before.reverse ++ s.after := rfl
  rw [hbehind] at hle ⊢
  obtain ⟨more, rfl, hafter⟩ := exists_append_of_byteSize_le hchars h hle
  exact ⟨more, hafter, byteSize_append ..⟩

/-- A run from the cursor on is no longer than the longest one. -/
theorem le_position_advanceWhile {p : Char → Bool} {run : List Char} {stop : Nat}
    (h : slice? s.chars s.position stop = some run) (hrun : ∀ c ∈ run, p c = true) :
    stop ≤ (s.advanceWhile p).2.position := by
  obtain ⟨before, after, hchars, hposition, rfl⟩ := slice?_eq_some_iff.mp h
  obtain ⟨more, hafter, hmore⟩ := exists_of_position_le hchars (Nat.le_of_eq hposition)
  have hnil : more = [] := eq_nil_of_byteSize (by omega)
  rw [hnil, List.nil_append] at hafter
  rw [advanceWhile, position_forward, take_length_takeWhile, hafter,
    List.takeWhile_append_of_pos hrun, byteSize_append]
  omega

/-- **Past a literal** a cursor comes to the end of its first occurrence ahead, or, if there is
none, to the end of the text. -/
theorem skipPast_spec (s : Stream) (literal : List Char) :
    ((s.skipPast literal).1 = true ∧
      ∃ o, IsLeast {o | s.position ≤ o ∧ OccursAt s.chars literal o} o ∧
        (s.skipPast literal).2.position = o + byteSize literal) ∨
    ((s.skipPast literal).1 = false ∧ (s.skipPast literal).2.position = s.size ∧
      ∀ o, s.position ≤ o → ¬OccursAt s.chars literal o) := by
  rw [skipPast]
  cases hfound : occurrence? literal s.after with
  | none =>
    refine .inr ⟨rfl, s.position_toEnd, fun o hle hoccurs => ?_⟩
    obtain ⟨before, after, hchars, rfl⟩ := occursAt_iff.mp hoccurs
    -- an occurrence behind the cursor would stand in what is left of the text
    obtain ⟨more, hafter, -⟩ := exists_of_position_le hchars hle
    exact ne_of_occurrence?_eq_none hfound more after hafter
  | some n =>
    obtain ⟨before, after, hafter, rfl, hfirst⟩ := of_occurrence? hfound
    refine .inl ⟨rfl, s.position + byteSize before,
      ⟨⟨Nat.le_add_right .., occursAt_iff.mpr ⟨s.before.reverse ++ before, after, ?_, ?_⟩⟩, ?_⟩, ?_⟩
    · rw [List.append_assoc, ← hafter]
      rfl
    · rw [byteSize_append, byteSize_reverse, s.position_eq]
    · rintro o ⟨hle, hoccurs⟩
      obtain ⟨before', after', hchars, rfl⟩ := occursAt_iff.mp hoccurs
      obtain ⟨more, hmore, hsize⟩ := exists_of_position_le hchars hle
      -- the one found is the first, so any other begins no earlier
      obtain ⟨tail, rfl⟩ := hfirst more after' hmore
      rw [hsize, byteSize_append]
      omega
    · rw [position_forward, hafter, ← List.append_assoc, ← List.length_append, List.take_left,
        byteSize_append, Nat.add_assoc]

/-- What holds of a cursor in a text, and of the moves that it can make from where it is. -/
structure Placed (text : String) (s : Stream) : Prop where
  /-- It is on a character boundary. -/
  boundary : String.Pos.Raw.IsValid text ⟨s.position⟩
  position_le : s.position ≤ text.utf8ByteSize
  /-- The slice up to the end of the text is what is ahead. -/
  rest : slice? text.toList s.position text.utf8ByteSize = some s.after
  /-- Only sending it to an offset moves it backwards. -/
  forth : ∀ m, s.position ≤ (s.move m).position ∨ ∃ offset, m = .reset offset
  /-- It is sent to the greatest boundary that is not above the offset. -/
  reset : ∀ offset, IsGreatest {o | String.Pos.Raw.IsValid text ⟨o⟩ ∧ o ≤ offset}
    (s.reset offset).position
  /-- One step passes the character that it gives, unless there is none. -/
  advance : slice? text.toList s.position s.advance.2.position = some s.advance.1.toList ∧
    (s.advance.1 = none → s.position = text.utf8ByteSize)
  /-- It passes as many characters as it says, and fewer than it is told only at the end. -/
  advanceBy : ∀ count, ∃ run,
    slice? text.toList s.position (s.advanceBy count).2.position = some run ∧
      (s.advanceBy count).1 = run.length ∧ run.length ≤ count ∧
      (run.length < count → (s.advanceBy count).2.position = text.utf8ByteSize)
  /-- It passes the run that it gives, and no run of such characters is longer. -/
  advanceWhile : ∀ p,
    slice? text.toList s.position (s.advanceWhile p).2.position = some (s.advanceWhile p).1 ∧
      (∀ c ∈ (s.advanceWhile p).1, p c = true) ∧
      ∀ stop run, slice? text.toList s.position stop = some run → (∀ c ∈ run, p c = true) →
        stop ≤ (s.advanceWhile p).2.position
  /-- It comes right behind the first occurrence ahead, or to the end if there is none. -/
  skipPast : ∀ literal,
    ((s.skipPast literal).1 = true ∧
      ∃ o, IsLeast {o | s.position ≤ o ∧ OccursAt text.toList literal o} o ∧
        (s.skipPast literal).2.position = o + byteSize literal) ∨
    ((s.skipPast literal).1 = false ∧ (s.skipPast literal).2.position = text.utf8ByteSize ∧
      ∀ o, s.position ≤ o → ¬OccursAt text.toList literal o)

/-- A cursor over a text is at a boundary of it, and each operation meets its byte-level account. -/
theorem Placed.of_chars (h : s.chars = text.toList) : s.Placed text := by
  have hsize : s.size = text.utf8ByteSize := size_of_chars h
  -- field by field: a slice taken forward is what lies between two positions
  refine ⟨isValid_position h, hsize ▸ s.position_le_size, ?_, fun m => ?_, fun offset => ?_,
    ⟨?_, fun hnone => ?_⟩, fun count => ⟨s.after.take count, ?_, ?_, ?_, fun hlt => ?_⟩,
    fun p => ⟨?_, fun c hc => ?_, fun stop run hslice hrun => ?_⟩, fun literal => ?_⟩
  · have hend := s.slice?_forward s.after.length
    rwa [List.take_length, h, ← toEnd, position_toEnd, hsize] at hend
  · rcases s.move_cases m with ⟨n, hm⟩ | hm
    · exact .inl (hm ▸ position_le_forward n s)
    · exact .inr hm
  · rw [position_reset, h]
    exact isGreatest_charsUpTo text offset
  · have hstep := s.slice?_forward 1
    rwa [forward_one, h, List.take_one] at hstep
  · have hnil : s.after = [] := List.head?_eq_none_iff.mp hnone
    rw [← hsize, size, hnil]
    rfl
  · exact h ▸ s.slice?_forward count
  · exact List.length_take.symm
  · exact List.length_take_le ..
  · rw [List.length_take] at hlt
    rw [Stream.advanceBy, position_forward, List.take_of_length_le (by omega), ← hsize]
    rfl
  · have hrun := s.slice?_forward (s.after.takeWhile p).length
    rwa [take_length_takeWhile, h] at hrun
  · exact List.all_eq_true.mp List.all_takeWhile c hc
  · exact le_position_advanceWhile (h ▸ hslice) hrun
  · rw [← h, ← hsize]
    exact s.skipPast_spec literal

/-- **A cursor never leaves the character boundaries of its text**, whatever moves it makes, and
no slice can fail from where it is to where it comes to later. -/
theorem moves_placed (text : String) (ms : List Move) :
    let s := (ofString text).moves ms
    s.Placed text ∧ ∀ more, s.position ≤ (s.moves more).position →
      ∃ run, slice? text.toList s.position (s.moves more).position = some run := by
  have hchars : ((ofString text).moves ms).chars = text.toList := chars_moves _ ms
  refine ⟨.of_chars hchars, fun more hle => ?_⟩
  have hlater := (chars_moves ((ofString text).moves ms) more).trans hchars
  exact exists_slice? (isValid_position hchars) (isValid_position hlater) hle

/-- A cursor that is sent into a character stands before it. -/
example : ((ofString "aé b").moves [.skipPast [' '], .reset 2]).position = 1 := by decide

end Stream

end MudEdit.Text
