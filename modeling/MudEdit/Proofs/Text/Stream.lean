import MudEdit.Text.Stream

/-!
# A stream moves forward over one text

Whatever a stream does on its way, its characters stay the same and its position only
grows, by a byte at least for every character passed. Since the position counts the bytes
of the characters passed, it is a valid position of the text.
-/

namespace MudEdit.Text

/-! ## Bytes of characters and of strings -/

theorem utf8ByteSize_ofList (cs : List Char) : (String.ofList cs).utf8ByteSize = byteSize cs := by
  induction cs with
  | nil => rfl
  | cons c cs ih =>
    rw [String.ofList_cons, String.utf8ByteSize_append, String.utf8ByteSize_singleton, ih]
    rfl

theorem byteSize_toList (text : String) : byteSize text.toList = text.utf8ByteSize := by
  rw [← utf8ByteSize_ofList, String.ofList_toList]

/-- What the first characters of a text take is a position of it. -/
theorem isValid_of_split {text : String} {before after : List Char}
    (h : text.toList = before ++ after) : String.Pos.Raw.IsValid text ⟨byteSize before⟩ := by
  rw [String.Pos.Raw.isValid_iff_exists_append]
  refine ⟨String.ofList before, String.ofList after, ?_, ?_⟩
  · rw [← String.ofList_append, ← h, String.ofList_toList]
  · rw [← utf8ByteSize_ofList]; rfl

namespace Stream

variable {s : Stream}

theorem size_eq (s : Stream) : s.size = byteSize s.chars := by
  simp [size, chars, s.position_eq]

/-- Wherever a stream over a text stands is a position of the text. -/
theorem isValid_position {text : String} (h : s.chars = text.toList) :
    String.Pos.Raw.IsValid text ⟨s.position⟩ := by
  have hsplit : text.toList = s.before.reverse ++ s.after := h.symm
  have hv := isValid_of_split hsplit
  rwa [byteSize_reverse, ← s.position_eq] at hv

theorem size_of_chars {text : String} (h : s.chars = text.toList) :
    s.size = text.utf8ByteSize := by
  rw [size_eq, h, byteSize_toList]

/-! ## Moving forward -/

@[simp] theorem chars_skip (s : Stream) : s.skip.chars = s.chars := by
  unfold skip
  split
  · rfl
  · rename_i c cs hc
    simp [chars, hc]

@[simp] theorem chars_forward (n : Nat) (s : Stream) : (s.forward n).chars = s.chars := by
  induction n generalizing s with
  | zero => rfl
  | succ n ih =>
    rw [forward]
    split
    · rfl
    · rw [ih, chars_skip]

theorem after_skip (s : Stream) : s.skip.after = s.after.drop 1 := by
  unfold skip
  split
  · rename_i h; simp [h]
  · rename_i h; simp [h]

/-- Moving forward passes the characters next. -/
theorem after_forward (n : Nat) (s : Stream) : (s.forward n).after = s.after.drop n := by
  induction n generalizing s with
  | zero => rfl
  | succ n ih =>
    rw [forward]
    split
    · rename_i h
      rw [List.isEmpty_iff.mp h, List.drop_nil]
    · rw [ih, after_skip, List.drop_drop, Nat.add_comm]

/-- Going forward advances the position by the size of the characters passed. -/
theorem position_forward (n : Nat) (s : Stream) :
    (s.forward n).position = s.position + byteSize (s.after.take n) := by
  induction n generalizing s with
  | zero => rfl
  | succ n ih =>
    cases h : s.after with
    | nil => simp [forward, atEnd, h]
    | cons c cs =>
      have hskip : s.skip.after = cs := by rw [after_skip, h, List.drop_one, List.tail_cons]
      have hposition : s.skip.position = s.position + c.utf8Size := by
        unfold skip
        split
        · rename_i hnil
          exact absurd (h.symm.trans hnil) (by simp)
        · rename_i hcons
          obtain ⟨rfl, -⟩ := List.cons.inj (h.symm.trans hcons)
          rfl
      rw [forward, if_neg (by simp [atEnd, h]), ih, hskip, hposition, List.take_succ_cons,
        byteSize_cons, Nat.add_assoc]

theorem size_forward (n : Nat) (s : Stream) : (s.forward n).size = s.size := by
  rw [size_eq, size_eq, chars_forward]

theorem position_le_skip (s : Stream) : s.position ≤ s.skip.position := by
  unfold skip
  split
  · exact Nat.le_refl _
  · exact Nat.le_add_right _ _

theorem position_lt_skip (h : s.after ≠ []) : s.position < s.skip.position := by
  unfold skip
  split
  · contradiction
  · rename_i c cs hc
    exact Nat.lt_add_of_pos_right c.utf8Size_pos

theorem position_le_forward (n : Nat) (s : Stream) : s.position ≤ (s.forward n).position := by
  induction n generalizing s with
  | zero => exact Nat.le_refl _
  | succ n ih =>
    rw [forward]
    split
    · exact Nat.le_refl _
    · exact Nat.le_trans (position_le_skip s) (ih _)

theorem position_lt_forward {n : Nat} (hn : 0 < n) (h : s.after ≠ []) :
    s.position < (s.forward n).position := by
  -- the first step takes a character, and the others give none back
  obtain ⟨m, rfl⟩ := Nat.exists_eq_succ_of_ne_zero (Nat.ne_of_gt hn)
  rw [forward, if_neg (by simpa [atEnd] using h)]
  exact Nat.lt_of_lt_of_le (position_lt_skip h) (position_le_forward m _)

theorem position_le_size (s : Stream) : s.position ≤ s.size := Nat.le_add_right _ _

end Stream

end MudEdit.Text
