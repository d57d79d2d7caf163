import MudEdit.Proofs.Text.Stream
import MudEdit.Text.Lines

/-!
# A stretch of text, line by line

A text is cut at its newlines, and its lines stand one after the other in it. The pieces
of a stretch are therefore what it has in each of the lines in turn, and a stretch that
ends before another one begins has all its pieces before those of the other. This takes
nothing of the two offsets of a stretch: they may be anywhere, also inside a character.
-/

namespace MudEdit.Text

/-! ## UTF-16 units -/

@[simp] theorem unitCount_nil : unitCount [] = 0 := rfl

@[simp] theorem unitCount_cons (c : Char) (cs : List Char) :
    unitCount (c :: cs) = units c + unitCount cs := rfl

@[simp] theorem unitCount_append (a b : List Char) :
    unitCount (a ++ b) = unitCount a + unitCount b := by
  induction a with
  | nil => simp
  | cons c cs ih => simp [ih, Nat.add_assoc]

/-- A character beyond the basic plane has four bytes, and every other one has a byte at least. -/
theorem units_le_utf8Size (c : Char) : units c ≤ c.utf8Size := by
  have hpos := c.utf8Size_pos
  unfold units
  split
  · exact hpos
  · rename_i h
    have hbeyond (n : UInt32) (hn : n.toNat < 0x10000) : ¬ c.val ≤ n := by
      have hval : ¬ c.val.toNat < 0x10000 := h
      rw [UInt32.le_iff_toNat_le]
      omega
    unfold Char.utf8Size
    rw [if_neg (hbeyond _ (by decide)), if_neg (hbeyond _ (by decide)),
      if_neg (hbeyond _ (by decide))]
    omega

theorem unitCount_le_byteSize (cs : List Char) : unitCount cs ≤ byteSize cs := by
  induction cs with
  | nil => exact Nat.le_refl _
  | cons c cs ih =>
    have := units_le_utf8Size c
    rw [unitCount_cons, byteSize_cons]
    omega

/-! ## The characters that fit into so many bytes -/

@[simp] theorem charsWithin_zero (cs : List Char) : charsWithin 0 cs = 0 := by
  cases cs with
  | nil => rfl
  | cons c cs => rw [charsWithin, if_neg (by have := c.utf8Size_pos; omega)]

theorem charsWithin_mono {m n : Nat} (h : m ≤ n) (cs : List Char) :
    charsWithin m cs ≤ charsWithin n cs := by
  induction cs generalizing m n with
  | nil => exact Nat.le_refl _
  | cons c cs ih =>
    rw [charsWithin, charsWithin]
    split
    · rw [if_pos (by omega)]
      exact Nat.succ_le_succ (ih (by omega))
    · exact Nat.zero_le _

theorem charsWithin_of_byteSize_le {n : Nat} {cs : List Char} (h : byteSize cs ≤ n) :
    charsWithin n cs = cs.length := by
  induction cs generalizing n with
  | nil => rfl
  | cons c cs ih =>
    rw [byteSize_cons] at h
    rw [charsWithin, if_pos (by omega), ih (by omega), List.length_cons]

namespace Lines

variable {line : Line} {rest : List Line} {begin stop begin' stop' : Nat}

/-! ## Lines where they stand -/

theorem first_cut (start : Nat) (cs : List Char) : (cut start cs).first.start = start := by
  cases cs with
  | nil => rfl
  | cons c cs => by_cases hc : c = '\n' <;> simp [cut, hc]

@[simp] theorem stop_mk (start : Nat) (cs : List Char) :
    Line.stop ⟨start, cs⟩ = start + byteSize cs := rfl

theorem all_cut_newline (start : Nat) (cs : List Char) :
    (cut start ('\n' :: cs)).all = ⟨start, []⟩ :: (cut (start + 1) cs).all := rfl

theorem all_cut_cons {c : Char} (hc : c ≠ '\n') (start : Nat) (cs : List Char) :
    (cut start (c :: cs)).all =
      ⟨start, c :: (cut (start + c.utf8Size) cs).first.chars⟩ ::
        (cut (start + c.utf8Size) cs).rest := by
  simp [cut, hc, all]

/-- A text is cut at its newlines, each of which ends a line. -/
theorem chars_cut (start : Nat) (cs : List Char) :
    (cut start cs).all.map Line.chars = cs.splitOn '\n' := by
  induction cs generalizing start with
  | nil => rfl
  | cons c cs ih =>
    rw [List.splitOn_cons_eq_if_modifyHead]
    by_cases hc : c = '\n'
    · subst hc
      rw [all_cut_newline, List.map_cons, ih]
      rfl
    · rw [all_cut_cons hc, if_neg (by simpa using hc), ← ih (start + c.utf8Size)]
      rfl

theorem chars_ofString (text : String) :
    (ofString text).all.map Line.chars = text.toList.splitOn '\n' := chars_cut 0 text.toList

/-- The characters of a line are those of the text from where it starts. -/
theorem stands_cut {start : Nat} {cs : List Char} (h : line ∈ (cut start cs).all) :
    ∃ before after, cs = before ++ line.chars ++ after ∧ line.start = start + byteSize before := by
  induction cs generalizing start line with
  | nil =>
    obtain rfl := List.mem_singleton.mp h
    exact ⟨[], [], rfl, rfl⟩
  | cons c cs ih =>
    -- what stands behind the first character stands one character later
    have later {l : Line} (hl : l ∈ (cut (start + c.utf8Size) cs).all) :
        ∃ before after, c :: cs = before ++ l.chars ++ after ∧
          l.start = start + byteSize before := by
      obtain ⟨before, after, hcs, hstart⟩ := ih hl
      exact ⟨c :: before, after, by simp [hcs], by rw [hstart, byteSize_cons, Nat.add_assoc]⟩
    by_cases hc : c = '\n'
    · subst hc
      rw [all_cut_newline] at h
      rcases List.mem_cons.mp h with rfl | h
      · exact ⟨[], '\n' :: cs, rfl, rfl⟩
      · exact later h
    · rw [all_cut_cons hc] at h
      rcases List.mem_cons.mp h with rfl | h
      · obtain ⟨before, after, hcs, hstart⟩ := ih List.mem_cons_self
        -- nothing is before the line that the characters behind the first one begin with
        obtain rfl : before = [] := by
          rw [first_cut] at hstart
          cases before with
          | nil => rfl
          | cons d ds =>
            have := d.utf8Size_pos
            rw [byteSize_cons] at hstart
            omega
        exact ⟨[], after, congrArg (c :: ·) hcs, rfl⟩
      · exact later (List.mem_cons_of_mem _ h)

theorem within_cut {start : Nat} {cs : List Char} (h : line ∈ (cut start cs).all) :
    start ≤ line.start ∧ Line.stop line ≤ start + byteSize cs := by
  obtain ⟨before, after, rfl, hstart⟩ := stands_cut h
  rw [Line.stop, byteSize_append, byteSize_append]
  omega

/-- Lines one after the other, with something between them. -/
def InOrder (lines : List Line) : Prop := lines.Pairwise fun a b => Line.stop a < b.start

theorem inOrder_cut (start : Nat) (cs : List Char) : InOrder (cut start cs).all := by
  induction cs generalizing start with
  | nil => exact List.pairwise_singleton _ _
  | cons c cs ih =>
    by_cases hc : c = '\n'
    · subst hc
      rw [all_cut_newline]
      refine List.pairwise_cons.mpr ⟨fun line hline => ?_, ih _⟩
      exact (within_cut hline).1
    · rw [all_cut_cons hc]
      obtain ⟨hfirst, hrest⟩ := List.pairwise_cons.mp (ih (start + c.utf8Size))
      refine List.pairwise_cons.mpr ⟨fun line hline => ?_, hrest⟩
      -- the first line ends where it has ended without its first character
      have hlt := hfirst line hline
      have hbegin := first_cut (start + c.utf8Size) cs
      rw [Line.stop] at hlt
      rw [stop_mk, byteSize_cons]
      omega

theorem length_cut (start : Nat) (cs : List Char) :
    (cut start cs).all.length ≤ byteSize cs + 1 := by
  induction cs generalizing start with
  | nil => exact Nat.le_refl _
  | cons c cs ih =>
    have hpos := c.utf8Size_pos
    have hrest := ih (start + c.utf8Size)
    rw [byteSize_cons]
    by_cases hc : c = '\n'
    · subst hc
      rw [all_cut_newline, List.length_cons]
      exact Nat.succ_le_succ (Nat.le_trans (ih (start + 1)) (by omega))
    · rw [all_cut_cons hc, List.length_cons]
      exact Nat.le_trans hrest (by omega)

/-! ## What a line has of a stretch -/

/-- The part of a line from one offset to another. -/
def Line.part (line : Line) (begin stop : Nat) : List Char :=
  (Line.upTo line stop).drop (Line.upTo line begin).length

theorem upTo_of_le (h : begin ≤ line.start) : Line.upTo line begin = [] := by
  rw [Line.upTo, Nat.sub_eq_zero_of_le h, charsWithin_zero, List.take_zero]

theorem upTo_of_stop_le (h : Line.stop line ≤ begin) : Line.upTo line begin = line.chars := by
  rw [Line.stop] at h
  rw [Line.upTo, charsWithin_of_byteSize_le (by omega), List.take_length]

theorem upTo_isPrefix (h : begin ≤ stop) : Line.upTo line begin <+: Line.upTo line stop :=
  List.take_prefix_take_left (charsWithin_mono (by omega) _)

theorem unitCount_upTo_mono (h : begin ≤ stop) :
    unitCount (Line.upTo line begin) ≤ unitCount (Line.upTo line stop) := by
  obtain ⟨more, hmore⟩ := @upTo_isPrefix line begin stop h
  rw [← hmore, unitCount_append]
  exact Nat.le_add_right _ _

theorem unitCount_upTo_le (line : Line) (offset : Nat) :
    unitCount (Line.upTo line offset) ≤ unitCount line.chars := by
  obtain ⟨more, hmore⟩ :=
    List.take_prefix (charsWithin (offset - line.start) line.chars) line.chars
  have hunits := congrArg unitCount hmore
  rw [unitCount_append] at hunits
  exact hunits ▸ Nat.le_add_right _ _

/-- The units of a part are those up to its end without those up to its beginning. -/
theorem unitCount_part (line : Line) (begin stop : Nat) :
    unitCount (Line.part line begin stop) =
      unitCount (Line.upTo line stop) - unitCount (Line.upTo line begin) := by
  rcases Nat.le_total begin stop with h | h
  · obtain ⟨more, hmore⟩ := @upTo_isPrefix line begin stop h
    rw [Line.part, ← hmore, List.drop_left, unitCount_append, Nat.add_sub_cancel_left]
  · rw [Line.part, List.drop_of_length_le (upTo_isPrefix h).length_le, unitCount_nil,
      Nat.sub_eq_zero_of_le (unitCount_upTo_mono h)]

/-! ## The pieces of a stretch -/

/-- What a stretch has in a line of a number. -/
def partOf (begin stop : Nat) (numbered : Line × Nat) : Piece where
  line := numbered.2
  start := unitCount (Line.upTo numbered.1 begin)
  length := unitCount (Line.part numbered.1 begin stop)

theorem pieceOf_eq (begin stop : Nat) (line : Line) (number : Nat) :
    pieceOf begin stop line number = partOf begin stop (line, number) := by
  rw [pieceOf, partOf, unitCount_part]

/-- A stretch has nothing in a line that ends before it. -/
theorem length_partOf_of_stop_le (h : Line.stop line ≤ begin) (number : Nat) :
    (partOf begin stop (line, number)).length = 0 := by
  rw [partOf, unitCount_part, upTo_of_stop_le h]
  exact Nat.sub_eq_zero_of_le (unitCount_upTo_le line stop)

/-- A stretch has nothing in a line that starts behind it. -/
theorem length_partOf_of_le_start (h : stop ≤ line.start) (number : Nat) :
    (partOf begin stop (line, number)).length = 0 := by
  rw [partOf, unitCount_part, upTo_of_le h, unitCount_nil, Nat.zero_sub]

/-- The walk over the lines from a number on leaves out only lines without a part. -/
theorem between_eq (h : InOrder (line :: rest)) (number : Nat) :
    ((between begin stop number line rest).map fun x => partOf begin stop (x.2, x.1)).filter
        (0 < ·.length) =
      (((line :: rest).zipIdx number).map (partOf begin stop)).filter (0 < ·.length) := by
  induction rest generalizing line number with
  | nil =>
    rw [between]
    split
    · rfl
    · rename_i hlt
      rw [List.zipIdx_singleton, List.map_singleton, List.filter_cons_of_neg]
      · rfl
      · simp [length_partOf_of_le_start (Nat.le_of_not_lt hlt)]
  | cons next rest ih =>
    obtain ⟨hline, hrest⟩ := List.pairwise_cons.mp h
    rw [between, List.zipIdx_cons, List.map_cons]
    split
    · -- the line is over before the stretch begins
      rename_i hbegin
      have hempty : (partOf begin stop (line, number)).length = 0 :=
        length_partOf_of_stop_le
          (Nat.le_trans (Nat.le_of_lt (hline next List.mem_cons_self)) hbegin) number
      rw [ih hrest, List.filter_cons_of_neg (by simp [hempty])]
    · split
      · rw [List.map_cons, List.filter_cons, List.filter_cons, ih hrest]
      · -- the stretch is over, and every line from here on starts later
        rename_i hstop
        symm
        rw [List.map_nil, List.filter_nil, List.filter_eq_nil_iff, ← List.map_cons,
          ← List.zipIdx_cons]
        intro p hp
        obtain ⟨⟨l, n⟩, hl, rfl⟩ := List.mem_map.mp hp
        have hstart : stop ≤ l.start := by
          rcases List.mem_cons.mp (List.fst_mem_of_mem_zipIdx hl) with rfl | hl
          · exact Nat.le_of_not_lt hstop
          · have := hline l hl
            rw [Line.stop] at this
            omega
        simp [length_partOf_of_le_start hstart]

/-- The pieces of a stretch are what it has in each of the lines, empty ones left out. -/
theorem pieces_ofString (text : String) (begin stop : Nat) :
    (ofString text).pieces begin stop =
      ((ofString text).all.zipIdx.map (partOf begin stop)).filter (0 < ·.length) := by
  simp only [pieces, pieceOf_eq]
  exact between_eq (inOrder_cut 0 text.toList) 0

theorem mem_pieces_ofString {text : String} {p : Piece}
    (h : p ∈ (ofString text).pieces begin stop) :
    ∃ line number, (ofString text).all[number]? = some line ∧
      p = partOf begin stop (line, number) ∧ 0 < p.length := by
  rw [pieces_ofString] at h
  obtain ⟨hmem, hlength⟩ := List.mem_filter.mp h
  obtain ⟨⟨line, number⟩, hline, rfl⟩ := List.mem_map.mp hmem
  exact ⟨line, number, List.mem_zipIdx_iff_getElem?.mp hline, rfl, by simpa using hlength⟩

end Lines

namespace Piece

/-- Whether one piece ends before another one starts. -/
def Before (p q : Piece) : Prop :=
  p.line < q.line ∨ p.line = q.line ∧ p.start + p.length ≤ q.start

end Piece

namespace Lines

variable {text : String} {begin stop begin' stop' : Nat} {line line' : Line}

/-- A part that is not empty ends where the stretch does. -/
theorem stop_partOf {number : Nat} (h : 0 < (partOf begin stop (line, number)).length) :
    (partOf begin stop (line, number)).start + (partOf begin stop (line, number)).length =
      unitCount (Line.upTo line stop) := by
  simp only [partOf, unitCount_part] at h ⊢
  omega

/-- The pieces of a stretch stand in the order of its lines. -/
theorem pieces_inOrder (text : String) (begin stop : Nat) :
    ((ofString text).pieces begin stop).Pairwise Piece.Before := by
  rw [pieces_ofString]
  refine List.Pairwise.filter _ (List.pairwise_map.mpr ?_)
  have hnumbers : ((ofString text).all.zipIdx.map Prod.snd).Pairwise (· < ·) := by
    rw [List.zipIdx_map_snd]
    exact List.pairwise_lt_range'
  exact (List.pairwise_map.mp hnumbers).imp fun h => .inl h

/-- The pieces of a stretch stand before those of one that begins where it has ended. -/
theorem pieces_before {p q : Piece} (h : stop ≤ begin')
    (hp : p ∈ (ofString text).pieces begin stop)
    (hq : q ∈ (ofString text).pieces begin' stop') : p.Before q := by
  obtain ⟨line, i, hi, rfl, hplen⟩ := mem_pieces_ofString hp
  obtain ⟨line', j, hj, rfl, hqlen⟩ := mem_pieces_ofString hq
  rcases Nat.lt_trichotomy i j with hlt | rfl | hgt
  · exact .inl hlt
  · obtain rfl := Option.some.inj (hi.symm.trans hj)
    refine .inr ⟨rfl, ?_⟩
    rw [stop_partOf hplen]
    exact unitCount_upTo_mono h
  · -- the second stretch would be over before the line in which the first one has a part
    exfalso
    have hstart : line.start < stop :=
      Nat.lt_of_not_le fun hle => Nat.ne_of_gt hplen (length_partOf_of_le_start hle i)
    have hstop : begin' < Line.stop line' :=
      Nat.lt_of_not_le fun hle => Nat.ne_of_gt hqlen (length_partOf_of_stop_le hle j)
    obtain ⟨hj', rfl⟩ := List.getElem?_eq_some_iff.mp hj
    obtain ⟨hi', rfl⟩ := List.getElem?_eq_some_iff.mp hi
    have hapart := List.pairwise_iff_getElem.mp (inOrder_cut 0 text.toList) j i hj' hi' hgt
    change Line.stop (ofString text).all[j] < (ofString text).all[i].start at hapart
    omega

/-- A piece stays inside the line that it is a part of. -/
theorem piece_within {p : Piece} (hp : p ∈ (ofString text).pieces begin stop) :
    ∃ line, (ofString text).all[p.line]? = some line ∧
      p.start + p.length ≤ unitCount line.chars := by
  obtain ⟨line, i, hi, rfl, hlength⟩ := mem_pieces_ofString hp
  refine ⟨line, hi, ?_⟩
  rw [stop_partOf hlength]
  exact unitCount_upTo_le line stop

end Lines

end MudEdit.Text
