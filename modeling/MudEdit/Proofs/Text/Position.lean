import Mathlib.Data.List.DropRight
import Mathlib.Data.Prod.Lex
import Mathlib.Order.Bounds.Basic
import MudEdit.Proofs.Text.Boundary

/-!
# Offsets as lines and columns, and back

What is before an offset says its position: the newlines in it are the number of the line, and
what comes after the last of them is the column. Going back, a column that is no boundary of its
line counts as the next one, and the end of the line is the last. So positions of boundaries grow
with the offsets, and each is the position of one boundary only.
-/

namespace MudEdit.Text

variable {text : String} {cs before after more : List Char} {c : Char}

/-! ## The last line of a text -/

/-- The characters after the last newline. -/
def lastLine (cs : List Char) : List Char := cs.rtakeWhile (· != '\n')

/-- Characters without a newline among them go on with the line. -/
theorem lastLine_append (h : '\n' ∉ more) (cs : List Char) :
    lastLine (cs ++ more) = lastLine cs ++ more := by
  have hall : ∀ c ∈ more.reverse, (c != '\n') = true := by
    intro c hc
    exact bne_iff_ne.mpr (ne_of_mem_of_not_mem (List.mem_reverse.mp hc) h)
  rw [lastLine, List.rtakeWhile, List.reverse_append, List.takeWhile_append_of_pos hall,
    List.reverse_append, List.reverse_reverse]
  rfl

theorem lastLine_of_not_mem (h : '\n' ∉ cs) : lastLine cs = cs := lastLine_append h []

/-- Nothing before a newline is on the line after it. -/
theorem lastLine_append_of_mem (h : '\n' ∈ more) (cs : List Char) :
    lastLine (cs ++ more) = lastLine more := by
  rw [lastLine, lastLine, List.rtakeWhile, List.rtakeWhile, List.reverse_append,
    List.takeWhile_append, if_neg]
  intro hlength
  have heq := (List.takeWhile_prefix (· != '\n')).eq_of_length hlength
  have hall := List.takeWhile_eq_self_iff.mp heq '\n' (List.mem_reverse.mpr h)
  exact absurd hall (by decide)

theorem lastLine_newline (cs : List Char) : lastLine ('\n' :: cs) = lastLine cs := by
  by_cases h : '\n' ∈ cs
  · exact lastLine_append_of_mem h ['\n']
  · rw [lastLine_of_not_mem h]
    exact lastLine_append h ['\n']

/-! ## UTF-16 units -/

theorem units_pos (c : Char) : 0 < units c := by
  unfold units
  split <;> decide

theorem unitCount_pos (h : cs ≠ []) : 0 < unitCount cs := by
  obtain ⟨c, cs, rfl⟩ := List.exists_cons_of_ne_nil h
  have := units_pos c
  rw [unitCount_cons]
  omega

namespace Lines

variable {start offset number : Nat} {line : Line} {rest : List Line}

/-- The bytes of a line for a column are those of the fewest characters that reach it. -/
theorem bytesForUnits_spec (column : Nat) (cs : List Char) : ∃ part rest, cs = part ++ rest ∧
    bytesForUnits column cs = byteSize part ∧ (column ≤ unitCount part ∨ rest = []) ∧
      ∀ part' rest', cs = part' ++ rest' → column ≤ unitCount part' →
        byteSize part ≤ byteSize part' := by
  induction cs generalizing column with
  | nil => cases column <;> exact ⟨[], [], rfl, rfl, .inr rfl, fun _ _ _ _ => Nat.zero_le _⟩
  | cons c cs ih =>
    cases column with
    | zero => exact ⟨[], c :: cs, rfl, rfl, .inl (Nat.zero_le _), fun _ _ _ _ => Nat.zero_le _⟩
    | succ n =>
      -- one more character: the units it takes are off the column
      obtain ⟨part, rest, rfl, hbytes, hreach, hleast⟩ := ih (n + 1 - units c)
      refine ⟨c :: part, rest, rfl, ?_, hreach.imp_left fun h => ?_, ?_⟩
      · rw [bytesForUnits, hbytes, byteSize_cons]
        exact (nofun)
      · rw [unitCount_cons]
        omega
      · intro part' rest' heq hle
        cases part' with
        | nil => exact absurd hle (by simp)
        | cons d ds =>
          obtain ⟨rfl, hcs⟩ := List.cons.inj heq
          rw [unitCount_cons] at hle
          have := hleast ds rest' hcs (by omega)
          rw [byteSize_cons, byteSize_cons]
          omega

/-! ## The line of an offset -/

theorem seek_succ (offset number : Nat) (line : Line) (rest : List Line) :
    seek offset (number + 1) line rest =
      ((seek offset number line rest).1 + 1, (seek offset number line rest).2) := by
  induction rest generalizing number line with
  | nil => rfl
  | cons next rest ih =>
    rw [seek, seek]
    split
    · exact ih (number + 1) next
    · rfl

/-- What the first line is does not matter to a search that goes beyond it. -/
theorem seek_cases (offset : Nat) (line : Line) (rest : List Line) :
    (∀ line', seek offset 0 line' rest = (0, line')) ∨
      0 < (seek offset 0 line rest).1 ∧
        ∀ line', seek offset 0 line' rest = seek offset 0 line rest := by
  cases rest with
  | nil => exact .inl fun _ => rfl
  | cons next rest =>
    by_cases h : next.start ≤ offset
    · refine .inr ⟨?_, fun line' => ?_⟩
      · rw [seek, if_pos h, seek_succ]
        exact Nat.succ_pos _
      · rw [seek, seek, if_pos h, if_pos h]
    · exact .inl fun line' => by rw [seek, if_neg h]

theorem upTo_eq (line : Line) (offset : Nat) :
    Line.upTo line offset = charsUpTo (offset - line.start) line.chars := rfl

/-- In a text that is cut into lines from an offset on, what is before another offset says its line:
the number of it and how far it goes. -/
def Finds (start : Nat) (cs : List Char) (offset : Nat) : Prop :=
  ((cut start cs).lineAt offset).1 = (charsUpTo (offset - start) cs).count '\n' ∧
    Line.upTo ((cut start cs).lineAt offset).2 offset = lastLine (charsUpTo (offset - start) cs)

/-- Behind a newline there is a line more. -/
theorem Finds.newline (h : Finds (start + 1) cs offset) : Finds start ('\n' :: cs) offset := by
  obtain ⟨hnumber, hupTo⟩ := h
  rw [← Nat.sub_sub] at hnumber hupTo
  have hsize : Char.utf8Size '\n' = 1 := rfl
  have hlineAt : (cut start ('\n' :: cs)).lineAt offset =
      seek offset 0 ⟨start, []⟩ (cut (start + 1) cs).all := rfl
  rw [Finds, hlineAt, all, seek, first_cut (start + 1) cs]
  by_cases hle : start + 1 ≤ offset
  · rw [if_pos hle, seek_succ, charsUpTo_cons_of_le (by rw [hsize]; omega), hsize,
      List.count_cons_self, lastLine_newline]
    exact ⟨congrArg (· + 1) hnumber, hupTo⟩
  · rw [if_neg hle, charsUpTo_cons_of_lt (by rw [hsize]; omega)]
    exact ⟨rfl, rfl⟩

/-- Any other character is on the first line. -/
theorem Finds.cons (hc : c ≠ '\n') (h : Finds (start + c.utf8Size) cs offset) :
    Finds start (c :: cs) offset := by
  obtain ⟨hnumber, hupTo⟩ := h
  have hfirst := first_cut (start + c.utf8Size) cs
  have hcases := seek_cases offset (cut (start + c.utf8Size) cs).first
    (cut (start + c.utf8Size) cs).rest
  have hcut : cut start (c :: cs) =
      ⟨⟨start, c :: (cut (start + c.utf8Size) cs).first.chars⟩,
        (cut (start + c.utf8Size) cs).rest⟩ := by simp [cut, hc]
  rw [← Nat.sub_sub, lineAt] at hnumber hupTo
  rw [Finds, hcut, lineAt]
  by_cases hle : c.utf8Size ≤ offset - start
  · rw [charsUpTo_cons_of_le hle, List.count_cons_of_ne hc]
    rcases hcases with hstay | ⟨hpos, hgo⟩
    · -- there is no newline before the offset
      rw [hstay] at hnumber hupTo ⊢
      have hnone : '\n' ∉ charsUpTo (offset - start - c.utf8Size) cs :=
        List.count_eq_zero.mp hnumber.symm
      have hline : '\n' ∉ c :: charsUpTo (offset - start - c.utf8Size) cs := by
        simpa [Ne.symm hc] using hnone
      rw [upTo_eq, hfirst, ← Nat.sub_sub, lastLine_of_not_mem hnone] at hupTo
      refine ⟨hnumber, ?_⟩
      rw [lastLine_of_not_mem hline, upTo_eq, charsUpTo_cons_of_le hle, hupTo]
    · rw [hnumber] at hpos
      rw [hgo]
      refine ⟨hnumber, hupTo.trans ?_⟩
      exact (lastLine_append_of_mem (List.count_pos_iff.mp hpos) [c]).symm
  · rw [charsUpTo_cons_of_lt (Nat.lt_of_not_le hle)]
    rcases hcases with hstay | ⟨hpos, -⟩
    · rw [hstay]
      refine ⟨rfl, ?_⟩
      rw [upTo_eq, charsUpTo_cons_of_lt (Nat.lt_of_not_le hle)]
      rfl
    · -- the lines after the first one start behind its first character
      rw [hnumber, Nat.sub_eq_zero_of_le (by omega), charsUpTo_zero] at hpos
      exact absurd hpos (by simp)

/-- **What is before an offset says its line.** -/
theorem finds_cut (start : Nat) (cs : List Char) (offset : Nat) : Finds start cs offset := by
  induction cs generalizing start with
  | nil => exact ⟨rfl, rfl⟩
  | cons c cs ih =>
    by_cases hc : c = '\n'
    · exact hc ▸ (ih (start + 1)).newline
    · exact (ih (start + c.utf8Size)).cons hc

/-- The position of an offset, by what is before it. -/
theorem position_ofString (text : String) (offset : Nat) : (ofString text).position offset =
    ((charsUpTo offset text.toList).count '\n' + 1,
      (lastLine (charsUpTo offset text.toList)).length + 1) := by
  obtain ⟨hnumber, hupTo⟩ := finds_cut 0 text.toList offset
  rw [Nat.sub_zero] at hnumber hupTo
  exact congrArg₂ Prod.mk (congrArg (· + 1) hnumber) (congrArg (List.length · + 1) hupTo)

/-- The position of an offset in UTF-16 units, by what is before it. -/
theorem unitPosition_ofString (text : String) (offset : Nat) :
    (ofString text).unitPosition offset =
      ((charsUpTo offset text.toList).count '\n',
        unitCount (lastLine (charsUpTo offset text.toList))) := by
  obtain ⟨hnumber, hupTo⟩ := finds_cut 0 text.toList offset
  rw [Nat.sub_zero] at hnumber hupTo
  exact congrArg₂ Prod.mk hnumber (congrArg unitCount hupTo)

/-- The position of a boundary. -/
theorem unitPosition_byteSize (h : text.toList = before ++ after) :
    (ofString text).unitPosition (byteSize before) =
      (before.count '\n', unitCount (lastLine before)) := by
  rw [unitPosition_ofString, h, charsUpTo_byteSize]

theorem position_byteSize (h : text.toList = before ++ after) :
    (ofString text).position (byteSize before) =
      (before.count '\n' + 1, (lastLine before).length + 1) := by
  rw [position_ofString, h, charsUpTo_byteSize]

/-! ## The offsets of a line -/

theorem length_all_cut (start : Nat) (cs : List Char) :
    (cut start cs).all.length = cs.count '\n' + 1 := by
  induction cs generalizing start with
  | nil => rfl
  | cons c cs ih =>
    -- a line end begins the next line; any other character joins the first
    by_cases hc : c = '\n'
    · subst hc
      rw [all_cut_newline, List.length_cons, ih, List.count_cons_self]
    · have := ih (start + c.utf8Size)
      rw [all_cut_cons hc, List.length_cons, List.count_cons_of_ne hc]
      exact this

/-- The line lies behind so many newlines, right after the last of them, and goes up to the next
one. -/
def Lies (start : Nat) (cs : List Char) (number : Nat) (line : Line) : Prop :=
  ∃ before after, cs = before ++ (line.chars ++ after) ∧ line.start = start + byteSize before ∧
    before.count '\n' = number ∧ lastLine before = [] ∧ '\n' ∉ line.chars ∧
      ∀ c ∈ after.head?, c = '\n'

namespace Lies

/-- Before a newline, or at the end of the text, there may be nothing on the line. -/
theorem empty (h : ∀ c ∈ cs.head?, c = '\n') : Lies start cs 0 ⟨start, []⟩ :=
  ⟨[], cs, rfl, rfl, rfl, rfl, List.not_mem_nil, h⟩

theorem newline (h : Lies (start + 1) cs number line) :
    Lies start ('\n' :: cs) (number + 1) line := by
  obtain ⟨before, after, rfl, hstart, hcount, hlast, hline, hafter⟩ := h
  refine ⟨'\n' :: before, after, rfl, ?_, ?_, ?_, hline, hafter⟩
  · rw [hstart, byteSize_cons, Nat.add_assoc]
    rfl
  · rw [List.count_cons_self, hcount]
  · rw [lastLine_newline, hlast]

/-- The first line has one more character before it. -/
theorem first (hc : c ≠ '\n') (h : Lies (start + c.utf8Size) cs 0 line) :
    Lies start (c :: cs) 0 ⟨start, c :: line.chars⟩ := by
  obtain ⟨before, after, hcs, -, hcount, hlast, hline, hafter⟩ := h
  -- before the first line there is nothing
  obtain rfl : before = [] := by
    rwa [lastLine_of_not_mem (List.count_eq_zero.mp hcount)] at hlast
  refine ⟨[], after, congrArg (c :: ·) hcs, rfl, rfl, rfl, ?_, hafter⟩
  simpa [Ne.symm hc] using hline

theorem later (hc : c ≠ '\n') (h : Lies (start + c.utf8Size) cs (number + 1) line) :
    Lies start (c :: cs) (number + 1) line := by
  obtain ⟨before, after, rfl, hstart, hcount, hlast, hline, hafter⟩ := h
  refine ⟨c :: before, after, rfl, ?_, ?_, ?_, hline, hafter⟩
  · rw [hstart, byteSize_cons, Nat.add_assoc]
  · rw [List.count_cons_of_ne hc, hcount]
  · have hmem : '\n' ∈ before := List.count_pos_iff.mp (by omega)
    exact (lastLine_append_of_mem hmem [c]).trans hlast

end Lies

/-- The lines of a text lie where it is cut. -/
theorem lies_of_getElem? (h : (cut start cs).all[number]? = some line) :
    Lies start cs number line := by
  induction cs generalizing start number line with
  | nil =>
    cases number with
    | zero => exact Option.some.inj h ▸ .empty nofun
    | succ n => cases h
  | cons c cs ih =>
    by_cases hc : c = '\n'
    · subst hc
      rw [all_cut_newline] at h
      cases number with
      | zero => exact Option.some.inj h ▸ .empty fun c hc => (Option.some.inj hc).symm
      | succ n => exact (ih h).newline
    · rw [all_cut_cons hc] at h
      cases number with
      -- a character that ends no line is put before the first line and moves the others
      | zero => exact Option.some.inj h ▸ (ih rfl).first hc
      | succ n => exact (ih h).later hc

/-- The boundaries of a text that are on a line: so many newlines are before them. -/
def boundariesOn (text : String) (number : Nat) : Set Nat :=
  {o | ∃ before after, text.toList = before ++ after ∧ o = byteSize before ∧
    before.count '\n' = number}

/-- The characters of a line up to a boundary say its column. -/
theorem unitPosition_in_line (h : text.toList = before ++ (line.chars ++ after))
    (hlast : lastLine before = []) (hline : '\n' ∉ line.chars) {part rest : List Char}
    (hpart : line.chars = part ++ rest) :
    (ofString text).unitPosition (byteSize (before ++ part)) =
      (before.count '\n', unitCount part) := by
  have hnone : '\n' ∉ part := fun hmem => hline (hpart ▸ List.mem_append_left _ hmem)
  have hsplit : text.toList = (before ++ part) ++ (rest ++ after) := by
    rw [h, hpart, List.append_assoc, List.append_assoc]
  rw [unitPosition_byteSize hsplit, lastLine_append hnone, hlast, List.count_append,
    List.count_eq_zero.mpr hnone, List.nil_append]
  rfl

/-- The boundaries of a line are where its characters can be cut. -/
theorem mem_boundariesOn (h : text.toList = before ++ (line.chars ++ after))
    (hlast : lastLine before = []) (hline : '\n' ∉ line.chars)
    (hafter : ∀ c ∈ after.head?, c = '\n') {offset : Nat} :
    offset ∈ boundariesOn text (before.count '\n') ↔
      ∃ part rest, line.chars = part ++ rest ∧ offset = byteSize (before ++ part) := by
  constructor
  · rintro ⟨upTo, rest, hsplit, rfl, hnumber⟩
    rcases List.append_eq_append_iff.mp (h.symm.trans hsplit) with
      ⟨part, rfl, hpart⟩ | ⟨more, rfl, -⟩
    · rcases List.append_eq_append_iff.mp hpart with ⟨more, rfl, hmore⟩ | ⟨more, hchars, -⟩
      · -- beyond the end of the line there is a newline more
        cases more with
        | nil => exact ⟨line.chars, [], (List.append_nil _).symm, by rw [List.append_nil]⟩
        | cons c more =>
          obtain rfl := hafter c (by rw [hmore]; rfl)
          simp at hnumber
      · exact ⟨part, more, hchars, rfl⟩
    · -- before the beginning of the line there is a newline less
      have hnone : '\n' ∉ more := by
        rw [List.count_append] at hnumber
        exact List.count_eq_zero.mp (by omega)
      rw [lastLine_append hnone, List.append_eq_nil_iff] at hlast
      exact ⟨[], line.chars, rfl, by rw [hlast.2, List.append_nil, List.append_nil]⟩
  · rintro ⟨part, rest, hpart, rfl⟩
    have hnone : '\n' ∉ part := fun hmem => hline (hpart ▸ List.mem_append_left _ hmem)
    refine ⟨before ++ part, rest ++ after, ?_, rfl, ?_⟩
    · rw [h, hpart, List.append_assoc, List.append_assoc]
    · rw [List.count_append, List.count_eq_zero.mpr hnone, Nat.add_zero]

/-- The last line ends where the text does. -/
theorem size_ofString (text : String) : (ofString text).size = text.utf8ByteSize := by
  have hlast : (ofString text).all[text.toList.count '\n']? =
      some ((ofString text).rest.getLast?.getD (ofString text).first) := by
    have hlength := length_all_cut 0 text.toList
    rw [← Nat.add_sub_cancel (text.toList.count '\n') 1, ← hlength]
    exact (List.getLast?_eq_getElem? ..).symm.trans List.getLast?_cons
  obtain ⟨before, after, htext, hstart, hcount, -, hline, hafter⟩ := lies_of_getElem? hlast
  -- behind the last line there is no line end left, so nothing at all
  have hnil : after = [] := by
    cases after with
    | nil => rfl
    | cons c cs =>
      obtain rfl := hafter c rfl
      have hmore := congrArg (List.count '\n') htext
      rw [List.count_append, List.count_append, List.count_cons_self] at hmore
      omega
  have hsize := congrArg byteSize htext
  rw [hnil, List.append_nil, byteSize_append, byteSize_toList] at hsize
  rw [hsize, size, hstart, Nat.zero_add]

/-! ## There and back -/

/-- Later boundaries have greater positions. -/
theorem unitPosition_lt {o p : Nat} (ho : String.Pos.Raw.IsValid text ⟨o⟩)
    (hp : String.Pos.Raw.IsValid text ⟨p⟩) (h : o < p) :
    toLex ((ofString text).unitPosition o) < toLex ((ofString text).unitPosition p) := by
  obtain ⟨before, after, hbefore, rfl⟩ := isValid_iff_split.mp ho
  obtain ⟨before', after', hbefore', rfl⟩ := isValid_iff_split.mp hp
  obtain ⟨more, hmore, rfl⟩ := exists_append_of_byteSize_lt hbefore hbefore' h
  rw [unitPosition_byteSize hbefore, unitPosition_byteSize hbefore', Prod.Lex.toLex_lt_toLex]
  -- what lies between them ends a line, so the line grows, or it does not, so the column does
  by_cases hnewline : '\n' ∈ more
  · refine .inl ?_
    have := List.count_pos_iff.mpr hnewline
    rw [List.count_append]
    omega
  · refine .inr ⟨?_, ?_⟩
    · rw [List.count_append, List.count_eq_zero.mpr hnewline]
      rfl
    · have := unitCount_pos hmore
      rw [lastLine_append hnewline, unitCount_append]
      omega

/-- A column is at the first boundary of its line that is not before it, or at the end. -/
theorem offsetAt_of_le {number : Nat} (h : number ≤ text.toList.count '\n') (column : Nat) :
    IsLeast {o ∈ boundariesOn text number | column ≤ ((ofString text).unitPosition o).2}
        ((ofString text).offsetAt number column) ∨
      {o ∈ boundariesOn text number | column ≤ ((ofString text).unitPosition o).2} = ∅ ∧
        IsGreatest (boundariesOn text number) ((ofString text).offsetAt number column) := by
  have hlength : number < (ofString text).all.length := by
    rw [ofString, length_all_cut]
    exact Nat.lt_succ_of_le h
  have hget := List.getElem?_eq_getElem hlength
  obtain ⟨before, after, htext, hstart, rfl, hlast, hline, hafter⟩ := lies_of_getElem? hget
  obtain ⟨part, rest, hpart, hbytes, hreach, hleast⟩ :=
    bytesForUnits_spec column (ofString text).all[before.count '\n'].chars
  have hmem {o : Nat} := @mem_boundariesOn text before after _ htext hlast hline hafter o
  have hcolumn {part rest : List Char} :=
    @unitPosition_in_line text before after _ htext hlast hline part rest
  have hoffset : (ofString text).offsetAt (before.count '\n') column =
      byteSize (before ++ part) := by
    rw [offsetAt, hget]
    simp only [hstart, hbytes, byteSize_append, Nat.zero_add]
  rw [hoffset]
  by_cases hle : column ≤ unitCount part
  · -- the part of the line is the shortest that is long enough
    refine .inl ⟨⟨hmem.mpr ⟨part, rest, hpart, rfl⟩, by rwa [hcolumn hpart]⟩, ?_⟩
    rintro o ⟨ho, hcol⟩
    obtain ⟨part', rest', hpart', rfl⟩ := hmem.mp ho
    rw [hcolumn hpart'] at hcol
    have := hleast part' rest' hpart' hcol
    rw [byteSize_append, byteSize_append]
    omega
  · -- the column is beyond the line
    obtain rfl := hreach.resolve_left hle
    rw [List.append_nil] at hpart
    refine .inr ⟨Set.eq_empty_of_forall_notMem ?_, hmem.mpr ⟨part, [], ?_, rfl⟩, ?_⟩
    · rintro o ⟨ho, hcol⟩
      obtain ⟨part', rest', hpart', rfl⟩ := hmem.mp ho
      rw [hcolumn hpart'] at hcol
      rw [← hpart, hpart', unitCount_append] at hle
      exact hle (Nat.le_trans hcol (Nat.le_add_right _ _))
    · rw [List.append_nil, hpart]
    · intro o ho
      obtain ⟨part', rest', hpart', rfl⟩ := hmem.mp ho
      rw [← hpart, hpart', byteSize_append, byteSize_append, byteSize_append]
      omega

/-- A boundary is where its position says. -/
theorem offsetAt_unitPosition {offset : Nat} (h : String.Pos.Raw.IsValid text ⟨offset⟩) :
    (ofString text).offsetAt ((ofString text).unitPosition offset).1
      ((ofString text).unitPosition offset).2 = offset := by
  obtain ⟨before, after, hsplit, rfl⟩ := isValid_iff_split.mp h
  have hposition := unitPosition_byteSize hsplit
  have hnumber : before.count '\n' ≤ text.toList.count '\n' := by
    rw [hsplit, List.count_append]
    exact Nat.le_add_right _ _
  have hmem : byteSize before ∈ {o ∈ boundariesOn text (before.count '\n') |
      unitCount (lastLine before) ≤ ((ofString text).unitPosition o).2} :=
    ⟨⟨before, after, hsplit, rfl, rfl⟩, Nat.le_of_eq (by rw [hposition])⟩
  rw [hposition]
  obtain ⟨⟨⟨before', after', hsplit', heq, hline⟩, hcolumn⟩, hleast⟩ | ⟨hempty, -⟩ :=
    offsetAt_of_le hnumber (unitCount (lastLine before))
  · -- an earlier one on the line would have a smaller column
    refine Nat.le_antisymm (hleast hmem) (Nat.le_of_not_lt fun hlt => ?_)
    rw [heq] at hlt hcolumn
    have hbefore := unitPosition_lt (isValid_of_split hsplit') h hlt
    rw [unitPosition_byteSize hsplit', hposition, Prod.Lex.toLex_lt_toLex, hline] at hbefore
    rw [unitPosition_byteSize hsplit'] at hcolumn
    rcases hbefore with hlt | ⟨-, hlt⟩
    · exact Nat.lt_irrefl _ hlt
    · exact Nat.not_le_of_lt hlt hcolumn
  · exact absurd hmem (hempty ▸ Set.notMem_empty _)

/-- A line beyond the text is its end. -/
theorem offsetAt_of_lt {number : Nat} (h : text.toList.count '\n' < number) (column : Nat) :
    (ofString text).offsetAt number column = text.utf8ByteSize := by
  have hnone : (ofString text).all[number]? = none := by
    rw [List.getElem?_eq_none_iff, ofString, length_all_cut]
    exact h
  rw [offsetAt, hnone]
  exact size_ofString text

/-- An offset has the position of the boundary that it is at or comes after. -/
theorem position_of_isGreatest {offset o : Nat}
    (h : IsGreatest {o | String.Pos.Raw.IsValid text ⟨o⟩ ∧ o ≤ offset} o) :
    (ofString text).position offset = (ofString text).position o ∧
      (ofString text).unitPosition offset = (ofString text).unitPosition o := by
  have hsplit := (charsUpTo_append_drop offset text.toList).symm
  obtain rfl := h.unique (isGreatest_charsUpTo text offset)
  rw [position_byteSize hsplit, unitPosition_byteSize hsplit]
  exact ⟨position_ofString text offset, unitPosition_ofString text offset⟩

/-- Neither a line nor a column is beyond the bytes of the text. -/
theorem unitPosition_le (text : String) (offset : Nat) :
    ((ofString text).unitPosition offset).1 ≤ text.utf8ByteSize ∧
      ((ofString text).unitPosition offset).2 ≤ text.utf8ByteSize := by
  have hsize := congrArg byteSize (charsUpTo_append_drop offset text.toList)
  rw [byteSize_append, byteSize_toList] at hsize
  rw [unitPosition_ofString]
  generalize charsUpTo offset text.toList = before at hsize ⊢
  constructor
  · have hlength := length_cut 0 before
    rw [length_all_cut] at hlength
    omega
  · obtain ⟨first, hfirst⟩ : lastLine before <:+ before := List.rtakeWhile_suffix ..
    have hunits := unitCount_le_byteSize (lastLine before)
    rw [← hfirst, byteSize_append] at hsize
    omega

/-- What the positions of a text say about its offsets, and the other way round. -/
structure RoundTrips (text : String) : Prop where
  /-- Before a boundary there are its line, as so many newlines, and its column. -/
  position : ∀ before after, text.toList = before ++ after →
    (ofString text).position (byteSize before) =
        (before.count '\n' + 1, (lastLine before).length + 1) ∧
      (ofString text).unitPosition (byteSize before) =
        (before.count '\n', unitCount (lastLine before))
  /-- Later boundaries have greater positions. -/
  increasing : ∀ o p, String.Pos.Raw.IsValid text ⟨o⟩ → String.Pos.Raw.IsValid text ⟨p⟩ → o < p →
    toLex ((ofString text).unitPosition o) < toLex ((ofString text).unitPosition p)
  /-- A boundary is where its position says. -/
  inverse : ∀ o, String.Pos.Raw.IsValid text ⟨o⟩ →
    (ofString text).offsetAt ((ofString text).unitPosition o).1
      ((ofString text).unitPosition o).2 = o
  /-- A column is at the first boundary of its line that is not before it, or at the end of it. -/
  within : ∀ number column, number ≤ text.toList.count '\n' →
    IsLeast {o ∈ boundariesOn text number | column ≤ ((ofString text).unitPosition o).2}
        ((ofString text).offsetAt number column) ∨
      {o ∈ boundariesOn text number | column ≤ ((ofString text).unitPosition o).2} = ∅ ∧
        IsGreatest (boundariesOn text number) ((ofString text).offsetAt number column)
  /-- A line beyond the text is the end of the text. -/
  beyond : ∀ number column, text.toList.count '\n' < number →
    (ofString text).offsetAt number column = text.utf8ByteSize
  /-- Any offset has the position of the greatest boundary that is not above it. -/
  between : ∀ offset, ∃ o, IsGreatest {o | String.Pos.Raw.IsValid text ⟨o⟩ ∧ o ≤ offset} o ∧
    (ofString text).position offset = (ofString text).position o ∧
      (ofString text).unitPosition offset = (ofString text).unitPosition o
  /-- Neither a line nor a column is beyond the bytes of the text. -/
  bounded : ∀ offset, ((ofString text).unitPosition offset).1 ≤ text.utf8ByteSize ∧
    ((ofString text).unitPosition offset).2 ≤ text.utf8ByteSize

/-- **Positions round-trip.** On boundaries the position grows with the offset and leads back to
it. A position that none of them has is that of the next one on its line, or of the last one. -/
theorem roundTrips (text : String) : RoundTrips text where
  position _ _ h := ⟨position_byteSize h, unitPosition_byteSize h⟩
  increasing _ _ := unitPosition_lt
  inverse _ := offsetAt_unitPosition
  within _ column h := offsetAt_of_le h column
  beyond _ column h := offsetAt_of_lt h column
  between offset :=
    have h := isGreatest_charsUpTo text offset
    ⟨_, h, position_of_isGreatest h⟩
  bounded := unitPosition_le text

end Lines

end MudEdit.Text
