import MudEdit.Json.Document
import MudEdit.Proofs.Text.Lines

/-!
# Semantic tokens read back

An editor adds up what a token says of its place to the place of the one before. What it
gets are the pieces that were placed, since these stand one after the other: those of one
highlight by their lines, and those of two highlights because each that is kept begins
where all before it have ended. Placing takes differences that stop at zero, so that out
of this order the pieces would be lost without a trace.
-/

namespace MudEdit

open Text (Lines Piece)

/-! ## Highlights in order -/

namespace Highlight

theorem before_total (a b : Highlight) : (before a b || before b a) = true := by
  simp only [before, Bool.or_eq_true, Bool.and_eq_true, decide_eq_true_eq, beq_iff_eq]
  omega

theorem before_trans (a b c : Highlight) (hab : before a b = true) (hbc : before b c = true) :
    before a c = true := by
  simp only [before, Bool.or_eq_true, Bool.and_eq_true, decide_eq_true_eq, beq_iff_eq] at *
  omega

end Highlight

theorem Forest.highlights_sorted (f : Forest) :
    f.highlights.Pairwise fun a b => a.before b = true :=
  List.pairwise_mergeSort Highlight.before_trans Highlight.before_total _

/-- Every highlight but a hole has a class. -/
theorem TokenClass.ofHighlight?_isSome {kind : HighlightKind} (h : kind.isHole = false) :
    (TokenClass.ofHighlight? kind).isSome := by
  cases kind <;> first | rfl | cases h

/-- The bits of a class are those of the last modifier at most. -/
theorem TokenClass.modifiers_le {kind : HighlightKind} {style : TokenClass} {modifiers : Nat}
    (h : TokenClass.ofHighlight? kind = some (style, modifiers)) : modifiers ≤ 2 := by
  cases kind <;> cases h <;> decide

namespace SemanticToken

variable {lines : Lines} {line start covered size : Nat} {h : Highlight} {hs : List Highlight}
  {p : StyledPiece} {ps : List StyledPiece}

theorem kept_subset (covered : Nat) (hs : List Highlight) : kept covered hs ⊆ hs := by
  induction hs generalizing covered with
  | nil => exact List.Subset.refl _
  | cons h rest ih =>
    rw [kept]
    split
    · exact List.subset_cons_of_subset _ (ih covered)
    · exact List.cons_subset_cons _ (ih h.stop)

theorem mem_kept (hmem : h ∈ kept covered hs) : covered ≤ h.begin ∧ h.begin < h.stop := by
  induction hs generalizing covered with
  | nil => cases hmem
  | cons g rest ih =>
    rw [kept] at hmem
    split at hmem
    · exact ih hmem
    · rename_i hg
      simp only [Bool.or_eq_true, decide_eq_true_eq] at hg
      rcases List.mem_cons.mp hmem with rfl | hmem
      · omega
      · have := ih hmem
        omega

/-- What is kept does not overlap. -/
theorem kept_apart (covered : Nat) (hs : List Highlight) :
    (kept covered hs).Pairwise fun a b => a.stop ≤ b.begin := by
  induction hs generalizing covered with
  | nil => exact .nil
  | cons h rest ih =>
    rw [kept]
    split
    · exact ih covered
    · exact List.pairwise_cons.mpr ⟨fun b hb => (mem_kept hb).1, ih h.stop⟩

/-! ## The pieces of all highlights -/

theorem mem_pieces (hp : p ∈ pieces lines h) :
    p.piece ∈ lines.pieces h.begin h.stop ∧
      TokenClass.ofHighlight? h.kind = some (p.style, p.modifiers) := by
  rw [pieces] at hp
  split at hp
  · rename_i hclass
    obtain ⟨piece, hpiece, rfl⟩ := List.mem_map.mp hp
    exact ⟨hpiece, hclass⟩
  · cases hp

/-- The pieces of what is kept stand one after the other. -/
theorem pieces_inOrder (text : String) (covered : Nat) (hs : List Highlight) :
    ((kept covered hs).flatMap (pieces (.ofString text))).Pairwise
      fun p q => p.piece.Before q.piece := by
  refine List.pairwise_flatMap.mpr ⟨fun h _ => ?_, (kept_apart covered hs).imp ?_⟩
  · rw [pieces]
    split
    · exact List.pairwise_map.mpr (Lines.pieces_inOrder text h.begin h.stop)
    · exact .nil
  · intro a b hab p hp q hq
    exact Lines.pieces_before hab (mem_pieces hp).1 (mem_pieces hq).1

/-! ## Reading what was placed -/

/-- The pieces that tokens place, the first one from a line and column. -/
def read (line start : Nat) : List SemanticToken → List StyledPiece
  | [] => []
  | t :: rest =>
    let start := if t.deltaLine = 0 then start + t.deltaStart else t.deltaStart
    ⟨⟨line + t.deltaLine, start, t.length⟩, t.style, t.modifiers⟩ ::
      read (line + t.deltaLine) start rest

/-- Pieces in order are read as they were placed. -/
theorem read_place (hps : ps.Pairwise fun p q => p.piece.Before q.piece)
    (hfirst : ∀ p ∈ ps, line < p.piece.line ∨ line = p.piece.line ∧ start ≤ p.piece.start) :
    read line start (place line start ps) = ps := by
  induction ps generalizing line start with
  | nil => rfl
  | cons p rest ih =>
    obtain ⟨hp, hrest⟩ := List.pairwise_cons.mp hps
    have hplace := hfirst p List.mem_cons_self
    have hline : line + (p.piece.line - line) = p.piece.line := by omega
    -- on the same line the start is relative, on a later one it is absolute
    have hstart : (if p.piece.line - line = 0
        then start + (if p.piece.line = line then p.piece.start - start else p.piece.start)
        else if p.piece.line = line then p.piece.start - start else p.piece.start) =
          p.piece.start := by
      split <;> split <;> omega
    rw [place, read, hline, hstart, ih hrest]
    intro q hq
    rcases hp q hq with hlt | ⟨heq, hle⟩
    · exact .inl hlt
    · exact .inr ⟨heq, by omega⟩

/-- A token says of a piece no more than its line, column and length. -/
theorem mem_place {t : SemanticToken} (ht : t ∈ place line start ps) :
    ∃ p ∈ ps, t.deltaLine ≤ p.piece.line ∧ t.deltaStart ≤ p.piece.start ∧
      t.length = p.piece.length ∧ t.style = p.style ∧ t.modifiers = p.modifiers := by
  induction ps generalizing line start with
  | nil => cases ht
  | cons p rest ih =>
    rw [place] at ht
    rcases List.mem_cons.mp ht with rfl | ht
    · refine ⟨p, List.mem_cons_self, Nat.sub_le _ _, ?_, rfl, rfl, rfl⟩
      dsimp only
      split
      · exact Nat.sub_le _ _
      · exact Nat.le_refl _
    · obtain ⟨q, hq, hle⟩ := ih ht
      exact ⟨q, List.mem_cons_of_mem _ hq, hle⟩

/-! ## Tokens of a text -/

/-- The pieces of a highlight in a class, line by line. -/
def styledParts (lines : Lines) (h : Highlight) (style : TokenClass × Nat) : List StyledPiece :=
  ((lines.all.zipIdx.map (Lines.partOf h.begin h.stop)).filter (0 < ·.length)).map
    (⟨·, style.1, style.2⟩)

/-- The highlights of a forest that are styled: of two that overlap the first one. -/
def shown (f : Forest) : List Highlight := kept 0 (f.highlights.filter (!·.kind.isHole))

theorem pieces_shown {text : String} {f : Forest} (hh : h ∈ shown f) :
    ∃ style, TokenClass.ofHighlight? h.kind = some style ∧
      pieces (.ofString text) h = styledParts (.ofString text) h style := by
  have hkind : h.kind.isHole = false := by
    have := (List.mem_filter.mp (kept_subset 0 _ hh)).2
    simpa using this
  obtain ⟨style, hstyle⟩ := Option.isSome_iff_exists.mp (TokenClass.ofHighlight?_isSome hkind)
  refine ⟨style, hstyle, ?_⟩
  rw [pieces, hstyle, styledParts, Lines.pieces_ofString]

/-- What an editor makes of the tokens of a text that was read into a forest. -/
structure Faithful (text : String) (f : Forest) (tokens : List SemanticToken) : Prop where
  /-- What is sent fits into 32 bits. -/
  numbers_lt : ∀ t ∈ tokens, ∀ n ∈ t.numbers, n < UInt32.size
  /-- The pieces stand one after the other and do not overlap. -/
  inOrder : (read 0 0 tokens).Pairwise fun p q => p.piece.Before q.piece
  /-- No piece is empty, and each is inside its line. -/
  within : ∀ p ∈ read 0 0 tokens, 1 ≤ p.piece.length ∧
    ∃ line, (text.toList.splitOn '\n')[p.piece.line]? = some line ∧
      p.piece.start + p.piece.length ≤ Text.unitCount line
  /-- The highlights are looked at from the first one on. -/
  sorted : f.highlights.Pairwise fun a b => a.before b = true
  /-- The pieces are those of the highlights shown, and nothing else is. -/
  pieces_eq : read 0 0 tokens = (shown f).flatMap (pieces (.ofString text))
  /-- A highlight has a piece in its class for each line in which something of it is. -/
  styled : ∀ h ∈ shown f, ∃ style, TokenClass.ofHighlight? h.kind = some style ∧
    pieces (.ofString text) h = styledParts (.ofString text) h style

/-- A piece of a text has no number beyond the bytes of the text. -/
theorem piece_le_size {text : String} (hp : p ∈ (shown f).flatMap (pieces (.ofString text))) :
    p.piece.line ≤ text.utf8ByteSize ∧ p.piece.start + p.piece.length ≤ text.utf8ByteSize ∧
      p.modifiers ≤ 2 := by
  obtain ⟨h, -, hp⟩ := List.mem_flatMap.mp hp
  obtain ⟨hpiece, hclass⟩ := mem_pieces hp
  obtain ⟨line, hline, hstop⟩ := Lines.piece_within hpiece
  have hcount := Lines.length_cut 0 text.toList
  have hsize := (Lines.within_cut (List.mem_of_getElem? hline)).2
  have hunits := Text.unitCount_le_byteSize line.chars
  have hlt := (List.getElem?_eq_some_iff.mp hline).1
  rw [Text.byteSize_toList] at hcount hsize
  rw [Lines.Line.stop] at hsize
  rw [Lines.ofString] at hlt
  exact ⟨by omega, by omega, TokenClass.modifiers_le hclass⟩

end SemanticToken

/--
**Semantic tokens decode to a legal and faithful list.** Read back, the tokens of a text
are the pieces of the highlights shown, line by line and in their class. They stand one
after the other without overlap, and each is inside its line.
-/
theorem semanticTokens_faithful (mode : Mode) (text : String)
    (h : text.utf8ByteSize < UInt32.size) :
    SemanticToken.Faithful text (Forest.parse mode text)
      (SemanticToken.ofForest (.ofString text) (Forest.parse mode text)) := by
  have hinOrder := SemanticToken.pieces_inOrder text 0
    ((Forest.parse mode text).highlights.filter (!·.kind.isHole))
  -- the deltas decode to the pieces they were made of
  have hread : SemanticToken.read 0 0
      (SemanticToken.ofForest (.ofString text) (Forest.parse mode text)) =
        (SemanticToken.shown (Forest.parse mode text)).flatMap
          (SemanticToken.pieces (.ofString text)) :=
    SemanticToken.read_place hinOrder fun p _ => by omega
  constructor
  case numbers_lt =>
    intro t ht n hn
    obtain ⟨p, hp, hline, hstart, hlength, -, hmodifiers⟩ := SemanticToken.mem_place ht
    have hsize := SemanticToken.piece_le_size hp
    have hindex : t.style.index ≤ TokenClass.all.length := List.idxOf_le_length
    simp only [SemanticToken.numbers, List.mem_cons, List.not_mem_nil, or_false] at hn
    change t.style.index ≤ 10 at hindex
    have hroom : 10 < UInt32.size := by decide
    omega
  case inOrder => exact hread ▸ hinOrder
  case within =>
    intro p hp
    rw [hread] at hp
    obtain ⟨g, -, hp⟩ := List.mem_flatMap.mp hp
    have hpiece := (SemanticToken.mem_pieces hp).1
    obtain ⟨line, hline, hstop⟩ := Lines.piece_within hpiece
    refine ⟨(List.mem_filter.mp hpiece).2 |> of_decide_eq_true, line.chars, ?_, hstop⟩
    rw [← Lines.chars_ofString, List.getElem?_map, hline, Option.map_some]
  case sorted => exact Forest.highlights_sorted _
  case pieces_eq => exact hread
  case styled => exact fun _ => SemanticToken.pieces_shown

/-- A comment of two lines, the second one with a character of two units. -/
theorem semanticTokens_faithful_comment :
    "/* a\n😀 */ // b".utf8ByteSize < UInt32.size ∧
      SemanticToken.Faithful "/* a\n😀 */ // b" (Forest.parse .editor "/* a\n😀 */ // b")
        (SemanticToken.ofForest (.ofString "/* a\n😀 */ // b")
          (Forest.parse .editor "/* a\n😀 */ // b")) ∧
      SemanticToken.read 0 0 (SemanticToken.ofForest (.ofString "/* a\n😀 */ // b")
          (Forest.parse .editor "/* a\n😀 */ // b")) =
        [⟨⟨0, 0, 4⟩, .comment, 0⟩, ⟨⟨1, 0, 5⟩, .comment, 0⟩, ⟨⟨1, 6, 4⟩, .comment, 0⟩] := by
  refine ⟨by decide +kernel, semanticTokens_faithful .editor _ (by decide +kernel), ?_⟩
  have hhighlights : (Forest.parse .editor "/* a\n😀 */ // b").highlights =
      [⟨0, 12, .comment, none⟩, ⟨13, 17, .comment, none⟩] := by
    rw [Forest.highlights, List.mergeSort_of_pairwise] <;> decide +kernel
  rw [SemanticToken.ofForest, hhighlights]
  decide +kernel

end MudEdit
