import MudEdit.Proofs.Forest.Span
import MudEdit.Proofs.Grammar.Closed
import MudEdit.Proofs.Token.Scanned

/-!
# Files one after the other

A file that is read without holes may be followed by any other text on the next line: the
constructs of both are those of the one and then those of the other, further down.
-/

namespace MudEdit

variable {mode : Mode} {a b : String}

theorem significant_editor (mode : Mode) (text : String) :
    significant mode text = (lex .editor text).filter Token.isSignificant := by
  cases mode with
  | editor => rfl
  | interpretation => exact significant_interpretation text

/-- Without its comments, a text has its significant tokens and its end. -/
theorem lex_interpretation_eq (mode : Mode) (text : String) :
    lex .interpretation text = significant mode text ++ [.eof text.utf8ByteSize] := by
  obtain ⟨ts, hts, -, hof⟩ := lex_spec .editor text
  have hsignificant : ts.filter (fun t => !t.kind.isComment) = ts.filter Token.isSignificant := by
    refine List.filter_congr fun t ht => ?_
    simp [Token.isSignificant, (hof t ht).kind_ne]
  rw [significant_editor, lex_interpretation, hts, List.filter_append, List.filter_append,
    hsignificant]
  simp [Token.isSignificant, Token.eof, TokenKind.isComment]

/-- The tokens of two texts on lines of their own are those of the one and then those of the
other, further down. -/
theorem significant_append (mode : Mode) (hclosed : ¬Unclosed a.toList) :
    significant mode (a ++ "\n" ++ b) = significant mode a ++
      (significant mode b).map (Token.relocate (.shift (a.utf8ByteSize + 1))) := by
  obtain ⟨ts, hts, hscan⟩ := lex_scanned a
  obtain ⟨us, hus, hscan'⟩ := lex_scanned b
  have hshift := hscan'.shift (a.utf8ByteSize + 1)
  rw [← Text.byteSize_toList, ← Nat.add_assoc] at hshift
  have htext : (a ++ "\n" ++ b).toList = a.toList ++ '\n' :: b.toList := by simp
  have hall := hscan.append hclosed hshift
  rw [← htext] at hall
  have hend : ∀ (ts : List Token) (offset : Nat),
      (ts ++ [Token.eof offset]).filter Token.isSignificant = ts.filter Token.isSignificant :=
    fun ts offset => by simp [Token.isSignificant, Token.eof]
  rw [significant_editor, significant_editor, significant_editor, hts, hus, hall.lex_eq, hend,
    hend, hend, List.filter_append, List.filter_map, Text.byteSize_toList]
  rfl

/-- The size of two texts on lines of their own. -/
theorem utf8ByteSize_line (a b : String) :
    (a ++ "\n" ++ b).utf8ByteSize = b.utf8ByteSize + (a.utf8ByteSize + 1) := by
  have hline : "\n".utf8ByteSize = 1 := rfl
  rw [String.utf8ByteSize_append, String.utf8ByteSize_append, hline]
  omega

/-- **Files are read one after the other.** If the first of two texts is read without holes and
does not end in an open comment, and the second one does not start with a semicolon or a string,
then together, on lines of their own, their constructs are those of the first text and those of
the second one, further down. -/
theorem parse_append (mode : Mode) (hholes : (Forest.parse mode a).holes = [])
    (hclosed : ¬Unclosed a.toList)
    (hfirst : ∀ t ∈ (lex .interpretation b).head?, t.kind ≠ .string ∧ t.kind ≠ .sign .semicolon) :
    (Forest.parse mode (a ++ "\n" ++ b)).nodes = (Forest.parse mode a).nodes ++
      (Forest.parse mode b).nodes.map (Node.relocate (.shift (a.utf8ByteSize + 1))) := by
  let φ := Relocation.shift (a.utf8ByteSize + 1)
  let more := some ((significant mode b).map (Token.relocate φ))
  have hmore : Separate more := by
    intro t ht
    obtain ⟨u, hu, rfl⟩ : ∃ u ∈ (significant mode b).head?, u.relocate φ = t := by
      simpa [more, List.head?_map] using ht
    refine hfirst u ?_
    rw [lex_interpretation_eq mode]
    rw [List.head?_append, Option.mem_def.mp hu]
    rfl
  have hfollows : (Reading.start mode a).cursor.Follows .stay more
      (Reading.start mode (a ++ "\n" ++ b)).cursor := by
    refine ⟨⟨?_, rfl, fun h => absurd h (Option.some_ne_none _)⟩, rfl⟩
    show significant mode (a ++ "\n" ++ b) = (significant mode a).map (Token.relocate .stay) ++ _
    rw [significant_append mode hclosed, show Token.relocate .stay = id from rfl, List.map_id]
    rfl
  obtain ⟨d, hd, hend, hnodes⟩ := Parse.members_append hmore .eof hfollows hholes
  obtain ⟨-, ht, hlast⟩ := parse_reads mode a
  -- where the first text ends, the second one is ahead, as it is at its own start
  have hleads : (Reading.start mode b).cursor.Leads φ none d := by
    refine ⟨?_, ?_, fun _ => ?_⟩
    · have hahead : (Parse.members .eof (Reading.start mode a).cursor).2.ahead = [] :=
        Cursor.ahead_eq_nil hlast
      rw [hd.ahead, hahead]
      exact (List.append_nil _).symm
    · exact hd.depth.trans ht.depth
    · exact hend.trans (utf8ByteSize_line a b)
  rw [parse_nodes, hnodes, Parse.members_fresh .eof hleads, parse_nodes, parse_nodes]
  congr 1
  exact (List.map_congr_left fun n _ => n.relocate_stay).trans (List.map_id _)

/-- What follows a class may be broken. -/
theorem parse_append_class :
    (Forest.parse .editor "class A \x7b\x7d").holes = [] ∧
      (∀ t ∈ (lex .interpretation "\x7d int").head?, t.kind ≠ .string ∧ t.kind ≠ .sign .semicolon) ∧
      (Forest.parse .editor ("class A \x7b\x7d" ++ "\n" ++ "\x7d int")).nodes =
        (Forest.parse .editor "class A \x7b\x7d").nodes ++
          (Forest.parse .editor "\x7d int").nodes.map (Node.relocate (.shift 11)) := by
  have hholes : (Forest.parse .editor "class A \x7b\x7d").holes = [] := by decide +kernel
  have hfirst : ∀ t ∈ (lex .interpretation "\x7d int").head?,
      t.kind ≠ .string ∧ t.kind ≠ .sign .semicolon := by decide +kernel
  exact ⟨hholes, hfirst, parse_append .editor hholes (not_unclosed (by decide +kernel)) hfirst⟩

end MudEdit
