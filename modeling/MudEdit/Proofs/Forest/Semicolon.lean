import MudEdit.Proofs.Forest.Concatenation
import MudEdit.Proofs.Forest.Span
import MudEdit.Proofs.Grammar.Severed
import MudEdit.Proofs.Token.Ending

/-!
# A semicolon that is missing

Take a text that is read without holes and ends with the semicolon of a declaration. If that
semicolon is left out and another declaration follows on the next line, then there is a hole for
the semicolon, and all else is read as before: the constructs of the first text and then those of
the second one, further down.
-/

namespace MudEdit

variable {mode : Mode} {a b : String} {n : Node} {ns : List Node}

/-- A construct with a hole at its end ends where the hole is. -/
theorem Node.combine_missing {at_ : Nat} {expected : Expected} (hb : n.begin ≤ n.stop)
    (hs : at_ ≤ n.stop) (hle : (n.combine [.missing at_ expected]).stop ≤ at_) :
    n.combine [.missing at_ expected] = .mk n.begin at_
      (.combination (.mk n.begin at_ n.kind) [.missing at_ expected]) := by
  obtain ⟨begin, stop, kind⟩ := n
  have hmax : max (max (max begin stop) stop) at_ ≤ at_ := hle
  dsimp only [begin_mk, stop_mk] at hb hs
  obtain rfl : stop = at_ := by omega
  show Node.mk (min (min begin begin) stop) (max (max (max begin stop) stop) stop) _ = _
  rw [Nat.min_self, Nat.min_eq_left hb, Nat.max_eq_right hb, Nat.max_self, Nat.max_self]
  rfl

/-- A construct that lacks its end is read up to the last token taken, where the hole is. -/
theorem Reads.missing_end {mark : Nat → Prop} {c c' : Cursor} {begin : Nat} {kind : NodeKind}
    {expected : Expected} (h : Reads .taken c
      [(Node.new begin c'.lastStop kind).combine [.missing c'.lastStop expected]] [] c')
    (hc : c.Placed mark) (he : c'.atEnd = false) :
    (Node.new begin c'.lastStop kind).combine [.missing c'.lastStop expected] =
      .mk (Node.new begin c'.lastStop kind).begin c'.lastStop
        (.combination (.mk (Node.new begin c'.lastStop kind).begin c'.lastStop kind)
          [.missing c'.lastStop expected]) := by
  have hstop : max begin c'.lastStop ≤ (Node.new begin c'.lastStop kind).stop :=
    (Node.foldl_stop _ kind.children).2.1
  have hbegin := Node.begin_new_le begin c'.lastStop kind
  have hle := (h.within hc _ (List.mem_append_left _ (List.mem_singleton_self _))).le_hi
  rw [Cursor.limit_taken he] at hle
  exact Node.combine_missing (by omega) (by omega) hle

/-- The tokens that the grammar reads end with the semicolon at the end of the text. -/
theorem significant_before_semicolon {t : Token} (mode : Mode) (ht : t ∈ lex .editor (a ++ ";"))
    (hk : t.kind = .sign .semicolon) (hstop : t.stop = (a ++ ";").utf8ByteSize) :
    significant mode (a ++ ";") = significant mode a ++ [t] ∧ ¬Unclosed a.toList := by
  obtain ⟨ts, hts, hts', hclosed⟩ := lex_before_semicolon ht hk hstop
  have ht : t.isSignificant = true := by simp [Token.isSignificant, hk, TokenKind.isComment]
  have heof (offset : Nat) : (Token.eof offset).isSignificant = false := rfl
  refine ⟨?_, hclosed⟩
  rw [significant_editor, significant_editor, hts, hts', List.filter_append, List.filter_append,
    List.filter_cons_of_pos ht, List.filter_cons_of_neg (by simp [heof]),
    List.filter_cons_of_neg (by simp [heof]), List.filter_nil, List.append_nil]

/-- A text that starts with a declaration has its first token among those that are read. -/
theorem significant_of_declaration (mode : Mode)
    (h : ∃ t ∈ (lex .interpretation b).head?, t.kind.startsDeclaration = true) :
    ∃ t ts, significant mode b = t :: ts ∧ t.kind.startsDeclaration = true := by
  obtain ⟨t, ht, hstarts⟩ := h
  rw [lex_interpretation_eq mode] at ht
  cases hb : significant mode b with
  | nil =>
    rw [hb] at ht
    obtain rfl := Option.some.inj ht
    cases hstarts
  | cons u us =>
    rw [hb] at ht
    obtain rfl := Option.some.inj ht
    exact ⟨_, us, rfl, hstarts⟩

/-- **One missing semicolon costs one hole.** A text without holes ends with the semicolon of a
variable, a prototype or an inherited program. Without the semicolon, and with a declaration on the
next line, its last construct ends with the token before the semicolon and has a hole there, and
nothing else of it changes; the constructs of the other text follow, further down. -/
theorem parse_missing_semicolon (mode : Mode)
    (hends : ∃ t ∈ lex .editor (a ++ ";"), t.kind = .sign .semicolon ∧
      t.stop = (a ++ ";").utf8ByteSize)
    (hholes : (Forest.parse mode (a ++ ";")).holes = [])
    (hnodes : (Forest.parse mode (a ++ ";")).nodes = ns ++ [n])
    (hn : n.kind.endsInSemicolon = true)
    (hfirst : ∃ t ∈ (lex .interpretation b).head?, t.kind.startsDeclaration = true) :
    ∃ last, (significant mode a).getLast? = some last ∧
      (Forest.parse mode (a ++ "\n" ++ b)).nodes = ns ++
        .mk n.begin last.stop (.combination (.mk n.begin last.stop n.kind)
          [.missing last.stop .semicolon]) ::
        (Forest.parse mode b).nodes.map (Node.relocate (.shift (a.utf8ByteSize + 1))) := by
  let φ := Relocation.shift (a.utf8ByteSize + 1)
  let c := (Reading.start mode (a ++ ";")).cursor
  let c' := (Reading.start mode (a ++ "\n" ++ b)).cursor
  obtain ⟨own, hown, hownKind, hownStop⟩ := hends
  obtain ⟨htokens, hclosed⟩ := significant_before_semicolon mode hown hownKind hownStop
  obtain ⟨first, rest, hb, hstarts⟩ := significant_of_declaration mode hfirst
  -- both texts go on with the tokens before the semicolon
  let g : Gap := ⟨own, first.relocate φ, rest.map (Token.relocate φ), hownKind, hstarts⟩
  have hahead' : c'.ahead = significant mode a ++ g.other :: g.rest := by
    show significant mode (a ++ "\n" ++ b) = _
    rw [significant_append mode hclosed, hb]
    rfl
  have hfollows : g.Follows .stay c c' := by
    refine ⟨⟨significant mode a, htokens, ?_⟩, rfl, rfl⟩
    rw [hahead', show Token.relocate .stay = id from rfl, List.map_id]
  have hend : (Parse.members .eof c).2.ahead = [] := Cursor.ahead_eq_nil (parse_reads mode _).2.2
  have hclean : n.holes = [] := by
    have hall : holesOf (ns ++ [n]) = [] := hnodes ▸ hholes
    exact List.flatMap_eq_nil_iff.mp hall n (by simp)
  obtain ⟨begin, stop, kind, d, e, ts, hnew, htakes, hleft, hreads, hothers, hstop, hmembers⟩ :=
    Parse.members_sever .eof hfollows hnodes hend ⟨hclean, hn⟩
  rw [Node.relocate_stay] at hreads hmembers
  obtain rfl : e.lastStop = stop := hstop
  -- the tokens read by then are those of the first text
  obtain ⟨us, hus⟩ := hreads.takes
  have hall := htakes.trans hus
  have hsplit : significant mode a = ts ++ us := by
    have htotal := hall.ahead
    rw [hahead', hothers] at htotal
    exact List.append_cancel_right htotal
  obtain ⟨more, last, rfl⟩ : ∃ more last, us = more ++ [last] := by
    refine (List.eq_nil_or_concat' us).resolve_left ?_
    rintro rfl
    exact absurd hleft (by rw [hus.eq_of_nil]; exact Nat.lt_irrefl _)
  refine ⟨last, by rw [hsplit, ← List.append_assoc, List.getLast?_concat], ?_⟩
  have hnode := hreads.missing_end ((start_placed mode _).takes htakes).1
    (by simp [Cursor.atEnd, hothers])
  -- the other text is ahead there, as it is at its own start
  have hleads : (Reading.start mode b).cursor.Leads φ none e := by
    refine ⟨?_, hall.depth, fun _ => hall.textEnd.trans (utf8ByteSize_line a b)⟩
    rw [hothers, start_cursor, Cursor.start, hb]
    exact (List.append_nil _).symm
  have hsame : ns.map (Node.relocate .stay) = ns :=
    (List.map_congr_left fun n _ => n.relocate_stay).trans (List.map_id _)
  rw [parse_nodes, hmembers, hsame, Parse.members_fresh .eof hleads]
  show ns ++ Node.combine _ [.missing e.lastStop .semicolon] :: _ = _
  rw [hnode, hus.lastStop, hnew]
  rfl

/-- A variable without its semicolon, before a prototype. -/
theorem parse_missing_semicolon_variable :
    ∃ n last, (Forest.parse .editor ("int x" ++ ";")).nodes = [n] ∧
      (significant .editor "int x").getLast? = some last ∧
      (Forest.parse .editor ("int x" ++ "\n" ++ "void f();")).nodes =
        .mk n.begin last.stop (.combination (.mk n.begin last.stop n.kind)
          [.missing last.stop .semicolon]) ::
        (Forest.parse .editor "void f();").nodes.map (Node.relocate (.shift 6)) := by
  have hone : (Forest.parse .editor ("int x" ++ ";")).nodes.length = 1 := by decide +kernel
  have hkind : (Forest.parse .editor ("int x" ++ ";")).nodes.all
      (·.kind.endsInSemicolon) = true := by decide +kernel
  obtain ⟨n, hn⟩ := List.length_eq_one_iff.mp hone
  rw [hn] at hkind
  obtain ⟨last, hlast, hnodes⟩ := parse_missing_semicolon .editor (by decide +kernel)
    (List.isEmpty_iff.mp (by decide +kernel)) ((List.nil_append [n]).symm ▸ hn)
    (by simpa using hkind) (b := "void f();") (by decide +kernel)
  exact ⟨n, last, hn, hlast, hnodes⟩

end MudEdit
