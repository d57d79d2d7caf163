import MudEdit.Proofs.Forest.Mode
import MudEdit.Proofs.Grammar.Tracked

/-!
# Layout never changes structure

Texts may differ in the white space and the comments between their tokens. Where their tokens
say the same, so do their forests.
-/

namespace MudEdit

/-- What a token says, wherever it stands. -/
def Token.content (t : Token) : TokenKind × Option Payload := (t.kind, t.payload)

variable {mode mode' : Mode} {a b text : String}

theorem relocate_forget_of_content {ts us : List Token}
    (h : ts.map Token.content = us.map Token.content) :
    ts.map (Token.relocate .forget) = us.map (Token.relocate .forget) := by
  have hcontent : Token.relocate .forget = (fun c => ⟨0, 0, c.1, c.2⟩) ∘ Token.content := rfl
  rw [hcontent, ← List.map_map, ← List.map_map, h]

theorem significant_eq (mode : Mode) (text : String) :
    significant mode text = (lex .interpretation text).filter Token.isSignificant := by
  cases mode with
  | interpretation => rfl
  | editor => rw [← significant_interpretation]; rfl

/-- The grammar reads the significant tokens of the texts alike. -/
theorem significant_forget
    (h : (lex .interpretation a).map Token.content = (lex .interpretation b).map Token.content) :
    (significant mode a).map (Token.relocate .forget) =
      (significant mode' b).map (Token.relocate .forget) := by
  have hfilter : ∀ ts : List Token, (ts.filter Token.isSignificant).map (Token.relocate .forget) =
      (ts.map (Token.relocate .forget)).filter Token.isSignificant := fun ts => by
    rw [List.filter_map]
    rfl
  rw [significant_eq, significant_eq, hfilter, hfilter, relocate_forget_of_content h]

/-- A text is read as its tokens without their offsets, up to the offsets of its forest. -/
theorem parse_forget (mode : Mode) (text : String) :
    (Forest.parse mode text).nodes.map (Node.relocate .forget) =
      (Parse.members .eof
        (.start ((significant mode text).map (Token.relocate .forget)) 0)).1 := by
  have hfollows : Cursor.Follows .forget none (Reading.start mode text).cursor
      (.start ((significant mode text).map (Token.relocate .forget)) 0) :=
    ⟨⟨(List.append_nil _).symm, rfl, fun _ => rfl⟩, rfl⟩
  rcases (Parse.members_tracks .eof).follow _ _ hfollows with hcut | hs
  · exact absurd rfl hcut.1
  · rw [parse_nodes, hs.result]

theorem keywords_eq (mode : Mode) (text : String) :
    (Forest.parse mode text).keywords = (lex .interpretation text).filter (·.kind.isKeyword) := by
  obtain ⟨-, -, hmodes, hkeywords, -, -⟩ := parse_modes text
  cases mode with
  | interpretation => exact hkeywords .interpretation
  | editor => exact hmodes.trans (hkeywords .interpretation)

theorem isHole_of_mem_holes {f : Forest} {n : Node} (h : n ∈ f.holes) : n.isHole = true := by
  obtain ⟨m, -, hm⟩ := List.mem_flatMap.mp h
  exact Node.isHole_of_mem_holes hm

/-- What does not change with the offsets is the same in trees that differ in their offsets. -/
theorem map_eq_of_forget {β : Type} {f : Node → β} {ns ms : List Node}
    (hf : ∀ n ∈ ns ++ ms, f (n.relocate .forget) = f n)
    (h : ns.map (Node.relocate .forget) = ms.map (Node.relocate .forget)) :
    ns.map f = ms.map f := by
  have hmoved := congrArg (List.map f) h
  rw [List.map_map, List.map_map] at hmoved
  rw [← List.map_congr_left fun n hn => hf n (List.mem_append_left _ hn),
    ← List.map_congr_left fun n hn => hf n (List.mem_append_right _ hn)]
  exact hmoved

/-- **Layout never changes structure.** Texts whose tokens are of the same kinds and carry the
same, whatever white space and comments there are between them, have the same forests but for
the offsets: the same constructs, the same holes that expect, find and report the same, the
same heights, and the same keywords. -/
theorem parse_layout
    (h : (lex .interpretation a).map Token.content = (lex .interpretation b).map Token.content)
    (mode mode' : Mode) :
    (Forest.parse mode a).nodes.map (Node.relocate .forget) =
      (Forest.parse mode' b).nodes.map (Node.relocate .forget) ∧
    (Forest.parse mode a).holes.map Node.kind = (Forest.parse mode' b).holes.map Node.kind ∧
    (Forest.parse mode a).holes.map Node.message? =
      (Forest.parse mode' b).holes.map Node.message? ∧
    (Forest.parse mode a).nodes.map Node.height = (Forest.parse mode' b).nodes.map Node.height ∧
    (Forest.parse mode a).keywords.map Token.kind =
      (Forest.parse mode' b).keywords.map Token.kind := by
  have hnodes : (Forest.parse mode a).nodes.map (Node.relocate .forget) =
      (Forest.parse mode' b).nodes.map (Node.relocate .forget) := by
    rw [parse_forget, parse_forget, significant_forget h]
  have hholes : (Forest.parse mode a).holes.map (Node.relocate .forget) =
      (Forest.parse mode' b).holes.map (Node.relocate .forget) := by
    rw [Forest.holes, Forest.holes, ← holesOf_relocate, ← holesOf_relocate, hnodes]
  refine ⟨hnodes, ?_, map_eq_of_forget (fun n _ => n.message?_relocate _) hholes,
    map_eq_of_forget (fun n _ => n.height_relocate _) hnodes, ?_⟩
  · refine map_eq_of_forget (fun n hn => ?_) hholes
    -- a hole's kind holds no offsets, so forgetting them leaves it as it is
    have hhole : n.isHole = true := (List.mem_append.mp hn).elim isHole_of_mem_holes
      isHole_of_mem_holes
    rw [Node.kind_relocate, NodeKind.relocate_of_isHole _ hhole]
  · have hkinds : ∀ ts : List Token, (ts.filter (·.kind.isKeyword)).map Token.kind =
        ((ts.map Token.content).map Prod.fst).filter TokenKind.isKeyword := fun ts => by
      rw [List.map_map, List.filter_map]
      rfl
    rw [keywords_eq, keywords_eq, hkinds, hkinds, h]

theorem parse_layout_comment :
    (lex .interpretation "int x").map Token.content =
        (lex .interpretation "int//\n x").map Token.content ∧
      (Forest.parse .editor "int x").holes.map Node.kind =
        (Forest.parse .interpretation "int//\n x").holes.map Node.kind := by
  have h : (lex .interpretation "int x").map Token.content =
      (lex .interpretation "int//\n x").map Token.content := by decide +kernel
  exact ⟨h, (parse_layout h .editor .interpretation).2.1⟩

end MudEdit
