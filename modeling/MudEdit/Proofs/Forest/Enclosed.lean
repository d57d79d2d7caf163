import MudEdit.Proofs.Forest.Concatenation
import MudEdit.Proofs.Forest.Span
import MudEdit.Proofs.Grammar.Enclosed

/-!
# A declaration means the same wherever it stands

A text that is one declaration, on lines of its own in a class, is that declaration as a member of
the class, further down in the text. In a function it is that declaration as a statement, with one
exception: what starts with a type in parentheses is an expression there.
-/

namespace MudEdit

open Parse

variable {mode : Mode} {opening text : String} {n m : Node}

/-- The text on lines of its own, between the line that opens a brace and the one that closes it. -/
def enclosed (opening text : String) : String := opening ++ "\n" ++ (text ++ "\n" ++ "\x7d")

/-- The text is one declaration without holes. It ends in no open comment, and it does not need the
last two levels: whatever were read there, the forest would be the same. -/
structure Declares (mode : Mode) (text : String) (n : Node) : Prop where
  nodes : (Forest.parse mode text).nodes = [n]
  holes : (Forest.parse mode text).holes = []
  bare : n.kind.isBareDeclaration = true
  closed : ¬Unclosed text.toList
  levels : ∀ beyond : Nested,
    (membersUpTo (maxDepth - 2) beyond .eof (Reading.start mode text).cursor).1 = [n]

theorem Declares.clean (h : Declares mode text n) : n.holes = [] := by
  have hall : holesOf [n] = [] := h.nodes ▸ h.holes
  exact List.flatMap_eq_nil_iff.mp hall n List.mem_cons_self

/-! ## The tokens of the text -/

theorem utf8ByteSize_enclosed (opening text : String) :
    (enclosed opening text).utf8ByteSize = opening.utf8ByteSize + text.utf8ByteSize + 3 := by
  have hbrace : "\x7d".utf8ByteSize = 1 := rfl
  rw [enclosed, utf8ByteSize_line, utf8ByteSize_line, hbrace]
  omega

/-- The closing brace behind the text. -/
def braceBehind (text : String) : Token :=
  ⟨text.utf8ByteSize + 1, text.utf8ByteSize + 2, .sign .rightBrace, none⟩

theorem significant_braceBehind (mode : Mode) (hclosed : ¬Unclosed text.toList) :
    significant mode (text ++ "\n" ++ "\x7d") = significant mode text ++ [braceBehind text] := by
  have hbrace : significant mode "\x7d" = [⟨0, 1, .sign .rightBrace, none⟩] := by
    cases mode <;> decide +kernel
  have htoken : (⟨0, 1, .sign .rightBrace, none⟩ : Token).relocate
      (.shift (text.utf8ByteSize + 1)) = braceBehind text := by
    simp only [Token.relocate, Relocation.shift, braceBehind, Token.mk.injEq, and_true]
    omega
  rw [significant_append mode hclosed, hbrace, List.map_singleton, htoken]

theorem significant_class (mode : Mode) : significant mode "class C \x7b" = classHead := by
  cases mode <;> decide +kernel

theorem significant_function (mode : Mode) : significant mode "void f() \x7b" = functionHead := by
  cases mode <;> decide +kernel

/-- The tokens of the text and of the closing brace, where they stand behind the opening line. -/
def within (mode : Mode) (opening text : String) : List Token :=
  (significant mode text ++ [braceBehind text]).map
    (Token.relocate (.shift (opening.utf8ByteSize + 1)))

theorem start_enclosed (mode : Mode) (hopening : ¬Unclosed opening.toList)
    (hclosed : ¬Unclosed text.toList) : (Reading.start mode (enclosed opening text)).cursor =
      .start (significant mode opening ++ within mode opening text)
        (enclosed opening text).utf8ByteSize := by
  rw [start_cursor, enclosed, significant_append mode hopening,
    significant_braceBehind mode hclosed, within]

/-! ## What stands in the braces -/

/-- In the braces the declaration is read, one level deeper and up to the closing brace. -/
theorem Declares.braced (h : Declares mode text n) (opening : String) {p : Parse Node}
    (hp : Admits (.levels (maxDepth - 1)) (Reading.start mode text).cursor.kind p) (e : Expected) :
    ∃ last, last.ahead = [(braceBehind text).relocate (.shift (opening.utf8ByteSize + 1))] ∧
      manyUntil (· == .sign .rightBrace) (guarded (nested e p))
        (.past (significant mode opening) (within mode opening text)
          (enclosed opening text).utf8ByteSize) =
        ([n.relocate (.shift (opening.utf8ByteSize + 1))], last) := by
  have hof := (significant_spec mode text).2
  have halone : Alone (.levels (maxDepth - 1))
      { (Reading.start mode text).cursor with depth := 1 } n :=
    alone_sunk rfl (fun t ht => (hof t ht).kind_ne) h.clean (h.levels _)
  -- with the brace behind it, but not yet behind the opening line
  let inner : Cursor := ⟨[], significant mode text ++ [braceBehind text],
    (text ++ "\n" ++ "\x7d").utf8ByteSize, _, rfl, 1⟩
  have hinner : ({ (Reading.start mode text).cursor with depth := 1 } : Cursor).Follows .stay
      (some [braceBehind text]) inner := by
    refine ⟨⟨?_, rfl, fun hnone => absurd hnone (Option.some_ne_none _)⟩, rfl⟩
    show _ = (significant mode text).map (Token.relocate .stay) ++ [braceBehind text]
    rw [show Token.relocate .stay = id from rfl, List.map_id]
  refine halone.braced h.clean h.bare rfl hinner ⟨?_, rfl, fun _ => ?_⟩
    (show 0 < maxDepth by decide) hp e
  · exact (List.append_nil _).symm
  · exact utf8ByteSize_line opening _

/-- The end of the brace is the end of the text. -/
theorem stop_braceBehind (opening text : String) :
    ((braceBehind text).relocate (.shift (opening.utf8ByteSize + 1))).stop =
      (enclosed opening text).utf8ByteSize := by
  rw [utf8ByteSize_enclosed]
  simp only [Token.relocate, Relocation.shift, braceBehind]
  omega

/-- Behind the opening line the declaration is within the text. -/
theorem Declares.inside (h : Declares mode text n) (opening : String) :
    opening.utf8ByteSize + 1 ≤ (n.relocate (.shift (opening.utf8ByteSize + 1))).begin ∧
      (n.relocate (.shift (opening.utf8ByteSize + 1))).stop ≤
        (enclosed opening text).utf8ByteSize := by
  have hmem : n ∈ (Forest.parse mode text).subtrees :=
    List.mem_flatMap.mpr ⟨n, by simp [h.nodes], by rw [Node.subtrees_eq]; exact List.mem_cons_self⟩
  have hstop := ((parse_wellFormed mode text).1 n hmem).2.1
  rw [utf8ByteSize_enclosed, Node.begin_relocate, Node.stop_relocate]
  simp only [Relocation.shift]
  omega

theorem Declares.holes_relocate (h : Declares mode text n) (φ : Relocation) :
    (n.relocate φ).holes = [] := by
  rw [Node.holes_relocate, h.clean]
  rfl

/-- In a class the declaration is a member. -/
theorem Declares.in_class (h : Declares mode text n) :
    (Forest.parse mode (enclosed "class C \x7b" text)).nodes =
      [.mk 0 (enclosed "class C \x7b" text).utf8ByteSize
        (.classDef (.mk 6 7 (.name "C")) none [n.relocate (.shift 10)])] := by
  obtain ⟨last, hlast, hrun⟩ := h.braced "class C \x7b" (fun _ _ _ _ => rfl) .declaration
  obtain ⟨hbegin, hstop⟩ := h.inside "class C \x7b"
  have hend := stop_braceBehind "class C \x7b" text
  have hsize := utf8ByteSize_enclosed "class C \x7b" text
  rw [show "class C \x7b".utf8ByteSize = 9 from rfl] at hrun hlast hbegin hstop hend hsize
  rw [significant_class] at hrun
  rw [parse_nodes, start_enclosed mode (not_unclosed (by decide)) h.closed, significant_class,
    members_class hrun hlast rfl, hend, Node.new_around (Nat.zero_le _)]
  simp only [NodeKind.children, Option.toList_none, List.append_nil, List.cons_append,
    List.nil_append, List.forall_mem_cons, Node.begin_mk, Node.stop_mk]
  refine ⟨⟨?_, ?_⟩, ⟨?_, hstop⟩, List.forall_mem_nil _⟩ <;> omega

/-- In a function the declaration is a statement, if no expression starts as it does. -/
theorem Declares.in_function (h : Declares mode text n)
    (hparen : (Reading.start mode text).cursor.kind ≠ .sign .leftParen) :
    (Forest.parse mode (enclosed "void f() \x7b" text)).nodes =
      [.mk 0 (enclosed "void f() \x7b" text).utf8ByteSize
        (.functionDef none (.mk 0 4 (.basicType .void none)) (.mk 5 6 (.name "f")) [] false
          (some (.mk 9 (enclosed "void f() \x7b" text).utf8ByteSize
            (.block [n.relocate (.shift 11)]))))] := by
  obtain ⟨last, hlast, hrun⟩ := h.braced "void f() \x7b" (statement_admits hparen) .statement
  obtain ⟨hbegin, hstop⟩ := h.inside "void f() \x7b"
  have hend := stop_braceBehind "void f() \x7b" text
  have hsize := utf8ByteSize_enclosed "void f() \x7b" text
  rw [show "void f() \x7b".utf8ByteSize = 10 from rfl] at hrun hlast hbegin hstop hend hsize
  rw [significant_function] at hrun
  -- the body spans its braces, and the declaration lies between them
  have hbody : Node.new 9 (enclosed "void f() \x7b" text).utf8ByteSize
      (.block [n.relocate (.shift (10 + 1))]) =
      .mk 9 (enclosed "void f() \x7b" text).utf8ByteSize (.block [n.relocate (.shift 11)]) := by
    refine Node.new_around (by omega) fun c hc => ?_
    obtain rfl := List.mem_singleton.mp hc
    exact ⟨by omega, hstop⟩
  rw [parse_nodes, start_enclosed mode (not_unclosed (by decide)) h.closed, significant_function,
    members_function hrun hlast rfl, hend, hbody, Node.new_around (Nat.zero_le _)]
  simp only [NodeKind.children, Option.toList_none, Option.toList_some, List.append_nil,
    List.cons_append, List.nil_append, List.forall_mem_cons, Node.begin_mk, Node.stop_mk]
  refine ⟨⟨?_, ?_⟩, ⟨?_, ?_⟩, ⟨?_, Nat.le_refl _⟩, List.forall_mem_nil _⟩ <;> omega

/-- Around parts without holes there are none. -/
theorem holesOf_around {begin stop : Nat} {kind : NodeKind}
    (hk : (Node.mk begin stop kind).isHole = false) (h : ∀ c ∈ kind.children, c.holes = []) :
    holesOf [.mk begin stop kind] = [] := by
  rw [holesOf, List.flatMap_singleton]
  exact Node.holes_eq_nil.mpr ⟨hk, h⟩

theorem Node.holes_leaf {begin stop : Nat} {kind : NodeKind}
    (hk : (Node.mk begin stop kind).isHole = false) (h : kind.children = []) :
    (Node.mk begin stop kind).holes = [] :=
  holes_eq_nil.mpr ⟨hk, by simp [children, h]⟩

theorem Declares.holes_class (h : Declares mode text n) :
    (Forest.parse mode (enclosed "class C \x7b" text)).holes = [] := by
  rw [Forest.holes, h.in_class]
  refine holesOf_around rfl ?_
  simp only [NodeKind.children, Option.toList_none, List.append_nil, List.cons_append,
    List.nil_append, List.forall_mem_cons]
  exact ⟨Node.holes_leaf rfl rfl, h.holes_relocate _, List.forall_mem_nil _⟩

theorem Declares.holes_function (h : Declares mode text n)
    (hparen : (Reading.start mode text).cursor.kind ≠ .sign .leftParen) :
    (Forest.parse mode (enclosed "void f() \x7b" text)).holes = [] := by
  rw [Forest.holes, h.in_function hparen]
  refine holesOf_around rfl ?_
  simp only [NodeKind.children, Option.toList_none, Option.toList_some, List.append_nil,
    List.cons_append, List.nil_append, List.forall_mem_cons]
  refine ⟨Node.holes_leaf rfl rfl, Node.holes_leaf rfl rfl, ?_, List.forall_mem_nil _⟩
  refine Node.holes_eq_nil.mpr ⟨rfl, fun c hc => ?_⟩
  obtain rfl := List.mem_singleton.mp hc
  exact h.holes_relocate _

/-- The first token of a text is the one that its reading starts at. -/
theorem kind_start (mode : Mode) {kind : TokenKind} (hne : kind ≠ .eof)
    (h : ∀ t ∈ (lex .interpretation text).head?, t.kind ≠ kind) :
    (Reading.start mode text).cursor.kind ≠ kind := by
  rw [lex_interpretation_eq mode] at h
  rw [start_cursor, Cursor.kind_eq, Cursor.current]
  show ((significant mode text).head?.getD _).kind ≠ kind
  cases hs : significant mode text with
  | nil => exact hne.symm
  | cons t ts => exact h t (by rw [hs]; rfl)

/-! ## Two declarations -/

/-- A text that needs two levels only is read with any levels below them. -/
theorem declares_of_tokens {ts : List Token} (htokens : significant mode text = ts)
    (hread : ∀ below : Nested, (manyUntil (· == .eof) (guarded (member below.above.above))
      (.start ts text.utf8ByteSize)).1 = [n])
    (hlevels : ∀ beyond below : Nested, (manyUntil (· == .eof) (guarded
      ((member (.aboveUpTo (maxDepth - 2) beyond (.aboveUpTo (maxDepth - 2) beyond below))).upTo
        (maxDepth - 2) beyond.member)) (.start ts text.utf8ByteSize)).1 = [n])
    (hclean : n.holes = []) (hbare : n.kind.isBareDeclaration = true)
    (hclosed : ¬Unclosed text.toList) : Declares mode text n := by
  have hnodes : (Forest.parse mode text).nodes = [n] := by
    rw [parse_nodes, start_cursor, htokens]
    exact hread (.levels (maxDepth - 2))
  refine ⟨hnodes, ?_, hbare, hclosed, fun beyond => ?_⟩
  · rw [Forest.holes, hnodes, holesOf, List.flatMap_singleton, hclean]
  · rw [start_cursor, htokens]
    exact hlevels beyond (.levelsUpTo (maxDepth - 2) beyond (maxDepth - 2))

theorem declares_int : Declares .editor "int x;"
    (.mk 0 6 (.variableDef none (some (.mk 0 3 (.basicType .int none))) (.mk 4 5 (.name "x"))
      none)) := by
  have htokens : significant .editor "int x;" = [⟨0, 3, .basic .int, none⟩,
      ⟨4, 5, .identifier, some (.text "x")⟩, ⟨5, 6, .sign .semicolon, none⟩] := by decide +kernel
  exact declares_of_tokens htokens (fun _ => by with_unfolding_all rfl) (fun _ _ => by with_unfolding_all rfl) (by with_unfolding_all rfl) rfl
    (not_unclosed (by decide))

theorem declares_parenthesized : Declares .editor "(int) x;"
    (.mk 0 8 (.variableDef none (some (.mk 1 4 (.basicType .int none))) (.mk 6 7 (.name "x"))
      none)) := by
  have htokens : significant .editor "(int) x;" = [⟨0, 1, .sign .leftParen, none⟩,
      ⟨1, 4, .basic .int, none⟩, ⟨4, 5, .sign .rightParen, none⟩,
      ⟨6, 7, .identifier, some (.text "x")⟩, ⟨7, 8, .sign .semicolon, none⟩] := by decide +kernel
  exact declares_of_tokens htokens (fun _ => by with_unfolding_all rfl) (fun _ _ => by with_unfolding_all rfl) (by with_unfolding_all rfl) rfl
    (not_unclosed (by decide))

/-! ## Where a declaration means the same -/

/-- **A declaration means the same wherever it stands.** A text that is one declaration without
holes, on lines of its own in a class or in a function, is read without holes there, as the same
declaration further down; in a function only if it does not start with a parenthesis. -/
theorem parse_enclosed (h : Declares mode text n) :
    ((Forest.parse mode (enclosed "class C \x7b" text)).nodes =
        [.mk 0 (enclosed "class C \x7b" text).utf8ByteSize
          (.classDef (.mk 6 7 (.name "C")) none [n.relocate (.shift 10)])] ∧
      (Forest.parse mode (enclosed "class C \x7b" text)).holes = []) ∧
    ((∀ t ∈ (lex .interpretation text).head?, t.kind ≠ .sign .leftParen) →
      (Forest.parse mode (enclosed "void f() \x7b" text)).nodes =
        [.mk 0 (enclosed "void f() \x7b" text).utf8ByteSize
          (.functionDef none (.mk 0 4 (.basicType .void none)) (.mk 5 6 (.name "f")) [] false
            (some (.mk 9 (enclosed "void f() \x7b" text).utf8ByteSize
              (.block [n.relocate (.shift 11)]))))] ∧
      (Forest.parse mode (enclosed "void f() \x7b" text)).holes = []) := by
  refine ⟨⟨h.in_class, h.holes_class⟩, fun hfirst => ?_⟩
  have hparen := kind_start mode (by simp) hfirst
  exact ⟨h.in_function hparen, h.holes_function hparen⟩

/-- A variable is a member of a class and a statement of a function. -/
theorem parse_enclosed_variable :
    (Forest.parse .editor (enclosed "class C \x7b" "int x;")).nodes =
      [.mk 0 18 (.classDef (.mk 6 7 (.name "C")) none [.mk 10 16 (.variableDef none
        (some (.mk 10 13 (.basicType .int none))) (.mk 14 15 (.name "x")) none)])] ∧
    (Forest.parse .editor (enclosed "void f() \x7b" "int x;")).nodes =
      [.mk 0 19 (.functionDef none (.mk 0 4 (.basicType .void none)) (.mk 5 6 (.name "f")) [] false
        (some (.mk 9 19 (.block [.mk 11 17 (.variableDef none
          (some (.mk 11 14 (.basicType .int none))) (.mk 15 16 (.name "x")) none)]))))] := by
  obtain ⟨⟨hclass, -⟩, hfunction⟩ := parse_enclosed declares_int
  obtain ⟨hfunction, -⟩ := hfunction (by decide +kernel)
  exact ⟨hclass.trans (by with_unfolding_all rfl), hfunction.trans (by with_unfolding_all rfl)⟩

/-- The tokens of `(int) x;` in a function, with the brace behind them. -/
def castTokens : List Token :=
  [⟨11, 12, .sign .leftParen, none⟩, ⟨12, 15, .basic .int, none⟩, ⟨15, 16, .sign .rightParen, none⟩,
    ⟨17, 18, .identifier, some (.text "x")⟩, ⟨18, 19, .sign .semicolon, none⟩,
    ⟨20, 21, .sign .rightBrace, none⟩]

/-- Behind the first of these tokens, and so deep. -/
def castAt (depth count : Nat) : Cursor :=
  ⟨(castTokens.take count).reverse ++ functionHead.reverse, castTokens.drop count, 21, _, rfl,
    depth⟩

/-- A variable that is cast. -/
def castNode : Node := .mk 11 18 (.cast (.mk 12 15 (.basicType .int none)) (.mk 17 18 (.name "x")))

/-- The parenthesis opens a cast, as the token behind it is a type and the next one closes it. -/
theorem unary_cast (below : Nested) : unary below.above (castAt 3 0) = (castNode, castAt 3 4) := by
  with_unfolding_all rfl

/-- A statement that starts with a parenthesis is an expression. -/
theorem statement_cast :
    (Nested.levels maxDepth).statement (castAt 0 0) = (castNode, castAt 0 5) := by
  let below := Nested.levels 60
  have hunary : below.above.above.unary (castAt 2 0) = (castNode, castAt 2 4) :=
    nested_eq .expression (show 2 < maxDepth by decide) (unary_cast below)
  -- the semicolon is no operator, so every loop around the operand ends
  have htest : typeTest below.above.above (castAt 2 0) = (castNode, castAt 2 4) :=
    Ensures.eq (.bind_eq hunary (chain_stop ⟨rfl, rfl⟩))
  have hoperand : operand below.above.above BinaryOp.loosest (castAt 2 0) =
      (castNode, castAt 2 4) := Ensures.eq (.bind_eq htest (chain_stop ⟨rfl, rfl⟩))
  have halternative : alternative below.above.above (castAt 2 0) = (castNode, castAt 2 4) :=
    Ensures.eq (.bind_eq hoperand (.eats nofun fun _ => rfl))
  have hexpression : below.above.above.above.expression (castAt 1 0) = (castNode, castAt 1 4) :=
    nested_eq .expression (show 1 < maxDepth by decide)
      (Ensures.eq (.bind_eq halternative (.kind rfl)))
  have hstatement : expressionStatement below.above.above.above (castAt 1 0) =
      (castNode, castAt 1 5) := Ensures.eq (.bind_eq hexpression rfl)
  exact nested_eq .statement (show 0 < maxDepth by decide) hstatement

/-- A variable with its type in parentheses is an expression in a function, which casts what it
would name. -/
theorem enclosed_parenthesized :
    ∃ n m : Node, Declares .editor "(int) x;" n ∧ m ≠ n.relocate (.shift 11) ∧
      (Forest.parse .editor (enclosed "void f() \x7b" "(int) x;")).nodes =
        [.mk 0 21 (.functionDef none (.mk 0 4 (.basicType .void none)) (.mk 5 6 (.name "f")) []
          false (some (.mk 9 21 (.block [m]))))] := by
  refine ⟨_, .mk 11 18 (.cast (.mk 12 15 (.basicType .int none)) (.mk 17 18 (.name "x"))),
    declares_parenthesized, fun h => ?_, ?_⟩
  · have hkind := congrArg Node.kind h
    rw [Node.kind_relocate] at hkind
    simp [NodeKind.relocate] at hkind
  · have htokens : within .editor "void f() \x7b" "(int) x;" = castTokens := by decide +kernel
    have hstop : (castAt 0 0).kind ≠ .sign .rightBrace := nofun
    have hleft : (castAt 0 5).left < (castAt 0 0).left := by decide
    have hguarded : guarded (Nested.levels maxDepth).statement (castAt 0 0) =
        (castNode, castAt 0 5) :=
      (guarded_of_left (by rw [statement_cast]; exact Nat.ne_of_lt hleft)).trans statement_cast
    have hrun : manyUntil (· == .sign .rightBrace) (guarded (Nested.levels maxDepth).statement)
        (castAt 0 0) = ([castNode], castAt 0 5) :=
      manyUntil_single (beq_eq_false_iff_ne.mpr hstop) rfl hguarded hleft rfl
    rw [parse_nodes, start_enclosed .editor (not_unclosed (by decide)) (not_unclosed (by decide)),
      significant_function, htokens]
    exact members_function hrun rfl rfl

end MudEdit
