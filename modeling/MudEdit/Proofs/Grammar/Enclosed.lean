import MudEdit.Proofs.Grammar.Closed
import MudEdit.Proofs.Grammar.Sunk

/-!
# A declaration in braces

A text with one declaration and no holes is read in braces as well, one level deeper. The members
of a class are read as those of a file are. The statements of a block are not: there a
declaration has to start with a word, as a parenthesis starts an expression.
-/

namespace MudEdit

/-- A variable, or a function without a body. -/
def NodeKind.isBareDeclaration : NodeKind → Bool
  | .variableDef .. | .functionDef _ _ _ _ _ none => true
  | _ => false

@[simp] theorem NodeKind.isBareDeclaration_relocate (φ : Relocation) (kind : NodeKind) :
    (kind.relocate φ).isBareDeclaration = kind.isBareDeclaration := by
  cases kind with
  | functionDef _ _ _ _ _ body => cases body <;> simp [relocate, isBareDeclaration]
  | _ => simp [relocate, isBareDeclaration]

/-- Behind the first tokens of a text of that many bytes. -/
def Cursor.past (head ts : List Token) (size : Nat) : Cursor :=
  { Cursor.start ts size with taken := head.reverse }

namespace Parse

variable {φ : Relocation} {below : Nested} {c c' last : Cursor} {n : Node} {b : Token} {k : Nat}

/-! ## The declaration on its own -/

/-- One construct is all that is ahead. -/
structure Alone (below : Nested) (c : Cursor) (n : Node) : Prop where
  atEnd : c.atEnd = false
  read : (member below c).1 = n
  rest : (member below c).2.ahead = []

/-- The only construct of a text is read one level deeper as well, if two levels are not needed. -/
theorem alone_sunk (hc : c.depth = 0) (heof : ∀ t ∈ c.ahead, t.kind ≠ .eof)
    (hclean : n.holes = [])
    (hdepth : (membersUpTo (maxDepth - 2) .last .eof c).1 = [n]) :
    Alone (.levels (maxDepth - 1)) { c with depth := 1 } n := by
  have hsunk : Cursor.Sunk 0 c { c with depth := 1 } := ⟨rfl, rfl, rfl, hc, rfl⟩
  have hresult := ((members_sunk .eof).follow c _ hsunk).resolve_left id |>.result
  rw [hdepth, List.map_singleton, Node.relocate_stay] at hresult
  have hsound := Nested.levels_sound (maxDepth - 1)
  have hrun := (loops_unroll hsound).topLevel .eof { c with depth := 1 }
  unfold Ensures at hrun
  rw [hresult] at hrun
  cases hrun with
  | turn _ he hi _ hdone =>
    have hguarded := (guarded_of_clean (by rw [hi]; exact hclean)).1.symm.trans hi
    have hread : Reads .taken _ _ [] _ := member_reads (c := { c with depth := 1 }) hsound
    refine ⟨he, by rw [hguarded], ?_⟩
    cases hdone with
    | done hstop =>
      rw [hguarded] at hread ⊢
      refine Classical.byContradiction fun hmore => ?_
      -- no token ahead is of the kind of the end
      obtain ⟨ts, hts⟩ := hread.takes
      obtain ⟨t, us, hus⟩ := List.exists_cons_of_ne_nil hmore
      have hall : c.ahead = ts ++ t :: us := hts.ahead.trans (by rw [hus])
      rcases hstop with hk | hend
      · have hkind := beq_iff_eq.mp hk
        rw [Cursor.kind_eq, Cursor.current_of_ahead hus] at hkind
        exact heof t (by simp [hall]) hkind
      · exact hmore (Cursor.ahead_eq_nil hend)

/-! ## The declaration before a closing brace -/

/-- The declaration is read up to the brace behind it, wherever it stands. -/
theorem Alone.moved {inner : Cursor} (h : Alone (.levels k) c n) (hclean : n.holes = [])
    (hb : b.kind = .sign .rightBrace) (hinner : c.Follows .stay (some [b]) inner)
    (hc : inner.Leads φ none c') :
    c'.kind = c.kind ∧ c'.atEnd = false ∧ (member (.levels k) c').1 = n.relocate φ ∧
      (member (.levels k) c').2.ahead = [b.relocate φ] := by
  have htracks {ψ : Relocation} {more : Option (List Token)} : (Nested.levels k).Tracks ψ more :=
    Nested.levels_tracks k
  have hmore : Separate (some [b]) := by
    rintro t ⟨⟩
    simp [hb]
  have hfirst := (member_closes htracks hmore).follow c inner hinner (by rwa [h.read])
  have he := hinner.atEnd_of h.atEnd
  have hsecond := member_settles htracks (levels_type_settles k) (fun _ => True) inner c' hc he
    trivial
  refine ⟨(hc.kind_of he).trans (hinner.kind_of h.atEnd), hc.atEnd_of he, ?_, ?_⟩
  · rw [hsecond.result, hfirst.result, h.read, Node.relocate_stay]
  · rw [hsecond.follows.ahead, hfirst.follows.ahead, h.rest]
    rfl

/-! ## Where a statement is a declaration -/

/-- With holes it would be a combination. -/
theorem isBareDeclaration_of_combine {hs : List Node}
    (h : (n.combine hs).kind.isBareDeclaration = true) : n.kind.isBareDeclaration = true := by
  cases hs with
  | nil => exact h
  | cons g gs => cases h

/-- The other constructs of a file are neither variables nor functions. -/
theorem declaration_of_bare (h : (member below c).1.kind.isBareDeclaration = true) :
    member below c = declaration below c ∧ c.kind ≠ .includeDirective ∧
      c.kind ≠ .keyword .inheritWord ∧ c.kind ≠ .keyword .classWord := by
  have hconstruct {k : TokenKind} (hk : c.kind = k) : member below c = construct below k c :=
    hk ▸ rfl
  have hinclude : c.kind ≠ .includeDirective := fun hk => by
    rw [hconstruct hk] at h
    cases h
  have hinherit : c.kind ≠ .keyword .inheritWord := fun hk => by
    rw [hconstruct hk] at h
    cases isBareDeclaration_of_combine h
  have hclass : c.kind ≠ .keyword .classWord := fun hk => by
    obtain ⟨_, _, _, _, _, _, heq⟩ := @classDefinition_eq below c
    rw [hconstruct hk, construct, heq] at h
    cases isBareDeclaration_of_combine h
  refine ⟨?_, hinclude, hinherit, hclass⟩
  obtain ⟨p, hp, hcase⟩ := member_of_kind below c.kind
  rcases hcase with ⟨hk, -⟩ | ⟨hk, -⟩ | ⟨hk, -⟩ | ⟨hk, -⟩ | rfl
  · exact absurd hk hinclude
  · exact absurd hk hinherit
  · exact absurd hk hclass
  · rw [hconstruct hk] at h
    cases h
  · exact hp c rfl

/-- A declaration starts with a word or with a parenthesis. -/
theorem declaration_refused (hstarts : c.kind.startsDeclaration = false)
    (hparen : c.kind ≠ .sign .leftParen) : declaration below c = refuse .declaration c := by
  have hparen : (c.kind == .sign .leftParen) = false := beq_eq_false_iff_ne.mpr hparen
  refine congrFun (if_pos ?_) c
  show (!c.kind.startsDeclaration && !(c.kind == .sign .leftParen && c.nextKind.isTypeWord)) = true
  rw [hstarts, hparen]
  rfl

/-- At a token of the kind the production reads a declaration without holes as it is read in a
file. -/
def Admits (below : Nested) (kind : TokenKind) (p : Parse Node) : Prop :=
  ∀ c : Cursor, c.kind = kind → (member below c).1.holes = [] →
    (member below c).1.kind.isBareDeclaration = true → p c = member below c

/-- A declaration that starts with a word is one among statements too. -/
theorem statement_admits {kind : TokenKind} (hparen : kind ≠ .sign .leftParen) :
    Admits below kind (statement below) := by
  rintro c rfl hclean hbare
  obtain ⟨hmember, -, -, hclass⟩ := declaration_of_bare hbare
  cases hstarts : c.kind.startsDeclaration with
  | false =>
    rw [hmember, declaration_refused hstarts hparen] at hclean
    exact absurd hclean (holes_refuse _ c)
  | true =>
    have hsame : (statement below).Ensures c fun n c' => (n, c') = declaration below c := by
      refine .kind ?_
      split
      case h_13 hk => exact absurd hk hclass
      case h_14 =>
        rw [if_pos hstarts]
        rfl
      all_goals
        rename_i hk
        rw [hk] at hstarts
        cases hstarts
    exact hsame.trans hmember.symm

/-! ## Braces around the declaration -/

/-- The loop over what stands in braces ends after one turn. -/
theorem manyUntil_single {α : Type} {stops : TokenKind → Bool} {item : Parse α} {a : α}
    (hs : stops c.kind = false) (he : c.atEnd = false) (hi : item c = (a, last))
    (hl : last.left < c.left) (hstop : (stops last.kind || last.atEnd) = true) :
    manyUntil stops item c = ([a], last) := by
  have hdone : manyUntil stops item last = ([], last) := by
    rw [manyUntil, hstop]
    rfl
  rw [manyUntil, hs, he, hi]
  simp [hl, hdone]

/-- In braces there is the declaration and nothing else. -/
theorem Alone.braced {inner outer : Cursor} {p : Parse Node} (h : Alone (.levels k) c n)
    (hclean : n.holes = []) (hbare : n.kind.isBareDeclaration = true)
    (hb : b.kind = .sign .rightBrace) (hinner : c.Follows .stay (some [b]) inner)
    (hc : inner.Leads φ none { outer with depth := outer.depth + 1 })
    (hdepth : outer.depth < maxDepth) (hp : Admits (.levels k) c.kind p) (e : Expected) :
    ∃ last, last.ahead = [b.relocate φ] ∧
      manyUntil (· == .sign .rightBrace) (guarded (nested e p)) outer =
        ([n.relocate φ], last) := by
  obtain ⟨hkind, he, hresult, hrest⟩ := h.moved hclean hb hinner hc
  have hturn : nested e p outer = _ := nested_read e (Nat.not_le.mpr hdepth)
  rw [hp _ hkind (by rw [hresult, Node.holes_relocate, hclean]; rfl)
    (by rw [hresult, Node.kind_relocate, NodeKind.isBareDeclaration_relocate, hbare])] at hturn
  have hnode : (nested e p outer).1 = n.relocate φ := by rw [hturn]; exact hresult
  have hahead : (nested e p outer).2.ahead = [b.relocate φ] := by rw [hturn]; exact hrest
  -- a closing brace starts no declaration
  have hk : outer.kind ≠ .sign .rightBrace := fun hk => by
    have hk : c.kind = .sign .rightBrace := hkind.symm.trans hk
    have hdeclaration := (declaration_of_bare (by rw [h.read]; exact hbare)).1
    rw [← h.read, hdeclaration, declaration_refused (by rw [hk]; rfl) (by simp [hk])] at hclean
    exact absurd hclean (holes_refuse _ c)
  have hleft : (nested e p outer).2.left < outer.left := by
    obtain ⟨ts, hts⟩ := Cursor.ahead_eq_cons h.atEnd
    have houter : outer.ahead = inner.ahead.map (Token.relocate φ) ++ [] := hc.ahead
    rw [Cursor.left_eq, Cursor.left_eq, hahead, houter, hinner.ahead, hts]
    simp
  have hguarded : guarded (nested e p) outer = (n.relocate φ, (nested e p outer).2) :=
    (guarded_of_left (Nat.ne_of_lt hleft)).trans (Prod.ext hnode rfl)
  refine ⟨_, hahead, manyUntil_single (beq_eq_false_iff_ne.mpr hk) he hguarded hleft ?_⟩
  rw [Cursor.kind_eq, Cursor.current_of_ahead hahead]
  simp [hb]

/-- At the brace, the brace is taken. -/
theorem closeBrace_of_ahead {ts : List Token} (h : c.ahead = b :: ts)
    (hb : b.kind = .sign .rightBrace) : closeBrace c = ([], c.skip) :=
  needed_of_kind _ (by rw [Cursor.kind_eq, Cursor.current_of_ahead h, hb])

/-- What nests is known when it is known one level deeper. -/
theorem nested_eq {p : Parse Node} {c' : Cursor} (e : Expected) (hd : c.depth < maxDepth)
    (h : p { c with depth := c.depth + 1 } = (n, { c' with depth := c'.depth + 1 })) :
    nested e p c = (n, c') := by
  rw [nested_read e (Nat.not_le.mpr hd), h]
  rfl

/-! ## What starts with a word of its own -/

theorem modifiers_none (h : c.kind.isModifier = false) : modifiers c = (none, c) := by
  have hwords : manyUntil (!·.isModifier) modifier c = ([], c) := by
    rw [manyUntil, h]
    rfl
  exact Ensures.eq (.here (.bind_eq hwords (.pure rfl)))

/-- What starts with a word of a declaration is one without modifiers. -/
theorem member_declared {below : Nested} {k : TokenKind} {Q : Node → Cursor → Prop}
    (hkind : c.kind = k) (hk : k = .keyword .letWord ∨ ∃ basic, k = .basic basic)
    (hrest : Ensures (if k == .keyword .letWord then letDefinition below c.current.begin none
      else do
        let type ← below.type
        let title ← declaredName
        if ← sees (.sign .leftParen) then functionRest below c.current.begin none type title
        else variableRest below c.current.begin none type title) c Q) :
    (member below).Ensures c Q := by
  -- neither word opens a parenthesis or a modifier, so both look ahead at the declaration itself
  have hdeclared : (declaration below).Ensures c Q := by
    have hparenthesized : seesParenthesizedType c = (_, c) := rfl
    unfold declaration
    refine .here (.kind ?_)
    rw [hkind]
    rcases hk with rfl | ⟨basic, rfl⟩
    all_goals
      refine .bind_eq hparenthesized (.bind_eq (modifiers_none (by rw [hkind]; rfl)) (.sees ?_))
      rw [hkind]
      exact hrest
  unfold member
  refine .kind ?_
  rw [hkind]
  rcases hk with rfl | ⟨basic, rfl⟩
  · exact hdeclared
  · exact hdeclared

/-! ## A class and a function -/

/-- The tokens of `class C` and its opening brace. -/
def classHead : List Token :=
  [⟨0, 5, .keyword .classWord, none⟩, ⟨6, 7, .identifier, some (.text "C")⟩,
    ⟨8, 9, .sign .leftBrace, none⟩]

/-- The tokens of `void f()` and its opening brace. -/
def functionHead : List Token :=
  [⟨0, 4, .basic .void, none⟩, ⟨5, 6, .identifier, some (.text "f")⟩,
    ⟨6, 7, .sign .leftParen, none⟩, ⟨7, 8, .sign .rightParen, none⟩,
    ⟨9, 10, .sign .leftBrace, none⟩]

theorem class_of_head (below : Nested) (ts : List Token) (size : Nat) :
    member below (.start (classHead ++ ts) size) =
      let (ms, c) := manyUntil (· == .sign .rightBrace) (guarded below.member)
        (.past classHead ts size)
      let (closing, c) := closeBrace c
      let c := (eats (.sign .semicolon) c).2
      ((Node.new 0 c.lastStop (.classDef (.mk 6 7 (.name "C")) none ms)).combine closing, c) := rfl

/-- The word `void` before a name is a whole type. -/
theorem type_of_head (below : Nested) (ts : List Token) (size : Nat) :
    below.above.type (.start (functionHead ++ ts) size) =
      (.mk 0 4 (.basicType .void none), (Cursor.start (functionHead ++ ts) size).skip) := by
  let c : Cursor := { Cursor.start (functionHead ++ ts) size with depth := 1 }
  have hsuffixed : suffixedType below c = (.mk 0 4 (.basicType .void none), c.skip) := by
    show chain (typeSuffix below) _ _ = _
    exact chain_stop ⟨rfl, rfl⟩
  exact nested_eq .type (show 0 < maxDepth by decide)
    (Ensures.eq (.bind_eq hsuffixed (chain_stop ⟨rfl, rfl⟩)))

theorem function_of_head (below : Nested) (ts : List Token) (size : Nat) :
    member below.above (.start (functionHead ++ ts) size) =
      let (ms, c) := manyUntil (· == .sign .rightBrace) (guarded below.above.statement)
        (.past functionHead ts size)
      let (closing, c) := closeBrace c
      let body := (Node.new 9 c.lastStop (.block ms)).combine closing
      (.new 0 c.lastStop (.functionDef none (.mk 0 4 (.basicType .void none)) (.mk 5 6 (.name "f"))
        [] false (some body)), c) := by
  have hkind : (Cursor.start (functionHead ++ ts) size).kind = .basic .void := rfl
  refine Ensures.eq (member_declared hkind (.inr ⟨.void, rfl⟩) ?_)
  refine .bind_eq (type_of_head below ts size) ?_
  have hname : declaredName (Cursor.start (functionHead ++ ts) size).skip =
      (.mk 5 6 (.name "f"), (Cursor.start (functionHead ++ ts) size).skip.skip) := rfl
  -- behind the name, the parenthesis makes it a function, which has no parameters
  refine .bind_eq hname (.sees ?_)
  rw [if_pos (beq_iff_eq.mpr (by rfl))]
  unfold functionRest
  refine .advance (.bind_eq (separatedOpen_closed rfl) ?_)
  rfl

/-- A file of one construct. -/
theorem members_single (hread : member (.levels maxDepth) c = (n, last)) (hkind : c.kind ≠ .eof)
    (hlast : last.ahead = []) : (members .eof c).1 = [n] := by
  have he := Cursor.atEnd_of_kind hkind
  have hleft : last.left < c.left := by
    obtain ⟨us, hus⟩ := Cursor.ahead_eq_cons he
    rw [Cursor.left_eq, Cursor.left_eq, hlast, hus]
    exact Nat.succ_pos _
  have hguarded : guarded (member (.levels maxDepth)) c = (n, last) :=
    (guarded_of_left (by rw [hread]; exact Nat.ne_of_lt hleft)).trans hread
  have hrun : members .eof c = ([n], last) :=
    manyUntil_single (beq_eq_false_iff_ne.mpr hkind) he hguarded hleft
      (by simp [Cursor.atEnd, hlast])
  rw [hrun]

/-- A class with one member, which is read up to the brace that closes the class. -/
theorem members_class {ts : List Token} {size : Nat}
    (hrun : manyUntil (· == .sign .rightBrace) (guarded (Nested.levels maxDepth).member)
      (.past classHead ts size) = ([n], last))
    (hlast : last.ahead = [b]) (hb : b.kind = .sign .rightBrace) :
    (members .eof (.start (classHead ++ ts) size)).1 =
      [.new 0 b.stop (.classDef (.mk 6 7 (.name "C")) none [n])] := by
  obtain ⟨hahead, htaken, -⟩ := Cursor.skip_of_ahead hlast
  have hstop : last.skip.lastStop = b.stop := by simp [Cursor.lastStop, htaken]
  have hkind : last.skip.kind = .eof := Cursor.kind_of_atEnd (by simp [Cursor.atEnd, hahead])
  refine members_single ?_ nofun hahead
  rw [class_of_head, hrun]
  dsimp only
  rw [closeBrace_of_ahead hlast hb]
  dsimp only
  rw [Ensures.eats_of_ne (by simp [hkind]), hstop]
  rfl

/-- A function with one statement, which is read up to the brace that closes the function. -/
theorem members_function {ts : List Token} {size : Nat}
    (hrun : manyUntil (· == .sign .rightBrace) (guarded (Nested.levels maxDepth).statement)
      (.past functionHead ts size) = ([n], last))
    (hlast : last.ahead = [b]) (hb : b.kind = .sign .rightBrace) :
    (members .eof (.start (functionHead ++ ts) size)).1 =
      [.new 0 b.stop (.functionDef none (.mk 0 4 (.basicType .void none)) (.mk 5 6 (.name "f")) []
        false (some (.new 9 b.stop (.block [n]))))] := by
  obtain ⟨hahead, htaken, -⟩ := Cursor.skip_of_ahead hlast
  have hstop : last.skip.lastStop = b.stop := by simp [Cursor.lastStop, htaken]
  refine members_single ?_ nofun hahead
  have hhead := function_of_head (.levels (maxDepth - 1)) ts size
  rw [show (Nested.levels (maxDepth - 1)).above = .levels maxDepth from rfl, hrun] at hhead
  dsimp only at hhead
  rw [hhead, closeBrace_of_ahead hlast hb]
  dsimp only
  rw [hstop]
  rfl

end Parse

end MudEdit
