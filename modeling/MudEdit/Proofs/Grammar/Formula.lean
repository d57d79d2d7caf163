import MudEdit.Proofs.Node.Formula
import MudEdit.Proofs.Ty.Declaration

/-!
# Reading a formula

Operators are read down to a priority: the left operand has been read when an operator is found,
and the right one goes on with tighter operators only. So the tokens of an ordered formula are
read as the formula, provided that it ends before what is behind it: an operator there binds no
tighter than those of the formula. What reads operands goes on for as long as there are operators,
so, as for types, what a formula is read as is said together with how reading goes on.
-/

namespace MudEdit

open Parse (Ensures chain)

variable {c c' : Cursor} {d k p loosest : Nat} {text : String} {n m : Node} {op : BinaryOp}
  {f lhs rhs : Formula} {more : List (TokenKind × Option Payload)} {mode : Mode}

/-! ## The tokens of a formula -/

/-- The sign of an operator. -/
def BinaryOp.sign : BinaryOp → Sign
  | assign => .assign
  | addAssign => .addAssign
  | subAssign => .subAssign
  | mulAssign => .mulAssign
  | divAssign => .divAssign
  | modAssign => .modAssign
  | andAssign => .andAssign
  | orAssign => .orAssign
  | xorAssign => .xorAssign
  | shiftLeftAssign => .shiftLeftAssign
  | shiftRightAssign => .shiftRightAssign
  | logicalOr => .logicalOr
  | logicalAnd => .logicalAnd
  | bitOr => .pipe
  | bitXor => .caret
  | bitAnd => .ampersand
  | equal => .equal
  | notEqual => .notEqual
  | less => .less
  | greater => .greater
  | lessEqual => .lessEqual
  | greaterEqual => .greaterEqual
  | shiftLeft => .shiftLeft
  | shiftRight => .shiftRight
  | add => .plus
  | sub => .minus
  | mul => .star
  | div => .slash
  | mod => .percent

theorem BinaryOp.text_sign (op : BinaryOp) : op.sign.text = op.text := by cases op <;> rfl

theorem BinaryOp.ofSign?_sign (op : BinaryOp) : ofSign? op.sign = some op := by cases op <;> rfl

/-- The tokens of a formula are those of its operands, with the operator between them. -/
def Formula.spelling : Formula → List (TokenKind × Option Payload)
  | name text => [(.identifier, some (.text text))]
  | binary op lhs rhs => lhs.spelling ++ (.sign op.sign, none) :: rhs.spelling

/-- The tokens of a name and then of operators with the names behind them. -/
def Formula.tokens (text : String) (items : List (BinaryOp × String)) :
    List (TokenKind × Option Payload) :=
  (.identifier, some (.text text)) :: items.flatMap fun x =>
    [(.sign x.1.sign, none), (.identifier, some (.text x.2))]

theorem Formula.spelling_eq (f : Formula) : f.spelling = tokens f.first f.rest := by
  induction f with
  | name => rfl
  | binary op lhs rhs ihl ihr =>
    rw [spelling, first, rest, ihl, ihr, tokens, tokens, tokens, List.flatMap_append,
      List.flatMap_cons]
    rfl

/-! ## Nodes that spell a formula -/

/-- The node spells the formula, and has no holes. -/
structure Node.Spells (n : Node) (f : Formula) : Prop where
  formula : n.formula? = some f
  clean : n.holes = []
  height : n.height ≤ f.rest.length + 1

theorem Node.Spells.name {t : Token} (h : t.text = text) :
    (Parse.nameNode t).Spells (.name text) where
  formula := by rw [← h]; rfl
  clean := Node.holes_eq_nil.mpr ⟨rfl, List.forall_mem_nil _⟩
  height := Nat.le_of_eq (Node.height_new_leaf rfl)

theorem Node.Spells.operation (h : n.Spells lhs) (h' : m.Spells rhs) (op : BinaryOp) :
    (Parse.operation op n m).Spells (.binary op lhs rhs) where
  formula := by
    show (do return Formula.binary op (← n.formula?) (← m.formula?)) = _
    rw [h.formula, h'.formula]
    rfl
  clean := Node.holes_eq_nil.mpr ⟨rfl, List.forall_mem_cons.mpr
    ⟨h.clean, List.forall_mem_singleton.mpr h'.clean⟩⟩
  height := by
    have hl := h.height
    have hr := h'.height
    refine Node.height_new_le (Node.low_cons.mpr ⟨?_, Node.low_cons.mpr ⟨?_, Node.low_nil⟩⟩) <;>
      simp only [Formula.rest, List.length_append, List.length_cons] <;> omega

/-! ## What may be behind a formula -/

theorem Parse.ranked?_sign (hp : op.priority? = some p) :
    ranked? (.sign op.sign) = some (op, p) := by
  simp [ranked?, BinaryOp.ofToken?, BinaryOp.ofSign?_sign, hp]

/-- The signs that an operand may go on with. -/
def operandSigns : List Sign :=
  [.scope, .leftParen, .leftBracket, .arrow, .dot, .increment, .decrement]

/-- Behind the formula is a sign that its last operand does not go on with, and if that is an
operator, it binds no tighter than those of the formula. -/
def Formula.Ends (f : Formula) (more : List (TokenKind × Option Payload)) : Prop :=
  ∃ s after, more = (.sign s, none) :: after ∧ s ∉ operandSigns ∧
    ∀ op p, Parse.ranked? (.sign s) = some (op, p) → f.Among (· ≤ p)

theorem Formula.Ends.lacks {signs : List Sign} (h : f.Ends more) (hs : signs ⊆ operandSigns) :
    Lacks signs more := by
  obtain ⟨s, after, rfl, hnot, -⟩ := h
  refine .cons (fun s' hs' heq => hnot ?_) after
  rw [TokenKind.sign.inj heq]
  exact hs hs'

theorem Formula.ends_semicolon (f : Formula) (after : List (TokenKind × Option Payload)) :
    f.Ends ((.sign .semicolon, none) :: after) :=
  ⟨.semicolon, after, rfl, by decide, nofun⟩

/-- What is behind an operator's left operand is the operator. -/
theorem Formula.ends_operator (hp : op.priority? = some p) (h : f.Among (· ≤ p))
    (after : List (TokenKind × Option Payload)) : f.Ends ((.sign op.sign, none) :: after) := by
  refine ⟨op.sign, after, rfl, by cases op <;> decide, fun op' q hq => ?_⟩
  obtain ⟨rfl, rfl⟩ := Prod.mk.inj (Option.some.inj (hq.symm.trans (Parse.ranked?_sign hp)))
  exact h

/-- The next token is no operator that binds so tightly. -/
def Looser (loosest : Nat) (more : List (TokenKind × Option Payload)) : Prop :=
  ∀ x ∈ more.head?, ∀ op p, Parse.ranked? x.1 = some (op, p) → loosest < p

theorem looser_semicolon (loosest : Nat) (after : List (TokenKind × Option Payload)) :
    Looser loosest ((.sign .semicolon, none) :: after) := by
  rintro _ ⟨⟩
  nofun

namespace Formula.Ends

theorem right (h : (binary op lhs rhs).Ends more) : rhs.Ends more := by
  obtain ⟨s, after, hmore, hs, hranked⟩ := h
  exact ⟨s, after, hmore, hs, fun op' q hq => (among_binary.mp (hranked op' q hq)).2.2⟩

/-- What is behind an operation binds no tighter than its operator. -/
theorem looser (h : (binary op lhs rhs).Ends more) (hp : op.priority? = some p)
    (hlt : loosest < p) : Looser loosest more := by
  obtain ⟨s, after, rfl, -, hranked⟩ := h
  rintro _ ⟨⟩ op' q hq
  obtain ⟨-, ⟨r, hr, hle⟩, -⟩ := among_binary.mp (hranked op' q hq)
  obtain rfl : r = p := Option.some.inj (hr.symm.trans hp)
  exact Nat.lt_of_lt_of_le hlt hle

end Formula.Ends

/-! ## Operands -/

namespace Parse

variable {below : Nested}

theorem suffix_stop (hc : c.At d more) (hmore : Lacks operandSigns more) :
    (suffix below n).Ensures c fun o c' => o = none ∧ c' = c := by
  unfold suffix
  split
  · exact .pure ⟨rfl, rfl⟩
  · have hne (s : Sign) (hs : s ∈ operandSigns) := hc.kind_ne hmore hs
    refine .kind ?_
    split
    all_goals first
      | exact .pure ⟨rfl, rfl⟩
      | rename_i h
        exact absurd h (hne _ (by decide))

/-- A name is an operand, if nothing is behind it that it goes on with. -/
theorem unary_name (hc : c.At d ((.identifier, some (.text text)) :: more))
    (hmore : Lacks operandSigns more) :
    (unary below).Ensures c fun n c' => n = nameNode c.current ∧ c' = c.skip := by
  have hkind : c.kind = .identifier := hc.kind
  -- no sign that continues an operand follows the name, so neither loop turns
  have hscope : (scopeSuffix (nameNode c.current)).Ensures c.skip
      fun o c' => o = none ∧ c' = c.skip := by
    unfold scopeSuffix
    refine .sees ?_
    rw [beq_eq_false_iff_ne.mpr (hc.skip.kind_ne hmore (by decide)), Bool.and_false]
    exact .pure ⟨rfl, rfl⟩
  have hprimary : primary below c = (nameNode c.current, c.skip) := by
    refine Ensures.eq ?_
    unfold primary
    refine .kind ?_
    rw [hkind]
    refine .eat? (fun _ => ?_) fun h => absurd hkind h
    exact chain_stop hscope
  have hparenthesized : seesParenthesizedType c = (_, c) := rfl
  unfold unary
  refine .kind ?_
  rw [hkind]
  refine .bind_eq hparenthesized ?_
  rw [hkind, if_neg (by simp)]
  refine .bind_eq hprimary ?_
  unfold Ensures
  rw [chain_stop (suffix_stop hc.skip hmore)]
  exact ⟨rfl, rfl⟩

end Parse

/-! ## Operators -/

/-- The formula has been read as the node, up to what is ahead now. -/
structure Cursor.ReadFormula (c : Cursor) (f : Formula) (d : Nat)
    (more : List (TokenKind × Option Payload)) (n : Node) (c' : Cursor) : Prop where
  spells : n.Spells f
  ahead : c'.At d more
  left_lt : c'.left < c.left

theorem Cursor.ReadFormula.shallower
    (h : Cursor.ReadFormula { c with depth := c.depth + 1 } f (d + 1) more n c') :
    c.ReadFormula f d more n { c' with depth := c'.depth - 1 } :=
  ⟨h.spells, ⟨congrArg (· - 1) h.ahead.depth, h.ahead.contents⟩, h.left_lt⟩

namespace Parse

variable {below : Nested}

theorem operatorSuffix_stop (h : ∀ op p, ranked? c.kind = some (op, p) → loosest < p) :
    (operatorSuffix below loosest n).Ensures c fun o c' => o = none ∧ c' = c := by
  unfold operatorSuffix
  refine .kind ?_
  split
  · rename_i op p hranked
    rw [decide_eq_false (Nat.not_le_of_gt (h op p hranked)), Bool.false_and]
    exact .pure ⟨rfl, rfl⟩
  · exact .pure ⟨rfl, rfl⟩

/-- An operator that binds no looser takes the right operand, as long as the left one grows. -/
theorem operatorSuffix_operation {Q : Option Node → Cursor → Prop} (hkind : c.kind = .sign op.sign)
    (hp : op.priority? = some p) (hle : p ≤ loosest) (hgrow : n.canGrow = true)
    (h : (below.operand (p - 1)).Ensures c.skip fun m c' => Q (some (operation op n m)) c') :
    (operatorSuffix below loosest n).Ensures c Q := by
  unfold operatorSuffix
  refine .kind ?_
  rw [hkind, ranked?_sign hp]
  dsimp only
  rw [decide_eq_true hle, hgrow]
  exact .advance (h.bind fun m c' hm => .pure hm)

end Parse

namespace Formula

/-- Read as operands with operators, the formula goes on to further operators. -/
def Reads (f : Formula) : Prop := ∀ ⦃k d loosest : Nat⦄ ⦃c : Cursor⦄
  ⦃more : List (TokenKind × Option Payload)⦄, f.Among (· ≤ loosest) → loosest < k →
    d + k ≤ maxDepth → f.Ends more → c.At d (f.spelling ++ more) →
      ∃ n c', c.ReadFormula f d more n c' ∧ Parse.operand (.levels k) loosest c =
        chain (Parse.operatorSuffix (.levels k) loosest) n c'

/-- The formula is read to its end if no operator behind it binds so tightly. -/
theorem Reads.stop (h : f.Reads) (hamong : f.Among (· ≤ loosest)) (hk : loosest < k)
    (hd : d + k ≤ maxDepth) (hends : f.Ends more) (hlooser : Looser loosest more)
    (hc : c.At d (f.spelling ++ more)) :
    (Parse.operand (.levels k) loosest).Ensures c (c.ReadFormula f d more) := by
  obtain ⟨n, c', hread, hchain⟩ := h hamong hk hd hends hc
  obtain ⟨s, after, rfl, -⟩ := hends
  have hstop : (Parse.operatorSuffix (.levels k) loosest n).Ensures c'
      fun o c'' => o = none ∧ c'' = c' :=
    Parse.operatorSuffix_stop (hread.ahead.kind.symm ▸ hlooser _ rfl)
  unfold Ensures
  rw [hchain, Parse.chain_stop hstop]
  exact hread

/-- The same one level deeper. -/
theorem Reads.nested (h : f.Reads) (hamong : f.Among (· ≤ loosest)) (hk : loosest < k)
    (hd : d + k < maxDepth) (hends : f.Ends more) (hlooser : Looser loosest more)
    (hc : c.At d (f.spelling ++ more)) :
    ((Nested.levels (k + 1)).operand loosest).Ensures c (c.ReadFormula f d more) := by
  refine .deeper _ (by omega) hc fun hc' => ?_
  exact (h.stop hamong hk (by omega) hends hlooser hc').mono fun n c' hn => hn.shallower

/-- A name is read as itself where nothing that follows continues it. -/
theorem reads_name (text : String) : (name text).Reads := by
  intro k d loosest c more _ hk hd hends hc
  obtain ⟨k, rfl⟩ := Nat.exists_eq_add_one.mpr (Nat.zero_lt_of_lt hk)
  have hunary : (Nested.levels (k + 1)).unary.Ensures c (c.ReadFormula (name text) d more) := by
    refine .deeper _ (by omega) hc fun hc' => ?_
    refine (Parse.unary_name hc' (hends.lacks (List.Subset.refl _))).mono ?_
    rintro _ _ ⟨rfl, rfl⟩
    exact Cursor.ReadFormula.shallower ⟨.name (hc'.text rfl), hc'.skip, hc'.left_skip⟩
  have htest : (Parse.typeTest (.levels (k + 1))).Ensures c (c.ReadFormula (name text) d more) := by
    unfold Parse.typeTest
    refine hunary.bind fun n c' hread => ?_
    have hstop : (Parse.typeTestSuffix (.levels (k + 1)) n).Ensures c'
        fun o c'' => o = none ∧ c'' = c' := by
      obtain ⟨s, after, rfl, -⟩ := hends
      unfold Parse.typeTestSuffix
      split
      · exact .pure ⟨rfl, rfl⟩
      · exact .eats (fun h => absurd (hread.ahead.kind.symm.trans h) (by simp)) fun _ =>
          .pure ⟨rfl, rfl⟩
    unfold Ensures
    rw [Parse.chain_stop hstop]
    exact hread
  exact ⟨_, _, htest, rfl⟩

/-- An operator is read behind its left operand, and its right one ends where tighter operators
do. -/
theorem reads_binary (hp : op.priority? = some p) (hlhs : lhs.Reads) (hrhs : rhs.Reads)
    (hleft : lhs.Among (· ≤ p)) (hright : rhs.Among (· < p))
    (hgrow : lhs.rest.length + 1 < maxHeight) : (binary op lhs rhs).Reads := by
  intro k d loosest c more hamong hk hd hends hc
  obtain ⟨hleft', ⟨p', hp', hle⟩, -⟩ := among_binary.mp hamong
  obtain rfl : p' = p := Option.some.inj (hp'.symm.trans hp)
  have hpos := (BinaryOp.priority_bounds hp).1
  rw [spelling, List.append_assoc, List.cons_append] at hc
  obtain ⟨n, c₁, hread, hchain⟩ := hlhs hleft' hk hd (ends_operator hp hleft _) hc
  -- the right operand is read one level deeper, with tighter operators only
  obtain ⟨k, rfl⟩ := Nat.exists_eq_add_one.mpr (Nat.zero_lt_of_lt hk)
  have htighter : rhs.Among (· ≤ p' - 1) := hright.mono fun q hq => Nat.le_sub_one_of_lt hq
  have hlevel : p' - 1 < k := by omega
  have hoperand := hrhs.nested htighter hlevel hd hends.right (hends.looser hp (by omega))
    hread.ahead.skip
  have hn := hread.spells.height
  have hgrows : n.canGrow = true := decide_eq_true (show n.height < maxHeight by omega)
  have hsuffix : (Parse.operatorSuffix (.levels (k + 1)) loosest n).Ensures c₁ fun o c' =>
      ∃ m, o = some m ∧ c₁.ReadFormula (binary op lhs rhs) d more m c' ∧ c'.left < c₁.left := by
    refine Parse.operatorSuffix_operation hread.ahead.kind hp hle hgrows ?_
    refine hoperand.mono fun m c' hm => ?_
    have hlt := Nat.lt_trans hm.left_lt hread.ahead.left_skip
    exact ⟨_, rfl, ⟨hread.spells.operation hm.spells op, hm.ahead, hlt⟩, hlt⟩
  obtain ⟨m, c', hm, hlt, hgrown⟩ := Parse.chain_grow hsuffix
  exact ⟨m, c', ⟨hm.spells, hm.ahead, Nat.lt_trans hlt hread.left_lt⟩, hchain.trans hgrown⟩

/-- **An ordered formula is read from its tokens**, as long as height allows its operators. -/
theorem Ordered.reads (h : f.Ordered) (hlength : f.rest.length < maxHeight) : f.Reads := by
  induction h with
  | name text => exact reads_name text
  | binary hp _ _ hleft hright ihl ihr =>
    simp only [rest, List.length_append, List.length_cons] at hlength
    exact reads_binary hp (ihl (by omega)) (ihr (by omega)) hleft hright (by omega)

end Formula

/-! ## A variable with a formula -/

namespace Parse

variable {below : Nested} {b : BasicKind} {after : List (TokenKind × Option Payload)}

/-- Up to a semicolon, what is no assignment is the formula. -/
theorem alternative_formula (hordered : f.Ordered) (hlength : f.rest.length < maxHeight)
    (hk : BinaryOp.loosest < k) (hd : d + k ≤ maxDepth)
    (hc : c.At d (f.spelling ++ (.sign .semicolon, none) :: after)) :
    (alternative (.levels k)).Ensures c
      (c.ReadFormula f d ((.sign .semicolon, none) :: after)) := by
  have hoperand := (hordered.reads hlength).stop hordered.among hk hd
    (f.ends_semicolon after) (looser_semicolon _ after) hc
  unfold alternative
  refine hoperand.bind fun n c' hn => .eats (fun h => ?_) fun _ => .pure hn
  exact absurd (hn.ahead.kind.symm.trans h) (by simp)

theorem expression_formula (hordered : f.Ordered) (hlength : f.rest.length < maxHeight)
    (hk : BinaryOp.loosest < k) (hd : d + k < maxDepth)
    (hc : c.At d (f.spelling ++ (.sign .semicolon, none) :: after)) :
    (Nested.levels (k + 1)).expression.Ensures c
      (c.ReadFormula f d ((.sign .semicolon, none) :: after)) := by
  -- one level of nesting is spent on the expression itself
  refine .deeper _ (by omega) hc fun hc' => ?_
  unfold expression
  refine (alternative_formula hordered hlength hk (by omega) hc').bind fun n c' hn => .kind ?_
  rw [hn.ahead.kind]
  exact .pure hn.shallower

/-- A variable with a basic type and a value is what is read behind the type and the name. -/
theorem member_value {P Q : Node → Cursor → Prop}
    (hc : c.At d ((.basic b, none) :: (.identifier, some (.text text)) ::
      (.sign .assign, none) :: after))
    (htype : below.type.Ensures c P)
    (hahead : ∀ n c', P n c' →
      c'.At d ((.identifier, some (.text text)) :: (.sign .assign, none) :: after))
    (hrest : ∀ n c', P n c' →
      (variableRest below c.current.begin none n (nameNode c'.current)).Ensures c'.skip Q) :
    (member below).Ensures c Q := by
  have hkind : c.kind = .basic b := hc.kind
  refine member_declared hkind (.inr ⟨b, rfl⟩) ?_
  rw [if_neg (by simp)]
  refine htype.bind fun n c' hn => ?_
  have hc' := hahead n c' hn
  -- behind the type the name is read, and the sign behind that decides for a variable
  have hname : declaredName c' = (nameNode c'.current, c'.skip) := by
    refine Ensures.eq ?_
    refine .eat? (fun h => absurd (hc'.kind.symm.trans h) (by simp)) fun _ => ?_
    exact .eat? (fun _ => .pure rfl) fun h => absurd hc'.kind h
  refine .bind_eq hname (.sees ?_)
  rw [if_neg (by simp [hc'.skip.kind])]
  exact hrest n c' hn

/-- The value of a variable, and the semicolon behind it. -/
theorem variableRest_value {P : Node → Prop} {begin : Nat} {mods : Option Node} {n title : Node}
    (hc : c.At d ((.sign .assign, none) :: after))
    (hvalue : below.expression.Ensures c.skip fun m c' =>
      P m ∧ c'.At d ((.sign .semicolon, none) :: more)) :
    (variableRest below begin mods n title).Ensures c fun m c' =>
      (∃ stop value, m = .new begin stop (.variableDef mods (some n) title (some value)) ∧
        P value) ∧ c'.At d more := by
  unfold variableRest initialValue
  refine Ensures.bind (P := fun o c' => ∃ m, o = some m ∧ P m ∧
    c'.At d ((.sign .semicolon, none) :: more)) (.eats (fun _ => ?_) fun h => absurd hc.kind h) ?_
  · exact hvalue.bind fun m c' hm => .pure ⟨m, rfl, hm⟩
  · rintro _ c' ⟨m, rfl, hm, hc'⟩
    refine .bind_eq (needed_of_kind _ hc'.kind) (.lastStop (.pure ?_))
    exact ⟨⟨_, m, rfl, hm⟩, hc'.skip⟩

end Parse

/-! ## The text of a formula -/

/-- A token that is written out, with a space behind it. -/
theorem Spelled.spaced {cs rest : List Char} {kind : TokenKind} {payload : Option Payload}
    {items : List (TokenKind × Option Payload)} (h : Stands cs kind payload) (hkind : kind ≠ .eof)
    (hrest : Spelled rest items) : Spelled (cs ++ ' ' :: rest) ((kind, payload) :: items) :=
  .token h.start (h.before rest) rfl h.comment hkind (.blank (by decide) hrest)

namespace Formula

variable {items : List (BinaryOp × String)}

/-- A name and then operators with the names behind them, as they are written. -/
def words (text : String) (items : List (BinaryOp × String)) : List String :=
  text :: items.flatMap fun x => [x.1.text, x.2]

theorem spelled_words {rest : List Char} (htext : IsName text) (hitems : ∀ x ∈ items, IsName x.2)
    (hrest : ∀ c ∈ rest.head?, isWordChar c = false) (h : Spelled rest more) :
    Spelled ([' '].intercalate ((words text items).map String.toList) ++ rest)
      (tokens text items ++ more) := by
  induction items generalizing text with
  | nil =>
    rw [words, List.flatMap_nil, List.map_singleton, List.intercalate_singleton]
    exact .name htext hrest h
  | cons x items ih =>
    obtain ⟨hx, hitems⟩ := List.forall_mem_cons.mp hitems
    have hop : Stands x.1.text.toList (.sign x.1.sign) none :=
      stands_sign (congrArg some x.1.text_sign)
    have hspelled := Spelled.spaced (stands_name htext) TokenKind.noConfusion
      (.spaced hop TokenKind.noConfusion (ih hx hitems))
    simpa [words, tokens] using hspelled

/-- The tokens of a declaration with the formula as a value. -/
theorem significant_formula (htext : IsName text) (hitems : ∀ x ∈ items, IsName x.2)
    (mode : Mode) :
    (significant mode ("int v = " ++ " ".intercalate (words text items) ++ ";")).map
        (fun t => (t.kind, t.payload)) =
      (.basic .int, none) :: (.identifier, some (.text "v")) :: (.sign .assign, none) ::
        (tokens text items ++ [(.sign .semicolon, none)]) := by
  have hv : IsName "v" := ⟨⟨'v', [], rfl, by decide, by simp⟩, by decide⟩
  have hint : (TokenKind.basic .int).wordText? = some "int" := by decide
  have hassign : Stands "=".toList (.sign .assign) none := stands_sign rfl
  have hsemicolon : Spelled [';'] [(.sign .semicolon, none)] :=
    .sign_whole .semicolon (by decide) (by decide) (by decide) .nil
  have hwords := spelled_words htext hitems (by rintro c ⟨⟩; decide) hsemicolon
  have hall := Spelled.spaced (stands_word hint) TokenKind.noConfusion
    (.spaced (stands_name hv) TokenKind.noConfusion
      (.spaced hassign TokenKind.noConfusion hwords))
  refine Spelled.significant_eq ?_ mode
  simpa using hall

/-- An ordered formula is read as the value of the variable. -/
theorem Ordered.declared (h : f.Ordered) (hlength : f.rest.length < maxHeight)
    (hfirst : IsName f.first) (hrest : ∀ x ∈ f.rest, IsName x.2) (mode : Mode) :
    ∃ begin stop type title value,
      (Forest.parse mode ("int v = " ++ " ".intercalate (words f.first f.rest) ++ ";")).nodes =
        [.mk begin stop (.variableDef none (some type) title (some value))] ∧
      type.Denotes (.plain .int) ∧ title.kind = .name "v" ∧ title.holes = [] ∧ value.Spells f := by
  rw [parse_nodes]
  have hc : (Reading.start mode ("int v = " ++ " ".intercalate (words f.first f.rest) ++
      ";")).cursor.At 0 _ := ⟨rfl, significant_formula hfirst hrest mode⟩
  generalize (Reading.start mode _).cursor = c at hc ⊢
  rw [← spelling_eq] at hc
  have hkind : c.kind = .basic .int := hc.kind
  have hint : (Ty.plain .int).ReadsNested := (Ty.readsSuffixed_basic rfl).chosen.nested
  have htype := hint (k := maxDepth) (by decide) (Nat.le_of_eq (Nat.zero_add _))
    (.cons (by simp [Ty.onward]) _) hc
  -- the declaration is the one member of the text: type, name, then the formula as its value
  have hmember : (Parse.member (.levels maxDepth)).Ensures c fun m c' =>
      (∃ stop n title value, m = .new c.current.begin stop
        (.variableDef none (some n) title (some value)) ∧ n.Denotes (.plain .int) ∧
          title.kind = .name "v" ∧ title.holes = [] ∧ value.Spells f) ∧ c'.At 0 [] := by
    refine Parse.member_value hc htype (fun n c' hn => hn.ahead) fun n c₁ hn => ?_
    have hvalue := Parse.expression_formula (k := maxDepth - 1) h hlength (by decide) (by decide)
      hn.ahead.skip.skip
    refine (Parse.variableRest_value hn.ahead.skip
      (hvalue.mono fun m c' hm => ⟨hm.spells, hm.ahead⟩)).mono ?_
    rintro _ c₂ ⟨⟨stop, value, rfl, hvalue⟩, hend⟩
    refine ⟨⟨stop, n, _, value, rfl, hn.denotes, congrArg NodeKind.name (hn.ahead.text rfl), ?_,
      hvalue⟩, hend⟩
    exact Node.holes_eq_nil.mpr ⟨rfl, List.forall_mem_nil _⟩
  obtain ⟨⟨stop, n, title, value, hm, hn, htitle, hclean, hvalue⟩, hend⟩ := hmember
  refine ⟨_, _, n, title, value, Parse.members_single (Prod.ext hm rfl) (by rw [hkind]; simp) ?_,
    hn, htitle, hclean, hvalue⟩
  simpa using hend.contents

/-- **Operators bind by their priorities, and equal ones group to the left.** Whatever operators
are between the names, the value is the one ordered formula of them, as long as height allows. -/
theorem parse_ordered (mode : Mode) (text : String) (items : List (BinaryOp × String))
    (htext : IsName text) (hitems : ∀ x ∈ items, x.1.isAssignment = false ∧ IsName x.2)
    (hlength : items.length < maxHeight) :
    let parsed := Forest.parse mode ("int v = " ++ " ".intercalate (words text items) ++ ";")
    parsed.holes = [] ∧ ∃ begin stop type title value, parsed.nodes =
      [.mk begin stop (.variableDef none (some type) title (some value))] ∧
        Ty.ofNode type = .plain .int ∧ title.kind = .name "v" ∧
          ∃ f, value.formula? = some f ∧ f.first = text ∧ f.rest = items ∧ f.Ordered ∧
            ∀ g : Formula, g.first = text → g.rest = items → g.Ordered → g = f := by
  obtain ⟨f, rfl, rfl, hordered⟩ := exists_ordered text fun x hx => (hitems x hx).1
  have hnames := fun x hx => (hitems x hx).2
  obtain ⟨begin, stop, type, title, value, hnodes, htype, htitle, hclean, hvalue⟩ :=
    hordered.declared hlength htext hnames mode
  refine ⟨?_, _, _, type, title, value, hnodes, htype.type, htitle, f, hvalue.formula, rfl, rfl,
    hordered, fun g hfirst hrest hg => ?_⟩
  · rw [Forest.holes, hnodes]
    refine List.flatMap_eq_nil_iff.mpr (List.forall_mem_singleton.mpr ?_)
    refine Node.holes_eq_nil.mpr ⟨rfl, List.forall_mem_cons.mpr ⟨htype.clean,
      List.forall_mem_cons.mpr ⟨hclean, List.forall_mem_singleton.mpr hvalue.clean⟩⟩⟩
  · -- another one is read from the same text
    rw [← hfirst, ← hrest] at hnodes
    obtain ⟨_, _, _, _, value', hnodes', -, -, -, hvalue'⟩ :=
      hg.declared (hrest ▸ hlength) (hfirst ▸ htext) (hrest ▸ hnames) mode
    have hsame := hnodes.symm.trans hnodes'
    simp only [List.cons.injEq, Node.mk.injEq, NodeKind.variableDef.injEq, Option.some.injEq]
      at hsame
    rw [← hsame.1.2.2.2.2.2] at hvalue'
    exact Option.some.inj (hvalue'.formula.symm.trans hvalue.formula)

/-- Two operators of one priority, with a tighter one between them. -/
theorem parse_ordered_difference :
    let items := [(.sub, "b"), (.mul, "c"), (.add, "d")]
    (IsName "a" ∧ (∀ x ∈ items, x.1.isAssignment = false ∧ IsName x.2) ∧
      items.length < maxHeight) ∧
      let parsed := Forest.parse .editor ("int v = " ++ " ".intercalate (words "a" items) ++ ";")
      parsed.holes = [] ∧ ∃ begin stop type title value, parsed.nodes =
        [.mk begin stop (.variableDef none (some type) title (some value))] ∧
          Ty.ofNode type = .plain .int ∧ title.kind = .name "v" ∧
            ∃ f, value.formula? = some f ∧ f.first = "a" ∧ f.rest = items ∧ f.Ordered ∧
              ∀ g : Formula, g.first = "a" → g.rest = items → g.Ordered → g = f := by
  have ha : IsName "a" := ⟨⟨'a', [], rfl, by decide, by simp⟩, by decide⟩
  have hb : IsName "b" := ⟨⟨'b', [], rfl, by decide, by simp⟩, by decide⟩
  have hc : IsName "c" := ⟨⟨'c', [], rfl, by decide, by simp⟩, by decide⟩
  have hd : IsName "d" := ⟨⟨'d', [], rfl, by decide, by simp⟩, by decide⟩
  have hitems : ∀ x ∈ [(BinaryOp.sub, "b"), (.mul, "c"), (.add, "d")],
      x.1.isAssignment = false ∧ IsName x.2 :=
    List.forall_mem_cons.mpr ⟨⟨rfl, hb⟩, List.forall_mem_cons.mpr ⟨⟨rfl, hc⟩,
      List.forall_mem_singleton.mpr ⟨rfl, hd⟩⟩⟩
  exact ⟨⟨ha, hitems, by decide⟩, parse_ordered .editor "a" _ ha hitems (by decide)⟩

end Formula

end MudEdit
