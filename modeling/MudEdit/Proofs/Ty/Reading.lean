import Mathlib.Data.List.Forall2
import MudEdit.Proofs.Grammar.Enclosed
import MudEdit.Proofs.Node.Height
import MudEdit.Proofs.Ty.Spelling

/-!
# Reading a type from its tokens

What reads a type goes on for as long as the type may grow. So what the tokens of a type are
read as is said together with how reading goes on: from the type's node, at the tokens behind it.
-/

namespace MudEdit

variable {c c' : Cursor} {d k : Nat} {x y : TokenKind × Option Payload}
  {more : List (TokenKind × Option Payload)} {n : Node} {ns : List Node}

/-! ## What is ahead of a cursor -/

/-- The cursor is at that depth, and the tokens ahead of it are these. -/
structure Cursor.At (c : Cursor) (d : Nat) (ahead : List (TokenKind × Option Payload)) : Prop where
  depth : c.depth = d
  contents : c.ahead.map (fun t => (t.kind, t.payload)) = ahead

namespace Cursor.At

theorem cons (h : c.At d (x :: more)) : c.current.kind = x.1 ∧ c.current.payload = x.2 ∧
    c.skip.At d more ∧ c.skip.left < c.left := by
  cases ha : c.ahead with
  | nil => exact absurd h.contents (by simp [ha])
  | cons t ts =>
    have hcontents := h.contents
    rw [ha, List.map_cons] at hcontents
    obtain ⟨rfl, hts⟩ := List.cons.inj hcontents
    obtain ⟨hahead, -, -, hdepth⟩ := skip_of_ahead ha
    rw [current_of_ahead ha]
    exact ⟨rfl, rfl, ⟨hdepth.trans h.depth, by rw [hahead, hts]⟩, left_skip (by simp [atEnd, ha])⟩

theorem kind (h : c.At d (x :: more)) : c.kind = x.1 := h.cons.1

theorem skip (h : c.At d (x :: more)) : c.skip.At d more := h.cons.2.2.1

theorem left_skip (h : c.At d (x :: more)) : c.skip.left < c.left := h.cons.2.2.2

theorem kind_of_head (h : c.At d more) (hx : x ∈ more.head?) : c.kind = x.1 := by
  obtain ⟨rest, rfl⟩ := List.head?_eq_some_iff.mp hx
  exact h.kind

theorem nextKind (h : c.At d (x :: y :: more)) : c.nextKind = y.1 := by
  have hcontents := h.contents
  unfold Cursor.nextKind
  split
  · rename_i t u us ha
    rw [ha, List.map_cons, List.map_cons] at hcontents
    obtain ⟨-, hmore⟩ := List.cons.inj hcontents
    exact congrArg Prod.fst (List.cons.inj hmore).1
  · rename_i hnot
    match ha : c.ahead with
    | [] => rw [ha] at hcontents; exact absurd hcontents (by simp)
    | [t] => rw [ha] at hcontents; exact absurd hcontents (by simp)
    | t :: u :: us => exact absurd ha (hnot t u us)

theorem text {s : String} (h : c.At d (x :: more)) (hx : x.2 = some (.text s)) :
    c.current.text = s := by
  rw [Token.text, Token.text?, h.cons.2.1, hx]
  rfl

end Cursor.At

/-- None of the signs is the next token. -/
def Lacks (signs : List Sign) (more : List (TokenKind × Option Payload)) : Prop :=
  ∀ x ∈ more.head?, ∀ s ∈ signs, x.1 ≠ .sign s

theorem Lacks.cons {signs : List Sign} (h : ∀ s ∈ signs, x.1 ≠ .sign s)
    (more : List (TokenKind × Option Payload)) : Lacks signs (x :: more) := by
  rintro y ⟨⟩
  exact h

theorem Lacks.subset {signs signs' : List Sign} (h : Lacks signs' more) (hsub : signs ⊆ signs') :
    Lacks signs more := fun x hx s hs => h x hx s (hsub hs)

theorem Cursor.At.kind_ne {signs : List Sign} {s : Sign} (h : c.At d more)
    (hmore : Lacks signs more) (hs : s ∈ signs) : c.kind ≠ .sign s := by
  cases more with
  | nil =>
    have hend : c.atEnd = true := by simpa [atEnd] using h.contents
    rw [kind_of_atEnd hend]
    exact TokenKind.noConfusion
  | cons x more => rw [h.kind]; exact hmore x rfl s hs

/-! ## Nodes that spell a type -/

/-- The node spells the type, and has no holes. -/
structure Node.Denotes (n : Node) (t : Ty) : Prop where
  type : Ty.ofNode n = t
  clean : n.holes = []
  height : n.height = t.height + 1

namespace Node.Denotes

variable {t s lhs rhs : Ty} {m : Node} {begin stop : Nat}

theorem clean_of_all {ts : List Ty} (h : List.Forall₂ Denotes ns ts) : ∀ n ∈ ns, n.holes = [] := by
  induction h with
  | nil => simp
  | cons h _ ih => exact List.forall_mem_cons.mpr ⟨h.clean, ih⟩

theorem height_of_all {ts : List Ty} (h : List.Forall₂ Denotes ns ts) :
    (∀ n ∈ ns, n.height ≤ k) ↔ ∀ t ∈ ts, t.height < k := by
  induction h with
  | nil => simp
  | cons h _ ih => rw [List.forall_mem_cons, List.forall_mem_cons, h.height, ih]; rfl

theorem of_children {kind : NodeKind} (htype : Ty.ofNode (new begin stop kind) = t)
    (hhole : (new begin stop kind).isHole = false)
    (hparts : List.Forall₂ Denotes kind.children t.parts) : (new begin stop kind).Denotes t := by
  refine ⟨htype, holes_eq_nil.mpr ⟨hhole, clean_of_all hparts⟩, ?_⟩
  -- node and type are as tall as their parts say
  have hiff (k : Nat) : (new begin stop kind).height ≤ k + 1 ↔ t.height ≤ k := by
    rw [height_le_succ, Ty.height_le]
    exact height_of_all hparts
  have hpos := height_pos (new begin stop kind)
  have hle := (hiff _).mpr (Nat.le_refl t.height)
  have hge := (hiff ((new begin stop kind).height - 1)).mp (by omega)
  omega

theorem basic (kind : BasicKind) (file : Option String) :
    (new begin stop (.basicType kind file)).Denotes (.basic kind file) :=
  of_children rfl rfl .nil

theorem array (h : n.Denotes t) : (new begin stop (.arrayType n)).Denotes (.array t) :=
  of_children (congrArg Ty.array h.type) rfl (.cons h .nil)

theorem or (h : n.Denotes lhs) (h' : m.Denotes rhs) :
    (new begin stop (.orType n m)).Denotes (.or lhs rhs) :=
  of_children (by rw [← h.type, ← h'.type]; rfl) rfl (.cons h (.cons h' .nil))

theorem function {ts : List Ty} (h : n.Denotes t) (hs : List.Forall₂ Denotes ns ts)
    (variadic : Bool) :
    (new begin stop (.functionType n ns variadic)).Denotes (.function t ts variadic) := by
  refine of_children ?_ rfl (.cons h hs)
  have hofNodes : Ty.ofNodes ns = ts := by
    induction hs with
    | nil => rfl
    | cons h _ ih => rw [Ty.ofNodes, h.type, ih]
  rw [← h.type, ← hofNodes]
  rfl

/-- What may grow is not too tall. -/
theorem canGrow (h : n.Denotes t) : n.canGrow = decide (t.height + 1 < maxHeight) := by
  rw [Node.canGrow, h.height]

end Node.Denotes

/-! ## Reading -/

/-- The type has been read as the node, up to what is ahead now. -/
structure Cursor.Read (c : Cursor) (t : Ty) (d : Nat) (more : List (TokenKind × Option Payload))
    (n : Node) (c' : Cursor) : Prop where
  denotes : n.Denotes t
  ahead : c'.At d more
  left_lt : c'.left < c.left

namespace Parse

variable {α : Type} {grow : α → Parse (Option α)} {a : α}

/-- A chain that grows goes on from what it has grown to. -/
theorem chain_grow {P : α → Cursor → Prop}
    (h : (grow a).Ensures c fun o c' => ∃ b, o = some b ∧ P b c' ∧ c'.left < c.left) :
    ∃ b c', P b c' ∧ c'.left < c.left ∧ chain grow a c = chain grow b c' := by
  unfold Ensures at h
  rw [chain]
  generalize grow a c = turned at h ⊢
  obtain ⟨o, c'⟩ := turned
  obtain ⟨b, rfl, hP, hlt⟩ := h
  exact ⟨b, c', hP, hlt, if_pos hlt⟩

/-- What nests is read one level deeper. -/
theorem Ensures.deeper {production : Parse Node} {Q : Node → Cursor → Prop}
    {items : List (TokenKind × Option Payload)} (e : Expected) (hd : d < maxDepth)
    (hc : c.At d items) (h : Cursor.At { c with depth := c.depth + 1 } (d + 1) items →
      production.Ensures { c with depth := c.depth + 1 }
        fun n c' => Q n { c' with depth := c'.depth - 1 }) :
    (nested e production).Ensures c Q := by
  unfold Ensures
  rw [nested_read e (Nat.not_le_of_gt (hc.depth ▸ hd))]
  exact h ⟨congrArg (· + 1) hc.depth, hc.contents⟩

end Parse

/-- What has been read goes on from what it has grown to. -/
theorem Cursor.Read.grow {t u : Ty} {items : List (TokenKind × Option Payload)} {c₁ : Cursor}
    {grow : Node → Parse (Option Node)} {turned : Node × Cursor} (h : c.Read t d items n c₁)
    (hchain : turned = Parse.chain grow n c₁)
    (hgrow : (grow n).Ensures c₁ fun o c' => ∃ m, o = some m ∧ c₁.Read u d more m c') :
    ∃ m c', c.Read u d more m c' ∧ turned = Parse.chain grow m c' := by
  obtain ⟨m, c', hm, hlt, hgrown⟩ := Parse.chain_grow (hgrow.mono fun _ _ ⟨m, ho, hm⟩ =>
    ⟨m, ho, hm, hm.left_lt⟩)
  exact ⟨m, c', ⟨hm.denotes, hm.ahead, Nat.lt_trans hlt h.left_lt⟩, hchain.trans hgrown⟩

namespace Parse

/-! ## Basic types -/

open Ensures (eats_of_kind eats_of_ne)

variable (below : Nested) {t : Ty} {ts : List Ty}

theorem typeFile_none {basic : BasicKind} (hc : c.At d more) (hmore : Lacks [.less] more) :
    (typeFile basic).Ensures c fun p c' => p = (none, []) ∧ c' = c := by
  have hkind := hc.kind_ne hmore List.mem_cons_self
  unfold typeFile
  split
  · exact .pure ⟨rfl, rfl⟩
  · exact .eats (fun h => absurd h hkind) fun _ => .pure ⟨rfl, rfl⟩

/-- A single text in quotes is a path. -/
theorem path_single {file : String} (hc : c.At d ((.string, some (.text file)) :: y :: more))
    (hy : y.1 ≠ .string) :
    path.Ensures c fun n c' => n.stringValue? = some file ∧ c' = c.skip := by
  have hkind : c.kind = .string := hc.kind
  have hstop : (c.skip.kind != .string) = true := by rw [hc.skip.kind]; exact bne_iff_ne.mpr hy
  have hstrings : manyUntil (· != .string) stringLiteral c = ([stringNode c.current], c.skip) := by
    refine manyUntil_single ?_ ?_ rfl hc.left_skip ?_
    · rw [hkind]; rfl
    · exact Cursor.atEnd_of_kind (by rw [hkind]; exact TokenKind.noConfusion)
    · rw [hstop]; rfl
  unfold path
  refine .sees ?_
  rw [if_pos (beq_iff_eq.mpr hkind), strings]
  exact .bind_eq hstrings (.pure ⟨by rw [stringValue_stringNode, hc.text rfl], rfl⟩)

theorem typeFile_some {basic : BasicKind} {file : String} (hbasic : basic.takesFile = true)
    (hc : c.At d
      ((.sign .less, none) :: (.string, some (.text file)) :: (.sign .greater, none) :: more)) :
    (typeFile basic).Ensures c fun p c' =>
      p = (some file, []) ∧ c'.At d more ∧ c'.left ≤ c.left := by
  have hstring := hc.skip
  -- bracket, file and bracket are one token each
  have hgreater := hstring.skip
  unfold typeFile
  rw [hbasic]
  refine .eats (fun _ => ?_) fun h => absurd hc.kind h
  show Ensures (path >>= _) _ _
  refine (path_single hstring TokenKind.noConfusion).bind ?_
  rintro n _ ⟨hn, rfl⟩
  refine .bind_eq (expect_of_kind _ hgreater.kind) ?_
  dsimp only
  rw [hn]
  have h₁ := hc.left_skip
  have h₂ := hstring.left_skip
  have h₃ := hgreater.left_skip
  exact .pure ⟨rfl, hgreater.skip, by omega⟩

/-- A basic type is read with its file. -/
theorem typeAtom_basic {basic : BasicKind} {file : Option String}
    (h : (Ty.basic basic file).isSpelled = true) (hmore : Lacks [.less] more)
    (hc : c.At d ((Ty.basic basic file).spelling ++ more)) :
    (typeAtom below).Ensures c (c.Read (.basic basic file) d more) := by
  -- with a file or without one, the basic word comes first
  obtain ⟨items, hitems⟩ : ∃ items, (Ty.basic basic file).spelling ++ more =
      (.basic basic, none) :: items := by cases file <;> exact ⟨_, rfl⟩
  have hword := hitems ▸ hc
  have hfile : (typeFile basic).Ensures c.skip fun p c' =>
      p = (file, []) ∧ c'.At d more ∧ c'.left ≤ c.skip.left := by
    cases file with
    | none =>
      refine (typeFile_none hc.skip hmore).mono ?_
      rintro _ _ ⟨rfl, rfl⟩
      exact ⟨rfl, hc.skip, Nat.le_refl _⟩
    | some file =>
      obtain ⟨hbasic, -⟩ := Bool.and_eq_true_iff.mp h
      exact typeFile_some hbasic hc.skip
  unfold typeAtom
  refine .kind ?_
  rw [hword.kind]
  refine .advance (hfile.bind ?_)
  rintro _ c' ⟨rfl, hahead, hle⟩
  refine .lastStop (.pure ⟨.basic basic file, hahead, ?_⟩)
  exact Nat.lt_of_le_of_lt hle hword.left_skip

/-! ## Lists that an ellipsis may end -/

section

variable {α : Type} {item : Parse α} {after next : Cursor}

/-- A list goes on behind a comma, and ends at what closes it. -/
def GoesOn (after next : Cursor) : Prop :=
  after.kind = .sign .comma ∧ next = after.skip ∨
    (after.kind = .sign .rightParen ∨ after.kind = .sign .ellipsis) ∧ next = after

theorem GoesOn.left_le (h : GoesOn after next) : next.left ≤ after.left := by
  rcases h with ⟨hcomma, rfl⟩ | ⟨-, rfl⟩
  · exact Nat.le_of_lt (left_skip_lt hcomma (Nat.le_refl _))
  · exact Nat.le_refl _

theorem separatedOpen_ellipsis (h : c.kind = .sign .ellipsis) :
    separatedOpen item c = (([], true), c.skip) := by
  have hend : c.atEnd = false := Cursor.atEnd_of_kind (by rw [h]; exact TokenKind.noConfusion)
  rw [separatedOpen, eats_of_kind h, h, hend]
  rfl

/-- A list is its first item, and then the list from where it goes on. -/
theorem separatedOpen_turn (hparen : c.kind ≠ .sign .rightParen)
    (hellipsis : c.kind ≠ .sign .ellipsis) (hend : c.atEnd = false)
    (hlt : (item c).2.left < c.left) (h : GoesOn (item c).2 next) :
    separatedOpen item c =
      (((item c).1 :: (separatedOpen item next).1.1, (separatedOpen item next).1.2),
        (separatedOpen item next).2) := by
  rw [separatedOpen, eats_of_ne hellipsis, hend, if_neg (by simpa using hparen)]
  generalize item c = turned at hlt h ⊢
  obtain ⟨a, after⟩ := turned
  dsimp only at hlt h ⊢
  -- a comma asks for one more item; the end or an ellipsis closes the list
  rcases h with ⟨hcomma, rfl⟩ | ⟨hclosed | hclosed, rfl⟩
  · have hlt := left_skip_lt hcomma (Nat.le_of_lt hlt)
    rw [eats_of_ne (by simp [hcomma])]
    dsimp only
    rw [eats_of_kind hcomma]
    exact if_pos ⟨rfl, hlt⟩
  · rw [eats_of_ne (by simp [hclosed])]
    dsimp only
    rw [eats_of_ne (by simp [hclosed]), separatedOpen_closed hclosed]
    exact if_neg (by simp)
  · rw [eats_of_kind hclosed, separatedOpen_ellipsis hclosed]

end

/-! ## Suffixes and alternatives -/

/-- A suffix for an array. -/
theorem typeSuffix_array (hn : n.Denotes t) (hgrow : t.height + 1 < maxHeight)
    (hc : c.At d ((.sign .leftBracket, none) :: (.sign .rightBracket, none) :: more)) :
    (typeSuffix below n).Ensures c fun o c' => ∃ m, o = some m ∧ c.Read (.array t) d more m c' := by
  unfold typeSuffix
  rw [hn.canGrow, decide_eq_true hgrow]
  refine .kind (.nextKind ?_)
  rw [hc.kind, hc.nextKind]
  refine .advance (.advance (.lastStop (.pure ⟨_, rfl, hn.array, hc.skip.skip, ?_⟩)))
  exact Nat.lt_trans hc.skip.left_skip hc.left_skip

theorem typeSuffix_stop (hc : c.At d more)
    (hmore : Lacks [.star, .leftParen, .leftBracket] more) :
    (typeSuffix below n).Ensures c fun o c' => o = none ∧ c' = c := by
  unfold typeSuffix
  split
  · exact .pure ⟨rfl, rfl⟩
  · refine .kind (.nextKind ?_)
    split
    · rename_i h _
      exact absurd h (hc.kind_ne hmore (by simp))
    · rename_i h
      exact absurd h (hc.kind_ne hmore (by simp))
    · rename_i h
      exact absurd h (hc.kind_ne hmore (by simp))
    · exact .pure ⟨rfl, rfl⟩

theorem typeAlternative_stop (hc : c.At d more) (hmore : Lacks [.pipe] more) :
    (typeAlternative below n).Ensures c fun o c' => o = none ∧ c' = c := by
  unfold typeAlternative
  split
  · exact .pure ⟨rfl, rfl⟩
  · exact .eats (fun h => absurd h (hc.kind_ne hmore (by simp))) fun _ => .pure ⟨rfl, rfl⟩

end Parse

/-! ## Whole types -/

namespace Ty

open Parse (Ensures chain typeAtom typeSuffix suffixedType typeAlternative separatedOpen closeParen)

variable {t element lhs rhs returns : Ty} {ts : List Ty} {variadic : Bool}

/-- The signs that a type may go on with. -/
def onward : List Sign := [.less, .star, .leftParen, .leftBracket, .pipe]

/-- Read as what has suffixes, the type goes on to further ones. -/
def ReadsSuffixed (t : Ty) : Prop := ∀ ⦃k d : Nat⦄ ⦃c : Cursor⦄
  ⦃more : List (TokenKind × Option Payload)⦄, t.nesting ≤ k → d + k ≤ maxDepth →
    Lacks [.less] more → c.At d (t.spelling ++ more) → ∃ n c', c.Read t d more n c' ∧
      suffixedType (.levels k) c = chain (typeSuffix (.levels k)) n c'

/-- Read as what has alternatives, the type goes on to further ones. -/
def ReadsChosen (t : Ty) : Prop := ∀ ⦃k d : Nat⦄ ⦃c : Cursor⦄
  ⦃more : List (TokenKind × Option Payload)⦄, t.nesting ≤ k → d + k ≤ maxDepth →
    Lacks [.less, .star, .leftParen, .leftBracket] more → c.At d (t.spelling ++ more) →
      ∃ n c', c.Read t d more n c' ∧
        Parse.type (.levels k) c = chain (typeAlternative (.levels k)) n c'

/-- Read one level deeper, the type is read to its end. -/
def ReadsNested (t : Ty) : Prop := ∀ ⦃k d : Nat⦄ ⦃c : Cursor⦄
  ⦃more : List (TokenKind × Option Payload)⦄, t.nesting < k → d + k ≤ maxDepth →
    Lacks onward more → c.At d (t.spelling ++ more) →
      (Nested.levels k).type.Ensures c (c.Read t d more)

/-- Read one level deeper, the type is read until it does not grow. -/
theorem ReadsChosen.ends (h : t.ReadsChosen) (hk : t.nesting ≤ k) (hd : d + k < maxDepth)
    (hmore : Lacks [.less, .star, .leftParen, .leftBracket] more) (hc : c.At d (t.spelling ++ more))
    (hstop : ∀ n c', n.Denotes t → c'.At (d + 1) more →
      (typeAlternative (.levels k) n).Ensures c' fun o c'' => o = none ∧ c'' = c') :
    (Nested.levels (k + 1)).type.Ensures c (c.Read t d more) := by
  refine .deeper .type (by omega) hc fun hc' => ?_
  obtain ⟨n, c₁, hread, hchain⟩ := h hk (by omega) hmore hc'
  unfold Ensures
  rw [hchain, Parse.chain_stop (hstop n c₁ hread.denotes hread.ahead)]
  exact ⟨hread.denotes, ⟨congrArg (· - 1) hread.ahead.depth, hread.ahead.contents⟩, hread.left_lt⟩

theorem ReadsChosen.nested (h : t.ReadsChosen) : t.ReadsNested := by
  intro k d c more hk hd hmore hc
  obtain ⟨k, rfl⟩ := Nat.exists_eq_add_one.mpr (Nat.zero_lt_of_lt hk)
  exact h.ends (Nat.le_of_lt_succ hk) hd (hmore.subset (by simp [onward])) hc fun n c' _ hahead =>
    Parse.typeAlternative_stop _ hahead (hmore.subset (by simp [onward]))

/-- Suffixes end where there is none. -/
theorem ReadsSuffixed.stop (h : t.ReadsSuffixed) {k : Nat} (hk : t.nesting ≤ k)
    (hd : d + k ≤ maxDepth) (hmore : Lacks [.less, .star, .leftParen, .leftBracket] more)
    (hc : c.At d (t.spelling ++ more)) :
    ∃ n c', c.Read t d more n c' ∧ suffixedType (.levels k) c = (n, c') := by
  obtain ⟨n, c', hread, hchain⟩ := h hk hd (hmore.subset (by simp)) hc
  have hstop := Parse.typeSuffix_stop (.levels k) (n := n) hread.ahead
    (hmore.subset (by simp))
  exact ⟨n, c', hread, hchain.trans (Parse.chain_stop hstop)⟩

theorem ReadsSuffixed.chosen (h : t.ReadsSuffixed) : t.ReadsChosen := by
  intro k d c more hk hd hmore hc
  obtain ⟨n, c', hread, hsuffixed⟩ := h.stop hk hd hmore hc
  refine ⟨n, c', hread, ?_⟩
  show chain (typeAlternative (.levels k)) (suffixedType (.levels k) c).1
    (suffixedType (.levels k) c).2 = _
  rw [hsuffixed]

theorem readsSuffixed_basic {kind : BasicKind} {file : Option String}
    (h : (basic kind file).isSpelled = true) : (basic kind file).ReadsSuffixed := by
  intro k d c more _ _ hmore hc
  exact ⟨_, _, Parse.typeAtom_basic (.levels k) h hmore hc, rfl⟩

/-- A type in parentheses is read as what is in them. -/
theorem ReadsNested.parenthesized (h : t.ReadsNested) {k : Nat} (hk : t.nesting < k)
    (hd : d + k ≤ maxDepth)
    (hc : c.At d ((.sign .leftParen, none) :: (t.spelling ++ (.sign .rightParen, none) :: more))) :
    (typeAtom (.levels k)).Ensures c (c.Read t d more) := by
  unfold typeAtom
  refine .kind ?_
  rw [hc.kind]
  refine .advance ((h hk hd (.cons (by simp [onward]) _) hc.skip).bind ?_)
  intro n c₁ hread
  refine .bind_eq (Parse.needed_of_kind _ hread.ahead.kind) ?_
  refine .pure ⟨hread.denotes, hread.ahead.skip, ?_⟩
  exact Nat.lt_trans hread.ahead.left_skip (Nat.lt_trans hread.left_lt hc.left_skip)

/-- What an array is of is in parentheses if it is made of several types. -/
theorem readsSuffixed_array (hsuffixed : element.isOr = false → element.ReadsSuffixed)
    (hnested : element.ReadsNested) (hgrow : element.height + 1 < maxHeight) :
    (array element).ReadsSuffixed := by
  intro k d c more hk hd _ hc
  rw [nesting] at hk
  rw [spelling] at hc
  have helement : ∃ n c', c.Read element d
      ((.sign .leftBracket, none) :: (.sign .rightBracket, none) :: more) n c' ∧
        suffixedType (.levels k) c = chain (typeSuffix (.levels k)) n c' := by
    split at hc
    · -- in parentheses, what the array is of is read one level deeper
      rename_i hcompound
      rw [if_pos hcompound] at hk
      refine ⟨_, _, hnested.parenthesized hk hd ?_, rfl⟩
      simpa using hc
    · rename_i hcompound
      refine hsuffixed ?_ (Nat.le_of_add_right_le hk) hd (.cons (by simp) _) (by simpa using hc)
      cases element with
      | or => exact absurd rfl hcompound
      | _ => rfl
  obtain ⟨n, c₁, hread, hchain⟩ := helement
  exact hread.grow hchain
    (Parse.typeSuffix_array (.levels k) hread.denotes hgrow hread.ahead)

/-- Alternatives are grouped to the left. -/
theorem readsChosen_or (hlhs : lhs.ReadsChosen) (hrhs : rhs.ReadsSuffixed)
    (hgrow : lhs.height + 1 < maxHeight) : (or lhs rhs).ReadsChosen := by
  intro k d c more hk hd hmore hc
  rw [nesting, Nat.max_le] at hk
  rw [spelling, List.append_assoc, List.cons_append] at hc
  obtain ⟨n, c₁, hread, hchain⟩ := hlhs hk.1 hd (.cons (by simp) _) hc
  obtain ⟨m, c₂, hread', hsuffixed⟩ := hrhs.stop hk.2 hd hmore hread.ahead.skip
  have halternative : (typeAlternative (.levels k) n).Ensures c₁ fun o c' =>
      ∃ m, o = some m ∧ c₁.Read (or lhs rhs) d more m c' := by
    unfold typeAlternative
    rw [hread.denotes.canGrow, decide_eq_true hgrow]
    refine .eats (fun _ => ?_) fun h => absurd hread.ahead.kind h
    exact .bind_eq hsuffixed (.pure ⟨_, rfl, hread.denotes.or hread'.denotes, hread'.ahead,
      Nat.lt_trans hread'.left_lt hread.ahead.left_skip⟩)
  exact hread.grow hchain halternative

/-! ### Functions -/

/-- Whether a type may start so: there is something, and it does not close parameters. -/
def Starts (items : List (TokenKind × Option Payload)) : Prop :=
  ∃ x ∈ items.head?, x.1 ≠ .eof ∧ x.1 ≠ .sign .rightParen ∧ x.1 ≠ .sign .ellipsis

theorem Starts.append {items : List (TokenKind × Option Payload)} (h : Starts items)
    (more : List (TokenKind × Option Payload)) : Starts (items ++ more) :=
  h.imp fun _ => And.imp_left List.mem_head?_append_of_mem_head?

theorem starts_spelling (t : Ty) : Starts t.spelling := by
  induction t using induct with
  | step t ih =>
    cases t with
    | basic kind file => cases file <;> exact ⟨_, rfl, by simp⟩
    | array element =>
      rw [spelling]
      split
      · exact ⟨_, rfl, by simp⟩
      · exact (ih element List.mem_cons_self).append _
    | or lhs rhs => exact (ih lhs List.mem_cons_self).append _
    | function returns => exact (ih returns List.mem_cons_self).append _
    | this => exact ⟨_, rfl, by simp⟩

/-- What is behind the parameters is no sign that a type goes on with. -/
theorem lacks_closing (variadic : Bool) (more : List (TokenKind × Option Payload)) :
    Lacks onward (spelling.closing variadic ++ more) := by
  cases variadic with
  | false => exact .cons (by simp [onward]) _
  | true => exact .cons (by simp [onward]) _

/-- What is behind the first of several parameters, and how it goes on from there. -/
theorem exists_behind (hc : c.At d ([(.sign .comma, none)].intercalate ((t :: ts).map spelling) ++
      (spelling.closing variadic ++ more))) :
    ∃ behind, c.At d (t.spelling ++ behind) ∧ Lacks onward behind ∧
      ∀ after : Cursor, after.At d behind → ∃ next, Parse.GoesOn after next ∧
        next.At d ([(.sign .comma, none)].intercalate (ts.map spelling) ++
          (spelling.closing variadic ++ more)) := by
  -- the last item stands before the closing, any other before a comma
  cases ts with
  | nil =>
    rw [List.map_singleton, List.intercalate_singleton] at hc
    refine ⟨_, hc, lacks_closing variadic more, fun after hafter => ⟨after, .inr ⟨?_, rfl⟩, hafter⟩⟩
    cases variadic with
    | false => exact .inl hafter.kind
    | true => exact .inr hafter.kind
  | cons u ts =>
    refine ⟨(.sign .comma, none) :: _, ?_, .cons (by simp [onward]) _,
      fun after hafter => ⟨after.skip, .inl ⟨hafter.kind, rfl⟩, hafter.skip⟩⟩
    simpa using hc

/-- Parameters are read up to the parenthesis behind them. -/
theorem separatedOpen_read (item : Parse Node)
    (hitem : ∀ t ∈ ts, ∀ (c : Cursor) more, Lacks onward more → c.At d (t.spelling ++ more) →
      item.Ensures c (c.Read t d more))
    (hc : c.At d ([(.sign .comma, none)].intercalate (ts.map spelling) ++
      (spelling.closing variadic ++ more))) :
    Ensures (separatedOpen item) c fun p c' => List.Forall₂ Node.Denotes p.1 ts ∧
      p.2 = variadic ∧ c'.At d ((.sign .rightParen, none) :: more) ∧ c'.left ≤ c.left := by
  induction ts generalizing c with
  | nil =>
    unfold Ensures
    cases variadic with
    | false =>
      rw [Parse.separatedOpen_closed hc.kind]
      exact ⟨.nil, rfl, hc, Nat.le_refl _⟩
    | true =>
      rw [Parse.separatedOpen_ellipsis hc.kind]
      exact ⟨.nil, rfl, hc.skip, Nat.le_of_lt hc.left_skip⟩
  | cons t ts ih =>
    rw [List.forall_mem_cons] at hitem
    -- the first is read up to what is behind it, the others from where it goes on
    obtain ⟨behind, hbehind, hlacks, hon⟩ := exists_behind hc
    have hread : c.Read t d behind (item c).1 (item c).2 := hitem.1 c behind hlacks hbehind
    obtain ⟨next, hgoes, hnext⟩ := hon _ hread.ahead
    obtain ⟨x, hx, heof, hparen, hellipsis⟩ := t.starts_spelling.append behind
    rw [← hbehind.kind_of_head hx] at heof hparen hellipsis
    have hlt := Nat.lt_of_le_of_lt hgoes.left_le hread.left_lt
    obtain ⟨hnodes, hvariadic, hend, hle⟩ := ih hitem.2 hnext
    unfold Ensures
    rw [Parse.separatedOpen_turn hparen hellipsis (Cursor.atEnd_of_kind heof) hread.left_lt hgoes]
    exact ⟨.cons hread.denotes hnodes, hvariadic, hend, Nat.le_of_lt (Nat.lt_of_le_of_lt hle hlt)⟩

/-- What a function results in is no choice, so the parameters are those of all of it. -/
theorem readsSuffixed_function (hreturns : returns.ReadsSuffixed) (hts : ∀ t ∈ ts, t.ReadsNested)
    (hgrow : returns.height + 1 < maxHeight) : (function returns ts variadic).ReadsSuffixed := by
  intro k d c more hk hd _ hc
  rw [nesting, Nat.max_le, nestingOf_le] at hk
  rw [spelling, spellings_eq, List.append_assoc, List.cons_append, List.append_assoc] at hc
  -- the result type is read first, and then this suffix as one turn of its loop
  obtain ⟨n, c₁, hread, hchain⟩ := hreturns hk.1 hd (.cons (by simp) _) hc
  have hparameters := separatedOpen_read (Nested.levels k).type
    (fun t ht c more hmore hc => hts t ht (hk.2 t ht) hd hmore hc) hread.ahead.skip
  have hsuffix : (typeSuffix (.levels k) n).Ensures c₁ fun o c' =>
      ∃ m, o = some m ∧ c₁.Read (function returns ts variadic) d more m c' := by
    unfold typeSuffix
    rw [hread.denotes.canGrow, decide_eq_true hgrow]
    refine .kind (.nextKind ?_)
    rw [hread.ahead.kind]
    show Ensures (Parse.functionSuffix (.levels k) n >>= fun m => pure (some m)) c₁ _
    unfold Parse.functionSuffix
    refine Ensures.bind (P := c₁.Read (function returns ts variadic) d more) ?_
      fun m c' hm => .pure ⟨m, rfl, hm⟩
    refine .advance (hparameters.bind ?_)
    rintro ⟨nodes, _⟩ c₂ ⟨hnodes, rfl, hahead, hle⟩
    refine .bind_eq (Parse.needed_of_kind _ hahead.kind) ?_
    refine .lastStop (.pure ⟨hread.denotes.function hnodes _, hahead.skip, ?_⟩)
    exact Nat.lt_trans hahead.left_skip (Nat.lt_of_le_of_lt hle hread.ahead.left_skip)
  exact hread.grow hchain hsuffix

/-! ### Every type -/

/-- The type that reading starts with where it grows to this one. -/
def stem? : Ty → Option Ty
  | array element => some element
  | or lhs _ => some lhs
  | function returns _ _ => some returns
  | _ => none

/-- Whether reading grows as far as to the type: what it grows from is not as tall as nodes get. -/
def isReached (t : Ty) : Bool := t.stem?.all fun stem => stem.height + 1 < maxHeight

/-- **The tokens of a type are read as the type**, if it is grouped as reading groups it. -/
theorem readsChosen (hspelled : t.all isSpelled = true) (hgrouped : t.all isGrouped = true)
    (hreached : t.all isReached = true) : t.ReadsChosen := by
  suffices h : (t.isOr = false → t.ReadsSuffixed) ∧ t.ReadsChosen from h.2
  induction t using induct with
  | step t ih =>
    obtain ⟨hs, hsparts⟩ := all_iff.mp hspelled
    obtain ⟨hg, hgparts⟩ := all_iff.mp hgrouped
    obtain ⟨hr, hrparts⟩ := all_iff.mp hreached
    have hparts (s : Ty) (h : s ∈ t.parts) := ih s h (hsparts s h) (hgparts s h) (hrparts s h)
    -- without alternatives, what has suffixes is the whole type
    have hplain (h : t.ReadsSuffixed) : (t.isOr = false → t.ReadsSuffixed) ∧ t.ReadsChosen :=
      ⟨fun _ => h, h.chosen⟩
    cases t with
    | basic kind file => exact hplain (readsSuffixed_basic hs)
    | array element =>
      obtain ⟨hsuffixed, hchosen⟩ := hparts element List.mem_cons_self
      exact hplain (readsSuffixed_array hsuffixed hchosen.nested (of_decide_eq_true hr))
    | or lhs rhs =>
      have hlhs := (hparts lhs List.mem_cons_self).2
      have hrhs := (hparts rhs (List.mem_cons_of_mem _ List.mem_cons_self)).1
      exact ⟨fun h => Bool.noConfusion h,
        readsChosen_or hlhs (hrhs (Bool.not_eq_true' _ ▸ hg)) (of_decide_eq_true hr)⟩
    | function returns ts variadic =>
      have hreturns := (hparts returns List.mem_cons_self).1 (by simpa [isSpelled] using hs)
      have hts (t : Ty) (ht : t ∈ ts) := (hparts t (List.mem_cons_of_mem _ ht)).2.nested
      exact hplain (readsSuffixed_function hreturns hts (of_decide_eq_true hr))
    | this => exact Bool.noConfusion hs

end Ty

end MudEdit
