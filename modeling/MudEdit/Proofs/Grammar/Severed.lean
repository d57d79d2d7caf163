import MudEdit.Proofs.Grammar.Closed
import MudEdit.Proofs.Grammar.Unended

/-!
# A declaration without its semicolon

A declaration that ends with a semicolon is read to its end where the semicolon is missing. The
semicolon is then a hole where the last token taken ends, and nothing of what follows is taken.
-/

namespace MudEdit

/-- A variable, a function without a body or an inherited program, which a semicolon ends. -/
def NodeKind.endsInSemicolon : NodeKind → Bool
  | .variableDef .. | .functionDef _ _ _ _ _ none | .inheritFile _ => true
  | _ => false

/-- A construct without holes that a semicolon ends. -/
structure Node.Signed (n : Node) : Prop where
  clean : n.holes = []
  ends : n.kind.endsInSemicolon = true

/-- What was read in the one text up to its semicolon, and in the other one up to the gap. -/
structure Gap.Dropped (φ : Relocation) (g : Gap) (r r' : Node × Cursor) : Prop where
  taken : r.2.ahead = []
  others : r'.2.ahead = g.other :: g.rest
  depth : r'.2.depth = r.2.depth
  node : ∃ begin stop kind, r.1 = .new begin g.own.stop kind ∧ r'.2.lastStop = φ.move stop ∧
    r'.1 = ((Node.new begin stop kind).relocate φ).combine [.missing (φ.move stop) .semicolon]

theorem TokenKind.isSync_of_startsDeclaration {k : TokenKind} (h : k.startsDeclaration = true) :
    k.isSync = true := by
  rcases startsDeclaration_iff.mp h with ⟨_, rfl⟩ | ⟨_, rfl⟩ | rfl | rfl | rfl | rfl <;> rfl

namespace Parse

variable {α : Type} {φ : Relocation} {g : Gap}

/-- The second production reads what the first one reads, or all of it but the semicolon. -/
def Severs (φ : Relocation) (g : Gap) (p q : Parse Node) : Prop :=
  ∀ c c' : Cursor, g.Follows φ c c' → (p c).1.Signed →
    Same φ (g.setting φ) (Node.relocate φ) (p c) (q c') ∨ g.Dropped φ (p c) (q c')

/-- More than the semicolon is needed besides. -/
structure Breaks (φ : Relocation) (g : Gap) (p q : Parse Node) : Prop where
  ends : Ends (g.setting φ) (·.holes = []) p
  follow : Severs φ g p q

section Rules

variable {m : α → α} {clean : α → Prop} {p q : Parse α} {f f' : α → Parse Node}

namespace Severs

theorem keeps (h : Keeps φ (g.setting φ) m clean p q)
    (k : ∀ a, clean a → Severs φ g (f a) (f' (m a)))
    (hclean : ∀ c, (f (p c).1 (p c).2).1.holes = [] → clean (p c).1) :
    Severs φ g (p >>= f) (q >>= f') := by
  intro c c' hc hn
  have hfirst := hclean c hn.clean
  have hs := h c c' hc hfirst
  have hk := k (p c).1 hfirst _ _ hs.follows hn
  rw [← hs.result] at hk
  exact hk

theorem exact (h : Exact φ (g.setting φ) m p q) (k : ∀ a, Severs φ g (f a) (f' (m a))) :
    Severs φ g (p >>= f) (q >>= f') := by
  have hkeeps : Keeps φ (g.setting φ) m (fun _ => True) p q := h.keeps
  exact .keeps hkeeps (fun a _ => k a) fun _ _ => trivial

theorem ite {b : Prop} [Decidable b] {p q p' q' : Parse Node} (h : Severs φ g p q)
    (h' : Severs φ g p' q') : Severs φ g (if b then p else p') (if b then q else q') := by
  split
  · exact h
  · exact h'

end Severs

namespace Breaks

theorem bind (h : Tracks φ (g.setting φ) m p q) (k : ∀ a, Breaks φ g (f a) (f' (m a))) :
    Breaks φ g (p >>= f) (q >>= f') where
  ends := .bind h fun a => (k a).ends
  follow c c' hc hn := by
    rcases h.follow c c' hc with hcut | hs
    · exact absurd hn.clean ((k _).ends _ hcut)
    · have hk := (k (p c).1).follow _ _ hs.follows hn
      rw [← hs.result] at hk
      exact hk

theorem look {p q : Parse α} (h : Tracks φ (g.setting φ) id p q)
    (k : ∀ a, Breaks φ g (f a) (f' a)) : Breaks φ g (p >>= f) (q >>= f') := .bind h k

theorem andThen (h : Closes φ (g.setting φ) m clean p q)
    (k : ∀ a, clean a → Severs φ g (f a) (f' (m a)))
    (hclean : ∀ c, (f (p c).1 (p c).2).1.holes = [] → clean (p c).1) :
    Breaks φ g (p >>= f) (q >>= f') := ⟨h.ends.andThen hclean, .keeps h.follow k hclean⟩

theorem ite {b : Prop} [Decidable b] {p q p' q' : Parse Node} (h : Breaks φ g p q)
    (h' : Breaks φ g p' q') : Breaks φ g (if b then p else p') (if b then q else q') := by
  split
  · exact h
  · exact h'

theorem of_closes {p q : Parse Node} (h : ClosesNode φ (g.setting φ) p q) : Breaks φ g p q :=
  ⟨h.ends, fun c c' hc hn => .inl (h.follow c c' hc hn.clean)⟩

end Breaks

end Rules

/-! ## The semicolon -/

theorem expect_of_sync {c : Cursor} {k : TokenKind} (e : Expected) (h : c.kind ≠ k)
    (hs : c.kind.isSync = true) : expect k e c = ((false, [.missing c.lastStop e]), c) := by
  have hexpect := expect_ensures (c := c) k e
  unfold Ensures at hexpect
  rcases hexpect with ⟨hk, -⟩ | ⟨-, -, hp, hc⟩ | ⟨-, hno, -⟩
  · exact absurd hk h
  · exact Prod.ext hp hc
  · exact absurd hs (by simp [hno])

theorem semicolon_of_kind {c : Cursor} (h : c.kind = .sign .semicolon) :
    semicolon c = ([], c.skip) := needed_of_kind _ h

theorem semicolon_of_starts {c : Cursor} (h : c.kind.startsDeclaration = true) :
    semicolon c = ([.missing c.lastStop .semicolon], c) := by
  have hne : c.kind ≠ .sign .semicolon := fun hk => by
    rw [hk] at h
    cases h
  show ((expect (.sign .semicolon) .semicolon c).1.2,
    (expect (.sign .semicolon) .semicolon c).2) = _
  rw [expect_of_sync _ hne (TokenKind.isSync_of_startsDeclaration h)]

/-- The construct that a semicolon ends. -/
theorem ended_severs (begin : Nat) {kind kind' : NodeKind} (hkind : kind' = kind.relocate φ) :
    Severs φ g
      (do let holes ← semicolon
          return (Node.new begin (← lastStop) kind).combine holes)
      (do let holes ← semicolon
          return (Node.new (φ.move begin) (← lastStop) kind').combine holes) := by
  subst hkind
  intro c c' hc hn
  have hread (b : Nat) (k : NodeKind) (d : Cursor) :
      (do let holes ← semicolon
          return (Node.new b (← lastStop) k).combine holes : Parse Node) d =
        ((Node.new b (semicolon d).2.lastStop k).combine (semicolon d).1, (semicolon d).2) := rfl
  have hk : c.kind = .sign .semicolon := Classical.byContradiction fun hk =>
    holesOf_expect .semicolon hk (Node.holesOf_eq_nil_of_combine hn.clean)
  rw [hread, hread, semicolon_of_kind hk]
  -- the cut lies right at this semicolon, or later
  rcases hc.reached_or with hr | ht
  · right
    obtain ⟨hnil, -, -, hdepth⟩ := Cursor.skip_of_ahead hr.own
    rw [semicolon_of_starts (hr.kind.2 ▸ g.other_starts)]
    refine ⟨hnil, hr.other, hc.depth.trans hdepth.symm, begin, c.lastStop, kind, ?_,
      hc.lastStop, ?_⟩
    · have he : c.atEnd = false := by simp [Cursor.atEnd, hr.own]
      show Node.new begin c.skip.lastStop kind = _
      rw [Cursor.lastStop_skip he, Cursor.current_of_ahead hr.own]
    · simp [hc.lastStop]
  · left
    rw [semicolon_of_kind (ht.kind.trans hk)]
    refine ⟨?_, ht.skip⟩
    show Node.new _ c'.skip.lastStop _ = (Node.new begin c.skip.lastStop kind).relocate φ
    rw [ht.skip.lastStop]
    simp

/-! ## Declarations -/

theorem operatorCloser_keeps (k : TokenKind) : Keeps φ (g.setting φ)
    (Prod.map id (List.map (Node.relocate φ))) (holesOf ·.2 = []) (operatorCloser k)
    (operatorCloser k) := by
  unfold operatorCloser
  split
  · rename_i sign expected hcloser
    have hbars : (g.setting φ).Bars (.sign sign) := by
      unfold closer? at hcloser
      split at hcloser <;> cases hcloser <;> exact Gap.bars (by simp) (by simp) rfl
    exact .bind (expect_closes hbars _).follow (fun _ => .pure rfl) fun _ hclean => hclean
  · exact .pure rfl

theorem declaredName_closes : ClosesNode φ (g.setting φ) declaredName declaredName := by
  refine .eat? (Gap.clear (by simp) rfl) (Gap.bars (by simp) (by simp) rfl) (fun word => ?_)
    name_closes
  refine keeps_kind (fun k _ => ?_) fun kind => ?_
  · exact fun c _ _ hclean => absurd hclean (holes_hole _ c)
  · split
    · exact (hole_closes _).follow.opens
    · refine .advance fun _ => .bind (operatorCloser_keeps kind) (fun _ => ?_) fun _ hclean => ?_
      · exact Exact.lastStop.andThen fun _ => .pure (by simp)
      · exact Node.holesOf_eq_nil_of_combine hclean

theorem inheritance_breaks : Breaks φ g inheritance inheritance := by
  refine .bind advance_tracks fun _ => .andThen
    (path_closes (Gap.clear (by simp) rfl) (Gap.bars (by simp) (by simp) rfl))
    (fun _ _ => ended_severs _ (by simp)) fun _ hclean => ?_
  exact Node.holes_eq_nil_of_new (Node.holes_eq_nil_of_combine hclean) (by simp [NodeKind.children])

section

variable {below : Nested} (h : below.Closing φ g)
include h

theorem initialValue_keeps :
    KeepsOption φ (g.setting φ) (initialValue below) (initialValue below) := by
  refine (eats_exact (Gap.clear (by simp) rfl)).look fun _ => .ite ?_ (.pure rfl)
  exact .bind h.expression.follow (fun _ => .pure rfl) fun _ hclean => hclean _ rfl

/-- After a name a colon can only mean that a type follows. -/
theorem annotatedType_keeps :
    KeepsOption φ (g.setting φ) (annotatedType below true) (annotatedType below true) := by
  have htype : KeepsOption φ (g.setting φ) (do let _ ← advance; return some (← below.type))
      (do let _ ← advance; return some (← below.type)) :=
    Closes.follow <| .bind advance_tracks fun _ =>
      .andThen h.type (fun _ => .pure rfl) fun _ hclean => hclean _ rfl
  -- with the annotation allowed, the look ahead is a plain one at the colon
  have hread : annotatedType below true = do
      if ← sees (.sign .colon) then
        let _ ← advance
        return some (← below.type)
      else return none := by
    funext c
    show (if (c.kind == .sign .colon && true) = true then _ else _ : Parse (Option Node)) c = _
    rw [Bool.and_true]
    rfl
  rw [hread]
  exact (sees_exact (Gap.clear (by simp) rfl)).look fun _ => .ite htype (.pure rfl)

theorem letDefinition_breaks (begin : Nat) (mods : Option Node) : Breaks φ g
    (letDefinition below begin mods)
    (letDefinition below (φ.move begin) (mods.map (Node.relocate φ))) := by
  refine .bind advance_tracks fun _ => .andThen name_closes (fun title _ => ?_) fun _ hclean => ?_
  · refine .keeps (annotatedType_keeps h) (fun type _ => ?_) fun _ hclean n hn => ?_
    · refine .keeps (initialValue_keeps h) (fun value _ => ?_) fun _ hclean n hn => ?_
      · exact ended_severs begin (by simp)
      · exact Node.holes_eq_nil_of_new (Node.holes_eq_nil_of_combine hclean)
          (by simp [NodeKind.children, Option.mem_def.mp hn])
    · exact Node.holes_eq_nil_of_new (Node.holes_eq_nil_of_combine hclean)
        (by simp [NodeKind.children, Option.mem_def.mp hn])
  · exact Node.holes_eq_nil_of_new (Node.holes_eq_nil_of_combine hclean)
      (by simp [NodeKind.children])

theorem variableRest_severs (begin : Nat) (mods : Option Node) (type title : Node) :
    Severs φ g (variableRest below begin mods type title)
      (variableRest below (φ.move begin) (mods.map (Node.relocate φ)) (type.relocate φ)
        (title.relocate φ)) := by
  refine .keeps (initialValue_keeps h) (fun value _ => ?_) fun _ hclean n hn => ?_
  · exact ended_severs begin (by simp)
  · exact Node.holes_eq_nil_of_new (Node.holes_eq_nil_of_combine hclean)
      (by simp [NodeKind.children, Option.mem_def.mp hn])

omit h in
theorem closeParen_eq_nil {c : Cursor} (hclean : holesOf (closeParen c).1 = []) :
    (closeParen c).1 = [] := by
  have hk : c.kind = .sign .rightParen := Classical.byContradiction fun hk =>
    holesOf_expect .rightParen hk hclean
  show (expect (.sign .rightParen) .rightParen c).1.2 = []
  rw [expect_of_kind _ hk]

omit h in
theorem closeParen_closes : Closes φ (g.setting φ) (List.map (Node.relocate φ)) (· = [])
    closeParen closeParen := by
  have hneeded := needed_closes (φ := φ) (Gap.bars (g := g) (k := .sign .rightParen) (by simp)
    (by simp) rfl) .rightParen
  exact ⟨fun c hc hclean => hneeded.ends c hc (congrArg holesOf hclean),
    fun c c' hc hclean => hneeded.follow c c' hc (congrArg holesOf hclean)⟩

/-- The end of a function, after its parameters. -/
def functionEnd (below : Nested) (begin : Nat) (kind : Option Node → NodeKind) : Parse Node := do
  let (body, ending) ← functionBody below
  return (Node.new begin (← lastStop) (kind body)).combine ending

omit h in
theorem functionEnd_eq (begin : Nat) (kind : Option Node → NodeKind) (c : Cursor) :
    functionEnd below begin kind c =
      ((Node.new begin (functionBody below c).2.lastStop (kind (functionBody below c).1.1)).combine
        (functionBody below c).1.2, (functionBody below c).2) := rfl

omit h in
/-- A function ends with its body or with a semicolon. -/
theorem functionEnd_severs (begin : Nat) {kind kind' : Option Node → NodeKind}
    (hbody : ∀ body, (kind (some body)).endsInSemicolon = false)
    (hkind : kind' none = (kind none).relocate φ) :
    Severs φ g (functionEnd below begin kind) (functionEnd below (φ.move begin) kind') := by
  intro c c' hc hn
  by_cases hk : c.kind = .sign .leftBrace
  · -- with a block for its body the function does not end in a semicolon
    have hblock : functionBody below c = ((some (block below c).1, []), (block below c).2) :=
      congrFun (if_pos (beq_iff_eq.mpr hk)) c
    have hends := hn.ends
    rw [functionEnd_eq, hblock] at hends
    exact absurd ((hbody _).symm.trans hends) (by simp)
  · have hk' : c'.kind ≠ .sign .leftBrace :=
      (Gap.clear (g := g) (by simp) rfl c c' hc).elim (fun ht => ht.kind ▸ hk) And.right
    have hother (d : Cursor) (hd : d.kind ≠ .sign .leftBrace) :
        functionBody below d = ((none, (semicolon d).1), (semicolon d).2) :=
      congrFun (if_neg (by simpa using hd)) d
    rw [functionEnd_eq, hother c hk] at hn ⊢
    rw [functionEnd_eq, hother c' hk']
    exact ended_severs begin hkind c c' hc hn

/-- A function's parameters and end break at the gap as its last semicolon does. -/
theorem functionRest_breaks (begin : Nat) (mods : Option Node) (returns title : Node) :
    Breaks φ g (functionRest below begin mods returns title)
      (functionRest below (φ.move begin) (mods.map (Node.relocate φ)) (returns.relocate φ)
        (title.relocate φ)) := by
  refine .bind advance_tracks fun _ =>
    .bind (.separatedOpen (parameter_tracks h.tracks)) fun params => ?_
  refine .andThen closeParen_closes (fun closing hclosing => ?_) fun c hclean => ?_
  · subst hclosing
    show Severs φ g (functionEnd below begin (.functionDef mods returns title params.1 params.2))
      (functionEnd below (φ.move begin) (.functionDef (mods.map (Node.relocate φ))
        (returns.relocate φ) (title.relocate φ) (params.1.map (Node.relocate φ)) params.2))
    exact functionEnd_severs begin (fun _ => rfl) (by simp)
  · have hall := Node.holesOf_eq_nil_of_combine hclean
    exact closeParen_eq_nil (List.append_eq_nil_iff.mp ((holesOf_append ..).symm.trans hall)).1

omit h in
/-- The type and the name that a declaration was read with are part of it. -/
theorem holes_of_titled {begin : Nat} {mods : Option Node} {type title : Node} (c : Cursor) :
    Ensures (do
      if ← sees (.sign .leftParen) then functionRest below begin mods type title
      else variableRest below begin mods type title) c
      fun n _ => n.holes = [] → type.holes = [] ∧ title.holes = [] := by
  have hparts {begin stop : Nat} {kind : NodeKind} {hs : List Node}
      (hall : ∀ m ∈ [type, title], m ∈ kind.children)
      (hclean : ((Node.new begin stop kind).combine hs).holes = []) :
      type.holes = [] ∧ title.holes = [] := by
    have hkind := Node.holes_eq_nil_of_combine hclean
    exact ⟨Node.holes_eq_nil_of_new hkind (hall _ (by simp)),
      Node.holes_eq_nil_of_new hkind (hall _ (by simp))⟩
  refine .sees ?_
  split
  · exact hparts (by simp [NodeKind.children])
  · exact hparts (by simp [NodeKind.children])

theorem typedDeclaration_severs (begin : Nat) (mods : Option Node) (type : Node) :
    Severs φ g (typedDeclaration below begin mods type)
      (typedDeclaration below (φ.move begin) (mods.map (Node.relocate φ)) (type.relocate φ)) := by
  refine .keeps declaredName_closes.follow (fun title _ => ?_) fun c hclean => ?_
  · refine .exact (sees_exact (Gap.clear (by simp) rfl)) fun _ => .ite ?_ ?_
    · exact (functionRest_breaks h begin mods type title).follow
    · exact variableRest_severs h begin mods type title
  · exact (holes_of_titled _ hclean).2

theorem declaration_breaks : Breaks φ g (declaration below) (declaration below) := by
  refine .bind here_tracks fun begin => .look kind_tracks fun _ => ?_
  refine .look seesParenthesizedType_tracks fun _ => .ite (.of_closes (refuse_closes _)) ?_
  refine .bind modifiers_tracks fun mods => .look (sees_tracks _) fun _ => ?_
  refine .ite (letDefinition_breaks h begin mods) ?_
  exact .andThen h.type (fun type _ => typedDeclaration_severs h begin mods type)
    fun _ hclean => (holes_of_titled _ hclean).1

omit h in
/-- A class ends with its braces or with the file it is made from. -/
theorem classDefinition_unsigned (c : Cursor) : ¬(classDefinition below c).1.Signed := by
  obtain ⟨begin, stop, title, inherits, body, holes, heq⟩ := @classDefinition_eq below c
  rw [heq]
  intro hn
  cases holes with
  | nil => cases hn.ends
  | cons g gs => cases hn.ends

omit h in
/-- A semicolon on its own is an empty statement. -/
theorem member_of_semicolon {c : Cursor} (hk : c.kind = .sign .semicolon) :
    ¬(member below c).1.Signed := by
  have hmember : member below c = construct below (.sign .semicolon) c := hk ▸ rfl
  rw [hmember]
  exact fun hn => absurd hn.ends Bool.false_ne_true

/-- Which constructs of a file a semicolon ends: inherited programs and declarations. -/
theorem member_severs : Severs φ g (member below) (member below) := by
  intro c c' hc hn
  have ht := hc.reached_or.resolve_left fun hr => member_of_semicolon hr.kind.1 hn
  obtain ⟨p, hp, hcase⟩ := member_of_kind below c.kind
  rw [hp c rfl] at hn ⊢
  rw [hp c' ht.kind]
  rcases hcase with ⟨-, rfl⟩ | ⟨-, rfl⟩ | ⟨-, rfl⟩ | ⟨-, rfl⟩ | rfl
  · exact absurd hn.ends Bool.false_ne_true
  · exact inheritance_breaks.follow c c' hc hn
  · exact absurd hn (classDefinition_unsigned c)
  · exact absurd hn.ends Bool.false_ne_true
  · exact (declaration_breaks h).follow c c' hc hn

/-- None of them is read without holes where nothing but the semicolon is ahead. -/
theorem member_ends : Ends (g.setting φ) Node.Signed (member below) := by
  have hdeclaration : Ends (g.setting φ) Node.Signed (declaration below) :=
    fun c hc hn => (declaration_breaks h).ends c hc hn.clean
  have hempty : Ends (g.setting φ) Node.Signed emptyStatement :=
    fun c _ hn => absurd hn.ends Bool.false_ne_true
  exact ends_kind hdeclaration hempty hdeclaration hdeclaration hdeclaration

end

/-! ## Files -/

/-- Where the first text is cut, the last construct is read there or later. -/
theorem Many.last_cut {stops : TokenKind → Bool} {p : Parse Node} {c last : Cursor}
    {ns : List Node} {n : Node} (hp : ∀ c, g.Cut c → g.Cut (p c).2)
    (hrun : Many stops p c (ns ++ [n]) last) (hc : g.Cut c) : ∃ d, g.Cut d ∧ (p d).1 = n := by
  induction ns generalizing c with
  | nil =>
    cases hrun with
    | turn _ _ hi _ _ => exact ⟨c, hc, by rw [hi]⟩
  | cons m ns ih =>
    cases hrun with
    | turn _ _ hi _ hrest =>
      have hafter := hp c hc
      rw [hi] at hafter
      exact ih hrest hafter

/-- All turns before the last one go the same way in the other text. -/
theorem Many.sever {stops : TokenKind → Bool} {p : Parse Node} {c c' last : Cursor}
    {ns : List Node} {n : Node} (hp : TracksNode φ (g.setting φ) p p)
    (htakes : ∀ c : Cursor, c.atEnd = false → ∃ ts, c.Takes ts (p c).2)
    (hends : ∀ c, g.Cut c → (p c).1 ≠ n) (hrun : Many stops p c (ns ++ [n]) last)
    (hc : g.Follows φ c c') : ∃ d d' ts, g.Follows φ d d' ∧ c'.Takes ts d' ∧
      stops d.kind = false ∧ d.atEnd = false ∧ p d = (n, last) ∧
      (manyUntil stops p c').1 = ns.map (Node.relocate φ) ++ (manyUntil stops p d').1 := by
  induction ns generalizing c c' with
  | nil =>
    cases hrun with
    | turn hs he hi _ hdone =>
      cases hdone with
      | done _ => exact ⟨c, c', [], hc, .refl c', hs, he, hi, rfl⟩
  | cons m ns ih =>
    cases hrun with
    | @turn _ after _ _ _ hs he hi hl hrest =>
      -- were little ahead, there would be no last construct
      have hnot : ∀ d, Many stops p d (ns ++ [n]) last → ¬g.Cut d := fun d hd hcut => by
        obtain ⟨e, he, hn⟩ := hd.last_cut (fun c => hp.persist c) hcut
        exact hends e he hn
      have hsame := (hp.follow c c' hc).resolve_left (by rw [hi]; exact hnot after hrest)
      rw [hi] at hsame
      have hcut : ¬g.Cut c := fun hcut => hnot after hrest (by
        have hafter := hp.persist c hcut
        rwa [hi] at hafter)
      have ht : (g.setting φ).Together c c' := Setting.together hc hcut
      have he' : c'.atEnd = false := by
        obtain ⟨ts, -, ha⟩ := hc.ahead
        cases ts <;> simp [Cursor.atEnd, ha]
      obtain ⟨ts, hts⟩ := htakes c' he'
      obtain ⟨d, d', us, hd, hus, hds, hde, hpd, hmany⟩ := ih hrest hsame.follows
      refine ⟨d, d', ts ++ us, hd, hts.trans hus, hds, hde, hpd, ?_⟩
      have hi' : p c' = (m.relocate φ, (p c').2) := Prod.ext hsame.result rfl
      have hl' : (p c').2.left < c'.left := by
        rw [(g.setting φ).left hsame.follows, (g.setting φ).left hc]
        exact Nat.add_lt_add_right hl _
      rw [manyUntil_turn (ht.kind ▸ hs) he' hi' hl', hmany]
      rfl

/-- The last construct of the first text is in the other one as well, up to its semicolon. -/
theorem member_sever {d d' : Cursor} (hd : g.Follows φ d d')
    (hn : (member (.levels maxDepth) d).1.Signed)
    (hend : (member (.levels maxDepth) d).2.ahead = []) :
    d'.atEnd = false ∧ d'.kind = d.kind ∧
      (guarded (member (.levels maxDepth)) d').2.left < d'.left ∧
      g.Dropped φ (member (.levels maxDepth) d) (guarded (member (.levels maxDepth)) d') := by
  have hclosing : (Nested.levels maxDepth).Closing φ g := Nested.levels_closing maxDepth
  obtain ⟨t, us, ha, ha'⟩ := hd.cases.resolve_left fun hr => member_of_semicolon hr.kind.1 hn
  have hkind : d'.kind = d.kind := by
    rw [Cursor.kind_eq, (hd.step ha ha').1]
    rfl
  rcases member_severs hclosing d d' hd hn with hsame | hdropped
  · -- then there would be more in the first text
    obtain ⟨vs, hvs, -⟩ := hsame.follows.ahead
    rw [hend] at hvs
    exact absurd hvs.symm (by simp)
  have hl : (member (.levels maxDepth) d').2.left < d'.left := by
    rw [Cursor.left_eq, Cursor.left_eq, hdropped.others, ha']
    simp only [List.length_cons, List.length_append, List.length_map]
    omega
  rw [guarded_of_left (Nat.ne_of_lt hl)]
  exact ⟨by simp [Cursor.atEnd, ha'], hkind, hl, hdropped⟩

/-- **A missing semicolon costs one hole.** The constructs of a text whose last one a semicolon
ends are read without the semicolon as well, up to a hole for it, and what follows is read from
there. -/
theorem members_sever (until_ : TokenKind) {c c' : Cursor} {ns : List Node} {n : Node}
    (hc : g.Follows φ c c') (hnodes : (members until_ c).1 = ns ++ [n])
    (hend : (members until_ c).2.ahead = []) (hn : n.Signed) :
    ∃ begin stop kind d e ts, n = .new begin g.own.stop kind ∧
      c'.Takes ts d ∧ e.left < d.left ∧ Reads .taken d
        [((Node.new begin stop kind).relocate φ).combine [.missing (φ.move stop) .semicolon]] [] e ∧
      e.ahead = g.other :: g.rest ∧ e.lastStop = φ.move stop ∧
      (members until_ c').1 = ns.map (Node.relocate φ) ++
        ((Node.new begin stop kind).relocate φ).combine [.missing (φ.move stop) .semicolon] ::
          (members until_ e).1 := by
  have hsound := Nested.levels_sound maxDepth
  have hclosing : (Nested.levels maxDepth).Closing φ g := Nested.levels_closing maxDepth
  have hreads (d : Cursor) (he : d.atEnd = false) := guarded_reads he (member_reads (c := d) hsound)
  have hrun := (loops_unroll hsound).topLevel until_ c
  have hrun : Many (· == until_) (guarded (member (.levels maxDepth))) c (ns ++ [n])
      (members until_ c).2 := hnodes ▸ hrun
  -- the turns before the last are those of the whole text; the last one stands at the cut
  obtain ⟨d, d', ts, hd, hts, hs, he, hturn, hmany⟩ := hrun.sever
    (.guarded (member_tracks hclosing.tracks)) (fun d he => (hreads d he).1.takes)
    (fun d hcut heq => by
      have hsigned := heq ▸ hn
      rw [(guarded_of_clean hsigned.clean).1] at hsigned
      exact member_ends hclosing d hcut hsigned) hc
  have hsigned : (guarded (member (.levels maxDepth)) d).1.Signed := by rwa [hturn]
  have hturn := (guarded_of_clean hsigned.clean).1.symm.trans hturn
  obtain ⟨he', hkind, hl, -, hothers, -, begin, stop, kind, hown, hstop, hnode⟩ :=
    member_sever hd (by rwa [hturn]) (by rwa [hturn])
  rw [hturn] at hown
  have hread := (hreads d' he').1
  rw [hnode] at hread
  refine ⟨begin, stop, kind, d', _, ts, hown, hts, hl, hread, hothers, hstop, hmany.trans ?_⟩
  -- behind the cut the loop takes the missing semicolon's turn and goes on
  rw [manyUntil_turn (hkind ▸ hs) he' (Prod.ext hnode rfl) hl]
  rfl

end Parse

end MudEdit
