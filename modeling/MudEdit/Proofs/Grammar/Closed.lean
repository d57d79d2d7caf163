import MudEdit.Proofs.Grammar.Closing
import MudEdit.Proofs.Grammar.Fresh

/-!
# Constructs that close themselves

A construct of a file that is read without holes ends with a semicolon or a brace of its own, and
so what comes after it makes no difference to it. There are two exceptions: a semicolon behind
a class is part of the class, and strings behind an included file are part of its name.
-/

namespace MudEdit

/-- The tokens that follow do not become part of a construct that is closed. -/
def Separate (more : Option (List Token)) : Prop :=
  ∀ t ∈ (more.getD []).head?, t.kind ≠ .string ∧ t.kind ≠ .sign .semicolon

namespace Setting

variable {φ : Relocation} {more : Option (List Token)}

/-- At the end of the text nothing is current, and nothing has to be there at signs that are
looked past. -/
theorem after_bars {k : TokenKind} (hk : k ≠ .eof) (hpeeks : k.peeks = false) :
    (after φ more).Bars k := by
  rintro c hc rfl
  rcases hc.kind with h | h
  · exact hk h
  · rw [hpeeks] at h
    cases h

/-- What follows is not seen as long as the first text goes on, and it starts with no token of the
kind. -/
theorem after_clear {k : TokenKind} (hk : k ≠ .eof)
    (hmore : ∀ t ∈ (more.getD []).head?, t.kind ≠ k) : (after φ more).Clear k := by
  intro c c' hc
  cases he : c.atEnd with
  | false => exact .inl ⟨hc.current_of he, hc.skip_of he⟩
  | true =>
    right
    rw [Cursor.kind_of_atEnd he]
    refine ⟨hk.symm, ?_⟩
    have ha : c'.ahead = more.getD [] := by rw [hc.ahead, Cursor.ahead_eq_nil he]; rfl
    cases hm : more.getD [] with
    | nil =>
      rw [Cursor.kind_of_atEnd (by simp [Cursor.atEnd, ha, hm])]
      exact hk.symm
    | cons t ts =>
      rw [Cursor.kind_eq, Cursor.current_of_ahead (ha.trans hm)]
      exact hmore t (by rw [hm]; rfl)

end Setting

namespace Parse

variable {α : Type} {φ : Relocation} {more : Option (List Token)}

/-! ## Declarations -/

theorem inheritance_closes :
    Closes φ more (Node.relocate φ) (·.holes = []) inheritance inheritance := by
  refine .bind advance_tracks fun _ => .bind path_tracks fun _ => ?_
  exact ended_closes (Setting.after_bars (by simp) rfl) _ fun _ => by simp

theorem includeDirective_closes (hmore : Separate more) :
    Closes φ more (Node.relocate φ) (·.holes = []) includeDirective includeDirective := by
  have hpath : ClosesNode φ more path path :=
    path_closes (Setting.after_clear (by simp) fun t ht => (hmore t ht).1)
      (Setting.after_bars (by simp) rfl)
  refine .bind advance_tracks fun _ => .andThen hpath (fun _ => .pure (by simp)) ?_
  exact fun _ hclean => Node.holes_eq_nil_of_mem hclean List.mem_cons_self

section

variable {below : Nested} (h : below.Tracks φ more)
include h

theorem classBody_closes (hmore : Separate more) : Closes φ more
    (Prod.map (List.map (Node.relocate φ)) (List.map (Node.relocate φ))) (holesOf ·.2 = [])
    (classBody below) (classBody below) := by
  -- braces that do not open leave a hole
  have hopened : ∀ c, (expect (.sign .leftBrace) .leftBrace c).1.1 = false →
      holesOf (expect (.sign .leftBrace) .leftBrace c).1.2 ≠ [] := by
    intro c hc
    refine holesOf_expect _ fun hk => ?_
    rw [expect_of_kind _ hk] at hc
    cases hc
  refine .bind_of (P := fun r => r.1 = false → holesOf r.2 ≠ []) (expect_tracks _ _) hopened
    fun opened hopened => ?_
  obtain ⟨opened, opening⟩ := opened
  cases opened with
  | false => exact .never fun _ => hopened rfl
  | true =>
    refine .bind (.manyUntil (.guarded h.member)) fun _ => ?_
    refine .andThen (needed_closes (Setting.after_bars (by simp) rfl) _) (fun _ => ?_)
      fun _ => holesOf_append_right
    have hsemicolon := Setting.after_clear (φ := φ) (k := .sign .semicolon) (by simp)
      fun t ht => (hmore t ht).2
    exact (eats_exact hsemicolon).look fun _ => .pure (by simp)

theorem classDefinition_closes (hmore : Separate more) :
    Closes φ more (Node.relocate φ) (·.holes = []) (classDefinition below)
      (classDefinition below) := by
  refine .bind advance_tracks fun _ => .bind name_tracks fun _ => ?_
  refine .look (sees_tracks _) fun _ => .ite ?_ ?_
  · refine .bind strings_tracks fun _ => ?_
    exact ended_closes (Setting.after_bars (by simp) rfl) _ fun _ => by simp
  · refine .andThen (classBody_closes h hmore) (fun _ => ?_)
      fun _ => Node.holesOf_eq_nil_of_combine
    exact Exact.lastStop.andThen fun _ => .pure (by simp)

omit h in
/-- A class is one also if holes were found in it. -/
theorem classDefinition_eq (c : Cursor) : ∃ begin stop title inherits body holes,
    (classDefinition below c).1 =
      (Node.new begin stop (.classDef title inherits body)).combine holes := by
  have hclass : (classDefinition below).Ensures c fun n _ => ∃ begin stop title inherits body holes,
      n = (Node.new begin stop (.classDef title inherits body)).combine holes := by
    refine .advance (.bind (P := fun _ _ => True) trivial fun title _ _ => .sees ?_)
    split
    · exact ⟨_, _, _, _, _, _, rfl⟩
    · exact ⟨_, _, _, _, _, _, rfl⟩
  exact hclass

theorem letDefinition_closes (begin : Nat) (mods : Option Node) :
    Closes φ more (Node.relocate φ) (·.holes = []) (letDefinition below begin mods)
      (letDefinition below (φ.move begin) (mods.map (Node.relocate φ))) := by
  refine .bind advance_tracks fun _ => .bind name_tracks fun _ => ?_
  refine .bind (annotatedType_tracks h _) fun _ => .bind (initialValue_tracks h) fun _ => ?_
  exact ended_closes (Setting.after_bars (by simp) rfl) _ fun _ => by simp

theorem block_closes :
    Closes φ more (Node.relocate φ) (·.holes = []) (block below) (block below) := by
  refine .bind advance_tracks fun _ => .bind (.manyUntil (.guarded h.statement)) fun _ => ?_
  exact ended_closes (Setting.after_bars (by simp) rfl) _ fun _ => by simp

theorem functionBody_closes : Closes φ more
    (Prod.map (Option.map (Node.relocate φ)) (List.map (Node.relocate φ)))
    (fun body => holesOf body.1.toList = [] ∧ holesOf body.2 = []) (functionBody below)
    (functionBody below) := by
  refine .look (sees_tracks _) fun _ => .ite ?_ ?_
  · refine .andThen (block_closes h) (fun _ => .pure rfl) ?_
    intro c hclean
    rw [← List.flatMap_singleton Node.holes (block below c).1]
    exact hclean.1
  · exact .andThen (needed_closes (Setting.after_bars (by simp) rfl) _) (fun _ => .pure rfl)
      fun _ hclean => hclean.2

theorem functionRest_closes (begin : Nat) (mods : Option Node) (returns title : Node) :
    Closes φ more (Node.relocate φ) (·.holes = []) (functionRest below begin mods returns title)
      (functionRest below (φ.move begin) (mods.map (Node.relocate φ)) (returns.relocate φ)
        (title.relocate φ)) := by
  refine .bind advance_tracks fun _ => .bind (.separatedOpen (parameter_tracks h)) fun _ => ?_
  refine .bind (needed_tracks _ _) fun _ => .andThen (functionBody_closes h) (fun _ => ?_) ?_
  · exact Exact.lastStop.andThen fun _ => .pure (by simp)
  · intro _ hclean
    refine ⟨?_, holesOf_append_right (Node.holesOf_eq_nil_of_combine hclean)⟩
    refine List.flatMap_eq_nil_iff.mpr fun n hn => ?_
    refine Node.holes_eq_nil_of_mem (Node.holes_eq_nil_of_combine hclean) ?_
    exact List.mem_append_right _ hn

theorem variableRest_closes (begin : Nat) (mods : Option Node) (type title : Node) :
    Closes φ more (Node.relocate φ) (·.holes = []) (variableRest below begin mods type title)
      (variableRest below (φ.move begin) (mods.map (Node.relocate φ)) (type.relocate φ)
        (title.relocate φ)) := by
  refine .bind (initialValue_tracks h) fun _ => ?_
  exact ended_closes (Setting.after_bars (by simp) rfl) _ fun _ => by simp

theorem declaration_closes :
    Closes φ more (Node.relocate φ) (·.holes = []) (declaration below) (declaration below) := by
  refine .bind here_tracks fun begin => .look kind_tracks fun _ => ?_
  refine .look seesParenthesizedType_tracks fun _ => .ite (refuse_closes _) ?_
  refine .bind modifiers_tracks fun mods => .look (sees_tracks _) fun _ => ?_
  refine .ite (letDefinition_closes h begin mods) (.bind h.type fun type => ?_)
  refine .bind declaredName_tracks fun title => .look (sees_tracks _) fun _ => ?_
  refine .ite ?_ ?_
  · exact functionRest_closes h begin mods type title
  · exact variableRest_closes h begin mods type title

/-- The construct that starts with a token of this kind. -/
def construct (below : Nested) : TokenKind → Parse Node
  | .includeDirective => includeDirective
  | .keyword .inheritWord => inheritance
  | .keyword .classWord => classDefinition below
  | .sign .semicolon => emptyStatement
  | _ => declaration below

omit h in
/-- The kind of the current token says which construct is read. -/
theorem member_of_kind (below : Nested) (k : TokenKind) :
    ∃ p : Parse Node, (∀ c, c.kind = k → member below c = p c) ∧
      (k = .includeDirective ∧ p = includeDirective ∨
        k = .keyword .inheritWord ∧ p = inheritance ∨
        k = .keyword .classWord ∧ p = classDefinition below ∨
        k = .sign .semicolon ∧ p = emptyStatement ∨
        p = declaration below) := by
  refine ⟨construct below k, fun c hc => hc ▸ rfl, ?_⟩
  unfold construct
  split
  · exact .inl ⟨rfl, rfl⟩
  · exact .inr (.inl ⟨rfl, rfl⟩)
  · exact .inr (.inr (.inl ⟨rfl, rfl⟩))
  · exact .inr (.inr (.inr (.inl ⟨rfl, rfl⟩)))
  · exact .inr (.inr (.inr (.inr rfl)))

/-- **A construct of a file closes itself**, apart from a semicolon or strings behind it. -/
theorem member_closes (hmore : Separate more) :
    Closes φ more (Node.relocate φ) (·.holes = []) (member below) (member below) := by
  have hends : ∀ c : Cursor, c.Cut more → (member below c).1.holes ≠ [] := by
    intro c hc
    obtain ⟨p, hp, hcase⟩ := member_of_kind below c.kind
    rw [hp c rfl]
    -- at the end of the text or at a sign that is looked past only a declaration could start
    rcases hcase with ⟨hk, -⟩ | ⟨hk, -⟩ | ⟨hk, -⟩ | ⟨hk, -⟩ | rfl
    · rcases hc.kind with h | h <;> rw [hk] at h <;> cases h
    · rcases hc.kind with h | h <;> rw [hk] at h <;> cases h
    · rcases hc.kind with h | h <;> rw [hk] at h <;> cases h
    · rcases hc.kind with h | h <;> rw [hk] at h <;> cases h
    · exact (declaration_closes h).ends c hc
  refine ⟨hends, fun c c' hc hclean => ?_⟩
  -- both cursors are at tokens of one kind, so both productions read the same construct
  rcases hc.kind with hcut | hk
  · exact absurd hclean (hends c hcut)
  obtain ⟨p, hp, hcase⟩ := member_of_kind below c.kind
  rw [hp c rfl] at hclean
  rw [hp c rfl, hp c' hk]
  rcases hcase with ⟨-, rfl⟩ | ⟨-, rfl⟩ | ⟨-, rfl⟩ | ⟨hsemicolon, rfl⟩ | rfl
  · exact (includeDirective_closes hmore).follow c c' hc hclean
  · exact inheritance_closes.follow c c' hc hclean
  · exact (classDefinition_closes h hmore).follow c c' hc hclean
  · -- the semicolon is all of it
    have he : c.atEnd = false := Cursor.atEnd_of_kind (by rw [hsemicolon]; simp)
    refine ⟨?_, hc.skip_of he⟩
    show Node.new c'.current.begin c'.current.stop .empty =
      (Node.new c.current.begin c.current.stop .empty).relocate φ
    rw [hc.current_of he]
    simp
  · exact (declaration_closes h).follow c c' hc hclean

end

/-! ## Files -/

/-- Nothing is added to a construct without holes, as what is added is a hole. -/
theorem guarded_of_clean {p : Parse Node} {c : Cursor} (h : (guarded p c).1.holes = []) :
    guarded p c = p c ∧ ((p c).2.atEnd || (p c).2.left != c.left) = true := by
  rw [guarded_eq] at h ⊢
  split
  · rename_i htaken
    exact ⟨rfl, htaken⟩
  · rename_i hstalled
    rw [if_neg hstalled] at h
    exact absurd (Node.holesOf_eq_nil_of_combine h) (holesOf_singleton Node.isHole_wrong)

/-- Nothing is added to what takes a token. -/
theorem guarded_of_left {p : Parse Node} {c : Cursor} (h : (p c).2.left ≠ c.left) :
    guarded p c = p c := by
  rw [guarded_eq, if_pos (by simp [h])]

/-- What closes takes a token, so nothing is added to it. -/
theorem guarded_same {p q : Parse Node} {c c' : Cursor}
    (h : Closes φ more (Node.relocate φ) (·.holes = []) p q) (hc : c.Follows φ more c')
    (he : c.atEnd = false) (hclean : (guarded p c).1.holes = []) :
    Same φ more (Node.relocate φ) (guarded p c) (guarded q c') := by
  obtain ⟨hp, htaken⟩ := guarded_of_clean hclean
  rw [hp] at hclean
  have hs := h.follow c c' hc hclean
  have hleft : (p c).2.left ≠ c.left := by
    rw [Bool.or_eq_true, bne_iff_ne] at htaken
    rcases htaken with hend | hne
    · -- the end is not where the production started
      obtain ⟨ts, ha⟩ := Cursor.ahead_eq_cons he
      rw [(p c).2.left_eq, Cursor.ahead_eq_nil hend, c.left_eq, ha]
      simp
    · exact hne
  have hleft' : (q c').2.left ≠ c'.left := by
    rw [hs.follows.left, hc.left]
    omega
  rw [hp, guarded_of_left hleft']
  exact hs

theorem manyUntil_turn {stops : TokenKind → Bool} {item : Parse α} {c after : Cursor} {a : α}
    (hs : stops c.kind = false) (he : c.atEnd = false) (hi : item c = (a, after))
    (hl : after.left < c.left) :
    (manyUntil stops item c).1 = a :: (manyUntil stops item after).1 := by
  rw [manyUntil, hs, he, hi]
  simp [hl]

/-- A run of turns that all close goes on with what follows. -/
theorem Many.append {stops : TokenKind → Bool} {p : Parse Node} {c c' last : Cursor}
    {ns : List Node} (h : Closes φ more (Node.relocate φ) (·.holes = []) p p)
    (htakes : ∀ c, c.atEnd = false → (guarded p c).2.textEnd = c.textEnd)
    (hrun : Many stops (guarded p) c ns last) (hc : c.Follows φ more c')
    (hclean : holesOf ns = []) : ∃ d, last.Follows φ more d ∧ d.textEnd = c'.textEnd ∧
      (manyUntil stops (guarded p) c').1 =
        ns.map (Node.relocate φ) ++ (manyUntil stops (guarded p) d).1 := by
  -- each turn that is left of the run goes the same way with more behind it
  induction hrun generalizing c' with
  | done => exact ⟨c', hc, rfl, rfl⟩
  | @turn c after last n ns hs he hi hl _ ih =>
    obtain ⟨hn, hns⟩ : n.holes = [] ∧ holesOf ns = [] :=
      List.append_eq_nil_iff.mp ((List.flatMap_cons ..).symm.trans hclean)
    have hsame := guarded_same h hc he (by rwa [hi])
    rw [hi] at hsame
    obtain ⟨d, hd, hend, heq⟩ := ih hsame.follows hns
    refine ⟨d, hd, hend.trans (htakes c' (hc.atEnd_of he)), ?_⟩
    have hi' : guarded p c' = (n.relocate φ, (guarded p c').2) := Prod.ext hsame.result rfl
    have hl' : (guarded p c').2.left < c'.left := by
      rw [hsame.follows.left, hc.left]
      exact Nat.add_lt_add_right hl _
    rw [manyUntil_turn (hc.kind_of he ▸ hs) (hc.atEnd_of he) hi' hl', heq]
    rfl

/-- **Files that close are read one after the other.** The constructs that are read without holes
up to the end of a text come first when more follows, and then what is read from there. -/
theorem members_append (hmore : Separate more) (until_ : TokenKind) {c c' : Cursor}
    (hc : c.Follows φ more c') (hclean : holesOf (members until_ c).1 = []) :
    ∃ d, (members until_ c).2.Follows φ more d ∧ d.textEnd = c'.textEnd ∧
      (members until_ c').1 =
        (members until_ c).1.map (Node.relocate φ) ++ (members until_ d).1 := by
  have hsound := Nested.levels_sound maxDepth
  have hrun := (loops_unroll hsound).topLevel until_ c
  refine Many.append (member_closes (Nested.levels_tracks maxDepth) hmore) (fun d he => ?_) hrun
    hc hclean
  obtain ⟨hread, -⟩ := guarded_reads he (member_reads hsound)
  obtain ⟨ts, ht⟩ := hread.takes
  exact ht.textEnd

end Parse

end MudEdit
