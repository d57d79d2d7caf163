import MudEdit.Proofs.Forest.Concatenation
import MudEdit.Proofs.Ty.Reading

/-!
# Types that are shown and read again

In a declaration, what a type is shown as is read as that type with its choices grouped to the
left. That is so as long as nothing in the type is too tall to grow: a choice whose left part is
as tall as nodes get is not read to its end.
-/

namespace MudEdit

open Parse (Ensures)

variable {c c' : Cursor} {d : Nat} {more : List (TokenKind × Option Payload)} {mode : Mode}
  {below : Nested} {n title : Node} {begin : Nat} {mods : Option Node}

/-! ## Variables without a value -/

namespace Parse

theorem initialValue_none (h : c.kind ≠ .sign .assign) : initialValue below c = (none, c) :=
  Ensures.eq (.eats (fun hk => absurd hk h) fun _ => .pure rfl)

/-- A semicolon ends a variable. -/
theorem variableRest_ends (hc : c.At d ((.sign .semicolon, none) :: more)) :
    (variableRest below begin mods n title).Ensures c fun m c' =>
      (∃ stop, m = .new begin stop (.variableDef mods (some n) title none)) ∧ c' = c.skip := by
  have hassign : c.kind ≠ .sign .assign := fun h => absurd (hc.kind.symm.trans h) (by simp)
  exact .bind_eq (initialValue_none hassign)
    (.bind_eq (needed_of_kind _ hc.kind) (.lastStop (.pure ⟨⟨_, rfl⟩, rfl⟩)))

/-- Without a semicolon, a variable has a hole. -/
theorem variableRest_hole (hassign : c.kind ≠ .sign .assign)
    (hsemicolon : c.kind ≠ .sign .semicolon) :
    (variableRest below begin mods n title).Ensures c fun m _ => m.holes ≠ [] := by
  refine .bind_eq (initialValue_none hassign)
    (Ensures.bind (P := fun hs _ => holesOf hs ≠ []) (holesOf_expect _ hsemicolon) ?_)
  exact fun hs c' hholes => .lastStop (.pure fun h => hholes (Node.holesOf_eq_nil_of_combine h))

/-- A variable with a type is what is read behind its type. -/
theorem member_let {P Q : Node → Cursor → Prop} {payload : Option Payload}
    (hc : c.At d
      ((.keyword .letWord, none) :: (.identifier, payload) :: (.sign .colon, none) :: more))
    (htype : below.type.Ensures c.skip.skip.skip P)
    (hrest : ∀ n c', P n c' → (variableRest below c.current.begin none n
      (nameNode c.skip.current)).Ensures c' Q) :
    (member below).Ensures c Q := by
  have hkind : c.kind = .keyword .letWord := hc.kind
  refine member_declared hkind (.inl rfl) ?_
  rw [if_pos (beq_self_eq_true _)]
  -- word, name and colon are one token each, and behind them stands the type
  have hcolon := hc.skip.skip
  have hname : name c.skip = (nameNode c.skip.current, c.skip.skip) :=
    Ensures.eq (.eat? (fun _ => .pure rfl) fun h => absurd hc.skip.kind h)
  have htyped : (annotatedType below true).Ensures c.skip.skip fun o c' =>
      ∃ n, o = some n ∧ P n c' := by
    unfold annotatedType
    refine .sees (.nextKind ?_)
    rw [hcolon.kind]
    exact .advance (htype.bind fun n c' hn => .pure ⟨n, rfl, hn⟩)
  refine .advance (.bind_eq hname (htyped.bind ?_))
  rintro _ c' ⟨n, rfl, hn⟩
  exact hrest n c' hn

/-- Holes of the first construct are holes of all of them. -/
theorem members_hole (hkind : c.kind ≠ .eof)
    (h : (member (.levels maxDepth)).Ensures c fun m _ => m.holes ≠ []) :
    holesOf (members .eof c).1 ≠ [] := by
  show holesOf (manyUntil (· == .eof) (guarded (member (.levels maxDepth))) c).1 ≠ []
  generalize member (.levels maxDepth) = p at h ⊢
  have hguarded : (guarded p c).1.holes ≠ [] := fun hclean =>
    h (by rw [← (guarded_of_clean hclean).1]; exact hclean)
  generalize guarded p = item at hguarded ⊢
  rw [manyUntil, beq_eq_false_iff_ne.mpr hkind, Cursor.atEnd_of_kind hkind, if_neg (by simp)]
  generalize item c = turned at hguarded ⊢
  obtain ⟨m, after⟩ := turned
  dsimp only
  split <;> exact fun hclean => hguarded (List.append_eq_nil_iff.mp hclean).1

end Parse

/-! ## The text of a declaration -/

/-- A text that is made of tokens is read from them. -/
theorem Spelled.significant_eq {text : String} {items : List (TokenKind × Option Payload)}
    (h : Spelled text.toList items) (mode : Mode) :
    (significant mode text).map (fun t => (t.kind, t.payload)) = items := by
  obtain ⟨ts, hts, hitems, hall⟩ := h.scanned 0
  rw [significant_editor, hts.lex_eq, List.filter_append, List.filter_eq_self.mpr hall, ← hitems]
  exact congrArg _ (List.append_nil ts)

namespace Ty

variable {t lhs rhs : Ty}

/-- Around the tokens of the type are those of the declaration. -/
theorem significant_declaration (h : t.all isSpelled = true) (mode : Mode) :
    (significant mode ("let v: " ++ t.text ++ ";")).map (fun t => (t.kind, t.payload)) =
      (.keyword .letWord, none) :: (.identifier, some (.text "v")) :: (.sign .colon, none) ::
        (t.spelling ++ [(.sign .semicolon, none)]) := by
  have hv : IsName "v" := ⟨⟨'v', [], rfl, by decide, by simp⟩, by decide⟩
  have hlet : reservedWord? "let" = some (.keyword .letWord) := by decide
  have hsemicolon : Spelled [';'] [(.sign .semicolon, none)] :=
    .sign_whole .semicolon (by decide) (by decide) (by decide) .nil
  have htype := t.readsAs h _ _ (ends_cons (by decide) []) hsemicolon
  -- from the end backwards, since each word asks what follows it
  have hcolon : Spelled (':' :: ' ' :: (t.text.toList ++ [';'])) _ :=
    .sign_cons .colon (by decide) (by decide) (by rintro c ⟨⟩; decide) (.blank (by decide) htype)
  have hname := Spelled.name hv (by rintro c ⟨⟩; decide) hcolon
  have hall := Spelled.reserved hlet (by rintro c ⟨⟩; decide) (.blank (b := ' ') (by decide) hname)
  refine Spelled.significant_eq ?_ mode
  simpa using hall

/-- At the start of the declaration. -/
theorem start_at (h : t.all isSpelled = true) (mode : Mode) :
    (Reading.start mode ("let v: " ++ t.text ++ ";")).cursor.At 0
      ((.keyword .letWord, none) :: (.identifier, some (.text "v")) :: (.sign .colon, none) ::
        (t.spelling ++ [(.sign .semicolon, none)])) :=
  ⟨rfl, significant_declaration h mode⟩

/-- A type that is read to its end is the type of the variable. -/
theorem ReadsNested.declared (hread : t.ReadsNested) (h : t.all isSpelled = true)
    (hnesting : t.nesting < maxDepth) (mode : Mode) :
    ∃ begin stop n title, (Forest.parse mode ("let v: " ++ t.text ++ ";")).nodes =
      [.new begin stop (.variableDef none (some n) title none)] ∧ n.Denotes t ∧
        title.kind = .name "v" ∧ title.holes = [] := by
  rw [parse_nodes]
  have hc := start_at h mode
  generalize (Reading.start mode ("let v: " ++ t.text ++ ";")).cursor = c at hc ⊢
  have hkind : c.kind = .keyword .letWord := hc.kind
  -- the declaration is the one member of the text
  have hmember : (Parse.member (.levels maxDepth)).Ensures c fun m c' =>
      (∃ stop n, m = .new c.current.begin stop
        (.variableDef none (some n) (Parse.nameNode c.skip.current) none) ∧ n.Denotes t) ∧
      c'.At 0 [] := by
    refine Parse.member_let hc (hread hnesting (Nat.le_of_eq (Nat.zero_add _))
      (.cons (by simp [onward]) _) hc.skip.skip.skip) ?_
    rintro n c₁ hn
    refine (Parse.variableRest_ends hn.ahead).mono ?_
    rintro m _ ⟨⟨stop, rfl⟩, rfl⟩
    exact ⟨⟨stop, n, rfl, hn.denotes⟩, hn.ahead.skip⟩
  obtain ⟨⟨stop, n, hm, hn⟩, hend⟩ := hmember
  refine ⟨_, stop, n, _, Parse.members_single (Prod.ext hm rfl) (by rw [hkind]; simp) ?_, hn,
    congrArg NodeKind.name (hc.skip.text rfl), ?_⟩
  · simpa using hend.contents
  · exact Node.holes_eq_nil.mpr ⟨rfl, List.forall_mem_nil _⟩

/-- A choice whose left part does not grow is not read to its end. -/
theorem ReadsChosen.unread (hread : lhs.ReadsChosen) (htall : maxHeight ≤ lhs.height + 1)
    (h : (or lhs rhs).all isSpelled = true) (hnesting : lhs.nesting < maxDepth) (mode : Mode) :
    (Forest.parse mode ("let v: " ++ (or lhs rhs).text ++ ";")).holes ≠ [] := by
  rw [Forest.holes, parse_nodes]
  have hc := start_at h mode
  generalize (Reading.start mode ("let v: " ++ (or lhs rhs).text ++ ";")).cursor = c at hc ⊢
  have hkind : c.kind = .keyword .letWord := hc.kind
  rw [spelling, List.append_assoc, List.cons_append] at hc
  have htype : (Nested.levels maxDepth).type.Ensures c.skip.skip.skip fun n c' =>
      c'.kind = .sign .pipe := by
    refine (hread.ends (k := maxDepth - 1) (Nat.le_pred_of_lt hnesting) (by decide)
      (.cons (by simp) _) hc.skip.skip.skip fun n c' hn _ => ?_).mono fun n c' hn => hn.ahead.kind
    -- the left part is too tall for what it would grow to
    unfold Parse.typeAlternative
    rw [hn.canGrow, decide_eq_false (Nat.not_lt.mpr htall)]
    exact .pure ⟨rfl, rfl⟩
  exact Parse.members_hole (by rw [hkind]; simp) (Parse.member_let hc htype fun n c' hpipe =>
    Parse.variableRest_hole (by rw [hpipe]; simp) (by rw [hpipe]; simp))

/-- **A type that is shown is read again.** -/
theorem text_reads_back (mode : Mode) (t : Ty) (hspelled : t.all isSpelled = true)
    (hheight : t.height ≤ 60) (hreached : t.grouped.all isReached = true) :
    (Forest.parse mode ("let v: " ++ t.text ++ ";")).holes = [] ∧
      ∃ begin stop type title, (Forest.parse mode ("let v: " ++ t.text ++ ";")).nodes =
        [.mk begin stop (.variableDef none (some type) title none)] ∧ title.kind = .name "v" ∧
          ofNode type = t.grouped ∧ t.Regroups (ofNode type) := by
  have hregroups := Regroups.grouped t
  -- the text of a type is that of its grouped form, so it is the grouped form that is read
  have hgrouped := all_isSpelled_grouped hspelled
  have hread := readsChosen hgrouped t.all_isGrouped hreached
  have hnesting : t.grouped.nesting < maxDepth := by
    rw [← hregroups.nesting_eq]
    exact Nat.lt_of_le_of_lt (Nat.le_trans t.nesting_le_height hheight) (by decide)
  obtain ⟨begin, stop, type, title, hnodes, htype, htitle, hclean⟩ :=
    hread.nested.declared hgrouped hnesting mode
  rw [← hregroups.text_eq] at hnodes
  rw [Forest.holes, hnodes]
  refine ⟨?_, _, _, type, title, rfl, htitle, htype.type, by rwa [htype.type]⟩
  refine List.flatMap_eq_nil_iff.mpr (List.forall_mem_singleton.mpr ?_)
  exact Node.holes_eq_nil.mpr ⟨rfl, List.forall_mem_cons.mpr
    ⟨htype.clean, List.forall_mem_singleton.mpr hclean⟩⟩

/-- A callback with a choice that is not grouped to the left. -/
theorem text_reads_back_callback :
    let t := function void [array (or (plain .int) (or (plain .string) (plain .symbol))),
      object "/std/room"] true
    (t.all isSpelled = true ∧ t.height ≤ 60 ∧ t.grouped.all isReached = true) ∧
      (Forest.parse .editor ("let v: " ++ t.text ++ ";")).holes = [] ∧
      ∃ begin stop type title, (Forest.parse .editor ("let v: " ++ t.text ++ ";")).nodes =
        [.mk begin stop (.variableDef none (some type) title none)] ∧ title.kind = .name "v" ∧
          ofNode type = t.grouped ∧ t.Regroups (ofNode type) :=
  have hcallback := ⟨by decide +kernel, by decide +kernel, by decide +kernel⟩
  ⟨hcallback, text_reads_back .editor _ hcallback.1 hcallback.2.1 hcallback.2.2⟩

/-! ## Types that are not read again -/

/-- A function that results in a choice is shown as a choice between types and a function. -/
theorem text_function_or (lhs rhs : Ty) (ts : List Ty) (variadic : Bool) :
    (function (or lhs rhs) ts variadic).text = (or lhs (function rhs ts variadic)).text := by
  simp only [text, String.append_assoc]

/-- There are choices that are not read to their end, and functions that are read as choices. -/
theorem text_not_reads_back :
    (let wide := or ((fun t => or t t)^[7] (plain .int)) (plain .int)
     wide.height ≤ 60 ∧ (Forest.parse .editor ("let v: " ++ wide.text ++ ";")).holes ≠ []) ∧
      let chosen := function (or (plain .int) (plain .string)) [] false
      chosen.height ≤ 60 ∧ ∃ begin stop type title,
        (Forest.parse .editor ("let v: " ++ chosen.text ++ ";")).nodes =
          [.mk begin stop (.variableDef none (some type) title none)] ∧
            ¬chosen.Regroups (ofNode type) := by
  refine ⟨⟨by decide +kernel, ?_⟩, by decide +kernel, ?_⟩
  · have hregroups := (Regroups.grouped ((fun t => or t t)^[7] (plain .int))).left (plain .int)
    rw [hregroups.text_eq]
    exact (readsChosen (by decide +kernel) (all_isGrouped _) (by decide +kernel)).unread
      (by decide +kernel) (by decide +kernel) (by decide +kernel) .editor
  · have hspelled : (or (plain .int) (function (plain .string) [] false)).all isSpelled = true := by
      decide +kernel
    have hread := readsChosen hspelled (by decide +kernel) (by decide +kernel)
    obtain ⟨begin, stop, type, title, hnodes, htype, -⟩ :=
      hread.nested.declared hspelled (by decide +kernel) .editor
    rw [text_function_or, hnodes]
    -- a function is read as a choice, and regrouping makes no choice of a function
    refine ⟨_, _, type, title, rfl, fun hregroups => ?_⟩
    have hor := hregroups.isOr_eq
    rw [htype.type] at hor
    exact Bool.noConfusion hor

end Ty

end MudEdit
