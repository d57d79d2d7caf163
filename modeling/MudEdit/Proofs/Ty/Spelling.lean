import MudEdit.Proofs.Token.Spelled
import MudEdit.Proofs.Ty.Grouping

/-!
# The tokens of a type

A type is shown as source spells it. Of the tokens that its text is made of, two need a look at
what is behind them: the last one, and a bar or an opening parenthesis.
-/

namespace MudEdit

variable {rest : List Char} {items : List (TokenKind × Option Payload)}

namespace Ty

variable {t : Ty} {ts : List Ty}

mutual

/-- The tokens of the text of a type. -/
def spelling : Ty → List (TokenKind × Option Payload)
  | .basic kind none => [(.basic kind, none)]
  | .basic kind (some file) =>
    [(.basic kind, none), (.sign .less, none), (.string, some (.text file)), (.sign .greater, none)]
  | .array element =>
    (if element.isCompound then
      (.sign .leftParen, none) :: (spelling element ++ [(.sign .rightParen, none)])
    else spelling element) ++ [(.sign .leftBracket, none), (.sign .rightBracket, none)]
  | .or lhs rhs => spelling lhs ++ (.sign .pipe, none) :: spelling rhs
  | .function returns parameters variadic =>
    spelling returns ++ (.sign .leftParen, none) ::
      ([(.sign .comma, none)].intercalate (spellings parameters) ++ closing variadic)
  | .this => [(.keyword .thisWord, none)]
where
  /-- The tokens behind the parameters of a function. -/
  closing (variadic : Bool) : List (TokenKind × Option Payload) :=
    if variadic then [(.sign .ellipsis, none), (.sign .rightParen, none)]
    else [(.sign .rightParen, none)]

/-- The tokens of the texts of types. -/
def spellings : List Ty → List (List (TokenKind × Option Payload))
  | [] => []
  | t :: ts => spelling t :: spellings ts

end

theorem spellings_eq (ts : List Ty) : spellings ts = ts.map spelling := by
  induction ts with
  | nil => rfl
  | cons t ts ih => rw [spellings, ih]; rfl

/-- Whether the tokens of the text are read as they are meant: a word is of a program only where
it takes one, whose name is shown between the quotes, and no function results in a choice. -/
def isSpelled : Ty → Bool
  | basic kind file => file.all fun file => kind.takesFile && file.toList.all Text.isShown
  | function returns _ _ => !returns.isOr
  | this => false
  | _ => true

theorem all_isSpelled_grouped (h : t.all isSpelled = true) : t.grouped.all isSpelled = true := by
  refine all_grouped (fun _ _ _ => rfl) (fun _ _ _ _ => rfl) (fun t ht hor => ?_) h
  cases t with
  | or => exact Bool.noConfusion hor
  | function returns => simpa [isSpelled, grouped, isOr_grouped] using ht
  | basic | array | this => exact ht

/-! ## What a type starts and ends with -/

/-- Whether a type may start so, or what closes the parameters of a function. -/
def Begins (cs : List Char) : Prop :=
  ∃ c ∈ cs.head?, c ∈ ['(', ')', '.'] ∨ isWordStart c = true

theorem Begins.append {cs : List Char} (h : Begins cs) (rest : List Char) : Begins (cs ++ rest) :=
  h.imp fun _ => And.imp_left List.mem_head?_append_of_mem_head?

/-- The text of a type begins with a letter or a parenthesis, whatever its first part is. -/
theorem begins_text (t : Ty) : Begins t.text.toList := by
  induction t using induct with
  | step t ih =>
    have happend {a b : String} (h : Begins a.toList) : Begins (a ++ b).toList := by
      rw [String.toList_append]
      exact h.append b.toList
    cases t with
    | basic kind file =>
      have hword : Begins kind.text.toList := by cases kind <;> exact ⟨_, rfl, .inr rfl⟩
      cases file with
      | none => exact hword
      | some file => exact happend (happend (happend hword))
    | array element =>
      rw [text]
      split
      · exact happend (happend ⟨'(', rfl, .inl (by decide)⟩)
      · exact happend (ih element List.mem_cons_self)
    | or lhs rhs => exact happend (happend (ih lhs List.mem_cons_self))
    | function returns parameters variadic =>
      exact happend (happend (happend (ih returns List.mem_cons_self)))
    | this => exact ⟨'t', rfl, .inr rfl⟩

/-- Whether a type may end before it. -/
def Ends (cs : List Char) : Prop :=
  ∀ c ∈ cs.head?, isWordChar c = false ∧ Sign.greater.continuesWith c = false

theorem ends_cons {c : Char} (hc : isWordChar c = false ∧ Sign.greater.continuesWith c = false)
    (rest : List Char) : Ends (c :: rest) := by
  rintro d ⟨⟩
  exact hc

/-- Neither a bar nor a parenthesis makes a longer sign with what a type begins with. -/
theorem continuesWith_of_begins {s : Sign} (hs : s = .pipe ∨ s = .leftParen) (h : Begins rest) :
    ∀ c ∈ rest.head?, s.continuesWith c = false := by
  have hall : (['(', ')', '.'].all fun c =>
      !Sign.pipe.continuesWith c && !Sign.leftParen.continuesWith c) = true := by decide +kernel
  intro c hc
  obtain ⟨d, hd, hbegins⟩ := h
  obtain rfl := Option.mem_unique hc hd
  rcases hbegins with hsign | hletter
  · obtain ⟨hpipe, hparen⟩ : Sign.pipe.continuesWith c = false ∧
        Sign.leftParen.continuesWith c = false := by simpa using List.all_eq_true.mp hall c hsign
    rcases hs with rfl | rfl
    · exact hpipe
    · exact hparen
  · exact s.continuesWith_of_isWordChar (by simp [isWordChar, hletter])

/-! ## The text is made of the tokens -/

/-- The characters behind the parameters of a function. -/
def closingText (variadic : Bool) : List Char :=
  if variadic then ['.', '.', '.', ')'] else [')']

theorem ends_closingText (variadic : Bool) (rest : List Char) :
    Ends (closingText variadic ++ rest) := by
  cases variadic with
  | true => exact ends_cons (by decide) _
  | false => exact ends_cons (by decide) _

theorem begins_closingText (variadic : Bool) : Begins (closingText variadic) := by
  cases variadic with
  | true => exact ⟨'.', rfl, .inl (by decide)⟩
  | false => exact ⟨')', rfl, .inl (by decide)⟩

theorem spelled_closing (variadic : Bool) (h : Spelled rest items) :
    Spelled (closingText variadic ++ rest) (spelling.closing variadic ++ items) := by
  have hparen : Spelled (')' :: rest) ((.sign .rightParen, none) :: items) :=
    .sign_whole .rightParen (by decide) (by decide) (by decide) h
  cases variadic with
  | false => exact hparen
  | true =>
    have hspelled := Spelled.sign .ellipsis (by decide)
      (fun c _ => Sign.continuesWith_of_isWhole (by decide) c) hparen
    exact hspelled

/-- How the text of a type is read, whatever is behind it that a type may end before. -/
def ReadsAs (t : Ty) : Prop := ∀ (rest : List Char) (items : List (TokenKind × Option Payload)),
  Ends rest → Spelled rest items → Spelled (t.text.toList ++ rest) (t.spelling ++ items)

/-- Parameters have commas with a space between them. -/
theorem spelled_parameters (variadic : Bool) (hts : ∀ t ∈ ts, t.ReadsAs) (h : Spelled rest items) :
    Spelled ([',', ' '].intercalate (ts.map (·.text.toList)) ++ (closingText variadic ++ rest))
      ([(.sign .comma, none)].intercalate (ts.map spelling) ++
        (spelling.closing variadic ++ items)) := by
  induction ts with
  | nil => exact spelled_closing variadic h
  | cons t ts ih =>
    rw [List.forall_mem_cons] at hts
    cases ts with
    | nil =>
      rw [List.map_singleton, List.map_singleton, List.intercalate_singleton,
        List.intercalate_singleton]
      exact hts.1 _ _ (ends_closingText variadic rest) (spelled_closing variadic h)
    | cons u ts =>
      have hrest := ih hts.2
      simp only [List.map_cons, List.intercalate_cons_cons, List.append_assoc, List.cons_append,
        List.nil_append] at hrest ⊢
      -- a comma ends the type before it, and the blank behind it is skipped
      refine hts.1 _ _ (ends_cons (by decide) _) ?_
      exact .sign_whole .comma (by decide) (by decide) (by decide) (.blank (by decide) hrest)

theorem begins_parameters (ts : List Ty) (variadic : Bool) (rest : List Char) : Begins
    ([',', ' '].intercalate (ts.map (·.text.toList)) ++ (closingText variadic ++ rest)) := by
  cases ts with
  | nil => exact (begins_closingText variadic).append rest
  | cons t ts =>
    cases ts with
    | nil =>
      rw [List.map_singleton, List.intercalate_singleton]
      exact t.begins_text.append _
    | cons u ts =>
      simp only [List.map_cons, List.intercalate_cons_cons, List.append_assoc]
      exact t.begins_text.append _

/-- A basic type is read as its word, with its file in brackets where it has one. -/
theorem readsAs_basic (kind : BasicKind) (file : Option String)
    (h : isSpelled (basic kind file) = true) : ReadsAs (basic kind file) := by
  intro rest items hrest hspelled
  have hword : reservedWord? kind.text = some (.basic kind) := by cases kind <;> decide
  cases file with
  | none => exact .reserved hword (fun c hc => (hrest c hc).1) hspelled
  | some file =>
    obtain ⟨-, hshown⟩ := Bool.and_eq_true_iff.mp h
    have hchars : (text (basic kind (some file))).toList ++ rest =
        kind.text.toList ++ '<' :: ((Text.quoted file).toList ++ '>' :: rest) := by
      simp [text]
    -- the quote keeps the bracket before it a sign of its own
    obtain ⟨cs, hcs⟩ : ∃ cs, (Text.quoted file).toList ++ '>' :: rest = '\x22' :: cs :=
      ⟨_, by rw [Text.quoted, String.toList_ofList]; rfl⟩
    rw [hchars]
    refine .reserved hword (by rintro d ⟨⟩; decide) ?_
    refine .sign_cons .less (by decide) (by decide) (by rw [hcs]; rintro d ⟨⟩; decide) ?_
    refine .quoted (List.all_eq_true.mp hshown) ?_
    exact .sign_cons .greater (by decide) (by decide) (fun c hc => (hrest c hc).2) hspelled

theorem readsAs_array (h : t.ReadsAs) : (array t).ReadsAs := by
  intro rest items _ hspelled
  have hbrackets : Spelled ('[' :: ']' :: rest)
      ((.sign .leftBracket, none) :: (.sign .rightBracket, none) :: items) :=
    .sign_whole .leftBracket (by decide) (by decide) (by decide)
      (.sign_whole .rightBracket (by decide) (by decide) (by decide) hspelled)
  rw [text, spelling]
  split
  · have hparen : Spelled (')' :: '[' :: ']' :: rest) _ :=
      .sign_whole .rightParen (by decide) (by decide) (by decide) hbrackets
    have hinner := h _ _ (ends_cons (by decide) _) hparen
    have hbegins := t.begins_text.append (')' :: '[' :: ']' :: rest)
    simpa using Spelled.sign_cons .leftParen (by decide) (by decide)
      (continuesWith_of_begins (.inr rfl) hbegins) hinner
  · simpa using h _ _ (ends_cons (by decide) _) hbrackets

theorem readsAs_or {lhs rhs : Ty} (hlhs : lhs.ReadsAs) (hrhs : rhs.ReadsAs) :
    (or lhs rhs).ReadsAs := by
  intro rest items hrest hspelled
  have hbegins := rhs.begins_text.append rest
  have hpipe : Spelled ('|' :: (rhs.text.toList ++ rest)) _ := .sign_cons .pipe (by decide)
    (by decide) (continuesWith_of_begins (.inl rfl) hbegins) (hrhs _ _ hrest hspelled)
  simpa [text, spelling] using hlhs _ _ (ends_cons (by decide) _) hpipe

theorem readsAs_function {returns : Ty} (variadic : Bool) (hreturns : returns.ReadsAs)
    (hts : ∀ t ∈ ts, t.ReadsAs) : (function returns ts variadic).ReadsAs := by
  intro rest items _ hspelled
  have hparen : Spelled ('(' :: _) _ := .sign_cons .leftParen (by decide) (by decide)
    (continuesWith_of_begins (.inr rfl) (begins_parameters ts variadic rest))
    (spelled_parameters variadic hts hspelled)
  have hall := hreturns _ _ (ends_cons (by decide) _) hparen
  have hclosing : (if variadic = true then "...)" else ")").toList = closingText variadic := by
    cases variadic <;> rfl
  have hchars : (text (function returns ts variadic)).toList ++ rest =
      returns.text.toList ++ '(' :: ([',', ' '].intercalate (ts.map (·.text.toList)) ++
        (closingText variadic ++ rest)) := by
    simp [text, texts_eq, hclosing, String.toList_intercalate, Function.comp_def]
  rw [hchars, spelling, spellings_eq]
  simpa using hall

/-- **The text of a type is made of its tokens.** -/
theorem readsAs (h : t.all isSpelled = true) : t.ReadsAs := by
  induction t using induct with
  | step t ih =>
    obtain ⟨ht, hparts⟩ := all_iff.mp h
    replace ih s hs := ih s hs (hparts s hs)
    cases t with
    | basic kind file => exact readsAs_basic kind file ht
    | array element => exact readsAs_array (ih element List.mem_cons_self)
    | or lhs rhs =>
      have hrhs := ih rhs (List.mem_cons_of_mem _ List.mem_cons_self)
      exact readsAs_or (ih lhs List.mem_cons_self) hrhs
    | function returns parameters variadic =>
      exact readsAs_function variadic (ih returns List.mem_cons_self) fun t ht =>
        ih t (List.mem_cons_of_mem _ ht)
    | this => exact Bool.noConfusion ht

end Ty

end MudEdit
