import MudEdit.Proofs.Token.Rendering
import MudEdit.Text.Quoted

/-!
# Tokens without spaces between them

A word is read to its end if what is behind it is no part of a word, and a sign if it makes no
longer sign with what is behind it. A text in quotes is read again as it was if all of its
characters are shown: as they are, or by a backslash and one other character. `Spelled` puts a
text together from such tokens, from its end to its beginning.
-/

namespace MudEdit

open Text (byteSize isBlank quotedChar)

variable {cs rest : List Char} {items : List (TokenKind × Option Payload)}
  {text : String} {kind : TokenKind}

/-! ## Words -/

theorem Lexeme.read_word {c : Char} (hc : isWordStart c = true)
    (hcs : ∀ d ∈ cs, isWordChar d = true) (hrest : ∀ d ∈ rest.head?, isWordChar d = false) :
    Lexeme.read (c :: cs ++ rest) = some
      (match reservedWord? (String.ofList (c :: cs)) with
      | some kind => ⟨kind, none, (c :: cs).length⟩
      | none => ⟨.identifier, some (.text (String.ofList (c :: cs))), (c :: cs).length⟩) := by
  have hall : ∀ d ∈ c :: cs, isWordChar d = true :=
    List.forall_mem_cons.mpr ⟨by simp [isWordChar, hc], hcs⟩
  have hrun := (run_append hall hrest).1
  have hread := (Lexeme.Starts.word (cs ++ rest) hc).read
  rw [← List.cons_append, Lexeme.word, hrun] at hread
  exact hread

/-! ## Signs -/

namespace Sign

/-- Whether a longer sign starts with this one and then the character. -/
def continuesWith (s : Sign) (c : Char) : Bool :=
  signs.any fun p => (s.text.toList ++ [c]).isPrefixOf p.1.toList

theorem mem_signs (s : Sign) : (s.text, s) ∈ signs := by cases s <;> decide

/-- Whether no longer sign starts with this one. -/
def isWhole (s : Sign) : Bool :=
  signs.all fun p => p.1.toList.length ≤ s.text.toList.length ||
    !s.text.toList.isPrefixOf p.1.toList

theorem continuesWith_of_isWhole {s : Sign} (h : s.isWhole = true) (c : Char) :
    s.continuesWith c = false := by
  refine List.any_eq_false.mpr fun p hp hpre => ?_
  have hpre := List.isPrefixOf_iff_prefix.mp hpre
  have hself := List.isPrefixOf_iff_prefix.mpr ((List.prefix_append _ [c]).trans hpre)
  have hlength := hpre.length_le
  have hwhole := List.all_eq_true.mp h p hp
  rw [hself, Bool.not_true, Bool.or_false, decide_eq_true_eq] at hwhole
  simp only [List.length_append, List.length_singleton] at hlength
  omega

/-- There are no letters and no digits in signs. -/
theorem continuesWith_of_isWordChar {c : Char} (s : Sign) (h : isWordChar c = true) :
    s.continuesWith c = false := by
  have hall : (signs.all fun p => p.1.toList.all (!isWordChar ·)) = true := by decide +kernel
  refine List.any_eq_false.mpr fun p hp hpre => ?_
  have hmem : c ∈ p.1.toList := (List.isPrefixOf_iff_prefix.mp hpre).subset (by simp)
  have hletter := List.all_eq_true.mp (List.all_eq_true.mp hall p hp) c hmem
  exact absurd h (by simpa using hletter)

end Sign

/-- A sign that makes no longer one with what is behind it is the longest there. -/
theorem Lexeme.sign?_of_text (s : Sign) (h : ∀ c ∈ rest.head?, s.continuesWith c = false) :
    sign? (s.text.toList ++ rest) = some ⟨.sign s, none, s.text.length⟩ := by
  have hsorted : signs.Pairwise fun p q => q.1.toList.length ≤ p.1.toList.length := by
    decide +kernel
  have hone : ∀ p ∈ signs, ∀ q ∈ signs, p.1 = q.1 → p = q := by decide +kernel
  have hmem := s.mem_signs
  have hself : s.text.toList.isPrefixOf (s.text.toList ++ rest) = true :=
    List.isPrefixOf_iff_prefix.mpr (List.prefix_append ..)
  have hsome : (signs.find? fun p => p.1.toList.isPrefixOf (s.text.toList ++ rest)).isSome = true :=
    List.find?_isSome.mpr ⟨_, hmem, hself⟩
  obtain ⟨p, hp⟩ := Option.isSome_iff_exists.mp hsome
  obtain ⟨hpre, before, after, hsplit, hbefore⟩ := List.find?_eq_some_iff_append.mp hp
  -- signs that are tried earlier are no shorter
  have hle : s.text.toList.length ≤ p.1.toList.length := by
    rw [hsplit] at hmem hsorted
    rcases List.mem_append.mp hmem with hmem | hmem
    · exact absurd (hbefore _ hmem) (by simp [hself])
    · rcases List.mem_cons.mp hmem with heq | hmem
      · rw [← heq]
      · exact (List.pairwise_cons.mp (List.pairwise_append.mp hsorted).2.1).1 _ hmem
  obtain ⟨more, hmore⟩ := List.prefix_of_prefix_length_le (List.prefix_append ..)
    (List.isPrefixOf_iff_prefix.mp hpre) hle
  have hnil : more = [] := by
    cases more with
    | nil => rfl
    | cons d ds =>
      have hhead : d ∈ rest.head? := by
        have hpre := List.isPrefixOf_iff_prefix.mp hpre
        rw [← hmore, List.prefix_append_right_inj] at hpre
        obtain ⟨tail, rfl⟩ := hpre
        exact rfl
      refine absurd (h d hhead) ?_
      rw [Bool.not_eq_false, Sign.continuesWith, List.any_eq_true]
      refine ⟨p, List.mem_of_find?_eq_some hp, List.isPrefixOf_iff_prefix.mpr ⟨ds, ?_⟩⟩
      rw [← hmore, List.append_assoc]
      rfl
  have htext : p.1 = s.text := String.toList_inj.mp (by rw [← hmore, hnil, List.append_nil])
  have heq := hone p (List.mem_of_find?_eq_some hp) _ hmem htext
  rw [sign?, hp, heq]
  rfl

/-- A sign is read as itself where the next character does not make it longer. -/
theorem Lexeme.read_sign (s : Sign) (hslash : s.text.toList.head? ≠ some '/')
    (h : ∀ c ∈ rest.head?, s.continuesWith c = false) :
    Lexeme.read (s.text.toList ++ rest) = some ⟨.sign s, none, s.text.length⟩ := by
  -- no sign opens a literal, a directive or a word, so the fixed list of them is looked through
  have hall : (signs.all fun p => p.1.toList.head?.any fun c =>
      !(['\x22', '\x27', '#'].contains c) && !isWordChar c) = true := by decide +kernel
  obtain ⟨c, hc, hfirst⟩ := (Option.any_eq_true _ _).mp (List.all_eq_true.mp hall _ s.mem_signs)
  obtain ⟨⟨hquote, hapostrophe, hhash⟩, hletter, hdigit⟩ : (c ≠ '\x22' ∧ c ≠ '\x27' ∧ c ≠ '#') ∧
      isWordStart c = false ∧ c.isDigit = false := by simpa [isWordChar] using hfirst
  obtain ⟨cs, hcs⟩ := List.head?_eq_some_iff.mp hc
  have hsign := sign?_of_text s h
  have hbare : Lexeme.Bare c (cs ++ rest) := by
    refine ⟨hquote, hapostrophe, hdigit, hletter, ?_, fun hc => absurd hc hhash, ?_⟩
    · rintro rfl
      exact absurd hc hslash
    · exact Bool.eq_false_iff.mpr fun hinclude => hhash (Lexeme.isInclude_cons hinclude)
  rw [hcs, List.cons_append] at hsign ⊢
  rw [Lexeme.read_of_bare hbare, hsign]
  rfl

/-! ## Text in quotes -/

namespace Text

/-- Whether the character is shown between double quotes: as it is, or by a backslash and one
other character. -/
def isShown (c : Char) : Bool :=
  ['\x22', '\n', '\r', '\t', '\x00', '\\'].contains c || !isEscaped c

/-- A character that is shown is read again between quotes. -/
theorem delimited_quotedChar_append {c : Char} (h : isShown c = true) (rest : List Char) :
    Lexeme.delimited '\x22' (quotedChar '\x22' c ++ rest) =
      (c :: (Lexeme.delimited '\x22' rest).1,
        (Lexeme.delimited '\x22' rest).2 + (quotedChar '\x22' c).length) := by
  unfold quotedChar
  split
  · subst c
    exact Lexeme.delimited_escape (by decide) rest
  · split
    · exact Lexeme.delimited_escape (by decide) rest
    · exact Lexeme.delimited_escape (by decide) rest
    · exact Lexeme.delimited_escape (by decide) rest
    · exact Lexeme.delimited_escape (by decide) rest
    · exact Lexeme.delimited_escape (by decide) rest
    · rename_i hquote _ hline hreturn htab hnul hbackslash
      -- a character that is shown and none of those above is written as it is
      have hplain : isEscaped c = false := by
        refine Bool.eq_false_iff.mpr fun hescaped => ?_
        simp only [isShown, hescaped, Bool.not_true, Bool.or_false, List.contains_iff_mem,
          List.mem_cons, List.not_mem_nil, or_false] at h
        rcases h with h | h | h | h | h | h
        exacts [hquote h, hline h, hreturn h, htab h, hnul h, hbackslash h]
      rw [if_neg (by simp [hplain])]
      exact Lexeme.delimited_cons hline hbackslash hquote rest

/-- A text whose characters are shown is read again, whatever is behind the quote. -/
theorem read_quoted (h : ∀ c ∈ text.toList, isShown c = true) (rest : List Char) :
    Lexeme.read ((Text.quoted text).toList ++ rest) =
      some ⟨.string, some (.text text), (Text.quoted text).toList.length⟩ := by
  have hchars : (Text.quoted text).toList =
      '\x22' :: (text.toList.flatMap (quotedChar '\x22') ++ ['\x22']) := String.toList_ofList
  have hread := (Lexeme.Starts.string
    (text.toList.flatMap (quotedChar '\x22') ++ '\x22' :: rest)).read
  rw [Lexeme.string, delimited_flatMap fun c hc => delimited_quotedChar_append (h c hc)] at hread
  dsimp only at hread
  rw [String.ofList_toList] at hread
  rw [hchars, List.cons_append, List.append_assoc, List.length_cons, List.length_append]
  exact hread

end Text

/-! ## Texts of tokens -/

/-- The text is made of tokens of these kinds with these payloads, and of blanks. -/
inductive Spelled : List Char → List (TokenKind × Option Payload) → Prop
  | nil : Spelled [] []
  | blank {b : Char} {cs : List Char} {items : List (TokenKind × Option Payload)} :
      isBlank b = true → Spelled cs items → Spelled (b :: cs) items
  | token {word rest : List Char} {l : Lexeme} {items : List (TokenKind × Option Payload)} :
      (∀ c ∈ word.head?, isBlank c = false) → Lexeme.read (word ++ rest) = some l →
      l.size = word.length → l.kind.isComment = false → l.kind ≠ .eof → Spelled rest items →
      Spelled (word ++ rest) ((l.kind, l.payload) :: items)

namespace Spelled

/-- A reserved word, if what is behind it is no part of a word. -/
theorem reserved (hword : reservedWord? text = some kind)
    (hrest : ∀ c ∈ rest.head?, isWordChar c = false) (h : Spelled rest items) :
    Spelled (text.toList ++ rest) ((kind, none) :: items) := by
  -- every reserved word is a word, and no comment and no end
  have hall : (vocabulary.all fun p => p.1.toList.head?.any isWordStart &&
      p.1.toList.tail.all isWordChar && !p.2.isComment && p.2 != .eof) = true := by decide +kernel
  obtain ⟨p, hp, rfl⟩ := Option.map_eq_some_iff.mp hword
  obtain ⟨⟨⟨hhead, htail⟩, hcomment⟩, heof⟩ : ((p.1.toList.head?.any isWordStart = true ∧
      p.1.toList.tail.all isWordChar = true) ∧ p.2.isComment = false) ∧ p.2 ≠ .eof := by
    simpa using List.all_eq_true.mp hall p (List.mem_of_find?_eq_some hp)
  obtain rfl : p.1 = text := by simpa using List.find?_some hp
  cases hchars : p.1.toList with
  | nil => rw [hchars] at hhead; exact Bool.noConfusion hhead
  | cons c cs =>
    rw [hchars] at hhead htail
    have htext : String.ofList (c :: cs) = p.1 := by rw [← hchars, String.ofList_toList]
    have hstart : isWordStart c = true := hhead
    have htail : ∀ d ∈ cs, isWordChar d = true := List.all_eq_true.mp htail
    have hread := Lexeme.read_word hstart htail hrest
    rw [htext, hword] at hread
    refine .token (fun d hd => ?_) hread rfl hcomment heof h
    obtain rfl := Option.some.inj hd
    exact isBlank_of_isWordChar (by simp [isWordChar, hstart])

/-- A name, if what is behind it is no part of a word. -/
theorem name (hname : IsName text) (hrest : ∀ c ∈ rest.head?, isWordChar c = false)
    (h : Spelled rest items) :
    Spelled (text.toList ++ rest) ((.identifier, some (.text text)) :: items) := by
  obtain ⟨⟨c, cs, hchars, hstart, htail⟩, hfree⟩ := hname
  have htext : String.ofList (c :: cs) = text := by rw [← hchars, String.ofList_toList]
  have hread := Lexeme.read_word hstart htail hrest
  rw [htext, hfree] at hread
  rw [hchars]
  refine .token (fun d hd => ?_) hread rfl rfl (by simp) h
  obtain rfl := Option.some.inj hd
  exact isBlank_of_isWordChar (by simp [isWordChar, hstart])

/-- A sign, if it makes no longer one with what is behind it. -/
theorem sign (s : Sign) (hslash : s.text.toList.head? ≠ some '/')
    (hrest : ∀ c ∈ rest.head?, s.continuesWith c = false) (h : Spelled rest items) :
    Spelled (s.text.toList ++ rest) ((.sign s, none) :: items) := by
  have hall : (signs.all fun p => !p.1.toList.head?.any isBlank) = true := by decide +kernel
  have hblank := List.all_eq_true.mp hall _ s.mem_signs
  exact .token ((Option.any_eq_false _ _).mp (Bool.not_eq_true' _ ▸ hblank))
    (Lexeme.read_sign s hslash hrest) String.length_toList.symm rfl (by simp) h

/-- A sign of one character. -/
theorem sign_cons (s : Sign) {c : Char} (hs : s.text.toList = [c]) (hslash : c ≠ '/')
    (hrest : ∀ d ∈ rest.head?, s.continuesWith d = false) (h : Spelled rest items) :
    Spelled (c :: rest) ((.sign s, none) :: items) := by
  have hspelled := sign s (by simpa [hs] using hslash) hrest h
  rwa [hs] at hspelled

/-- A sign of one character that no longer one starts with. -/
theorem sign_whole (s : Sign) {c : Char} (hs : s.text.toList = [c]) (hslash : c ≠ '/')
    (hwhole : s.isWhole = true) (h : Spelled rest items) :
    Spelled (c :: rest) ((.sign s, none) :: items) :=
  sign_cons s hs hslash (fun d _ => Sign.continuesWith_of_isWhole hwhole d) h

/-- A text in quotes. -/
theorem quoted (hshown : ∀ c ∈ text.toList, Text.isShown c = true) (h : Spelled rest items) :
    Spelled ((Text.quoted text).toList ++ rest) ((.string, some (.text text)) :: items) := by
  refine .token (fun c hc => ?_) (Text.read_quoted hshown rest) rfl rfl (by simp) h
  rw [show (Text.quoted text).toList = '\x22' :: _ from String.toList_ofList] at hc
  obtain rfl := Option.some.inj hc
  rfl

/-- What is spelled is scanned into its tokens, wherever it begins. -/
theorem scanned (h : Spelled cs items) (at_ : Nat) : ∃ ts, Scanned at_ cs ts ∧
    ts.map (fun t => (t.kind, t.payload)) = items ∧
      ∀ t ∈ ts, t.isSignificant = true := by
  induction h generalizing at_ with
  | nil => exact ⟨[], .blank (by simp), rfl, by simp⟩
  | @blank b cs items hb _ ih =>
    obtain ⟨ts, hts, hitems, hall⟩ := ih (at_ + byteSize [b])
    exact ⟨ts, .skip (List.forall_mem_singleton.mpr hb) hts, hitems, hall⟩
  | @token word rest l items hstart hread hsize hcomment heof _ ih =>
    obtain ⟨ts, hts, hitems, hall⟩ := ih (at_ + byteSize [] + byteSize word)
    have hscanned : Scanned at_ ([] ++ (word ++ rest)) _ :=
      .token (by simp) hstart hread hsize hts
    refine ⟨_, hscanned, by rw [List.map_cons, hitems]; rfl, List.forall_mem_cons.mpr ⟨?_, hall⟩⟩
    simp [Token.isSignificant, Token.ofLexeme, hcomment, heof]

end Spelled

end MudEdit
