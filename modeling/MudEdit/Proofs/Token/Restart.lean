import Mathlib.Data.List.Basic
import MudEdit.Proofs.Text.Boundary
import MudEdit.Proofs.Token.Scanned

/-!
# Reading on from another place

No token depends on what is behind it. What a cursor has ahead is therefore read as a text of
its own, only so many bytes further on, and a lexer that is sent to an offset gives the tokens of
what is ahead there. Where a token begins these are the token and all that come after it, so from
there on a text can be followed lexeme by lexeme.
-/

namespace MudEdit

open Text (byteSize charsUpTo isBlank Stream)

variable {mode : Mode} {text : String} {cs : List Char} {t : Token} {ts us pre post : List Token}
  {at_ : Nat}

/-! ## What is ahead, as a text of its own -/

namespace Text.Stream

variable {s past : Stream} {fuel : Nat}

/-- A token takes a character at least. -/
theorem length_after_lt (h : s.token? = some (t, past)) : past.after.length < s.after.length := by
  obtain ⟨l, hread, heq⟩ := Option.map_eq_some_iff.mp h
  obtain ⟨-, rfl⟩ := Prod.mk.inj heq
  have hpos := (Lexeme.read_sound hread).size_pos
  have hle := (Lexeme.starts_of_read hread).size_le
  have hskip : s.skipBlanks.after.length ≤ s.after.length := by
    rw [after_skipBlanks]
    exact (List.dropWhile_suffix isBlank).length_le
  rw [after_forward, List.length_drop]
  omega

/-- **The tokens ahead are those of what is ahead**, from where the cursor is. -/
theorem tokens_eq (mode : Mode) (hfuel : s.after.length ≤ fuel) : s.tokens mode fuel =
    (lex mode (.ofList s.after)).map (Token.relocate (.shift s.position)) := by
  have heditor : s.tokens .editor fuel =
      (lex .editor (.ofList s.after)).map (Token.relocate (.shift s.position)) := by
    obtain ⟨ts, hts, hscanned⟩ := Scanned.of_tokens hfuel
    obtain ⟨us, hus, hscanned'⟩ := lex_scanned (.ofList s.after)
    have hshift := hscanned'.shift s.position
    rw [String.toList_ofList, Nat.zero_add] at hshift
    have heof : Token.relocate (.shift s.position)
        (.eof (String.ofList s.after).utf8ByteSize) = .eof s.size := by
      rw [utf8ByteSize_ofList, size, Nat.add_comm]
      rfl
    rw [hts, hus, List.map_append, List.map_singleton, heof, hscanned.unique hshift]
  -- the other mode drops comments only, which moving the tokens leaves as they are
  cases mode with
  | editor => exact heditor
  | interpretation =>
    rw [tokens_interpretation, lex_interpretation, heditor, List.filter_map]
    rfl

/-- More fuel than there are characters ahead reads no more. -/
theorem tokens_of_le (mode : Mode) (hfuel : s.after.length ≤ fuel) :
    s.tokens mode fuel = s.tokens mode s.after.length := by
  rw [tokens_eq mode hfuel, tokens_eq mode (Nat.le_refl _)]

end Text.Stream

/-! ## Reading token by token -/

namespace Lexer

variable {s : Stream} {l : Lexer}

/-- Reading one token gives the first of those ahead and leaves the others, or it gives the end. -/
theorem scan_cases (mode : Mode) {fuel : Nat} (hfuel : s.after.length ≤ fuel) :
    (scan mode fuel s).1.kind = .eof ∧ s.tokens mode fuel = [(scan mode fuel s).1] ∨
      (scan mode fuel s).1.kind ≠ .eof ∧ s.tokens mode fuel = (scan mode fuel s).1 ::
        (scan mode fuel s).2.tokens mode (scan mode fuel s).2.after.length := by
  induction fuel generalizing s with
  | zero => exact .inl ⟨rfl, rfl⟩
  | succ fuel ih =>
    rw [scan, Stream.tokens]
    cases htoken : s.token? with
    | none => exact .inl ⟨rfl, rfl⟩
    | some found =>
      obtain ⟨t, past⟩ := found
      have hlt := Stream.length_after_lt htoken
      have hpast : past.after.length ≤ fuel := by omega
      -- a token that is dropped is scanned past; the next one found is the result
      by_cases hdrop : mode.drops t.kind = true
      · simp only [hdrop, if_true]
        exact ih hpast
      · have hchars : s.chars = (String.ofList s.chars).toList := String.toList_ofList.symm
        have hkind := (Stream.token?_spec hchars htoken).1.kind_ne
        simp only [hdrop]
        exact .inr ⟨hkind, congrArg (t :: ·) (Stream.tokens_of_le mode hpast)⟩

/-- After the end there is nothing. -/
theorem drain_of_finished (h : l.finished = true) (n : Nat) : (l.drain n).1 = [] := by
  cases n with
  | zero => rfl
  | succ n => rw [drain, next?, if_pos h]

/-- **Token by token** the tokens ahead are given, and nothing after the end. -/
theorem drain_eq_take (h : l.finished = false) (n : Nat) :
    (l.drain n).1 = (l.stream.tokens l.mode l.stream.after.length).take n := by
  induction n generalizing l with
  | zero => rfl
  | succ n ih =>
    -- one call of `drain` takes one scan, then either the end or the rest
    let next := scan l.mode l.stream.after.length l.stream
    have hdrain : (l.drain (n + 1)).1 =
        next.1 :: (({ l with stream := next.2, finished := next.1.kind == .eof }
          : Lexer).drain n).1 := by
      rw [drain, next?, if_neg (Bool.eq_false_iff.mp h), nextToken]
    rw [hdrain]
    obtain ⟨hkind, htokens⟩ | ⟨hkind, htokens⟩ :=
      scan_cases l.mode (Nat.le_refl l.stream.after.length)
    · have hfinished : (next.1.kind == TokenKind.eof) = true := beq_iff_eq.mpr hkind
      rw [htokens, drain_of_finished hfinished, List.take_succ_cons, List.take_nil]
    · have hfinished : (next.1.kind == TokenKind.eof) = false := beq_eq_false_iff_ne.mpr hkind
      rw [htokens, List.take_succ_cons, ih hfinished]

/-! ## Sent to an offset -/

/-- The text that is read, whatever the place in it. -/
def source (l : Lexer) : String := .ofList l.stream.chars

@[simp] theorem source_ofString (mode : Mode) (text : String) :
    (ofString mode text).source = text := String.ofList_toList

@[simp] theorem source_restart (l : Lexer) (offset : Nat) :
    (l.restart offset).source = l.source := congrArg String.ofList (l.stream.chars_reset offset)

/-- Scanning moves on in the text without changing it. -/
theorem chars_scan (mode : Mode) (fuel : Nat) (s : Stream) :
    (scan mode fuel s).2.chars = s.chars := by
  induction fuel generalizing s with
  | zero => exact s.chars_forward _
  | succ fuel ih =>
    rw [scan]
    cases htoken : s.token? with
    | none => exact s.chars_forward _
    | some found =>
      obtain ⟨t, past⟩ := found
      have hs : s.chars = (String.ofList s.chars).toList := String.toList_ofList.symm
      have hpast : past.chars = s.chars := (Stream.token?_spec hs htoken).2.2.2.2.trans hs.symm
      by_cases hdrop : mode.drops t.kind = true
      · simp only [hdrop, if_true, ih, hpast]
      · simp only [hdrop]
        exact hpast

/-- Reading leaves the text as it is. -/
@[simp] theorem source_next? (l : Lexer) : l.next?.2.source = l.source := by
  rw [next?]
  split
  · rfl
  · exact congrArg String.ofList (chars_scan l.mode _ l.stream)

/-- What a lexer gives that was sent to an offset. -/
theorem drain_restart (l : Lexer) (offset n : Nat) : ((l.restart offset).drain n).1 =
    ((l.stream.reset offset).tokens l.mode (l.stream.reset offset).after.length).take n :=
  drain_eq_take rfl n

end Lexer

/-! ## Where a token begins -/

/-- A text that is made of tokens is cut before each of them. -/
theorem Scanned.cut (h : Scanned at_ cs (us ++ t :: ts)) : ∃ before after,
    cs = before ++ after ∧ t.begin = at_ + byteSize before ∧
      Scanned (at_ + byteSize before) after (t :: ts) := by
  induction us generalizing at_ cs with
  | nil =>
    cases h with
    | @token _ blanks word rest l ts hb hw hl hs h =>
      -- the first token: cut between the blanks and its word
      refine ⟨blanks, word ++ rest, rfl, rfl, ?_⟩
      exact .token (List.forall_mem_nil _) hw hl hs h
  | cons u us ih =>
    cases h with
    | @token _ blanks word rest l ts hb hw hl hs h =>
      -- a later one: this token's blanks and word stand before the cut as well
      obtain ⟨before, after, rfl, hbegin, hafter⟩ := ih h
      have hat : at_ + byteSize blanks + byteSize word + byteSize before =
          at_ + byteSize (blanks ++ word ++ before) := by
        rw [Text.byteSize_append, Text.byteSize_append, Nat.add_assoc, Nat.add_assoc, Nat.add_assoc]
      rw [hat] at hbegin hafter
      exact ⟨blanks ++ word ++ before, after, by simp, hbegin, hafter⟩

namespace Text.Stream

variable {s : Stream}

/-- From the end of the text there is only the end. -/
theorem tokens_reset_size (mode : Mode) (s : Stream) :
    (s.reset s.size).tokens mode (s.reset s.size).after.length = [.eof s.size] := by
  have hafter : (s.reset s.size).after = [] := by
    rw [size_eq]
    exact (after_reset_boundary (List.append_nil _).symm).1
  have hsize : (s.reset s.size).size = s.size := by rw [size_eq, size_eq, chars_reset]
  rw [hafter]
  exact congrArg ([Token.eof ·]) hsize

/-- From where a token begins there are this token and those after it, comments included. -/
theorem tokens_reset_editor (hs : s.chars = text.toList)
    (h : lex .editor text = pre ++ t :: post) :
    (s.reset t.begin).tokens .editor (s.reset t.begin).after.length = t :: post := by
  obtain ⟨ts, hlex, hscanned⟩ := lex_scanned text
  have hsize : s.size = text.utf8ByteSize := size_of_chars hs
  rw [hlex] at h
  rcases List.eq_nil_or_concat' post with rfl | ⟨vs, u, rfl⟩
  · obtain ⟨rfl, heq⟩ := List.append_inj' h rfl
    obtain rfl := List.singleton_inj.mp heq
    have hend := s.tokens_reset_size .editor
    rwa [hsize] at hend
  · rw [← List.cons_append, ← List.append_assoc] at h
    obtain ⟨rfl, heq⟩ := List.append_inj' h rfl
    obtain rfl := List.singleton_inj.mp heq
    obtain ⟨before, after, hsplit, hbegin, hcut⟩ := hscanned.cut
    rw [Nat.zero_add] at hbegin hcut
    obtain ⟨hafter, hposition⟩ := after_reset_boundary (hs.trans hsplit)
    rw [← hbegin] at hafter hposition hcut
    -- what is behind the cut is made of the same tokens in one way only
    obtain ⟨us, hus, hscanned'⟩ :=
      Scanned.of_tokens (Nat.le_refl (s.reset t.begin).after.length)
    rw [hafter, hposition] at hscanned'
    rw [hus, hscanned'.unique hcut, size_of_chars ((s.chars_reset _).trans hs)]
    rfl

/-- The same without comments: the token is kept, and so is what is kept of those after it. -/
theorem tokens_reset_begin (hs : s.chars = text.toList) (h : lex mode text = pre ++ t :: post) :
    (s.reset t.begin).tokens mode (s.reset t.begin).after.length = t :: post := by
  cases mode with
  | editor => exact tokens_reset_editor hs h
  | interpretation =>
    rw [lex_interpretation, List.filter_eq_append_iff] at h
    obtain ⟨us, vs, hlex, -, hvs⟩ := h
    obtain ⟨ws, xs, rfl, -, hkept, rfl⟩ := List.filter_eq_cons_iff.mp hvs
    rw [← List.append_assoc] at hlex
    rw [tokens_interpretation, tokens_reset_editor hs hlex]
    exact List.filter_cons_of_pos hkept

end Text.Stream

/-! ## Lexeme by lexeme -/

section Lexemes

variable {before word after rest : List Char} {l : Lexeme}

/-- The first lexeme of a text and then the tokens of the rest. -/
theorem lex_append (mode : Mode) (hread : Lexeme.read (word ++ after) = some l)
    (hsize : l.size = word.length) (hword : ∀ c ∈ word.head?, isBlank c = false)
    (hcomment : l.kind.isComment = false) :
    lex mode (.ofList (word ++ after)) = .ofLexeme 0 word l ::
      (lex mode (.ofList after)).map (Token.relocate (.shift (byteSize word))) := by
  have heditor : lex .editor (.ofList (word ++ after)) = .ofLexeme 0 word l ::
      (lex .editor (.ofList after)).map (Token.relocate (.shift (byteSize word))) := by
    -- the word, then what `after` alone gives, moved behind it
    obtain ⟨ts, hts, hscanned⟩ := lex_scanned (.ofList after)
    rw [String.toList_ofList] at hscanned
    have hall : Scanned 0 ([] ++ (word ++ after)) _ :=
      .token (List.forall_mem_nil _) hword hread hsize (hscanned.shift (byteSize word))
    have htext : [] ++ (word ++ after) = (String.ofList (word ++ after)).toList :=
      String.toList_ofList.symm
    have heof : Token.relocate (.shift (byteSize word)) (.eof (String.ofList after).utf8ByteSize) =
        .eof (String.ofList (word ++ after)).utf8ByteSize := by
      rw [Text.utf8ByteSize_ofList, Text.utf8ByteSize_ofList, Text.byteSize_append, Nat.add_comm]
      rfl
    rw [htext] at hall
    rw [hall.lex_eq, hts, List.map_append, List.map_singleton, heof]
    rfl
  cases mode with
  | editor => exact heditor
  | interpretation =>
    rw [lex_interpretation, lex_interpretation, heditor, List.filter_cons_of_pos, List.filter_map]
    · rfl
    · exact Bool.not_eq_true' _ ▸ hcomment

/-- The token is these characters of the text, between what is before and what is behind them. -/
structure Token.Covers (t : Token) (text : String) (before word after : List Char) : Prop where
  split : text.toList = before ++ (word ++ after)
  begin_eq : t.begin = byteSize before
  stop_eq : t.stop = byteSize before + byteSize word

/-- The tokens are those of the text from behind `before` on. -/
structure TokensFrom (mode : Mode) (text : String) (before rest : List Char) (ts : List Token) :
    Prop where
  split : text.toList = before ++ rest
  tokens : ts = (lex mode (.ofList rest)).map (Token.relocate (.shift (byteSize before)))

/-- They are those from a token on, where it begins. -/
theorem tokensFrom (h : lex mode text = pre ++ t :: post) (hsplit : text.toList = before ++ rest)
    (hbegin : t.begin = byteSize before) : TokensFrom mode text before rest (t :: post) := by
  have hchars : (Stream.ofString text).chars = text.toList := rfl
  obtain ⟨hafter, hposition⟩ := Stream.after_reset_boundary (hchars.trans hsplit)
  have htokens := Stream.tokens_reset_begin hchars h
  rw [hbegin, Stream.tokens_eq mode (Nat.le_refl _), hafter, hposition] at htokens
  exact ⟨hsplit, htokens.symm⟩

/-- Past one lexeme. -/
theorem TokensFrom.step (h : TokensFrom mode text before (word ++ after) ts)
    (hread : Lexeme.read (word ++ after) = some l) (hsize : l.size = word.length)
    (hword : ∀ c ∈ word.head?, isBlank c = false) (hcomment : l.kind.isComment = false) :
    ∃ t post, ts = t :: post ∧ t.Covers text before word after ∧ t.kind = l.kind ∧
      t.payload = l.payload ∧ TokensFrom mode text (before ++ word) after post := by
  refine ⟨(Token.ofLexeme 0 word l).relocate (.shift (byteSize before)), _,
    h.tokens.trans (by rw [lex_append mode hread hsize hword hcomment, List.map_cons]),
    ⟨h.split, Nat.zero_add _, ?_⟩, rfl, rfl, ?_, ?_⟩
  · simp only [Token.stop_relocate, Token.ofLexeme, Relocation.shift]
    omega
  · rw [h.split, List.append_assoc]
  -- moving twice is moving once by the sum
  · have hshift : Token.relocate (.shift (byteSize before)) ∘
        Token.relocate (.shift (byteSize word)) =
          Token.relocate (.shift (byteSize (before ++ word))) := by
      funext t
      simp only [Function.comp_apply, Token.relocate, Relocation.shift, Text.byteSize_append,
        Token.mk.injEq, and_true]
      omega
    rw [List.map_map, hshift]

end Lexemes

/-- **Restarting is reading the rest.** A lexer that is sent to an offset, whatever it has read,
gives the tokens of the text from the greatest boundary on that is not above the offset, as far
into the text as that boundary is. Where a token begins these are the last tokens of the text. -/
theorem Lexer.restart_reads_rest (l : Lexer) :
    (∀ offset, ∃ before after : String, l.source = before ++ after ∧
      IsGreatest {o | String.Pos.Raw.IsValid l.source ⟨o⟩ ∧ o ≤ min offset l.source.utf8ByteSize}
        before.utf8ByteSize ∧
      ∀ n, ((l.restart offset).drain n).1 =
        ((lex l.mode after).map (Token.relocate (.shift before.utf8ByteSize))).take n) ∧
    ∀ pre t post, lex l.mode l.source = pre ++ t :: post →
      ∀ n, ((l.restart t.begin).drain n).1 = (t :: post).take n := by
  have hchars : l.stream.chars = l.source.toList := String.toList_ofList.symm
  constructor
  · -- any offset: the lexer starts at the greatest boundary up to it
    intro offset
    have hsplit := Text.charsUpTo_append_drop offset l.stream.chars
    refine ⟨.ofList (charsUpTo offset l.stream.chars),
      .ofList (l.stream.chars.drop (Text.charsWithin offset l.stream.chars)), ?_, ?_, fun n => ?_⟩
    · rw [← String.ofList_append, hsplit]
      rfl
    · obtain ⟨⟨hvalid, hle⟩, hgreatest⟩ := Text.isGreatest_charsUpTo l.source offset
      rw [← hchars] at hvalid hle hgreatest
      rw [Text.utf8ByteSize_ofList]
      exact ⟨⟨hvalid, Nat.le_min.mpr ⟨hle, hvalid.le_utf8ByteSize⟩⟩,
        fun o ho => hgreatest ⟨ho.1, (Nat.le_min.mp ho.2).1⟩⟩
    · rw [drain_restart, Stream.tokens_eq l.mode (Nat.le_refl _), Stream.position_reset,
        Stream.after_reset, Text.utf8ByteSize_ofList]
  · -- the begin of a token: the reading goes on with that token
    intro pre t post h n
    rw [drain_restart, Stream.tokens_reset_begin hchars h]

end MudEdit
