import MudEdit.Proofs.Token.Scanned

/-!
# Tokens that are written out

What is not in a token of a text is white space, and what is in one gives that token again when
it is read on its own. So the tokens with their places say all of the text but which white space
it has.

Reserved words and signs have a spelling, names are written as they are, integers in decimal and
strings in quotes. Written out with a space between them, tokens are read again as they were:
none of them takes anything of the next, and none ends before its spelling does.
-/

namespace MudEdit

open Text (byteSize isBlank Stream)

variable {cs before after : List Char} {ts : List Token} {c : Char} {l : Lexeme} {at_ : Nat}

/-! ## Nothing of a text is lost -/

/-- A lexeme on its own is a text of one token. -/
theorem Scanned.single {word rest : List Char} (hw : ∀ c ∈ word.head?, isBlank c = false)
    (hl : Lexeme.read (word ++ rest) = some l) (hs : l.size = word.length) :
    Scanned 0 word [.ofLexeme 0 word l] := by
  have htake := (Lexeme.starts_of_read hl).take.2.read
  rw [hs, List.take_left] at htake
  have h : Scanned 0 ([] ++ (word ++ [])) [.ofLexeme (0 + byteSize []) word l] :=
    .token (by simp) hw (by rw [List.append_nil, htake]) hs (.blank (by simp))
  simpa using h

/-- The characters of each token stand at its place in the text. -/
theorem Scanned.words (h : Scanned at_ cs ts) : ∀ t ∈ ts, ∃ before word after,
    cs = before ++ (word ++ after) ∧ t.begin = at_ + byteSize before ∧
      t.stop = t.begin + byteSize word ∧
      Scanned 0 word [⟨0, byteSize word, t.kind, t.payload⟩] := by
  induction h with
  | blank => simp
  | @token at_ blanks word rest l ts hb hw hl hs _ ih =>
    intro t ht
    rcases List.mem_cons.mp ht with rfl | ht
    -- the first token is the word behind the blanks
    · refine ⟨blanks, word, rest, rfl, rfl, rfl, ?_⟩
      have h := Scanned.single hw hl hs
      rwa [Token.ofLexeme, Nat.zero_add] at h
    -- a later token lies behind this one, which moves it by its size
    · obtain ⟨before, w, after, heq, hbegin, hstop, hscanned⟩ := ih t ht
      refine ⟨blanks ++ (word ++ before), w, after, ?_, ?_, hstop, hscanned⟩
      · rw [heq, List.append_assoc, List.append_assoc]
      · rw [hbegin, Text.byteSize_append, Text.byteSize_append]
        omega

/-- A character that no token takes is blank. -/
theorem Scanned.gaps (h : Scanned at_ cs ts) (hc : cs = before ++ c :: after)
    (hout : ∀ t ∈ ts, ¬(t.begin ≤ at_ + byteSize before ∧ at_ + byteSize before < t.stop)) :
    isBlank c = true := by
  induction h generalizing before with
  | blank hb => exact hb c (by simp [hc])
  | @token at_ blanks word rest l ts hb hw hl hs _ ih =>
    rcases split_append hc with ⟨more, hblanks⟩ | ⟨more, hbefore, hmore⟩
    · exact hb c (by simp [hblanks])
    · rcases split_append hmore with ⟨tail, hword⟩ | ⟨tail, htail, hrest⟩
      · -- the character is in the word, which the token takes
        refine absurd ?_ (hout _ List.mem_cons_self)
        have hpos := c.utf8Size_pos
        rw [hbefore, Token.ofLexeme, hword]
        simp only [Text.byteSize_append, Text.byteSize_cons]
        omega
      · refine ih hrest fun t ht => ?_
        have hplace : at_ + byteSize before =
            at_ + byteSize blanks + byteSize word + byteSize tail := by
          rw [hbefore, htail, Text.byteSize_append, Text.byteSize_append]
          omega
        rw [← hplace]
        exact hout t (List.mem_cons_of_mem _ ht)

/-- **Nothing of a text is lost in its tokens.** They stand in order and end with the end of the
text, only white space is outside of them, and the characters of each are read as that token. -/
theorem lex_lossless (text : String) :
    ∃ ts, lex .editor text = ts ++ [.eof text.utf8ByteSize] ∧
      (∀ t ∈ ts, t.kind ≠ .eof ∧ t.begin < t.stop ∧ t.stop ≤ text.utf8ByteSize ∧
        String.Pos.Raw.IsValid text ⟨t.begin⟩ ∧ String.Pos.Raw.IsValid text ⟨t.stop⟩) ∧
      ts.Pairwise (fun a b => a.stop ≤ b.begin) ∧
      (∀ before c after, text.toList = before ++ c :: after →
        (∀ t ∈ ts, ¬(t.begin ≤ byteSize before ∧ byteSize before < t.stop)) →
        isBlank c = true) ∧
      ∀ t ∈ ts, lex .editor (String.ofList ((Stream.ofString text).slice t.begin t.stop)) =
        [⟨0, t.stop - t.begin, t.kind, t.payload⟩, .eof (t.stop - t.begin)] := by
  obtain ⟨ts, hlex, hscanned⟩ := lex_scanned text
  obtain ⟨us, hlex', hord, hof⟩ := lex_spec .editor text
  obtain rfl : ts = us := List.append_cancel_right (hlex.symm.trans hlex')
  refine ⟨ts, hlex, fun t ht => ?_, hord.apart, fun before c after htext hout => ?_,
    fun t ht => ?_⟩
  -- each token lies in the text, on character boundaries
  · obtain ⟨-, hlt, hle⟩ := hord.within t ht
    exact ⟨(hof t ht).kind_ne, hlt, hle, (hof t ht).begin_valid, (hof t ht).stop_valid⟩
  · -- what no token covers is blank
    exact hscanned.gaps htext (by simpa using hout)
  · obtain ⟨before, word, after, htext, hbegin, hstop, hword⟩ := hscanned.words t ht
    rw [Nat.zero_add] at hbegin
    -- a token's own text is one word, read again as that token alone
    have hslice : (Stream.ofString text).slice t.begin t.stop = word := by
      rw [hstop, hbegin]
      exact Text.slice_append htext
    have hsize : t.stop - t.begin = byteSize word := by omega
    have hscan : Scanned 0 (String.ofList word).toList [⟨0, byteSize word, t.kind, t.payload⟩] := by
      rwa [String.toList_ofList]
    rw [hslice, hsize, hscan.lex_eq, Text.utf8ByteSize_ofList]
    rfl

/-- A literal that is never closed goes on to the end of its line, whatever that starts with. -/
example : lex .editor "0x1 'a /* é" =
    [⟨0, 3, .int, some (.int 1)⟩, ⟨4, 12, .character, some (.char 'a')⟩, .eof 12] := by
  decide +kernel

/-! ## Spellings -/

variable {kind : TokenKind} {payload : Option Payload} {text : String}

/-- The characters that stand for one between quotes. -/
def escaped : Char → List Char
  | '\\' => ['\\', '\\']
  | '\x22' => ['\\', '\x22']
  | '\n' => ['\\', 'n']
  | c => [c]

/-- A string between quotes. -/
def quoted (content : String) : String :=
  String.ofList ('\x22' :: content.toList.flatMap escaped ++ ['\x22'])

/-- Whether a text is a name: it starts as words do, goes on as words do, and is not reserved. -/
def IsName (text : String) : Prop :=
  (∃ c cs, text.toList = c :: cs ∧ isWordStart c = true ∧ ∀ d ∈ cs, isWordChar d = true) ∧
    reservedWord? text = none

/-- A token with this kind and payload is written so. -/
inductive Renders : TokenKind → Option Payload → String → Prop
  | word {kind : TokenKind} {text : String} : kind.wordText? = some text → Renders kind none text
  | directive : Renders .includeDirective none includeText
  | sign {kind : TokenKind} {text : String} : kind.signText? = some text → Renders kind none text
  | name {text : String} : IsName text → Renders .identifier (some (.text text)) text
  | int {n : Nat} : n < Nat.pow 2 63 → Renders .int (some (.int n)) n.repr
  | string (content : String) : Renders .string (some (.text content)) (quoted content)

/-- A token with its spelling. -/
structure Written where
  kind : TokenKind
  payload : Option Payload
  text : String
  renders : Renders kind payload text

/-! ## What is read of each -/

/-- The text, with nothing or a space behind it, is read as this lexeme. -/
structure Stands (cs : List Char) (kind : TokenKind) (payload : Option Payload) : Prop where
  start : ∀ c ∈ cs.head?, isBlank c = false
  last : Lexeme.read cs = some ⟨kind, payload, cs.length⟩
  before : ∀ rest, Lexeme.read (cs ++ ' ' :: rest) = some ⟨kind, payload, cs.length⟩
  comment : kind.isComment = false

theorem Stands.of_read (hl : Lexeme.read cs = some ⟨kind, payload, cs.length⟩)
    (hs : ∀ c ∈ cs.head?, isBlank c = false) (hk : kind.isDelimited = false) :
    Stands cs kind payload where
  start := hs
  last := hl
  before rest := ((Lexeme.starts_of_read hl).append (by decide) (.inr hk)
    (Lexeme.isUnclosed_of_read hl hk) rest).read
  comment := by cases kind <;> first | rfl | exact hk

theorem stands_word (h : kind.wordText? = some text) : Stands text.toList kind none := by
  have hall : ∀ p ∈ vocabulary, Lexeme.read p.1.toList = some ⟨p.2, none, p.1.toList.length⟩ ∧
      p.1.toList.head?.any isBlank = false ∧ p.2.isDelimited = false := by decide +kernel
  obtain ⟨p, hp, rfl⟩ := Option.map_eq_some_iff.mp h
  obtain ⟨hread, hstart, hkind⟩ := hall p (List.mem_of_find?_eq_some hp)
  obtain rfl : p.2 = kind := by simpa using List.find?_some hp
  exact .of_read hread ((Option.any_eq_false _ _).mp hstart) hkind

theorem stands_directive : Stands includeText.toList .includeDirective none :=
  .of_read (by decide +kernel) ((Option.any_eq_false _ _).mp (by decide)) rfl

theorem stands_sign (h : kind.signText? = some text) : Stands text.toList kind none := by
  have hall : ∀ p ∈ signs, p.1 = p.2.text →
      Lexeme.read p.1.toList = some ⟨.sign p.2, none, p.1.toList.length⟩ ∧
      p.1.toList.head?.any isBlank = false := by decide +kernel
  have hspelled (s : Sign) : (s.text, s) ∈ signs := by cases s <;> decide
  cases kind with
  | sign s =>
    obtain rfl : s.text = text := Option.some.inj h
    obtain ⟨hread, hstart⟩ := hall _ (hspelled s) rfl
    exact .of_read hread ((Option.any_eq_false _ _).mp hstart) rfl
  | _ => exact absurd h (by simp [TokenKind.signText?])

/-- A name that is no reserved word is read back as itself. -/
theorem stands_name (h : IsName text) : Stands text.toList .identifier (some (.text text)) := by
  obtain ⟨⟨c, cs, htext, hc, hcs⟩, hfree⟩ := h
  have hword : isWordChar c = true := by simp [isWordChar, hc]
  have hall : ∀ d ∈ text.toList, isWordChar d = true := by
    rw [htext]
    exact List.forall_mem_cons.mpr ⟨hword, hcs⟩
  have hrun : text.toList.takeWhile isWordChar = text.toList := List.takeWhile_eq_self_iff.mpr hall
  have hread : Lexeme.read text.toList =
      some ⟨.identifier, some (.text text), text.toList.length⟩ := by
    have hstarts := (Lexeme.Starts.word cs hc).read
    rw [← htext, Lexeme.word, hrun, String.ofList_toList, hfree] at hstarts
    exact hstarts
  refine .of_read hread (fun d hd => ?_) rfl
  exact isBlank_of_isWordChar (hall d (List.mem_of_mem_head? hd))

/-- The digits of a number have its value. -/
theorem decimalValue_toDigits (n : Nat) : Lexeme.decimalValue (Nat.toDigits 10 n) = n := by
  have hstep : (fun (n : Nat) (c : Char) => n * 10 + (c.toNat - '0'.toNat)) =
      fun n c => 10 * n + (c.toNat - '0'.toNat) := by
    funext n c
    rw [Nat.mul_comm]
  rw [Lexeme.decimalValue, hstep]
  exact Nat.ofDigitChars_toDigits (b := 10) (by decide) (by decide)

/-- A number below the limit, in decimal digits, is read back as itself. -/
theorem stands_int {n : Nat} (h : n < Nat.pow 2 63) :
    Stands n.repr.toList .int (some (.int n)) := by
  have hall : ∀ d ∈ n.repr.toList, d.isDigit = true := by
    rw [Nat.toList_repr]
    exact fun d => Nat.isDigit_of_mem_toDigits (by decide) (by decide)
  have hread : Lexeme.read n.repr.toList = some ⟨.int, some (.int n), n.repr.toList.length⟩ := by
    cases hdigits : n.repr.toList with
    | nil =>
      rw [Nat.toList_repr] at hdigits
      exact absurd hdigits Nat.toDigits_ne_nil
    | cons c cs =>
      -- the digits do not open a hexadecimal number
      have hother : ∀ x ∈ cs.head?, x ≠ 'x' ∧ x ≠ 'X' := by
        intro x hx
        have hdigit := hall x (by
          rw [hdigits]
          exact List.mem_cons_of_mem c (List.mem_of_mem_head? hx))
        exact ⟨by rintro rfl; exact absurd hdigit (by decide),
          by rintro rfl; exact absurd hdigit (by decide)⟩
      have hstarts := (Lexeme.Starts.decimal cs (hall c (by simp [hdigits])) fun _ => hother).read
      -- and nothing is left behind them for a fraction
      have hwhole : ∀ rest, ¬Lexeme.HasFraction (c :: cs) rest := by
        rintro rest ⟨hrest, -⟩
        rw [← hdigits, List.dropWhile_eq_nil_iff.mpr hall] at hrest
        exact absurd hrest (by simp)
      rw [hstarts, Lexeme.decimal_of_no_fraction hwhole, ← hdigits,
        List.takeWhile_eq_self_iff.mpr hall, Nat.toList_repr, decimalValue_toDigits, Lexeme.int,
        if_pos h]
  refine .of_read hread (fun d hd => ?_) rfl
  exact isBlank_of_isWordChar (by simp [isWordChar, hall d (List.mem_of_mem_head? hd)])

theorem delimited_escaped_append (c : Char) (rest : List Char) :
    Lexeme.delimited '\x22' (escaped c ++ rest) = (c :: (Lexeme.delimited '\x22' rest).1,
      (Lexeme.delimited '\x22' rest).2 + (escaped c).length) := by
  unfold escaped
  split
  · exact Lexeme.delimited_escape (by decide) rest
  · exact Lexeme.delimited_escape (by decide) rest
  · exact Lexeme.delimited_escape (by decide) rest
  · rename_i hbackslash hquote hnewline
    exact Lexeme.delimited_cons hnewline hbackslash hquote rest

/-- A text whose characters are read one by one is read up to the quote behind it. -/
theorem delimited_flatMap {spell : Char → List Char} {cs rest : List Char}
    (h : ∀ c ∈ cs, ∀ rest, Lexeme.delimited '\x22' (spell c ++ rest) =
      (c :: (Lexeme.delimited '\x22' rest).1,
        (Lexeme.delimited '\x22' rest).2 + (spell c).length)) :
    Lexeme.delimited '\x22' (cs.flatMap spell ++ '\x22' :: rest) =
      (cs, (cs.flatMap spell).length + 1) := by
  induction cs with
  | nil => exact Lexeme.delimited_close (by decide) (by decide) rest
  | cons c cs ih =>
    obtain ⟨hc, hcs⟩ := List.forall_mem_cons.mp h
    rw [List.flatMap_cons, List.append_assoc, hc, ih hcs, List.length_append,
      Nat.add_right_comm, Nat.add_comm (spell c).length]

/-- A string in quotes, with its escapes, is read back as its content. -/
theorem stands_string (content : String) :
    Stands (quoted content).toList .string (some (.text content)) := by
  have hchars : (quoted content).toList =
      '\x22' :: (content.toList.flatMap escaped ++ ['\x22']) := String.toList_ofList
  -- the closing quote ends the literal, whatever follows
  have hread (rest : List Char) : Lexeme.read ((quoted content).toList ++ rest) =
      some ⟨.string, some (.text content), (quoted content).toList.length⟩ := by
    have hstarts := (Lexeme.Starts.string (content.toList.flatMap escaped ++ '\x22' :: rest)).read
    rw [Lexeme.string, delimited_flatMap fun c _ => delimited_escaped_append c] at hstarts
    dsimp only at hstarts
    rw [String.ofList_toList] at hstarts
    rw [hchars, List.cons_append, List.append_assoc, List.length_cons, List.length_append]
    exact hstarts
  refine ⟨fun c hc => ?_, by simpa using hread [], fun rest => hread (' ' :: rest), rfl⟩
  rw [hchars] at hc
  obtain rfl := Option.some.inj hc
  rfl

theorem Renders.stands (h : Renders kind payload text) : Stands text.toList kind payload := by
  cases h with
  | word h => exact stands_word h
  | directive => exact stands_directive
  | sign h => exact stands_sign h
  | name h => exact stands_name h
  | int h => exact stands_int h
  | string content => exact stands_string content

/-! ## Tokens one after the other -/

/-- What is written with spaces in between is made of the tokens that were written. -/
theorem Scanned.of_written (items : List Written) (at_ : Nat) :
    ∃ ts, Scanned at_ ([' '].intercalate (items.map (·.text.toList))) ts ∧
      ts.map (fun t => (t.kind, t.payload)) = items.map (fun i => (i.kind, i.payload)) ∧
      ∀ t ∈ ts, t.kind.isComment = false := by
  induction items generalizing at_ with
  | nil => exact ⟨[], .blank (by simp [List.intercalate]), rfl, by simp⟩
  | cons item items ih =>
    have hstands := item.renders.stands
    let t : Token := .ofLexeme (at_ + byteSize []) item.text.toList
      ⟨item.kind, item.payload, item.text.toList.length⟩
    have ht : t.kind.isComment = false := hstands.comment
    cases items with
    | nil =>
      have hscanned : Scanned at_ ([] ++ (item.text.toList ++ [])) [t] :=
        .token (by simp) hstands.start (by rw [List.append_nil, hstands.last]) rfl
          (.blank (by simp))
      refine ⟨[t], ?_, rfl, List.forall_mem_singleton.mpr ht⟩
      rw [List.nil_append, List.append_nil] at hscanned
      rwa [List.map_singleton, List.intercalate_singleton]
    | cons next items =>
      obtain ⟨ts, hts, hitems, hall⟩ :=
        ih (at_ + byteSize [] + byteSize item.text.toList + byteSize [' '])
      have hspace : ∀ c ∈ [' '], isBlank c = true := List.forall_mem_singleton.mpr rfl
      have hscanned : Scanned at_ ([] ++ (item.text.toList ++ ([' '] ++ _))) (t :: ts) :=
        .token (by simp) hstands.start (hstands.before _) rfl (.skip hspace hts)
      refine ⟨t :: ts, ?_, congrArg ((item.kind, item.payload) :: ·) hitems,
        List.forall_mem_cons.mpr ⟨ht, hall⟩⟩
      rw [List.map_cons, List.map_cons, List.intercalate_cons_cons, List.append_assoc]
      exact hscanned

/-- **Reading undoes writing**: tokens that are written out with a space between them are read
again, in both modes. -/
theorem lex_written (mode : Mode) (items : List Written) :
    (lex mode (" ".intercalate (items.map Written.text))).map (fun t => (t.kind, t.payload)) =
      items.map (fun i => (i.kind, i.payload)) ++ [(.eof, none)] := by
  obtain ⟨ts, hscanned, hitems, hall⟩ := Scanned.of_written items 0
  let text := " ".intercalate (items.map Written.text)
  have hchars : text.toList = [' '].intercalate (items.map (·.text.toList)) := by
    rw [String.toList_intercalate, List.map_map]
    rfl
  rw [← hchars] at hscanned
  have hmode : lex mode text = ts ++ [.eof text.utf8ByteSize] := by
    cases mode with
    | editor => exact hscanned.lex_eq
    | interpretation =>
      have hkept : ts.filter (!·.kind.isComment) = ts :=
        List.filter_eq_self.mpr fun t ht => by simp [hall t ht]
      rw [lex_interpretation, hscanned.lex_eq, List.filter_append, hkept]
      rfl
  rw [hmode, List.map_append, hitems]
  rfl

/-- A sign is not continued by the next one, and a name may start like a reserved word. -/
example : (lex .editor "< <<= / * do done 0").map (·.kind) =
    [.sign .less, .sign .shiftLeftAssign, .sign .slash, .sign .star, .keyword .doWord,
      .identifier, .int, .eof] := by
  decide +kernel

end MudEdit
