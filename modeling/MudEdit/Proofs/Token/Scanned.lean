import MudEdit.Proofs.Token.Locality
import MudEdit.Proofs.Token.Order
import MudEdit.Proofs.Token.Relocation

/-!
# A text as blanks and lexemes

The tokens of a text say how it is put together: blanks and then a lexeme, and so on to the
blanks at its end. `Scanned` is this relation between a text and its tokens, at the place where
the text starts. It holds of exactly one list of tokens, that of `lex` with the comments.
-/

namespace MudEdit

open Text (byteSize isBlank Stream)

variable {cs ds rest word blanks : List Char} {ts us : List Token} {l : Lexeme} {at_ : Nat}

/-- The token of a lexeme that is made of these characters and starts there. -/
def Token.ofLexeme (begin : Nat) (word : List Char) (l : Lexeme) : Token :=
  ⟨begin, begin + byteSize word, l.kind, l.payload⟩

/-- Any text but the empty one starts with a lexeme. -/
theorem Lexeme.eq_nil_of_read (h : read cs = none) : cs = [] := by
  cases cs with
  | nil => rfl
  | cons c cs => exact absurd h (by simp [read])

namespace Text.Stream

theorem after_skipBlanks (s : Stream) : s.skipBlanks.after = s.after.dropWhile isBlank := by
  rw [skipBlanks, advanceWhile, after_forward, drop_length_takeWhile]

theorem position_skipBlanks (s : Stream) :
    s.skipBlanks.position = s.position + byteSize (s.after.takeWhile isBlank) := by
  rw [skipBlanks, advanceWhile, position_forward, take_length_takeWhile]

theorem size_skipBlanks (s : Stream) : s.skipBlanks.size = s.size := by
  rw [skipBlanks, advanceWhile, size_forward]

/-- The token ahead is that of the lexeme behind the blanks. -/
theorem token?_eq (s : Stream) : s.token? =
    (Lexeme.read (s.after.dropWhile isBlank)).map fun l =>
      (.ofLexeme (s.position + byteSize (s.after.takeWhile isBlank))
        ((s.after.dropWhile isBlank).take l.size) l, s.skipBlanks.forward l.size) := by
  rw [token?, after_skipBlanks]
  refine congrArg (Option.map · _) (funext fun l => ?_)
  dsimp only
  rw [position_forward, position_skipBlanks, after_skipBlanks, Token.ofLexeme]

end Text.Stream

/-- The text, which starts there, is made of blanks and the lexemes of these tokens. -/
inductive Scanned : (at_ : Nat) → List Char → List Token → Prop
  | blank {at_ : Nat} {blanks : List Char} : (∀ c ∈ blanks, isBlank c = true) →
      Scanned at_ blanks []
  | token {at_ : Nat} {blanks word rest : List Char} {l : Lexeme} {ts : List Token} :
      (∀ c ∈ blanks, isBlank c = true) → (∀ c ∈ word.head?, isBlank c = false) →
      Lexeme.read (word ++ rest) = some l → l.size = word.length →
      Scanned (at_ + byteSize blanks + byteSize word) rest ts →
      Scanned at_ (blanks ++ (word ++ rest)) (.ofLexeme (at_ + byteSize blanks) word l :: ts)

namespace Scanned

/-- Where the text starts is where its tokens start. -/
theorem shift (h : Scanned at_ cs ts) (k : Nat) :
    Scanned (at_ + k) cs (ts.map (Token.relocate (.shift k))) := by
  induction h with
  | blank hb => exact .blank hb
  | @token at_ blanks word rest l ts hb hw hl hs _ ih =>
    have hbegin : at_ + k + byteSize blanks = at_ + byteSize blanks + k := Nat.add_right_comm ..
    have htoken : (Token.ofLexeme (at_ + byteSize blanks) word l).relocate (.shift k) =
        Token.ofLexeme (at_ + k + byteSize blanks) word l := by
      simp only [Token.relocate, Relocation.shift, Token.ofLexeme, Token.mk.injEq, and_true]
      omega
    rw [List.map_cons, htoken]
    refine .token hb hw hl hs ?_
    rwa [hbegin, Nat.add_right_comm]

/-- More blanks before a text. -/
theorem skip (hb : ∀ c ∈ blanks, isBlank c = true) (h : Scanned (at_ + byteSize blanks) cs ts) :
    Scanned at_ (blanks ++ cs) ts := by
  cases h with
  | blank hcs => exact .blank fun c hc => (List.mem_append.mp hc).elim (hb c) (hcs c)
  | @token _ more word rest l ts hmore hw hl hs h =>
    have hsize : at_ + byteSize blanks + byteSize more = at_ + byteSize (blanks ++ more) := by
      rw [Text.byteSize_append, Nat.add_assoc]
    rw [hsize] at h ⊢
    rw [← List.append_assoc]
    exact .token (fun c hc => (List.mem_append.mp hc).elim (hb c) (hmore c)) hw hl hs h

/-! ## The tokens of a text -/

/-- Reading from a place on, if the fuel is enough for what is ahead. -/
theorem of_tokens {s : Stream} {fuel : Nat} (hfuel : s.after.length ≤ fuel) :
    ∃ ts, s.tokens .editor fuel = ts ++ [.eof s.size] ∧ Scanned s.position s.after ts := by
  induction fuel generalizing s with
  | zero =>
    have hnil : s.after = [] := List.eq_nil_of_length_eq_zero (Nat.le_zero.mp hfuel)
    exact ⟨[], rfl, hnil ▸ .blank (by simp)⟩
  | succ fuel ih =>
    have hblanks : ∀ c ∈ s.after.takeWhile isBlank, isBlank c = true :=
      List.all_eq_true.mp List.all_takeWhile
    have hsplit : s.after.takeWhile isBlank ++ s.after.dropWhile isBlank = s.after :=
      List.takeWhile_append_dropWhile
    rw [Stream.tokens, Stream.token?_eq]
    cases hread : Lexeme.read (s.after.dropWhile isBlank) with
    | none =>
      refine ⟨[], rfl, ?_⟩
      rw [Lexeme.eq_nil_of_read hread, List.append_nil] at hsplit
      exact hsplit ▸ .blank hblanks
    | some l =>
      let past := s.skipBlanks.forward l.size
      have hpast : past.after = (s.after.dropWhile isBlank).drop l.size := by
        rw [Stream.after_forward, Stream.after_skipBlanks]
      have hstop : past.position = s.position + byteSize (s.after.takeWhile isBlank) +
          byteSize ((s.after.dropWhile isBlank).take l.size) := by
        rw [Stream.position_forward, Stream.position_skipBlanks, Stream.after_skipBlanks]
      have htotal : past.size = s.size := (Stream.size_forward ..).trans s.size_skipBlanks
      have hle := (Lexeme.starts_of_read hread).take.1
      -- a lexeme takes a character at least, so what is left is within the fuel that is left
      have hlen : past.after.length ≤ fuel := by
        have hpos := (Lexeme.read_sound hread).size_pos
        have := (List.dropWhile_suffix isBlank (l := s.after)).length_le
        rw [hpast, List.length_drop]
        omega
      obtain ⟨ts, hts, hscanned⟩ := ih hlen
      rw [hstop, hpast] at hscanned
      refine ⟨_ :: ts, by rw [List.cons_append, ← htotal, ← hts]; rfl, ?_⟩
      have hword : (s.after.dropWhile isBlank).take l.size ++
          (s.after.dropWhile isBlank).drop l.size = s.after.dropWhile isBlank :=
        List.take_append_drop ..
      have htaken : l.size = ((s.after.dropWhile isBlank).take l.size).length := by
        rw [List.length_take, Nat.min_eq_left hle]
      rw [← hword] at hread
      have h := Scanned.token hblanks (fun c hc => head?_dropWhile (head?_of_take hc)) hread htaken
        hscanned
      rwa [hword, hsplit] at h

end Scanned

/-- **A text is made of its tokens**, with blanks between them. -/
theorem lex_scanned (text : String) :
    ∃ ts, lex .editor text = ts ++ [.eof text.utf8ByteSize] ∧ Scanned 0 text.toList ts := by
  obtain ⟨ts, hts, hscanned⟩ := Scanned.of_tokens (s := .ofString text) (Nat.le_refl _)
  have hsize : (Stream.ofString text).size = text.utf8ByteSize := Stream.size_of_chars rfl
  rw [hsize] at hts
  exact ⟨ts, hts, hscanned⟩

/-! ## A text has only these tokens -/

/-- Blanks before a lexeme are the first run of blanks. -/
theorem span_blanks (hb : ∀ c ∈ blanks, isBlank c = true) (hw : ∀ c ∈ word.head?, isBlank c = false)
    (hl : Lexeme.read (word ++ rest) = some l) (hs : l.size = word.length) :
    (blanks ++ (word ++ rest)).takeWhile isBlank = blanks ∧
      (blanks ++ (word ++ rest)).dropWhile isBlank = word ++ rest := by
  refine run_append hb fun c hc => hw c ?_
  cases word with
  | nil => exact absurd (Lexeme.read_sound hl).size_pos (by simp [hs])
  | cons d ds => exact hc

/-- How the tokens of a text start. -/
theorem Scanned.start (h : Scanned at_ cs ts) :
    (cs.dropWhile isBlank = [] ∧ ts = []) ∨ ∃ l us,
      Lexeme.read (cs.dropWhile isBlank) = some l ∧
      ts = .ofLexeme (at_ + byteSize (cs.takeWhile isBlank))
        ((cs.dropWhile isBlank).take l.size) l :: us ∧
      Scanned (at_ + byteSize (cs.takeWhile isBlank) +
        byteSize ((cs.dropWhile isBlank).take l.size)) ((cs.dropWhile isBlank).drop l.size) us := by
  cases h with
  | blank hb =>
    exact .inl ⟨List.dropWhile_eq_nil_iff.mpr hb, rfl⟩
  | @token _ blanks word rest l ts hb hw hl hs h =>
    obtain ⟨hrun, hdrop⟩ := span_blanks hb hw hl hs
    refine .inr ⟨l, ts, by rw [hdrop, hl], ?_, ?_⟩
    · rw [hrun, hdrop, hs, List.take_left]
    · rw [hrun, hdrop, hs, List.take_left, List.drop_left]
      exact h

/-- The tokens of a text are determined by it. -/
theorem Scanned.unique (h : Scanned at_ cs ts) (h' : Scanned at_ cs us) : ts = us := by
  induction h generalizing us with
  | blank hb =>
    rcases h'.start with ⟨-, rfl⟩ | ⟨l, us, hl, -⟩
    · rfl
    -- nothing but blanks is left, and no lexeme is read of nothing
    · rw [List.dropWhile_eq_nil_iff.mpr hb] at hl
      exact absurd hl (by simp [Lexeme.read])
  | @token _ blanks word rest l ts hb hw hl hs _ ih =>
    obtain ⟨hrun, hdrop⟩ := span_blanks hb hw hl hs
    rcases h'.start with ⟨hnil, -⟩ | ⟨l', us, hl', rfl, hus⟩
    · rw [hdrop] at hnil
      exact absurd hl (by simp [hnil, Lexeme.read])
    · rw [hdrop] at hl'
      -- both read the same lexeme, so both go on with the same rest
      obtain rfl := Option.some.inj (hl.symm.trans hl')
      rw [hrun, hdrop, hs, List.take_left, List.drop_left] at hus
      rw [hrun, hdrop, hs, List.take_left, ih hus]

/-- What a text is made of are its tokens. -/
theorem Scanned.lex_eq {text : String} (h : Scanned 0 text.toList ts) :
    lex .editor text = ts ++ [.eof text.utf8ByteSize] := by
  obtain ⟨us, hlex, hscanned⟩ := lex_scanned text
  rw [hlex, h.unique hscanned]

/-! ## Texts put together -/

/-- The text ends in a block comment that is not closed. -/
inductive Unclosed : List Char → Prop
  | here {blanks word : List Char} : (∀ c ∈ blanks, isBlank c = true) →
      Lexeme.isUnclosed word = true → Unclosed (blanks ++ word)
  | later {blanks word rest : List Char} {l : Lexeme} : (∀ c ∈ blanks, isBlank c = true) →
      (∀ c ∈ word.head?, isBlank c = false) →
      Lexeme.read (word ++ rest) = some l → l.size = word.length → Unclosed rest →
      Unclosed (blanks ++ (word ++ rest))

/-- No comment is open in a text without a slash. -/
theorem not_unclosed (h : '/' ∉ cs) : ¬Unclosed cs := by
  intro hcs
  induction hcs with
  | here _ hopen =>
    unfold Lexeme.isUnclosed at hopen
    split at hopen
    · exact h (by simp)
    · exact h (by simp)
    · cases hopen
  | later _ _ _ _ _ ih => exact ih fun hrest => h (by simp [hrest])

/-- **Two texts on lines of their own** have the tokens of the one and then those of the other,
unless the first one ends in a block comment that is not closed. -/
theorem Scanned.append (h : Scanned at_ cs ts) (hclosed : ¬Unclosed cs)
    (h' : Scanned (at_ + byteSize cs + 1) ds us) : Scanned at_ (cs ++ '\n' :: ds) (ts ++ us) := by
  induction h with
  | @blank at_ blanks hb =>
    -- the line end is one more blank before what follows
    have hline : ∀ c ∈ blanks ++ ['\n'], isBlank c = true := by
      intro c hc
      rcases List.mem_append.mp hc with hc | hc
      · exact hb c hc
      · obtain rfl := List.mem_singleton.mp hc
        rfl
    have hskip : Scanned at_ (blanks ++ ['\n'] ++ ds) us := .skip hline (by
      rwa [Text.byteSize_append, ← Nat.add_assoc])
    rwa [List.append_assoc] at hskip
  | @token at_ blanks word rest l ts hb hw hl hs _ ih =>
    have hword : Lexeme.isUnclosed (word ++ rest) = false := by
      rw [Bool.eq_false_iff]
      exact fun h => hclosed (.here hb h)
    -- the word is closed, so the line end behind the text does not change it
    have hstarts : Lexeme.Starts (word ++ rest ++ '\n' :: ds) l :=
      (Lexeme.starts_of_read hl).append (by decide) (.inl rfl) hword ds
    have hread : Lexeme.read (word ++ (rest ++ '\n' :: ds)) = some l := by
      rw [← List.append_assoc]
      exact hstarts.read
    have hat : at_ + byteSize (blanks ++ (word ++ rest)) + 1 =
        at_ + byteSize blanks + byteSize word + byteSize rest + 1 := by
      rw [Text.byteSize_append, Text.byteSize_append]
      omega
    have htail := ih (fun h => hclosed (.later hb hw hl hs h)) (hat ▸ h')
    rw [List.append_assoc, List.append_assoc]
    exact .token hb hw hread hs htail

end MudEdit
