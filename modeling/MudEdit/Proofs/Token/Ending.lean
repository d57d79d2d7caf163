import MudEdit.Proofs.Token.Scanned

/-!
# Texts that end with a semicolon

If the last token of a text is a semicolon at its very end, then the text before it has all the
other tokens, and no comment is open there: no token but the semicolon depends on it.
-/

namespace MudEdit

open Text (byteSize isBlank)

variable {cs rest word blanks : List Char} {l : Lexeme} {ts us : List Token} {t : Token}
  {at_ : Nat}

namespace Lexeme

/-- A semicolon is no part of the lexeme before it, and it ends no directive. -/
theorem Starts.before_semicolon (h : Starts (cs ++ [';']) l) (hn : l.size ≤ cs.length) :
    Starts cs l := by
  have hinclude : isInclude cs = true → isInclude (cs ++ [';']) = true := by
    intro hcs
    obtain ⟨hpre, hnext⟩ := Bool.and_eq_true_iff.mp hcs
    have hpre := List.isPrefixOf_iff_prefix.mp hpre
    have hlen : includeText.toList.length = includeText.length := String.length_toList
    refine Bool.and_eq_true_iff.mpr
      ⟨List.isPrefixOf_iff_prefix.mpr (hpre.trans (List.prefix_append ..)), ?_⟩
    rw [List.drop_append_of_le_length (hlen ▸ hpre.length_le)]
    cases htail : cs.drop includeText.length with
    | nil => rfl
    | cons c tail =>
      rw [htail] at hnext
      exact hnext
  have htake := h.take_of_le hn
  rw [List.take_left] at htake
  exact htake hinclude

/-- A block comment that is not closed has the semicolon in it. -/
theorem blockComment_semicolon {opening : Nat} (kind : TokenKind) (hle : opening ≤ cs.length)
    (h : (Text.occurrence? ['*', '/'] (cs.drop opening)).isNone = true) :
    cs.length < (blockComment kind opening (cs ++ [';'])).size := by
  rw [Nat.lt_iff_add_one_le, ← Nat.not_lt, Nat.lt_succ_iff]
  intro hn
  rw [blockComment, List.drop_append_of_le_length hle] at hn
  cases ho : Text.occurrence? ['*', '/'] (cs.drop opening ++ [';']) with
  | none =>
    rw [ho] at hn
    exact absurd hn (by simp)
  | some k =>
    -- a closing that ends before the semicolon is one of the text before it
    rw [ho] at hn
    have hk : k + 2 ≤ (cs.drop opening).length := by
      rw [List.length_drop]
      dsimp only at hn
      omega
    have hfound := Text.occurrence?_take_of_le ho hk
    rw [List.take_left] at hfound
    rw [hfound] at h
    exact absurd h (by simp)

/-- A comment that is open goes on over a semicolon. -/
theorem isUnclosed_of_semicolon (h : Starts (cs ++ [';']) l) (hn : l.size ≤ cs.length) :
    isUnclosed cs = false := by
  rw [Bool.eq_false_iff]
  intro hopen
  unfold isUnclosed at hopen
  split at hopen
  · rename_i ds
    obtain rfl := (Starts.doc (ds ++ [';'])).unique h
    have hlong := @blockComment_semicolon ('/' :: '*' :: '!' :: ds) 3 .docComment
      (Nat.le_add_left ..) hopen
    exact absurd hlong (Nat.not_lt.mpr hn)
  · rename_i ds hnot
    have hhead : (ds ++ [';']).head? ≠ some '!' := by
      cases ds with
      | nil => decide
      | cons d ds => exact fun hd => hnot ds (by rw [Option.some.inj hd])
    obtain rfl := (Starts.block (ds ++ [';']) hhead).unique h
    have hlong := @blockComment_semicolon ('/' :: '*' :: ds) 2 .comment
      (Nat.le_add_left ..) hopen
    exact absurd hlong (Nat.not_lt.mpr hn)
  · cases hopen

/-- A semicolon is one character. -/
theorem size_of_semicolon (h : Starts cs l) (hk : l.kind = .sign .semicolon) : l.size = 1 := by
  cases h with
  | sign _ hs =>
    have hall : ∀ p ∈ signs, p.2 = .semicolon → p.1.length = 1 := by decide
    obtain ⟨⟨text, s⟩, hp, rfl⟩ := Option.map_eq_some_iff.mp hs
    exact hall _ (List.mem_of_find?_eq_some hp) (TokenKind.sign.inj hk)
  | stray _ _ => rfl
  | word cs hw =>
    have hall : ∀ p ∈ vocabulary, p.2 ≠ .sign .semicolon := by decide
    unfold Lexeme.word at hk
    dsimp only at hk
    split at hk
    · rename_i kind hkind
      obtain ⟨p, hp, rfl⟩ := Option.map_eq_some_iff.mp hkind
      exact absurd hk (hall p (List.mem_of_find?_eq_some hp))
    · cases hk
  | decimal cs hd hx =>
    unfold Lexeme.decimal at hk
    dsimp only at hk
    split at hk
    · split at hk <;> cases hk
    · cases hk
  | doc cs => unfold blockComment at hk; split at hk <;> cases hk
  | block cs hhead => unfold blockComment at hk; split at hk <;> cases hk
  | _ => cases hk

end Lexeme

/-! ## The tokens of the text before it -/

theorem Unclosed.start (h : Unclosed cs) : Lexeme.isUnclosed (cs.dropWhile isBlank) = true ∨
    ∃ l, Lexeme.read (cs.dropWhile isBlank) = some l ∧
      Unclosed ((cs.dropWhile isBlank).drop l.size) := by
  cases h with
  | @here blanks word hb hopen =>
    have hhead : ∀ c ∈ word.head?, isBlank c = false := by
      unfold Lexeme.isUnclosed at hopen
      split at hopen
      · rintro c ⟨⟩
        rfl
      · rintro c ⟨⟩
        rfl
      · cases hopen
    rw [(run_append hb hhead).2]
    exact .inl hopen
  | @later blanks word rest l hb hw hl hs h =>
    rw [(span_blanks hb hw hl hs).2]
    exact .inr ⟨l, hl, by rwa [hs, List.drop_left]⟩

theorem not_unclosed_of_token (hb : ∀ c ∈ blanks, isBlank c = true)
    (hw : ∀ c ∈ word.head?, isBlank c = false) (hl : Lexeme.read (word ++ rest) = some l)
    (hs : l.size = word.length) (hclosed : Lexeme.isUnclosed (word ++ rest) = false)
    (hrest : ¬Unclosed rest) : ¬Unclosed (blanks ++ (word ++ rest)) := by
  intro h
  have hstart := h.start
  rw [(span_blanks hb hw hl hs).2, hclosed] at hstart
  obtain ⟨l', hl', hopen⟩ := hstart.resolve_left (by simp)
  obtain rfl := Option.some.inj (hl.symm.trans hl')
  rw [hs, List.drop_left] at hopen
  exact hrest hopen

/-- **The tokens before a semicolon** at the end of a text are those of the text before it, and
no comment is open there. -/
theorem Scanned.before_semicolon (h : Scanned at_ cs us)
    (h' : Scanned at_ (cs ++ [';']) (ts ++ [t])) (hk : t.kind = .sign .semicolon)
    (hstop : t.stop = at_ + byteSize cs + 1) : ts = us ∧ ¬Unclosed cs := by
  -- by the lexemes of the shorter text, each of which the longer one has to have as well
  induction h generalizing ts with
  | @blank at_ blanks hb =>
    have hsemicolon : Scanned at_ (blanks ++ ([';'] ++ [])) _ :=
      .token hb (by rintro _ ⟨⟩; rfl) rfl rfl (.blank (by simp))
    obtain ⟨rfl, -⟩ := List.append_eq_singleton_iff.mp (h'.unique hsemicolon) |>.resolve_right
      (by simp)
    refine ⟨rfl, not_unclosed fun hslash => ?_⟩
    exact absurd (hb _ hslash) (by decide)
  | @token at_ blanks word rest l us hb hw hl hs h ih =>
    have hpos := (Lexeme.read_sound hl).size_pos
    have hhead : ∀ c ∈ (word ++ rest ++ [';']).head?, isBlank c = false := by
      cases word with
      | nil => exact absurd hpos (by simp [hs])
      | cons c word => exact hw
    obtain ⟨hrun, hdrop⟩ := run_append hb hhead
    have hstart := h'.start
    rw [List.append_assoc, hrun, hdrop] at hstart
    obtain ⟨l', us', hl', htokens, hrest⟩ := hstart.resolve_left fun h => by simp at h
    have hstarts := Lexeme.starts_of_read hl'
    by_cases hsize : l'.size ≤ (word ++ rest).length
    · -- the lexeme is that of the shorter text, so there are tokens behind it
      obtain rfl := Option.some.inj (hl.symm.trans (hstarts.before_semicolon hsize).read)
      have hclosed := Lexeme.isUnclosed_of_semicolon hstarts hsize
      rw [hs, List.append_assoc, List.take_left] at htokens hrest
      rw [List.drop_left] at hrest
      cases ts with
      | nil =>
        obtain ⟨rfl, -⟩ := List.cons.inj htokens
        rw [Token.ofLexeme, Text.byteSize_append, Text.byteSize_append] at hstop
        dsimp only at hstop
        omega
      | cons x ts =>
        obtain ⟨rfl, rfl⟩ := List.cons.inj htokens
        rw [Text.byteSize_append, Text.byteSize_append] at hstop
        obtain ⟨rfl, hopen⟩ := ih hrest (by omega)
        exact ⟨rfl, not_unclosed_of_token hb hw hl hs hclosed hopen⟩
    · -- the lexeme is all of the text, so it is the semicolon, which is shorter
      have hnil : (word ++ rest ++ [';']).drop l'.size = [] :=
        List.drop_eq_nil_of_le (by rw [List.length_append]; exact Nat.lt_of_not_le hsize)
      rw [hnil] at hrest
      have hus : us' = [] := hrest.unique (.blank (by simp))
      rw [hus] at htokens
      obtain ⟨rfl, htokens⟩ := List.append_eq_singleton_iff.mp htokens |>.resolve_right (by simp)
      obtain rfl := List.singleton_inj.mp htokens
      have hone := Lexeme.size_of_semicolon hstarts hk
      rw [List.length_append] at hsize
      omega

/-- **A semicolon that ends a text** is its last token, the tokens before it are those of the text
without it, and that text ends in no open comment. -/
theorem lex_before_semicolon {text : String} (ht : t ∈ lex .editor (text ++ ";"))
    (hk : t.kind = .sign .semicolon) (hstop : t.stop = (text ++ ";").utf8ByteSize) :
    ∃ ts, lex .editor (text ++ ";") = ts ++ [t, .eof (text ++ ";").utf8ByteSize] ∧
      lex .editor text = ts ++ [.eof text.utf8ByteSize] ∧ ¬Unclosed text.toList := by
  obtain ⟨us, hlex, hscanned⟩ := lex_scanned (text ++ ";")
  obtain ⟨vs, hlex', hord, -⟩ := lex_spec .editor (text ++ ";")
  obtain rfl : us = vs := List.append_cancel_right (hlex.symm.trans hlex')
  rw [hlex] at ht
  obtain ⟨ts, bs, rfl⟩ : ∃ ts bs, us = ts ++ t :: bs := by
    refine List.append_of_mem ((List.mem_append.mp ht).resolve_right fun heof => ?_)
    rw [List.mem_singleton.mp heof] at hk
    cases hk
  -- a token behind the end of the text would end even later
  have hlast : bs = [] := List.eq_nil_iff_forall_not_mem.mpr fun u hu => by
    have hbehind := (List.pairwise_cons.mp (List.pairwise_append.mp hord.apart).2.1).1 u hu
    obtain ⟨-, hlt, hle⟩ := hord.within u (by simp [hu])
    omega
  subst hlast
  have htext : (text ++ ";").toList = text.toList ++ [';'] := by simp
  have hsize : (text ++ ";").utf8ByteSize = 0 + byteSize text.toList + 1 := by
    rw [String.utf8ByteSize_append, Text.byteSize_toList, Nat.zero_add]
    rfl
  obtain ⟨vs, hvs, hscanned'⟩ := lex_scanned text
  obtain ⟨rfl, hclosed⟩ := hscanned'.before_semicolon (htext ▸ hscanned) hk (hstop.trans hsize)
  exact ⟨ts, by rw [hlex, List.append_assoc]; rfl, hvs, hclosed⟩

end MudEdit
