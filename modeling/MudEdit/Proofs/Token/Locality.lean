import MudEdit.Proofs.Text.Runs
import MudEdit.Proofs.Token.Lexeme
import MudEdit.Text.Blank

/-!
# What a lexeme depends on

How a text starts decides which lexeme it starts with. A lexeme depends on no more of the text
than it takes, and on what could have been taken as well: read on its own it is the same, and so it
is with a line end behind the text, unless a block comment is never closed.
-/

namespace MudEdit

variable {c sep : Char} {cs rest : List Char} {l : Lexeme}

/-- Whether tokens of the kind have a delimiter or end of line behind their content. -/
def TokenKind.isDelimited : TokenKind → Bool
  | comment | docComment | string | character | symbol => true
  | _ => false

/-! ## Classes of characters -/

/-- Words start with a letter of the first block or an underscore. -/
theorem isWordStart_iff_toNat : isWordStart c = true ↔
    65 ≤ c.toNat ∧ c.toNat ≤ 90 ∨ 97 ≤ c.toNat ∧ c.toNat ≤ 122 ∨ c.toNat = 95 := by
  show (decide ('A'.toNat ≤ c.toNat ∧ c.toNat ≤ 'Z'.toNat) ||
    (decide ('a'.toNat ≤ c.toNat) && decide (c.toNat ≤ 'z'.toNat)) || c == '_') = true ↔ _
  rw [Bool.or_eq_true, Bool.or_eq_true, Bool.and_eq_true, decide_eq_true_eq, decide_eq_true_eq,
    decide_eq_true_eq, beq_iff_eq, ← Char.toNat_inj, or_assoc]
  rfl

theorem isWordStart_of_isDigit (h : c.isDigit = true) : isWordStart c = false := by
  have hdigit : 48 ≤ c.toNat ∧ c.toNat ≤ 57 := Char.isDigit_iff_toNat.mp h
  rw [Bool.eq_false_iff, Ne, isWordStart_iff_toNat]
  omega

/-- There is no blank between the first digit and the last letter. -/
theorem isBlank_of_toNat (h : 48 ≤ c.toNat ∧ c.toNat ≤ 122) : Text.isBlank c = false := by
  rw [Bool.eq_false_iff]
  intro hb
  simp only [Text.isBlank, Text.blankRanges, List.any_cons, List.any_nil, Bool.or_eq_true,
    Bool.and_eq_true, decide_eq_true_eq, Bool.false_eq_true, or_false] at hb
  omega

theorem isBlank_of_isWordChar (h : isWordChar c = true) : Text.isBlank c = false := by
  refine isBlank_of_toNat ?_
  rcases (Bool.or_eq_true _ _).mp h with h | h
  · have hword := isWordStart_iff_toNat.mp h
    omega
  · have hdigit : 48 ≤ c.toNat ∧ c.toNat ≤ 57 := Char.isDigit_iff_toNat.mp h
    omega

/-- Hexadecimal digits are between the first digit and a letter. -/
theorem toNat_of_isHexDigit (h : Lexeme.isHexDigit c = true) : 48 ≤ c.toNat ∧ c.toNat ≤ 102 := by
  simp only [Lexeme.isHexDigit, Bool.or_eq_true, Bool.and_eq_true, decide_eq_true_eq] at h
  rcases h with (h | h) | h
  · have hdigit : 48 ≤ c.toNat ∧ c.toNat ≤ 57 := Char.isDigit_iff_toNat.mp h
    omega
  · have hletter : 97 ≤ c.toNat ∧ c.toNat ≤ 102 := h
    omega
  · have hletter : 65 ≤ c.toNat ∧ c.toNat ≤ 70 := h
    omega

theorem isBlank_of_isHexDigit (h : Lexeme.isHexDigit c = true) : Text.isBlank c = false := by
  have hdigit := toNat_of_isHexDigit h
  exact isBlank_of_toNat (by omega)

section Blank

variable (hb : Text.isBlank sep = true)
include hb

theorem isWordChar_of_isBlank : isWordChar sep = false := by
  rw [Bool.eq_false_iff]
  exact fun h => absurd hb (by simp [isBlank_of_isWordChar h])

theorem isDigit_of_isBlank : sep.isDigit = false := by
  have h := isWordChar_of_isBlank hb
  rw [isWordChar, Bool.or_eq_false_iff] at h
  exact h.2

theorem isHexDigit_of_isBlank : Lexeme.isHexDigit sep = false := by
  rw [Bool.eq_false_iff]
  exact fun h => absurd hb (by simp [isBlank_of_isHexDigit h])

theorem ne_of_isBlank {x : Char} (hx : Text.isBlank x = false) : sep ≠ x := by
  rintro rfl
  exact absurd hb (by simp [hx])

end Blank

namespace Lexeme

/-! ## Delimited literals -/

theorem delimited_escape {d : Char} (hc : c ≠ '\n') (cs : List Char) :
    delimited d ('\\' :: c :: cs) =
      (unescape c :: (delimited d cs).1, (delimited d cs).2 + 2) := by
  rw [delimited]
  exact hc

theorem delimited_close {d : Char} (hd : d ≠ '\n') (hd' : d ≠ '\\') (cs : List Char) :
    delimited d (d :: cs) = ([], 1) := by
  rw [delimited, if_pos rfl]
  · exact hd
  · exact hd'

theorem delimited_cons {d : Char} (hc : c ≠ '\n') (hc' : c ≠ '\\') (hd : c ≠ d)
    (cs : List Char) :
    delimited d (c :: cs) = (c :: (delimited d cs).1, (delimited d cs).2 + 1) := by
  rw [delimited, if_neg hd]
  · exact hc
  · exact hc'

/-- A literal does not look behind its end. -/
theorem delimited_take {n : Nat} (d : Char) (cs : List Char) (hn : (delimited d cs).2 ≤ n) :
    delimited d (cs.take n) = delimited d cs := by
  -- by the recursion of `delimited`: each character read is among the `n` that are kept
  fun_induction delimited d cs generalizing n with
  | case1 => rw [List.take_nil]; rfl
  | case2 => cases n <;> rfl
  | case3 =>
    obtain ⟨n, rfl⟩ := Nat.exists_eq_add_of_le' hn
    rw [List.take_succ_cons, List.take_nil]
    rfl
  | case4 cs =>
    obtain ⟨n, rfl⟩ := Nat.exists_eq_add_of_le' hn
    cases n <;> rfl
  | case5 c cs hc content k heq ih =>
    obtain ⟨n, rfl⟩ := Nat.exists_eq_add_of_le' (Nat.le_trans (Nat.le_add_left 2 k) hn)
    rw [heq] at ih
    rw [List.take_succ_cons, List.take_succ_cons, delimited_escape hc,
      ih (Nat.le_of_add_le_add_right hn)]
  | case6 cs hd hd' =>
    obtain ⟨n, rfl⟩ := Nat.exists_eq_add_of_le' hn
    rw [List.take_succ_cons, delimited_close hd hd']
  | case7 c cs hc hc' hd content k heq ih =>
    obtain ⟨n, rfl⟩ := Nat.exists_eq_add_of_le' (Nat.le_trans (Nat.le_add_left 1 k) hn)
    rw [heq] at ih
    rw [List.take_succ_cons, delimited_cons hc hc' hd, ih (Nat.le_of_add_le_add_right hn)]

theorem delimited_size_le (d : Char) (cs : List Char) : (delimited d cs).2 ≤ cs.length := by
  fun_induction delimited d cs with
  | case1 => exact Nat.le_refl _
  | case2 => exact Nat.zero_le _
  | case3 => exact Nat.le_refl _
  | case4 cs => simp
  | case5 c cs hc content k heq ih =>
    rw [heq] at ih
    exact Nat.add_le_add_right ih 2
  | case6 cs hd hd' => exact Nat.succ_le_succ (Nat.zero_le _)
  | case7 c cs hc hc' hd content k heq ih =>
    rw [heq] at ih
    exact Nat.succ_le_succ ih

/-- A literal that is not closed on its line ends with it, as it ends with the text. -/
theorem delimited_append (d : Char) (cs rest : List Char) :
    delimited d (cs ++ '\n' :: rest) = delimited d cs := by
  fun_induction delimited d cs with
  | case1 => rfl
  | case2 => rfl
  | case3 => rfl
  | case4 => rfl
  | case5 c cs hc content n heq ih =>
    rw [List.cons_append, List.cons_append, delimited_escape hc, ih, heq]
  | case6 cs hd hd' => rw [List.cons_append, delimited_close hd hd']
  | case7 c cs hc hc' hd content n heq ih =>
    rw [List.cons_append, delimited_cons hc hc' hd, ih, heq]

/-! ## How a text starts -/

/-- The first character is none that comments, literals, numbers, words or the directive start
with, or it does not start one of them here. -/
structure Bare (c : Char) (cs : List Char) : Prop where
  quote : c ≠ '\x22'
  apostrophe : c ≠ '\x27'
  digit : c.isDigit = false
  letter : isWordStart c = false
  comment : c = '/' → ∀ x ∈ cs.head?, x ≠ '/' ∧ x ≠ '*'
  symbol : c = '#' → ∀ x ∈ cs.head?, x ≠ '\x27'
  directive : isInclude (c :: cs) = false

/-- What a text starts with. -/
inductive Starts : List Char → Lexeme → Prop
  | line (cs : List Char) :
      Starts ('/' :: '/' :: cs) ⟨.comment, none, (cs.takeWhile (· != '\n')).length + 2⟩
  | doc (cs : List Char) :
      Starts ('/' :: '*' :: '!' :: cs) (blockComment .docComment 3 ('/' :: '*' :: '!' :: cs))
  | block (cs : List Char) : cs.head? ≠ some '!' →
      Starts ('/' :: '*' :: cs) (blockComment .comment 2 ('/' :: '*' :: cs))
  | string (cs : List Char) : Starts ('\x22' :: cs) (string cs)
  | character (cs : List Char) : Starts ('\x27' :: cs) (character cs)
  | symbol (cs : List Char) : Starts ('#' :: '\x27' :: cs) (symbol cs)
  | hexadecimal {x : Char} (cs : List Char) : x = 'x' ∨ x = 'X' →
      Starts ('0' :: x :: cs) (hexadecimal cs)
  | decimal {c : Char} (cs : List Char) : c.isDigit = true →
      (c = '0' → ∀ x ∈ cs.head?, x ≠ 'x' ∧ x ≠ 'X') → Starts (c :: cs) (decimal (c :: cs))
  | directive (cs : List Char) : isInclude cs = true →
      Starts cs ⟨.includeDirective, none, includeText.length⟩
  | word {c : Char} (cs : List Char) : isWordStart c = true → Starts (c :: cs) (word (c :: cs))
  | sign {c : Char} {cs : List Char} {l : Lexeme} : Bare c cs → sign? (c :: cs) = some l →
      Starts (c :: cs) l
  | stray {c : Char} {cs : List Char} : Bare c cs → sign? (c :: cs) = none →
      Starts (c :: cs) (stray c)

theorem starts_of_read (h : read cs = some l) : Starts cs l := by
  cases cs with
  | nil => exact absurd h (by simp [read])
  | cons c cs =>
    simp only [read, Option.some.injEq] at h
    subst h
    split
    · simpa using Starts.line _
    · exact .doc _
    · rename_i rest hnot
      refine .block rest fun hhead => ?_
      obtain ⟨tail, rfl⟩ := List.head?_eq_some_iff.mp hhead
      exact hnot tail rfl
    · exact .string _
    · exact .character _
    · exact .hexadecimal _ (.inl rfl)
    · exact .hexadecimal _ (.inr rfl)
    · -- the first characters alone do not settle it, and the tests are made one by one
      rename_i hquote hapostrophe hline hdoc hblock hx hX
      split
      · rename_i hinclude
        exact .directive _ hinclude
      · rename_i hinclude
        split
        · rename_i hsymbol
          rw [Bool.and_eq_true, decide_eq_true_iff, beq_iff_eq] at hsymbol
          obtain ⟨rfl, hhead⟩ := hsymbol
          obtain ⟨tail, rfl⟩ := List.head?_eq_some_iff.mp hhead
          exact .symbol tail
        · rename_i hsymbol
          have hhead {x : Char} (hx : x ∈ cs.head?) : ∃ tail, cs = x :: tail :=
            List.head?_eq_some_iff.mp hx
          split
          · rename_i hdigit
            refine .decimal cs hdigit fun hzero x hxs => ?_
            obtain ⟨tail, rfl⟩ := hhead hxs
            exact ⟨fun h => hx tail hzero (h ▸ rfl), fun h => hX tail hzero (h ▸ rfl)⟩
          · rename_i hdigit
            split
            · exact .word cs ‹_›
            · -- every test has failed that would tell it from a sign
              rename_i hletter
              have hbare : Bare c cs := by
                refine ⟨hquote, hapostrophe, by simpa using hdigit, by simpa using hletter, ?_, ?_,
                  by simpa using hinclude⟩
                · intro hslash x hxs
                  obtain ⟨tail, rfl⟩ := hhead hxs
                  exact ⟨fun h => hline tail hslash (h ▸ rfl),
                    fun h => hblock tail hslash (h ▸ rfl)⟩
                · intro hhash x hxs hx
                  rw [hhash, Option.mem_def.mp hxs, hx] at hsymbol
                  exact hsymbol rfl
              cases hs : sign? (c :: cs) with
              | none => exact .stray hbare hs
              | some l => exact .sign hbare hs

/-- None of what settles by its first characters how a text starts. -/
theorem read_eq_of_bare (hquote : c ≠ '\x22') (hapostrophe : c ≠ '\x27')
    (hslash : c = '/' → ∀ x ∈ cs.head?, x ≠ '/' ∧ x ≠ '*')
    (hzero : c = '0' → ∀ x ∈ cs.head?, x ≠ 'x' ∧ x ≠ 'X') :
    read (c :: cs) = some (if isInclude (c :: cs) then ⟨.includeDirective, none, includeText.length⟩
      else if c = '#' && cs.head? == some '\x27' then symbol (cs.drop 1)
      else if c.isDigit then decimal (c :: cs)
      else if isWordStart c then word (c :: cs)
      else (sign? (c :: cs)).getD (stray c)) := by
  rw [read]
  · exact hquote
  · exact hapostrophe
  · rintro tail rfl rfl
    exact (hslash rfl _ rfl).1 rfl
  · rintro tail rfl rfl
    exact (hslash rfl _ rfl).2 rfl
  · rintro tail rfl rfl
    exact (hslash rfl _ rfl).2 rfl
  · rintro tail rfl rfl
    exact (hzero rfl _ rfl).1 rfl
  · rintro tail rfl rfl
    exact (hzero rfl _ rfl).2 rfl

theorem isInclude_cons (h : isInclude (c :: cs) = true) : c = '#' := by
  unfold isInclude at h
  have hpre := (Bool.and_eq_true_iff.mp h).1
  have : ("#include".toList).isPrefixOf (c :: cs) = true := hpre
  simp [List.isPrefixOf] at this
  exact this.1.symm

theorem read_of_bare (h : Bare c cs) :
    read (c :: cs) = some ((sign? (c :: cs)).getD (stray c)) := by
  rw [read_eq_of_bare h.quote h.apostrophe h.comment, if_neg (by simp [h.directive]), if_neg,
    if_neg (by simp [h.digit]), if_neg (by simp [h.letter])]
  · intro hsymbol
    rw [Bool.and_eq_true, decide_eq_true_iff, beq_iff_eq] at hsymbol
    exact h.symbol hsymbol.1 _ hsymbol.2 rfl
  · rintro rfl
    exact absurd h.digit (by decide)

/-- What a text starts with is what is read of it. -/
theorem Starts.read (h : Starts cs l) : read cs = some l := by
  cases h with
  | line cs => simp [Lexeme.read]
  | doc cs => rfl
  | block cs hhead =>
    rw [Lexeme.read]
    rintro tail rfl
    exact hhead rfl
  | string cs => rfl
  | character cs => rfl
  | symbol cs =>
    rw [read_eq_of_bare (by decide) (by decide) (by simp) (by simp),
      if_neg (by simp [isInclude, List.isPrefixOf, includeText])]
    rfl
  | hexadecimal cs hx => rcases hx with rfl | rfl <;> rfl
  | @decimal c cs hd hx =>
    have hne {x : Char} (hxd : x.isDigit = false) : c ≠ x := fun h => by simp [← h, hd] at hxd
    -- a digit opens neither a directive nor a symbol, so its branch is reached
    have hinclude : isInclude (c :: cs) = false := by
      rw [Bool.eq_false_iff]
      exact fun h => hne (by decide) (isInclude_cons h)
    rw [read_eq_of_bare (hne (by decide)) (hne (by decide))
      (fun h => absurd h (hne (by decide))) hx, hinclude, if_neg (by simp), if_neg, if_pos hd]
    simp [hne (x := '#') (by decide)]
  | directive cs hinclude =>
    cases cs with
    | nil => exact absurd hinclude (by decide)
    | cons c cs =>
      obtain rfl := isInclude_cons hinclude
      rw [read_eq_of_bare (by decide) (by decide) (by simp) (by simp), if_pos hinclude]
  | @word c cs hw =>
    have hne {x : Char} (hxw : isWordStart x = false) : c ≠ x := fun h => by simp [← h, hw] at hxw
    -- a word opens neither a directive nor a symbol nor a number
    have hinclude : isInclude (c :: cs) = false := by
      rw [Bool.eq_false_iff]
      exact fun h => hne (by decide) (isInclude_cons h)
    have hdigit : c.isDigit = false := by
      rw [Bool.eq_false_iff]
      exact fun hd => absurd hw (by simp [isWordStart_of_isDigit hd])
    rw [read_eq_of_bare (hne (by decide)) (hne (by decide))
      (fun h => absurd h (hne (by decide))) (fun h => absurd h (hne (by decide))), hinclude,
      if_neg (by simp), if_neg, if_neg (by simp [hdigit]), if_pos hw]
    simp [hne (x := '#') (by decide)]
  | @sign c cs _ hbare hs => rw [read_of_bare hbare, hs]; rfl
  | @stray c cs hbare hs => rw [read_of_bare hbare, hs]; rfl

theorem Starts.unique {l' : Lexeme} (h : Starts cs l) (h' : Starts cs l') : l = l' :=
  Option.some.inj (h.read.symm.trans h'.read)

/-! ## A lexeme at the end of a text -/

theorem blockComment_size (kind : TokenKind) {opening : Nat} (h : opening ≤ cs.length) :
    opening ≤ (blockComment kind opening cs).size ∧
      (blockComment kind opening cs).size ≤ cs.length := by
  unfold blockComment
  cases ho : Text.occurrence? ['*', '/'] (cs.drop opening) with
  | none => exact ⟨h, Nat.le_refl _⟩
  | some k =>
    obtain ⟨-, hle⟩ := Text.occurrence?_take ho
    rw [List.length_drop] at hle
    refine ⟨by dsimp only; omega, ?_⟩
    dsimp only at hle ⊢
    simp at hle
    omega

theorem blockComment_take {n : Nat} (kind : TokenKind) (opening : Nat)
    (hn : (blockComment kind opening cs).size ≤ n) :
    blockComment kind opening (cs.take n) = blockComment kind opening cs := by
  unfold blockComment at hn ⊢
  cases ho : Text.occurrence? ['*', '/'] (cs.drop opening) with
  | none =>
    rw [ho] at hn
    rw [List.take_of_length_le hn, ho]
  | some k =>
    rw [ho] at hn
    have htake : Text.occurrence? ['*', '/'] ((cs.drop opening).take (n - opening)) = some k :=
      Text.occurrence?_take_of_le ho (show k + 2 ≤ n - opening by dsimp only at hn; omega)
    rw [List.drop_take, htake]

/-- Whether digits are followed by a point with a digit after it. -/
def HasFraction (cs rest : List Char) : Prop :=
  cs.dropWhile Char.isDigit = '.' :: rest ∧ rest.takeWhile Char.isDigit ≠ []

theorem decimal_of_fraction (h : HasFraction cs rest) : decimal cs =
    ⟨.float, some (.float (Number.Binary64.ofDigits (cs.takeWhile Char.isDigit)
      (rest.takeWhile Char.isDigit))),
      (cs.takeWhile Char.isDigit).length + 1 + (rest.takeWhile Char.isDigit).length⟩ := by
  rw [decimal, h.1]
  exact if_neg (by simpa using h.2)

theorem decimal_of_no_fraction (h : ∀ rest, ¬HasFraction cs rest) : decimal cs =
    int (decimalValue (cs.takeWhile Char.isDigit)) (cs.takeWhile Char.isDigit).length := by
  rw [decimal]
  dsimp only
  split
  · rename_i rest hrest
    have hnone : rest.takeWhile Char.isDigit = [] :=
      Classical.byContradiction fun hsome => h rest ⟨hrest, hsome⟩
    rw [hnone]
    rfl
  · rfl

/-- What is taken of a run and what is behind it. -/
theorem dropWhile_take {n : Nat} (hn : (cs.takeWhile Char.isDigit).length ≤ n) :
    (cs.take n).dropWhile Char.isDigit =
      (cs.dropWhile Char.isDigit).take (n - (cs.takeWhile Char.isDigit).length) := by
  rw [← drop_length_takeWhile, ← drop_length_takeWhile, takeWhile_take hn, List.drop_take]

theorem decimal_take {n : Nat} (hn : (decimal cs).size ≤ n) :
    decimal (cs.take n) = decimal cs := by
  by_cases hfraction : ∃ rest, HasFraction cs rest
  · obtain ⟨rest, hrest⟩ := hfraction
    rw [decimal_of_fraction hrest] at hn ⊢
    dsimp only at hn
    have hwhole : (cs.takeWhile Char.isDigit).length ≤ n := by omega
    obtain ⟨m, hm⟩ : ∃ m, n - (cs.takeWhile Char.isDigit).length = m + 1 :=
      ⟨n - (cs.takeWhile Char.isDigit).length - 1, by omega⟩
    have hdigits : (rest.take m).takeWhile Char.isDigit = rest.takeWhile Char.isDigit :=
      takeWhile_take (by omega)
    have hagain : HasFraction (cs.take n) (rest.take m) := by
      refine ⟨?_, hdigits ▸ hrest.2⟩
      rw [dropWhile_take hwhole, hrest.1, hm, List.take_succ_cons]
    rw [decimal_of_fraction hagain, takeWhile_take hwhole, hdigits]
  · have hnone := not_exists.mp hfraction
    rw [decimal_of_no_fraction hnone] at hn ⊢
    -- a fraction of what is taken would be one of the whole text
    have hagain : ∀ rest, ¬HasFraction (cs.take n) rest := by
      rintro rest ⟨hrest, hne⟩
      rw [dropWhile_take hn] at hrest
      cases hcs : cs.dropWhile Char.isDigit with
      | nil =>
        rw [hcs, List.take_nil] at hrest
        cases hrest
      | cons c tail =>
        rw [hcs] at hrest
        cases hm : n - (cs.takeWhile Char.isDigit).length with
        | zero =>
          rw [hm] at hrest
          cases hrest
        | succ m =>
          rw [hm, List.take_succ_cons] at hrest
          obtain ⟨rfl, rfl⟩ := List.cons.inj hrest
          refine hnone tail ⟨hcs, fun hnil => hne ?_⟩
          rw [← List.take_takeWhile, hnil, List.take_nil]
    rw [decimal_of_no_fraction hagain, takeWhile_take hn]

theorem decimal_size_le (cs : List Char) : (decimal cs).size ≤ cs.length := by
  have hcs : (cs.takeWhile Char.isDigit).length + (cs.dropWhile Char.isDigit).length =
      cs.length := by
    rw [← List.length_append, List.takeWhile_append_dropWhile]
  by_cases hfraction : ∃ rest, HasFraction cs rest
  · obtain ⟨rest, hrest⟩ := hfraction
    have hle := (List.takeWhile_prefix (l := rest) Char.isDigit).length_le
    rw [hrest.1, List.length_cons] at hcs
    rw [decimal_of_fraction hrest]
    dsimp only
    omega
  · rw [decimal_of_no_fraction (not_exists.mp hfraction)]
    exact (List.takeWhile_prefix _).length_le

theorem sign?_size (h : sign? cs = some l) : l.size ≤ cs.length ∧ 0 < l.size ∧ l.size ≤ 3 := by
  have hall : ∀ p ∈ signs, 0 < p.1.length ∧ p.1.length ≤ 3 := by decide
  obtain ⟨⟨text, s⟩, hp, rfl⟩ := Option.map_eq_some_iff.mp h
  have hpre := List.isPrefixOf_iff_prefix.mp (List.find?_eq_some_iff_append.mp hp).1
  have hsize : text.toList.length = text.length := String.length_toList
  refine ⟨?_, hall _ (List.mem_of_find?_eq_some hp)⟩
  show text.length ≤ cs.length
  rw [← hsize]
  exact hpre.length_le

theorem sign?_take {n : Nat} (h : sign? cs = some l) (hn : l.size ≤ n) :
    sign? (cs.take n) = some l := by
  obtain ⟨⟨text, s⟩, hp, rfl⟩ := Option.map_eq_some_iff.mp h
  obtain ⟨hpre, before, after, heq, hbefore⟩ := List.find?_eq_some_iff_append.mp hp
  have hsize : text.toList.length = text.length := String.length_toList
  rw [sign?, Option.map_eq_some_iff]
  refine ⟨(text, s),
    List.find?_eq_some_iff_append.mpr ⟨?_, before, after, heq, fun q hq => ?_⟩, rfl⟩
  · exact isPrefixOf_take hpre (hsize ▸ hn)
  · have := hbefore q hq
    rw [Bool.not_eq_true', Bool.eq_false_iff] at this ⊢
    exact fun hq => this (isPrefixOf_of_take hq)

theorem Bare.take {n : Nat} (h : Bare c cs)
    (hinclude : isInclude (c :: cs.take n) = true → isInclude (c :: cs) = true) :
    Bare c (cs.take n) where
  quote := h.quote
  apostrophe := h.apostrophe
  digit := h.digit
  letter := h.letter
  comment hc x hx := h.comment hc x (head?_of_take hx)
  symbol hc x hx := h.symbol hc x (head?_of_take hx)
  directive := by
    rw [Bool.eq_false_iff]
    exact fun hagain => absurd h.directive (by simp [hinclude hagain])

theorem word_size (cs : List Char) :
    (Lexeme.word cs).size = (cs.takeWhile isWordChar).length := by
  unfold Lexeme.word
  dsimp only
  split <;> rfl

theorem word_take {n : Nat} (hn : (Lexeme.word cs).size ≤ n) :
    Lexeme.word (cs.take n) = Lexeme.word cs := by
  rw [word_size] at hn
  rw [Lexeme.word, takeWhile_take hn, Lexeme.word]

/-- The directive stays one, as nothing is put behind it. -/
theorem isInclude_take {n : Nat} (h : isInclude cs = true) (hn : includeText.length ≤ n) :
    isInclude (cs.take n) = true := by
  obtain ⟨hpre, hnext⟩ := Bool.and_eq_true_iff.mp h
  have hlen : includeText.toList.length = includeText.length := String.length_toList
  refine Bool.and_eq_true_iff.mpr ⟨isPrefixOf_take hpre (hlen ▸ hn), ?_⟩
  rw [List.drop_take]
  cases htail : ((cs.drop includeText.length).take (n - includeText.length)).head? with
  | none => rfl
  | some x =>
    rw [Option.mem_def.mp (head?_of_take (Option.mem_def.mpr htail))] at hnext
    exact hnext

theorem Starts.size_le (h : Starts cs l) : l.size ≤ cs.length := by
  cases h with
  | line cs => simpa using (List.takeWhile_prefix (l := cs) (fun c => c != '\n')).length_le
  | doc cs => exact (blockComment_size .docComment (by simp)).2
  | block cs _ => exact (blockComment_size .comment (by simp)).2
  | string cs => exact Nat.succ_le_succ (delimited_size_le _ cs)
  | character cs => exact Nat.succ_le_succ (delimited_size_le _ cs)
  | symbol cs => exact Nat.add_le_add_right (delimited_size_le _ cs) 2
  | hexadecimal cs _ => exact Nat.add_le_add_right (List.takeWhile_prefix _).length_le 2
  | @decimal c cs _ _ => exact decimal_size_le (c :: cs)
  | directive cs hinclude =>
    have hlen : includeText.toList.length = includeText.length := String.length_toList
    exact hlen ▸ (List.isPrefixOf_iff_prefix.mp (Bool.and_eq_true_iff.mp hinclude).1).length_le
  | @word c cs hw =>
    rw [word_size]
    exact (List.takeWhile_prefix _).length_le
  | sign _ hs => exact (sign?_size hs).1
  | stray _ _ => exact Nat.succ_le_succ (Nat.zero_le _)

/-- **A lexeme does not depend on what is behind it**: if less of the text is taken, but no less
than the lexeme, it is the same lexeme. What is taken must not end as the directive does where the
text goes on with a longer word. -/
theorem Starts.take_of_le {n : Nat} (h : Starts cs l) (hn : l.size ≤ n)
    (hinclude : isInclude (cs.take n) = true → isInclude cs = true) : Starts (cs.take n) l := by
  cases h with
  | line cs =>
    obtain ⟨n, rfl⟩ := Nat.exists_eq_add_of_le' (Nat.le_trans (Nat.le_add_left 2 _) hn)
    have hstarts := Starts.line (cs.take n)
    rwa [takeWhile_take (Nat.le_of_add_le_add_right hn)] at hstarts
  | doc cs =>
    have heq := blockComment_take .docComment 3 hn
    obtain ⟨n, rfl⟩ :=
      Nat.exists_eq_add_of_le' (Nat.le_trans (blockComment_size .docComment (by simp)).1 hn)
    rw [List.take_succ_cons, List.take_succ_cons, List.take_succ_cons] at heq ⊢
    rw [← heq]
    exact .doc _
  | block cs hhead =>
    have heq := blockComment_take .comment 2 hn
    obtain ⟨n, rfl⟩ :=
      Nat.exists_eq_add_of_le' (Nat.le_trans (blockComment_size .comment (by simp)).1 hn)
    rw [List.take_succ_cons, List.take_succ_cons] at heq ⊢
    rw [← heq]
    exact .block _ fun hx => hhead (head?_of_take hx)
  | string cs =>
    obtain ⟨n, rfl⟩ := Nat.exists_eq_add_of_le' (Nat.le_trans (Nat.le_add_left 1 _) hn)
    have hstarts := Starts.string (cs.take n)
    rwa [Lexeme.string, delimited_take _ cs (Nat.le_of_add_le_add_right hn)] at hstarts
  | character cs =>
    obtain ⟨n, rfl⟩ := Nat.exists_eq_add_of_le' (Nat.le_trans (Nat.le_add_left 1 _) hn)
    have hstarts := Starts.character (cs.take n)
    rwa [Lexeme.character, delimited_take _ cs (Nat.le_of_add_le_add_right hn)] at hstarts
  | symbol cs =>
    obtain ⟨n, rfl⟩ := Nat.exists_eq_add_of_le' (Nat.le_trans (Nat.le_add_left 2 _) hn)
    have hstarts := Starts.symbol (cs.take n)
    rwa [Lexeme.symbol, delimited_take _ cs (Nat.le_of_add_le_add_right hn)] at hstarts
  | @hexadecimal x cs hx =>
    obtain ⟨n, rfl⟩ := Nat.exists_eq_add_of_le' (Nat.le_trans (Nat.le_add_left 2 _) hn)
    have hstarts := Starts.hexadecimal (cs.take n) hx
    rwa [Lexeme.hexadecimal, takeWhile_take (Nat.le_of_add_le_add_right hn)] at hstarts
  | @decimal c cs hd hx =>
    have heq := decimal_take hn
    obtain ⟨n, rfl⟩ := Nat.exists_eq_add_of_le' (Nat.le_trans (decimal_sound hd).size_pos hn)
    rw [List.take_succ_cons] at heq ⊢
    rw [← heq]
    exact .decimal _ hd fun hzero x hxs => hx hzero x (head?_of_take hxs)
  | directive cs h => exact .directive _ (isInclude_take h hn)
  | @word c cs hw =>
    have heq := word_take hn
    have hc : isWordChar c = true := by simp [isWordChar, hw]
    rw [word_size, List.takeWhile_cons_of_pos hc] at hn
    obtain ⟨n, rfl⟩ := Nat.exists_eq_add_of_le' (Nat.le_trans (Nat.le_add_left 1 _) hn)
    rw [List.take_succ_cons] at heq ⊢
    rw [← heq]
    exact .word _ hw
  | @sign c cs l hbare hs =>
    have htake := sign?_take hs hn
    obtain ⟨n, rfl⟩ := Nat.exists_eq_add_of_le' (Nat.le_trans (sign?_size hs).2.1 hn)
    rw [List.take_succ_cons] at htake hinclude ⊢
    exact .sign (hbare.take hinclude) htake
  | @stray c cs hbare hs =>
    obtain ⟨n, rfl⟩ : ∃ m, n = m + 1 := Nat.exists_eq_add_of_le' hn
    rw [List.take_succ_cons] at hinclude ⊢
    refine .stray (hbare.take hinclude) ?_
    -- a sign that is taken would have been there
    rw [sign?, Option.map_eq_none_iff, List.find?_eq_none] at hs ⊢
    exact fun q hq hpre => hs q hq (isPrefixOf_of_take (n := n + 1) hpre)

/-- **A lexeme on its own is the same lexeme.** -/
theorem Starts.take (h : Starts cs l) : l.size ≤ cs.length ∧ Starts (cs.take l.size) l := by
  refine ⟨h.size_le, h.take_of_le (Nat.le_refl _) fun hinclude => ?_⟩
  -- what is as long as the directive and starts like it is the directive
  have hpre := (Bool.and_eq_true_iff.mp hinclude).1
  have hlong : 8 ≤ l.size :=
    Nat.le_trans (List.isPrefixOf_iff_prefix.mp hpre).length_le (List.length_take_le ..)
  obtain ⟨rest, hrest⟩ := List.isPrefixOf_iff_prefix.mp (isPrefixOf_of_take hpre)
  have hcs : cs = '#' :: 'i' :: (['n', 'c', 'l', 'u', 'd', 'e'] ++ rest) := hrest.symm
  refine Classical.byContradiction fun hnot => ?_
  have hread := h.read
  rw [hcs] at hread hnot
  rw [read_eq_of_bare (by decide) (by decide) (by simp) (by simp), if_neg hnot, if_neg (by simp),
    if_neg (by decide), if_neg (by decide)] at hread
  cases hsign : sign? ('#' :: 'i' :: (['n', 'c', 'l', 'u', 'd', 'e'] ++ rest)) with
  | none =>
    rw [hsign] at hread
    obtain rfl := Option.some.inj hread
    exact absurd hlong (by decide)
  | some sign =>
    rw [hsign] at hread
    obtain rfl := Option.some.inj hread
    have := (sign?_size hsign).2.2
    dsimp only [Option.getD_some] at hlong
    omega

/-! ## A lexeme before white space -/

theorem head?_append_stop {x : Char} (h : x ∈ (cs ++ sep :: rest).head?) :
    x ∈ cs.head? ∨ x = sep := by
  cases cs with
  | nil => exact .inr (Option.some.inj h).symm
  | cons c cs => exact .inl h

/-- What stands behind a character that is no digit and no point changes nothing of a number. -/
theorem decimal_append (hdigit : sep.isDigit = false) (hdot : sep ≠ '.') (cs rest : List Char) :
    decimal (cs ++ sep :: rest) = decimal cs := by
  have hrun := takeWhile_append_stop (p := Char.isDigit) hdigit cs rest
  have hend := dropWhile_append_stop (p := Char.isDigit) hdigit cs rest
  by_cases hfraction : ∃ tail, HasFraction cs tail
  · -- the fraction's digits end where they ended before
    obtain ⟨tail, htail, hne⟩ := hfraction
    have hrun' := takeWhile_append_stop (p := Char.isDigit) hdigit tail rest
    have hagain : HasFraction (cs ++ sep :: rest) (tail ++ sep :: rest) :=
      ⟨by rw [hend, htail, List.cons_append], hrun' ▸ hne⟩
    rw [decimal_of_fraction hagain, decimal_of_fraction ⟨htail, hne⟩, hrun, hrun']
  · -- a fraction of the longer text would be one of the shorter, since `sep` is no point
    have hagain : ∀ tail, ¬HasFraction (cs ++ sep :: rest) tail := by
      rintro tail ⟨htail, hne⟩
      rw [hend] at htail
      cases hcs : cs.dropWhile Char.isDigit with
      | nil =>
        rw [hcs] at htail
        exact hdot (List.cons.inj htail).1
      | cons c ds =>
        rw [hcs, List.cons_append] at htail
        obtain ⟨rfl, rfl⟩ := List.cons.inj htail
        rw [takeWhile_append_stop hdigit] at hne
        exact hfraction ⟨ds, hcs, hne⟩
    rw [decimal_of_no_fraction hagain, decimal_of_no_fraction (not_exists.mp hfraction), hrun]

section Blank

variable (hb : Text.isBlank sep = true)
include hb

/-- What stands behind a blank changes nothing of what opens a directive. -/
theorem isInclude_append (cs rest : List Char) :
    isInclude (cs ++ sep :: rest) = isInclude cs := by
  -- no blank stands in the directive's text, so it lies before `sep` or not at all
  have hall : includeText.toList.any Text.isBlank = false := by decide
  have hsep : sep ∉ includeText.toList := fun h => List.any_eq_false.mp hall sep h hb
  have hlen : includeText.toList.length = includeText.length := String.length_toList
  rw [isInclude, isInclude, isPrefixOf_append_stop hsep]
  cases hpre : includeText.toList.isPrefixOf cs with
  | false => rfl
  | true =>
    have hle := hlen ▸ (List.isPrefixOf_iff_prefix.mp hpre).length_le
    rw [List.drop_append_of_le_length hle]
    cases cs.drop includeText.length with
    | nil => simp [isWordChar_of_isBlank hb]
    | cons => rfl

theorem sign?_append (cs rest : List Char) : sign? (cs ++ sep :: rest) = sign? cs := by
  have hall : ∀ p ∈ signs, p.1.toList.any Text.isBlank = false := by decide
  have hsame : ∀ p ∈ signs, p.1.toList.isPrefixOf (cs ++ sep :: rest) = p.1.toList.isPrefixOf cs :=
    fun p hp => isPrefixOf_append_stop (fun h => List.any_eq_false.mp (hall p hp) sep h hb) cs rest
  rw [sign?, sign?]
  congr 1
  exact List.find?_congr hsame

/-- What stands behind a blank changes nothing of a bare character. -/
theorem Bare.append (h : Bare c cs) (rest : List Char) : Bare c (cs ++ sep :: rest) where
  quote := h.quote
  apostrophe := h.apostrophe
  digit := h.digit
  letter := h.letter
  comment hc x hx := by
    rcases head?_append_stop hx with hx | rfl
    · exact h.comment hc x hx
    · exact ⟨ne_of_isBlank hb (by decide), ne_of_isBlank hb (by decide)⟩
  symbol hc x hx := by
    rcases head?_append_stop hx with hx | rfl
    · exact h.symbol hc x hx
    · exact ne_of_isBlank hb (by decide)
  directive := by
    rw [← List.cons_append, isInclude_append hb, h.directive]

end Blank

/-- Whether the text starts with a block comment that is never closed. -/
def isUnclosed : List Char → Bool
  | '/' :: '*' :: '!' :: cs | '/' :: '*' :: cs => (Text.occurrence? ['*', '/'] cs).isNone
  | _ => false

/-- What starts with a block comment has no other lexeme. -/
theorem isUnclosed_of_read (h : read cs = some l) (hk : l.kind.isDelimited = false) :
    isUnclosed cs = false := by
  rw [Bool.eq_false_iff]
  intro hunclosed
  -- only block comments can be unclosed, and those are delimited
  unfold isUnclosed at hunclosed
  split at hunclosed
  · rename_i cs
    obtain rfl := (Starts.doc cs).unique (starts_of_read h)
    exact absurd hk (by simp [blockComment_kind, TokenKind.isDelimited])
  · rename_i cs hnot
    have hhead : cs.head? ≠ some '!' := fun hx => by
      obtain ⟨tail, rfl⟩ := List.head?_eq_some_iff.mp hx
      exact hnot tail rfl
    obtain rfl := (Starts.block cs hhead).unique (starts_of_read h)
    exact absurd hk (by simp [blockComment_kind, TokenKind.isDelimited])
  · exact absurd hunclosed (by simp)

theorem blockComment_append {kind : TokenKind} (opening : List Char)
    (h : (Text.occurrence? ['*', '/'] cs).isNone = false) (rest : List Char) :
    blockComment kind opening.length (opening ++ (cs ++ rest)) =
      blockComment kind opening.length (opening ++ cs) := by
  obtain ⟨n, hn⟩ := Option.isSome_iff_exists.mp (Option.isNone_eq_false_iff.mp h)
  rw [blockComment, blockComment, List.drop_left, List.drop_left, hn, Text.occurrence?_append hn]

/-- **A lexeme before white space** is the same as at the end of the text. One that ends with a
delimiter is ended by the end of the line as well, if it is no block comment. -/
theorem Starts.append (h : Starts cs l) (hb : Text.isBlank sep = true)
    (hends : sep = '\n' ∨ l.kind.isDelimited = false) (hclosed : isUnclosed cs = false)
    (rest : List Char) : Starts (cs ++ sep :: rest) l := by
  cases h with
  | line cs =>
    -- a line comment runs to the line's end, so `sep` has to be one
    obtain rfl := hends.resolve_right (by simp [TokenKind.isDelimited])
    have hstarts := Starts.line (cs ++ '\n' :: rest)
    rwa [takeWhile_append_stop (by decide)] at hstarts
  | doc cs =>
    -- a closed comment ends at its own mark
    have heq : blockComment .docComment 3 ('/' :: '*' :: '!' :: (cs ++ sep :: rest)) =
        blockComment .docComment 3 ('/' :: '*' :: '!' :: cs) :=
      blockComment_append ['/', '*', '!'] hclosed (sep :: rest)
    rw [← heq]
    exact .doc _
  | block cs hhead =>
    have hclosed : (Text.occurrence? ['*', '/'] cs).isNone = false := by
      rwa [isUnclosed] at hclosed
      rintro tail rfl
      exact hhead rfl
    have heq : blockComment .comment 2 ('/' :: '*' :: (cs ++ sep :: rest)) =
        blockComment .comment 2 ('/' :: '*' :: cs) :=
      blockComment_append ['/', '*'] hclosed (sep :: rest)
    rw [← heq]
    refine .block _ fun hx => ?_
    rcases head?_append_stop hx with hx | hx
    · exact hhead hx
    · exact ne_of_isBlank hb (by decide) hx.symm
  | string cs =>
    -- an unclosed literal ends at the line's end, and a closed one before it
    obtain rfl := hends.resolve_right (by simp [TokenKind.isDelimited, Lexeme.string])
    have hstarts := Starts.string (cs ++ '\n' :: rest)
    rwa [Lexeme.string, delimited_append] at hstarts
  | character cs =>
    obtain rfl := hends.resolve_right (by simp [TokenKind.isDelimited, Lexeme.character])
    have hstarts := Starts.character (cs ++ '\n' :: rest)
    rwa [Lexeme.character, delimited_append] at hstarts
  | symbol cs =>
    obtain rfl := hends.resolve_right (by simp [TokenKind.isDelimited, Lexeme.symbol])
    have hstarts := Starts.symbol (cs ++ '\n' :: rest)
    rwa [Lexeme.symbol, delimited_append] at hstarts
  | hexadecimal cs hx =>
    have hstarts := Starts.hexadecimal (cs ++ sep :: rest) hx
    rwa [Lexeme.hexadecimal, takeWhile_append_stop (isHexDigit_of_isBlank hb)] at hstarts
  | @decimal c cs hd hx =>
    rw [← decimal_append (isDigit_of_isBlank hb) (ne_of_isBlank hb (by decide)) (c :: cs) rest]
    refine .decimal _ hd fun hzero x hxs => ?_
    rcases head?_append_stop hxs with hxs | rfl
    · exact hx hzero x hxs
    · exact ⟨ne_of_isBlank hb (by decide), ne_of_isBlank hb (by decide)⟩
  -- directives, words and signs stop at a blank
  | directive cs hinclude => exact .directive _ (by rw [isInclude_append hb, hinclude])
  | @word c cs hw =>
    have hstarts := Starts.word (cs ++ sep :: rest) hw
    rwa [Lexeme.word, ← List.cons_append, takeWhile_append_stop (isWordChar_of_isBlank hb)]
      at hstarts
  | @sign c cs _ hbare hs =>
    exact .sign (hbare.append hb rest) ((sign?_append hb (c :: cs) rest).trans hs)
  | @stray c cs hbare hs =>
    exact .stray (hbare.append hb rest) ((sign?_append hb (c :: cs) rest).trans hs)

end Lexeme

end MudEdit
