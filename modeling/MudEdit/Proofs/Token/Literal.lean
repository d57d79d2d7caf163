import Mathlib.Algebra.Group.Nat.Even
import Mathlib.Data.Nat.Digits.Defs
import MudEdit.Proofs.Token.Restart
import MudEdit.Proofs.Token.Spelled

/-!
# Literals

Where a literal ends and what it carries, said without the reading of it.

A string, a character or a symbol ends with the first delimiter on its line that has an even
number of backslashes before it. The lexer does not count them: it takes each backslash together
with the character behind it. That this comes to the same is a matter of parity, as such a pair
leaves the number of backslashes that the content ends with even or odd, whichever it was.

A number takes all digits that stand together, and a point if there are digits on both sides of
it. An integer carries what its digits spell, however many there are, as long as 63 bits are
enough for that, and zero otherwise.
-/

namespace MudEdit

open Text (byteSize isBlank)

namespace Literal

variable {c d : Char} {cs content closing after digits : List Char} {base : Nat}

/-! ## Between delimiters -/

/-- How many backslashes the characters end with. -/
def backslashes (cs : List Char) : Nat := (cs.reverse.takeWhile (· == '\\')).length

/-- The characters that mean another one behind a backslash. -/
def escapes : List (Char × Char) :=
  [('n', '\n'), ('r', '\r'), ('t', '\t'), ('0', '\x00'), ('e', '\x1b')]

/-- What the content of a literal stands for: from the left, each backslash makes an escape of the
character behind it. One that has none behind it stands for itself. -/
def decoded : List Char → List Char
  | '\\' :: c :: cs => (escapes.lookup c).getD c :: decoded cs
  | c :: cs => c :: decoded cs
  | [] => []

/-- Where a literal ends: with the first delimiter on the line that has an even number of
backslashes before it, or right before the end of the line if there is none. -/
structure Ended (d : Char) (content closing after : List Char) : Prop where
  line : '\n' ∉ content
  first : ∀ before rest, content = before ++ d :: rest → ¬Even (backslashes before)
  closed : closing = [d] ∧ Even (backslashes content) ∨
    closing = [] ∧ ∀ c ∈ after.head?, c = '\n'

theorem backslashes_cons (hc : c ≠ '\\') (cs : List Char) :
    backslashes (c :: cs) = backslashes cs := by
  rw [backslashes, List.reverse_cons, List.takeWhile_append]
  split
  · rename_i hall
    rw [List.takeWhile_cons_of_neg (by simpa using hc), List.append_nil]
    exact hall.symm
  · rfl

/-- A backslash and the character behind it do not change the parity. -/
theorem even_backslashes_pair (c : Char) (cs : List Char) :
    Even (backslashes ('\\' :: c :: cs)) ↔ Even (backslashes cs) := by
  have hsplit : ('\\' :: c :: cs).reverse = cs.reverse ++ [c, '\\'] := by simp
  rw [backslashes, hsplit, List.takeWhile_append]
  split
  · rename_i hall
    -- the pair counts for two if the character is a backslash too, and for nothing otherwise
    by_cases hc : c = '\\'
    · subst hc
      simp [backslashes, hall, Nat.even_add]
    · rw [List.takeWhile_cons_of_neg (by simpa using hc), List.append_nil]
      simp [backslashes, hall]
  · rfl

/-- An escaped character denotes what the table gives, or itself. -/
theorem unescape_eq (c : Char) : Lexeme.unescape c = (escapes.lookup c).getD c := by
  unfold Lexeme.unescape
  split
  · rfl
  · rfl
  · rfl
  · rfl
  · rfl
  · rename_i hn hr ht h0 he
    have hnone : escapes.lookup c = none := by
      rw [List.lookup_eq_none_iff]
      simpa [escapes] using ⟨hn, hr, ht, h0, he⟩
    rw [hnone]
    rfl

theorem decoded_cons (hc : c ≠ '\\') (cs : List Char) : decoded (c :: cs) = c :: decoded cs := by
  rw [decoded]
  rintro _ _ rfl
  exact absurd rfl hc

namespace Ended

/-- There is no delimiter on the line. -/
theorem unclosed (hd : d ∉ content) (hline : '\n' ∉ content)
    (hafter : ∀ c ∈ after.head?, c = '\n') : Ended d content [] after where
  line := hline
  first before _ heq := absurd (heq ▸ List.mem_append_right before List.mem_cons_self) hd
  closed := .inr ⟨rfl, hafter⟩

/-- A pair before the content: the character in it is no delimiter that counts. -/
theorem escape (hd : d ≠ '\\') (hc : c ≠ '\n') (h : Ended d content closing after) :
    Ended d ('\\' :: c :: content) closing after where
  line hmem := by
    simp only [List.mem_cons, hc.symm, false_or] at hmem
    exact hmem.elim (by decide) h.line
  first := by
    intro before rest heq
    -- the pair of backslash and character is passed at once and keeps the parity
    match before with
    | [] => exact absurd (List.cons.inj heq).1.symm hd
    | [x] =>
      obtain ⟨rfl, -⟩ := List.cons.inj heq
      decide
    | x :: y :: before =>
      simp only [List.cons_append, List.cons.injEq] at heq
      obtain ⟨rfl, rfl, rfl⟩ := heq
      rw [even_backslashes_pair]
      exact h.first before rest rfl
  closed := by
    rw [even_backslashes_pair]
    exact h.closed

/-- Any other character before the content. -/
theorem cons (hd : c ≠ d) (hc : c ≠ '\n') (hc' : c ≠ '\\') (h : Ended d content closing after) :
    Ended d (c :: content) closing after where
  line hmem := (List.mem_cons.mp hmem).elim (fun heq => hc heq.symm) h.line
  first := by
    intro before rest heq
    cases before with
    | nil => exact absurd (List.cons.inj heq).1 hd
    | cons x before =>
      simp only [List.cons_append, List.cons.injEq] at heq
      obtain ⟨rfl, rfl⟩ := heq
      -- a character that is no backslash changes no parity
      rw [backslashes_cons hc']
      exact h.first before rest rfl
  closed := by
    rw [backslashes_cons hc']
    exact h.closed

end Ended

/-- **Read in pairs, ended by parity.** The cases are those of the reading; each puts a character,
or a backslash and a character, before what was read. -/
theorem delimited_spec (hd : d ≠ '\\') (cs : List Char) :
    ∃ content closing after, cs = content ++ (closing ++ after) ∧ Ended d content closing after ∧
      Lexeme.delimited d cs = (decoded content, content.length + closing.length) := by
  fun_induction Lexeme.delimited d cs with
  | case1 => exact ⟨[], [], [], rfl, .unclosed (by simp) (by simp) (by simp), rfl⟩
  | case2 cs => exact ⟨[], [], '\n' :: cs, rfl, .unclosed (by simp) (by simp) (by simp), rfl⟩
  | case3 => exact ⟨['\\'], [], [], rfl, .unclosed (by simpa using hd) (by simp) (by simp), rfl⟩
  | case4 cs =>
    exact ⟨['\\'], [], '\n' :: cs, rfl, .unclosed (by simpa using hd) (by simp) (by simp), rfl⟩
  -- an escape takes both characters, whatever the second is
  | case5 c cs hc content n heq ih =>
    obtain ⟨raw, closing, after, rfl, hended, hread⟩ := ih
    obtain ⟨rfl, rfl⟩ := Prod.mk.inj (heq.symm.trans hread)
    refine ⟨'\\' :: c :: raw, closing, after, rfl, hended.escape hd hc, ?_⟩
    rw [decoded, unescape_eq, List.length_cons, List.length_cons]
    congr 1
    omega
  | case6 cs => exact ⟨[], [d], cs, rfl, ⟨by simp, by simp, .inl ⟨rfl, by decide⟩⟩, rfl⟩
  | case7 c cs hc hc' hcd content n heq ih =>
    obtain ⟨raw, closing, after, rfl, hended, hread⟩ := ih
    obtain ⟨rfl, rfl⟩ := Prod.mk.inj (heq.symm.trans hread)
    refine ⟨c :: raw, closing, after, rfl, hended.cons hcd hc hc', ?_⟩
    rw [decoded_cons hc', List.length_cons]
    congr 1
    omega

/-! ## Digits -/

/-- The value of a digit of any base up to sixteen, and sixteen for other characters. -/
def digitValue (c : Char) : Nat :=
  min ("0123456789abcdef".toList.idxOf c) ("0123456789ABCDEF".toList.idxOf c)

/-- The number that digits spell in a base. -/
def numeral (base : Nat) (digits : List Char) : Nat :=
  Nat.ofDigits base (digits.reverse.map digitValue)

/-- Digits of a base that stand together, and what is behind the last of them. -/
structure DigitRun (base : Nat) (digits after : List Char) : Prop where
  digits : ∀ c ∈ digits, digitValue c < base
  ends : ∀ c ∈ after.head?, base ≤ digitValue c

theorem digitValue_of_other (h : 128 ≤ c.toNat) : digitValue c = 16 := by
  have hnot {digits : List Char} (hlength : digits.length = 16)
      (hall : (digits.all fun x => x.toNat < 128) = true) : digits.idxOf c = 16 := by
    rw [← hlength, List.idxOf_eq_length_iff]
    intro hc
    have := of_decide_eq_true (List.all_eq_true.mp hall c hc)
    omega
  rw [digitValue, hnot rfl (by decide), hnot rfl (by decide), Nat.min_self]

/-- The lexer takes as digits what has the value of one, and counts them for it. -/
theorem digitValue_spec (c : Char) :
    (digitValue c < 10 ↔ c.isDigit = true) ∧ (digitValue c < 16 ↔ Lexeme.isHexDigit c = true) ∧
      (c.isDigit = true → c.toNat - '0'.toNat = digitValue c) ∧
      (Lexeme.isHexDigit c = true → Lexeme.hexDigit c = digitValue c) := by
  -- no character beyond the first 128 is a digit; those are looked through
  rcases Nat.lt_or_ge c.toNat 128 with h | h
  · have hfirst : ∀ n < 128, let c := Char.ofNat n
        (digitValue c < 10 ↔ c.isDigit = true) ∧ (digitValue c < 16 ↔ Lexeme.isHexDigit c = true) ∧
        (c.isDigit = true → c.toNat - '0'.toNat = digitValue c) ∧
        (Lexeme.isHexDigit c = true → Lexeme.hexDigit c = digitValue c) := by decide +kernel
    have hc := hfirst c.toNat h
    rwa [Char.ofNat_toNat] at hc
  · have hhex : Lexeme.isHexDigit c = false := by
      rw [Bool.eq_false_iff]
      intro hc
      have hfirst := toNat_of_isHexDigit hc
      omega
    have hdigit : c.isDigit = false := by
      rw [Lexeme.isHexDigit, Bool.or_eq_false_iff, Bool.or_eq_false_iff] at hhex
      exact hhex.1.1
    simp [digitValue_of_other h, hdigit, hhex]

theorem isDigit_iff (c : Char) : digitValue c < 10 ↔ c.isDigit = true := (digitValue_spec c).1

theorem isHexDigit_iff (c : Char) : digitValue c < 16 ↔ Lexeme.isHexDigit c = true :=
  (digitValue_spec c).2.1

theorem isDigit_eq_false_iff (c : Char) : c.isDigit = false ↔ 10 ≤ digitValue c := by
  rw [Bool.eq_false_iff, Ne, ← isDigit_iff, Nat.not_lt]

theorem ne_x_of_digit (h : digitValue c < 10) : c ≠ 'x' ∧ c ≠ 'X' := by
  constructor
  · rintro rfl
    exact absurd h (by decide)
  · rintro rfl
    exact absurd h (by decide)

/-- Counting digit by digit from the left. -/
theorem numeral_eq_foldl {f : Char → Nat} (base : Nat) (hf : ∀ c ∈ digits, f c = digitValue c) :
    digits.foldl (fun n c => n * base + f c) 0 = numeral base digits := by
  rw [numeral, Nat.ofDigits_eq_foldr, List.foldr_map, List.foldr_reverse]
  refine List.foldl_ext _ _ _ fun n c hc => ?_
  rw [hf c hc, Nat.mul_comm, Nat.add_comm]
  rfl

section Run

variable {p : Char → Bool} (hp : ∀ c, digitValue c < base ↔ p c = true)
include hp

theorem DigitRun.span (h : DigitRun base digits after) :
    (digits ++ after).takeWhile p = digits ∧ (digits ++ after).dropWhile p = after := by
  refine run_append (fun c hc => (hp c).mp (h.digits c hc)) fun c hc => ?_
  rw [Bool.eq_false_iff, Ne, ← hp]
  exact Nat.not_lt.mpr (h.ends c hc)

theorem digitRun_span (cs : List Char) : DigitRun base (cs.takeWhile p) (cs.dropWhile p) where
  digits c hc := (hp c).mpr (List.mem_takeWhile_imp hc)
  ends c hc := by
    rw [← Nat.not_lt, hp, head?_dropWhile hc]
    decide

end Run

/-! ## What a literal is -/

/-- What an integer carries of its value. -/
def bounded (n : Nat) : Nat := if n ≤ 2 ^ 63 - 1 then n else 0

/-- The characters are an integer of that value, and what is behind them makes it no longer and
nothing else. -/
inductive Integer : (word after : List Char) → Nat → Prop
  | hexadecimal {x : Char} {digits after : List Char} : x = 'x' ∨ x = 'X' →
      DigitRun 16 digits after → Integer ('0' :: x :: digits) after (numeral 16 digits)
  | decimal {digits after : List Char} : digits ≠ [] → DigitRun 10 digits after →
      (∀ c rest, after = '.' :: c :: rest → 10 ≤ digitValue c) →
      (digits = ['0'] → ∀ x ∈ after.head?, x ≠ 'x' ∧ x ≠ 'X') →
      Integer digits after (numeral 10 digits)

/-- All digits on either side of a point. -/
structure Fraction (whole fraction after : List Char) : Prop where
  whole_ne : whole ≠ []
  whole_run : DigitRun 10 whole ('.' :: (fraction ++ after))
  fraction_ne : fraction ≠ []
  fraction_run : DigitRun 10 fraction after

end Literal

namespace TokenKind

variable {kind : TokenKind} {lead : List Char} {d : Char}

/-- What opens a literal of the kind: the delimiter, and what is before it. -/
def opening? : TokenKind → Option (List Char × Char)
  | string => some ([], '\x22')
  | character => some ([], '\x27')
  | symbol => some (['#'], '\x27')
  | _ => none

/-- What a literal of the kind carries of its content: all of it, or the first character. -/
def holding (content : List Char) : TokenKind → Payload
  | character => .char (content.head?.getD '\x00')
  | _ => .text (String.ofList content)

theorem of_opening (h : kind.opening? = some (lead, d)) : d ≠ '\\' ∧ d.isDigit = false := by
  cases kind <;> cases h <;> decide

theorem content_of_opening (h : kind.opening? = some (lead, d)) :
    kind.isContent = true ∧ kind ≠ .identifier ∧ kind.isComment = false := by
  cases kind <;> cases h <;> decide

theorem head_of_opening (h : kind.opening? = some (lead, d)) (cs : List Char) :
    ∀ c ∈ (lead ++ d :: cs).head?, isBlank c = false := by
  cases kind <;> cases h <;> simp <;> decide

end TokenKind

namespace Literal

/-- The characters are a literal of the kind that carries this, up to what is behind them. -/
inductive Spells : (word after : List Char) → TokenKind → Payload → Prop
  | delimited {kind : TokenKind} {lead content closing after : List Char} {d : Char} :
      kind.opening? = some (lead, d) → Ended d content closing after →
      Spells (lead ++ d :: (content ++ closing)) after kind (kind.holding (decoded content))
  | integer {word after : List Char} {n : Nat} : Integer word after n →
      Spells word after .int (.int (bounded n))
  | fraction {whole fraction after : List Char} : Fraction whole fraction after →
      Spells (whole ++ '.' :: fraction) after .float
        (.float (Number.Binary64.ofDigits whole fraction))

/-- The digits on either side of a cut do not stand together. -/
def DigitsApart (before after : List Char) : Prop :=
  (∀ c ∈ before.getLast?, c.isDigit = false) ∨ ∀ c ∈ after.head?, c.isDigit = false

variable {word after before lead : List Char} {kind : TokenKind} {p : Payload} {d : Char}

namespace Spells

theorem of_opening (h : Spells word after kind p) (hk : kind.opening? = some (lead, d)) :
    ∃ content closing, word = lead ++ d :: (content ++ closing) ∧ Ended d content closing after ∧
      p = kind.holding (decoded content) := by
  cases h with
  | delimited hk' hended =>
    obtain ⟨rfl, rfl⟩ := Prod.mk.inj (Option.some.inj (hk.symm.trans hk'))
    exact ⟨_, _, rfl, hended, rfl⟩
  | integer => cases hk
  | fraction => cases hk

theorem of_int (h : Spells word after .int p) :
    ∃ n, Integer word after n ∧ p = .int (bounded n) := by
  cases h with
  | delimited hk => cases hk
  | integer hint => exact ⟨_, hint, rfl⟩

theorem of_float (h : Spells word after .float p) :
    ∃ whole fraction, word = whole ++ '.' :: fraction ∧ Fraction whole fraction after ∧
      p = .float (Number.Binary64.ofDigits whole fraction) := by
  cases h with
  | delimited hk => cases hk
  | fraction hfraction => exact ⟨_, _, rfl, hfraction, rfl⟩

end Spells

theorem isBlank_of_isDigit {c : Char} {cs : List Char} (hc : c.isDigit = true) :
    ∀ x ∈ (c :: cs).head?, isBlank x = false := by
  rintro x hx
  obtain rfl := Option.some.inj hx
  exact isBlank_of_isWordChar (by simp [isWordChar, hc])

theorem Integer.head {n : Nat} (h : Integer word after n) :
    ∃ c digits, word = c :: digits ∧ c.isDigit = true := by
  cases h with
  | hexadecimal => exact ⟨_, _, rfl, rfl⟩
  | decimal hne hrun =>
    obtain ⟨c, digits, rfl⟩ := List.exists_cons_of_ne_nil hne
    exact ⟨c, digits, rfl, (isDigit_iff c).mp (hrun.digits c List.mem_cons_self)⟩

theorem Fraction.head {whole fraction : List Char} (h : Fraction whole fraction after) :
    ∃ c digits, whole = c :: digits ∧ c.isDigit = true := by
  obtain ⟨c, digits, rfl⟩ := List.exists_cons_of_ne_nil h.whole_ne
  exact ⟨c, digits, rfl, (isDigit_iff c).mp (h.whole_run.digits c List.mem_cons_self)⟩

/-- A literal is not cut among digits: a number takes all of them. -/
theorem Spells.apart (h : Spells word after kind p) : DigitsApart word after := by
  -- a run of digits ends before a character that is none
  have hrun {digits : List Char} {base : Nat} (hbase : 10 ≤ base)
      (h : DigitRun base digits after) : DigitsApart word after :=
    .inr fun c hc => (isDigit_eq_false_iff c).mpr (Nat.le_trans hbase (h.ends c hc))
  cases h with
  | @delimited kind lead content closing after d hk hended =>
    rcases hended.closed with ⟨rfl, -⟩ | ⟨rfl, hline⟩
    · refine .inl fun c hc => ?_
      rw [← List.cons_append, ← List.append_assoc, List.getLast?_concat] at hc
      exact Option.some.inj hc ▸ (TokenKind.of_opening hk).2
    · refine .inr fun c hc => ?_
      rw [hline c hc]
      decide
  | integer hint =>
    cases hint with
    | hexadecimal _ hdigits => exact hrun (by decide) hdigits
    | decimal _ hdigits => exact hrun (Nat.le_refl _) hdigits
  | fraction hfraction => exact hrun (Nat.le_refl _) hfraction.fraction_run

/-- More before a cut does not matter if there is something already. -/
theorem DigitsApart.prepend (h : DigitsApart before after) (hne : before ≠ []) (more : List Char) :
    DigitsApart (more ++ before) after := by
  rw [DigitsApart, List.getLast?_append_of_ne_nil more hne]
  exact h

/-- No digit is right before what starts with a digit. -/
theorem DigitsApart.last {c : Char} {cs : List Char} (h : DigitsApart before (c :: cs))
    (hc : c.isDigit = true) : ∀ x ∈ before.getLast?, 10 ≤ digitValue x := by
  rcases h with h | h
  · exact fun x hx => (isDigit_eq_false_iff x).mp (h x hx)
  · exact absurd (h c rfl) (by simp [hc])

end Literal

/-! ## Lexemes that are literals -/

namespace Lexeme

open Literal

variable {c d : Char} {cs after word lead : List Char} {l : Lexeme} {kind : TokenKind}

theorem int_eq (value size : Nat) : int value size = ⟨.int, some (.int (bounded value)), size⟩ := by
  have hbound : value < Nat.pow 2 63 ↔ value ≤ 2 ^ 63 - 1 := by
    rw [show Nat.pow 2 63 = 2 ^ 63 from rfl]
    omega
  simp only [int, bounded, hbound]

/-- What is read after an opening. -/
theorem starts_opened (hk : kind.opening? = some (lead, d)) (rest : List Char) :
    ∃ content closing after,
      lead ++ d :: rest = (lead ++ d :: (content ++ closing)) ++ after ∧
      Ended d content closing after ∧
      Starts (lead ++ d :: rest) ⟨kind, some (kind.holding (decoded content)),
        (lead ++ d :: (content ++ closing)).length⟩ := by
  obtain ⟨content, closing, after, rfl, hended, hread⟩ :=
    delimited_spec (TokenKind.of_opening hk).1 rest
  refine ⟨content, closing, after, by simp, hended, ?_⟩
  cases kind <;> cases hk
  · have h := Starts.string (content ++ (closing ++ after))
    rw [string, hread] at h
    simpa [TokenKind.holding] using h
  · have h := Starts.character (content ++ (closing ++ after))
    rw [character, hread] at h
    simpa [TokenKind.holding] using h
  · have h := Starts.symbol (content ++ (closing ++ after))
    rw [symbol, hread] at h
    simpa [TokenKind.holding, Nat.add_assoc] using h

theorem starts_integer {n : Nat} (h : Integer word after n) :
    Starts (word ++ after) ⟨.int, some (.int (bounded n)), word.length⟩ := by
  cases h with
  | @hexadecimal x digits after hx hrun =>
    have hstarts := Starts.hexadecimal (digits ++ after) hx
    have hvalue := numeral_eq_foldl 16 fun c hc =>
      (digitValue_spec c).2.2.2 ((isHexDigit_iff c).mp (hrun.digits c hc))
    rwa [Lexeme.hexadecimal, (hrun.span isHexDigit_iff).1, hexValue, hvalue, int_eq] at hstarts
  | decimal hne hrun hdot hx =>
    obtain ⟨hspan, hrest⟩ := hrun.span isDigit_iff
    -- no digit is behind a point, so the lexer takes no fraction
    have hnone : ∀ rest, ¬HasFraction (word ++ after) rest := by
      rintro rest ⟨hdrop, hfraction⟩
      cases rest with
      | nil => exact hfraction rfl
      | cons d rest =>
        have hd := hdot d rest (hrest.symm.trans hdrop)
        rw [← Nat.not_lt, isDigit_iff] at hd
        exact hfraction (List.takeWhile_cons_of_neg hd)
    have hvalue := numeral_eq_foldl 10 fun c hc =>
      (digitValue_spec c).2.2.1 ((isDigit_iff c).mp (hrun.digits c hc))
    obtain ⟨c, digits, rfl⟩ := List.exists_cons_of_ne_nil hne
    have hc := (isDigit_iff c).mp (hrun.digits c List.mem_cons_self)
    have hstarts := Starts.decimal (digits ++ after) hc fun hzero x hxs => ?_
    · rwa [← List.cons_append, decimal_of_no_fraction hnone, hspan, decimalValue, hvalue, int_eq]
        at hstarts
    · -- behind a zero alone there is no `x`, and behind another digit it is a digit
      cases digits with
      | nil => exact hx (hzero ▸ rfl) x hxs
      | cons d digits =>
        obtain rfl := Option.some.inj hxs
        exact ne_x_of_digit (hrun.digits d (by simp))

/-- Digits, a point and digits are read as one number with a fraction. -/
theorem starts_fraction {whole fraction : List Char} (h : Fraction whole fraction after) :
    Starts ((whole ++ '.' :: fraction) ++ after) ⟨.float,
      some (.float (Number.Binary64.ofDigits whole fraction)),
      (whole ++ '.' :: fraction).length⟩ := by
  rw [List.append_assoc, List.cons_append]
  obtain ⟨hspan, hrest⟩ := h.whole_run.span isDigit_iff
  have hfraction := (h.fraction_run.span isDigit_iff).1
  -- the point has a digit behind it, so it is the number's own
  have hsome : HasFraction (whole ++ '.' :: (fraction ++ after)) (fraction ++ after) :=
    ⟨hrest, hfraction.symm ▸ h.fraction_ne⟩
  have hsize : (whole ++ '.' :: fraction).length = whole.length + 1 + fraction.length := by
    rw [List.length_append, List.length_cons]
    omega
  obtain ⟨c, digits, rfl, hc⟩ := h.head
  have hstarts := Starts.decimal (digits ++ '.' :: (fraction ++ after)) hc fun _ x hxs => ?_
  · rwa [← List.cons_append, decimal_of_fraction hsome, hspan, hfraction, ← hsize] at hstarts
  · cases digits with
    | nil =>
      obtain rfl := Option.some.inj hxs
      decide
    | cons d digits =>
      obtain rfl := Option.some.inj hxs
      exact ne_x_of_digit (h.whole_run.digits d (by simp))

/-- What starts with a digit starts with an integer, or with digits around a point. -/
theorem digit_cases (hc : c.isDigit = true) (rest : List Char) :
    (∃ word after n, c :: rest = word ++ after ∧ Integer word after n) ∨
      ∃ whole fraction after, c :: rest = (whole ++ '.' :: fraction) ++ after ∧
        Fraction whole fraction after := by
  have hne {d : Char} (hd : d.isDigit = true) (cs : List Char) :
      (d :: cs).takeWhile Char.isDigit ≠ [] := by
    rw [List.takeWhile_cons_of_pos hd]
    simp
  have hrun := digitRun_span isDigit_iff (c :: rest)
  have hsplit := (List.takeWhile_append_dropWhile (p := Char.isDigit) (l := c :: rest)).symm
  -- as the lexer tries: first `0x`, then a point with digits behind it
  by_cases hhex : c = '0' ∧ ∃ x ∈ rest.head?, x = 'x' ∨ x = 'X'
  · obtain ⟨rfl, x, hx, hxX⟩ := hhex
    obtain ⟨tail, rfl⟩ := List.head?_eq_some_iff.mp hx
    refine .inl ⟨_, _, _, ?_, .hexadecimal hxX (digitRun_span isHexDigit_iff tail)⟩
    rw [List.cons_append, List.cons_append, List.takeWhile_append_dropWhile]
  · by_cases hfraction : ∃ tail, HasFraction (c :: rest) tail
    · obtain ⟨tail, hdrop, hsome⟩ := hfraction
      have htail := (List.takeWhile_append_dropWhile (p := Char.isDigit) (l := tail)).symm
      rw [hdrop, htail] at hrun hsplit
      rw [← List.cons_append, ← List.append_assoc] at hsplit
      exact .inr ⟨_, _, _, hsplit, hne hc rest, hrun, hsome, digitRun_span isDigit_iff tail⟩
    · refine .inl ⟨_, _, _, hsplit, .decimal (hne hc rest) hrun (fun d tail hdrop => ?_)
        fun hzero x hx => ?_⟩
      · rw [← isDigit_eq_false_iff, Bool.eq_false_iff]
        exact fun hd => hfraction ⟨d :: tail, hdrop, hne hd tail⟩
      · rw [List.takeWhile_cons_of_pos hc] at hzero
        obtain ⟨rfl, hnil⟩ := List.cons.inj hzero
        rw [List.dropWhile_cons_of_pos hc, ← drop_length_takeWhile, hnil] at hx
        exact not_or.mp fun hxX => hhex ⟨rfl, x, hx, hxX⟩

/-- What carries something of its text is opened by a delimiter, or it starts with a digit, or it
is a name. -/
theorem Starts.of_content (h : Starts cs l) (hk : l.kind.isContent = true) :
    (∃ lead d rest, l.kind.opening? = some (lead, d) ∧ cs = lead ++ d :: rest) ∨
      (∃ c rest, c.isDigit = true ∧ cs = c :: rest) ∨ l.kind = .identifier := by
  cases h with
  | line => cases hk
  | doc | block =>
    rw [blockComment_kind] at hk
    cases hk
  | string cs => exact .inl ⟨[], '\x22', cs, rfl, rfl⟩
  | character cs => exact .inl ⟨[], '\x27', cs, rfl, rfl⟩
  | symbol cs => exact .inl ⟨['#'], '\x27', cs, rfl, rfl⟩
  | hexadecimal cs hx => exact .inr (.inl ⟨'0', _, rfl, rfl⟩)
  | decimal cs hc => exact .inr (.inl ⟨_, cs, hc, rfl⟩)
  | directive => cases hk
  -- a word that is reserved carries no content, so it is an identifier
  | @word c cs hc =>
    refine .inr (.inr ?_)
    unfold Lexeme.word at hk ⊢
    dsimp only at hk ⊢
    split at hk
    · rename_i kind hkind
      rw [(reservedWord?_bare hkind).2.1] at hk
      cases hk
    · rfl
  | sign _ hs =>
    obtain ⟨p, -, rfl⟩ := Option.map_eq_some_iff.mp hs
    cases hk
  | stray => exact .inr (.inr rfl)

/-- **A lexeme that carries something and is no name is a literal**, as its kind says. -/
theorem Starts.spells (h : Starts cs l) (hk : l.kind.isContent = true)
    (hname : l.kind ≠ .identifier) : ∃ word after p, cs = word ++ after ∧ l.size = word.length ∧
      l.payload = some p ∧ Spells word after l.kind p := by
  rcases h.of_content hk with ⟨lead, d, rest, hopening, rfl⟩ | ⟨c, rest, hc, rfl⟩ | hid
  · obtain ⟨content, closing, after, hsplit, hended, hstarts⟩ := starts_opened hopening rest
    rw [h.unique hstarts]
    exact ⟨_, after, _, hsplit, rfl, rfl, .delimited hopening hended⟩
  · rcases digit_cases hc rest with
      ⟨word, after, n, hsplit, hint⟩ | ⟨whole, fraction, after, hsplit, hfraction⟩
    · rw [hsplit] at h
      rw [h.unique (starts_integer hint)]
      exact ⟨word, after, _, hsplit, rfl, rfl, .integer hint⟩
    · rw [hsplit] at h
      rw [h.unique (starts_fraction hfraction)]
      exact ⟨_, after, _, hsplit, rfl, rfl, .fraction hfraction⟩
  · exact absurd hid hname

/-- A block comment ends in its mark, or where the text does. -/
theorem apart_of_comment {opening : Nat} (kind : TokenKind) (hopening : opening ≤ cs.length) :
    DigitsApart (cs.take (blockComment kind opening cs).size)
      (cs.drop (blockComment kind opening cs).size) := by
  rw [blockComment]
  cases hclose : Text.occurrence? ['*', '/'] (cs.drop opening) with
  | none => exact .inr (by simp)
  | some n =>
    obtain ⟨before, after, hsplit, rfl, -⟩ := Text.of_occurrence? hclose
    -- closed: the last character is the slash, which no digit is
    let comment := cs.take opening ++ before ++ ['*']
    have hcs : cs = (comment ++ ['/']) ++ after := by
      rw [← List.take_append_drop opening cs, hsplit]
      simp [comment]
    have hsize : opening + before.length + 2 = (comment ++ ['/']).length := by
      simp [comment, Nat.min_eq_left hopening, Nat.add_assoc]
    dsimp only
    rw [hsize, hcs, List.take_left]
    refine .inl fun c hc => ?_
    rw [List.getLast?_concat] at hc
    obtain rfl := Option.some.inj hc
    decide

theorem apart_of_last (h : word.getLast?.all (!·.isDigit) = true) (after : List Char) :
    DigitsApart word after :=
  .inl fun c hc => by simpa using (Option.all_eq_true _ _).mp h c hc

/-- **Digits that stand together are in one lexeme.** -/
theorem Starts.digits_apart (h : Starts cs l) : DigitsApart (cs.take l.size) (cs.drop l.size) := by
  have hsigns : (signs.all fun p => p.1.toList.getLast?.all (!·.isDigit)) = true := by
    decide +kernel
  -- what carries its content is spelled in a way that settles it
  have hliteral (hk : l.kind.isContent = true) (hname : l.kind ≠ .identifier) :
      DigitsApart (cs.take l.size) (cs.drop l.size) := by
    obtain ⟨word, after, p, rfl, hsize, -, hspells⟩ := h.spells hk hname
    rw [hsize, List.take_left, List.drop_left]
    exact hspells.apart
  cases h with
  | line cs =>
    refine .inr fun c hc => ?_
    rw [List.drop_succ_cons, List.drop_succ_cons, drop_length_takeWhile] at hc
    obtain rfl : c = '\n' := by simpa using head?_dropWhile hc
    decide
  | doc cs => exact apart_of_comment _ (by simp)
  | block cs => exact apart_of_comment _ (by simp)
  | string => exact hliteral rfl nofun
  | character => exact hliteral rfl nofun
  | symbol => exact hliteral rfl nofun
  | hexadecimal => exact hliteral rfl nofun
  | decimal cs =>
    rcases decimal_kind (_ :: cs) with hk | hk
    · exact hliteral (by rw [hk]; rfl) (by rw [hk]; nofun)
    · exact hliteral (by rw [hk]; rfl) (by rw [hk]; nofun)
  | directive cs hinclude =>
    obtain ⟨rest, rfl⟩ := List.isPrefixOf_iff_prefix.mp (Bool.and_eq_true_iff.mp hinclude).1
    have hlen : includeText.toList.length = includeText.length := String.length_toList
    rw [← hlen, List.take_left]
    exact apart_of_last (by decide) _
  | word =>
    refine .inr fun c hc => ?_
    rw [word_size, drop_length_takeWhile] at hc
    have hword := head?_dropWhile hc
    rw [isWordChar, Bool.or_eq_false_iff] at hword
    exact hword.2
  | sign _ hs =>
    obtain ⟨⟨text, s⟩, hp, rfl⟩ := Option.map_eq_some_iff.mp hs
    obtain ⟨rest, hrest⟩ := List.isPrefixOf_iff_prefix.mp (List.find?_eq_some_iff_append.mp hp).1
    have hlen : text.toList.length = text.length := String.length_toList
    dsimp only at hrest ⊢
    rw [← hrest, ← hlen, List.take_left]
    exact apart_of_last (List.all_eq_true.mp hsigns _ (List.mem_of_find?_eq_some hp)) _
  | stray hbare =>
    refine .inl fun c hc => ?_
    obtain rfl := Option.some.inj hc
    exact hbare.digit

end Lexeme

/-! ## Tokens that are literals -/

section Tokens

open Literal
open Lexeme (Starts)

variable {mode : Mode} {text : String} {t : Token} {ts us : List Token} {cs before word after :
  List Char} {at_ n : Nat}

/-- A token is the lexeme at its place, which no digit right before it belongs to. -/
theorem Scanned.lexeme_at (h : Scanned at_ cs (us ++ t :: ts)) : ∃ before word after l,
    cs = before ++ (word ++ after) ∧ t = .ofLexeme (at_ + byteSize before) word l ∧
      Starts (word ++ after) l ∧ l.size = word.length ∧ DigitsApart before (word ++ after) := by
  induction us generalizing at_ cs with
  | nil =>
    cases h with
    | @token _ blanks word rest l ts hb hw hl hs h =>
      refine ⟨blanks, word, rest, l, rfl, rfl, Lexeme.starts_of_read hl, hs, .inl fun c hc => ?_⟩
      exact isDigit_of_isBlank (hb c (List.mem_of_getLast? hc))
  | cons u us ih =>
    cases h with
    | @token _ blanks first rest l' ts hb hw hl hs h =>
      obtain ⟨before, word, after, l, rfl, rfl, hstarts, hsize, hapart⟩ := ih h
      have hat : at_ + byteSize blanks + byteSize first + byteSize before =
          at_ + byteSize (blanks ++ (first ++ before)) := by
        simp only [Text.byteSize_append]
        omega
      refine ⟨blanks ++ (first ++ before), word, after, l, by simp, by rw [hat], hstarts, hsize, ?_⟩
      cases before with
      | nil =>
        -- right before the token is the lexeme before it
        have hfirst := (Lexeme.starts_of_read hl).digits_apart
        rw [hs, List.take_left, List.drop_left] at hfirst
        have hne : first ≠ [] := fun hnil => by
          have hpos := (Lexeme.read_sound hl).size_pos
          rw [hs, hnil] at hpos
          cases hpos
        rw [List.append_nil]
        exact hfirst.prepend hne blanks
      | cons c before =>
        rw [← List.append_assoc]
        exact hapart.prepend (List.cons_ne_nil c before) _

theorem literal_of_mem_lex (ht : t ∈ lex mode text) (hk : t.kind.isContent = true)
    (hname : t.kind ≠ .identifier) : ∃ before word after p, t.Covers text before word after ∧
      t.payload = some p ∧ Spells word after t.kind p ∧ DigitsApart before (word ++ after) := by
  have hmem := mem_lex_editor ht
  obtain ⟨ts, hlex, hscanned⟩ := lex_scanned text
  rw [hlex] at hmem
  rcases List.mem_append.mp hmem with hmem | hmem
  · obtain ⟨us, vs, rfl⟩ := List.append_of_mem hmem
    obtain ⟨before, word, after, l, hsplit, rfl, hstarts, hsize, hapart⟩ := hscanned.lexeme_at
    -- the literal is as long as the token, so it is the token
    obtain ⟨word', after', p, heq, hsize', hpayload, hspells⟩ := hstarts.spells hk hname
    obtain ⟨rfl, rfl⟩ := List.append_inj heq (hsize.symm.trans hsize')
    rw [Nat.zero_add]
    exact ⟨before, word, after, p, ⟨hsplit, rfl, rfl⟩, hpayload, hspells, hapart⟩
  · obtain rfl := List.mem_singleton.mp hmem
    cases hk

/-- The lexeme where a token begins says of which kind it is. -/
theorem kind_of_begin {l : Lexeme} (ht : t ∈ lex mode text) (hbegin : t.begin = byteSize before)
    (hsplit : text.toList = before ++ (word ++ after)) (hstarts : Starts (word ++ after) l)
    (hsize : l.size = word.length) (hword : ∀ c ∈ word.head?, isBlank c = false)
    (hcomment : l.kind.isComment = false) : t.kind = l.kind := by
  obtain ⟨pre, post, hlex⟩ := List.append_of_mem ht
  obtain ⟨t', post', heq, -, hkind, -⟩ :=
    (tokensFrom hlex hsplit hbegin).step hstarts.read hsize hword hcomment
  rw [(List.cons.inj heq).1, hkind]

/-- **Delimited literals end where the number of backslashes says**, and stand for their content
with its escapes decoded. A token that begins with what opens a literal is one. -/
theorem lex_delimited (mode : Mode) (text : String) :
    (∀ t ∈ lex mode text, ∀ lead d, t.kind.opening? = some (lead, d) →
      ∃ before content closing after,
        t.Covers text before (lead ++ d :: (content ++ closing)) after ∧
        Ended d content closing after ∧ t.payload = some (t.kind.holding (decoded content))) ∧
    ∀ t ∈ lex mode text, ∀ before kind lead d rest, kind.opening? = some (lead, d) →
      t.begin = byteSize before → text.toList = before ++ (lead ++ d :: rest) → t.kind = kind := by
  refine ⟨fun t ht lead d hk => ?_, fun t ht before kind lead d rest hk hbegin hsplit => ?_⟩
  · obtain ⟨hcontent, hname, -⟩ := TokenKind.content_of_opening hk
    obtain ⟨before, word, after, p, hcovers, hpayload, hspells, -⟩ :=
      literal_of_mem_lex ht hcontent hname
    obtain ⟨content, closing, rfl, hended, rfl⟩ := hspells.of_opening hk
    exact ⟨before, content, closing, after, hcovers, hended, hpayload⟩
  · obtain ⟨content, closing, after, heq, -, hstarts⟩ := Lexeme.starts_opened hk rest
    rw [heq] at hsplit hstarts
    exact kind_of_begin ht hbegin hsplit hstarts rfl (TokenKind.head_of_opening hk _)
      (TokenKind.content_of_opening hk).2.2

/-- Two backslashes before the first closing quote, three before the last one. -/
example : (lex .editor "\x22a\\\\\x22 \x22b\\\\\\\x22").map (·.payload) =
    [some (.text "a\\"), some (.text "b\\\x22"), none] := by decide +kernel

/-- Past an integer. -/
theorem TokensFrom.integer (h : TokensFrom mode text before (word ++ after) ts)
    (hint : Integer word after n) : ∃ t post, ts = t :: post ∧ t.kind = .int ∧
      t.Covers text before word after ∧ TokensFrom mode text (before ++ word) after post := by
  obtain ⟨c, digits, hword, hc⟩ := hint.head
  obtain ⟨t, post, hts, hcovers, hkind, -, hpost⟩ :=
    h.step (Lexeme.starts_integer hint).read rfl (hword ▸ isBlank_of_isDigit hc) rfl
  exact ⟨t, post, hts, hkind, hcovers, hpost⟩

/-- Past the sign of a range, which a digit behind it does not make longer. -/
theorem TokensFrom.range {rest : List Char}
    (h : TokensFrom mode text before ('.' :: '.' :: rest) ts)
    (hrest : ∀ c ∈ rest.head?, c.isDigit = true) :
    ∃ t post, ts = t :: post ∧ t.kind = .sign .range ∧ t.Covers text before ['.', '.'] rest ∧
      TokensFrom mode text (before ++ ['.', '.']) rest post := by
  have hread : Lexeme.read (['.', '.'] ++ rest) = some ⟨.sign .range, none, 2⟩ :=
    Lexeme.read_sign .range (by decide) fun c hc =>
      Sign.continuesWith_of_isWordChar _ (by simp [isWordChar, hrest c hc])
  have hsign : TokensFrom mode text before (['.', '.'] ++ rest) ts := h
  have hdot : ∀ c ∈ ['.', '.'].head?, isBlank c = false := fun c hc => by
    obtain rfl := Option.some.inj hc
    rfl
  obtain ⟨t, post, hts, hcovers, hkind, -, hpost⟩ := hsign.step hread rfl hdot rfl
  exact ⟨t, post, hts, hkind, hcovers, hpost⟩

/-- Past two integers with the sign of a range between them. -/
theorem TokensFrom.span {a b : List Char} {m : Nat}
    (h : TokensFrom mode text before (a ++ '.' :: '.' :: (b ++ after)) ts)
    (ha : Integer a ('.' :: '.' :: (b ++ after)) m) (hb : Integer b after n) :
    ∃ t range next more, ts = t :: range :: next :: more ∧
      t.kind = .int ∧ t.Covers text before a ('.' :: '.' :: (b ++ after)) ∧
      range.kind = .sign .range ∧ range.Covers text (before ++ a) ['.', '.'] (b ++ after) ∧
      next.kind = .int ∧ next.Covers text (before ++ a ++ ['.', '.']) b after := by
  obtain ⟨t, us, rfl, hkind, hcovers, hus⟩ := h.integer ha
  obtain ⟨c, digits, hword, hc⟩ := hb.head
  have hdigit : ∀ x ∈ (b ++ after).head?, x.isDigit = true := by
    rw [hword]
    exact fun x hx => Option.some.inj hx ▸ hc
  obtain ⟨range, vs, rfl, hrange, hcovers', hvs⟩ := hus.range hdigit
  obtain ⟨next, more, rfl, hnext, hcovers'', -⟩ := hvs.integer hb
  exact ⟨t, range, next, more, rfl, hkind, hcovers, hrange, hcovers', hnext, hcovers''⟩

theorem kind_of_digit {c : Char} {rest : List Char} (ht : t ∈ lex mode text)
    (hbegin : t.begin = byteSize before) (hsplit : text.toList = before ++ c :: rest)
    (hc : c.isDigit = true) : t.kind = .int ∨ t.kind = .float := by
  rcases Lexeme.digit_cases hc rest with
    ⟨word, after, n, heq, hint⟩ | ⟨whole, fraction, after, heq, hfraction⟩
  · obtain ⟨d, digits, hword, hd⟩ := hint.head
    rw [heq] at hsplit
    exact .inl (kind_of_begin ht hbegin hsplit (Lexeme.starts_integer hint) rfl
      (hword ▸ isBlank_of_isDigit hd) rfl)
  · obtain ⟨d, digits, hwhole, hd⟩ := hfraction.head
    rw [heq] at hsplit
    exact .inr (kind_of_begin ht hbegin hsplit (Lexeme.starts_fraction hfraction) rfl
      (hwhole ▸ isBlank_of_isDigit hd) rfl)

/-- **Integers never wrap.** A token that begins with a digit is an integer or a float. An integer
takes all of its digits, decimal or hexadecimal, and carries what they spell, or zero if 63 bits are
not enough for it. A float takes all digits around a point, with one on either side at least, so
that two integers with the sign of a range between them are read as these three. -/
theorem lex_numbers (mode : Mode) (text : String) :
    (∀ t ∈ lex mode text, t.kind = .int → ∃ before word after n,
      t.Covers text before word after ∧ (∀ c ∈ before.getLast?, 10 ≤ digitValue c) ∧
      Integer word after n ∧ t.payload = some (.int (bounded n))) ∧
    (∀ t ∈ lex mode text, t.kind = .float → ∃ before whole fraction after,
      t.Covers text before (whole ++ '.' :: fraction) after ∧
      (∀ c ∈ before.getLast?, 10 ≤ digitValue c) ∧ Fraction whole fraction after) ∧
    (∀ t ∈ lex mode text, ∀ before c rest, t.begin = byteSize before →
      text.toList = before ++ c :: rest → digitValue c < 10 → t.kind = .int ∨ t.kind = .float) ∧
    ∀ pre t post before a b after m n, lex mode text = pre ++ t :: post →
      t.begin = byteSize before → text.toList = before ++ (a ++ '.' :: '.' :: (b ++ after)) →
      Integer a ('.' :: '.' :: (b ++ after)) m → Integer b after n →
      ∃ range next more, post = range :: next :: more ∧
        t.kind = .int ∧ t.Covers text before a ('.' :: '.' :: (b ++ after)) ∧
        range.kind = .sign .range ∧ range.Covers text (before ++ a) ['.', '.'] (b ++ after) ∧
        next.kind = .int ∧ next.Covers text (before ++ a ++ ['.', '.']) b after := by
  refine ⟨fun t ht hk => ?_, fun t ht hk => ?_,
    fun t ht before c rest hbegin hsplit hc =>
      kind_of_digit ht hbegin hsplit ((isDigit_iff c).mp hc),
    fun pre t post before a b after m n hlex hbegin hsplit ha hb => ?_⟩
  · obtain ⟨before, word, after, p, hcovers, hpayload, hspells, hapart⟩ :=
      literal_of_mem_lex ht (hk ▸ rfl) (by simp [hk])
    rw [hk] at hspells
    obtain ⟨n, hint, rfl⟩ := hspells.of_int
    obtain ⟨c, digits, rfl, hc⟩ := hint.head
    exact ⟨before, _, after, n, hcovers, hapart.last hc, hint, hpayload⟩
  · obtain ⟨before, word, after, p, hcovers, -, hspells, hapart⟩ :=
      literal_of_mem_lex ht (hk ▸ rfl) (by simp [hk])
    rw [hk] at hspells
    obtain ⟨whole, fraction, rfl, hfraction, -⟩ := hspells.of_float
    obtain ⟨c, digits, rfl, hc⟩ := hfraction.head
    exact ⟨before, _, fraction, after, hcovers, hapart.last hc, hfraction⟩
  · obtain ⟨t', range, next, more, heq, hall⟩ := (tokensFrom hlex hsplit hbegin).span ha hb
    obtain ⟨rfl, rfl⟩ := List.cons.inj heq
    exact ⟨range, next, more, rfl, hall⟩

example : (lex .editor "0x1F..9223372036854775808").map (fun t => (t.kind, t.payload)) =
    [(.int, some (.int 31)), (.sign .range, none), (.int, some (.int 0)), (.eof, none)] := by
  decide +kernel

end Tokens

end MudEdit
