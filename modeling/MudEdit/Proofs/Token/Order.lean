import MudEdit.Proofs.Text.Stream
import MudEdit.Proofs.Token.Lexeme
import MudEdit.Token.Lexer

/-!
# The tokens of a text

`lex` gives proper tokens and comments, and after them the one `eof` token. The tokens
before that stand in the order of the text and do not overlap, each takes a byte at
least, and each begins and ends at a character boundary. Leaving comments out while
reading is the same as leaving them out afterwards.
-/

namespace MudEdit

open Text (Stream)

namespace Token

variable {lo lo' hi : Nat} {t u : Token} {ts us : List Token}

/-- Tokens between two offsets that stand one after the other. -/
structure InOrder (lo : Nat) (ts : List Token) (hi : Nat) : Prop where
  le : lo ≤ hi
  apart : ts.Pairwise fun a b => a.stop ≤ b.begin
  within : ∀ t ∈ ts, lo ≤ t.begin ∧ t.begin < t.stop ∧ t.stop ≤ hi

namespace InOrder

theorem nil (h : lo ≤ hi) : InOrder lo [] hi := ⟨h, .nil, by simp⟩

theorem weaken (h : InOrder lo ts hi) (hl : lo' ≤ lo) : InOrder lo' ts hi where
  le := Nat.le_trans hl h.le
  apart := h.apart
  within t ht := by
    obtain ⟨h₁, h₂⟩ := h.within t ht
    exact ⟨Nat.le_trans hl h₁, h₂⟩

theorem cons (hl : lo ≤ t.begin) (ht : t.begin < t.stop) (h : InOrder t.stop ts hi) :
    InOrder lo (t :: ts) hi where
  le := by have := h.le; omega
  apart := List.pairwise_cons.mpr ⟨fun u hu => (h.within u hu).1, h.apart⟩
  within u hu := by
    rcases List.mem_cons.mp hu with rfl | hu
    · exact ⟨hl, ht, h.le⟩
    · obtain ⟨h₁, h₂, h₃⟩ := h.within u hu
      exact ⟨by omega, h₂, h₃⟩

theorem tail (h : InOrder lo (t :: ts) hi) : InOrder t.stop ts hi where
  le := (h.within t List.mem_cons_self).2.2
  apart := (List.pairwise_cons.mp h.apart).2
  within u hu := by
    obtain ⟨-, h₂, h₃⟩ := h.within u (List.mem_cons_of_mem _ hu)
    exact ⟨(List.pairwise_cons.mp h.apart).1 u hu, h₂, h₃⟩

theorem filter (h : InOrder lo ts hi) (p : Token → Bool) : InOrder lo (ts.filter p) hi where
  le := h.le
  apart := h.apart.filter p
  within t ht := h.within t (List.mem_filter.mp ht).1

/-- Two tokens in order do not overlap. -/
theorem disjoint (h : InOrder lo ts hi) (ht : t ∈ ts) (hu : u ∈ ts) (hne : t ≠ u) :
    t.stop ≤ u.begin ∨ u.stop ≤ t.begin := by
  induction ts generalizing lo with
  | nil => exact absurd ht (by simp)
  | cons v ts ih =>
    have hv := (List.pairwise_cons.mp h.apart).1
    rcases List.mem_cons.mp ht with rfl | ht' <;> rcases List.mem_cons.mp hu with rfl | hu'
    · exact absurd rfl hne
    · exact .inl (hv u hu')
    · exact .inr (hv t ht')
    · exact ih h.tail ht' hu'

/-- A token is known by where it begins. -/
theorem eq_of_begin (h : InOrder lo ts hi) (ht : t ∈ ts) (hu : u ∈ ts)
    (hb : t.begin = u.begin) : t = u := by
  by_cases hne : t = u
  · exact hne
  -- two tokens that do not overlap begin apart, since each has a byte
  exfalso
  have h₁ := (h.within t ht).2.1
  have h₂ := (h.within u hu).2.1
  rcases h.disjoint ht hu hne with h | h <;> omega

theorem nodup (h : InOrder lo ts hi) : ts.Nodup := by
  refine (h.apart.imp_of_mem fun {t u} ht _ hle => ?_)
  intro heq
  subst heq
  have := (h.within t ht).2.1
  omega

end InOrder

/-- What the tokens of a text are, its end apart. -/
structure Of (text : String) (t : Token) : Prop where
  kind_ne : t.kind ≠ .eof
  fits : Payload.Fits t.kind t.payload
  begin_valid : String.Pos.Raw.IsValid text ⟨t.begin⟩
  stop_valid : String.Pos.Raw.IsValid text ⟨t.stop⟩

end Token

namespace Text.Stream

variable {s past : Stream} {mode : Mode} {text : String} {t : Token}

/-- The token ahead lies between the cursor and the cursor past it. -/
theorem token?_spec (hs : s.chars = text.toList) (h : s.token? = some (t, past)) :
    t.Of text ∧ s.position ≤ t.begin ∧ t.begin < t.stop ∧ t.stop = past.position ∧
      past.chars = text.toList := by
  -- the blanks before the token are passed first
  have hblanks : s.skipBlanks.chars = text.toList := by
    unfold skipBlanks advanceWhile
    rw [chars_forward, hs]
  have hle : s.position ≤ s.skipBlanks.position := position_le_forward _ _
  obtain ⟨l, hl, he⟩ := Option.map_eq_some_iff.mp h
  injection he with ht hp
  have hsound := Lexeme.read_sound hl
  have hne : s.skipBlanks.after ≠ [] := by
    intro hn
    rw [hn] at hl
    exact absurd hl (by simp [Lexeme.read])
  have hchars : past.chars = text.toList := by rw [← hp, chars_forward, hblanks]
  have hlt : t.begin < t.stop := by
    rw [← ht]
    exact position_lt_forward hsound.size_pos hne
  have hstop : t.stop = past.position := by rw [← ht, ← hp]
  refine ⟨⟨?_, ?_, ?_, ?_⟩, ?_, hlt, hstop, hchars⟩
  · rw [← ht]; exact hsound.kind_ne
  · rw [← ht]; exact hsound.fits
  · rw [← ht]; exact isValid_position hblanks
  · rw [hstop]; exact isValid_position hchars
  · rw [← ht]; exact hle

/-- The tokens ahead of a cursor, up to the end of the text. -/
theorem tokens_spec (mode : Mode) (fuel : Nat) (hs : s.chars = text.toList) :
    ∃ ts, s.tokens mode fuel = ts ++ [.eof text.utf8ByteSize] ∧
      Token.InOrder s.position ts text.utf8ByteSize ∧ ∀ t ∈ ts, t.Of text := by
  induction fuel generalizing s with
  | zero =>
    -- however much is left, the end of the text closes the list
    refine ⟨[], ?_, .nil ?_, by simp⟩
    · rw [tokens, size_of_chars hs]; rfl
    · rw [← size_of_chars hs]; exact position_le_size s
  | succ fuel ih =>
    rw [tokens]
    split
    · refine ⟨[], ?_, .nil ?_, by simp⟩
      · rw [size_of_chars hs]; rfl
      · rw [← size_of_chars hs]; exact position_le_size s
    · rename_i t past ht
      obtain ⟨hof, hle, hlt, hstop, hchars⟩ := token?_spec hs ht
      obtain ⟨ts, hts, hord, hall⟩ := ih hchars
      rw [← hstop] at hord
      split
      · -- a comment left out only widens the gap before the next token
        exact ⟨ts, hts, hord.weaken (by omega), hall⟩
      · exact ⟨t :: ts, by rw [hts]; rfl, .cons hle hlt hord, List.forall_mem_cons.mpr ⟨hof, hall⟩⟩

/-- Comments left out while reading are the comments left out afterwards. -/
theorem tokens_interpretation (fuel : Nat) (s : Stream) :
    s.tokens .interpretation fuel = (s.tokens .editor fuel).filter (!·.kind.isComment) := by
  induction fuel generalizing s with
  | zero => rfl
  | succ fuel ih =>
    rw [tokens, tokens]
    split
    · rfl
    · rename_i t past _
      cases hc : t.kind.isComment with
      | true => simp [Mode.drops, hc, ih]
      | false => simp [Mode.drops, hc, ih]

end Text.Stream

variable {mode : Mode} {text : String} {t : Token}

/-- **The tokens of a text** stand in order, are what tokens are, and end with its end. -/
theorem lex_spec (mode : Mode) (text : String) :
    ∃ ts, lex mode text = ts ++ [.eof text.utf8ByteSize] ∧
      Token.InOrder 0 ts text.utf8ByteSize ∧ ∀ t ∈ ts, t.Of text :=
  Stream.tokens_spec mode _ rfl

theorem lex_interpretation (text : String) :
    lex .interpretation text = (lex .editor text).filter (!·.kind.isComment) :=
  Stream.tokens_interpretation _ _

/-- Without the comments there are no other tokens. -/
theorem mem_lex_editor (h : t ∈ lex mode text) : t ∈ lex .editor text := by
  cases mode with
  | editor => exact h
  | interpretation =>
    rw [lex_interpretation] at h
    exact (List.mem_filter.mp h).1

end MudEdit
