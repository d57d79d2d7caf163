import MudEdit.Token.Lexeme

/-!
# What every lexeme is

A lexeme takes a character at least, it is never the end of the text, and if its kind is
one that carries something, then it carries a value of the right sort.
-/

namespace MudEdit

namespace TokenKind

/-- The tokens that carry something of the text besides their kind. -/
def isContent : TokenKind → Bool
  | identifier | int | float | string | character | symbol => true
  | _ => false

/-- Whether the payload is of the sort that tokens of the kind carry. -/
def carries : TokenKind → Payload → Bool
  | identifier, .text _ | string, .text _ | symbol, .text _ => true
  | int, .int _ | float, .float _ | character, .char _ => true
  | _, _ => false

end TokenKind

/-- The payload of a token of the kind is there if the kind carries one. -/
def Payload.Fits (kind : TokenKind) (payload : Option Payload) : Prop :=
  kind.isContent = true → ∃ p, payload = some p ∧ kind.carries p = true

namespace Lexeme

variable {c : Char} {cs : List Char} {l : Lexeme}

structure Sound (l : Lexeme) : Prop where
  size_pos : 0 < l.size
  kind_ne : l.kind ≠ .eof
  fits : Payload.Fits l.kind l.payload

/-- A lexeme without a payload, of a kind that carries none. -/
theorem sound_bare {kind : TokenKind} {size : Nat} (hs : 0 < size) (hk : kind ≠ .eof)
    (hc : kind.isContent = false) : Sound ⟨kind, none, size⟩ :=
  ⟨hs, hk, fun h => absurd h (by simp [hc])⟩

/-! ## Literals and comments -/

theorem blockComment_kind (kind : TokenKind) (opening : Nat) (cs : List Char) :
    (blockComment kind opening cs).kind = kind := by
  unfold blockComment
  split <;> rfl

theorem decimal_kind (cs : List Char) : (decimal cs).kind = .int ∨ (decimal cs).kind = .float := by
  unfold decimal
  dsimp only
  split
  · split
    · exact .inl rfl
    · exact .inr rfl
  · exact .inl rfl

theorem string_sound (cs : List Char) : (string cs).Sound :=
  ⟨Nat.succ_pos _, by simp [string], fun _ => ⟨_, rfl, rfl⟩⟩

theorem character_sound (cs : List Char) : (character cs).Sound :=
  ⟨Nat.succ_pos _, by simp [character], fun _ => ⟨_, rfl, rfl⟩⟩

theorem symbol_sound (cs : List Char) : (symbol cs).Sound :=
  ⟨Nat.succ_pos _, by simp [symbol], fun _ => ⟨_, rfl, rfl⟩⟩

theorem int_sound {value size : Nat} (h : 0 < size) : (int value size).Sound :=
  ⟨h, by simp [int], fun _ => ⟨_, rfl, rfl⟩⟩

theorem decimal_sound (hc : c.isDigit = true) : (decimal (c :: cs)).Sound := by
  -- the first digit alone is a character taken
  have hs : 0 < ((c :: cs).takeWhile Char.isDigit).length := by
    rw [List.takeWhile_cons_of_pos hc]
    exact Nat.succ_pos _
  unfold decimal
  dsimp only
  split
  · split
    · exact int_sound hs
    · exact ⟨by dsimp only; omega, by simp, fun _ => ⟨_, rfl, rfl⟩⟩
  · exact int_sound hs

theorem blockComment_sound {kind : TokenKind} {opening : Nat} (hk : kind.isComment = true) :
    (blockComment kind opening (c :: cs)).Sound := by
  have hne : kind ≠ .eof := by
    intro heq
    simp [heq, TokenKind.isComment] at hk
  have hc : kind.isContent = false := by
    cases kind <;> first | rfl | simp [TokenKind.isComment] at hk
  unfold blockComment
  split
  · exact sound_bare (Nat.succ_pos _) hne hc
  · exact sound_bare (Nat.succ_pos _) hne hc

/-! ## Words and signs -/

theorem reservedWord?_bare {word : String} {kind : TokenKind} (h : reservedWord? word = some kind) :
    kind ≠ .eof ∧ kind.isContent = false ∧ kind.isComment = false := by
  -- the words are a fixed list, so it is enough to look through it
  have hall : ∀ p ∈ vocabulary,
      p.2 ≠ .eof ∧ p.2.isContent = false ∧ p.2.isComment = false := by decide
  obtain ⟨p, hp, rfl⟩ := Option.map_eq_some_iff.mp h
  exact hall p (List.mem_of_find?_eq_some hp)

/-- Reserved words are words. -/
theorem reservedWord?_of_mem {word : String} (hc : c ∈ word.toList) (h : isWordChar c = false) :
    reservedWord? word = none := by
  have hall : (vocabulary.all fun p => p.1.toList.all isWordChar) = true := by decide +kernel
  refine Option.map_eq_none_iff.mpr (List.find?_eq_none.mpr fun p hp heq => ?_)
  obtain rfl : p.1 = word := by simpa using heq
  exact absurd (List.all_eq_true.mp (List.all_eq_true.mp hall p hp) c hc) (by simp [h])

theorem word_sound (hc : isWordStart c = true) : (word (c :: cs)).Sound := by
  have hs : 0 < ((c :: cs).takeWhile isWordChar).length := by
    rw [List.takeWhile_cons_of_pos (by simp [isWordChar, hc])]
    exact Nat.succ_pos _
  unfold word
  dsimp only
  split
  · rename_i kind hk
    obtain ⟨hne, hno, -⟩ := reservedWord?_bare hk
    exact sound_bare hs hne hno
  · exact ⟨hs, by simp, fun _ => ⟨_, rfl, rfl⟩⟩

theorem sign?_sound (h : sign? cs = some l) : l.Sound := by
  have hall : ∀ p ∈ signs, 0 < p.1.length := by decide
  obtain ⟨p, hp, rfl⟩ := Option.map_eq_some_iff.mp h
  exact sound_bare (hall p (List.mem_of_find?_eq_some hp)) (by simp) rfl

theorem stray_sound (c : Char) : (stray c).Sound :=
  ⟨Nat.one_pos, by simp [stray], fun _ => ⟨_, rfl, rfl⟩⟩

/-! ## Any lexeme -/

theorem read_sound (h : read cs = some l) : l.Sound := by
  cases cs with
  | nil => simp [read] at h
  | cons c cs =>
    simp only [read, Option.some.injEq] at h
    -- first what its first characters settle, then the rest by the kind of the first one
    split at h
    · subst h
      exact sound_bare (by simp) (by simp) rfl
    · exact h ▸ blockComment_sound rfl
    · exact h ▸ blockComment_sound rfl
    · exact h ▸ string_sound _
    · exact h ▸ character_sound _
    · exact h ▸ int_sound (Nat.succ_pos _)
    · exact h ▸ int_sound (Nat.succ_pos _)
    · split at h
      · exact h ▸ sound_bare (by decide) (by simp) rfl
      · split at h
        · exact h ▸ symbol_sound _
        · split at h
          · rename_i hd
            exact h ▸ decimal_sound hd
          · split at h
            · rename_i hw
              exact h ▸ word_sound hw
            · cases hs : sign? (c :: cs) with
              | none => exact h ▸ hs ▸ stray_sound c
              | some s => exact h ▸ hs ▸ sign?_sound hs

/-! ## Names -/

/-- If the lexeme is a name, it is one that is not reserved. -/
def Unreserved (l : Lexeme) : Prop :=
  l.kind = .identifier → ∃ text, l.payload = some (.text text) ∧ reservedWord? text = none

theorem unreserved_of_kind (h : l.kind ≠ .identifier) : l.Unreserved := fun hk => absurd hk h

theorem blockComment_unreserved {kind : TokenKind} {opening : Nat} (hk : kind.isComment = true) :
    (blockComment kind opening cs).Unreserved := by
  refine unreserved_of_kind fun h => ?_
  rw [← blockComment_kind kind opening cs, h] at hk
  cases hk

theorem decimal_unreserved : (decimal cs).Unreserved := by
  refine unreserved_of_kind fun h => ?_
  rcases decimal_kind cs with hk | hk
  · cases hk.symm.trans h
  · cases hk.symm.trans h

theorem word_unreserved : (word cs).Unreserved := by
  intro h
  unfold word at h ⊢
  dsimp only at h ⊢
  split at h
  · rename_i kind hkind
    -- what is reserved has no content, as names have
    have hcontent := (reservedWord?_bare hkind).2.1
    cases (h : kind = .identifier)
    cases hcontent
  · rename_i hnone
    exact ⟨_, rfl, hnone⟩

theorem sign?_unreserved (h : sign? cs = some l) : l.Unreserved := by
  obtain ⟨p, -, rfl⟩ := Option.map_eq_some_iff.mp h
  exact unreserved_of_kind nofun

theorem stray_unreserved (h : isWordChar c = false) : (stray c).Unreserved := by
  intro _
  exact ⟨c.toString, rfl, reservedWord?_of_mem (c := c) (by simp) h⟩

/-- **A name is no reserved word**: words that are reserved are read as such, and a character
that starts no token is in none of them. -/
theorem read_unreserved (h : read cs = some l) : l.Unreserved := by
  cases cs with
  | nil => simp [read] at h
  | cons c cs =>
    simp only [read, Option.some.injEq] at h
    split at h
    -- delimited literals, comments and numbers are no identifiers; only a word can be one
    · exact h ▸ unreserved_of_kind nofun
    · exact h ▸ blockComment_unreserved rfl
    · exact h ▸ blockComment_unreserved rfl
    · exact h ▸ unreserved_of_kind nofun
    · exact h ▸ unreserved_of_kind nofun
    · exact h ▸ unreserved_of_kind nofun
    · exact h ▸ unreserved_of_kind nofun
    · split at h
      · exact h ▸ unreserved_of_kind nofun
      · split at h
        · exact h ▸ unreserved_of_kind nofun
        · split at h
          · exact h ▸ decimal_unreserved
          · rename_i hdigit
            split at h
            · exact h ▸ word_unreserved
            -- no word either: a sign, or a stray character, which no reserved word is
            · rename_i hstart
              cases hs : sign? (c :: cs) with
              | none => exact h ▸ hs ▸ stray_unreserved (by simp [isWordChar, hdigit, hstart])
              | some s => exact h ▸ hs ▸ sign?_unreserved hs

end Lexeme

end MudEdit
