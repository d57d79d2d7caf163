import MudEdit.Grammar.Window
import MudEdit.Proofs.Forest.Span
import MudEdit.Proofs.Token.Order

/-!
# Comments do not change what is read

The grammar reads the same tokens in both modes. What differs is what the window comes
across: in the mode of an editor it puts aside all the comments of the text, in that of a
program there are none. The keywords it notes are those of the text in both.

Step by step the window shows the first two significant tokens ahead, whatever comments
stand between them. The comments it has come to and those still beyond it are all the
comments of the text, and the keywords it has noted are those of the tokens it has passed.
-/

namespace MudEdit

/-! ## The window follows the significant tokens -/

namespace Window

variable {n : Nat} {t : Token} {ts us tokens : List Token}

/-- Tokens of which only the last may be the end of the text. -/
inductive Ends (n : Nat) : List Token → Prop where
  | nil : Ends n []
  | eof : Ends n [.eof n]
  | cons {t : Token} {ts : List Token} : t.kind ≠ .eof → Ends n ts → Ends n (t :: ts)

theorem Ends.of_proper (h : ∀ t ∈ ts, t.kind ≠ .eof) : Ends n (ts ++ [.eof n]) := by
  induction ts with
  | nil => exact .eof
  | cons t ts ih =>
    rw [List.forall_mem_cons] at h
    exact .cons h.1 (ih h.2)

/-- What one pull takes off the tokens beyond the window. -/
structure Pulled (n : Nat) (tokens : List Token) (comments : List Token)
    (p : Token × List Token × List Token) : Prop where
  token : p.1 = (tokens.filter Token.isSignificant).head?.getD (.eof n)
  rest : p.2.1.filter Token.isSignificant = (tokens.filter Token.isSignificant).tail
  ends : Ends n p.2.1
  exhausted : tokens.filter Token.isSignificant = [] → p.2.1 = []
  comments : p.2.2.reverse ++ p.2.1.filter (·.kind.isComment) =
    comments.reverse ++ tokens.filter (·.kind.isComment)

theorem pull_spec (h : Ends n tokens) (comments : List Token) :
    Pulled n tokens comments (pull n comments tokens) := by
  induction h generalizing comments with
  | nil => exact ⟨rfl, rfl, .nil, fun _ => rfl, rfl⟩
  | eof => exact ⟨rfl, rfl, .nil, fun _ => rfl, rfl⟩
  | @cons t ts hne hends ih =>
    rw [pull]
    cases hc : t.kind.isComment with
    | true =>
      -- the comment is put aside and the pull goes on
      have hsig : (t :: ts).filter Token.isSignificant = ts.filter Token.isSignificant :=
        List.filter_cons_of_neg (by simp [Token.isSignificant, hc])
      obtain ⟨h₁, h₂, h₃, h₄, h₅⟩ := ih (t :: comments)
      rw [if_pos rfl]
      refine ⟨by rw [hsig, h₁], by rw [hsig, h₂], h₃, by rwa [hsig], ?_⟩
      have hcom : (t :: ts).filter (·.kind.isComment) = t :: ts.filter (·.kind.isComment) :=
        List.filter_cons_of_pos hc
      rw [h₅, hcom, List.reverse_cons, List.append_assoc]
      rfl
    | false =>
      have hsig : (t :: ts).filter Token.isSignificant = t :: ts.filter Token.isSignificant :=
        List.filter_cons_of_pos (by simp [Token.isSignificant, hc, hne])
      rw [if_neg (by simp)]
      refine ⟨by rw [hsig]; rfl, by rw [hsig]; rfl, hends, by simp [hsig], ?_⟩
      have hcom : (t :: ts).filter (·.kind.isComment) = ts.filter (·.kind.isComment) :=
        List.filter_cons_of_neg (by simp [hc])
      rw [hcom]

/-- The window is on the first two of the significant tokens `ts` ahead, in a text with the
comments `all`. -/
structure Shows (n : Nat) (all ts : List Token) (w : Window) : Prop where
  textEnd : w.textEnd = n
  current : w.current = ts.head?.getD (.eof n)
  next : w.next = ts.tail.head?.getD (.eof n)
  upcoming : w.upcoming.filter Token.isSignificant = ts.tail.tail
  ends : Ends n w.upcoming
  exhausted : ts.tail = [] → w.upcoming = []
  comments : w.comments.reverse ++ w.upcoming.filter (·.kind.isComment) = all

theorem shows_start (h : Ends n tokens) : Shows n (tokens.filter (·.kind.isComment))
    (tokens.filter Token.isSignificant) (start tokens n) := by
  have h₁ := pull_spec h []
  have h₂ := pull_spec h₁.ends (pull n [] tokens).2.2
  refine ⟨rfl, h₁.token, ?_, ?_, h₂.ends, ?_, ?_⟩
  · -- the second token is pulled from what the first pull left
    exact h₂.token.trans (by rw [h₁.rest])
  · exact h₂.rest.trans (by rw [h₁.rest])
  · exact fun hts => h₂.exhausted (by rw [h₁.rest, hts])
  · exact h₂.comments.trans h₁.comments

/-- **A step of the window** moves it on by one significant token. -/
theorem shows_advance {all : List Token} {w : Window} (h : Shows n all (t :: ts) w) :
    Shows n all ts w.advance := by
  have hp := pull_spec h.ends w.comments
  rw [← h.textEnd] at hp
  have hn : w.textEnd = n := h.textEnd
  have hu : w.upcoming.filter Token.isSignificant = ts.tail := h.upcoming
  refine ⟨hn, h.next, ?_, ?_, ?_, ?_, ?_⟩
  · exact hp.token.trans (by rw [hu, hn])
  · exact hp.rest.trans (by rw [hu])
  · exact hn ▸ hp.ends
  · exact fun hts => hp.exhausted (by rw [hu, hts])
  · exact hp.comments.trans h.comments

theorem keywords_advance {all : List Token} {w : Window} (h : Shows n all (t :: ts) w) :
    w.advance.keywords = ([t].filter (·.kind.isKeyword)).reverse ++ w.keywords := by
  have hc : w.current = t := h.current
  show (if w.current.kind.isKeyword then w.current :: w.keywords else w.keywords) = _
  rw [hc]
  cases hk : t.kind.isKeyword <;> simp [hk]

/-- The window after as many steps as there are tokens in `ts`. -/
theorem shows_advanceBy {all : List Token} {w : Window} (h : Shows n all (ts ++ us) w) :
    Shows n all us (w.advanceBy ts.length) ∧
      (w.advanceBy ts.length).keywords = (ts.filter (·.kind.isKeyword)).reverse ++ w.keywords := by
  induction ts generalizing w with
  | nil => exact ⟨h, rfl⟩
  | cons t ts ih =>
    obtain ⟨hs, hk⟩ := ih (shows_advance h)
    refine ⟨hs, hk.trans ?_⟩
    rw [keywords_advance h, ← List.append_assoc, ← List.reverse_append, ← List.filter_append]
    rfl

end Window

/-! ## The modes -/

variable {mode : Mode} {text : String}

/-- The window is where the cursor is, and it has noted the keywords taken. -/
structure Reading.Aligned (mode : Mode) (text : String) (r : Reading) : Prop where
  shows : r.window.Shows text.utf8ByteSize ((lex mode text).filter (·.kind.isComment))
    r.cursor.ahead
  keywords : r.window.keywords = r.cursor.taken.filter (·.kind.isKeyword)

theorem start_aligned (mode : Mode) (text : String) :
    (Reading.start mode text).Aligned mode text := by
  obtain ⟨ts, hts, -, hof⟩ := lex_spec mode text
  have hends : Window.Ends text.utf8ByteSize (lex mode text) := by
    rw [hts]
    exact .of_proper fun t ht => (hof t ht).kind_ne
  exact ⟨Window.shows_start hends, rfl⟩

/-- **The window keeps up** with whatever is read. -/
theorem readUntil_aligned {r : Reading} (h : r.Aligned mode text) (until_ : TokenKind) :
    (r.readUntil until_).2.Aligned mode text := by
  obtain ⟨hr, -⟩ := Parse.members_reads (c := r.cursor) until_
  obtain ⟨ts, ht⟩ := hr.takes
  have hcursor : (r.readUntil until_).2.cursor = (Parse.members until_ r.cursor).2 := rfl
  -- the window has made as many steps as tokens were taken
  have hwindow : (r.readUntil until_).2.window = r.window.advanceBy ts.length := by
    have hlen : r.cursor.left - (Parse.members until_ r.cursor).2.left = ts.length := by
      rw [ht.left, Nat.add_sub_cancel]
    rw [← hlen]
    rfl
  have hshows := h.shows
  rw [ht.ahead] at hshows
  obtain ⟨hs, hk⟩ := Window.shows_advanceBy hshows
  refine ⟨?_, ?_⟩
  · rw [hcursor, hwindow]
    exact hs
  · rw [hcursor, hwindow, hk, h.keywords, ht.taken, List.filter_append, List.filter_reverse]

theorem final_aligned (mode : Mode) (text : String) : (finalReading mode text).Aligned mode text :=
  readUntil_aligned (start_aligned mode text) .eof

theorem parse_keywords (mode : Mode) (text : String) :
    (Forest.parse mode text).keywords = (lex mode text).filter (·.kind.isKeyword) := by
  obtain ⟨-, ht, -⟩ := parse_reads mode text
  have htaken : (finalReading mode text).cursor.taken = (significant mode text).reverse := by
    rw [ht.taken]
    exact List.append_nil _
  rw [parse_keywordsSeen, Reading.keywordsSeen, (final_aligned mode text).keywords, htaken,
    ← List.filter_reverse, List.reverse_reverse, significant, List.filter_filter]
  refine List.filter_congr fun t _ => ?_
  cases hk : t.kind <;> simp [Token.isSignificant, TokenKind.isKeyword, TokenKind.isComment, hk]

theorem parse_comments (mode : Mode) (text : String) :
    (Forest.parse mode text).comments = (lex mode text).filter (·.kind.isComment) := by
  obtain ⟨-, -, hend⟩ := parse_reads mode text
  have hs := (final_aligned mode text).shows
  have hup : (finalReading mode text).window.upcoming = [] := by
    refine hs.exhausted ?_
    rw [Cursor.ahead_eq_nil hend]
    rfl
  -- at the end no comment is left beyond the window
  have hc := hs.comments
  rw [hup, List.filter_nil, List.append_nil] at hc
  rw [parse_commentsSeen, Reading.commentsSeen, hc]

/-- **Comments never change the meaning of a text.** Reading without comments gives the tokens
of reading with them less the comments; the constructs and the keywords are the same; the
keywords are those among the tokens; and the comments of a forest are all of them for an
editor and none for a program. -/
theorem parse_modes (text : String) :
    lex .interpretation text = (lex .editor text).filter (fun t => !t.kind.isComment) ∧
    (Forest.parse .editor text).nodes = (Forest.parse .interpretation text).nodes ∧
    (Forest.parse .editor text).keywords = (Forest.parse .interpretation text).keywords ∧
    (∀ mode, (Forest.parse mode text).keywords = (lex mode text).filter (·.kind.isKeyword)) ∧
    (Forest.parse .editor text).comments = (lex .editor text).filter (·.kind.isComment) ∧
    (Forest.parse .interpretation text).comments = [] := by
  have hlex := lex_interpretation text
  refine ⟨hlex, ?_, ?_, fun mode => parse_keywords mode text, parse_comments .editor text, ?_⟩
  · rw [parse_nodes, parse_nodes, start_cursor, start_cursor, significant_interpretation]
  · rw [parse_keywords, parse_keywords, hlex, List.filter_filter]
    refine List.filter_congr fun t _ => ?_
    cases hk : t.kind <;> simp [TokenKind.isKeyword, TokenKind.isComment]
  · rw [parse_comments, hlex, List.filter_filter]
    refine List.filter_eq_nil_iff.mpr fun t _ => ?_
    simp

end MudEdit
