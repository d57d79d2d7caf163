import Mathlib.Data.List.Chain
import MudEdit.Forest
import MudEdit.Proofs.Grammar.Levels
import MudEdit.Proofs.Grammar.Span
import MudEdit.Proofs.Token.Order

/-!
# A forest is nested well

Every construct of a file covers a stretch of the text that begins and ends where a token
does, or at the start of the text, and that covers its parts. The constructs of the file
itself stand one after the other: the next one is only begun where the limit of those
before it is the end of the last token taken.

The grammar reads the significant tokens of a text, which are those of `lex` without the
comments and without the end. They are the same in both modes.
-/

namespace MudEdit

variable {mode : Mode} {text : String} {t : Token}

/-! ## Where the reading of a text starts -/

/-- The tokens of a text that the grammar reads. -/
def significant (mode : Mode) (text : String) : List Token :=
  (lex mode text).filter Token.isSignificant

/-- A text with everything read. -/
def finalReading (mode : Mode) (text : String) : Reading :=
  ((Reading.start mode text).readUntil .eof).2

theorem start_cursor (mode : Mode) (text : String) :
    (Reading.start mode text).cursor = .start (significant mode text) text.utf8ByteSize := rfl

theorem parse_nodes (mode : Mode) (text : String) : (Forest.parse mode text).nodes =
    (Parse.members .eof (Reading.start mode text).cursor).1 := rfl

theorem parse_keywordsSeen (mode : Mode) (text : String) :
    (Forest.parse mode text).keywords = (finalReading mode text).keywordsSeen := rfl

theorem parse_commentsSeen (mode : Mode) (text : String) :
    (Forest.parse mode text).comments = (finalReading mode text).commentsSeen := rfl

theorem significant_interpretation (text : String) :
    significant .interpretation text = significant .editor text := by
  rw [significant, significant, lex_interpretation, List.filter_filter]
  refine List.filter_congr fun t _ => ?_
  cases hc : t.kind.isComment <;> simp [Token.isSignificant, hc]

theorem mem_significant : t ∈ significant mode text ↔
    t ∈ lex mode text ∧ t.kind.isComment = false ∧ t.kind ≠ .eof := by
  simp [significant, Token.isSignificant]

theorem significant_spec (mode : Mode) (text : String) :
    Token.InOrder 0 (significant mode text) text.utf8ByteSize ∧
      ∀ t ∈ significant mode text, t.Of text := by
  obtain ⟨ts, hts, hord, hall⟩ := lex_spec mode text
  have heq : significant mode text = ts.filter Token.isSignificant := by
    rw [significant, hts, List.filter_append]
    simp [Token.isSignificant, Token.eof]
  rw [heq]
  exact ⟨hord.filter _, fun t ht => hall t (List.mem_filter.mp ht).1⟩

theorem eof_mem_lex (mode : Mode) (text : String) : .eof text.utf8ByteSize ∈ lex mode text := by
  obtain ⟨ts, hts, -⟩ := lex_spec mode text
  simp [hts]

/-- **A text is read to its end**: its forest is a reading of all its significant tokens. -/
theorem parse_reads (mode : Mode) (text : String) :
    Reads .taken (Reading.start mode text).cursor (Forest.parse mode text).nodes []
        (finalReading mode text).cursor ∧
      (Reading.start mode text).cursor.Takes (significant mode text)
        (finalReading mode text).cursor ∧
      (finalReading mode text).cursor.atEnd = true := by
  obtain ⟨hr, hstop⟩ := Parse.members_reads (c := (Reading.start mode text).cursor) .eof
  have hr : Reads .taken (Reading.start mode text).cursor (Forest.parse mode text).nodes []
    (finalReading mode text).cursor := hr
  obtain ⟨ts, ht⟩ := hr.takes
  have htokens : significant mode text = ts ++ (finalReading mode text).cursor.ahead := ht.ahead
  have hend : (finalReading mode text).cursor.atEnd = true := by
    rcases hstop with hk | he
    · -- no token ahead is of the kind of the end
      cases he : (finalReading mode text).cursor.atEnd with
      | true => rfl
      | false =>
        obtain ⟨us, ha⟩ := Cursor.ahead_eq_cons he
        have hm : (finalReading mode text).cursor.current ∈ significant mode text := by
          rw [htokens, ha]
          simp
        exact absurd hk ((significant_spec mode text).2 _ hm).kind_ne
    · exact he
  -- with nothing ahead, the tokens taken are all of them
  rw [Cursor.ahead_eq_nil hend, List.append_nil] at htokens
  exact ⟨hr, htokens ▸ ht, hend⟩

/-! ## Constructs cover stretches of the text -/

/-- The offsets at which a token that is no comment begins or ends, and the start of the text. -/
def IsOffset (mode : Mode) (text : String) (offset : Nat) : Prop :=
  offset = 0 ∨ ∃ t ∈ lex mode text, t.kind.isComment = false ∧ (offset = t.begin ∨ offset = t.stop)

/-- All constructs of the forest, a parent before its parts. -/
def Forest.subtrees (f : Forest) : List Node := f.nodes.flatMap Node.subtrees

theorem Forest.subtrees_subset {f : Forest} {n : Node} (hn : n ∈ f.subtrees) :
    n.subtrees ⊆ f.subtrees := by
  obtain ⟨top, htop, hn⟩ := List.mem_flatMap.mp hn
  exact fun m hm => List.mem_flatMap.mpr ⟨top, htop, Node.subtrees_subset hn hm⟩

theorem Forest.holes_eq_filter (f : Forest) : f.holes = f.subtrees.filter Node.isHole := by
  rw [Forest.holes, holesOf, Forest.subtrees, List.filter_flatMap]
  exact List.flatMap_congr fun n _ => n.holes_eq_filter

/-- The marks of a text are offsets of its tokens and positions of the text. -/
theorem start_placed (mode : Mode) (text : String) : (Reading.start mode text).cursor.Placed
    fun o => IsOffset mode text o ∧ String.Pos.Raw.IsValid text ⟨o⟩ := by
  obtain ⟨hord, hof⟩ := significant_spec mode text
  refine ⟨hord, ⟨.inl rfl, String.Pos.Raw.isValid_zero⟩, ⟨?_, String.Pos.Raw.isValid_rawEndPos⟩, ?_⟩
  · exact .inr ⟨_, eof_mem_lex mode text, rfl, .inl rfl⟩
  · intro t ht
    obtain ⟨hlex, hc, -⟩ := mem_significant.mp ht
    exact ⟨⟨.inr ⟨t, hlex, hc, .inl rfl⟩, (hof t ht).begin_valid⟩,
      ⟨.inr ⟨t, hlex, hc, .inr rfl⟩, (hof t ht).stop_valid⟩⟩

/-- What a turn of the top level keeps: the constructs so far stand in order up to the limit. -/
structure Standing (mark : Nat → Prop) (ns : List Node) (c : Cursor) : Prop where
  placed : c.Placed mark
  within : ∀ n ∈ ns, n.Within mark 0 (c.limit .taken)
  chain : ns.IsChain fun a b => a.stop ≤ b.begin

theorem Standing.turn {mark : Nat → Prop} {ns : List Node} {c c' : Cursor} {n : Node}
    (h : Standing mark ns c) (he : c.atEnd = false) (hr : Reads .taken c [n] [] c') :
    Standing mark (ns ++ [n]) c' := by
  obtain ⟨ts, ht⟩ := hr.takes
  have hn : n.Within mark c.lastStop (c'.limit .taken) := hr.within h.placed n (by simp)
  have hlim := h.placed.limit_le ht .taken
  refine ⟨(h.placed.takes ht).1, ?_, ?_⟩
  · intro m hm
    rcases List.mem_append.mp hm with hm | hm
    · exact (h.within m hm).widen (Nat.le_refl _) hlim
    · rw [List.mem_singleton.mp hm]
      exact hn.widen (Nat.zero_le _) (Nat.le_refl _)
  · refine List.isChain_append.mpr ⟨h.chain, List.isChain_singleton n, ?_⟩
    -- what stands before reaches no further than the last token taken
    intro a ha b hb
    obtain rfl : n = b := by simpa using hb
    have hle := (h.within a (List.mem_of_getLast? ha)).le_hi
    rw [Cursor.limit_taken he] at hle
    exact Nat.le_trans hle hn.lo_le

/-- At the end of the reading all constructs of the file stand in order. -/
theorem parse_standing (mode : Mode) (text : String) :
    Standing (fun o => IsOffset mode text o ∧ String.Pos.Raw.IsValid text ⟨o⟩)
      (Forest.parse mode text).nodes (finalReading mode text).cursor := by
  let I := Standing fun o => IsOffset mode text o ∧ String.Pos.Raw.IsValid text ⟨o⟩
  have hstart : I [] (Reading.start mode text).cursor := ⟨start_placed mode text, by simp, .nil⟩
  have hturn : ∀ ns c n c', I ns c → c.atEnd = false → Reads .taken c [n] [] c' →
      I (ns ++ [n]) c' := fun _ _ _ _ h he hr => h.turn he hr
  exact (Parse.members_ensures hturn hstart).1

/-- Each construct of a file lies well in its text. -/
theorem parse_nests {n : Node} (hn : n ∈ (Forest.parse mode text).subtrees) :
    n.Nests fun o => IsOffset mode text o ∧ String.Pos.Raw.IsValid text ⟨o⟩ := by
  obtain ⟨top, htop, hsub⟩ := List.mem_flatMap.mp hn
  exact ((parse_standing mode text).within top htop).nests n hsub

/-- **Every forest is well formed**, whatever the text: each construct has a span in the text
between offsets of tokens and around its parts, each combination joins a construct with at
least one hole and with holes only, and the constructs of the file do not overlap. -/
theorem parse_wellFormed (mode : Mode) (text : String) :
    (∀ n ∈ (Forest.parse mode text).subtrees,
      n.Nests (IsOffset mode text) ∧ n.stop ≤ text.utf8ByteSize ∧
        String.Pos.Raw.IsValid text ⟨n.begin⟩ ∧ String.Pos.Raw.IsValid text ⟨n.stop⟩) ∧
      (Forest.parse mode text).nodes.IsChain fun a b => a.stop ≤ b.begin := by
  refine ⟨?_, (parse_standing mode text).chain⟩
  intro n hn
  have hw := parse_nests hn
  have hv := hw.stop_mark.2.le_utf8ByteSize
  exact ⟨⟨hw.begin_mark.1, hw.stop_mark.1, hw.begin_le_stop, hw.children_inside, hw.holes⟩,
    hv, hw.begin_mark.2, hw.stop_mark.2⟩

end MudEdit
