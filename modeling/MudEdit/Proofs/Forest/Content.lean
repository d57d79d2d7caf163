import MudEdit.Proofs.Forest.Span
import MudEdit.Proofs.Grammar.Hole

/-!
# Nothing of a text is lost in its forest

Every name, literal and symbol of a text shows in its forest, and shows once: as a leaf, as a
wrong hole, or in the name of a file. Holes in turn stand for what is in the text.
-/

namespace MudEdit

variable {mode : Mode} {text : String} {t : Token}

/-- A token is the only one in its own span. -/
theorem Token.InOrder.filter_spans {lo hi : Nat} {ts : List Token} {n : Node}
    (h : Token.InOrder lo ts hi) (ht : t ∈ ts) (hb : n.begin = t.begin) (hs : n.stop = t.stop) :
    ts.filter n.spans = [t] := by
  have heq : ts.filter n.spans = ts.filter (· == t) := by
    refine List.filter_congr fun u hu => ?_
    have hlt := (h.within u hu).2.1
    rw [Bool.eq_iff_iff, Node.spans_iff, hb, hs, beq_iff_eq]
    constructor
    · intro hp
      obtain ⟨h₁, h₂⟩ := hp
      by_cases hut : u = t
      · exact hut
      · rcases h.disjoint hu ht hut with hd | hd <;> omega
    · intro heq
      subst heq
      exact ⟨Nat.le_refl _, Nat.le_refl _⟩
  rw [heq, List.filter_beq, List.nodup_iff_count_eq_one.mp h.nodup t ht]
  rfl

theorem filter_significant (p : Token → Bool) (hp : ∀ t, p t = true → t.kind = .string) :
    (significant mode text).filter p = (lex mode text).filter p := by
  rw [significant, List.filter_filter]
  refine List.filter_congr fun t _ => ?_
  cases h : p t with
  | false => rfl
  | true => simp [hp t h, Token.isSignificant, TokenKind.isComment]

/-- The only proper token in the span of a hole is the one that the hole is made of. -/
theorem lex_filter_spans {n : Node} (ht : t ∈ significant mode text) (hb : n.begin = t.begin)
    (hs : n.stop = t.stop) :
    (lex mode text).filter (fun u => u.kind != .eof && n.spans u) = [t] := by
  obtain ⟨hlex, -, hne⟩ := mem_significant.mp ht
  obtain ⟨ts, hts, hord, hof⟩ := lex_spec mode text
  have hproper : ts.filter (fun u => u.kind != .eof && n.spans u) = ts.filter n.spans := by
    refine List.filter_congr fun u hu => ?_
    simp [(hof u hu).kind_ne]
  have hm : t ∈ ts := by
    rw [hts] at hlex
    rcases List.mem_append.mp hlex with h | h
    · exact h
    · exact absurd (by rw [List.mem_singleton.mp h]; rfl) hne
  rw [hts, List.filter_append, hproper, hord.filter_spans hm hb hs]
  simp [Token.eof]

/-- At most one significant token has a given span. -/
theorem countP_span_le_one (mode : Mode) (text : String) (t : Token) :
    (significant mode text).countP (fun u => u.begin == t.begin && u.stop == t.stop) ≤ 1 := by
  have hord := (significant_spec mode text).1
  by_cases h : ∃ u ∈ significant mode text, u.begin = t.begin
  · obtain ⟨u, hu, hb⟩ := h
    rw [← List.nodup_iff_count_eq_one.mp hord.nodup u hu]
    refine List.countP_mono_left fun v hv hvt => ?_
    simp only [Bool.and_eq_true, beq_iff_eq] at hvt ⊢
    exact hord.eq_of_begin hv hu (hvt.1.trans hb.symm)
  · have hnone : (significant mode text).countP
        (fun u => u.begin == t.begin && u.stop == t.stop) = 0 := by
      refine List.countP_eq_zero.mpr fun v hv hvt => h ⟨v, hv, ?_⟩
      simp only [Bool.and_eq_true, beq_iff_eq] at hvt
      exact hvt.1
    omega

/-- What a node stands for, if it is a hole or carries the name of a file, in terms of all the
tokens of its text. -/
structure Node.StandsFor (tokens : List Token) (n : Node) : Prop where
  /-- A wrong hole covers one proper token, of the kind that was found. -/
  wrong : ∀ e found, n.kind = .wrong e found →
    ∃ t, tokens.filter (fun u => u.kind != .eof && n.spans u) = [t] ∧
      n.begin = t.begin ∧ n.stop = t.stop ∧ found = t.kind
  /-- A missing hole is empty, at the start of the text or at the end of a proper token. -/
  missing : ∀ e, n.kind = .missing e →
    n.begin = n.stop ∧ (n.begin = 0 ∨ ∃ t ∈ tokens, t.kind ≠ .eof ∧ n.begin = t.stop)
  /-- The name of a file is that of the strings in the span, put together. -/
  file : ∀ basic file, n.kind = .basicType basic (some file) →
    file = String.join ((tokens.filter fun t => t.kind == .string && n.spans t).map Token.text)

/-- Tokens with content are significant. -/
theorem mem_significant_of_content (ht : t ∈ lex mode text) (hk : t.kind.isContent = true) :
    t ∈ significant mode text := by
  refine mem_significant.mpr ⟨ht, ?_, ?_⟩
  · cases hc : t.kind <;> simp [TokenKind.isContent, TokenKind.isComment, hc] at hk ⊢
  · intro hc
    simp [TokenKind.isContent, hc] at hk

/-- What a node tells of the significant tokens is what it stands for among all of them. -/
theorem Node.Tells.standsFor {n : Node} (h : n.Tells (significant mode text)) :
    n.StandsFor (lex mode text) where
  wrong e found hk := by
    obtain ⟨t, ht, hb, hs, hfound⟩ := h.wrong e found hk
    exact ⟨t, lex_filter_spans ht hb hs, hb, hs, hfound⟩
  missing e hk := by
    obtain ⟨hempty, hplace⟩ := h.missing e hk
    refine ⟨hempty, hplace.imp_right ?_⟩
    intro hend
    obtain ⟨t, ht, hb⟩ := hend
    obtain ⟨hlex, -, hne⟩ := mem_significant.mp ht
    exact ⟨t, hlex, hne, hb⟩
  file basic file hk := by
    rw [h.file basic file hk, filter_significant]
    intro t hq
    simp only [Bool.and_eq_true, beq_iff_eq] at hq
    exact hq.1

/-- **No content of a text is lost or doubled.** Every name, literal and symbol is represented
by one node of the forest, every hole and every name of a file stands for what is in the text,
and no two wrong holes cover the same token. -/
theorem parse_represents (mode : Mode) (text : String) :
    (∀ t ∈ lex mode text, t.kind.isContent = true →
      (Forest.parse mode text).subtrees.countP (Node.represents t) = 1) ∧
    (∀ n ∈ (Forest.parse mode text).subtrees, n.StandsFor (lex mode text)) ∧
    ∀ t ∈ lex mode text, (Forest.parse mode text).subtrees.countP (Node.isWrongAt t) ≤ 1 := by
  obtain ⟨hr, hall, -⟩ := parse_reads mode text
  obtain ⟨hord, hof⟩ := significant_spec mode text
  have hin : (Reading.start mode text).cursor.In (significant mode text) := rfl
  have hfits : ∀ u ∈ significant mode text, Payload.Fits u.kind u.payload :=
    fun u hu => (hof u hu).fits
  obtain ⟨ts, hts, hshows⟩ := hr.shows hord hfits hin
  obtain rfl := hall.unique hts
  obtain ⟨us, hus, hreports⟩ := hr.reports hord hfits hin
  obtain rfl := hall.unique hus
  rw [List.append_nil] at hshows hreports
  -- what a token shows as, what a node stands for, and how often a token is wrong
  refine ⟨?_, fun n hn => (hreports.tells n hn).standsFor, ?_⟩
  · intro t ht hk
    have hm := mem_significant_of_content ht hk
    have hcount := hshows t hm hk
    rwa [List.nodup_iff_count_eq_one.mp hord.nodup t hm] at hcount
  · intro t _
    exact Nat.le_trans (hreports.once t) (countP_span_le_one mode text t)

end MudEdit
