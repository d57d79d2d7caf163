import MudEdit.Proofs.Grammar.Reads
import MudEdit.Proofs.Node.Span
import MudEdit.Proofs.Token.Order

/-!
# Where the constructs of a reading lie

Between two cursors every construct lies at or after the end of what was taken before,
and it reaches no further than the `limit` of the second cursor. That limit is the end of
what has been taken, with two exceptions. A construct may note the beginning of the
current token without taking it (`Reach.ahead`), and at the end of the text nothing comes
after that could overlap.
-/

namespace MudEdit

variable {mark : Nat → Prop} {r : Reach} {c c' c₁ : Cursor} {ns hs : List Node}

namespace Cursor

/-- How far the constructs read so far may reach. -/
def limit : Reach → Cursor → Nat
  | .taken, c | .flat, c => if c.atEnd then c.textEnd else c.lastStop
  | .ahead, c => c.current.begin

theorem limit_of_atEnd (h : c.atEnd = true) (r : Reach) : c.limit r = c.textEnd := by
  cases r with
  | taken | flat => exact if_pos h
  | ahead => rw [limit, current_of_atEnd h]; rfl

theorem limit_depth (depth : Nat) : limit r { c with depth } = c.limit r := by cases r <;> rfl

theorem limit_taken (h : c.atEnd = false) : c.limit .taken = c.lastStop := if_neg (by simp [h])

namespace Placed

theorem lastStop_le_limit (h : c.Placed mark) (r : Reach) : c.lastStop ≤ c.limit r := by
  cases he : c.atEnd with
  | true => rw [limit_of_atEnd he]; exact h.order.le
  | false =>
    cases r with
    | taken | flat => exact Nat.le_of_eq (limit_taken he).symm
    | ahead => exact h.lastStop_le_current

theorem limit_taken_le (h : c.Placed mark) : c.limit .taken ≤ c.limit .ahead := by
  cases he : c.atEnd with
  | true => exact Nat.le_of_eq (by rw [limit_of_atEnd he, limit_of_atEnd he])
  | false => rw [limit_taken he]; exact h.lastStop_le_current

theorem limit_taken_le_limit (h : c.Placed mark) (r : Reach) : c.limit .taken ≤ c.limit r := by
  cases r with
  | ahead => exact h.limit_taken_le
  | taken | flat => exact Nat.le_refl _

theorem limit_le_current (h : c.Placed mark) (r : Reach) : c.limit r ≤ c.current.begin := by
  cases r with
  | ahead => exact Nat.le_refl _
  | taken | flat => exact h.limit_taken_le

theorem limit_le_textEnd (h : c.Placed mark) (r : Reach) : c.limit r ≤ c.textEnd := by
  cases r with
  | taken | flat => exact Nat.le_trans h.limit_taken_le h.current_le_textEnd.1
  | ahead => exact h.current_le_textEnd.1

/-- The limit moves on with the tokens taken. -/
theorem limit_le {ts : List Token} (h : c.Placed mark) (ht : c.Takes ts c') (r : Reach) :
    c.limit r ≤ c'.limit r := by
  obtain ⟨hp, hle, hb, -⟩ := h.takes ht
  cases r with
  | ahead => exact hb
  | taken | flat =>
    show c.limit .taken ≤ c'.limit .taken
    cases he : c.atEnd with
    | true => exact Nat.le_of_eq (by rw [(ht.eq_of_atEnd he).2])
    | false =>
      rw [limit_taken he]
      exact Nat.le_trans hle (hp.lastStop_le_limit _)

/-- Once the current token is taken, or at the end of the text, its beginning is no limit. -/
theorem ahead_le_limit {ts : List Token} (h : c.Placed mark) (ht : c.Takes ts c')
    (hc : c'.left < c.left ∨ c'.atEnd = true) : c.limit .ahead ≤ c'.limit .taken := by
  obtain ⟨hp, -, hb, hl⟩ := h.takes ht
  rcases hc with hc | hc
  · exact Nat.le_trans (Nat.le_of_lt (hl hc).1) (hp.lastStop_le_limit _)
  · -- nothing reaches beyond the end of the text
    rw [limit_of_atEnd hc, ht.textEnd]
    exact h.limit_le_textEnd _

end Placed

end Cursor

/-! ## The constructs of a reading -/

/-- A kind without parts or a plain one is no combination. -/
theorem NodeKind.not_combination {kind : NodeKind}
    (h : kind.children = [] ∨ ∃ r, kind.isPlain r = true) (p : Node) (hs : List Node) :
    kind ≠ .combination p hs := by
  intro heq
  subst heq
  simp [children, isPlain] at h

namespace Reads

/-- Only holes are put aside. -/
theorem isHole_of_mem (h : Reads r c ns hs c') : ∀ g ∈ hs, g.isHole = true := by
  induction h with
  | append _ _ ih₁ ih₂ | settle _ _ _ ih₁ ih₂ | record _ _ _ _ _ _ _ ih₁ ih₂ =>
    exact List.forall_mem_append.mpr ⟨ih₁, ih₂⟩
  | loosen _ ih | embed _ ih | deeper _ ih | reorder _ _ _ ih | construct _ _ _ _ _ _ ih
  | operatorName _ _ _ _ _ ih => exact ih
  | fileType _ _ _ _ _ _ _ _ _ _ ih => exact ih
  | aside _ h => simpa using h
  | nil | word | leaf | missing | wrong | combine => simp

/-- Constructs read one after the other lie between the outermost of their bounds. -/
theorem within_append {ms gs : List Node} {lo lo' hi hi' : Nat}
    (h : ∀ n ∈ ns ++ hs, n.Within mark lo hi) (h' : ∀ n ∈ ms ++ gs, n.Within mark lo' hi')
    (hl : lo ≤ lo') (hh : hi ≤ hi') :
    ∀ n ∈ (ns ++ ms) ++ (hs ++ gs), n.Within mark lo hi' := by
  intro n hn
  simp only [List.mem_append] at hn h h'
  rcases hn with (hn | hn) | (hn | hn)
  · exact (h n (.inl hn)).widen (Nat.le_refl _) hh
  · exact (h' n (.inl hn)).widen hl (Nat.le_refl _)
  · exact (h n (.inr hn)).widen (Nat.le_refl _) hh
  · exact (h' n (.inr hn)).widen hl (Nat.le_refl _)

/-- A construct without parts, from a token taken up to the last one. -/
theorem word_within {kind : NodeKind} {ts : List Token} (hc : c.Placed mark)
    (he : c.atEnd = false) (ht : c.skip.Takes ts c') (hk : kind.children = []) :
    (Node.new c.current.begin c'.lastStop kind).Within mark c.lastStop (c'.limit r) := by
  obtain ⟨hs, hlt⟩ := hc.skip he
  obtain ⟨hp, hle, -⟩ := hs.takes ht
  have hlim := hp.lastStop_le_limit r
  exact Node.new_within hc.current_mark.1 hp.lastStop_mark hc.lastStop_le_current (by omega) hlim
    (by simp [hk]) fun p hs h => absurd h (NodeKind.not_combination (.inl hk) p hs)

/-- A construct lies where its parts lie, and the tokens taken with them. -/
theorem construct_within {begin stop : Nat} {kind : NodeKind} {ts : List Token}
    (hc : c.Placed mark) (ht : c.Takes ts c') (hk : kind.isPlain r = true)
    (hbegin : (begin = c.current.begin ∧ (r = .ahead ∨ c'.left < c.left)) ∨
      (∃ n ∈ kind.children, begin = n.begin))
    (hstop : (stop = c'.lastStop ∨ stop = c.current.stop ∧ c'.left < c.left) ∨
      (∃ n ∈ kind.children, stop = n.begin ∨ stop = n.stop))
    (hparts : ∀ n ∈ kind.children, n.Within mark c.lastStop (c'.limit r)) :
    (Node.new begin stop kind).Within mark c.lastStop (c'.limit r) := by
  obtain ⟨hp, hle, hb, hlt⟩ := hc.takes ht
  have hlim := hp.lastStop_le_limit
  -- its two offsets are marks, the first is not before `c`, neither is beyond the limit
  refine Node.new_within ?_ ?_ ?_ ?_ ?_ hparts
    fun p hs h => absurd h (NodeKind.not_combination (.inr ⟨_, hk⟩) p hs)
  · rcases hbegin with ⟨rfl, -⟩ | ⟨n, hn, rfl⟩
    · exact hc.current_mark.1
    · exact (hparts n hn).self.begin_mark
  · rcases hstop with (rfl | ⟨rfl, -⟩) | ⟨n, hn, rfl | rfl⟩
    · exact hp.lastStop_mark
    · exact hc.current_mark.2
    · exact (hparts n hn).self.begin_mark
    · exact (hparts n hn).self.stop_mark
  · rcases hbegin with ⟨rfl, -⟩ | ⟨n, hn, rfl⟩
    · exact hc.lastStop_le_current
    · exact (hparts n hn).lo_le
  · rcases hbegin with ⟨rfl, rfl | hl⟩ | ⟨n, hn, rfl⟩
    · exact hb
    · exact Nat.le_trans (Nat.le_of_lt (hlt hl).1) (hlim _)
    · exact Nat.le_trans (hparts n hn).self.begin_le_stop (hparts n hn).le_hi
  · rcases hstop with (rfl | ⟨rfl, hl⟩) | ⟨n, hn, rfl | rfl⟩
    · exact hlim _
    · exact Nat.le_trans (hlt hl).2 (hlim _)
    · exact Nat.le_trans (hparts n hn).self.begin_le_stop (hparts n hn).le_hi
    · exact (hparts n hn).le_hi

/-- **Every construct of a reading is well placed** after what was taken and before the limit. -/
theorem within (h : Reads r c ns hs c') (hc : c.Placed mark) :
    ∀ n ∈ ns ++ hs, n.Within mark c.lastStop (c'.limit r) := by
  induction h with
  | nil => simp
  | append h₁ h₂ ih₁ ih₂ =>
    obtain ⟨ts, ht₁⟩ := h₁.takes
    obtain ⟨us, ht₂⟩ := h₂.takes
    obtain ⟨hp, hle, -⟩ := hc.takes ht₁
    exact within_append (ih₁ hc) (ih₂ hp) hle (hp.limit_le ht₂ _)
  | settle h₁ h₂ hl ih₁ ih₂ =>
    obtain ⟨ts, ht₁⟩ := h₁.takes
    obtain ⟨us, ht₂⟩ := h₂.takes
    obtain ⟨hp, hle, -⟩ := hc.takes ht₁
    exact within_append (ih₁ hc) (ih₂ hp) hle (hp.ahead_le_limit ht₂ hl)
  | loosen h ih =>
    obtain ⟨ts, ht⟩ := h.takes
    obtain ⟨hp, -⟩ := hc.takes ht
    exact fun n hn => (ih hc n hn).widen (Nat.le_refl _) hp.limit_taken_le
  | embed _ ih => exact ih hc
  | deeper _ ih =>
    -- the depth has no part in where a construct lies
    rw [Cursor.limit_depth]
    exact ih ⟨hc.order, hc.lastStop_mark, hc.textEnd_mark, hc.ahead_mark⟩
  | word => simp
  | leaf he hk =>
    obtain ⟨hp, hlt⟩ := hc.skip he
    have hs := Cursor.lastStop_skip he
    have hl := hc.lastStop_le_current
    have hlim := hp.lastStop_le_limit
    have hch := NodeKind.children_of_isLeaf (Token.isLeaf_of_leaf hk)
    intro n hn
    obtain rfl : n = _ := by simpa using hn
    refine Node.new_within hc.current_mark.1 hc.current_mark.2 hl ?_ ?_ (by simp [hch])
      fun p hs h => absurd h (NodeKind.not_combination (.inl hch) p hs)
    · exact Nat.le_trans (Nat.le_of_lt hlt) (hlim _)
    · exact hs ▸ hlim _
  | missing =>
    intro n hn
    obtain rfl : n = _ := by simpa using hn
    exact .leaf rfl hc.lastStop_mark hc.lastStop_mark (Nat.le_refl _) (Nat.le_refl _)
      (hc.lastStop_le_limit _)
  | wrong _ he =>
    obtain ⟨hp, hlt⟩ := hc.skip he
    have hs := Cursor.lastStop_skip he
    intro n hn
    obtain rfl : n = _ := by simpa using hn
    exact .leaf rfl hc.current_mark.1 hc.current_mark.2 (Nat.le_of_lt (hs ▸ hlt))
      hc.lastStop_le_current (hs ▸ hp.lastStop_le_limit _)
  | reorder _ hperm _ ih =>
    intro n hn
    refine ih hc n ?_
    rw [List.mem_append] at hn ⊢
    exact hn.imp_left hperm.mem_iff.mpr
  | aside _ _ ih => simpa using ih hc
  | combine h _ ih =>
    have hall := ih hc
    simp only [List.singleton_append, List.forall_mem_cons] at hall
    simpa using Node.combine_within hall.1 hall.2 h.isHole_of_mem
  | construct h hk hbegin hstop _ _ ih =>
    obtain ⟨ts, ht⟩ := h.takes
    obtain ⟨hparts, hholes⟩ := List.forall_mem_append.mp (ih hc)
    refine List.forall_mem_append.mpr ⟨?_, hholes⟩
    exact List.forall_mem_singleton.mpr (construct_within hc ht hk hbegin hstop hparts)
  | @record r c c₁ c' ns ms hs gs stop kind h₁ hl h₂ hch hk hstop _ ih₁ ih₂ =>
    obtain ⟨ts, ht₁⟩ := h₁.takes
    obtain ⟨us, ht₂⟩ := h₂.takes
    obtain ⟨hp, hle, -⟩ := hc.takes ht₁
    have hlim : c₁.limit .flat ≤ c'.limit r := Nat.le_trans (hp.limit_le ht₂ .flat)
      ((hp.takes ht₂).1.limit_taken_le_limit r)
    have hall := within_append (ih₁ hc) (ih₂ hp) hle hlim
    obtain ⟨hparts, hholes⟩ := List.forall_mem_append.mp hall
    have hlt : c'.left < c.left := Nat.lt_of_le_of_lt h₂.left_le hl
    refine List.forall_mem_append.mpr ⟨List.forall_mem_singleton.mpr ?_, hholes⟩
    exact construct_within hc (ht₁.trans ht₂) hk (.inl ⟨rfl, .inr hlt⟩)
      (.inl (hstop.imp_right fun heq => ⟨heq, hlt⟩)) (hch ▸ hparts)
  | operatorName text _ he hk h ih =>
    obtain ⟨ts, ht⟩ := h.takes
    obtain ⟨hs, -⟩ := hc.skip he
    have hle := (hc.takes (Cursor.takes_skip he)).2.1
    refine List.forall_mem_append.mpr ⟨?_, fun g hg => (ih hs g hg).widen hle (Nat.le_refl _)⟩
    rw [List.forall_mem_singleton]
    exact word_within hc he ht rfl
  | fileType basic he hk h₁ ht hall h₂ hu hno ih₁ ih₂ =>
    obtain ⟨us, ht₁⟩ := h₁.takes
    have hpath := ht₁.trans ht
    obtain ⟨hp, hle, -⟩ := hc.takes ((Cursor.takes_skip he).trans hpath)
    refine List.forall_mem_append.mpr ⟨?_, fun g hg => (ih₂ hp g hg).widen hle (Nat.le_refl _)⟩
    rw [List.forall_mem_singleton]
    exact word_within hc he (hpath.trans hu) rfl

/-- Holes that are found after a token was taken begin after what begins at that token. -/
theorem precedes {r' : Reach} {n : Node} {ms gs ns : List Node} (h₁ : Reads r' c ms gs c₁)
    (hl : c₁.left < c.left) (h₂ : Reads r c₁ ns hs c') (hn : n.begin ≤ c.current.begin) :
    n.Precedes c hs := by
  refine .inr fun mark hc h hmem => ?_
  obtain ⟨ts, ht⟩ := h₁.takes
  obtain ⟨hp, -, -, hlt⟩ := hc.takes ht
  have hb := (hlt hl).1
  have hw := (h₂.within hp h (List.mem_append_right _ hmem)).lo_le
  omega

/-! ## Constructs that start with a word -/

section Words

variable {k : TokenKind} {kind : NodeKind} {stop : Nat}

/-- What is read behind a word begins behind it. -/
theorem headed (hk : k.leavesNoTrace = true) (h : c.kind = k)
    (parts : Reads r c.skip kind.children hs c') : kind.Headed c c.current.begin := by
  intro _ mark hc n hn
  obtain ⟨hskip, hlt⟩ := hc.skip (atEnd_of_word hk h)
  have hle := (parts.within hskip n (List.mem_append_left _ hn)).lo_le
  exact Nat.lt_of_lt_of_le hlt hle

/-- A construct that starts with a word and ends with the last token taken. -/
theorem worded (hp : kind.isPlain r = true) (hk : k.leavesNoTrace = true) (h : c.kind = k)
    (parts : Reads r c.skip kind.children hs c') (hn : kind.isRecorded = false) :
    Reads r c [.new c.current.begin c'.lastStop kind] hs c' := by
  have hl := left_lt_of_word hk h parts
  exact .construct ((of_word hk h).append parts) hp (.inl ⟨rfl, .inr hl⟩) (.inl (.inl rfl)) hn
    (headed hk h parts)

/-- A construct that starts with a word and ends with one of its parts. -/
theorem wordedUpTo (hp : kind.isPlain r = true) (hk : k.leavesNoTrace = true) (h : c.kind = k)
    (parts : Reads r c.skip kind.children hs c') (he : ∃ n ∈ kind.children, stop = n.stop)
    (hn : kind.isRecorded = false) :
    Reads r c [.new c.current.begin stop kind] hs c' := by
  have hl := left_lt_of_word hk h parts
  obtain ⟨n, hm, rfl⟩ := he
  exact .construct ((of_word hk h).append parts) hp (.inl ⟨rfl, .inr hl⟩)
    (.inr ⟨n, hm, .inr rfl⟩) hn (headed hk h parts)

end Words

end Reads

end MudEdit
