import MudEdit.Proofs.Forest.Content
import MudEdit.Proofs.Grammar.Share
import MudEdit.Proofs.Node.Path

/-!
# What is found at an offset of a text

An offset inside a token is in one construct at most of every level. A hole that a construct was
joined with may lie in it, but a wrong hole has a token of its own, and a missing one lies at the
end of one. So the path to an offset inside an identifier comes to the name that it is.
-/

namespace MudEdit

variable {mode : Mode} {text : String} {n m : Node} {t u : Token} {offset : Nat}

/-! ## Inside a token -/

/-- No token that is read begins or ends inside another one. -/
theorem IsOffset.outside (h : IsOffset mode text offset) (ht : t ∈ significant mode text) :
    offset ≤ t.begin ∨ t.stop ≤ offset := by
  have hord := (significant_spec mode text).1
  obtain ⟨-, hlt, hle⟩ := hord.within t ht
  rcases h with rfl | ⟨u, hu, hcomment, hoffset⟩
  · exact .inl (Nat.zero_le _)
  -- the offset is the end of the text, or an end of a token that lies apart from `t` or is `t`
  · by_cases hk : u.kind = .eof
    · obtain ⟨ts, hts, -, hof⟩ := lex_spec mode text
      rw [hts] at hu
      rcases List.mem_append.mp hu with hu | hu
      · exact absurd hk (hof u hu).kind_ne
      · rw [List.mem_singleton.mp hu] at hoffset
        have heof : offset = text.utf8ByteSize := hoffset.elim id id
        exact .inr (heof ▸ hle)
    · have hu : u ∈ significant mode text := mem_significant.mpr ⟨hu, hcomment, hk⟩
      have hlt' := (hord.within u hu).2.1
      by_cases heq : u = t
      · subst heq
        omega
      · rcases hord.disjoint hu ht heq with h | h <;> omega

/-- What contains an offset inside a token has all of it. -/
theorem spans_of_contains (h : n.Nests (IsOffset mode text)) (ht : t ∈ significant mode text)
    (hc : n.contains offset = true) (hbegin : t.begin < offset) (hstop : offset < t.stop) :
    n.spans t = true := by
  rw [Node.contains, Bool.and_eq_true, decide_eq_true_iff, decide_eq_true_iff] at hc
  have hlo := h.begin_mark.outside ht
  have hhi := h.stop_mark.outside ht
  exact Node.spans_iff.mpr ⟨by omega, by omega⟩

/-- Of constructs that share no token one at most contains an offset inside a token. -/
theorem sole_of_shareless {ns : List Node} (ht : t ∈ significant mode text)
    (hbegin : t.begin < offset) (hstop : offset < t.stop)
    (h : ns.Pairwise (Node.Shareless (significant mode text)))
    (hns : ∀ n ∈ ns, n.Nests (IsOffset mode text)) : Sole offset ns :=
  h.imp_of_mem fun ha hb hshare hand =>
    hshare t ht ⟨spans_of_contains (hns _ ha) ht hand.1 hbegin hstop,
      spans_of_contains (hns _ hb) ht hand.2 hbegin hstop⟩

/-! ## The tokens among the constructs of a text -/

theorem parse_offsets (hn : n ∈ (Forest.parse mode text).subtrees) :
    n.Nests (IsOffset mode text) := by
  have h := parse_nests hn
  exact ⟨h.begin_mark.1, h.stop_mark.1, h.begin_le_stop, h.children_inside, h.holes⟩

theorem parse_divides (mode : Mode) (text : String) :
    Divided (significant mode text) (Forest.parse mode text).nodes [] := by
  obtain ⟨hord, hof⟩ := significant_spec mode text
  exact (parse_reads mode text).1.divided hord (fun u hu => (hof u hu).fits) rfl
    (start_placed mode text)

theorem parse_divided (hn : n ∈ (Forest.parse mode text).subtrees) :
    n.Divided (significant mode text) := by
  obtain ⟨top, htop, hsub⟩ := List.mem_flatMap.mp hn
  exact (parse_divides mode text).below top (List.mem_append_left _ htop) n hsub

/-- One construct at most shows an identifier. -/
theorem eq_of_represents (ht : t ∈ significant mode text) (hk : t.kind = .identifier)
    (hn : n ∈ (Forest.parse mode text).subtrees) (hm : m ∈ (Forest.parse mode text).subtrees)
    (hnt : n.represents t = true) (hmt : m.represents t = true) : n = m := by
  obtain ⟨hr, hall, -⟩ := parse_reads mode text
  obtain ⟨hord, hof⟩ := significant_spec mode text
  obtain ⟨ts, hts, hshows⟩ := hr.shows hord (fun u hu => (hof u hu).fits) rfl
  obtain rfl := hall.unique hts
  have hcount := hshows t ht (by rw [hk]; rfl)
  rw [List.append_nil, List.nodup_iff_count_eq_one.mp hord.nodup t ht, Node.tally,
    List.countP_eq_length_filter] at hcount
  obtain ⟨x, hx⟩ := List.length_eq_one_iff.mp hcount
  have heq {k : Node} (hk : k ∈ (Forest.parse mode text).subtrees) (hkt : k.represents t = true) :
      k = x := List.mem_singleton.mp (hx ▸ List.mem_filter.mpr ⟨hk, hkt⟩)
  rw [heq hn hnt, heq hm hmt]

/-! ## Inside a name -/

section Name

variable {name : String} (hn : n ∈ (Forest.parse mode text).subtrees) (hname : n.kind = .name name)
  (ht : t ∈ significant mode text) (hk : t.kind = .identifier) (hb : n.begin = t.begin)
  (hbegin : t.begin < offset) (hstop : offset < t.stop)

include hn hname ht hk hb hbegin hstop

/-- No hole contains an offset inside a name. -/
theorem not_contains_of_isHole (hm : m ∈ (Forest.parse mode text).subtrees)
    (hole : m.isHole = true) : m.contains offset = false := by
  obtain ⟨hr, hall, -⟩ := parse_reads mode text
  obtain ⟨hord, hof⟩ := significant_spec mode text
  obtain ⟨ts, hts, hreports⟩ := hr.reports hord (fun u hu => (hof u hu).fits) rfl
  rw [List.append_nil] at hreports
  have htells := hreports.tells m hm
  refine Bool.eq_false_iff.mpr fun hc => ?_
  have hspans := Node.spans_iff.mp (spans_of_contains (parse_offsets hm) ht hc hbegin hstop)
  unfold Node.isHole at hole
  split at hole
  · -- a missing hole is empty
    rename_i e hkind
    have := (htells.missing e hkind).1
    omega
  · -- a wrong one would show the identifier as well as the name does
    rename_i e found hkind
    obtain ⟨u, hu, hub, hus, hfound⟩ := htells.wrong e found hkind
    have heq : u = t := by
      by_contra hne
      have := (hord.within u hu).2.1
      rcases hord.disjoint hu ht hne with h | h <;> omega
    subst heq
    have hmt : m.represents u = true := by
      rw [Node.represents, hkind]
      simp [Node.isAt, hub, hus, hfound]
    have hnt := (parse_divided hn).named name hname u ht hk hb
    rw [eq_of_represents ht hk hn hm hnt hmt, hkind] at hname
    cases hname
  · cases hole

/-- Of the parts of a construct one at most contains an offset inside a name. -/
theorem sole_children (hm : m ∈ (Forest.parse mode text).subtrees) : Sole offset m.children := by
  have hpart {c : Node} (hc : c ∈ m.children) : c ∈ (Forest.parse mode text).subtrees :=
    Forest.subtrees_subset hm (Node.mem_subtrees_child hc)
  -- holes do not reach inside a token; other children do not overlap
  by_cases hcomb : ∃ p gs, m.kind = .combination p gs
  · obtain ⟨p, gs, hkind⟩ := hcomb
    have hchildren : m.children = p :: gs := by rw [Node.children, hkind]; rfl
    have hnone : ∀ g ∈ gs, g.contains offset = false := by
      intro g hg
      have hmem : g ∈ m.children := hchildren ▸ List.mem_cons_of_mem _ hg
      exact not_contains_of_isHole hn hname ht hk hb hbegin hstop (hpart hmem)
        (((parse_offsets hm).holes p gs hkind).2 g hg)
    rw [hchildren]
    refine List.pairwise_cons.mpr ⟨fun g hg hand => ?_, List.pairwise_of_forall_mem_list ?_⟩
    · exact Bool.false_ne_true ((hnone g hg).symm.trans hand.2)
    · exact fun g hg _ _ hand => Bool.false_ne_true ((hnone g hg).symm.trans hand.1)
  · have hapart := (parse_divided hm).apart fun p gs hkind => hcomb ⟨p, gs, hkind⟩
    exact sole_of_shareless ht hbegin hstop hapart fun c hc => parse_offsets (hpart hc)

end Name

/-- **The path to an offset** starts at the top level and goes from child to child, as long as one
of them contains it. Inside an identifier that is a name of the forest it ends at this name. -/
theorem pathAt_finds (mode : Mode) (text : String) :
    (∀ n ∈ (Forest.parse mode text).subtrees, ∀ name, n.kind = .name name →
      ∀ t ∈ lex mode text, t.kind = .identifier → n.begin = t.begin → n.stop = t.stop →
        ∀ offset, t.begin < offset → offset < t.stop →
          (pathAt (Forest.parse mode text).nodes offset).getLast? = some n) ∧
    ∀ offset, LeadsTo offset (Forest.parse mode text).nodes
      (pathAt (Forest.parse mode text).nodes offset) := by
  refine ⟨fun n hn name hname t hlex hk hb hs offset hbegin hstop => ?_,
    fun offset => leadsTo_pathAt offset _⟩
  have ht : t ∈ significant mode text := mem_significant_of_content hlex (by rw [hk]; rfl)
  have hsole {m : Node} (hm : m ∈ (Forest.parse mode text).subtrees) : Sole offset m.children :=
    sole_children hn hname ht hk hb hbegin hstop hm
  have htop : Sole offset (Forest.parse mode text).nodes :=
    sole_of_shareless ht hbegin hstop (parse_divides mode text).apart fun top htop =>
      parse_offsets (List.mem_flatMap.mpr ⟨top, htop, Node.mem_subtrees_self top⟩)
  have hcontains : n.contains offset = true := by
    rw [Node.contains, hb, hs, Bool.and_eq_true, decide_eq_true_iff, decide_eq_true_iff]
    exact ⟨Nat.le_of_lt hbegin, Nat.le_of_lt hstop⟩
  have hleaf : n.children = [] := by rw [Node.children, hname]; rfl
  -- at every level one child at most contains the offset, so the way to the name is the only one
  have hway : ∀ top ∈ (Forest.parse mode text).nodes, top.OneWay (IsOffset mode text) offset := by
    intro top hmem m hm
    have hm : m ∈ (Forest.parse mode text).subtrees := List.mem_flatMap.mpr ⟨top, hmem, hm⟩
    exact ⟨parse_offsets hm, hsole hm⟩
  exact htop.getLast?_pathAt hway hn hleaf hcontains

end MudEdit
