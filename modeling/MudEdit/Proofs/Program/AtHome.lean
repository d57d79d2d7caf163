import MudEdit.Proofs.Program.Confined
import MudEdit.Proofs.Program.Innermost
import MudEdit.Proofs.Program.Whole

/-!
# Names at home

A declaration belongs to one scope, its home. In a file that was read without holes, the place of
a declared name is in the home of the declaration, unless that is a parameter, whose home begins
behind it. Whatever scope is further in has nothing before the end of the name: it was opened for a
class whose name this is, or for a statement that tries what the name is in. So the name is found
at home, if the search comes there.
-/

namespace MudEdit

variable {n m k title : Node} {x : Nat × String} {word : String} {offset id s : Nat}
  {mode : Mode} {text : String}

/-! ## Where something is declared -/

/-- No two constructs of a text declare something at one place. -/
theorem eq_of_mark (hn : n ∈ (Forest.parse mode text).subtrees)
    (hm : m ∈ (Forest.parse mode text).subtrees) (hx : n.mark? = some x) (hy : m.mark? = some y)
    (heq : x.1 = y.1) : n = m := by
  by_contra hne
  have : Std.Symm Node.Unlike := ⟨fun _ _ => Node.Unlike.symm⟩
  obtain ⟨hnt, hnb⟩ := Node.begin_mark? hx
  obtain ⟨hmt, hmb⟩ := Node.begin_mark? hy
  obtain ⟨hnr, hnk⟩ := Node.isRecorded_of_isTitled hnt
  obtain ⟨hmr, hmk⟩ := Node.isRecorded_of_isTitled hmt
  refine (parse_subtrees_unlike mode text).forall hn hm hne hnr hmr (.inr ⟨hnk, hmk⟩) ?_
  rw [← hnb, ← hmb, heq]

/-- Of two constructs in order, what the second one holds is declared behind the first. -/
theorem behind_of_spaced (hm : m ∈ (Forest.parse mode text).subtrees) (hs : n.Spaced m)
    (hx : x ∈ m.held) : n.stop ≤ x.1 := by
  rcases hs with hle | ⟨-, hflat, -⟩
  · obtain ⟨j, hj, hjx⟩ := Node.exists_of_mem_held hx
    have hin := Node.inside_of_subtree
      (fun l hl => parse_nests (Forest.subtrees_subset hm hl)) hj
    rw [(Node.begin_mark? (Node.mark_of_declaration hjx)).2]
    exact Nat.le_trans hle hin.1
  · rw [Node.held_vanishes.flat m hflat] at hx
    cases hx

/-! ## Scopes and what they were opened for -/

/-- The first definition of a name before an offset is the first one in the scope. -/
theorem Program.head?_ownNamed {p : Program} (h : p.ownNamed word offset id ≠ []) :
    (p.ownNamed word offset id).head? = (p.scope id).definitions.find? (·.name == word) := by
  have hprefix : p.ownNamed word offset id <+:
      (p.scope id).definitions.filter (·.name == word) :=
    ((List.takeWhile_prefix _).filterMap _).filter _
  obtain ⟨rest, hrest⟩ := hprefix
  obtain ⟨first, own, hcons⟩ := List.exists_cons_of_ne_nil h
  rw [← List.head?_filter, ← hrest, hcons]
  rfl

/-- A scope of a program was opened for a construct of the file. -/
structure Program.OpenedFor (f : Forest) (p : Program) (id : Nat) (k : Node) : Prop where
  mem : k ∈ f.subtrees
  opens : k.kind.opens = true
  titles : (p.scope id).titles.Perm k.home.names
  begin_eq : (p.scope id).begin = k.scopeNode.begin
  stop_eq : (p.scope id).stop = k.scopeNode.stop
  /-- The scopes in it are scopes of the file. -/
  homes : k.kind.inside.flatMap Node.homes ⊆ f.homes

section Text

variable (h : (Forest.parse mode text).holes = [])
include h

theorem parse_whole (hm : m ∈ (Forest.parse mode text).subtrees) :
    m.Whole (Forest.parse mode text).Tries := by
  obtain ⟨top, htop, hm⟩ := List.mem_flatMap.mp hm
  exact ⟨(parse_tidy h).1 top htop m hm, parse_proper mode text top htop m hm,
    (((parse_closing mode text).settled top htop).parts m hm).body⟩

/-- So are its parts. -/
theorem parse_whole_parts (hn : n ∈ (Forest.parse mode text).subtrees) :
    ∀ m ∈ n.subtrees, m.Whole (Forest.parse mode text).Tries :=
  fun _ hm => parse_whole h (Forest.subtrees_subset hn hm)

section Title

variable (hn : n ∈ (Forest.parse mode text).subtrees) (htitle : n.kind.title? = some title)
  (hname : title.kind = .name word) (hoffset : title.Has offset)
include hn htitle hname hoffset

/-- Nothing with a word or brace of its own, but the declaration itself, has an offset in the name
that is declared. -/
theorem eq_of_isHeaded (hin : m ∈ n.subtrees) (hm : m.kind.isHeaded = true)
    (hmoffset : m.Has offset) : m = n := by
  by_contra hne
  rw [Node.subtrees_eq, List.mem_cons, or_iff_right hne] at hin
  obtain ⟨c, hc, hin⟩ := List.mem_flatMap.mp hin
  have hcsub := Forest.subtrees_subset hn (Node.mem_subtrees_child hc)
  have hcoffset : c.Has offset := .of_subtree (parse_lined h hcsub) hin hmoffset
  by_cases heq : c = title
  · subst heq
    rw [Node.subtrees_eq, Node.children, hname] at hin
    obtain rfl : m = c := List.mem_singleton.mp hin
    rw [hname] at hm
    cases hm
  · -- the other parts are apart from the name
    have : Std.Symm Node.Apart := ⟨fun _ _ => Node.Apart.symm⟩
    have hapart : c.Apart title :=
      (parse_whole h hn).tidy.apart.forall hc (NodeKind.mem_of_title? htitle) heq
    obtain ⟨hcb, hce⟩ := hcoffset
    obtain ⟨htb, hte⟩ := hoffset
    rcases hapart with hle | hle <;> omega

/-- A construct around an offset in a name that is declared has something before the end of the
name only if the declaration lies in the scope of the construct. -/
theorem exists_inside (hk : k ∈ (Forest.parse mode text).subtrees) (ho : k.kind.opens = true)
    (hkoffset : k.scopeNode.Has offset) (hx : x ∈ k.home.names) (hlt : x.1 < title.stop) :
    ∃ c ∈ k.kind.inside, n ∈ c.subtrees := by
  have hwhole := parse_whole_parts h hk
  have htidy := (parse_whole h hn).tidy
  obtain ⟨hbegin, hstop⟩ := htidy.inside title (NodeKind.mem_of_title? htitle)
  -- what comes behind a part of it is not before the end of the name
  have hnot {m c : Node} (hm : m ∈ k.kind.inside) (hs : c.Spaced m) (hx : x ∈ m.held)
      (hle : title.stop ≤ c.stop) : False := by
    have hsub := Forest.subtrees_subset hk
      (Node.subtrees_part (List.mem_append_right _ hm) (Node.mem_subtrees_self m))
    have hbehind := behind_of_spaced hsub hs hx
    omega
  by_cases heq : k.scopeNode = n
  · -- the name of a class stands before all of its members
    obtain ⟨hself, members, hkind⟩ := Node.exists_class hwhole ho (heq ▸ htitle)
    obtain rfl : k = n := hself.symm.trans heq
    rw [Node.home, Node.formals, hkind] at hx
    obtain ⟨m, hm, hx⟩ := List.mem_flatMap.mp hx
    have horder := htidy.order
    rw [Node.children, hkind] at horder
    have hspaced := (List.pairwise_cons.mp horder).1 m hm
    exact (hnot (by rwa [hkind]) hspaced hx (Nat.le_refl _)).elim
  · have hscope := Forest.subtrees_subset hk k.scopeNode_mem_subtrees
    have hnoffset : n.Has offset :=
      ⟨Nat.le_trans hbegin hoffset.1, Nat.lt_of_lt_of_le hoffset.2 hstop⟩
    have hin : n ∈ k.scopeNode.subtrees := by
      refine (nested_of_has (parse_parts h).order (parse_nodes_lined h) hscope hn hkoffset
        hnoffset).resolve_left fun hin => heq ?_
      exact eq_of_isHeaded h hn htitle hname hoffset hin (Node.isHeaded_scopeNode hwhole ho)
        hkoffset
    rw [Node.subtrees_eq, List.mem_cons, or_iff_right (Ne.symm heq)] at hin
    obtain ⟨c, hc, hin⟩ := List.mem_flatMap.mp hin
    rcases Node.mem_inside_of_child hwhole ho hc with hc | hflat | ⟨exception, handler, hkind⟩
    · exact ⟨c, hc, hin⟩
    · have hnflat := Node.not_isFlat_of_title? htitle
      exact absurd (Node.isFlat_of_mem hflat hin) (by simp [hnflat])
    · -- it is tried, and what is caught comes later
      rw [Node.home, Node.formals, hkind] at hx
      obtain ⟨m, hm, hx⟩ := List.mem_flatMap.mp hx
      have horder := (hwhole k (Node.mem_subtrees_self k)).tidy.order
      rw [Node.children, hkind] at horder
      have hspaced := (List.pairwise_cons.mp horder).1 m hm
      have hinc := Node.inside_of_subtree (fun j hj => parse_nests (Forest.subtrees_subset hscope
        (Node.subtrees_subset (Node.mem_subtrees_child hc) hj))) hin
      exact (hnot (by rwa [hkind]) hspaced hx (Nat.le_trans hstop hinc.2)).elim

end Title

variable {p : Program} {library : Library} {stamp : Nat} {fileName : Option String}
  (hp : (resolve library stamp fileName (Forest.parse mode text).nodes).program = p)
include hp

/-- Every scope but the outermost was opened for a node of the text. -/
theorem exists_openedFor (hid : id < p.scopes.size) (hpos : 0 < id) :
    ∃ k, p.OpenedFor (Forest.parse mode text) id k := by
  subst hp
  obtain ⟨k, around, hchain, htitles, hspan⟩ :=
    resolve_opened mode text library stamp fileName hid hpos
  obtain ⟨hopens, hmem, -⟩ := parse_enclosure mode text hchain
  have hwhole := parse_whole_parts h hmem
  rw [(hwhole k (Node.mem_subtrees_self k)).core_eq] at htitles
  -- a text without holes has no unclosed body
  have hreach : k.scopeNode.reach = k.scopeNode.stop :=
    Node.reach_of_kind (hwhole _ k.scopeNode_mem_subtrees).tidy.whole
  obtain ⟨hbegin, hstop⟩ := Prod.mk.inj hspan
  refine ⟨k, hmem, hopens, htitles, hbegin, hstop.trans hreach, ?_⟩
  obtain ⟨top, htop, hchain⟩ := List.mem_flatMap.mp hchain
  have hhomes := Node.homes_of_enclosure (parse_proper mode text top htop) hchain
  rw [(hwhole k (Node.mem_subtrees_self k)).core_eq] at hhomes
  exact fun g hg => List.mem_cons_of_mem _ (List.mem_flatMap.mpr ⟨top, htop, hhomes hg⟩)

/-- What is in a scope is declared at the top of the file or in what the scope was opened for,
or it is a parameter of that. -/
theorem home_cases (hn : n ∈ (Forest.parse mode text).subtrees) (hx : n.mark? = some x)
    (hid : x ∈ (p.scope id).titles) :
    id = 0 ∧ n.declaration? = some x ∨
      id < p.scopes.size ∧ 0 < id ∧ ∃ k, p.OpenedFor (Forest.parse mode text) id k ∧
        (x ∈ k.formals ∨ n.declaration? = some x ∧ ∃ m ∈ k.kind.inside, n ∈ m.subtrees) := by
  -- what declares it is the construct
  have hself {m : Node} (hm : m ∈ (Forest.parse mode text).subtrees) (hheld : x ∈ m.held) :
      n ∈ m.subtrees ∧ n.declaration? = some x := by
    obtain ⟨j, hj, hjx⟩ := Node.exists_of_mem_held hheld
    have hj' := Forest.subtrees_subset hm hj
    obtain rfl := eq_of_mark hn hj' hx (Node.mark_of_declaration hjx) rfl
    exact ⟨hj, hjx⟩
  rcases Nat.eq_zero_or_pos id with rfl | hpos
  · left
    subst hp
    have hheld := (resolve_root mode text library stamp fileName).2.subset hid
    obtain ⟨top, htop, hheld⟩ := List.mem_flatMap.mp hheld
    have hmem : top ∈ (Forest.parse mode text).subtrees :=
      List.mem_flatMap.mpr ⟨top, htop, Node.mem_subtrees_self top⟩
    exact ⟨rfl, (hself hmem hheld).2⟩
  · right
    have hlt : id < p.scopes.size := Program.lt_of_mem_titles hid
    obtain ⟨k, hk⟩ := exists_openedFor h hp hlt hpos
    refine ⟨hlt, hpos, k, hk, ?_⟩
    rcases List.mem_append.mp (hk.titles.subset hid) with hformal | hheld
    · exact .inl hformal
    · obtain ⟨m, hm, hheld⟩ := List.mem_flatMap.mp hheld
      have hmem : m ∈ (Forest.parse mode text).subtrees := Forest.subtrees_subset hk.mem
        (Node.subtrees_part (List.mem_append_right _ hm) (Node.mem_subtrees_self m))
      obtain ⟨hin, hdeclares⟩ := hself hmem hheld
      exact .inr ⟨hdeclares, m, hm, hin⟩

/-- A declaration lies in its scope, and behind where that begins. -/
theorem home_of_declaration (hn : n ∈ (Forest.parse mode text).subtrees)
    (hx : n.declaration? = some x) (hid : x ∈ (p.scope id).titles) :
    id = 0 ∨ id < p.scopes.size ∧ 0 < id ∧
      (p.scope id).begin < n.begin ∧ n.stop ≤ (p.scope id).stop := by
  rcases home_cases h hp hn (Node.mark_of_declaration hx) hid with
    ⟨rfl, -⟩ | ⟨hlt, hpos, k, hk, hformal | ⟨-, m, hm, hin⟩⟩
  · exact .inl rfl
  · -- a parameter is declared by nothing else
    obtain ⟨mods, returns, title, parameters, variadic, body, hkind, q, hq, hqx⟩ :=
      Node.exists_of_mem_formals hformal
    have hmem : q ∈ k.children := by simp [Node.children, hkind, NodeKind.children, hq]
    obtain ⟨hmark, hnone⟩ := Node.mark_of_formal hqx
    have hsub := Forest.subtrees_subset hk.mem (Node.mem_subtrees_child hmem)
    obtain rfl := eq_of_mark hn hsub (Node.mark_of_declaration hx) hmark rfl
    rw [hnone] at hx
    cases hx
  · obtain ⟨-, -, hbegin, hstop⟩ :=
      Node.part_of_declared (parse_whole_parts h hk.mem) hk.opens hm hin hx
    have hsub : m.subtrees ⊆ (Forest.parse mode text).subtrees := fun j hj =>
      Forest.subtrees_subset hk.mem (Node.subtrees_part (List.mem_append_right _ hm) hj)
    obtain ⟨hb, he⟩ := Node.inside_of_subtree (fun j hj => parse_nests (hsub hj)) hin
    rw [hk.begin_eq, hk.stop_eq]
    exact .inr ⟨hlt, hpos, Nat.lt_of_lt_of_le hbegin hb, Nat.le_trans he hstop⟩

/-- A parameter ends before its scope begins. -/
theorem home_of_formal (hn : n ∈ (Forest.parse mode text).subtrees)
    (hx : n.formal? = some x) (hid : x ∈ (p.scope id).titles) :
    0 < id ∧ n.stop ≤ (p.scope id).begin := by
  obtain ⟨hmark, hnone⟩ := Node.mark_of_formal hx
  rcases home_cases h hp hn hmark hid with ⟨-, hsome⟩ | ⟨-, hpos, k, hk, hformal | ⟨hsome, -⟩⟩
  · rw [hnone] at hsome
    cases hsome
  · refine ⟨hpos, ?_⟩
    obtain ⟨mods, returns, title, parameters, variadic, body, hkind, q, hq, hqx⟩ :=
      Node.exists_of_mem_formals hformal
    have hmem : q ∈ k.children := by simp [Node.children, hkind, NodeKind.children, hq]
    have hsub := Forest.subtrees_subset hk.mem (Node.mem_subtrees_child hmem)
    obtain rfl := eq_of_mark hn hsub hmark (Node.mark_of_formal hqx).1 rfl
    -- the body comes behind all parameters
    have horder := (parse_whole h hk.mem).tidy.order
    rw [Node.children, hkind] at horder
    have hspaced : n.Spaced body := (List.pairwise_append.mp horder).2.2 n
      (List.mem_append_right _ hq) body (by simp)
    rw [hk.begin_eq, Node.scopeNode, hkind]
    have hflat : n.isFlat = false := by
      refine Node.not_isFlat_of_kind ?_
      obtain ⟨begin, stop, kind⟩ := n
      cases kind with
      | parameter => rfl
      | _ => cases hx
    exact hspaced.resolve_right fun hback => Bool.false_ne_true (hflat.symm.trans hback.1)
  · rw [hnone] at hsome
    cases hsome

/-- What is declared in a scope is at home there, or in a scope that begins further in. -/
theorem home_further_in {c : Node} (hk : p.OpenedFor (Forest.parse mode text) s k)
    (hc : c ∈ k.kind.inside) (hn : n ∈ c.subtrees) (hx : n.declaration? = some x)
    (hid : x ∈ (p.scope id).titles) : s = id ∨ (p.scope s).begin < (p.scope id).begin := by
  have hwhole := parse_whole_parts h hk.mem
  have hsub : c.subtrees ⊆ k.subtrees := fun j hj =>
    Node.subtrees_part (List.mem_append_right _ hc) hj
  have hdeclared : x ∈ c.declared := by
    refine List.mem_flatMap.mpr ⟨n, hn, List.mem_append_left _ ?_⟩
    rw [hx]
    exact List.mem_cons_self
  rcases List.mem_append.mp ((c.declared_perm fun j hj => (hwhole j (hsub hj)).proper).subset
    hdeclared) with hheld | hhome
  · left
    have hs : x ∈ (p.scope s).titles := hk.titles.symm.subset
      (List.mem_append_right _ (List.mem_flatMap.mpr ⟨c, hc, hheld⟩))
    subst hp
    exact eq_of_mem_titles library stamp fileName mode text hs hid
  · right
    obtain ⟨g, hg, hhome⟩ := List.mem_flatMap.mp hhome
    -- a scope in the part begins no earlier than the part
    obtain ⟨j, hj, rfl⟩ := Node.exists_of_mem_homes hg
    have hin := Node.inside_of_subtree
      (fun l hl => parse_nests (Forest.subtrees_subset hk.mem (hsub hl)))
      (Node.subtrees_subset hj j.scopeNode_mem_subtrees)
    obtain ⟨-, -, hbegin, -⟩ := Node.part_of_declared hwhole hk.opens hc hn hx
    subst hp
    obtain ⟨i, hkeeps⟩ := exists_keeps library stamp fileName mode text
      (hk.homes (List.mem_flatMap.mpr ⟨c, hc, hg⟩))
    have hi := hkeeps.titles.symm.subset hhome
    obtain rfl := eq_of_mem_titles library stamp fileName mode text hi hid
    rw [hk.begin_eq, hkeeps.begin]
    exact Nat.lt_of_lt_of_le hbegin hin.1

section Title

variable (hn : n ∈ (Forest.parse mode text).subtrees) (htitle : n.kind.title? = some title)
  (hname : title.kind = .name word) (hoffset : title.Has offset)
  (hid : (n.begin, word) ∈ (p.scope id).titles)
include hn htitle hname hoffset hid

/-- Of the scopes around the offset, none further in than the home of the declaration has
anything before the end of the name. -/
theorem eq_home {s : Nat} (hs : s ∈ p.scopesFrom (p.scopeAt offset)) (hin : id ∈ p.scopesFrom s)
    (hx : x ∈ (p.scope s).titles) (hlt : x.1 < title.stop) : s = id := by
  have hnested : p.outline.Nested _ := hp ▸ resolve_nested h library stamp fileName
  rcases Nat.eq_zero_or_pos s with rfl | hpos
  · rw [hnested.scopesFrom_root, List.mem_singleton] at hin
    exact hin.symm
  have hsize : s < p.scopes.size := Program.lt_of_mem_titles hx
  obtain ⟨k, hk⟩ := exists_openedFor h hp hsize hpos
  have hkoffset : k.scopeNode.Has offset := by
    have hcontains := hnested.contains_of_mem_scopeAt hs hpos
    rw [Scope.contains_iff, hk.begin_eq, hk.stop_eq] at hcontains
    exact ⟨Nat.le_of_lt hcontains.1, hcontains.2⟩
  obtain ⟨c, hc, hnc⟩ := exists_inside h hn htitle hname hoffset hk.mem hk.opens hkoffset
    (hk.titles.subset hx) hlt
  refine (home_further_in h hp hk hc hnc (Node.declaration_of_title htitle hname) hid).resolve_right
    fun hfurther => ?_
  -- but the scopes around a scope begin no later
  rcases Nat.eq_zero_or_pos id with rfl | hidpos
  · subst hp
    rw [(resolve_root mode text library stamp fileName).1] at hfurther
    omega
  · have := (hnested.inside_of_mem hin hidpos hsize).1
    omega

/-- The name stands for the first definition of it in its home, unless a statement tries what that
is in. -/
theorem found_at_home : (Forest.parse mode text).Tries (p.scope id).begin (p.scope id).stop ∨
    ∃ first, (p.scope id).definitions.find? (·.name == word) = some first ∧
      ∀ v, (p.identifiers word v (p.scopeAt offset) title.stop).head? = some first := by
  have hnested : p.outline.Nested _ := hp ▸ resolve_nested h library stamp fileName
  have hordered : p.Ordered := hp ▸ resolve_ordered library stamp fileName _
  have hdeclares := Node.declaration_of_title htitle hname
  obtain ⟨hbegin, hstop⟩ := (parse_whole h hn).tidy.inside title (NodeKind.mem_of_title? htitle)
  obtain ⟨hleft, hright⟩ := hoffset
  -- the search comes to the home
  have haround : id ∈ p.scopesFrom (p.scopeAt offset) ∨
      (Forest.parse mode text).Tries (p.scope id).begin (p.scope id).stop := by
    rcases home_of_declaration h hp hn hdeclares hid with rfl | ⟨hlt, hpos, hb, he⟩
    · exact .inl (hnested.root_mem_scopesFrom hnested.scopeAt_lt)
    · refine hnested.scopeAt_innermost (fun _ _ _ _ ht => ht.narrow) hlt ?_
      simp only [Scope.contains_iff]
      omega
  refine haround.symm.imp_right fun haround => ?_
  have hown : p.ownNamed word title.stop id ≠ [] := by
    rw [(hordered id).titles_eq] at hid
    obtain ⟨d, hd, hdtitle⟩ := List.mem_map.mp hid
    obtain ⟨hdbegin, hdname⟩ := Prod.mk.inj hdtitle
    refine List.ne_nil_of_mem (a := d) (List.mem_filter.mpr ⟨?_, by simpa using hdname⟩)
    exact (Scope.mem_definitionsBefore (hordered id)).mpr ⟨hd, by omega⟩
  -- and nothing further in has the name
  obtain ⟨s, hs, hin, hne, hfound⟩ :=
    hnested.firstFound_scopesFrom haround hown hnested.scopeAt_lt
  obtain ⟨e, he⟩ := List.exists_mem_of_ne_nil _ hne
  obtain ⟨hemem, helt⟩ :=
    (Scope.mem_definitionsBefore (hordered s)).mp (List.mem_filter.mp he).1
  have hetitle : e.title ∈ (p.scope s).titles := by
    rw [(hordered s).titles_eq]
    exact List.mem_map_of_mem hemem
  obtain rfl := eq_home h hp hn htitle hname ⟨hleft, hright⟩ hid hs hin hetitle helt
  obtain ⟨first, rest, hcons⟩ := List.exists_cons_of_ne_nil hne
  refine ⟨first, ?_, fun v => ?_⟩
  · rw [← Program.head?_ownNamed hne, hcons]
    rfl
  · rw [Program.identifiers, hfound, hcons]
    rfl

end Title

/-- The search for an offset in a parameter does not come to its home, which begins behind it. -/
theorem not_around_formal (hn : n ∈ (Forest.parse mode text).subtrees) (hx : n.formal? = some x)
    (hid : x ∈ (p.scope id).titles) (hlt : offset < n.stop) :
    id ∉ p.scopesFrom (p.scopeAt offset) := by
  intro haround
  have hnested : p.outline.Nested _ := hp ▸ resolve_nested h library stamp fileName
  obtain ⟨hpos, hle⟩ := home_of_formal h hp hn hx hid
  have hcontains := hnested.contains_of_mem_scopeAt haround hpos
  rw [Scope.contains_iff] at hcontains
  omega

end Text

end MudEdit
