import MudEdit.Proofs.Program.Agreement
import MudEdit.Proofs.Program.Declared
import MudEdit.Proofs.Token.Scanned

/-!
# Names are no reserved words

The lexer reads a reserved word as a keyword, so no name that it reads is one, and the name of an
operator has a sign in it. The names of a forest are these, and programs declare names of their
forests. So no name that can be seen anywhere is a reserved word.
-/

namespace MudEdit

variable {mode : Mode} {text word : String} {t : Token} {n m : Node} {ns hs : List Node}
  {r : Reach} {c c' : Cursor} {all : List Token}

/-! ## Of a text -/

/-- The token is no name, or one that is not reserved. -/
def Token.Unreserved (t : Token) : Prop := t.kind = .identifier → reservedWord? t.text = none

/-- A word that is scanned as a name is not reserved. -/
theorem Scanned.unreserved {at_ : Nat} {cs : List Char} {ts : List Token}
    (h : Scanned at_ cs ts) : ∀ t ∈ ts, t.Unreserved := by
  induction h with
  | blank => simp
  | token _ _ hl _ _ ih =>
    refine List.forall_mem_cons.mpr ⟨fun hk => ?_, ih⟩
    obtain ⟨text, hpayload, hnone⟩ := Lexeme.read_unreserved hl hk
    rwa [Token.text, Token.text?, Token.ofLexeme, hpayload]

/-- No significant token is a name spelled like a reserved word. -/
theorem significant_unreserved (mode : Mode) (text : String) :
    ∀ t ∈ significant mode text, t.Unreserved := by
  have heditor : ∀ t ∈ significant .editor text, t.Unreserved := by
    obtain ⟨ts, hts, hscanned⟩ := lex_scanned text
    intro t ht
    obtain ⟨hlex, -, hne⟩ := mem_significant.mp ht
    rw [hts] at hlex
    rcases List.mem_append.mp hlex with hlex | heof
    · exact hscanned.unreserved t hlex
    · exact absurd (List.mem_singleton.mp heof ▸ rfl) hne
  cases mode with
  | editor => exact heditor
  | interpretation => rwa [significant_interpretation]

/-! ## Of a forest -/

/-- A leaf that is a name is that of its token. -/
theorem Token.name_of_leaf (h : t.leaf? = some (.name word)) :
    t.kind = .identifier ∧ t.text = word := by
  unfold leaf? at h
  split at h
  · rename_i hk
    injection h with h
    injection h with h
    exact ⟨hk, h⟩
  · cases h
  · unfold Parse.literal? at h
    split at h <;> first
      | cases h
      | (injection h with h; split at h <;> cases h)

/-- No name in the tree is reserved. -/
def Node.Unreserved (n : Node) : Prop :=
  ∀ m ∈ n.subtrees, ∀ word, m.kind = .name word → reservedWord? word = none

namespace Node

/-- A construct that is no name is as unreserved as its parts. -/
theorem unreserved_of_children (hkind : ∀ word, n.kind ≠ .name word)
    (h : ∀ m ∈ n.children, m.Unreserved) : n.Unreserved :=
  forall_mem_subtrees.mpr ⟨fun word hk => absurd hk (hkind word), h⟩

/-- A construct without parts is unreserved if it is no reserved name. -/
theorem unreserved_of_leaf (hchildren : n.children = [])
    (h : ∀ word, n.kind = .name word → reservedWord? word = none) : n.Unreserved :=
  forall_mem_subtrees.mpr ⟨h, by simp [hchildren]⟩

/-- Holes bring no names along. -/
theorem unreserved_combine (hn : n.Unreserved) (hhs : ∀ h ∈ hs, h.Unreserved) :
    (n.combine hs).Unreserved := by
  unfold combine
  split
  · exact hn
  · exact unreserved_of_children nofun (List.forall_mem_cons.mpr ⟨hn, hhs⟩)

end Node

theorem NodeKind.ne_name_of_isPlain {kind : NodeKind} (h : kind.isPlain r = true) (word : String) :
    kind ≠ .name word := by
  rintro rfl
  cases h

/-- Names are made of words that are not reserved, and of operators. -/
theorem unreserved_kept (hall : ∀ t ∈ all, t.Unreserved) :
    Reads.Kept all fun _ ns => ∀ n ∈ ns, n.Unreserved where
  nil := by simp
  append h₁ h₂ := List.forall_mem_append.mpr ⟨h₁, h₂⟩
  perm h hp := fun n hn => h n (hp.mem_iff.mpr hn)
  word _ _ _ := by simp
  -- a name is a leaf with the text of its token
  leaf {c kind} hc he hl := by
    have hch := NodeKind.children_of_isLeaf (Token.isLeaf_of_leaf hl)
    refine List.forall_mem_singleton.mpr (Node.unreserved_of_leaf hch fun word hk => ?_)
    obtain rfl : kind = .name word := hk
    obtain ⟨hid, rfl⟩ := Token.name_of_leaf hl
    exact hall _ (hc.current_mem he) hid
  missing _ _ := List.forall_mem_singleton.mpr (Node.unreserved_of_leaf rfl nofun)
  wrong _ _ _ := List.forall_mem_singleton.mpr (Node.unreserved_of_leaf rfl nofun)
  combine h := by
    obtain ⟨hn, hhs⟩ := List.forall_mem_cons.mp h
    exact List.forall_mem_singleton.mpr (Node.unreserved_combine hn hhs)
  plain hk h := by
    obtain ⟨hparts, hholes⟩ := List.forall_mem_append.mp h
    exact List.forall_mem_cons.mpr
      ⟨Node.unreserved_of_children (NodeKind.ne_name_of_isPlain hk) hparts, hholes⟩
  operatorName _ _ _ hnone := List.forall_mem_singleton.mpr
    (Node.unreserved_of_leaf rfl fun _ hk => NodeKind.name.inj hk ▸ hnone)
  fileType _ _ _ _ _ _ _ _ _ _ :=
    List.forall_mem_singleton.mpr (Node.unreserved_of_leaf rfl nofun)

/-- **A reading makes no name of a reserved word.** -/
theorem Reads.unreserved (h : Reads r c ns hs c') (hc : c.In all)
    (hall : ∀ t ∈ all, t.Unreserved) : ∀ n ∈ ns ++ hs, n.Unreserved := by
  obtain ⟨_, -, h⟩ := (unreserved_kept hall).reads h hc
  exact h

/-- **No name of a forest is reserved.** -/
theorem parse_unreserved (hn : n ∈ (Forest.parse mode text).subtrees)
    (hword : n.nameText? = some word) : reservedWord? word = none := by
  obtain ⟨hr, -, -⟩ := parse_reads mode text
  have hin : (Reading.start mode text).cursor.In (significant mode text) := rfl
  have hall := hr.unreserved hin (significant_unreserved mode text)
  obtain ⟨m, hm, hsub⟩ := List.mem_flatMap.mp hn
  -- holes aside, the node is a name
  have hname : n.primary.kind = .name word := by
    unfold Node.nameText? at hword
    split at hword
    · rename_i hk
      rw [hk, Option.some.inj hword]
    · cases hword
  have hprimary := Node.subtrees_subset hsub n.mem_subtrees_primary
  exact hall m (List.mem_append_left _ hm) _ hprimary word hname

/-! ## Of a program -/

/-- What a construct declares is the name of one of its parts. -/
theorem Node.exists_title {x : Nat × String} (h : n.declaration? = some x ∨ n.formal? = some x) :
    ∃ title ∈ n.children, title.nameText? = some x.2 := by
  obtain ⟨begin, stop, kind⟩ := n
  have hpart {title : Node} (hmem : title ∈ kind.children)
      (hx : title.nameText?.map (begin, ·) = some x) :
      ∃ title ∈ kind.children, title.nameText? = some x.2 := by
    obtain ⟨word, hword, rfl⟩ := Option.map_eq_some_iff.mp hx
    exact ⟨title, hmem, hword⟩
  rcases h with h | h
  · cases kind with
    | variableDef | functionDef | classDef => exact hpart (by simp [NodeKind.children]) h
    | _ => cases h
  · cases kind with
    | parameter type title =>
      cases title with
      | some title => exact hpart (by simp [NodeKind.children]) h
      | none => cases h
    | _ => cases h

/-- A formal is the name of a parameter. -/
theorem Node.exists_formal {x : Nat × String} (h : x ∈ n.formals) :
    ∃ p ∈ n.children, p.formal? = some x := by
  obtain ⟨begin, stop, kind⟩ := n
  cases kind with
  | functionDef mods returns title parameters variadic body =>
    cases body with
    | some body =>
      obtain ⟨p, hp, hx⟩ := List.mem_filterMap.mp h
      exact ⟨p, by simp [Node.children, Node.kind, NodeKind.children, hp], hx⟩
    | none => cases h
  | _ => cases h

/-- No declaration is named by a reserved word. -/
theorem declarations_unreserved {x : Nat × String}
    (h : x ∈ (Forest.parse mode text).declarations) : reservedWord? x.2 = none := by
  obtain ⟨n, hn, hx⟩ := List.mem_flatMap.mp h
  obtain ⟨p, hp, htitle⟩ : ∃ p ∈ (Forest.parse mode text).subtrees,
      p.declaration? = some x ∨ p.formal? = some x := by
    rcases List.mem_append.mp hx with hx | hx
    · exact ⟨n, hn, .inl (Option.mem_toList.mp hx)⟩
    · obtain ⟨p, hp, hx⟩ := Node.exists_formal hx
      exact ⟨p, Forest.subtrees_subset hn (Node.mem_subtrees_child hp), .inr hx⟩
  obtain ⟨title, hmem, hword⟩ := Node.exists_title htitle
  exact parse_unreserved (Forest.subtrees_subset hp (Node.mem_subtrees_child hmem)) hword

/-- **A program declares no reserved word**, in any of its scopes. -/
theorem resolve_unreserved (library : Library) (stamp : Nat) (fileName : Option String)
    (mode : Mode) (text : String) (id : Nat) (d : Definition)
    (hd : d ∈ ((resolve library stamp fileName (Forest.parse mode text).nodes).program.scope
      id).definitions) : reservedWord? d.name = none := by
  have hperm := (resolve_keeps_declarations library stamp fileName mode text).2.1
  -- a scope that is not there has no definitions
  by_cases hid : (resolve library stamp fileName
    (Forest.parse mode text).nodes).program.scopes.size ≤ id
  · rw [Program.scope_of_size_le hid] at hd
    cases hd
  obtain ⟨home, hget, hhome⟩ :=
    resolve_keeps_home library stamp fileName mode text (Nat.lt_of_not_le hid)
  obtain ⟨x, hx, hdefine⟩ := List.mem_filterMap.mp hd
  have htitle : (x.1, d.name) ∈ home.names :=
    hhome.titles.subset (List.mem_filterMap.mpr ⟨x, hx, by rw [titleAt?, hdefine]; rfl⟩)
  have hnames := List.mem_flatMap.mpr ⟨home, List.mem_of_getElem? hget, htitle⟩
  exact declarations_unreserved (hperm.subset hnames)

theorem Program.Resolved.topLevel_unreserved {p : Program} (h : p.Resolved) {d : Definition}
    (hd : d ∈ p.topLevel) : reservedWord? d.name = none := by
  cases h with
  | resolve stamp fileName mode => exact resolve_unreserved _ stamp fileName mode _ 0 d hd

/-- **No name that can be seen is reserved**, in a program that is resolved against programs. -/
theorem visible_unreserved {library : Library} (stamp : Nat) (fileName : Option String)
    (hlibrary : ∀ path p, library path = some p → p.Resolved) {offset : Nat} {d : Definition}
    (hd : d ∈ (resolve library stamp fileName
      (Forest.parse mode text).nodes).program.visibleDefinitions offset) :
    reservedWord? d.name = none := by
  have hown := resolve_unreserved library stamp fileName mode text
  have hlinked {l : Link} {q : Program} (hq : q ∈ (resolve library stamp fileName
      (Forest.parse mode text).nodes).program.linked l) : q.Resolved := by
    obtain ⟨name, hname⟩ := Program.exists_library_of_linked hq
    exact hlibrary name q hname
  generalize (resolve library stamp fileName (Forest.parse mode text).nodes).program = p
    at hd hown hlinked
  unfold Program.visibleDefinitions at hd
  obtain ⟨new, heq, hnew⟩ := (Program.gains_seeLinks p _).append
  rw [heq] at hd
  rcases List.mem_append.mp hd with hd | hd
  · -- what is declared around the offset
    have hbefore : ∀ d ∈ (p.scopesFrom (p.scopeAt offset)).flatMap fun id =>
        (p.scope id).definitionsBefore offset, reservedWord? d.name = none := by
      intro d hd
      obtain ⟨id, -, hd⟩ := List.mem_flatMap.mp hd
      exact hown id d ((p.scope id).definitionsBefore_subset offset hd)
    obtain ⟨own, hseen, hall⟩ := Program.Sight.addAll_append (s := ⟨[], []⟩) hbefore
    rw [hseen, List.nil_append] at hd
    exact hall d hd
  · obtain ⟨l, q, hq, path, r, hroute, hd⟩ := hnew d hd
    exact ((hlinked hq).route hroute).topLevel_unreserved hd

end MudEdit
