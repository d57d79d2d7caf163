import MudEdit.Proofs.Program.Tally
import MudEdit.Proofs.Program.Unclosed

/-!
# Constructs without holes

What belongs to a scope was declared by some construct in the tree. Where there are no holes, that
is said of every construct at once: its parts are in order and behind the word or brace that it
starts with, and the body of a function is a block. So whatever is declared in the scope of a
construct stands in a part of what the scope covers, behind where that begins.
-/

namespace MudEdit

variable {n m k title : Node} {x : Nat × String} {word : String} {tried : Nat → Nat → Prop}

/-! ## What belongs to a scope, and where that is declared -/

/-- The name of what the construct declares. -/
def NodeKind.title? : NodeKind → Option Node
  | variableDef _ _ title _ | functionDef _ _ title _ _ _ | classDef title _ _ => some title
  | _ => none

/-- A title is one of the parts. -/
theorem NodeKind.mem_of_title? {kind : NodeKind} (h : kind.title? = some title) :
    title ∈ kind.children := by
  cases kind with
  | variableDef | functionDef | classDef =>
    obtain rfl := Option.some.inj h
    simp [children]
  | _ => cases h

theorem Node.nameText_of_kind (h : n.kind = .name word) : n.nameText? = some word := by
  obtain ⟨begin, stop, kind⟩ := n
  obtain rfl : kind = .name word := h
  rfl

theorem Node.declaration_of_title (h : n.kind.title? = some title) (hw : title.kind = .name word) :
    n.declaration? = some (n.begin, word) := by
  obtain ⟨begin, stop, kind⟩ := n
  have hname := nameText_of_kind hw
  cases kind with
  | variableDef | functionDef | classDef =>
    obtain rfl := Option.some.inj h
    exact congrArg (Option.map _) hname
  | _ => cases h

theorem Node.formal_of_parameter {type : Node} (h : n.kind = .parameter type (some title))
    (hw : title.nameText? = some word) : n.formal? = some (n.begin, word) := by
  obtain ⟨begin, stop, kind⟩ := n
  obtain rfl : kind = .parameter type (some title) := h
  exact congrArg (Option.map _) hw

theorem Node.not_isFlat_of_title? (h : n.kind.title? = some title) : n.isFlat = false := by
  refine not_isFlat_of_kind ?_
  cases hk : n.kind with
  | variableDef | functionDef | classDef => rfl
  | _ =>
    rw [hk] at h
    cases h

namespace Node

/-- What is held was declared somewhere in the tree. -/
theorem exists_of_mem_held (h : x ∈ n.held) : ∃ m ∈ n.subtrees, m.declaration? = some x := by
  induction n using induct_parts with
  | step n ih =>
    rw [held_eq, List.mem_append] at h
    rcases h with h | h
    · exact ⟨n, mem_subtrees_self n, Option.mem_toList.mp h⟩
    · obtain ⟨c, hc, h⟩ := List.mem_flatMap.mp h
      obtain ⟨m, hm, hx⟩ := ih c (List.mem_append_left _ hc) h
      exact ⟨m, subtrees_part (List.mem_append_left _ hc) hm, hx⟩

/-- Formals are the parameters of a function with a body. -/
theorem exists_of_mem_formals (h : x ∈ n.formals) :
    ∃ mods returns title parameters variadic body,
      n.kind = .functionDef mods returns title parameters variadic (some body) ∧
        ∃ q ∈ parameters, q.formal? = some x := by
  unfold formals at h
  split at h
  · exact ⟨_, _, _, _, _, _, ‹_›, List.mem_filterMap.mp h⟩
  · cases h

/-- A home is that of a construct in the tree. -/
theorem exists_of_mem_homes {h : Home} (hh : h ∈ n.homes) : ∃ k ∈ n.subtrees, h = k.home := by
  induction n using induct_parts with
  | step n ih =>
    have hpart {c : Node} (hc : c ∈ n.kind.outside ++ n.kind.inside) (hh : h ∈ c.homes) :
        ∃ k ∈ n.subtrees, h = k.home := by
      obtain ⟨k, hk, heq⟩ := ih c hc hh
      exact ⟨k, subtrees_part hc hk, heq⟩
    -- before the scope, its own, or within
    rw [homes_eq, List.mem_append, List.mem_append] at hh
    rcases hh with hh | hh | hh
    · obtain ⟨c, hc, hh⟩ := List.mem_flatMap.mp hh
      exact hpart (List.mem_append_left _ hc) hh
    · split at hh
      · exact ⟨n, mem_subtrees_self n, List.mem_singleton.mp hh⟩
      · cases hh
    · obtain ⟨c, hc, hh⟩ := List.mem_flatMap.mp hh
      exact hpart (List.mem_append_right _ hc) hh

/-- The scopes of what is walked are among those of the construct. -/
theorem homes_walked (hp : ∀ m ∈ n.subtrees, m.Proper) (hm : m ∈ n.kind.walked) :
    m.homes ⊆ n.homes := by
  intro h hh
  cases ho : n.kind.opens with
  | false =>
    rw [(held_homes_keeps hp ho).2]
    exact List.mem_flatMap.mpr ⟨m, hm, hh⟩
  | true =>
    rw [(held_homes_enters hp ho n.kind.walked_eq).2, List.mem_append, List.mem_cons]
    rw [n.kind.walked_eq, List.mem_append] at hm
    rcases hm with hm | hm
    · exact .inl (List.mem_flatMap.mpr ⟨m, hm, hh⟩)
    · exact .inr (.inr (List.mem_flatMap.mpr ⟨m, hm, hh⟩))

/-- So are the scopes in the scope of a construct that is listed among those of a tree. -/
theorem homes_of_enclosure (hp : ∀ m ∈ n.subtrees, m.Proper) {outside around : List Node}
    (hchain : k :: around ∈ n.enclosures outside) :
    k.core.kind.inside.flatMap homes ⊆ n.homes := by
  induction n using induct_walked generalizing outside with
  | step n ih =>
    have hpart {j : Node} {outside : List Node} (hj : j ∈ n.kind.outer ++ n.kind.inner)
        (hchain : k :: around ∈ j.enclosures outside) :
        k.core.kind.inside.flatMap homes ⊆ n.homes := by
      rw [← n.kind.walked_eq] at hj
      have hin := ih j hj (fun m hm => hp m (subtrees_walked hj hm)) hchain
      exact fun h hh => homes_walked hp hj (hin hh)
    rw [enclosures_eq, List.mem_append, List.mem_append, List.mem_flatMap, List.mem_flatMap]
      at hchain
    -- the chain starts outside of the scope, at the construct itself, or within
    rcases hchain with ⟨j, hj, hchain⟩ | hself | ⟨j, hj, hchain⟩
    · exact hpart (List.mem_append_left _ hj) hchain
    · split at hself
      · rename_i ho
        obtain ⟨rfl, -⟩ := List.cons.inj (List.mem_singleton.mp hself)
        rw [(held_homes_enters hp ho k.kind.walked_eq).2, (home_core hp ho k.kind.walked_eq).2]
        exact List.subset_append_of_subset_right _ (List.subset_cons_self ..)
      · cases hself
    · exact hpart (List.mem_append_right _ hj) hchain

/-- A declaration is marked as one. -/
theorem mark_of_declaration (h : n.declaration? = some x) : n.mark? = some x := by
  rw [mark?, h]
  rfl

/-- A parameter declares nothing by itself. -/
theorem mark_of_formal (h : n.formal? = some x) : n.mark? = some x ∧ n.declaration? = none := by
  obtain ⟨begin, stop, kind⟩ := n
  cases kind with
  | parameter type title => exact ⟨h, rfl⟩
  | _ => cases h

end Node

/-! ## Constructs without holes -/

namespace Node

/-- What is known of a construct in which there are no holes. -/
structure Whole (tried : Nat → Nat → Prop) (n : Node) : Prop where
  tidy : n.Tidy tried
  proper : n.Proper
  body : ∀ mods returns title parameters variadic body,
    n.kind = .functionDef mods returns title parameters variadic (some body) → body.isBlock = true

/-- A whole construct has no holes to look behind. -/
theorem Whole.core_eq (h : n.Whole tried) : n.core = n := by
  rcases n.core_cases with ⟨heq, -⟩ | ⟨hs, hk, -⟩
  · exact heq
  · exact absurd hk (h.tidy.whole _ _)

/-- A whole name is a name. -/
theorem Whole.kind_of_nameText (h : n.Whole tried) (hw : n.nameText? = some word) :
    n.kind = .name word := by
  unfold nameText? at hw
  rw [primary_of_kind h.tidy.whole] at hw
  split at hw
  · rw [← Option.some.inj hw]
    assumption
  · cases hw

section

variable (h : ∀ m ∈ n.subtrees, m.Whole tried)
include h

/-- What opens a scope has one. -/
theorem hasScope_of_opens (ho : n.kind.opens = true) : n.kind.hasScope = true := by
  rw [← opens_core, (h n (mem_subtrees_self n)).core_eq] at ho
  exact ho

/-- The scope of a function covers its body, which is a block; that of anything else covers the
construct, which begins with a word or a brace. -/
theorem scope_cases (ho : n.kind.opens = true) :
    (∃ mods returns title parameters variadic body statements,
      n.kind = .functionDef mods returns title parameters variadic (some body) ∧
        n.scopeNode = body ∧ body.kind = .block statements) ∨
    n.scopeNode = n ∧ n.kind.isHeaded = true ∧
      (n.kind.outside ++ n.kind.inside).Perm n.children := by
  have hwhole := h n (mem_subtrees_self n)
  have hscope := hasScope_of_opens h ho
  cases hk : n.kind with
  | functionDef mods returns title parameters variadic body =>
    cases body with
    | none =>
      rw [hk] at hscope
      cases hscope
    | some body =>
      -- the body of a whole function is a block without holes
      have hblock := hwhole.body _ _ _ _ _ _ hk
      have hmem : body ∈ n.children := by simp [children, hk, NodeKind.children]
      have hbody := (h body (mem_subtrees_child hmem)).tidy.whole
      refine .inl ⟨mods, returns, title, parameters, variadic, body, ?_⟩
      unfold isBlock at hblock
      split at hblock
      · exact ⟨_, rfl, by rw [scopeNode, hk], ‹_›⟩
      · exact absurd ‹_› (hbody _ _)
      · cases hblock
  | block | classDef | forLoop | foreachLoop | switchOn | tryCatch =>
    have hperm : (n.kind.outside ++ n.kind.inside).Perm n.kind.children :=
      NodeKind.outside_inside_perm (by simp [hk])
    rw [hk] at hperm
    exact .inr ⟨by rw [scopeNode, hk], rfl, by rwa [children, hk]⟩
  | _ =>
    rw [hk] at hscope
    cases hscope

/-- The scope begins with a word or a brace. -/
theorem isHeaded_scopeNode (ho : n.kind.opens = true) : n.scopeNode.kind.isHeaded = true := by
  rcases scope_cases h ho with ⟨_, _, _, _, _, body, statements, -, hself, hblock⟩ | ⟨hself, hk, -⟩
  · rw [hself, hblock]
    rfl
  · rwa [hself]

/-- What lies in the scope is a part of it, but for the parameters of a function. -/
theorem inside_cases (ho : n.kind.opens = true) (hm : m ∈ n.kind.inside) :
    m ∈ n.scopeNode.children ∨ (m.isFlat || m.kind.isParameter) = true := by
  have hproper := isProper_of_hasScope (h n (mem_subtrees_self n)).proper (hasScope_of_opens h ho)
  rcases scope_cases h ho with
    ⟨_, _, _, parameters, _, body, statements, hk, hself, hblock⟩ | ⟨hself, -, hperm⟩
  · rw [hk] at hm hproper
    rcases List.mem_append.mp hm with hm | hm
    · exact .inr (List.all_eq_true.mp (Bool.and_eq_true_iff.mp hproper).2 m hm)
    · rw [hself]
      obtain ⟨begin, stop, kind⟩ := body
      obtain rfl : kind = .block statements := hblock
      exact .inl hm
  · rw [hself]
    exact .inl (hperm.subset (List.mem_append_right _ hm))

/-- Of the parts of what covers the scope, those that do not lie in it are types and expressions,
or what a statement tries. -/
theorem mem_inside_of_child (ho : n.kind.opens = true) (hm : m ∈ n.scopeNode.children) :
    m ∈ n.kind.inside ∨ m.isFlat = true ∨
      ∃ exception handler, n.kind = .tryCatch m exception handler := by
  have hwhole := h n (mem_subtrees_self n)
  have hscope := hasScope_of_opens h ho
  rcases scope_cases h ho with
    ⟨_, _, _, parameters, _, body, statements, hk, hself, hblock⟩ | ⟨hself, hheaded, hperm⟩
  · rw [hself] at hm
    rw [hk]
    obtain ⟨begin, stop, kind⟩ := body
    obtain rfl : kind = .block statements := hblock
    exact .inl (List.mem_append_right _ hm)
  · rw [hself] at hm
    refine (List.mem_append.mp (hperm.symm.subset hm)).symm.imp_right fun hout => ?_
    -- it lies outside, where each construct has only what its head is made of
    cases hk : n.kind with
    | classDef title inherits members =>
      have hproper := isProper_of_hasScope hwhole.proper hscope
      rw [hk] at hout hproper hscope
      cases inherits with
      | some file => cases hscope
      | none =>
        obtain rfl := List.mem_singleton.mp hout
        exact .inl (List.all_eq_true.mp (Bool.and_eq_true_iff.mp hproper).1 _ List.mem_cons_self)
    | foreachLoop binding iterable body =>
      rw [hk] at hout
      obtain rfl := List.mem_singleton.mp hout
      exact .inl (hwhole.tidy.foreach_over _ _ _ hk)
    | switchOn value cases =>
      rw [hk] at hout
      obtain rfl := List.mem_singleton.mp hout
      exact .inl (hwhole.tidy.switch_over _ _ hk)
    | tryCatch body exception handler =>
      rw [hk] at hout
      obtain rfl := List.mem_singleton.mp hout
      exact .inr ⟨exception, handler, rfl⟩
    | block | forLoop =>
      rw [hk] at hout
      cases hout
    | _ =>
      rw [hk] at hheaded
      cases hheaded

/-- What declares something in the scope is in a part of it, and behind where the scope begins. -/
theorem part_of_declared (ho : n.kind.opens = true) (hm : m ∈ n.kind.inside)
    (hk : k ∈ m.subtrees) (hx : k.declaration? = some x) :
    m ∈ n.scopeNode.children ∧ m.isFlat = false ∧
      n.scopeNode.begin < m.begin ∧ m.stop ≤ n.scopeNode.stop := by
  -- nothing is declared in types and expressions, nor at a parameter
  have hnot {j : Node} (hj : j.isFlat = true) (hk : k ∈ j.subtrees) : False := by
    have hflat := isFlat_of_mem hj hk
    rw [declaration?_of_isFlat (isFlat_iff.mp hflat).1] at hx
    cases hx
  have hflat : (m.isFlat || m.kind.isParameter) = false := by
    rw [Bool.or_eq_false_iff]
    refine ⟨Bool.eq_false_iff.mpr fun hf => hnot hf hk, Bool.eq_false_iff.mpr fun hp => ?_⟩
    have hproper := (h m (subtrees_part (List.mem_append_right _ hm) (mem_subtrees_self m))).proper
    obtain ⟨begin, stop, kind⟩ := m
    cases kind with
    | parameter type title =>
      rw [subtrees_eq] at hk
      rcases List.mem_cons.mp hk with rfl | hk
      · cases hx
      · obtain ⟨j, hj, hk⟩ := List.mem_flatMap.mp hk
        exact hnot (List.all_eq_true.mp (hproper.isProper rfl) j hj) hk
    | _ => cases hp
  have hchild := (inside_cases h ho hm).resolve_right (by simp [hflat])
  have hscope := h n.scopeNode n.scopeNode_mem_subtrees
  exact ⟨hchild, (Bool.or_eq_false_iff.mp hflat).1,
    hscope.tidy.headed (isHeaded_scopeNode h ho) m hchild, (hscope.tidy.inside m hchild).2⟩

/-- What declares something and covers a scope is a class. -/
theorem exists_class (ho : n.kind.opens = true) (ht : n.scopeNode.kind.title? = some title) :
    n.scopeNode = n ∧ ∃ members, n.kind = .classDef title none members := by
  rcases scope_cases h ho with ⟨_, _, _, _, _, body, statements, -, hself, hblock⟩ | ⟨hself, hk, -⟩
  · rw [hself, hblock] at ht
    cases ht
  · have hscope := hasScope_of_opens h ho
    rw [hself] at ht
    cases hkind : n.kind with
    | classDef title' inherits members =>
      rw [hkind] at ht hscope
      obtain rfl := Option.some.inj ht
      cases inherits with
      | some file => cases hscope
      | none => exact ⟨hself, members, rfl⟩
    | variableDef | functionDef =>
      rw [hkind] at hk
      cases hk
    | _ =>
      rw [hkind] at ht
      cases ht

end

end Node

end MudEdit
