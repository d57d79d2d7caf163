import Mathlib.Data.List.Forall2
import MudEdit.Proofs.Program.Enclosure
import MudEdit.Proofs.Program.Home
import MudEdit.Proofs.Program.Links

/-!
# What a library changes in the program of a file

The types of values depend on the programs that a library has, and a variable that is declared
without a type is recorded with the one that was found for it. Nothing else of the scopes depends
on the library: where they are, what is recorded in them, and where. So the programs that two
libraries give a file match, scope by scope and instruction by instruction. That is kept by each
way in which the walk changes a program, and the walk of a construct takes the same turn with
both.
-/

namespace MudEdit

variable {library library' : Library} {nodes ns : List Node} {n : Node} {begin stop s : Nat}
  {r r' : Resolution}

/-! ## Programs that match -/

/-- The definition is that of a variable that is declared without a type in the nodes. -/
def Untyped (nodes : List Node) (d : Definition) : Prop :=
  d.kind = .var ∧ ∃ mods title value,
    .mk d.begin d.stop (.variableDef mods none title value) ∈ nodes.flatMap Node.subtrees ∧
      title.nameText? = some d.name

/-- The definitions are the same, but for the type of a variable that is declared without one. -/
structure Definition.Matches (nodes : List Node) (d d' : Definition) : Prop where
  same : { d with type := d'.type } = d'
  type : d'.type = d.type ∨ Untyped nodes d

/-- The instructions declare what matches, or link the same file. -/
inductive Instruction.Matches (nodes : List Node) : Instruction → Instruction → Prop where
  | define {d d' : Definition} : d.Matches nodes d' → Matches nodes (.define d) (.define d')
  | includeFile (path : String) : Matches nodes (.includeFile path) (.includeFile path)
  | inheritFile (path : String) : Matches nodes (.inheritFile path) (.inheritFile path)

/-- At the same offset the instructions match. -/
def Placed (nodes : List Node) (x y : Nat × Instruction) : Prop :=
  x.1 = y.1 ∧ x.2.Matches nodes y.2

/-- The scopes are at the same place, and what is recorded in them matches offset by offset. -/
structure Scope.Matches (nodes : List Node) (s s' : Scope) : Prop where
  begin : s.begin = s'.begin
  stop : s.stop = s'.stop
  parent : s.parent = s'.parent
  children : s.children = s'.children
  owner : s.owner = s'.owner
  instructions : List.Forall₂ (Placed nodes) s.instructions s'.instructions

/-- The programs have scopes of the same numbers, and they match. -/
structure Program.Matches (nodes : List Node) (p p' : Program) : Prop where
  size : p.scopes.size = p'.scopes.size
  scope : ∀ id, (p.scope id).Matches nodes (p'.scope id)

/-- A link is what it is whatever the types. -/
theorem Instruction.Matches.path {i i' : Instruction} (h : i.Matches nodes i') :
    i.path? = i'.path? := by
  cases h <;> rfl

namespace Scope.Matches

variable {t t' : Scope}

theorem fresh (begin stop : Nat) (parent : Option Nat) :
    (Scope.fresh begin stop parent).Matches nodes (.fresh begin stop parent) :=
  ⟨rfl, rfl, rfl, rfl, rfl, .nil⟩

/-- What is recorded at the same offset goes to the same place. -/
theorem insertAt {i i' : Instruction} {xs ys : List (Nat × Instruction)} (offset : Nat)
    (hi : i.Matches nodes i') (h : List.Forall₂ (Placed nodes) xs ys) :
    List.Forall₂ (Placed nodes) (Scope.insertAt offset i xs) (Scope.insertAt offset i' ys) := by
  induction h with
  | nil => exact .cons ⟨rfl, hi⟩ .nil
  | @cons x y xs ys hxy hxs ih =>
    obtain ⟨at_, j⟩ := x
    obtain ⟨at', j'⟩ := y
    obtain ⟨rfl, hj⟩ : at_ = at' ∧ j.Matches nodes j' := hxy
    simp only [Scope.insertAt]
    split
    · exact .cons ⟨rfl, hi⟩ (.cons ⟨rfl, hj⟩ hxs)
    · split
      · exact .cons ⟨rfl, hj⟩ hxs
      · exact .cons ⟨rfl, hj⟩ ih

theorem record {i i' : Instruction} (h : t.Matches nodes t') (offset : Nat)
    (hi : i.Matches nodes i') : (t.record offset i).Matches nodes (t'.record offset i') :=
  ⟨h.begin, h.stop, h.parent, h.children, h.owner, insertAt offset hi h.instructions⟩

theorem fill {ds ds' : List Definition} (h : t.Matches nodes t')
    (hds : List.Forall₂ (Definition.Matches nodes) ds ds') :
    (Resolve.fill ds t).Matches nodes (Resolve.fill ds' t') := by
  induction hds generalizing t t' with
  | nil => exact h
  | @cons d d' ds ds' hd _ ih =>
    have hbegin : d.begin = d'.begin := by rw [← hd.same]
    refine ih ?_
    show (t.record d.begin _).Matches nodes (t'.record d'.begin _)
    rw [← hbegin]
    exact h.record d.begin (.define hd)

end Scope.Matches

namespace Program

variable {p p' : Program}

namespace Matches

theorem empty (fileName : Option String) (stamp stamp' : Nat) :
    (Program.empty stamp fileName).Matches nodes (.empty stamp' fileName) := by
  refine ⟨rfl, fun id => ?_⟩
  show ((Program.empty stamp fileName).scope id).Matches nodes
    ((Program.empty stamp fileName).scope id)
  obtain ⟨begin, stop, heq⟩ := scope_empty stamp fileName id
  rw [heq]
  exact .fresh begin stop none

/-- The paths that a file names are recorded alike. -/
theorem dependencies (h : p.Matches nodes p') : p.dependencies = p'.dependencies := by
  have hpaths {xs ys : List (Nat × Instruction)} (h : List.Forall₂ (Placed nodes) xs ys) :
      xs.filterMap (·.2.path?) = ys.filterMap (·.2.path?) := by
    induction h with
    | nil => rfl
    | cons hxy _ ih => rw [List.filterMap_cons, List.filterMap_cons, hxy.2.path, ih]
  exact hpaths (h.scope 0).instructions

/-- What keeps the scopes keeps that they match. -/
theorem of_scopes {q q' : Program} (h : p.Matches nodes p') (hq : q.scopes = p.scopes)
    (hq' : q'.scopes = p'.scopes) : q.Matches nodes q' := by
  obtain ⟨hsize, hscope⟩ := h
  unfold Program.scope at hscope
  refine ⟨by rw [hq, hq', hsize], ?_⟩
  unfold Program.scope
  rwa [hq, hq']

theorem modifyScope {f f' : Scope → Scope} (h : p.Matches nodes p') (id : Nat)
    (hf : ∀ s s' : Scope, s.Matches nodes s' → (f s).Matches nodes (f' s')) :
    (p.modifyScope id f).Matches nodes (p'.modifyScope id f') := by
  refine ⟨by rw [size_modifyScope, size_modifyScope, h.size], fun j => ?_⟩
  rw [scope_modifyScope, scope_modifyScope, h.size]
  split
  · exact hf _ _ (h.scope j)
  · exact h.scope j

theorem openScope (h : p.Matches nodes p') (parent begin stop : Nat) :
    (p.openScope parent begin stop).Matches nodes (p'.openScope parent begin stop) := by
  refine ⟨by rw [size_openScope, size_openScope, h.size], fun j => ?_⟩
  rw [scope_openScope, scope_openScope, h.size]
  split
  · exact .fresh begin stop (some parent)
  · split
    · have hj := h.scope j
      exact ⟨hj.begin, hj.stop, hj.parent, by rw [hj.children], hj.owner, hj.instructions⟩
    · exact h.scope j

end Matches

end Program

/-- Made so far are programs that match. -/
def Resolution.Matches (nodes : List Node) (r r' : Resolution) : Prop :=
  r.program.Matches nodes r'.program

/-! ## What is declared -/

namespace Resolve

/-- A declaration is the same with another type, if that is of a variable without one. -/
theorem definition?_matches {title : Node} {type type' : Ty} {dk : DefinitionKind}
    {mods : List Modifier} (h : type' = type ∨ dk = .var ∧ ∃ mods value,
      .mk begin stop (.variableDef mods none title value) ∈ nodes.flatMap Node.subtrees) :
    List.Forall₂ (Definition.Matches nodes) (definition? begin stop title type dk mods).toList
      (definition? begin stop title type' dk mods).toList := by
  unfold definition?
  cases hname : title.nameText? with
  | none => exact .nil
  | some text =>
    refine .cons ⟨rfl, h.imp_right ?_⟩ .nil
    rintro ⟨hvar, mods', value, hmem⟩
    exact ⟨hvar, mods', title, value, hmem, hname⟩

/-- A variable has the type that it is declared with, whatever was found for it. -/
theorem variable_matches {title : Node} {mods : Option Node} {type value : Option Node}
    {words : List Modifier} (found found' : Ty)
    (h : .mk begin stop (.variableDef mods type title value) ∈ nodes.flatMap Node.subtrees) :
    List.Forall₂ (Definition.Matches nodes)
      (definition? begin stop title ((type.map Ty.ofNode).getD found) .var words).toList
      (definition? begin stop title ((type.map Ty.ofNode).getD found') .var words).toList := by
  cases type with
  | none => exact definition?_matches (.inr ⟨rfl, mods, value, h⟩)
  | some type => exact definition?_matches (.inl rfl)

theorem declaration?_matches (found found' : Ty) (hn : n ∈ nodes.flatMap Node.subtrees) :
    List.Forall₂ (Definition.Matches nodes) (declaration? found n).toList
      (declaration? found' n).toList := by
  unfold declaration?
  split
  · exact variable_matches found found' hn
  · exact definition?_matches (.inl rfl)
  · exact definition?_matches (.inl rfl)
  · exact definition?_matches (.inl rfl)
  · exact .nil

theorem item?_matches {binding : Node} (found found' : Ty)
    (h : binding.subtrees ⊆ nodes.flatMap Node.subtrees) :
    List.Forall₂ (Definition.Matches nodes) (item? found binding).toList
      (item? found' binding).toList := by
  unfold item?
  split
  · rename_i hprimary
    exact variable_matches found found' (h (hprimary ▸ binding.mem_subtrees_primary))
  · exact .nil

/-- What is recorded in a scope that is opened matches. -/
theorem filling_matches {t t' : Scope} (found found' : Ty) (h : t.Matches nodes t')
    (hn : n.subtrees ⊆ nodes.flatMap Node.subtrees) :
    (filling found n t).Matches nodes (filling found' n t') := by
  unfold filling
  split
  · refine Scope.Matches.fill ⟨h.begin, h.stop, h.parent, h.children, rfl, h.instructions⟩ ?_
    exact List.forall₂_same.mpr fun d _ => ⟨rfl, .inl rfl⟩
  · refine h.fill (item?_matches found found' fun m hm => hn ?_)
    rw [Node.subtrees_eq]
    exact List.mem_cons_of_mem _ (List.mem_flatMap.mpr ⟨_, List.mem_cons_self, hm⟩)
  · exact h

theorem declare_matches (found found' : Ty) (h : r.Matches nodes r')
    (hn : n ∈ nodes.flatMap Node.subtrees) : (r.declare s (declaration? found n)).Matches nodes
      (r'.declare s (declaration? found' n)) := by
  rw [declare_eq, declare_eq]
  exact Program.Matches.modifyScope h s fun t t' ht => ht.fill (declaration?_matches _ _ hn)

/-! ## The walk -/

/-- A link is recorded, whatever program there is for it. -/
theorem link_matches {path : Node} {instruction : String → Instruction}
    {add : Program → Program → Program} (h : r.Matches nodes r')
    (hi : ∀ text, (instruction text).Matches nodes (instruction text))
    (ha : ∀ p q, (add p q).scopes = p.scopes) :
    (after (link library begin path instruction add) r).Matches nodes
      (after (link library' begin path instruction add) r') := by
  have hadded (o : Option Program) (p : Program) : ((o.map (add p)).getD p).scopes = p.scopes := by
    cases o with
    | none => rfl
    | some q => exact ha p q
  unfold Resolution.Matches
  rw [program_link, program_link]
  cases pathOf? path with
  | none => exact h
  | some text =>
    -- the same record goes into both, and adding a tree changes no scope
    have hrecorded := Program.Matches.modifyScope h 0
      fun t t' ht => ht.record begin (hi text)
    exact hrecorded.of_scopes (hadded ..) (hadded ..)

/-- A construct without a scope is declared when its parts have been walked. -/
theorem Turn.kept (h : Turn library s n r r') (hl : n.kind.isLink = false)
    (ho : n.kind.opens = false) : ∃ found,
      r' = (after (visitAll library s n.kind.walked) r).declare s (declaration? found n) := by
  cases h with
  | includes hn => exact absurd hl (by simp [hn, Node.kind, NodeKind.isLink])
  | inherits hn => exact absurd hl (by simp [hn, Node.kind, NodeKind.isLink])
  | keeps _ _ _ hd =>
    obtain ⟨found, rfl⟩ := hd
    exact ⟨found, rfl⟩
  | enters ho' => exact absurd ho (by simp [ho'])

/-- A construct with a scope is declared first, and then its parts are walked. -/
theorem Turn.entered (h : Turn library s n r r') (ho : n.kind.opens = true) :
    ∃ found found' r₁, r₁ = after (visitAll library s n.kind.outer)
        (r.declare s (declaration? found n)) ∧
      r' = after (visitAll library r₁.program.scopes.size n.kind.inner)
        (r₁.enter s n.scopeNode.begin n.scopeNode.reach (filling found' n)) := by
  cases h with
  | includes hn => exact absurd ho (by simp [hn, Node.kind, NodeKind.opens, NodeKind.hasScope])
  | inherits hn => exact absurd ho (by simp [hn, Node.kind, NodeKind.opens, NodeKind.hasScope])
  | keeps _ ho' => exact absurd ho (by simp [ho'])
  | @enters inner o ds f r₁ _ hw _ _ _ h₁ hd hf =>
    obtain ⟨found, rfl⟩ := hd
    obtain ⟨found', rfl⟩ := hf
    obtain rfl : inner = n.kind.inner := by rw [NodeKind.inner, hw, List.drop_left]
    exact ⟨found, found', r₁, h₁, rfl⟩

theorem visitAll_matches (h : ∀ m ∈ ns, ∀ s r r', r.Matches nodes r' →
      (after (visit library s m) r).Matches nodes (after (visit library' s m) r'))
    (s : Nat) {r r' : Resolution} (hr : r.Matches nodes r') :
    (after (visitAll library s ns) r).Matches nodes (after (visitAll library' s ns) r') := by
  induction ns generalizing r r' with
  | nil => exact hr
  | cons n ns ih =>
    rw [List.forall_mem_cons] at h
    rw [visitAll, visitAll]
    exact ih h.2 (h.1 s r r' hr)

/-- **With any two libraries, the walk makes of programs that match programs that match.** -/
theorem visit_matches (n : Node) (hn : n.subtrees ⊆ nodes.flatMap Node.subtrees) :
    ∀ s r r', r.Matches nodes r' →
      (after (visit library s n) r).Matches nodes (after (visit library' s n) r') := by
  induction n using Node.induct_walked with
  | step n ih =>
    intro s r r' hr
    have hself := hn (Node.mem_subtrees_self n)
    replace ih : ∀ m ∈ n.kind.walked, ∀ s r r', r.Matches nodes r' →
        (after (visit library s m) r).Matches nodes (after (visit library' s m) r') :=
      fun m hm => ih m hm fun l hl => hn (Node.subtrees_walked hm hl)
    cases hl : n.kind.isLink with
    | true =>
      obtain ⟨begin, stop, kind⟩ := n
      rw [visit, visit]
      cases kind with
      | includeFile path =>
        rw [visitKind, visitKind]
        exact link_matches hr .includeFile fun p q => by cases p; rfl
      | inheritFile path =>
        rw [visitKind, visitKind]
        exact link_matches hr .inheritFile fun p q => by cases p; rfl
      | _ => exact absurd hl (by simp [Node.kind, NodeKind.isLink])
    | false =>
      -- the construct alone decides which turn both walks take
      have hturn : Turn library s n r _ := visit_turn n s r
      have hturn' : Turn library' s n r' _ := visit_turn n s r'
      cases ho : n.kind.opens with
      | false =>
        obtain ⟨found, heq⟩ := hturn.kept hl ho
        obtain ⟨found', heq'⟩ := hturn'.kept hl ho
        rw [heq, heq']
        exact declare_matches found found' (visitAll_matches ih s hr) hself
      | true =>
        rw [NodeKind.walked_eq, List.forall_mem_append] at ih
        obtain ⟨found, inside, r₁, h₁, heq⟩ := hturn.entered ho
        obtain ⟨found', inside', r₁', h₁', heq'⟩ := hturn'.entered ho
        have houter : r₁.Matches nodes r₁' := by
          rw [h₁, h₁']
          exact visitAll_matches ih.1 s (declare_matches found found' hr hself)
        rw [heq, heq', ← Program.Matches.size houter]
        refine visitAll_matches ih.2 _ ?_
        have hopened := Program.Matches.openScope houter s n.scopeNode.begin n.scopeNode.reach
        unfold Resolution.Matches Resolution.enter
        rw [← Program.Matches.size houter]
        exact hopened.modifyScope _ fun t t' ht => filling_matches inside inside' ht hn

end Resolve

/-- **Resolving a file again changes links and inferred types only.** -/
theorem resolve_matches (library library' : Library) (stamp stamp' : Nat)
    (fileName : Option String) (nodes : List Node) :
    let p := (resolve library stamp fileName nodes).program
    let p' := (resolve library' stamp' fileName nodes).program
    p.fileName = p'.fileName ∧ p.scopes.size = p'.scopes.size ∧
      (∀ id, (p.scope id).Matches nodes (p'.scope id)) ∧ p.dependencies = p'.dependencies := by
  intro p p'
  have hmatches : p.Matches nodes p' := by
    have hstart : Resolution.Matches nodes ⟨.empty stamp fileName, []⟩
        ⟨.empty stamp' fileName, []⟩ := .empty fileName stamp stamp'
    refine Resolve.visitAll_matches (fun n hn => Resolve.visit_matches n ?_) 0 hstart
    exact fun m hm => List.mem_flatMap.mpr ⟨n, hn, hm⟩
  refine ⟨?_, hmatches.size, hmatches.scope, hmatches.dependencies⟩
  rw [fileName_resolve, fileName_resolve]

end MudEdit
