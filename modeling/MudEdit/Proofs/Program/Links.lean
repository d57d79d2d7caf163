import MudEdit.Proofs.Program.Visit

/-!
# What a file is linked to

The walk links a file for each directive that it comes to. So the programs linked to a
program are those that the library has for the paths of the directives, in the order of the
walk.
-/

namespace MudEdit

variable {library : Library} {s : Nat} {n m : Node} {ns : List Node} {r r' : Resolution}

/-! ## What the walk comes to -/

/-- What is walked is smaller. -/
theorem Node.length_subtrees_walked (h : m ∈ n.kind.walked) :
    m.subtrees.length < n.subtrees.length := by
  have hsub : m.subtrees.Sublist (n.kind.walked.flatMap Node.subtrees) :=
    List.sublist_flatten_of_mem (List.mem_map_of_mem h)
  have hle := (NodeKind.walked_subtrees n.kind).length_le
  have heq : n.subtrees.length = (n.kind.children.flatMap Node.subtrees).length + 1 := by
    rw [Node.subtrees_eq]
    rfl
  have := hsub.length_le
  omega

/-- The constructs that the walk comes to, in the order of the walk. -/
def Node.visited (n : Node) : List Node :=
  n :: n.kind.walked.attach.flatMap fun m => m.1.visited
termination_by n.subtrees.length
decreasing_by exact Node.length_subtrees_walked m.2

/-- A walk comes to the construct and to what is walked of it. -/
theorem Node.visited_eq (n : Node) : n.visited = n :: n.kind.walked.flatMap Node.visited := by
  rw [Node.visited]
  conv_rhs => rw [← List.attach_map_subtype_val n.kind.walked, List.flatMap_map]

/-- A walk stays in the tree. -/
theorem Node.visited_subset (n : Node) : n.visited ⊆ n.subtrees := by
  induction n using Node.induct_walked with
  | step n ih =>
    rw [visited_eq, subtrees_eq]
    refine List.cons_subset_cons _ fun k hk => ?_
    obtain ⟨m, hm, hk⟩ := List.mem_flatMap.mp hk
    exact (NodeKind.walked_subtrees _).subset (List.mem_flatMap.mpr ⟨m, hm, ih m hm hk⟩)

namespace NodeKind

/-- The path of the file that the construct includes. -/
def includes? : NodeKind → Option String
  | includeFile path => Resolve.pathOf? path
  | _ => none

/-- The path of the file that the construct inherits. -/
def inherits? : NodeKind → Option String
  | inheritFile path => Resolve.pathOf? path
  | _ => none

variable {kind : NodeKind}

/-- Only an include includes. -/
theorem includes?_eq_none (h : kind.isLink = false) : kind.includes? = none := by
  cases kind with
  | includeFile => exact absurd h (by simp [isLink])
  | _ => rfl

/-- Only an inheritance inherits. -/
theorem inherits?_eq_none (h : kind.isLink = false) : kind.inherits? = none := by
  cases kind with
  | inheritFile => exact absurd h (by simp [isLink])
  | _ => rfl

end NodeKind

/-- The paths that constructs include files by. -/
def includedPaths (ns : List Node) : List String :=
  (ns.flatMap Node.visited).filterMap (·.kind.includes?)

/-- The paths that constructs inherit files by. -/
def inheritedPaths (ns : List Node) : List String :=
  (ns.flatMap Node.visited).filterMap (·.kind.inherits?)

section Paths

variable (n) (ns)

@[simp] theorem includedPaths_append (ms : List Node) :
    includedPaths (ns ++ ms) = includedPaths ns ++ includedPaths ms := by
  simp [includedPaths]

@[simp] theorem inheritedPaths_append (ms : List Node) :
    inheritedPaths (ns ++ ms) = inheritedPaths ns ++ inheritedPaths ms := by
  simp [inheritedPaths]

/-- The paths a construct includes are its own and those of what is walked of it. -/
theorem includedPaths_singleton : includedPaths [n] =
    n.kind.includes?.toList ++ includedPaths n.kind.walked := by
  simp only [includedPaths, List.flatMap_singleton]
  rw [Node.visited_eq, List.filterMap_cons]
  cases n.kind.includes? <;> rfl

/-- And so are those it inherits. -/
theorem inheritedPaths_singleton : inheritedPaths [n] =
    n.kind.inherits?.toList ++ inheritedPaths n.kind.walked := by
  simp only [inheritedPaths, List.flatMap_singleton]
  rw [Node.visited_eq, List.filterMap_cons]
  cases n.kind.inherits? <;> rfl

end Paths

/-! ### Both kinds of paths -/

/-- The paths that constructs name files by. -/
def linkedPaths (ns : List Node) : List String := includedPaths ns ++ inheritedPaths ns

theorem linkedPaths_subset {ms : List Node}
    (h : ns.flatMap Node.visited ⊆ ms.flatMap Node.visited) : linkedPaths ns ⊆ linkedPaths ms :=
  List.append_subset.mpr ⟨List.subset_append_of_subset_left _ (List.filterMap_subset _ h),
    List.subset_append_of_subset_right _ (List.filterMap_subset _ h)⟩

/-- A construct of a list links to no other paths than the list. -/
theorem linkedPaths_of_mem (h : n ∈ ns) : linkedPaths [n] ⊆ linkedPaths ns := by
  refine linkedPaths_subset fun k hk => ?_
  rw [List.flatMap_singleton] at hk
  exact List.mem_flatMap.mpr ⟨n, h, hk⟩

/-- A part that is walked links to no other paths than the whole. -/
theorem linkedPaths_walked (h : m ∈ n.kind.walked) : linkedPaths [m] ⊆ linkedPaths [n] := by
  refine List.Subset.trans (linkedPaths_of_mem h) (linkedPaths_subset ?_)
  rw [List.flatMap_singleton, Node.visited_eq]
  exact List.subset_cons_self ..

/-! ## The programs linked -/

namespace Program

@[simp] theorem included_modifyScope (p : Program) (id : Nat) (f : Scope → Scope) :
    (p.modifyScope id f).included = p.included := by cases p; rfl

@[simp] theorem inherited_modifyScope (p : Program) (id : Nat) (f : Scope → Scope) :
    (p.modifyScope id f).inherited = p.inherited := by cases p; rfl

@[simp] theorem included_openScope (p : Program) (parent begin stop : Nat) :
    (p.openScope parent begin stop).included = p.included := by cases p; rfl

@[simp] theorem inherited_openScope (p : Program) (parent begin stop : Nat) :
    (p.openScope parent begin stop).inherited = p.inherited := by cases p; rfl

@[simp] theorem included_addIncluded (p q : Program) :
    (p.addIncluded q).included = p.included ++ [q] := by cases p; rfl

@[simp] theorem inherited_addIncluded (p q : Program) :
    (p.addIncluded q).inherited = p.inherited := by cases p; rfl

@[simp] theorem included_addInherited (p q : Program) :
    (p.addInherited q).included = p.included := by cases p; rfl

@[simp] theorem inherited_addInherited (p q : Program) :
    (p.addInherited q).inherited = p.inherited ++ [q] := by cases p; rfl

end Program

/-- **The walk links what the directives name**, in their order. -/
theorem Walks.linked (h : Walks library s ns r r') :
    r'.program.included = r.program.included ++ (includedPaths ns).filterMap library ∧
      r'.program.inherited = r.program.inherited ++ (inheritedPaths ns).filterMap library := by
  -- each rule of a walk links to what the construct names, at the place the construct has in the
  -- walk
  induction h with
  | nil => simp [includedPaths, inheritedPaths]
  | append _ _ ih₁ ih₂ =>
    rw [ih₂.1, ih₂.2, ih₁.1, ih₁.2]
    simp
  | @parts s n r r' hl _ ih =>
    rw [ih.1, ih.2, includedPaths_singleton n, inheritedPaths_singleton n,
      NodeKind.includes?_eq_none hl, NodeKind.inherits?_eq_none hl]
    exact ⟨rfl, rfl⟩
  | @includes s begin stop path r | @inherits s begin stop path r =>
    rw [program_link, includedPaths_singleton, inheritedPaths_singleton]
    simp only [Node.kind, NodeKind.includes?, NodeKind.inherits?, NodeKind.walked]
    cases Resolve.pathOf? path with
    | none => simp [includedPaths, inheritedPaths]
    | some text =>
      cases hl : library text <;> simp [includedPaths, inheritedPaths, hl]
  | declared _ _ _ ih => simpa only [Resolution.define, Program.included_modifyScope,
      Program.inherited_modifyScope] using ih
  | declares _ _ _ ih => simpa only [Resolution.define, Program.included_modifyScope,
      Program.inherited_modifyScope] using ih
  | @enters s n inner f r r₁ r' ho hw _ _ _ ih₁ ih₂ =>
    have hl := NodeKind.isLink_of_opens ho
    rw [ih₂.1, ih₂.2, includedPaths_singleton n, inheritedPaths_singleton n,
      NodeKind.includes?_eq_none hl, NodeKind.inherits?_eq_none hl, hw]
    simp only [Resolution.enter, Program.included_modifyScope, Program.inherited_modifyScope,
      Program.included_openScope, Program.inherited_openScope, ih₁.1, ih₁.2]
    simp

/-- The programs linked to a file are those of the paths that it names. -/
theorem resolve_linked (library : Library) (stamp : Nat) (fileName : Option String)
    (nodes : List Node) :
    (resolve library stamp fileName nodes).program.included =
        (includedPaths nodes).filterMap library ∧
      (resolve library stamp fileName nodes).program.inherited =
        (inheritedPaths nodes).filterMap library :=
  (Resolve.visitAll_walk library nodes 0 ⟨.empty stamp fileName, []⟩).linked

/-! ## The name -/

namespace Program

@[simp] theorem fileName_modifyScope (p : Program) (id : Nat) (f : Scope → Scope) :
    (p.modifyScope id f).fileName = p.fileName := by cases p; rfl

@[simp] theorem fileName_openScope (p : Program) (parent begin stop : Nat) :
    (p.openScope parent begin stop).fileName = p.fileName := by cases p; rfl

end Program

/-- To link to a program does not name it otherwise. -/
theorem fileName_link (library : Library) (r : Resolution) (begin : Nat) (path : Node)
    (instruction : String → Instruction) {add : Program → Program → Program}
    (ha : ∀ p q, (add p q).fileName = p.fileName) :
    (Resolve.after (Resolve.link library begin path instruction add) r).program.fileName =
      r.program.fileName := by
  rw [program_link]
  cases Resolve.pathOf? path with
  | none => rfl
  | some text => cases hl : library text <;> simp [hl, ha]

/-- A program keeps the name of its file. -/
theorem Walks.fileName (h : Walks library s ns r r') :
    r'.program.fileName = r.program.fileName := by
  induction h with
  | nil => rfl
  | append _ _ ih₁ ih₂ => exact ih₂.trans ih₁
  | parts _ _ ih => exact ih
  | includes => exact fileName_link _ _ _ _ _ fun p q => by cases p; rfl
  | inherits => exact fileName_link _ _ _ _ _ fun p q => by cases p; rfl
  | declared _ _ _ ih => exact ih.trans (Program.fileName_modifyScope ..)
  | declares _ _ _ ih => exact (Program.fileName_modifyScope ..).trans ih
  | enters _ _ _ _ _ ih₁ ih₂ =>
    rw [ih₂, Resolution.enter, Program.fileName_modifyScope, Program.fileName_openScope, ih₁]

/-- A resolved program has the name it was resolved for. -/
theorem fileName_resolve (library : Library) (stamp : Nat) (fileName : Option String)
    (nodes : List Node) : (resolve library stamp fileName nodes).program.fileName = fileName :=
  (Resolve.visitAll_walk library nodes 0 ⟨.empty stamp fileName, []⟩).fileName

/-! ## What a file says stands in order

Whatever is recorded in a scope keeps the instructions of the scope in source order, so they
are in order when the walk is over. -/

namespace Program

variable {p : Program}

/-- The instructions of all scopes are in order. -/
def Ordered (p : Program) : Prop := ∀ id, (p.scope id).Ordered

/-- A program that has only been begun has nothing in any scope. -/
theorem scope_empty (stamp : Nat) (fileName : Option String) (id : Nat) :
    ∃ begin stop, (empty stamp fileName).scope id = .fresh begin stop none := by
  unfold scope empty Program.scopes
  cases id <;> exact ⟨_, _, rfl⟩

/-- So it is in order. -/
theorem ordered_empty (stamp : Nat) (fileName : Option String) :
    (empty stamp fileName).Ordered := by
  intro id
  obtain ⟨begin, stop, heq⟩ := scope_empty stamp fileName id
  rw [heq]
  exact Scope.ordered_fresh ..

/-- To fill a scope keeps the order. -/
theorem Ordered.modifyScope {f : Scope → Scope} (h : p.Ordered) (hf : Scope.Fills f) (id : Nat) :
    (p.modifyScope id f).Ordered := by
  intro j
  rw [scope_modifyScope]
  split
  · exact hf.ordered _ (h j)
  · exact h j

theorem Ordered.openScope (h : p.Ordered) (parent begin stop : Nat) :
    (p.openScope parent begin stop).Ordered :=
  fun j => (h j).of_eq (instructions_openScope ..)

end Program

/-- To link to a program records where, and keeps the order. -/
theorem ordered_link (h : r.program.Ordered) (begin : Nat) (path : Node)
    {instruction : String → Instruction} {add : Program → Program → Program}
    (ha : ∀ p q, (add p q).scopes = p.scopes)
    (hi : ∀ text, (instruction text).definition? = none) :
    (Resolve.after (Resolve.link library begin path instruction add) r).program.Ordered := by
  rw [program_link]
  cases Resolve.pathOf? path with
  | none => exact h
  | some text =>
    have hrec := h.modifyScope (.link begin (hi text)) 0
    cases hl : library text with
    | none => simpa [hl] using hrec
    | some linked =>
      intro id
      simpa [hl, Program.scope, ha] using hrec id

/-- The walk keeps what is declared in order. -/
theorem Walks.ordered (h : Walks library s ns r r') (hr : r.program.Ordered) :
    r'.program.Ordered := by
  induction h with
  | nil => exact hr
  | append _ _ ih₁ ih₂ => exact ih₂ (ih₁ hr)
  | parts _ _ ih => exact ih hr
  | includes => exact ordered_link hr _ _ (fun p q => by cases p; rfl) fun _ => rfl
  | inherits => exact ordered_link hr _ _ (fun p q => by cases p; rfl) fun _ => rfl
  | declared _ _ _ ih => exact ih (hr.modifyScope (.define _) _)
  | declares _ _ _ ih => exact (ih hr).modifyScope (.define _) _
  | enters _ _ _ hf _ ih₁ ih₂ => exact ih₂ (((ih₁ hr).openScope _ _ _).modifyScope hf _)

/-- **A resolved program has all in order**, scope by scope. -/
theorem resolve_ordered (library : Library) (stamp : Nat) (fileName : Option String)
    (nodes : List Node) : (resolve library stamp fileName nodes).program.Ordered :=
  (Resolve.visitAll_walk library nodes 0 ⟨.empty stamp fileName, []⟩).ordered
    (Program.ordered_empty stamp fileName)

end MudEdit
