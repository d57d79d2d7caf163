import MudEdit.Proofs.Grammar.Directive
import MudEdit.Proofs.Program.Dependencies
import MudEdit.Proofs.Program.Tally

/-!
# Every directive is accounted for

The walk comes to the directives of a file in the order in which they stand in it, since all that
it leaves out or puts elsewhere is flat. It links a file as soon as it comes to its directive, and
the scope of the file has the directives by their offsets. As no two of them begin together, and
each begins before those that the walk comes to later, both are the list of the directives that
name a path: none is lost, none is doubled, and the two agree in their order.
-/

namespace MudEdit

variable {n m : Node} {ns : List Node} {path : String}

/-- The files that constructs include and inherit, with where the directives begin. -/
def directives (ns : List Node) : List (Nat × String) :=
  (ns.flatMap Node.subtrees).filterMap fun n => n.kind.path?.map (n.begin, ·)

/-! ## What the walk comes to -/

namespace Node

/-- No parameter and no variable of flat parts names a file. -/
theorem links_of_isProper (hn : n.Proper)
    (hk : n.kind.isParameter = true ∨ n.kind.isVariable = true) : n.links = [] := by
  obtain ⟨begin, stop, kind⟩ := n
  cases kind with
  | parameter type title =>
    rw [links_of_not rfl]
    exact flatMap_links_of_isFlat (List.all_eq_true.mp (hn.isProper rfl))
  | variableDef mods type title value =>
    rw [links_of_not rfl]
    refine flatMap_links_of_isFlat (List.all_eq_true.mp ?_)
    simpa [Node.kind, NodeKind.isProper, children, NodeKind.children] using hn.isProper rfl
  | _ => exact absurd hk (by simp [Node.kind, NodeKind.isParameter, NodeKind.isVariable])

theorem links_vanishes : Vanishes links :=
  ⟨fun _ h => links_of_isFlat h, fun _ hp hk => links_of_isProper hp (.inl hk)⟩

/-- The walk goes on to all directives in the body of a function. -/
theorem flatMap_links_bodyParts (hn : ∀ k ∈ n.subtrees, k.Proper) :
    n.bodyParts.flatMap links = n.links := by
  fun_induction bodyParts n with
  | case1 begin stop statements => rw [links_of_not rfl]; rfl
  | case2 begin stop primary holes ih =>
    obtain ⟨hproper, hparts⟩ := forall_mem_subtrees.mp hn
    have hlinks : (mk begin stop (.combination primary holes)).links =
        (primary :: holes).flatMap links := links_of_not rfl
    rw [ih (hparts primary List.mem_cons_self), hlinks, List.flatMap_cons,
      flatMap_links_of_isHole (hproper.holes _ _ rfl), List.append_nil]
  | case3 => rw [List.flatMap_singleton]

/-- The walk goes on to all directives in a construct with a scope, in their order. -/
theorem flatMap_links_scope (hn : ∀ k ∈ n.subtrees, k.Proper) (hs : n.kind.hasScope = true) :
    n.kind.walked.flatMap links = n.children.flatMap links := by
  obtain ⟨hself, hparts⟩ := forall_mem_subtrees.mp hn
  have hproper := isProper_of_hasScope hself hs
  have hall {ns : List Node} (h : ns.all isFlat = true) : ns.flatMap links = [] :=
    flatMap_links_of_isFlat (List.all_eq_true.mp h)
  obtain ⟨begin, stop, kind⟩ := n
  simp only [Node.kind, children] at hs hproper hparts ⊢
  have hchild {m : Node} (hm : m ∈ kind.children) : m.Proper :=
    (forall_mem_subtrees.mp (hparts m hm)).1
  cases kind with
  | classDef title inherits body =>
    cases inherits with
    | some file => exact absurd hs (by simp [NodeKind.hasScope])
    | none =>
      have hhead := hall (Bool.and_eq_true_iff.mp hproper).1
      show body.flatMap links = ([title] ++ body).flatMap links
      rw [List.flatMap_append, ← List.append_nil [title]]
      exact (congrArg (· ++ body.flatMap links) hhead).symm
  | functionDef mods returns title parameters variadic body =>
    cases body with
    | none => exact absurd hs (by simp [NodeKind.hasScope])
    | some body =>
      obtain ⟨hhead, hformal⟩ := Bool.and_eq_true_iff.mp hproper
      have hparameters : parameters.flatMap links = [] :=
        links_vanishes.flatMap_parameters
          (fun p hp => hchild (by simp [NodeKind.children, hp])) (List.all_eq_true.mp hformal)
      have hbody := flatMap_links_bodyParts (hparts body (by simp [NodeKind.children]))
      show ([body].flatMap bodyParts).flatMap links =
        (mods.toList ++ [returns, title] ++ parameters ++ [body]).flatMap links
      rw [List.flatMap_append, List.flatMap_append, hall hhead, hparameters,
        List.flatMap_singleton, List.flatMap_singleton, hbody]
      rfl
  | foreachLoop binding iterable body =>
    obtain ⟨hbinding, hiterable⟩ := Bool.and_eq_true_iff.mp hproper
    have hnone : binding.links = [] := by
      rcases Bool.or_eq_true_iff.mp hbinding with h | h
      · exact links_of_isFlat h
      · exact links_of_isProper (hchild List.mem_cons_self) (.inr h)
    -- whether what is bound is walked or recorded, there is no directive in it
    simp only [NodeKind.walked, NodeKind.children]
    split <;> simp [hnone, links_of_isFlat hiterable]
  | block | switchOn => rfl
  | forLoop | tryCatch => simp only [NodeKind.walked, NodeKind.children, List.append_assoc]
  | _ => exact absurd hs (by simp [NodeKind.hasScope])

/-- The walk goes on to all directives in a construct, in their order. -/
theorem flatMap_links_walked (hn : ∀ k ∈ n.subtrees, k.Proper) :
    n.kind.walked.flatMap links = n.children.flatMap links := by
  have hcore : n.core.kind.walked.flatMap links = n.core.children.flatMap links := by
    obtain ⟨hself, hparts⟩ := forall_mem_subtrees.mp (proper_core hn)
    cases hs : n.core.kind.hasScope with
    | true => exact flatMap_links_scope (proper_core hn) hs
    | false =>
      exact flatMap_walked links_vanishes hself
        (fun m hm => (forall_mem_subtrees.mp (hparts m hm)).1) (fun _ _ => core_combination) hs
  rw [← walked_core, hcore]
  rcases n.core_cases with ⟨heq, -⟩ | ⟨hs, hk, hb⟩
  · rw [heq]
  · -- what has braces is no directive, and neither are the holes that it is joined with
    have hnot : n.core.kind.isLink = false := by
      cases h : n.core.kind <;>
        first | rfl | exact absurd hb (by simp [h, NodeKind.hasBraces])
    have hholes := flatMap_links_of_isHole ((hn n n.mem_subtrees_self).holes _ hs hk)
    rw [children, children, hk]
    show _ = (n.core :: hs).flatMap links
    rw [List.flatMap_cons, hholes, List.append_nil, links_of_not hnot]
    rfl

/-- **The walk comes to all directives of a tree**, in their order. -/
theorem filter_visited (hn : ∀ k ∈ n.subtrees, k.Proper) :
    n.visited.filter (·.kind.isLink) = n.links := by
  induction n using induct_walked with
  | step n ih =>
    have hbelow : (n.kind.walked.flatMap visited).filter (·.kind.isLink) =
        (n.children.flatMap subtrees).filter (·.kind.isLink) := by
      rw [List.filter_flatMap, ← flatMap_links, ← flatMap_links_walked hn]
      exact List.flatMap_congr fun m hm => ih m hm fun k hk => hn k (subtrees_walked hm hk)
    rw [visited_eq, links, subtrees_eq, List.filter_cons, List.filter_cons, hbelow]

end Node

/-- What directives say is said in the order of the walk as in that of the file. -/
theorem filterMap_visited {β : Type} (f : Node → Option β)
    (hf : ∀ n, n.kind.isLink = false → f n = none)
    (hns : ∀ n ∈ ns, ∀ k ∈ n.subtrees, k.Proper) :
    (ns.flatMap Node.visited).filterMap f = (ns.flatMap Node.subtrees).filterMap f := by
  -- only links count, and each link of the text is visited once
  have honly (ms : List Node) :
      (ms.filter (·.kind.isLink)).filterMap f = ms.filterMap f := by
    rw [List.filterMap_filter]
    refine List.filterMap_congr fun n _ => ?_
    split
    · rfl
    · rename_i h
      exact (hf n (by simpa using h)).symm
  have hlinks : (ns.flatMap Node.visited).filter (·.kind.isLink) =
      (ns.flatMap Node.subtrees).filter (·.kind.isLink) := by
    rw [List.filter_flatMap, ← Node.flatMap_links]
    exact List.flatMap_congr fun n hn => Node.filter_visited (hns n hn)
  rw [← honly, hlinks, honly]

/-! ## What is made of them -/

/-- The files that a program is linked to, with where they are named. -/
def Program.linksAt (p : Program) : List (Nat × String) :=
  p.root.instructions.filterMap fun x => x.2.path?.map (x.1, ·)

/-- The directives of a file that name a path, in the order of a walk. -/
def Forest.directives (f : Forest) : List Node := f.subtrees.filter (·.kind.path?.isSome)

theorem mem_directives {x : Nat × String} : x ∈ directives ns ↔
    ∃ n ∈ ns.flatMap Node.subtrees, n.begin = x.1 ∧ n.kind.path? = some x.2 := by
  obtain ⟨offset, path⟩ := x
  simp only [directives, List.mem_filterMap, Option.map_eq_some_iff, Prod.mk.injEq]
  constructor
  · rintro ⟨n, hn, _, hpath, hbegin, rfl⟩
    exact ⟨n, hn, hbegin, hpath⟩
  · rintro ⟨n, hn, hbegin, hpath⟩
    exact ⟨n, hn, path, hpath, hbegin, rfl⟩

/-- What only directives with a path have is found by a walk of these. -/
theorem Forest.filterMap_directives {β : Type} {f : Forest} {g : Node → Option β}
    (hg : ∀ n, n.kind.path? = none → g n = none) :
    f.directives.filterMap g = f.subtrees.filterMap g := by
  rw [directives, List.filterMap_filter]
  refine List.filterMap_congr fun n _ => ?_
  split
  · rfl
  · rename_i h
    exact (hg n (by simpa using h)).symm

section Directives

variable (library : Library) (stamp : Nat) (fileName : Option String) (mode : Mode) (text : String)

theorem parse_inLine : ∃ lo hi, InLine true lo hi (Forest.parse mode text).nodes :=
  ⟨_, _, ((Parse.members_listed (c := (Reading.start mode text).cursor) .eof).2 _
    (start_placed mode text)).2⟩

/-- The directives that name a path begin one after the other. -/
theorem Forest.directives_sorted :
    (Forest.parse mode text).directives.Pairwise (·.begin < ·.begin) := by
  obtain ⟨_, _, hline⟩ := parse_inLine mode text
  have hsub : (Forest.parse mode text).directives.Sublist
      ((Forest.parse mode text).nodes.flatMap Node.links) := by
    rw [Node.flatMap_links]
    refine List.monotone_filter_right _ fun n hn => ?_
    obtain ⟨path, hpath⟩ := Option.isSome_iff_exists.mp hn
    exact NodeKind.isLink_of_path? hpath
  exact hline.sorted.sublist hsub

theorem filterMap_visited_parse {β : Type} {g : Node → Option β}
    (hg : ∀ n, n.kind.path? = none → g n = none) :
    ((Forest.parse mode text).nodes.flatMap Node.visited).filterMap g =
      (Forest.parse mode text).directives.filterMap g := by
  rw [Forest.filterMap_directives hg]
  refine filterMap_visited g (fun n hn => hg n (NodeKind.path?_eq_none hn)) ?_
  exact parse_proper mode text

/-- Each directive of a file that is read is one that the walk comes to. -/
theorem mem_visited_of_path? (hn : n ∈ (Forest.parse mode text).nodes.flatMap Node.subtrees)
    (hpath : n.kind.path? = some path) :
    n ∈ (Forest.parse mode text).nodes.flatMap Node.visited := by
  obtain ⟨m, hm, hn⟩ := List.mem_flatMap.mp hn
  have hlink : n ∈ m.links := Node.mem_links.mpr ⟨hn, NodeKind.isLink_of_path? hpath⟩
  rw [← Node.filter_visited (parse_proper mode text m hm)] at hlink
  exact List.mem_flatMap.mpr ⟨m, hm, (List.mem_filter.mp hlink).1⟩

theorem mem_linkedPaths_of_directives {x : Nat × String}
    (hx : x ∈ directives (Forest.parse mode text).nodes) :
    x.2 ∈ linkedPaths (Forest.parse mode text).nodes := by
  obtain ⟨n, hn, -, hpath⟩ := mem_directives.mp hx
  exact mem_linkedPaths.mpr ⟨n, mem_visited_of_path? mode text hn hpath, hpath⟩

/-- The directives with where they begin are those of the file. -/
theorem directives_eq : directives (Forest.parse mode text).nodes =
    (Forest.parse mode text).directives.filterMap fun n => n.kind.path?.map (n.begin, ·) :=
  (Forest.filterMap_directives fun n hn => by rw [hn]; rfl).symm

theorem directives_sorted : (directives (Forest.parse mode text).nodes).Pairwise (·.1 < ·.1) := by
  rw [directives_eq]
  refine List.pairwise_filterMap.mpr ((Forest.directives_sorted mode text).imp ?_)
  intro a b hlt x hx y hy
  obtain ⟨_, -, rfl⟩ := Option.map_eq_some_iff.mp hx
  obtain ⟨_, -, rfl⟩ := Option.map_eq_some_iff.mp hy
  exact hlt

/-- **Each directive is recorded once**, where it begins, and in its turn. -/
theorem linksAt_eq :
    (resolve library stamp fileName (Forest.parse mode text).nodes).program.linksAt =
      directives (Forest.parse mode text).nodes := by
  have hrecorded := resolve_recorded library stamp fileName (Forest.parse mode text).nodes
  have hordered := (resolve_ordered library stamp fileName (Forest.parse mode text).nodes 0).sorted
  have hdirectives := directives_sorted mode text
  have hlinks : (resolve library stamp fileName
      (Forest.parse mode text).nodes).program.linksAt.Pairwise (·.1 < ·.1) := by
    refine List.pairwise_filterMap.mpr (hordered.imp ?_)
    intro a b hlt x hx y hy
    obtain ⟨_, -, rfl⟩ := Option.map_eq_some_iff.mp hx
    obtain ⟨_, -, rfl⟩ := Option.map_eq_some_iff.mp hy
    exact hlt
  -- what is in order is known by its members
  have hnodup {xs : List (Nat × String)} (h : xs.Pairwise (·.1 < ·.1)) : xs.Nodup :=
    h.imp fun {a b} hlt heq => absurd hlt (by simp [heq])
  refine List.Perm.eq_of_pairwise (fun a b _ _ hab hba => absurd hab (Nat.lt_asymm hba))
    hlinks hdirectives ?_
  refine (List.perm_ext_iff_of_nodup (hnodup hlinks) (hnodup hdirectives)).mpr fun x => ?_
  rw [mem_directives]
  obtain ⟨offset, path⟩ := x
  simp only [Program.linksAt, List.mem_filterMap, Option.map_eq_some_iff, Prod.mk.injEq]
  constructor
  · rintro ⟨y, hy, p, hp, rfl, rfl⟩
    rcases hrecorded.begins y hy with hy | ⟨m, hm, -, hbegin, hnames⟩
    · exact absurd hy (by simp)
    · obtain ⟨n, hn, hm⟩ := List.mem_flatMap.mp hm
      exact ⟨m, List.mem_flatMap.mpr ⟨n, hn, n.visited_subset hm⟩, hbegin.symm, hnames p hp⟩
  · rintro ⟨n, hn, rfl, hpath⟩
    obtain ⟨i, hi, hp⟩ := hrecorded.names (parse_unlike mode text) (by simp) n
      (mem_visited_of_path? mode text hn hpath) path hpath
    exact ⟨_, hi, path, hp, rfl, rfl⟩

/-- What a file depends on is what its directives name, in their order. -/
theorem dependencies_eq :
    (resolve library stamp fileName (Forest.parse mode text).nodes).program.dependencies =
      (Forest.parse mode text).directives.filterMap (·.kind.path?) := by
  have hpaths (p : Program) : p.dependencies = p.linksAt.map (·.2) := by
    rw [Program.dependencies, Program.linksAt, List.map_filterMap]
    refine List.filterMap_congr fun x _ => ?_
    cases x.2.path? <;> rfl
  rw [hpaths, linksAt_eq, directives_eq, List.map_filterMap]
  refine List.filterMap_congr fun n _ => ?_
  cases n.kind.path? <;> rfl

end Directives

/-- **Every directive is accounted for.** In their order in the file, which is that of a walk, the
directives with a path stand at the top or are members of classes; a file depends on their paths,
it has the programs of the library for those that it includes and inherits, once for each time,
and what is missing are the paths that the library lacks, each where it comes first. -/
theorem resolve_directives (library : Library) (stamp : Nat) (fileName : Option String)
    (mode : Mode) (text : String) :
    let f := Forest.parse mode text
    let r := resolve library stamp fileName f.nodes
    f.directives.Pairwise (·.begin < ·.begin) ∧
      (∀ l ∈ f.directives, ∃ n ∈ f.nodes, n.primary = l ∨ n.HasMember l) ∧
      r.program.dependencies = f.directives.filterMap (·.kind.path?) ∧
      r.program.included = (f.directives.filterMap (·.kind.includes?)).filterMap library ∧
      r.program.inherited = (f.directives.filterMap (·.kind.inherits?)).filterMap library ∧
      r.unresolved = ((f.directives.filterMap (·.kind.path?)).filter
        fun path => (library path).isNone).eraseDups := by
  intro f r
  -- a node without a path links to nothing
  have hnone (n : Node) (hn : n.kind.path? = none) :
      n.kind.includes? = none ∧ n.kind.inherits? = none := by
    generalize n.kind = kind at hn ⊢
    cases kind with
    | includeFile => exact ⟨hn, rfl⟩
    | inheritFile => exact ⟨rfl, hn⟩
    | _ => exact ⟨rfl, rfl⟩
  obtain ⟨hincluded, hinherited⟩ := resolve_linked library stamp fileName f.nodes
  refine ⟨Forest.directives_sorted mode text, fun l hl => ?_,
    dependencies_eq library stamp fileName mode text, ?_, ?_, ?_⟩
  · obtain ⟨hmem, hpath⟩ := List.mem_filter.mp hl
    obtain ⟨path, hpath⟩ := Option.isSome_iff_exists.mp hpath
    obtain ⟨n, hn, hsub⟩ := List.mem_flatMap.mp hmem
    obtain ⟨_, _, hline⟩ := parse_inLine mode text
    have hlink : l ∈ n.links := Node.mem_links.mpr ⟨hsub, NodeKind.isLink_of_path? hpath⟩
    exact ⟨n, hn, (hline.placed n hn l hlink).imp_left And.right⟩
  · rw [hincluded, includedPaths, filterMap_visited_parse mode text fun n hn => (hnone n hn).1]
  · rw [hinherited, inheritedPaths, filterMap_visited_parse mode text fun n hn => (hnone n hn).2]
  · rw [unresolved_resolve, lackingPaths, filterMap_visited_parse mode text fun n hn => hn]

end MudEdit
