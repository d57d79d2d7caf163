import MudEdit.Proofs.Forest.Span
import MudEdit.Proofs.Grammar.Proper
import MudEdit.Proofs.Program.Walks

/-!
# The scopes of a text

Read off the tree alone: a block, the body of a function, a loop that binds, a switch, the
catching part of a `try` and the members of a class are scopes. What a construct declares
belongs to the scope that is next around it, and parameters belong to the body of their
function. So each declaration of a text has one home, which is where the walk records it.
-/

namespace MudEdit

variable {kind : NodeKind} {n m : Node} {ns : List Node} {β : Type}

/-! ## Declarations -/

namespace Node

/-- What the construct itself declares: where it begins, and the name, if it is there. -/
def declaration? : Node → Option (Nat × String)
  | .mk begin _ (.variableDef _ _ title _) | .mk begin _ (.functionDef _ _ title _ _ _)
  | .mk begin _ (.classDef title _ _) => title.nameText?.map (begin, ·)
  | _ => none

/-- Where a parameter begins, and its name, if it has one. -/
def formal? : Node → Option (Nat × String)
  | .mk begin _ (.parameter _ (some title)) => title.nameText?.map (begin, ·)
  | _ => none

/-- The parameters of a function that has a body. -/
def formals (n : Node) : List (Nat × String) :=
  match n.kind with
  | .functionDef _ _ _ parameters _ (some _) => parameters.filterMap formal?
  | _ => []

/-- What is declared by the construct and by nothing in it but its parameters. -/
def declarations (n : Node) : List (Nat × String) := n.declaration?.toList ++ n.formals

end Node

/-! ## Scopes -/

namespace NodeKind

/-- The parts of a construct that lie in a scope of its own. -/
def inside : NodeKind → List Node
  | classDef _ none body => body
  | functionDef _ _ _ parameters _ (some body) => parameters ++ body.bodyParts
  | block statements => statements
  | forLoop initializer condition step body =>
    initializer.toList ++ (condition.toList ++ (step.toList ++ [body]))
  | foreachLoop binding _ body => [binding, body]
  | switchOn _ cases => cases
  | tryCatch _ exception handler => exception.toList ++ [handler]
  | _ => []

/-- The parts of a construct that lie in the scope around it. -/
def outside : NodeKind → List Node
  | classDef title none _ => [title]
  | functionDef mods returns title _ _ (some _) => mods.toList ++ [returns, title]
  | block _ | forLoop _ _ _ _ => []
  | foreachLoop _ iterable _ => [iterable]
  | switchOn value _ => [value]
  | tryCatch body _ _ => [body]
  | kind => kind.children

/-- All parts of a construct without a scope lie in the scope around it. -/
theorem parts_of_hasScope (h : kind.hasScope = false) :
    kind.outside = kind.children ∧ kind.inside = [] := by
  cases kind with
  | classDef _ inherits _ =>
    cases inherits with
    | none => exact absurd h (by simp [hasScope])
    | some file => exact ⟨rfl, rfl⟩
  | functionDef _ _ _ _ _ body =>
    cases body with
    | none => exact ⟨rfl, rfl⟩
    | some body => exact absurd h (by simp [hasScope])
  | block | forLoop | foreachLoop | switchOn | tryCatch => exact absurd h (by simp [hasScope])
  | _ => exact ⟨rfl, rfl⟩

/-- The two kinds of parts are the parts of the construct, but for the body of a function. -/
theorem outside_inside_perm
    (hf : ∀ mods returns title parameters variadic body,
      kind ≠ .functionDef mods returns title parameters variadic (some body)) :
    (kind.outside ++ kind.inside).Perm kind.children := by
  cases kind with
  | functionDef _ _ _ _ _ body =>
    cases body with
    | none => exact .of_eq (List.append_nil _)
    | some body => exact absurd rfl (hf _ _ _ _ _ body)
  | classDef _ inherits _ => cases inherits <;> exact .of_eq (by simp [outside, inside, children])
  | foreachLoop binding iterable body => exact .swap ..
  | forLoop => exact .of_eq (by simp [outside, inside, children])
  | tryCatch => exact .of_eq (by simp [outside, inside, children])
  | block | switchOn => exact .of_eq rfl
  | _ => exact .of_eq (List.append_nil _)

/-- Nothing of a construct is in two of its parts. -/
theorem parts_subtrees (kind : NodeKind) :
    ((kind.outside ++ kind.inside).flatMap Node.subtrees).Subperm
      (kind.children.flatMap Node.subtrees) := by
  cases kind with
  | functionDef mods returns title parameters variadic body =>
    cases body with
    | some body =>
      -- a body that is a block lends its statements to the function, and is the only part taken
      -- apart
      simp only [outside, inside, children, Option.toList, ← List.append_assoc]
      simp only [List.flatMap_append, List.flatMap_singleton]
      exact (List.Perm.refl _).subperm.append (bodyParts_subperm body)
    | none => exact ((outside_inside_perm (by simp)).flatMap_right _).subperm
  | _ => exact ((outside_inside_perm (by simp)).flatMap_right _).subperm

end NodeKind

namespace Node

/-- What is outside or inside of a scope is smaller. -/
theorem length_subtrees_part (h : m ∈ n.kind.outside ++ n.kind.inside) :
    m.subtrees.length < n.subtrees.length := by
  have hsub : m.subtrees.Sublist ((n.kind.outside ++ n.kind.inside).flatMap subtrees) :=
    List.sublist_flatten_of_mem (List.mem_map_of_mem h)
  have hle := (NodeKind.parts_subtrees n.kind).length_le
  have heq : n.subtrees.length = (n.kind.children.flatMap subtrees).length + 1 := by
    rw [subtrees_eq]
    rfl
  have := hsub.length_le
  omega

/-- What belongs to the scope that the construct stands in: what it declares, and what is
declared in it outside of the scopes that it has. -/
def held (n : Node) : List (Nat × String) :=
  n.declaration?.toList ++ n.kind.outside.attach.flatMap fun m => m.1.held
termination_by n.subtrees.length
decreasing_by exact length_subtrees_part (List.mem_append_left _ m.2)

/-- A construct holds its own name and what the parts outside of its scope hold. -/
theorem held_eq (n : Node) : n.held = n.declaration?.toList ++ n.kind.outside.flatMap held := by
  rw [held]
  conv_rhs => rw [← List.attach_map_subtype_val n.kind.outside, List.flatMap_map]

end Node

/-- A scope of a text: where it begins, and what belongs to it. -/
structure Home where
  begin : Nat
  names : List (Nat × String)

namespace Node

/-- The scope that the construct has. -/
def home (n : Node) : Home := ⟨n.scopeNode.begin, n.formals ++ n.kind.inside.flatMap held⟩

/-- The scopes of a tree, in the order in which they are opened. -/
def homes (n : Node) : List Home :=
  n.kind.outside.attach.flatMap (fun m => m.1.homes) ++
    ((if n.kind.hasScope then [n.home] else []) ++
      n.kind.inside.attach.flatMap fun m => m.1.homes)
termination_by n.subtrees.length
decreasing_by
  · exact length_subtrees_part (List.mem_append_left _ m.2)
  · exact length_subtrees_part (List.mem_append_right _ m.2)

/-- Its homes are those before its scope, its own, and those within. -/
theorem homes_eq (n : Node) : n.homes = n.kind.outside.flatMap homes ++
    ((if n.kind.hasScope then [n.home] else []) ++ n.kind.inside.flatMap homes) := by
  rw [homes]
  conv_rhs => rw [← List.attach_map_subtype_val n.kind.outside, List.flatMap_map,
    ← List.attach_map_subtype_val n.kind.inside, List.flatMap_map]

/-- What holds of a node whenever it holds of its parts holds of every node. -/
theorem induct_parts {motive : Node → Prop}
    (step : ∀ n : Node, (∀ m ∈ n.kind.outside ++ n.kind.inside, motive m) → motive n)
    (n : Node) : motive n :=
  step n fun m _ => induct_parts step m
termination_by n.subtrees.length
decreasing_by exact length_subtrees_part ‹_›

end Node

namespace Forest

/-- The scopes of a file: that of the file itself, and those in it. -/
def homes (f : Forest) : List Home := ⟨0, f.nodes.flatMap Node.held⟩ :: f.nodes.flatMap Node.homes

/-- What a file declares, in the order of the text. -/
def declarations (f : Forest) : List (Nat × String) := f.subtrees.flatMap Node.declarations

end Forest

/-! ## Types and expressions -/

namespace Node

/-- Types and expressions declare nothing. -/
theorem declaration?_of_isFlat (h : n.kind.isFlat = true) : n.declaration? = none := by
  obtain ⟨begin, stop, kind⟩ := n
  cases kind with
  | variableDef | functionDef | classDef => exact absurd h (by simp [kind, NodeKind.isFlat])
  | _ => rfl

/-- Nor do they open a scope. -/
theorem hasScope_of_isFlat (h : n.kind.isFlat = true) : n.kind.hasScope = false := by
  obtain ⟨begin, stop, kind⟩ := n
  cases kind with
  | classDef | functionDef | block | forLoop | foreachLoop | switchOn | tryCatch =>
    exact absurd h (by simp [kind, NodeKind.isFlat])
  | _ => rfl

/-- Without a scope all parts are outside. -/
theorem held_of_hasScope (h : n.kind.hasScope = false) :
    n.held = n.declaration?.toList ++ n.children.flatMap held := by
  rw [held_eq, (NodeKind.parts_of_hasScope h).1]
  rfl

/-- So the homes are those of the parts. -/
theorem homes_of_hasScope (h : n.kind.hasScope = false) : n.homes = n.children.flatMap homes := by
  obtain ⟨houtside, hinside⟩ := NodeKind.parts_of_hasScope h
  rw [homes_eq, houtside, hinside, h]
  simp [children]

/-- Of nothing that is flat or a parameter there is any, as of scopes and of what belongs to the
scope around. -/
structure Vanishes (g : Node → List β) : Prop where
  flat : ∀ m : Node, m.isFlat = true → g m = []
  parameter : ∀ m : Node, m.Proper → m.kind.isParameter = true → g m = []

variable {g : Node → List β}

/-- What vanishes for the parts of a construct without a scope does so for a parameter. -/
theorem Vanishes.of_parts (hstep : ∀ m : Node, m.declaration? = none → m.kind.hasScope = false →
    g m = m.children.flatMap g) : Vanishes g := by
  -- types and expressions to any depth
  have hflat (m : Node) (h : m.isFlat = true) : g m = [] := by
    induction m using Node.induct with
    | step m ih =>
      obtain ⟨hkind, hchildren⟩ := isFlat_iff.mp h
      rw [hstep m (declaration?_of_isFlat hkind) (hasScope_of_isFlat hkind)]
      exact List.flatMap_eq_nil_iff.mpr fun c hc => ih c hc (hchildren c hc)
  refine ⟨hflat, fun m hp hk => ?_⟩
  obtain ⟨begin, stop, kind⟩ := m
  cases kind with
  | parameter type title =>
    have hparts : ∀ c ∈ type :: title.toList, c.isFlat = true :=
      List.all_eq_true.mp (hp.isProper rfl)
    rw [hstep _ rfl rfl]
    exact List.flatMap_eq_nil_iff.mpr fun c hc => hflat c (hparts c hc)
  | _ => exact absurd hk (by simp [Node.kind, NodeKind.isParameter])

/-- Where nothing is declared nothing is held. -/
theorem held_vanishes : Vanishes held :=
  .of_parts fun m hd hs => by rw [held_of_hasScope hs, hd]; rfl

/-- And there is no home. -/
theorem homes_vanishes : Vanishes homes := .of_parts fun _ _ hs => homes_of_hasScope hs

theorem Vanishes.flatMap (h : Vanishes g) (hns : ∀ m ∈ ns, m.isFlat = true) :
    ns.flatMap g = [] := List.flatMap_eq_nil_iff.mpr fun m hm => h.flat m (hns m hm)

/-- Nor is there any of the parameters of a function. -/
theorem Vanishes.flatMap_parameters (h : Vanishes g) (hp : ∀ m ∈ ns, m.Proper)
    (hns : ∀ m ∈ ns, (m.isFlat || m.kind.isParameter) = true) : ns.flatMap g = [] := by
  refine List.flatMap_eq_nil_iff.mpr fun m hm => ?_
  rcases Bool.or_eq_true_iff.mp (hns m hm) with hflat | hparameter
  · exact h.flat m hflat
  · exact h.parameter m (hp m hm) hparameter

end Node

/-! ## What the walk comes to -/

namespace Node

variable {g : Node → List β}

/-- The construct, or the one with braces that was joined with holes. -/
def core : Node → Node
  | .mk _ _ (.combination (.mk begin stop (.block statements)) _) =>
    .mk begin stop (.block statements)
  | .mk _ _ (.combination (.mk begin stop (.classDef title inherits body)) _) =>
    .mk begin stop (.classDef title inherits body)
  | n => n

/-- A construct joined with holes is walked as without them. -/
theorem core_cases (n : Node) : n.core = n ∧ (∀ p hs, n.kind = .combination p hs →
      p.kind.hasBraces = false) ∨
    ∃ hs, n.kind = .combination n.core hs ∧ n.core.kind.hasBraces = true := by
  obtain ⟨begin, stop, kind⟩ := n
  cases kind with
  | combination primary holes =>
    -- only blocks and classes can lack their brace, so only with them the holes count
    obtain ⟨b, e, k⟩ := primary
    cases k with
    | block | classDef => exact .inr ⟨holes, rfl, rfl⟩
    | _ =>
      refine .inl ⟨rfl, fun p hs h => ?_⟩
      obtain ⟨rfl, -⟩ := NodeKind.combination.inj h
      rfl
  | _ => exact .inl ⟨rfl, fun p hs h => NodeKind.noConfusion h⟩

section Core

variable (n)

theorem walked_core : n.core.kind.walked = n.kind.walked := by
  unfold core
  split <;> rfl

theorem outer_core : n.core.kind.outer = n.kind.outer := by
  unfold core
  split <;> rfl

theorem locals_core : n.core.kind.locals = n.kind.locals := by
  unfold core
  split <;> rfl

/-- It has a scope if it opens one. -/
theorem opens_core : n.core.kind.hasScope = n.kind.opens := by
  obtain ⟨begin, stop, kind⟩ := n
  cases kind with
  | combination primary holes =>
    obtain ⟨b, e, k⟩ := primary
    cases k <;> rfl
  | _ => rfl

end Core

/-- Holes aside, a construct declares what it declares. -/
theorem title_core (hp : n.Proper) : n.title? = n.core.declaration? := by
  obtain ⟨begin, stop, kind⟩ := n
  cases kind with
  | combination primary holes =>
    obtain ⟨b, e, k⟩ := primary
    cases k with
    | classDef title inherits body =>
      obtain rfl : begin = b := hp.begins _ _ rfl rfl
      rfl
    | _ => rfl
  | _ => rfl

/-- Its scope begins at the same place. -/
theorem begin_core (hp : n.Proper) : n.core.scopeNode.begin = n.scopeNode.begin := by
  obtain ⟨begin, stop, kind⟩ := n
  cases kind with
  | combination primary holes =>
    obtain ⟨b, e, k⟩ := primary
    cases k with
    | block | classDef => exact (hp.begins _ _ rfl rfl).symm
    | _ => rfl
  | _ => rfl

/-- Holes have no scopes, and nothing belongs to them. -/
theorem held_homes_core (hp : n.Proper) : n.held = n.core.held ∧ n.homes = n.core.homes := by
  rcases n.core_cases with ⟨heq, -⟩ | ⟨hs, hk, -⟩
  · rw [heq]
    exact ⟨rfl, rfl⟩
  -- holes hold nothing and are no homes
  · have hflat : ∀ h ∈ hs, h.isFlat = true := fun h hh =>
      isFlat_of_isHole (hp.holes _ _ hk h hh)
    have hscope : n.kind.hasScope = false := by rw [hk]; rfl
    have hdecl : n.declaration? = none := declaration?_of_isFlat (by rw [hk]; rfl)
    have hchildren : n.children = n.core :: hs := by rw [children, hk]; rfl
    rw [held_of_hasScope hscope, homes_of_hasScope hscope, hdecl, hchildren, List.flatMap_cons,
      List.flatMap_cons, held_vanishes.flatMap hflat, homes_vanishes.flatMap hflat]
    simp

/-- Of a construct without a scope the walk leaves out only what is flat, and parameters. -/
theorem flatMap_walked (hg : Vanishes g) (hp : n.Proper) (hchildren : ∀ m ∈ n.children, m.Proper)
    (hb : ∀ p hs, n.kind = .combination p hs → p.kind.hasBraces = false)
    (hs : n.kind.hasScope = false) : n.kind.walked.flatMap g = n.children.flatMap g := by
  obtain ⟨begin, stop, kind⟩ := n
  rcases hp.form with hflat | hproper | ⟨p, gs, hk⟩
  · -- in what is flat nothing is of interest, walked or not
    have hparts := (isFlat_iff.mp hflat).2
    have hwalked : ∀ m ∈ kind.walked, m.isFlat = true := by
      intro m hm
      have hin := (NodeKind.walked_subtrees kind).subset (List.mem_flatMap.mpr
        ⟨m, hm, by rw [subtrees_eq]; exact List.mem_cons_self⟩)
      obtain ⟨c, hc, hm⟩ := List.mem_flatMap.mp hin
      exact isFlat_of_mem (hparts c hc) hm
    exact (hg.flatMap hwalked).trans (hg.flatMap hparts).symm
  · -- the parts that are left out, by what each construct may have there
    have hall {ns : List Node} (h : ns.all isFlat = true) : ns.flatMap g = [] :=
      hg.flatMap (List.all_eq_true.mp h)
    cases kind with
    | includeFile file | inheritFile file =>
      have := hg.flat file hproper
      simp [Node.kind, children, NodeKind.children, NodeKind.walked, this]
    | classDef title inherits body =>
      obtain ⟨h₁, h₂⟩ := Bool.and_eq_true_iff.mp hproper
      cases inherits with
      | none => exact absurd hs (by simp [Node.kind, NodeKind.hasScope])
      | some file =>
        have hbody : body = [] := by simpa using h₂
        have := hall h₁
        subst hbody
        simpa [Node.kind, children, NodeKind.children, NodeKind.walked] using this
    | variableDef mods type title value =>
      have := hall hproper
      simp only [List.flatMap_append, List.flatMap_cons, List.append_eq_nil_iff] at this
      simp [Node.kind, children, NodeKind.children, NodeKind.walked, this]
    | functionDef mods returns title parameters variadic body =>
      obtain ⟨h₁, h₂⟩ := Bool.and_eq_true_iff.mp hproper
      cases body with
      | some body => exact absurd hs (by simp [Node.kind, NodeKind.hasScope])
      | none =>
        have hhead := hall h₁
        have hparams : parameters.flatMap g = [] :=
          hg.flatMap_parameters
            (fun p hmem => hchildren p (by simp [children, NodeKind.children, hmem]))
            (List.all_eq_true.mp h₂)
        show [] = (mods.toList ++ [returns, title] ++ parameters ++ []).flatMap g
        rw [List.append_nil, List.flatMap_append, hhead, hparams]
        rfl
    | parameter type title =>
      have := hall hproper
      simpa [Node.kind, children, NodeKind.children, NodeKind.walked] using this
    | doWhile body condition =>
      have := hg.flat condition hproper
      simp [Node.kind, children, NodeKind.children, NodeKind.walked, this]
    | foreachLoop | switchOn | block | forLoop | tryCatch =>
      exact absurd hs (by simp [Node.kind, NodeKind.hasScope])
    | ifElse | whileLoop | caseLabel | returnValue | breakLoop | continueLoop | empty => rfl
    | _ => exact absurd hproper (by simp [Node.kind, NodeKind.isProper])
  · -- joined with holes is something without braces, which is walked with its holes
    subst hk
    have hno := hb p gs rfl
    obtain ⟨b, e, k⟩ := p
    cases k with
    | block | classDef => exact absurd hno (by simp [Node.kind, NodeKind.hasBraces])
    | _ => rfl

/-- What has a scope is no hole, so its parts are those it should have. -/
theorem isProper_of_hasScope (hp : n.Proper) (hs : n.kind.hasScope = true) :
    n.kind.isProper = true := by
  refine hp.isProper ?_
  rw [← Bool.not_eq_true]
  intro h
  exact absurd hs (by simp [hasScope_of_isFlat h])

/-- Before the scope of a construct is opened, the walk comes to all that lies outside of it. -/
theorem flatMap_outer (hg : Vanishes g) (hp : n.Proper) (hs : n.kind.hasScope = true) :
    n.kind.outer.flatMap g = n.kind.outside.flatMap g := by
  have hproper := isProper_of_hasScope hp hs
  obtain ⟨begin, stop, kind⟩ := n
  cases kind with
  | classDef title inherits body =>
    cases inherits with
    | some file => exact absurd hs (by simp [Node.kind, NodeKind.hasScope])
    | none =>
      have hflat := List.all_eq_true.mp (Bool.and_eq_true_iff.mp hproper).1
      exact (hg.flatMap hflat).symm
  | functionDef mods returns title parameters variadic body =>
    cases body with
    | none => exact absurd hs (by simp [Node.kind, NodeKind.hasScope])
    | some body =>
      have hflat := List.all_eq_true.mp (Bool.and_eq_true_iff.mp hproper).1
      exact (hg.flatMap hflat).symm
  | block | forLoop | foreachLoop | switchOn | tryCatch => rfl
  | _ => exact absurd hs (by simp [Node.kind, NodeKind.hasScope])

/-- A variable of flat parts declares its name and nothing else. -/
theorem held_homes_of_isVariable (hp : n.Proper) (hk : n.kind.isVariable = true) :
    n.held = n.declaration?.toList ∧ n.homes = [] := by
  obtain ⟨begin, stop, kind⟩ := n
  cases kind with
  | variableDef mods type title value =>
    have hflat : ∀ m ∈ (NodeKind.variableDef mods type title value).children,
        m.isFlat = true := by
      simpa [NodeKind.isProper, NodeKind.children, or_imp, forall_and] using hp.isProper rfl
    rw [held_of_hasScope rfl, homes_of_hasScope rfl]
    exact ⟨(congrArg (_ ++ ·) (held_vanishes.flatMap hflat)).trans (List.append_nil _),
      homes_vanishes.flatMap hflat⟩
  | _ => exact absurd hk (by simp [Node.kind, NodeKind.isVariable])

/-- What is recorded of a parameter is its name, where it begins. -/
theorem title_parameterDefinition? (h : (n.isFlat || n.kind.isParameter) = true) :
    (Resolve.parameterDefinition? n).map Definition.title = n.formal? := by
  rcases Bool.or_eq_true_iff.mp h with h | h
  · -- nothing in what is flat is a parameter
    have hprimary := (isFlat_iff.mp (isFlat_primary h)).1
    have hnone : Resolve.parameterDefinition? n = none := by
      unfold Resolve.parameterDefinition?
      split
      · rename_i heq
        rw [heq] at hprimary
        exact absurd hprimary (by simp [NodeKind.isFlat])
      · rfl
    have hkind := (isFlat_iff.mp h).1
    rw [hnone]
    unfold formal?
    split
    · exact absurd hkind (by simp [Node.kind, NodeKind.isFlat])
    · rfl
  · obtain ⟨begin, stop, kind⟩ := n
    cases kind with
    | parameter type title =>
      cases title with
      | none => rfl
      | some title =>
        show (title.nameText?.map _).map _ = title.nameText?.map _
        rw [Option.map_map]
        rfl
    | _ => exact absurd h (by simp [Node.kind, NodeKind.isParameter])

/-- What is flat is no declaration of a variable. -/
theorem isBinding_of_isFlat (h : n.isFlat = true) : n.isBinding = false := by
  have hprimary := (isFlat_iff.mp (isFlat_primary h)).1
  unfold isBinding
  split
  · rename_i heq
    rw [heq] at hprimary
    exact absurd hprimary (by simp [NodeKind.isFlat])
  · rfl

/-- What is recorded of parameters are their names. -/
theorem title_parameters (h : ∀ m ∈ ns, (m.isFlat || m.kind.isParameter) = true) :
    (ns.filterMap Resolve.parameterDefinition?).map Definition.title = ns.filterMap formal? := by
  rw [List.map_filterMap]
  exact List.filterMap_congr fun m hm => title_parameterDefinition? (h m hm)

/-- In the scope of a loop over items the walk comes to the body, and to what it binds unless
this is a variable, which is recorded before. -/
theorem flatMap_inner_foreach {binding iterable body : Node} {inner : List Node} {begin stop : Nat}
    (hn : n = .mk begin stop (.foreachLoop binding iterable body)) (hp : binding.Proper)
    (hbinding : (binding.isFlat || binding.kind.isVariable) = true)
    (hw : n.kind.walked = n.kind.outer ++ inner) :
    inner.flatMap homes = n.kind.inside.flatMap homes ∧
      n.kind.locals ++ inner.flatMap held = n.home.names := by
  subst hn
  -- an expression is walked like the body, while a variable is a local of the loop
  rcases Bool.or_eq_true_iff.mp hbinding with h | h
  · have hb := isBinding_of_isFlat h
    have hinner : inner = [binding, body] := by
      simpa [Node.kind, NodeKind.walked, NodeKind.outer, hb] using hw.symm
    subst hinner
    refine ⟨rfl, ?_⟩
    show (if binding.isBinding then _ else []) ++ _ = [] ++ _
    rw [hb]
    rfl
  · have hvar := held_homes_of_isVariable hp h
    obtain ⟨b, e, k⟩ := binding
    cases k with
    | variableDef mods type title value =>
      have hinner : inner = [body] := List.append_cancel_left hw.symm
      subst hinner
      refine ⟨?_, ?_⟩
      · exact (congrArg (· ++ [body].flatMap homes) hvar.2).symm
      · exact (congrArg (· ++ [body].flatMap held) hvar.1).symm
    | _ => exact absurd h (by simp [Node.kind, NodeKind.isVariable])

/-- In the scope of a construct the walk comes to all that lies in it, but for parameters and
the variable of a loop, which are recorded before. -/
theorem flatMap_inner {inner : List Node} (hp : n.Proper)
    (hparts : ∀ m ∈ n.kind.outside ++ n.kind.inside, m.Proper) (hs : n.kind.hasScope = true)
    (hw : n.kind.walked = n.kind.outer ++ inner) :
    inner.flatMap homes = n.kind.inside.flatMap homes ∧
      n.kind.locals ++ inner.flatMap held = n.home.names := by
  have hproper := isProper_of_hasScope hp hs
  obtain ⟨begin, stop, kind⟩ := n
  cases kind with
  | classDef title inherits body =>
    cases inherits with
    | some file => exact absurd hs (by simp [Node.kind, NodeKind.hasScope])
    | none =>
      obtain rfl : body = inner := hw
      exact ⟨rfl, rfl⟩
  | functionDef mods returns title parameters variadic body =>
    cases body with
    | none => exact absurd hs (by simp [Node.kind, NodeKind.hasScope])
    | some body =>
      obtain rfl : body.bodyParts = inner := (List.flatMap_singleton ..).symm.trans hw
      have hformal := List.all_eq_true.mp (Bool.and_eq_true_iff.mp hproper).2
      -- parameters are no declarations of their own, and the function records their names
      have hnone {γ : Type} {g : Node → List γ} (hg : Vanishes g) : parameters.flatMap g = [] :=
        hg.flatMap_parameters
          (fun p hmem => hparts p (by simp [Node.kind, NodeKind.inside, hmem])) hformal
      refine ⟨?_, ?_⟩
      · show _ = (parameters ++ body.bodyParts).flatMap homes
        rw [List.flatMap_append, hnone homes_vanishes, List.nil_append]
      · show _ ++ _ = parameters.filterMap formal? ++ (parameters ++ body.bodyParts).flatMap held
        rw [List.flatMap_append, hnone held_vanishes, List.nil_append, ← title_parameters hformal]
        rfl
  | foreachLoop binding iterable body =>
    exact flatMap_inner_foreach rfl (hparts binding (by simp [Node.kind, NodeKind.inside]))
      (Bool.and_eq_true_iff.mp hproper).1 hw
  | block statements =>
    obtain rfl : statements = inner := hw
    exact ⟨rfl, rfl⟩
  | forLoop initializer condition step body =>
    obtain rfl : _ = inner := hw
    exact ⟨rfl, rfl⟩
  | switchOn value cases =>
    obtain rfl : cases = inner := List.append_cancel_left hw
    exact ⟨rfl, rfl⟩
  | tryCatch body exception handler =>
    obtain rfl : exception.toList ++ [handler] = inner := List.append_cancel_left hw
    exact ⟨rfl, rfl⟩
  | _ => exact absurd hs (by simp [Node.kind, NodeKind.hasScope])

/-! ## Along the walk -/

/-- A construct that is joined with holes is not one with braces, unless that is its core. -/
theorem core_combination {p : Node} {hs : List Node} (h : n.core.kind = .combination p hs) :
    p.kind.hasBraces = false := by
  rcases n.core_cases with ⟨heq, hb⟩ | ⟨_, _, hb⟩
  · exact hb p hs (heq ▸ h)
  · rw [h] at hb
    exact absurd hb (by simp [NodeKind.hasBraces])

/-- What is walked is part of the tree. -/
theorem subtrees_walked (h : m ∈ n.kind.walked) : m.subtrees ⊆ n.subtrees := by
  intro l hl
  rw [subtrees_eq n]
  refine List.mem_cons_of_mem _ ((NodeKind.walked_subtrees n.kind).subset ?_)
  exact List.mem_flatMap.mpr ⟨m, h, hl⟩

/-- So is what is outside or inside of a scope. -/
theorem subtrees_part (h : m ∈ n.kind.outside ++ n.kind.inside) : m.subtrees ⊆ n.subtrees := by
  intro l hl
  rw [subtrees_eq n]
  refine List.mem_cons_of_mem _ ((NodeKind.parts_subtrees n.kind).subset ?_)
  exact List.mem_flatMap.mpr ⟨m, h, hl⟩

/-- Without its holes a construct is as proper. -/
theorem proper_core (h : ∀ m ∈ n.subtrees, m.Proper) : ∀ m ∈ n.core.subtrees, m.Proper := by
  intro m hm
  obtain ⟨-, hroot⟩ := forall_mem_subtrees.mp h
  rcases n.core_cases with ⟨heq, -⟩ | ⟨hs, hk, -⟩
  · exact h m (heq ▸ hm)
  · exact hroot n.core (by simp [children, hk, NodeKind.children]) m hm

/-- A file that is named declares nothing. -/
theorem held_homes_of_isLink (hp : n.Proper) (hk : n.kind.isLink = true) :
    n.held = [] ∧ n.homes = [] := by
  obtain ⟨begin, stop, kind⟩ := n
  cases kind with
  | includeFile file | inheritFile file =>
    have hflat : ∀ m ∈ [file], m.isFlat = true :=
      List.forall_mem_singleton.mpr (hp.isProper rfl)
    rw [held_of_hasScope rfl, homes_of_hasScope rfl]
    exact ⟨held_vanishes.flatMap hflat, homes_vanishes.flatMap hflat⟩
  | _ => exact absurd hk (by simp [Node.kind, NodeKind.isLink])

/-- **Without a scope of its own** a construct hands on what its parts come to. -/
theorem held_homes_keeps (hp : ∀ m ∈ n.subtrees, m.Proper) (ho : n.kind.opens = false) :
    n.held = n.title?.toList ++ n.kind.walked.flatMap held ∧
      n.homes = n.kind.walked.flatMap homes := by
  have hn := (forall_mem_subtrees.mp hp).1
  obtain ⟨hcore, hparts⟩ := forall_mem_subtrees.mp (proper_core hp)
  have hchildren : ∀ m ∈ n.core.children, m.Proper := fun m hm =>
    (forall_mem_subtrees.mp (hparts m hm)).1
  have hs : n.core.kind.hasScope = false := n.opens_core.trans ho
  -- what is not walked of a construct without a scope declares nothing
  have hwalk {γ : Type} {g : Node → List γ} (hg : Vanishes g) :
      n.kind.walked.flatMap g = n.core.children.flatMap g := by
    rw [← walked_core]
    exact flatMap_walked hg hcore hchildren (fun _ _ => core_combination) hs
  obtain ⟨hheld, hhomes⟩ := held_homes_core hn
  rw [hheld, hhomes, hwalk held_vanishes, hwalk homes_vanishes, title_core hn,
    held_of_hasScope hs, homes_of_hasScope hs]
  exact ⟨rfl, rfl⟩

/-- What belongs to the scope of a construct is what is recorded before its parts are walked, and
what belongs to the scope around the parts. -/
theorem home_core {inner : List Node} (hp : ∀ m ∈ n.subtrees, m.Proper)
    (ho : n.kind.opens = true) (hw : n.kind.walked = n.kind.outer ++ inner) :
    n.core.home = ⟨n.scopeNode.begin, n.kind.locals ++ inner.flatMap held⟩ ∧
      inner.flatMap homes = n.core.kind.inside.flatMap homes := by
  have hcore := (forall_mem_subtrees.mp (proper_core hp)).1
  have hparts : ∀ m ∈ n.core.kind.outside ++ n.core.kind.inside, m.Proper := fun m hm =>
    (forall_mem_subtrees.mp fun l hl => proper_core hp l (subtrees_part hm hl)).1
  rw [← walked_core, ← outer_core] at hw
  obtain ⟨hinner, hnames⟩ := flatMap_inner hcore hparts (n.opens_core.trans ho) hw
  refine ⟨?_, hinner⟩
  rw [← locals_core, hnames, ← begin_core (forall_mem_subtrees.mp hp).1]
  rfl

/-- **With a scope of its own** it keeps in it what is declared there. -/
theorem held_homes_enters {inner : List Node} (hp : ∀ m ∈ n.subtrees, m.Proper)
    (ho : n.kind.opens = true) (hw : n.kind.walked = n.kind.outer ++ inner) :
    n.held = n.title?.toList ++ n.kind.outer.flatMap held ∧
      n.homes = n.kind.outer.flatMap homes ++
        ⟨n.scopeNode.begin, n.kind.locals ++ inner.flatMap held⟩ :: inner.flatMap homes := by
  have hn := (forall_mem_subtrees.mp hp).1
  have hcore := (forall_mem_subtrees.mp (proper_core hp)).1
  have hs : n.core.kind.hasScope = true := n.opens_core.trans ho
  obtain ⟨hhome, hinner⟩ := home_core hp ho hw
  obtain ⟨hheld, hhomes⟩ := held_homes_core hn
  rw [hheld, hhomes, title_core hn, held_eq, homes_eq n.core, if_pos hs, hhome, hinner,
    ← outer_core, flatMap_outer held_vanishes hcore hs, flatMap_outer homes_vanishes hcore hs]
  exact ⟨rfl, rfl⟩

end Node

end MudEdit
