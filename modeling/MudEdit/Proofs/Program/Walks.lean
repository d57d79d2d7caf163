import Mathlib.Data.List.Flatten
import Mathlib.Data.List.Perm.Subperm
import MudEdit.Program.Resolution
import MudEdit.Proofs.Node.Flat
import MudEdit.Proofs.Program.Record

/-!
# What the walk does to a program

The walk knows some fifty constructs, but to the program it does only a few things: it
records a declaration, links a file, or opens a scope, and otherwise it goes on to the
parts of the construct. `Walks library s ns r r'` has one rule for each. Walking the
constructs `ns` in the scope `s` is shown to keep to these rules; what a program is like then
needs an induction over them and not over the constructs.
-/

namespace MudEdit

variable {kind : NodeKind}

/-! ## The parts that are walked -/

namespace Node

/-- What is walked of the body of a function. -/
def bodyParts : Node → List Node
  | .mk _ _ (.block statements) => statements
  | .mk _ _ (.combination primary _) => primary.bodyParts
  | n => [n]

/-- Whether what a loop binds is declared there. -/
def isBinding (n : Node) : Bool :=
  match n.primary.kind with
  | .variableDef _ _ _ _ => true
  | _ => false

/-- The construct whose span is that of the scope: for a function that is its body. -/
def scopeNode (n : Node) : Node :=
  match n.kind with
  | .functionDef _ _ _ _ _ (some body) => body
  | _ => n

/-- Where a scope with the span of the construct ends: with it, but nowhere if it is a body that
was read without its closing brace. -/
def reach (n : Node) : Nat := if Resolve.isUnclosed n then endless else n.stop

/-- Without holes a construct reaches to its end. -/
theorem reach_of_kind {n : Node} (h : ∀ p hs, n.kind ≠ .combination p hs) :
    n.reach = n.stop := by
  unfold reach Resolve.isUnclosed
  split
  · exact absurd ‹_› (h _ _)
  · rfl

/-- What is recorded of the construct itself: where it begins, and the name that it declares.
A class that is joined with holes is recorded where the whole begins. -/
def title? : Node → Option (Nat × String)
  | .mk begin _ (.variableDef _ _ title _) | .mk begin _ (.functionDef _ _ title _ _ _)
  | .mk begin _ (.classDef title _ _) | .mk begin _ (.combination (.mk _ _ (.classDef title _ _)) _)
    => title.nameText?.map (begin, ·)
  | _ => none

end Node

/-- Where a declaration begins, and its name. -/
def Definition.title (d : Definition) : Nat × String := (d.begin, d.name)

namespace NodeKind

/-- What is recorded in the scope of the construct before its parts are walked: the parameters
of a function, or the variable of a loop. -/
def locals : NodeKind → List (Nat × String)
  | functionDef _ _ _ parameters _ (some _) =>
    (parameters.filterMap Resolve.parameterDefinition?).map Definition.title
  | foreachLoop binding _ _ => if binding.isBinding then binding.primary.title?.toList else []
  | _ => []

/-- The parts that are walked before the scope of the construct is opened. -/
def outer : NodeKind → List Node
  | foreachLoop _ iterable _ => [iterable]
  | switchOn value _ => [value]
  | tryCatch body _ _ => [body]
  | _ => []

/-- The parts of a construct that are walked, in the order of the walk. -/
def walked : NodeKind → List Node
  | combination (.mk _ _ (.block statements)) _ => statements
  | combination (.mk _ _ (.classDef _ inherits body)) _ => if inherits.isSome then [] else body
  | combination primary holes => primary :: holes
  | classDef _ inherits body => if inherits.isSome then [] else body
  | variableDef _ _ _ value => value.toList
  | functionDef _ _ _ _ _ body => body.toList.flatMap Node.bodyParts
  | block statements => statements
  | ifElse condition thenBranch elseBranch => [condition, thenBranch] ++ elseBranch.toList
  | whileLoop condition body => [condition, body]
  | doWhile body condition => [condition, body]
  | forLoop initializer condition step body =>
    initializer.toList ++ (condition.toList ++ (step.toList ++ [body]))
  | foreachLoop binding iterable body =>
    [iterable] ++ ((if binding.isBinding then [] else [binding]) ++ [body])
  | switchOn value cases => [value] ++ cases
  | caseLabel label statements => label.toList ++ statements
  | returnValue value => value.toList
  | tryCatch body exception handler => [body] ++ (exception.toList ++ [handler])
  | call callee arguments => [callee] ++ arguments
  | member receiver _ _ => [receiver]
  | new target arguments => arguments ++ if Resolve.isType target then [] else [target]
  | cast _ value => [value]
  | subscript target index => [target, index]
  | range lower upper => lower.toList ++ upper.toList
  | binary _ lhs rhs => [lhs, rhs]
  | unary _ operand => [operand]
  | ternary condition thenValue elseValue => [condition, thenValue, elseValue]
  | typeTest value _ => [value]
  | array items => items
  | mapping entries => entries
  | entry key value => [key, value]
  | _ => []

/-- Whether the construct has a scope, declares a name or links a file. -/
def acts : NodeKind → Bool
  | combination (.mk _ _ (.block _)) _ | combination (.mk _ _ (.classDef _ _ _)) _
  | includeFile _ | inheritFile _ | classDef _ _ _ | variableDef _ _ _ _
  | functionDef _ _ _ _ _ _ | block _ | forLoop _ _ _ _ | foreachLoop _ _ _ | switchOn _ _
  | tryCatch _ _ _ => true
  | _ => false

/-- Whether the construct has a scope of its own. -/
def hasScope : NodeKind → Bool
  | classDef _ none _ | functionDef _ _ _ _ _ (some _) | block _ | forLoop _ _ _ _
  | foreachLoop _ _ _ | switchOn _ _ | tryCatch _ _ _ => true
  | _ => false

/-- Whether the walk opens a scope at the construct. It does so before it comes to braces in
which it found holes. -/
def opens : NodeKind → Bool
  | combination primary _ => primary.kind.hasBraces && primary.kind.hasScope
  | kind => kind.hasScope

/-- What opens a scope names no file. -/
theorem isLink_of_opens (h : kind.opens = true) : kind.isLink = false := by
  cases kind with
  | includeFile | inheritFile => exact absurd h (by simp [opens, hasScope])
  | _ => rfl

/-- A construct with a scope is a statement or a declaration. -/
theorem not_isFlat_of_opens {n : Node} (h : n.kind.opens = true) : n.isFlat = false := by
  obtain ⟨begin, stop, kind⟩ := n
  cases kind with
  | combination primary holes =>
    obtain ⟨b, e, k⟩ := primary
    cases k with
    | block | classDef => exact Node.not_isFlat_of_child List.mem_cons_self rfl
    | _ => exact absurd h (by simp [opens, hasBraces, Node.kind])
  | classDef | functionDef | block | forLoop | foreachLoop | switchOn | tryCatch =>
    exact Node.not_isFlat_of_kind rfl
  | _ => exact absurd h (by simp [opens, hasScope, Node.kind])

/-- What does nothing names no file. -/
theorem isLink_of_acts (h : kind.acts = false) : kind.isLink = false := by
  cases kind with
  | includeFile | inheritFile => exact absurd h (by simp [acts])
  | _ => rfl

/-- But for functions and combinations the parts walked are parts of the construct, each once. -/
theorem walked_subperm (hf : ∀ mods returns title parameters variadic body,
      kind ≠ .functionDef mods returns title parameters variadic body)
    (hc : ∀ p hs, kind ≠ .combination p hs) : kind.walked.Subperm kind.children := by
  cases kind with
  | functionDef => exact (hf _ _ _ _ _ _ rfl).elim
  | combination => exact (hc _ _ rfl).elim
  | classDef _ inherits _ =>
    simp only [walked, children]
    split
    · exact List.nil_subperm
    · exact (List.sublist_append_right ..).subperm
  | variableDef => exact (List.sublist_append_right ..).subperm
  | doWhile body condition => exact (List.Perm.swap ..).subperm
  | forLoop => simp only [walked, children, List.append_assoc]; exact .refl _
  | foreachLoop binding iterable body =>
    simp only [walked, children]
    split
    · exact (List.sublist_cons_self ..).subperm
    · exact (List.Perm.swap ..).subperm
  | new target arguments =>
    simp only [walked, children]
    split
    · rw [List.append_nil]; exact (List.sublist_cons_self ..).subperm
    · exact (List.perm_append_singleton ..).subperm
  | member receiver _ title => exact (List.sublist_append_left [receiver] [title]).subperm
  | cast type value => exact (List.sublist_append_right [type] [value]).subperm
  | typeTest value type => exact (List.sublist_append_left [value] [type]).subperm
  | tryCatch => simp only [walked, children, List.append_assoc]; exact .refl _
  | _ => first | exact .refl _ | exact List.nil_subperm

/-- The parts of a body are some of its subtrees. -/
theorem bodyParts_subperm (n : Node) :
    (n.bodyParts.flatMap Node.subtrees).Subperm n.subtrees := by
  fun_induction Node.bodyParts n with
  | case1 =>
    rw [Node.subtrees_eq]
    exact (List.sublist_cons_self ..).subperm
  | case2 begin stop primary holes ih =>
    rw [Node.subtrees_eq]
    refine ih.trans ?_
    exact ((List.sublist_append_left ..).trans (List.sublist_cons_self ..)).subperm
  | case3 =>
    rw [List.flatMap_singleton]

/-- What is walked of a construct is in the trees of its parts, and nothing of it twice. -/
theorem walked_subtrees (kind : NodeKind) : (kind.walked.flatMap Node.subtrees).Subperm
    (kind.children.flatMap Node.subtrees) := by
  -- what holds of the parts holds of all below them
  have hflat : ∀ {ns ms : List Node}, ns.Subperm ms →
      (ns.flatMap Node.subtrees).Subperm (ms.flatMap Node.subtrees) := by
    rintro ns ms ⟨l, hp, hs⟩
    exact ⟨_, hp.flatMap_right _, hs.flatMap _⟩
  cases kind with
  | functionDef mods returns title parameters variadic body =>
    cases body with
    | none => exact List.nil_subperm
    | some body =>
      simp only [walked, children, Option.toList, List.flatMap_singleton, List.flatMap_append]
      -- the body is taken apart, but not twice
      exact (bodyParts_subperm body).trans (List.sublist_append_right ..).subperm
  | combination primary holes =>
    obtain ⟨b, e, k⟩ := primary
    simp only [children, List.flatMap_cons]
    cases k with
    | block statements =>
      rw [walked, Node.subtrees_eq]
      exact ((List.sublist_cons_self ..).trans (List.sublist_append_left ..)).subperm
    | classDef title inherits body =>
      rw [walked, Node.subtrees_eq]
      have hsub : (NodeKind.classDef title inherits body).walked.Subperm
          (NodeKind.classDef title inherits body).children :=
        walked_subperm (fun _ _ _ _ _ _ h => NodeKind.noConfusion h)
          fun _ _ h => NodeKind.noConfusion h
      refine (hflat hsub).trans ?_
      exact ((List.sublist_cons_self ..).trans (List.sublist_append_left ..)).subperm
    | _ => exact .refl _
  | _ =>
    refine hflat (walked_subperm ?_ ?_)
    · exact fun _ _ _ _ _ _ h => NodeKind.noConfusion h
    · exact fun _ _ h => NodeKind.noConfusion h

end NodeKind

/-- What holds of a node whenever it holds of the parts that are walked holds of every node. -/
theorem Node.induct_walked {motive : Node → Prop}
    (step : ∀ n : Node, (∀ m ∈ n.kind.walked, motive m) → motive n) (n : Node) : motive n := by
  suffices h : ∀ m ∈ n.subtrees, motive m from (Node.forall_mem_subtrees.mp h).1
  induction n using Node.induct with
  | step n ih =>
    refine Node.forall_mem_subtrees.mpr ⟨step n fun m hm => ?_, ih⟩
    -- what is walked is further down
    have hin : m ∈ n.kind.walked.flatMap Node.subtrees :=
      List.mem_flatMap.mpr ⟨m, hm, by rw [Node.subtrees_eq]; exact List.mem_cons_self⟩
    obtain ⟨c, hc, hsub⟩ := List.mem_flatMap.mp ((NodeKind.walked_subtrees _).subset hin)
    exact ih c hc m hsub

/-- A construct is not flat if something walked of it is not. -/
theorem Node.not_isFlat_of_walked {n m : Node} (hm : m ∈ n.kind.walked)
    (h : m.isFlat = false) : n.isFlat = false := by
  obtain ⟨k, hk, hkf⟩ := List.all_eq_false.mp h
  have hin := (NodeKind.walked_subtrees _).subset (List.mem_flatMap.mpr ⟨m, hm, hk⟩)
  refine List.all_eq_false.mpr ⟨k, ?_, hkf⟩
  rw [Node.subtrees_eq]
  exact List.mem_cons_of_mem _ hin

/-! ## The rules of the walk -/

/-- The resolution when a step has been taken. -/
def Resolve.after {α : Type} (p : Resolve α) (r : Resolution) : Resolution := (p r).2

/-- Where a scope is: its stretch of source, the scope around it and those in it. -/
structure Frame where
  begin : Nat
  stop : Nat
  parent : Option Nat
  children : List Nat
  deriving Inhabited

def Scope.frame (s : Scope) : Frame := ⟨s.begin, s.stop, s.parent, s.children⟩

/-- The instruction for a declaration, where it begins. -/
def Definition.placed (d : Definition) : Nat × Instruction := (d.begin, .define d)

/-- A change to what is recorded in a scope, in its place, but not to where the scope is. -/
structure Scope.Fills (f : Scope → Scope) : Prop where
  frame : ∀ s, (f s).frame = s.frame
  ordered : ∀ s, s.Ordered → (f s).Ordered

/-- A change that records some declarations. -/
structure Scope.Gains (ds : List Definition) (f : Scope → Scope) : Prop extends Fills f where
  instructions : ∀ s, (f s).instructions = insertAll (ds.map Definition.placed) s.instructions

namespace Resolution

/-- With the declaration recorded in the scope. -/
def define (r : Resolution) (s : Nat) (d : Definition) : Resolution :=
  { r with program := r.program.modifyScope s (·.record d.begin (.define d)) }

/-- With the declaration recorded in the scope, if there is one. -/
def declare (r : Resolution) (s : Nat) (o : Option Definition) : Resolution :=
  o.elim r (r.define s)

/-- With a scope opened in another one, and filled at once. -/
def enter (r : Resolution) (s begin stop : Nat) (f : Scope → Scope) : Resolution :=
  { r with program :=
      (r.program.openScope s begin stop).modifyScope r.program.scopes.size f }

end Resolution

/-- What walking constructs in a scope does. -/
inductive Walks (library : Library) : Nat → List Node → Resolution → Resolution → Prop where
  | nil {s : Nat} {r : Resolution} : Walks library s [] r r
  | append {s : Nat} {ns ms : List Node} {r r₁ r' : Resolution} :
      Walks library s ns r r₁ → Walks library s ms r₁ r' → Walks library s (ns ++ ms) r r'
  /-- The parts are walked where the construct is. -/
  | parts {s : Nat} {n : Node} {r r' : Resolution} :
      n.kind.isLink = false → Walks library s n.kind.walked r r' → Walks library s [n] r r'
  /-- A file is included or inherited. -/
  | includes {s begin stop : Nat} {path : Node} {r : Resolution} :
      Walks library s [.mk begin stop (.includeFile path)] r
        (Resolve.after (Resolve.link library begin path .includeFile .addIncluded) r)
  | inherits {s begin stop : Nat} {path : Node} {r : Resolution} :
      Walks library s [.mk begin stop (.inheritFile path)] r
        (Resolve.after (Resolve.link library begin path .inheritFile .addInherited) r)
  /-- A construct is declared before its parts are walked. -/
  | declared {s : Nat} {n : Node} {d : Definition} {r r' : Resolution} :
      n.isTitled = true → d.begin = n.begin → Walks library s [n] (r.define s d) r' →
      Walks library s [n] r r'
  /-- A construct is declared after its parts were walked. -/
  | declares {s : Nat} {n : Node} {d : Definition} {r r' : Resolution} :
      Walks library s [n] r r' → n.isTitled = true → d.begin = n.begin →
      Walks library s [n] r (r'.define s d)
  /-- The parts are walked in a new scope, after those that the construct is about. -/
  | enters {s : Nat} {n : Node} {inner : List Node} {f : Scope → Scope}
      {r r₁ r' : Resolution} :
      n.kind.opens = true → n.kind.walked = n.kind.outer ++ inner →
      Walks library s n.kind.outer r r₁ → Scope.Fills f →
      Walks library r₁.program.scopes.size inner
        (r₁.enter s n.scopeNode.begin n.scopeNode.reach f) r' →
      Walks library s [n] r r'

end MudEdit
