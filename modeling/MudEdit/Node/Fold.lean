import MudEdit.Node.Basic

/-!
# One recursion over trees

`Node.fold` visits a tree from the leaves up, giving a function the node and the
results of its children in source order. The walks over trees are folds, so
`fold_eq` is the one equation they need, and `Node.induct` the one induction.
-/

namespace MudEdit

section Fold

variable {β : Type} (f : Node → List β → β)

mutual

/-- The result of `f` for the node and, in order, the results for its children. -/
def Node.fold : Node → β
  | .mk b s k => f (.mk b s k) (k.foldChildren)

/-- The results for the children of a construct. -/
def NodeKind.foldChildren : NodeKind → List β
  | .combination a b => a.fold :: Node.foldList b
  | .includeFile a => [a.fold]
  | .inheritFile a => [a.fold]
  | .classDef a b c => [a.fold] ++ Node.foldOption b ++ Node.foldList c
  | .variableDef a b c d => Node.foldOption a ++ Node.foldOption b ++ [c.fold] ++ Node.foldOption d
  | .functionDef a b c d _ e =>
    Node.foldOption a ++ [b.fold, c.fold] ++ Node.foldList d ++ Node.foldOption e
  | .parameter a b => a.fold :: Node.foldOption b
  | .block a => Node.foldList a
  | .ifElse a b c => [a.fold, b.fold] ++ Node.foldOption c
  | .whileLoop a b => [a.fold, b.fold]
  | .doWhile a b => [a.fold, b.fold]
  | .forLoop a b c d => Node.foldOption a ++ Node.foldOption b ++ Node.foldOption c ++ [d.fold]
  | .foreachLoop a b c => [a.fold, b.fold, c.fold]
  | .switchOn a b => a.fold :: Node.foldList b
  | .caseLabel a b => Node.foldOption a ++ Node.foldList b
  | .returnValue a => Node.foldOption a
  | .tryCatch a b c => [a.fold] ++ Node.foldOption b ++ [c.fold]
  | .scopeChain a b => Node.foldOption a ++ [b.fold]
  | .call a b => a.fold :: Node.foldList b
  | .member a _ b => [a.fold, b.fold]
  | .new a b => a.fold :: Node.foldList b
  | .cast a b => [a.fold, b.fold]
  | .subscript a b => [a.fold, b.fold]
  | .range a b => Node.foldOption a ++ Node.foldOption b
  | .binary _ a b => [a.fold, b.fold]
  | .unary _ a => [a.fold]
  | .ternary a b c => [a.fold, b.fold, c.fold]
  | .typeTest a b => [a.fold, b.fold]
  | .array a => Node.foldList a
  | .mapping a => Node.foldList a
  | .entry a b => [a.fold, b.fold]
  | .strings a => Node.foldList a
  | .arrayType a => [a.fold]
  | .orType a b => [a.fold, b.fold]
  | .functionType a b _ => a.fold :: Node.foldList b
  | _ => []

/-- The results for the nodes of a list. -/
def Node.foldList : List Node → List β
  | [] => []
  | n :: ns => n.fold :: Node.foldList ns

/-- The result for a node that may be absent. -/
def Node.foldOption : Option Node → List β
  | none => []
  | some n => [n.fold]

end

theorem Node.foldList_eq (ns : List Node) : Node.foldList f ns = ns.map (Node.fold f) := by
  induction ns with
  | nil => rfl
  | cons n ns ih => simp [Node.foldList, ih]

theorem Node.foldOption_eq (o : Option Node) :
    Node.foldOption f o = o.toList.map (Node.fold f) := by
  cases o <;> rfl

theorem NodeKind.foldChildren_eq (k : NodeKind) :
    k.foldChildren f = k.children.map (Node.fold f) := by
  cases k <;>
    simp [NodeKind.foldChildren, NodeKind.children, Node.foldList_eq, Node.foldOption_eq]

theorem Node.fold_eq (n : Node) : n.fold f = f n (n.children.map (Node.fold f)) := by
  cases n with
  | mk b s k => simp [Node.fold, NodeKind.foldChildren_eq, Node.children]

end Fold

theorem NodeKind.sizeOf_lt_of_mem {k : NodeKind} {c : Node} (h : c ∈ k.children) :
    sizeOf c < sizeOf k := by
  have inList {ns : List Node} (h : c ∈ ns) : sizeOf c < sizeOf ns := List.sizeOf_lt_of_mem h
  have inOption {o : Option Node} (h : o = some c) : sizeOf c < sizeOf o := by
    subst h; simp
  cases k <;> simp only [NodeKind.children, List.mem_append, List.mem_cons, Option.mem_toList,
      List.not_mem_nil, or_false] at h <;>
    simp only [NodeKind.combination.sizeOf_spec, NodeKind.includeFile.sizeOf_spec,
      NodeKind.inheritFile.sizeOf_spec, NodeKind.classDef.sizeOf_spec,
      NodeKind.variableDef.sizeOf_spec, NodeKind.functionDef.sizeOf_spec,
      NodeKind.parameter.sizeOf_spec, NodeKind.block.sizeOf_spec, NodeKind.ifElse.sizeOf_spec,
      NodeKind.whileLoop.sizeOf_spec, NodeKind.doWhile.sizeOf_spec, NodeKind.forLoop.sizeOf_spec,
      NodeKind.foreachLoop.sizeOf_spec, NodeKind.switchOn.sizeOf_spec,
      NodeKind.caseLabel.sizeOf_spec, NodeKind.returnValue.sizeOf_spec,
      NodeKind.tryCatch.sizeOf_spec, NodeKind.scopeChain.sizeOf_spec, NodeKind.call.sizeOf_spec,
      NodeKind.member.sizeOf_spec, NodeKind.new.sizeOf_spec, NodeKind.cast.sizeOf_spec,
      NodeKind.subscript.sizeOf_spec, NodeKind.range.sizeOf_spec, NodeKind.binary.sizeOf_spec,
      NodeKind.unary.sizeOf_spec, NodeKind.ternary.sizeOf_spec, NodeKind.typeTest.sizeOf_spec,
      NodeKind.array.sizeOf_spec, NodeKind.mapping.sizeOf_spec, NodeKind.entry.sizeOf_spec,
      NodeKind.strings.sizeOf_spec, NodeKind.arrayType.sizeOf_spec, NodeKind.orType.sizeOf_spec,
      NodeKind.functionType.sizeOf_spec] <;>
    grind

theorem Node.sizeOf_lt_of_mem {n c : Node} (h : c ∈ n.children) : sizeOf c < sizeOf n := by
  cases n with
  | mk b s k =>
    have := NodeKind.sizeOf_lt_of_mem (k := k) h
    simp only [Node.mk.sizeOf_spec]
    omega

/-- What holds of a node whenever it holds of its children holds of every node. -/
theorem Node.induct {motive : Node → Prop}
    (step : ∀ n, (∀ c ∈ n.children, motive c) → motive n) (n : Node) : motive n :=
  step n fun c _ => Node.induct step c
termination_by sizeOf n
decreasing_by exact Node.sizeOf_lt_of_mem ‹_›

end MudEdit
