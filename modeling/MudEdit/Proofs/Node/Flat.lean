import MudEdit.Proofs.Node.Span

/-!
# Flat trees

Types and expressions hold no statement and no declaration, so nothing in them has a scope,
declares a name or names a file. What stands beside the statements and declarations of a
construct is flat.
-/

namespace MudEdit

namespace NodeKind

/-- The constructs that are neither statements with parts nor declarations. -/
def isFlat : NodeKind → Bool
  | includeFile _ | inheritFile _ | classDef _ _ _ | variableDef _ _ _ _
  | functionDef _ _ _ _ _ _ | parameter _ _ | block _ | ifElse _ _ _ | whileLoop _ _ | doWhile _ _
  | forLoop _ _ _ _ | foreachLoop _ _ _ | switchOn _ _ | caseLabel _ _ | returnValue _
  | tryCatch _ _ _ => false
  | _ => true

/-- Whether the construct is a parameter. -/
def isParameter : NodeKind → Bool
  | parameter _ _ => true
  | _ => false

/-- Whether the construct is a variable. -/
def isVariable : NodeKind → Bool
  | variableDef _ _ _ _ => true
  | _ => false

/-- Whether the construct has braces of its own. -/
def hasBraces : NodeKind → Bool
  | block _ | classDef _ _ _ => true
  | _ => false

theorem hasBraces_of_isFlat {kind : NodeKind} (h : kind.isFlat = true) :
    kind.hasBraces = false := by
  cases kind with
  | block | classDef => exact absurd h (by simp [isFlat])
  | _ => rfl

end NodeKind

/-- Whether no construct in the tree is a statement with parts or a declaration. -/
def Node.isFlat (n : Node) : Bool := n.subtrees.all (·.kind.isFlat)

theorem Node.isFlat_iff {n : Node} :
    n.isFlat = true ↔ n.kind.isFlat = true ∧ ∀ c ∈ n.children, c.isFlat = true := by
  simp only [isFlat, List.all_eq_true]
  exact forall_mem_subtrees

theorem Node.isFlat_of_leaf {n : Node} (h : n.kind.isFlat = true) (hc : n.children = []) :
    n.isFlat = true := isFlat_iff.mpr ⟨h, by simp [hc]⟩

namespace Node

variable {n : Node}

theorem isFlat_of_mem {m : Node} (h : n.isFlat = true) (hm : m ∈ n.subtrees) :
    m.isFlat = true :=
  List.all_eq_true.mpr fun k hk => List.all_eq_true.mp h k (subtrees_subset hm hk)

theorem isFlat_primary (h : n.isFlat = true) : n.primary.isFlat = true := by
  fun_induction primary n with
  | case1 begin stop p holes ih => exact ih ((isFlat_iff.mp h).2 p List.mem_cons_self)
  | case2 => exact h

theorem not_isFlat_of_kind (h : n.kind.isFlat = false) : n.isFlat = false := by
  rw [← Bool.not_eq_true, isFlat_iff, h]
  simp

theorem not_isFlat_of_child {m : Node} (hm : m ∈ n.children) (h : m.kind.isFlat = false) :
    n.isFlat = false := by
  rw [← Bool.not_eq_true, isFlat_iff]
  exact fun hn => absurd (hn.2 m hm) (by simp [not_isFlat_of_kind h])

end Node

/-- A statement or a declaration whose other parts are flat: the names and types, and what a
loop or a switch goes over. A class that is made from a file has no members. -/
def NodeKind.isProper : NodeKind → Bool
  | includeFile file | inheritFile file => file.isFlat
  | classDef title inherits body =>
    (title :: inherits.toList).all Node.isFlat && (inherits.isNone || body.isEmpty)
  | variableDef mods type title value =>
    (mods.toList ++ type.toList ++ title :: value.toList).all Node.isFlat
  | functionDef mods returns title parameters _ _ =>
    (mods.toList ++ [returns, title]).all Node.isFlat &&
      parameters.all fun p => p.isFlat || p.kind.isParameter
  | parameter type title => (type :: title.toList).all Node.isFlat
  | doWhile _ condition => condition.isFlat
  | foreachLoop binding value _ => (binding.isFlat || binding.kind.isVariable) && value.isFlat
  | switchOn value _ => value.isFlat
  | block _ | ifElse _ _ _ | whileLoop _ _ | forLoop _ _ _ _ | caseLabel _ _ | returnValue _
  | tryCatch _ _ _ | breakLoop | continueLoop | empty => true
  | _ => false

/-! ## Constructs that are recorded

A construct that names another file is recorded in the scope of its file, and one that
declares a name in the scope it is in, each at the offset where it begins. There is one place
at an offset, so two of them must not begin together, or the later one gets lost.
-/

namespace NodeKind

/-- Whether the construct names another file. -/
def isLink : NodeKind → Bool
  | includeFile _ | inheritFile _ => true
  | _ => false

/-- Whether the construct declares a name that is there. -/
def isTitled : NodeKind → Bool
  | variableDef _ _ title _ | functionDef _ _ title _ _ _ | classDef title _ _
  | parameter _ (some title) => title.nameText?.isSome
  | _ => false

/-- Whether the construct is recorded where it begins. -/
def isRecorded (kind : NodeKind) : Bool := kind.isLink || kind.isTitled

variable {kind : NodeKind}

theorem isRecorded_of_isFlat (h : kind.isFlat = true) : kind.isRecorded = false := by
  cases kind with
  | includeFile | inheritFile | classDef | variableDef | functionDef | parameter =>
    exact absurd h (by simp [isFlat])
  | _ => rfl

/-- The name of a file and the name that is declared are parts of the construct. -/
theorem isRecorded_of_children (h : kind.children = []) : kind.isRecorded = false := by
  cases kind with
  | includeFile | inheritFile | variableDef | functionDef | classDef | parameter =>
    exact absurd h (by simp [children])
  | _ => rfl

end NodeKind

namespace Node

variable {n m : Node} {hs : List Node}

/-- Whether the construct declares a name that is there, holes aside. -/
def isTitled (n : Node) : Bool := n.primary.kind.isTitled

/-- Whether the construct is recorded where it begins, holes aside. -/
def isRecorded (n : Node) : Bool := n.kind.isLink || n.isTitled

theorem primary_of_kind (h : ∀ p hs, n.kind ≠ .combination p hs) : n.primary = n := by
  obtain ⟨begin, stop, kind⟩ := n
  cases kind with
  | combination p hs => exact absurd rfl (h p hs)
  | _ => rfl

theorem primary_combine (n : Node) (hs : List Node) : (n.combine hs).primary = n.primary := by
  unfold combine
  split <;> rfl

theorem isRecorded_of_kind (h : ∀ p hs, n.kind ≠ .combination p hs)
    (hk : n.kind.isRecorded = false) : n.isRecorded = false := by
  rw [isRecorded, isTitled, primary_of_kind h]
  exact hk

/-- In types and expressions nothing is recorded. -/
theorem isRecorded_of_isFlat (h : n.isFlat = true) (hm : m ∈ n.subtrees) :
    m.isRecorded = false := by
  have hflat := isFlat_of_mem h hm
  have hkind := NodeKind.isRecorded_of_isFlat (isFlat_iff.mp hflat).1
  have hprimary := NodeKind.isRecorded_of_isFlat (isFlat_iff.mp (isFlat_primary hflat)).1
  rw [NodeKind.isRecorded, Bool.or_eq_false_iff] at hkind hprimary
  rw [isRecorded, isTitled, hkind.1, hprimary.2, Bool.false_or]

theorem children_of_isHole (h : n.isHole = true) : n.children = [] := by
  obtain ⟨begin, stop, kind⟩ := n
  cases kind with
  | missing | wrong => rfl
  | _ => exact absurd h (by simp [isHole])

theorem isFlat_of_isHole (h : n.isHole = true) : n.isFlat = true := by
  obtain ⟨begin, stop, kind⟩ := n
  cases kind with
  | missing | wrong => rfl
  | _ => exact absurd h (by simp [isHole])

/-! ## Siblings in order -/

/-- The first construct ends before the second begins; of types and expressions, it may be that
the second ends some way before the first. -/
def Spaced (a b : Node) : Prop :=
  a.stop ≤ b.begin ∨ a.isFlat = true ∧ b.isFlat = true ∧ b.stop < a.begin

end Node

end MudEdit
