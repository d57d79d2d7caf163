import MudEdit.Grammar.Annotation
import MudEdit.Proofs.Node.Span
import MudEdit.Proofs.Token.Relocation

/-!
# Moving trees to other offsets

A tree at its new place has all of its offsets moved and is otherwise the same: its
constructs, its height, its holes and what they report. Since the order of offsets is kept,
a tree may be moved before or after it is put together.
-/

namespace MudEdit

section

variable (φ : Relocation)

mutual

/-- The tree at its new place. -/
def Node.relocate : Node → Node
  | .mk b s k => .mk (φ.move b) (φ.move s) k.relocate

/-- The construct with its parts at their new places. -/
def NodeKind.relocate : NodeKind → NodeKind
  | .missing e => .missing e
  | .wrong e found => .wrong e found
  | .combination a b => .combination a.relocate (Node.relocateList b)
  | .includeFile a => .includeFile a.relocate
  | .inheritFile a => .inheritFile a.relocate
  | .classDef a b c => .classDef a.relocate (Node.relocateOption b) (Node.relocateList c)
  | .modifiers words => .modifiers words
  | .variableDef a b c d => .variableDef (Node.relocateOption a) (Node.relocateOption b) c.relocate
      (Node.relocateOption d)
  | .functionDef a b c d v e => .functionDef (Node.relocateOption a) b.relocate c.relocate
      (Node.relocateList d) v (Node.relocateOption e)
  | .parameter a b => .parameter a.relocate (Node.relocateOption b)
  | .block a => .block (Node.relocateList a)
  | .ifElse a b c => .ifElse a.relocate b.relocate (Node.relocateOption c)
  | .whileLoop a b => .whileLoop a.relocate b.relocate
  | .doWhile a b => .doWhile a.relocate b.relocate
  | .forLoop a b c d => .forLoop (Node.relocateOption a) (Node.relocateOption b)
      (Node.relocateOption c) d.relocate
  | .foreachLoop a b c => .foreachLoop a.relocate b.relocate c.relocate
  | .switchOn a b => .switchOn a.relocate (Node.relocateList b)
  | .caseLabel a b => .caseLabel (Node.relocateOption a) (Node.relocateList b)
  | .breakLoop => .breakLoop
  | .continueLoop => .continueLoop
  | .returnValue a => .returnValue (Node.relocateOption a)
  | .tryCatch a b c => .tryCatch a.relocate (Node.relocateOption b) c.relocate
  | .empty => .empty
  | .name text => .name text
  | .scopeChain a b => .scopeChain (Node.relocateOption a) b.relocate
  | .call a b => .call a.relocate (Node.relocateList b)
  | .member a access b => .member a.relocate access b.relocate
  | .new a b => .new a.relocate (Node.relocateList b)
  | .cast a b => .cast a.relocate b.relocate
  | .subscript a b => .subscript a.relocate b.relocate
  | .range a b => .range (Node.relocateOption a) (Node.relocateOption b)
  | .binary op a b => .binary op a.relocate b.relocate
  | .unary op a => .unary op a.relocate
  | .ternary a b c => .ternary a.relocate b.relocate c.relocate
  | .typeTest a b => .typeTest a.relocate b.relocate
  | .array a => .array (Node.relocateList a)
  | .mapping a => .mapping (Node.relocateList a)
  | .entry a b => .entry a.relocate b.relocate
  | .strings a => .strings (Node.relocateList a)
  | .int value => .int value
  | .float value => .float value
  | .string value => .string value
  | .char value => .char value
  | .symbol value => .symbol value
  | .bool value => .bool value
  | .nil => .nil
  | .this => .this
  | .basicType basic file => .basicType basic file
  | .arrayType a => .arrayType a.relocate
  | .orType a b => .orType a.relocate b.relocate
  | .functionType a b v => .functionType a.relocate (Node.relocateList b) v

/-- The trees at their new places. -/
def Node.relocateList : List Node → List Node
  | [] => []
  | n :: ns => n.relocate :: Node.relocateList ns

/-- The tree, if there is one, at its new place. -/
def Node.relocateOption : Option Node → Option Node
  | none => none
  | some n => some n.relocate

end

end

variable (φ : Relocation) (n : Node)

theorem Node.relocateList_eq (ns : List Node) :
    Node.relocateList φ ns = ns.map (Node.relocate φ) := by
  induction ns with
  | nil => rfl
  | cons n ns ih => rw [Node.relocateList, ih, List.map_cons]

theorem Node.relocateOption_eq (o : Option Node) :
    Node.relocateOption φ o = o.map (Node.relocate φ) := by
  cases o <;> rfl

attribute [simp] NodeKind.relocate Node.relocateList_eq Node.relocateOption_eq

theorem NodeKind.children_relocate (k : NodeKind) :
    (k.relocate φ).children = k.children.map (Node.relocate φ) := by
  cases k <;> simp [NodeKind.children, Option.toList_map]

theorem NodeKind.relocate_eq_self {k : NodeKind} (h : ∀ n ∈ k.children, n.relocate φ = n) :
    k.relocate φ = k := by
  have hlist : ∀ {ns : List Node}, (∀ n ∈ ns, n.relocate φ = n) →
      ns.map (Node.relocate φ) = ns := fun h => (List.map_congr_left h).trans (List.map_id _)
  have hoption : ∀ {o : Option Node}, (∀ n, o = some n → n.relocate φ = n) →
      o.map (Node.relocate φ) = o := by
    intro o h
    cases o with
    | none => rfl
    | some n => rw [Option.map_some, h n rfl]
  cases k <;> simp_all [NodeKind.children]

/-- What a hole expects and finds does not depend on where it is. -/
theorem NodeKind.relocate_of_isHole {n : Node} (h : n.isHole = true) :
    n.kind.relocate φ = n.kind := by
  obtain ⟨b, s, k⟩ := n
  cases k <;> first | rfl | exact absurd h Bool.false_ne_true

namespace Node

@[simp] theorem begin_relocate : (n.relocate φ).begin = φ.move n.begin := by
  cases n; rfl

@[simp] theorem stop_relocate : (n.relocate φ).stop = φ.move n.stop := by
  cases n; rfl

@[simp] theorem kind_relocate : (n.relocate φ).kind = n.kind.relocate φ := by
  cases n; rfl

theorem children_relocate : (n.relocate φ).children = n.children.map (relocate φ) := by
  rw [children, kind_relocate, NodeKind.children_relocate]; rfl

/-! ## Put together -/

@[simp] theorem relocate_new (begin stop : Nat) (kind : NodeKind) :
    (Node.new begin stop kind).relocate φ =
      .new (φ.move begin) (φ.move stop) (kind.relocate φ) := by
  have hmin : ∀ (ns : List Node) (b : Nat), φ.move (ns.foldl (fun b c => min b c.begin) b) =
      (ns.map (relocate φ)).foldl (fun b c => min b c.begin) (φ.move b) := by
    intro ns
    induction ns with
    | nil => intro b; rfl
    | cons n ns ih => intro b; simp [ih, φ.move_min]
  have hmax : ∀ (ns : List Node) (s : Nat), φ.move (ns.foldl (fun s c => max s c.stop) s) =
      (ns.map (relocate φ)).foldl (fun s c => max s c.stop) (φ.move s) := by
    intro ns
    induction ns with
    | nil => intro s; rfl
    | cons n ns ih => intro s; simp [ih, φ.move_max]
  rw [Node.new, Node.new, relocate, NodeKind.children_relocate, hmin, hmax, φ.move_max]

@[simp] theorem relocate_missing (at_ : Nat) (expected : Expected) :
    (Node.missing at_ expected).relocate φ = .missing (φ.move at_) expected := rfl

@[simp] theorem relocate_wrong (found : Token) (expected : Expected) :
    (Node.wrong found expected).relocate φ = .wrong (found.relocate φ) expected := rfl

@[simp] theorem relocate_combine (hs : List Node) :
    (n.combine hs).relocate φ = (n.relocate φ).combine (hs.map (relocate φ)) := by
  cases hs with
  | nil => rfl
  | cons h hs => simp [combine]

/-! ## What stays -/

@[simp] theorem isMissing_relocate : (n.relocate φ).isMissing = n.isMissing := by
  obtain ⟨b, s, k⟩ := n
  cases k <;> rfl

@[simp] theorem isHole_relocate : (n.relocate φ).isHole = n.isHole := by
  obtain ⟨b, s, k⟩ := n
  cases k <;> rfl

theorem message?_relocate : (n.relocate φ).message? = n.message? := by
  obtain ⟨b, s, k⟩ := n
  cases k <;> rfl

@[simp] theorem stringValue?_relocate : (n.relocate φ).stringValue? = n.stringValue? := by
  obtain ⟨b, s, k⟩ := n
  cases k with
  | strings parts =>
    simp only [stringValue?, kind_relocate, kind_mk, NodeKind.relocate, relocateList_eq,
      List.filterMap_map]
    congr 3
    funext part
    obtain ⟨b, s, k⟩ := part
    cases k <;> rfl
  | _ => rfl

theorem height_relocate : (n.relocate φ).height = n.height := by
  induction n using Node.induct with
  | step n ih =>
    have hbelow : (n.children.map (relocate φ)).map height = n.children.map height := by
      rw [List.map_map]
      exact List.map_congr_left ih
    unfold height at hbelow ⊢
    rw [fold_eq, fold_eq, children_relocate, hbelow]

@[simp] theorem canGrow_relocate : (n.relocate φ).canGrow = n.canGrow := by
  rw [canGrow, canGrow, height_relocate]

theorem holes_relocate : (n.relocate φ).holes = n.holes.map (relocate φ) := by
  induction n using Node.induct with
  | step n ih =>
    have hbelow : (n.children.map (relocate φ)).map holes =
        (n.children.map holes).map (List.map (relocate φ)) := by
      rw [List.map_map, List.map_map]
      exact List.map_congr_left ih
    unfold holes at hbelow ⊢
    rw [fold_eq, fold_eq, children_relocate, hbelow, isHole_relocate]
    split
    · rw [List.map_cons, List.map_flatten]
    · rw [List.map_flatten]

theorem relocate_stay : n.relocate .stay = n := by
  induction n using Node.induct with
  | step n ih =>
    obtain ⟨b, s, k⟩ := n
    rw [relocate, NodeKind.relocate_eq_self (k := k) .stay ih]
    rfl

end Node

theorem holesOf_relocate (ns : List Node) :
    holesOf (ns.map (Node.relocate φ)) = (holesOf ns).map (Node.relocate φ) := by
  simp [holesOf, List.flatMap_map, List.map_flatMap, Node.holes_relocate]

end MudEdit
