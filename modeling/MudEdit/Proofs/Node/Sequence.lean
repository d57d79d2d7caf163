import MudEdit.Proofs.Node.Flat
import MudEdit.Proofs.Node.Span

/-!
# The order of the holes

A walk comes by the holes of a tree in the order in which they begin if, at every construct, the
holes of a part begin no later than those of the parts after it. Two kinds of constructs may
break this. A construct whose holes are found between its parts is joined with them when it is
complete, so that they come after the holes of all its parts. And a variable whose name stands
before its type has the type as the part that comes first.
-/

namespace MudEdit

/-- Whether a construct may have parts after the holes that it is joined with. -/
def NodeKind.gathers : NodeKind → Bool
  | classDef .. | functionDef .. | ifElse .. | whileLoop .. | doWhile .. | forLoop ..
  | foreachLoop .. | switchOn .. | caseLabel .. | tryCatch .. | new .. | cast .. | ternary ..
  | entry .. => true
  | _ => false

/-- Whether some of the holes begin before some of the others. -/
def anyBefore (hs gs : List Node) : Bool := hs.any fun h => gs.any fun g => h.begin < g.begin

variable {ns ms hs gs : List Node} {n m p : Node} {lo mid hi begin stop : Nat} {kind : NodeKind}

theorem anyBefore_eq_false : anyBefore hs gs = false ↔ ∀ g ∈ gs, ∀ h ∈ hs, g.begin ≤ h.begin := by
  simp only [anyBefore, List.any_eq_false, decide_eq_true_eq, Nat.not_lt, Bool.not_eq_true]
  exact ⟨fun hall g hg h hh => hall h hh g hg, fun hall h hh g hg => hall g hg h hh⟩

namespace Node

/-- Whether the construct puts holes out of order: it is joined with one that begins before a hole
of one of its parts, or its name is before its type and has a hole as well. -/
def disorders (n : Node) : Bool :=
  match n.kind with
  | .combination p hs => p.kind.gathers && anyBefore (holesOf hs) p.holes
  | .variableDef _ (some type) ident _ => anyBefore ident.holes type.holes
  | _ => false

/-- The holes of the one begin no later than those of the other. -/
def Before (n m : Node) : Prop := ∀ g ∈ n.holes, ∀ h ∈ m.holes, g.begin ≤ h.begin

/-- The parts have their holes one after the other, unless the construct puts them out of order. -/
def Orderly (n : Node) : Prop := n.disorders = false → n.children.Pairwise Before

/-! ## The holes of a tree -/

theorem holes_of_isHole (h : n.isHole = true) : n.holes = [n] := by
  rw [holes, fold_eq, children_of_isHole h, if_pos h]
  rfl

theorem holes_eq_holesOf (h : n.isHole = false) : n.holes = holesOf n.children := by
  rw [holes, fold_eq, if_neg (by simp [h]), holesOf, List.flatMap_def]
  rfl

end Node

/-- Holes are in order in a forest if they are in each tree and from tree to tree. -/
theorem holesOf_inOrder : (holesOf ns).Pairwise (fun g h => g.begin ≤ h.begin) ↔
    (∀ n ∈ ns, n.holes.Pairwise fun g h => g.begin ≤ h.begin) ∧ ns.Pairwise Node.Before :=
  List.pairwise_flatMap

namespace Node

/-- **Holes are in order in a tree** if they are from part to part of every construct in it. -/
theorem holes_inOrder : n.holes.Pairwise (fun g h => g.begin ≤ h.begin) ↔
    ∀ m ∈ n.subtrees, m.children.Pairwise Before := by
  induction n using Node.induct with
  | step n ih =>
    rw [forall_mem_subtrees]
    cases h : n.isHole with
    | true =>
      rw [holes_of_isHole h, children_of_isHole h]
      simp
    | false =>
      rw [holes_eq_holesOf h, holesOf_inOrder, and_comm]
      exact and_congr_right fun _ => forall₂_congr ih

/-- Where the holes are in order, no construct puts them out of order. -/
theorem disorders_eq_false (h : n.children.Pairwise Before) : n.disorders = false := by
  obtain ⟨begin, stop, kind⟩ := n
  unfold disorders
  rw [kind_mk]
  -- only a node with holes and a variable list their children out of order
  split
  · rename_i p hs
    refine Bool.and_eq_false_iff.mpr (.inr (anyBefore_eq_false.mpr fun g hg h' hh => ?_))
    obtain ⟨m, hm, hh⟩ := List.mem_flatMap.mp hh
    exact (List.pairwise_cons.mp h).1 m hm g hg h' hh
  · rename_i mods type ident value
    refine anyBefore_eq_false.mpr ((List.pairwise_iff_forall_sublist.mp h) ?_)
    exact (List.sublist_append_right mods.toList [type, ident]).trans
      (by simp [children, NodeKind.children])
  · rfl

/-- **So the holes of a tree are in order just if none of its constructs puts them out of order**,
provided that these are the only ways to do so. -/
theorem holes_inOrder_iff (h : ∀ m ∈ n.subtrees, m.Orderly) :
    n.holes.Pairwise (fun g h => g.begin ≤ h.begin) ↔ ∀ m ∈ n.subtrees, m.disorders = false :=
  holes_inOrder.trans (forall₂_congr fun m hm => ⟨disorders_eq_false, h m hm⟩)

end Node

/-! ## What is read between two offsets -/

/-- The constructs `ns` and the holes `hs` were read between two offsets, the holes of each one
before those of the next. Where the holes `hs` stand among the constructs is not known. -/
structure InTurn (lo hi : Nat) (ns hs : List Node) : Prop where
  le : lo ≤ hi
  within : ∀ n ∈ ns ++ hs, ∀ h ∈ n.holes, lo ≤ h.begin ∧ h.begin ≤ hi
  parts : ns.Pairwise Node.Before
  aside : hs.Pairwise Node.Before
  orderly : ∀ n ∈ ns ++ hs, ∀ m ∈ n.subtrees, m.Orderly

namespace InTurn

theorem nil (h : lo ≤ hi) : InTurn lo hi [] [] := ⟨h, by simp, .nil, .nil, by simp⟩

/-- What is read up to an offset comes before what is read from there on. -/
theorem before {ns' ms' : List Node} (h₁ : InTurn lo mid ns hs) (h₂ : InTurn mid hi ms gs)
    (hns : ns' ⊆ ns ++ hs) (hms : ms' ⊆ ms ++ gs) : ∀ n ∈ ns', ∀ m ∈ ms', n.Before m :=
  fun n hn m hm g hg h hh =>
    Nat.le_trans (h₁.within n (hns hn) g hg).2 (h₂.within m (hms hm) h hh).1

theorem widen {lo' hi' : Nat} (h : InTurn lo hi ns hs) (hlo : lo' ≤ lo) (hhi : hi ≤ hi') :
    InTurn lo' hi' ns hs where
  le := Nat.le_trans hlo (Nat.le_trans h.le hhi)
  within n hn g hg :=
    ⟨Nat.le_trans hlo (h.within n hn g hg).1, Nat.le_trans (h.within n hn g hg).2 hhi⟩
  parts := h.parts
  aside := h.aside
  orderly := h.orderly

/-- What was read in turn, then further on, was read in turn as a whole. -/
theorem append (h₁ : InTurn lo mid ns hs) (h₂ : InTurn mid hi ms gs) :
    InTurn lo hi (ns ++ ms) (hs ++ gs) where
  le := Nat.le_trans h₁.le h₂.le
  within := by
    have hwithin₁ := List.forall_mem_append.mp (h₁.widen (Nat.le_refl _) h₂.le).within
    have hwithin₂ := List.forall_mem_append.mp (h₂.widen h₁.le (Nat.le_refl _)).within
    exact List.forall_mem_append.mpr ⟨List.forall_mem_append.mpr ⟨hwithin₁.1, hwithin₂.1⟩,
      List.forall_mem_append.mpr ⟨hwithin₁.2, hwithin₂.2⟩⟩
  parts := List.pairwise_append.mpr ⟨h₁.parts, h₂.parts, h₁.before h₂ (by simp) (by simp)⟩
  aside := List.pairwise_append.mpr ⟨h₁.aside, h₂.aside, h₁.before h₂ (by simp) (by simp)⟩
  orderly := by
    have horderly₁ := List.forall_mem_append.mp h₁.orderly
    have horderly₂ := List.forall_mem_append.mp h₂.orderly
    exact List.forall_mem_append.mpr ⟨List.forall_mem_append.mpr ⟨horderly₁.1, horderly₂.1⟩,
      List.forall_mem_append.mpr ⟨horderly₁.2, horderly₂.2⟩⟩

/-- A hole between the offsets. -/
theorem hole (h : n.isHole = true) (hlo : lo ≤ n.begin) (hhi : n.begin ≤ hi) :
    InTurn lo hi [n] [] where
  le := Nat.le_trans hlo hhi
  within := by
    simp only [List.append_nil, List.forall_mem_singleton, Node.holes_of_isHole h]
    exact ⟨hlo, hhi⟩
  parts := List.pairwise_singleton ..
  aside := .nil
  orderly := by
    rw [List.append_nil, List.forall_mem_singleton, Node.forall_mem_subtrees,
      Node.children_of_isHole h]
    refine ⟨fun _ => ?_, List.forall_mem_nil _⟩
    rw [Node.children_of_isHole h]
    exact .nil

/-- The holes are put aside. -/
theorem toAside (h : InTurn lo hi hs []) : InTurn lo hi [] hs where
  le := h.le
  within := by simpa using h.within
  parts := .nil
  aside := h.parts
  orderly := by simpa using h.orderly

/-- Holes that were put aside count as read. -/
theorem toParts (h : InTurn lo hi [] hs) : InTurn lo hi hs [] where
  le := h.le
  within := by simpa using h.within
  parts := h.aside
  aside := .nil
  orderly := by simpa using h.orderly

/-- What is read is passed over. -/
theorem drop (h : InTurn lo hi ns hs) : InTurn lo hi [] hs where
  le := h.le
  within n hn := h.within n (List.mem_append_right _ hn)
  parts := .nil
  aside := h.aside
  orderly n hn := h.orderly n (List.mem_append_right _ hn)

/-- A construct of parts between the offsets, which have their holes in order if it does not put
them out of order. -/
theorem construct (hle : lo ≤ hi) (hn : (Node.new begin stop kind).isHole = false)
    (hwithin : ∀ m ∈ kind.children ++ hs, ∀ h ∈ m.holes, lo ≤ h.begin ∧ h.begin ≤ hi)
    (hparts : (Node.new begin stop kind).Orderly) (haside : hs.Pairwise Node.Before)
    (horderly : ∀ m ∈ kind.children ++ hs, ∀ k ∈ m.subtrees, k.Orderly) :
    InTurn lo hi [.new begin stop kind] hs where
  le := hle
  within := by
    -- a node's holes are those of its parts, which lie within already
    obtain ⟨hparts, hholes⟩ := List.forall_mem_append.mp hwithin
    refine List.forall_mem_cons.mpr ⟨fun h hh => ?_, hholes⟩
    rw [Node.holes_eq_holesOf hn] at hh
    obtain ⟨m, hm, hh⟩ := List.mem_flatMap.mp hh
    exact hparts m hm h hh
  parts := List.pairwise_singleton ..
  aside := haside
  orderly := by
    obtain ⟨hbelow, hholes⟩ := List.forall_mem_append.mp horderly
    exact List.forall_mem_cons.mpr ⟨Node.forall_mem_subtrees.mpr ⟨hparts, hbelow⟩, hholes⟩

/-- A construct of the parts just read. -/
theorem new (h : InTurn lo hi kind.children hs)
    (hn : (Node.new begin stop kind).isHole = false) : InTurn lo hi [.new begin stop kind] hs :=
  construct h.le hn h.within (fun _ => h.parts) h.aside h.orderly

/-- A construct joined with the holes found after it. -/
theorem late (h : InTurn lo mid [p] []) (hh : InTurn mid hi [] hs) :
    InTurn lo hi [p.combine hs] [] := by
  unfold Node.combine
  split
  · rename_i he
    rw [List.isEmpty_iff] at he
    subst he
    exact h.append hh
  · exact (h.append hh.toParts).new rfl

/-- A construct joined with the holes found between its parts. -/
theorem gathered (h : InTurn lo hi [p] hs) (hp : p.kind.gathers = true) :
    InTurn lo hi [p.combine hs] [] := by
  unfold Node.combine
  split
  · rename_i he
    rw [List.isEmpty_iff] at he
    subst he
    exact h
  · refine construct h.le rfl ?_ (fun hd => ?_) .nil ?_
    · rw [List.append_nil]
      exact h.within
    · -- no hole that it is joined with begins before one of its own
      have hd : (p.kind.gathers && anyBefore (holesOf hs) p.holes) = false := hd
      rw [hp, Bool.true_and, anyBefore_eq_false] at hd
      refine List.pairwise_cons.mpr ⟨fun m hm g hg k hk => ?_, h.aside⟩
      exact hd g hg k (List.mem_flatMap.mpr ⟨m, hm, hk⟩)
    · rw [List.append_nil]
      exact h.orderly

/-- A variable that was read with its name before its type. -/
theorem titled {mods type value : Option Node} {title : Node}
    (h : InTurn lo hi (mods.toList ++ title :: (type.toList ++ value.toList)) hs) :
    InTurn lo hi [.new begin stop (.variableDef mods type title value)] hs := by
  have hperm : (mods.toList ++ title :: (type.toList ++ value.toList)).Perm
      (NodeKind.variableDef mods type title value).children := by
    simp only [NodeKind.children, List.append_assoc]
    exact (List.perm_middle.symm).append_left _
  have hmem := fun k => (hperm.append_right hs).mem_iff (a := k)
  refine construct h.le rfl (fun k hk => h.within k ((hmem k).mpr hk)) (fun hd => ?_) h.aside
    fun k hk => h.orderly k ((hmem k).mpr hk)
  -- a type has its holes before those of the name, and everything else is as it was read
  refine NodeKind.pairwise_variableDef h.parts fun t ht => ?_
  obtain rfl := Option.mem_def.mp ht
  exact anyBefore_eq_false.mp hd

end InTurn

end MudEdit
