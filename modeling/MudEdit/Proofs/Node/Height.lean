import MudEdit.Node.Walk
import MudEdit.Proofs.Node.Span

/-!
# The height of a tree

A node is one taller than the tallest of its children, so no subtree is taller than the
tree. Making a construct and joining it with holes each add one to the height at most.
-/

namespace MudEdit.Node

variable {n : Node} {k : Nat}

theorem height_eq (n : Node) : n.height = 1 + (n.children.map height).foldl max 0 :=
  fold_eq _ n

theorem height_pos (n : Node) : 0 < n.height := by
  rw [height_eq]
  omega

theorem foldl_max_le {heights : List Nat} {start : Nat} :
    heights.foldl max start ≤ k ↔ start ≤ k ∧ ∀ h ∈ heights, h ≤ k := by
  induction heights generalizing start with
  | nil => simp
  | cons h heights ih => rw [List.foldl_cons, ih, List.forall_mem_cons, Nat.max_le, and_assoc]

/-- A bound of the children's heights is one less than a bound of the node's. -/
theorem height_le_succ : n.height ≤ k + 1 ↔ ∀ c ∈ n.children, c.height ≤ k := by
  have hmax := @foldl_max_le k (n.children.map height) 0
  rw [List.forall_mem_map] at hmax
  rw [height_eq, Nat.add_comm, Nat.add_le_add_iff_right, hmax]
  exact and_iff_right (Nat.zero_le k)

theorem height_lt_of_child {c : Node} (h : c ∈ n.children) : c.height < n.height := by
  have hn := Nat.sub_add_cancel n.height_pos
  have := height_le_succ.mp (Nat.le_of_eq hn.symm) c h
  omega

/-- A node with children is one taller than one of them. -/
theorem exists_child_height (h : n.children ≠ []) :
    ∃ c ∈ n.children, n.height = c.height + 1 := by
  obtain ⟨c, cs, hcs⟩ := List.exists_cons_of_ne_nil h
  have hc : c ∈ n.children := hcs ▸ List.mem_cons_self
  have hlt := height_lt_of_child hc
  have hpos := c.height_pos
  -- were all children less tall than that, so would be the node
  refine Classical.byContradiction fun hno => ?_
  have hle : n.height ≤ n.height - 2 + 1 := by
    refine height_le_succ.mpr fun d hd => ?_
    have hne : n.height ≠ d.height + 1 := fun heq => hno ⟨d, hd, heq⟩
    have := height_lt_of_child hd
    omega
  omega

theorem height_of_leaf (h : n.children = []) : n.height = 1 := by
  rw [height_eq, h]
  rfl

theorem height_le_of_mem {m : Node} (h : m ∈ n.subtrees) : m.height ≤ n.height := by
  induction n using Node.induct with
  | step n ih =>
    rw [subtrees_eq] at h
    rcases List.mem_cons.mp h with rfl | h
    · exact Nat.le_refl _
    · obtain ⟨c, hc, hm⟩ := List.mem_flatMap.mp h
      exact Nat.le_trans (ih c hc hm) (Nat.le_of_lt (height_lt_of_child hc))

/-! ## Making nodes -/

/-- Nodes that are at most so tall. -/
def Low (k : Nat) (ns : List Node) : Prop := ∀ n ∈ ns, n.height ≤ k

section Low

variable {j k : Nat} {n : Node} {ns ms : List Node}

@[simp] theorem low_nil : Low k [] := List.forall_mem_nil _

@[simp] theorem low_cons : Low k (n :: ns) ↔ n.height ≤ k ∧ Low k ns := List.forall_mem_cons

@[simp] theorem low_append : Low k (ns ++ ms) ↔ Low k ns ∧ Low k ms := List.forall_mem_append

theorem Low.mono (h : Low j ns) (hjk : j ≤ k) : Low k ns := fun n hn => Nat.le_trans (h n hn) hjk

end Low

theorem height_new_le {begin stop : Nat} {kind : NodeKind} (h : Low k kind.children) :
    (new begin stop kind).height ≤ k + 1 := height_le_succ.mpr h

theorem height_new_leaf {begin stop : Nat} {kind : NodeKind} (h : kind.children = []) :
    (new begin stop kind).height = 1 := height_of_leaf h

/-- Holes make a construct one taller at most. -/
theorem height_combine_le {hs : List Node} (h : n.height ≤ k) (hhs : Low k hs) :
    (n.combine hs).height ≤ k + 1 := by
  unfold combine
  split
  · exact Nat.le_succ_of_le h
  · exact height_new_le (low_cons.mpr ⟨h, hhs⟩)

end MudEdit.Node
