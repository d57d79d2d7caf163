import Mathlib.Data.List.Chain
import Mathlib.Data.List.Pairwise
import MudEdit.Proofs.Node.Flat

/-!
# Paths to an offset

The path to an offset goes from a tree that contains it to a child that does, as long as there
is one. Where one of the siblings at most contains the offset there is only one such way, and it
ends at whatever leaf contains the offset. Where siblings are in order, two of them may contain an
offset between them; the way is then by the later one, and so by each construct that goes on behind
the offset.
-/

namespace MudEdit

variable {mark : Nat → Prop} {ns path : List Node} {n m : Node} {offset : Nat}

/-! ## What is picked -/

namespace Node

variable {α : Type} {f : Node → α} {a : α}

/-- What is picked is one of the siblings and contains the offset. -/
theorem of_pick? (h : pick? offset (ns.map fun n => (n, f n)) = some (n, a)) :
    n ∈ ns ∧ n.contains offset = true ∧ a = f n := by
  have hmem : (n, a) ∈ (ns.map fun n => (n, f n)).reverse.filter (·.1.contains offset) := by
    rcases Option.or_eq_some_iff.mp h with h | ⟨-, h⟩
    · exact List.mem_of_find?_eq_some h
    · exact List.mem_of_head? h
  obtain ⟨hmem, hcontains⟩ := List.mem_filter.mp hmem
  obtain ⟨m, hm, heq⟩ := List.mem_map.mp (List.mem_reverse.mp hmem)
  obtain ⟨rfl, rfl⟩ := Prod.mk.inj heq
  exact ⟨hm, hcontains, rfl⟩

/-- None is picked only if none contains the offset. -/
theorem pick?_eq_none : pick? offset (ns.map fun n => (n, f n)) = none ↔
    ∀ n ∈ ns, n.contains offset = false := by
  have hnone : pick? offset (ns.map fun n => (n, f n)) = none ↔
      (ns.map fun n => (n, f n)).reverse.filter (·.1.contains offset) = [] := by
    rw [pick?, Option.or_eq_none_iff, List.head?_eq_none_iff]
    exact and_iff_right_of_imp fun h => by rw [h, List.find?_nil]
  rw [hnone, List.filter_eq_nil_iff]
  simp

/-- A fold that passes every node on with its result. -/
theorem fold_paired (f : Node → List (Node × α) → α) :
    fold (fun n below => (n, f n below)) =
      fun n => (n, (fold (fun n below => (n, f n below)) n).2) :=
  funext fun n => Prod.ext (by rw [fold_eq]) rfl

/-- The path below a node is the path among its children. -/
theorem pathBelow_eq (offset : Nat) (n : Node) : n.pathBelow offset = pathAt n.children offset := by
  unfold pathBelow
  rw [fold_eq, fold_paired]
  rfl

/-- What contains an offset is in trees that contain it. -/
theorem contains_of_subtree (h : ∀ k ∈ n.subtrees, k.Nests mark) (hm : m ∈ n.subtrees)
    (hc : m.contains offset = true) : n.contains offset = true := by
  obtain ⟨hbegin, hstop⟩ := inside_of_subtree h hm
  rw [contains, Bool.and_eq_true, decide_eq_true_iff, decide_eq_true_iff] at hc ⊢
  exact ⟨Nat.le_trans hbegin hc.1, Nat.le_trans hc.2 hstop⟩

end Node

/-! ## Where a path leads -/

theorem pathAt_eq_nil : pathAt ns offset = [] ↔ ∀ n ∈ ns, n.contains offset = false := by
  rw [← Node.pick?_eq_none (f := Node.pathBelow offset), pathAt]
  cases Node.pick? offset (ns.map fun n => (n, n.pathBelow offset)) <;> simp

/-- A path goes on among the children of its first node. -/
theorem of_pathAt_cons (h : pathAt ns offset = n :: path) :
    n ∈ ns ∧ n.contains offset = true ∧ path = pathAt n.children offset := by
  rw [pathAt] at h
  cases hpick : Node.pick? offset (ns.map fun n => (n, n.pathBelow offset)) with
  | none =>
    rw [hpick] at h
    cases h
  | some found =>
    rw [hpick] at h
    obtain ⟨rfl, rfl⟩ := List.cons.inj h
    obtain ⟨hmem, hcontains, hpath⟩ := Node.of_pick? hpick
    exact ⟨hmem, hcontains, hpath.trans (Node.pathBelow_eq offset found.1)⟩

/-- A path down a forest to an offset, as far as there is something that contains it. -/
structure LeadsTo (offset : Nat) (ns path : List Node) : Prop where
  /-- There is no path if none of the nodes contains the offset, and only then. -/
  nil_iff : path = [] ↔ ∀ n ∈ ns, n.contains offset = false
  /-- It starts at one of the nodes. -/
  head : ∀ n ∈ path.head?, n ∈ ns
  /-- Each node is a child of the one before. -/
  chain : path.IsChain fun n m => m ∈ n.children
  contains : ∀ n ∈ path, n.contains offset = true
  /-- It ends where no child contains the offset. -/
  last : ∀ n ∈ path.getLast?, ∀ m ∈ n.children, m.contains offset = false

/-- The path that is found leads to the offset. -/
theorem leadsTo_pathAt (offset : Nat) (ns : List Node) : LeadsTo offset ns (pathAt ns offset) := by
  generalize hpath : pathAt ns offset = path
  induction path generalizing ns with
  | nil => exact ⟨iff_of_true rfl (pathAt_eq_nil.mp hpath), nofun, .nil, nofun, nofun⟩
  | cons n path ih =>
    obtain ⟨hmem, hcontains, hrest⟩ := of_pathAt_cons hpath
    -- the path below its first node is the path of that node's children
    have hbelow := ih n.children hrest.symm
    refine ⟨iff_of_false nofun fun h => ?_, ?_, ?_, ?_, ?_⟩
    · exact Bool.false_ne_true ((h n hmem).symm.trans hcontains)
    · intro m hm
      rwa [← Option.some.inj hm]
    · exact List.isChain_cons.mpr ⟨hbelow.head, hbelow.chain⟩
    · exact List.forall_mem_cons.mpr ⟨hcontains, hbelow.contains⟩
    · cases path with
      | nil =>
        intro m hm
        rw [← Option.some.inj hm]
        exact hbelow.nil_iff.mp rfl
      | cons m path => exact hbelow.last

/-! ## Where there is only one way -/

/-- One of the siblings at most contains the offset. -/
def Sole (offset : Nat) (ns : List Node) : Prop :=
  ns.Pairwise fun n m => ¬(n.contains offset = true ∧ m.contains offset = true)

instance : Std.Symm fun n m : Node => ¬(n.contains offset = true ∧ m.contains offset = true) :=
  ⟨fun _ _ hnot hand => hnot hand.symm⟩

/-- The path goes by the one that contains the offset. -/
theorem Sole.pathAt_eq (h : Sole offset ns) (hn : n ∈ ns) (hc : n.contains offset = true) :
    pathAt ns offset = n :: pathAt n.children offset := by
  cases hpath : pathAt ns offset with
  | nil => exact absurd hc (Bool.eq_false_iff.mp (pathAt_eq_nil.mp hpath n hn))
  | cons m path =>
    obtain ⟨hm, hcm, rfl⟩ := of_pathAt_cons hpath
    by_cases heq : n = m
    · rw [heq]
    · exact absurd ⟨hc, hcm⟩ (h.forall hn hm heq)

/-- What holds of the trees in which there is only one way. -/
def Node.OneWay (mark : Nat → Prop) (offset : Nat) (n : Node) : Prop :=
  ∀ m ∈ n.subtrees, m.Nests mark ∧ Sole offset m.children

/-- A path that has come to a tree ends at whatever leaf of it contains the offset. -/
theorem Node.OneWay.getLast? {leaf : Node} (h : n.OneWay mark offset) (hleaf : leaf ∈ n.subtrees)
    (hnone : leaf.children = []) (hc : leaf.contains offset = true) :
    (n :: pathAt n.children offset).getLast? = some leaf := by
  induction n using Node.induct with
  | step n ih =>
    rw [subtrees_eq] at hleaf
    rcases List.mem_cons.mp hleaf with rfl | hleaf
    · rw [hnone]
      rfl
    · obtain ⟨c, hmem, hleaf⟩ := List.mem_flatMap.mp hleaf
      -- the leaf lies in one child, and no other contains the offset
      have hbelow : c.OneWay mark offset :=
        fun m hm => h m (subtrees_subset (mem_subtrees_child hmem) hm)
      have hcontains := contains_of_subtree (fun k hk => (hbelow k hk).1) hleaf hc
      rw [(h n (mem_subtrees_self n)).2.pathAt_eq hmem hcontains, List.getLast?_cons_cons]
      exact ih c hmem hbelow hleaf

/-- **A leaf that contains the offset ends the path**, where there is only one way. -/
theorem Sole.getLast?_pathAt {leaf : Node} (h : Sole offset ns)
    (hbelow : ∀ n ∈ ns, n.OneWay mark offset) (hleaf : leaf ∈ ns.flatMap Node.subtrees)
    (hnone : leaf.children = []) (hc : leaf.contains offset = true) :
    (pathAt ns offset).getLast? = some leaf := by
  obtain ⟨n, hn, hleaf⟩ := List.mem_flatMap.mp hleaf
  have hcontains := Node.contains_of_subtree (fun k hk => (hbelow n hn k hk).1) hleaf hc
  rw [h.pathAt_eq hn hcontains]
  exact (hbelow n hn).getLast? hleaf hnone hc

/-! ## Where siblings are in order -/

/-- The path goes by the last of the siblings that contain the offset, if that is not missing. -/
theorem pathAt_append {as bs : List Node} (hc : n.contains offset = true)
    (hmissing : n.isMissing = false) (hbs : ∀ m ∈ bs, m.contains offset = false) :
    pathAt (as ++ n :: bs) offset = n :: pathAt n.children offset := by
  -- the last sibling that contains the offset is taken, and none behind `n` does
  have hnone : (bs.map fun m => (m, m.pathBelow offset)).reverse.filter
      (·.1.contains offset) = [] := by
    rw [List.filter_eq_nil_iff]
    intro x hx
    obtain ⟨m, hm, rfl⟩ := List.mem_map.mp (List.mem_reverse.mp hx)
    simp [hbs m hm]
  have hpick : Node.pick? offset ((as ++ n :: bs).map fun m => (m, m.pathBelow offset)) =
      some (n, n.pathBelow offset) := by
    rw [Node.pick?, List.map_append, List.map_cons, List.reverse_append, List.reverse_cons,
      List.append_assoc, List.filter_append, hnone, List.nil_append, List.filter_append]
    simp [hc, hmissing]
  rw [pathAt, hpick, ← Node.pathBelow_eq]

namespace Node

/-- The construct has what stands behind the offset. -/
def Has (n : Node) (offset : Nat) : Prop := n.begin ≤ offset ∧ offset < n.stop

theorem Has.contains (h : n.Has offset) : n.contains offset = true := by
  rw [Node.contains, Bool.and_eq_true, decide_eq_true_iff, decide_eq_true_iff]
  exact ⟨h.1, Nat.le_of_lt h.2⟩

/-- A tree in which nothing is missing, and whose parts are in order at every level. -/
def Lined (mark : Nat → Prop) (n : Node) : Prop :=
  ∀ m ∈ n.subtrees, m.Nests mark ∧ m.isMissing = false ∧ m.children.Pairwise Spaced

theorem Lined.child (h : n.Lined mark) (hm : m ∈ n.children) : m.Lined mark :=
  fun k hk => h k (subtrees_subset (mem_subtrees_child hm) hk)

theorem Has.of_subtree (h : n.Lined mark) (hm : m ∈ n.subtrees) (hh : m.Has offset) :
    n.Has offset := by
  obtain ⟨hbegin, hstop⟩ := inside_of_subtree (fun k hk => (h k hk).1) hm
  exact ⟨Nat.le_trans hbegin hh.1, Nat.lt_of_lt_of_le hh.2 hstop⟩

end Node

/-- Of siblings in order the path goes by the one that has what stands behind the offset. -/
theorem pathAt_of_spaced (h : ns.Pairwise Node.Spaced) (hn : n ∈ ns)
    (hmissing : n.isMissing = false) (hh : n.Has offset) :
    pathAt ns offset = n :: pathAt n.children offset := by
  obtain ⟨as, bs, rfl⟩ := List.append_of_mem hn
  refine pathAt_append hh.contains hmissing fun m hm => ?_
  have hspaced := (List.pairwise_cons.mp (List.pairwise_append.mp h).2.1).1 m hm
  obtain ⟨hbegin, hstop⟩ := hh
  simp only [Node.contains, Bool.and_eq_false_iff, decide_eq_false_iff_not]
  rcases hspaced with hlater | ⟨-, -, hearlier⟩ <;> omega

/-- **The path goes by each construct** that has what stands behind the offset. -/
theorem Node.Lined.through (h : n.Lined mark) (hm : m ∈ n.subtrees) (hh : m.Has offset) :
    ∃ above, n :: pathAt n.children offset = above ++ m :: pathAt m.children offset := by
  induction n using Node.induct with
  | step n ih =>
    rw [subtrees_eq] at hm
    rcases List.mem_cons.mp hm with rfl | hm
    · exact ⟨[], rfl⟩
    · obtain ⟨c, hmem, hm⟩ := List.mem_flatMap.mp hm
      have hc := h.child hmem
      obtain ⟨-, -, hspaced⟩ := h n (mem_subtrees_self n)
      -- `m` lies in one child, whose siblings are spaced apart from it
      obtain ⟨above, habove⟩ := ih c hmem hc hm
      refine ⟨n :: above, ?_⟩
      rw [pathAt_of_spaced hspaced hmem (hc c (mem_subtrees_self c)).2.1 (hh.of_subtree hc hm),
        habove, List.cons_append]

section Forest

variable (h : ns.Pairwise Node.Spaced) (hl : ∀ n ∈ ns, n.Lined mark)
include h hl

theorem pathAt_through (hm : m ∈ ns.flatMap Node.subtrees) (hh : m.Has offset) :
    ∃ above, pathAt ns offset = above ++ m :: pathAt m.children offset := by
  obtain ⟨n, hn, hm⟩ := List.mem_flatMap.mp hm
  have hlined := hl n hn
  rw [pathAt_of_spaced h hn (hlined n (Node.mem_subtrees_self n)).2.1 (hh.of_subtree hlined hm)]
  exact hlined.through hm hh

end Forest

theorem pathAt_subset (ns : List Node) (offset : Nat) :
    pathAt ns offset ⊆ ns.flatMap Node.subtrees := by
  generalize hpath : pathAt ns offset = path
  induction path generalizing ns with
  | nil => exact List.nil_subset _
  | cons n path ih =>
    obtain ⟨hmem, -, hrest⟩ := of_pathAt_cons hpath
    refine List.cons_subset.mpr ⟨List.mem_flatMap.mpr ⟨n, hmem, Node.mem_subtrees_self n⟩, ?_⟩
    intro k hk
    refine List.mem_flatMap.mpr ⟨n, hmem, ?_⟩
    rw [Node.subtrees_eq]
    exact List.mem_cons_of_mem _ (ih n.children hrest.symm hk)

/-- Of two constructs that have what stands behind an offset one is in the other. -/
theorem nested_of_has {a b : Node} (h : ns.Pairwise Node.Spaced) (hl : ∀ n ∈ ns, n.Lined mark)
    (ha : a ∈ ns.flatMap Node.subtrees) (hb : b ∈ ns.flatMap Node.subtrees)
    (haa : a.Has offset) (hbb : b.Has offset) : a ∈ b.subtrees ∨ b ∈ a.subtrees := by
  obtain ⟨above, heq⟩ := pathAt_through h hl ha haa
  obtain ⟨above', heq'⟩ := pathAt_through h hl hb hbb
  -- what is on the path behind a construct is in it
  have hin {n m : Node} {as bs : List Node}
      (heq : n :: pathAt n.children offset = as ++ m :: bs) : m ∈ n.subtrees := by
    have hm : m ∈ n :: pathAt n.children offset := heq ▸ List.mem_append_right _ List.mem_cons_self
    rw [Node.subtrees_eq]
    exact List.mem_cons.mpr ((List.mem_cons.mp hm).imp_right (pathAt_subset _ _ ·))
  rcases List.append_eq_append_iff.mp (heq.symm.trans heq') with ⟨as, -, has⟩ | ⟨as, -, has⟩
  · exact .inr (hin has)
  · exact .inl (hin has)

end MudEdit
