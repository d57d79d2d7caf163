import MudEdit.Node.Walk

/-!
# Spans of nodes

A node that is made of parts is widened to cover them, so its span is nested well by
itself. What is left to see is where its offsets come from: they are those it was made
with or those of its parts. `Within mark lo hi` collects what is claimed of the whole
tree below a node together with where the node lies, since that is what a construct
has to know of its parts and what it hands on.
-/

namespace MudEdit

namespace Node

variable {mark : Nat → Prop} {lo lo' hi hi' begin stop : Nat} {kind : NodeKind} {n : Node}
  {hs : List Node}

/-! ## The nodes of a tree -/

/-- The nodes of a tree, a parent before its children. -/
def subtrees : Node → List Node := fold fun n below => n :: below.flatten

theorem subtrees_eq (n : Node) : n.subtrees = n :: n.children.flatMap subtrees := by
  rw [subtrees, fold_eq, List.flatMap_def]

theorem forall_mem_subtrees {p : Node → Prop} :
    (∀ m ∈ n.subtrees, p m) ↔ p n ∧ ∀ c ∈ n.children, ∀ m ∈ c.subtrees, p m := by
  rw [subtrees_eq, List.forall_mem_cons]
  simp only [List.mem_flatMap]
  constructor
  · intro hp
    obtain ⟨h, hc⟩ := hp
    exact ⟨h, fun c hm m hs => hc m ⟨c, hm, hs⟩⟩
  · intro hp
    obtain ⟨h, hc⟩ := hp
    exact ⟨h, fun m ⟨c, hm, hs⟩ => hc c hm m hs⟩

/-- What is in a tree of a tree is in the tree. -/
theorem subtrees_subset {n m : Node} (hm : m ∈ n.subtrees) : m.subtrees ⊆ n.subtrees := by
  induction n using Node.induct with
  | step n ih =>
    rw [subtrees_eq n] at hm ⊢
    rcases List.mem_cons.mp hm with rfl | hm
    · rw [← subtrees_eq]
      exact List.Subset.refl _
    · obtain ⟨c, hc, hm⟩ := List.mem_flatMap.mp hm
      intro k hk
      exact List.mem_cons_of_mem _ (List.mem_flatMap.mpr ⟨c, hc, ih c hc hm hk⟩)

theorem mem_subtrees_self (n : Node) : n ∈ n.subtrees := by
  rw [subtrees_eq]
  exact List.mem_cons_self

theorem mem_subtrees_child {n m : Node} (hm : m ∈ n.children) : m ∈ n.subtrees := by
  rw [subtrees_eq]
  exact List.mem_cons_of_mem _ (List.mem_flatMap.mpr ⟨m, hm, mem_subtrees_self m⟩)

/-- The construct that a combination is about is in its tree. -/
theorem mem_subtrees_primary (n : Node) : n.primary ∈ n.subtrees := by
  fun_induction Node.primary n with
  | case1 begin stop p holes ih => exact subtrees_subset (mem_subtrees_child List.mem_cons_self) ih
  | case2 n => exact mem_subtrees_self n

/-- The holes of a tree are those among its nodes, in the same order. -/
theorem holes_eq_filter (n : Node) : n.holes = n.subtrees.filter isHole := by
  induction n using Node.induct with
  | step n ih =>
    have hbelow : (n.children.map holes).flatten = (n.children.flatMap subtrees).filter isHole := by
      rw [List.filter_flatMap, List.flatMap_def, List.map_congr_left ih]
    rw [holes, fold_eq, ← holes, subtrees_eq, hbelow]
    cases h : n.isHole with
    | true => rw [List.filter_cons_of_pos h]; rfl
    | false => rw [List.filter_cons_of_neg (by simp [h])]; rfl

theorem isHole_of_mem_holes {n m : Node} (h : m ∈ n.holes) : m.isHole = true :=
  (List.mem_filter.mp (n.holes_eq_filter ▸ h)).2

/-! ## A node in its place -/

/-- What the span and the holes of a node are like if offsets are only taken at `mark`s. -/
structure Nests (mark : Nat → Prop) (n : Node) : Prop where
  begin_mark : mark n.begin
  stop_mark : mark n.stop
  begin_le_stop : n.begin ≤ n.stop
  children_inside : ∀ c ∈ n.children, n.begin ≤ c.begin ∧ c.stop ≤ n.stop
  holes : ∀ p hs, n.kind = .combination p hs → hs ≠ [] ∧ ∀ h ∈ hs, h.isHole = true

/-- A node between two offsets, with all of its tree in its place. -/
structure Within (mark : Nat → Prop) (lo hi : Nat) (n : Node) : Prop where
  nests : ∀ m ∈ n.subtrees, m.Nests mark
  lo_le : lo ≤ n.begin
  le_hi : n.stop ≤ hi

namespace Within

theorem self (h : n.Within mark lo hi) : n.Nests mark := (forall_mem_subtrees.mp h.nests).1

theorem widen (h : n.Within mark lo hi) (hl : lo' ≤ lo) (hh : hi ≤ hi') :
    n.Within mark lo' hi' :=
  ⟨h.nests, Nat.le_trans hl h.lo_le, Nat.le_trans h.le_hi hh⟩

/-- A node without parts. -/
theorem leaf (hk : kind.children = []) (hb : mark begin) (hs : mark stop) (hle : begin ≤ stop)
    (hl : lo ≤ begin) (hh : stop ≤ hi) : (Node.mk begin stop kind).Within mark lo hi where
  nests := by
    have hc : (Node.mk begin stop kind).children = [] := hk
    refine forall_mem_subtrees.mpr ⟨⟨hb, hs, hle, by simp [hc], ?_⟩, by simp [hc]⟩
    intro p hs heq
    subst heq
    exact absurd hk (by simp [NodeKind.children])
  lo_le := hl
  le_hi := hh

end Within

/-! ## The span of a node made of parts -/

/-- The least beginning is among those it was taken of. -/
theorem foldl_begin (b : Nat) (ns : List Node) :
    let m := ns.foldl (fun b c => min b c.begin) b
    (m = b ∨ ∃ c ∈ ns, m = c.begin) ∧ m ≤ b ∧ ∀ c ∈ ns, m ≤ c.begin := by
  induction ns generalizing b with
  | nil => simp
  | cons n ns ih =>
    obtain ⟨hm, hle, hall⟩ := ih (min b n.begin)
    simp only [List.foldl_cons]
    refine ⟨?_, by omega, List.forall_mem_cons.mpr ⟨by omega, hall⟩⟩
    rcases hm with hm | ⟨c, hc, hm⟩
    · rcases Nat.le_total b n.begin with h | h
      · exact .inl (hm.trans (Nat.min_eq_left h))
      · exact .inr ⟨n, List.mem_cons_self, hm.trans (Nat.min_eq_right h)⟩
    · exact .inr ⟨c, List.mem_cons_of_mem _ hc, hm⟩

theorem begin_new_le (begin stop : Nat) (kind : NodeKind) : (new begin stop kind).begin ≤ begin :=
  (foldl_begin begin kind.children).2.1

/-- The greatest end is among those it was taken of. -/
theorem foldl_stop (s : Nat) (ns : List Node) :
    let m := ns.foldl (fun s c => max s c.stop) s
    (m = s ∨ ∃ c ∈ ns, m = c.stop) ∧ s ≤ m ∧ ∀ c ∈ ns, c.stop ≤ m := by
  induction ns generalizing s with
  | nil => simp
  | cons n ns ih =>
    obtain ⟨hm, hle, hall⟩ := ih (max s n.stop)
    simp only [List.foldl_cons]
    refine ⟨?_, by omega, List.forall_mem_cons.mpr ⟨by omega, hall⟩⟩
    rcases hm with hm | ⟨c, hc, hm⟩
    · rcases Nat.le_total n.stop s with h | h
      · exact .inl (hm.trans (Nat.max_eq_left h))
      · exact .inr ⟨n, List.mem_cons_self, hm.trans (Nat.max_eq_right h)⟩
    · exact .inr ⟨c, List.mem_cons_of_mem _ hc, hm⟩

/-- What is in a tree lies inside. -/
theorem inside_of_subtree (h : ∀ k ∈ n.subtrees, k.Nests mark) {m : Node} (hm : m ∈ n.subtrees) :
    n.begin ≤ m.begin ∧ m.stop ≤ n.stop := by
  induction n using Node.induct with
  | step n ih =>
    obtain ⟨hself, hparts⟩ := forall_mem_subtrees.mp h
    rw [subtrees_eq] at hm
    rcases List.mem_cons.mp hm with rfl | hm
    · exact ⟨Nat.le_refl _, Nat.le_refl _⟩
    · obtain ⟨c, hc, hm⟩ := List.mem_flatMap.mp hm
      obtain ⟨hb, he⟩ := hself.children_inside c hc
      obtain ⟨hb', he'⟩ := ih c hc (hparts c hc) hm
      exact ⟨Nat.le_trans hb hb', Nat.le_trans he' he⟩

/-- A construct that was made around its parts is not widened. -/
theorem new_around {begin stop : Nat} {kind : NodeKind} (hle : begin ≤ stop)
    (hparts : ∀ c ∈ kind.children, begin ≤ c.begin ∧ c.stop ≤ stop) :
    new begin stop kind = .mk begin stop kind := by
  obtain ⟨hb, hmin, -⟩ := foldl_begin begin kind.children
  obtain ⟨hs, hmax, -⟩ := foldl_stop stop kind.children
  have hbegin : kind.children.foldl (fun b c => min b c.begin) begin = begin := by
    refine hb.elim id fun ⟨c, hc, h⟩ => Nat.le_antisymm hmin ?_
    exact h ▸ (hparts c hc).1
  have hstop : kind.children.foldl (fun s c => max s c.stop) stop = stop := by
    refine hs.elim id fun ⟨c, hc, h⟩ => Nat.le_antisymm ?_ hmax
    exact h ▸ (hparts c hc).2
  rw [new, Nat.max_eq_right hle, hbegin, hstop]

/-- A construct lies where its parts and the offsets that it was made with lie. -/
theorem new_within (hb : mark begin) (hs : mark stop) (hl : lo ≤ begin) (hbh : begin ≤ hi)
    (hsh : stop ≤ hi) (parts : ∀ c ∈ kind.children, c.Within mark lo hi)
    (holes : ∀ p hs, kind = .combination p hs → hs ≠ [] ∧ ∀ h ∈ hs, h.isHole = true) :
    (new begin stop kind).Within mark lo hi := by
  obtain ⟨hbm, hbl, hball⟩ := foldl_begin begin kind.children
  obtain ⟨hsm, hsl, hsall⟩ := foldl_stop (max begin stop) kind.children
  -- a construct never ends before it begins
  have hmax : mark (max begin stop) := by
    rcases Nat.le_total begin stop with h | h
    · rwa [Nat.max_eq_right h]
    · rwa [Nat.max_eq_left h]
  -- each end of the widened span is the one it was made with or that of a part
  refine ⟨forall_mem_subtrees.mpr ⟨⟨?_, ?_, ?_, ?_, holes⟩, fun c hc => (parts c hc).nests⟩, ?_, ?_⟩
  · show mark (kind.children.foldl _ _)
    rcases hbm with h | ⟨c, hc, h⟩
    · rwa [h]
    · rw [h]; exact (parts c hc).self.begin_mark
  · show mark (kind.children.foldl _ _)
    rcases hsm with h | ⟨c, hc, h⟩
    · rwa [h]
    · rw [h]; exact (parts c hc).self.stop_mark
  · show kind.children.foldl _ _ ≤ kind.children.foldl _ _
    exact Nat.le_trans hbl (Nat.le_trans (Nat.le_max_left _ _) hsl)
  · exact fun c hc => ⟨hball c hc, hsall c hc⟩
  · show lo ≤ kind.children.foldl _ _
    rcases hbm with h | ⟨c, hc, h⟩
    · rwa [h]
    · rw [h]; exact (parts c hc).lo_le
  · show kind.children.foldl _ _ ≤ hi
    rcases hsm with h | ⟨c, hc, h⟩
    · rw [h]; exact Nat.max_le.mpr ⟨hbh, hsh⟩
    · rw [h]; exact (parts c hc).le_hi

/-- A construct joined with holes lies where it and the holes lie. -/
theorem combine_within (h : n.Within mark lo hi) (hall : ∀ h ∈ hs, h.Within mark lo hi)
    (holes : ∀ h ∈ hs, h.isHole = true) : (n.combine hs).Within mark lo hi := by
  unfold combine
  split
  · exact h
  · rename_i hne
    refine new_within h.self.begin_mark h.self.stop_mark h.lo_le
      (Nat.le_trans h.self.begin_le_stop h.le_hi) h.le_hi ?_ ?_
    · exact List.forall_mem_cons.mpr ⟨h, hall⟩
    · intro p gs heq
      injection heq with _ hg
      subst hg
      exact ⟨fun hn => hne (by simp [hn]), holes⟩

end Node

/-- The parts of a variable whose name was read before its type are in order if the two are. -/
theorem NodeKind.pairwise_variableDef {R : Node → Node → Prop} {mods type value : Option Node}
    {title : Node} (h : (mods.toList ++ title :: (type.toList ++ value.toList)).Pairwise R)
    (hswap : ∀ t ∈ type, R t title) :
    (NodeKind.variableDef mods type title value).children.Pairwise R := by
  cases type with
  | none => simpa [NodeKind.children] using h
  | some type =>
    show (mods.toList ++ [type] ++ [title] ++ value.toList).Pairwise R
    rw [List.append_assoc, List.append_assoc]
    obtain ⟨hmods, hrest, hcross⟩ := List.pairwise_append.mp h
    obtain ⟨htitle, hrest⟩ := List.pairwise_cons.mp hrest
    obtain ⟨htype, hvalue⟩ := List.pairwise_cons.mp hrest
    refine List.pairwise_append.mpr ⟨hmods, ?_, fun m hm k hk => ?_⟩
    · refine List.pairwise_cons.mpr ⟨List.forall_mem_cons.mpr ⟨hswap type rfl, htype⟩, ?_⟩
      exact List.pairwise_cons.mpr ⟨fun k hk => htitle k (List.mem_cons_of_mem _ hk), hvalue⟩
    · exact hcross m hm k ((List.Perm.swap ..).mem_iff.mp hk)

end MudEdit
