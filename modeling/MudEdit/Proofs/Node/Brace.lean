import Mathlib.Data.List.Basic
import MudEdit.Program.Resolution
import MudEdit.Proofs.Node.Flat

/-!
# Bodies without their closing brace

A body whose closing brace is missing is open. An open body is the last thing in a text, and
in a well-read tree that shows: of the parts of a construct at most one has open bodies in it,
and braces with an open body between them are open themselves.
-/

namespace MudEdit

namespace Node

/-- Whether the construct is a body that was read without its closing brace. -/
def isOpen (n : Node) : Bool :=
  match n.kind with
  | .combination primary holes => primary.kind.hasBraces && Resolve.lacksBrace holes
  | _ => false

/-- Whether a body in the tree was read without its closing brace. -/
def hasOpen (n : Node) : Bool := n.subtrees.any isOpen

/-- Whether the construct is a block, holes aside. -/
def isBlock (n : Node) : Bool :=
  match n.kind with
  | .block _ | .combination (.mk _ _ (.block _)) _ => true
  | _ => false

/-- Only one of the two may have open bodies in it. -/
def OneOpen (a b : Node) : Prop := a.hasOpen = false ∨ b.hasOpen = false

end Node

/-- Whether the construct has no braces but those of its parts. The body of a function is one
of them. -/
def NodeKind.isUnbraced : NodeKind → Bool
  | combination _ _ | block _ | classDef _ _ _ => false
  | functionDef _ _ _ _ _ (some body) => body.isBlock
  | _ => true

theorem NodeKind.hasBraces_of_isUnbraced {kind : NodeKind} (h : kind.isUnbraced = true) :
    kind.hasBraces = false := by
  cases kind with
  | block | classDef => exact absurd h (by simp [isUnbraced])
  | _ => rfl

namespace Node

variable {n m : Node} {ns hs : List Node} {begin stop : Nat} {kind : NodeKind}

/-- At most one part has open bodies in it, and those are open to the end. -/
structure Sealed (n : Node) : Prop where
  alone : n.children.Pairwise OneOpen
  braces : ∀ m ∈ n.children, m.kind.hasBraces = true → m.hasOpen = true → n.isOpen = true
  body : ∀ mods returns title parameters variadic body,
    n.kind = .functionDef mods returns title parameters variadic (some body) → body.isBlock = true

/-- Every construct in the tree is sealed, and braces that no hole is joined with are closed. -/
structure Settled (n : Node) : Prop where
  parts : ∀ m ∈ n.subtrees, m.Sealed
  closed : n.kind.hasBraces = true → n.hasOpen = false

theorem hasOpen_iff :
    n.hasOpen = true ↔ n.isOpen = true ∨ ∃ m ∈ n.children, m.hasOpen = true := by
  simp only [hasOpen, List.any_eq_true]
  rw [subtrees_eq]
  simp only [List.mem_cons, List.mem_flatMap]
  constructor
  · rintro ⟨k, rfl | ⟨m, hm, hk⟩, hopen⟩
    · exact .inl hopen
    · exact .inr ⟨m, hm, k, hk, hopen⟩
  · rintro (hopen | ⟨m, hm, k, hk, hopen⟩)
    · exact ⟨n, .inl rfl, hopen⟩
    · exact ⟨k, .inr ⟨m, hm, hk⟩, hopen⟩

theorem hasOpen_of_subtree (hm : m ∈ n.subtrees) (h : m.isOpen = true) : n.hasOpen = true :=
  List.any_eq_true.mpr ⟨m, hm, h⟩

theorem OneOpen.symm (h : n.OneOpen m) : m.OneOpen n := Or.symm h

/-! ## Flat trees -/

theorem hasOpen_of_isFlat (h : n.isFlat = true) : n.hasOpen = false := by
  refine List.any_eq_false.mpr fun m hm hopen => ?_
  have hflat := isFlat_of_mem h hm
  unfold isOpen at hopen
  split at hopen
  · rename_i primary holes hk
    have hp := (isFlat_iff.mp hflat).2 primary (by simp [children, hk, NodeKind.children])
    rw [NodeKind.hasBraces_of_isFlat (isFlat_iff.mp hp).1] at hopen
    exact absurd hopen (by simp)
  · exact absurd hopen (by simp)

theorem settled_of_isFlat (h : n.isFlat = true) : n.Settled := by
  refine ⟨fun m hm => ?_, fun _ => hasOpen_of_isFlat h⟩
  obtain ⟨hkind, hparts⟩ := isFlat_iff.mp (isFlat_of_mem h hm)
  refine ⟨List.pairwise_of_forall_mem_list fun a ha b _ => ?_, fun c hc hb => ?_, ?_⟩
  · exact .inl (hasOpen_of_isFlat (hparts a ha))
  · have := NodeKind.hasBraces_of_isFlat (isFlat_iff.mp (hparts c hc)).1
    exact absurd hb (by simp [this])
  · intro mods returns title parameters variadic body hk
    exact absurd hkind (by simp [hk, NodeKind.isFlat])

/-! ## Trees that are put together -/

theorem le_stop_new : stop ≤ (new begin stop kind).stop := by
  have hle := (foldl_stop (max begin stop) kind.children).2.1
  show stop ≤ kind.children.foldl (fun s c => max s c.stop) (max begin stop)
  omega

theorem stop_le_combine (n : Node) (hs : List Node) : n.stop ≤ (n.combine hs).stop := by
  unfold combine
  split
  · exact Nat.le_refl _
  · exact le_stop_new

theorem isOpen_new (h : kind.isUnbraced = true ∨ kind.hasBraces = true) :
    (new begin stop kind).isOpen = false := by
  unfold isOpen new
  cases kind with
  | combination => exact absurd h (by simp [NodeKind.isUnbraced, NodeKind.hasBraces])
  | _ => rfl

/-- A construct of settled parts is sealed if at most one of them has open bodies in it. -/
theorem sealed_new (hparts : ∀ m ∈ kind.children, m.Settled)
    (halone : kind.children.Pairwise OneOpen)
    (hk : kind.isUnbraced = true ∨ kind.hasBraces = true) :
    ∀ m ∈ (new begin stop kind).subtrees, m.Sealed := by
  refine forall_mem_subtrees.mpr ⟨⟨halone, fun m hm hb hopen => ?_, ?_⟩,
    fun m hm => (hparts m hm).parts⟩
  · exact absurd hopen (by simp [(hparts m hm).closed hb])
  · intro mods returns title parameters variadic body heq
    obtain rfl : kind = _ := heq
    exact hk.resolve_right (by simp [NodeKind.hasBraces])

theorem hasOpen_new (hk : kind.isUnbraced = true ∨ kind.hasBraces = true) :
    (new begin stop kind).hasOpen = true ↔ ∃ m ∈ kind.children, m.hasOpen = true := by
  rw [hasOpen_iff, isOpen_new hk]
  simp only [Bool.false_eq_true, false_or]
  rfl

/-- An open body in a construct that is joined with holes was in it before, or it is the whole,
and its closing brace is among the holes. -/
theorem mem_combine_of_isOpen (hflat : ∀ h ∈ hs, h.isFlat = true)
    (hm : m ∈ (n.combine hs).subtrees) (ho : m.isOpen = true) :
    m ∈ n.subtrees ∨ m = n.combine hs ∧ n.kind.hasBraces = true ∧
      Resolve.lacksBrace hs = true := by
  unfold combine at hm ⊢
  split at hm
  · exact .inl hm
  · rename_i hne
    rw [if_neg hne]
    rw [subtrees_eq] at hm
    rcases List.mem_cons.mp hm with rfl | hm
    -- the node itself, whose own holes say whether it is open
    · exact .inr ⟨rfl, Bool.and_eq_true_iff.mp ho⟩
    · obtain ⟨k, hk, hmk⟩ := List.mem_flatMap.mp hm
      rcases List.mem_cons.mp hk with rfl | hk
      · exact .inl hmk
      -- a hole put into it is flat and opens nothing
      · have hnone := hasOpen_of_isFlat (hflat k hk)
        exact absurd (hasOpen_of_subtree hmk ho) (by simp [hnone])

/-- Joined with holes, a construct is open if it was or if its closing brace is among them. -/
theorem hasOpen_combine (hflat : ∀ h ∈ hs, h.isFlat = true) : (n.combine hs).hasOpen = true ↔
    n.hasOpen = true ∨ n.kind.hasBraces = true ∧ Resolve.lacksBrace hs = true := by
  unfold combine
  split
  · rename_i hnil
    rw [List.isEmpty_iff.mp hnil]
    simp [Resolve.lacksBrace]
  · rw [hasOpen_iff]
    have hself : (new n.begin n.stop (.combination n hs)).isOpen =
        (n.kind.hasBraces && Resolve.lacksBrace hs) := rfl
    have hparts : (new n.begin n.stop (.combination n hs)).children = n :: hs := rfl
    rw [hself, hparts, Bool.and_eq_true, List.exists_mem_cons_iff, or_comm]
    refine or_congr_left (or_iff_left ?_)
    rintro ⟨h, hmem, hopen⟩
    exact absurd hopen (by simp [hasOpen_of_isFlat (hflat h hmem)])

/-- What is joined with holes has no braces left that are not joined with them. -/
theorem hasBraces_combine (h : (n.combine hs).kind.hasBraces = true) :
    hs = [] ∧ n.kind.hasBraces = true := by
  unfold combine at h
  split at h
  · exact ⟨List.isEmpty_iff.mp ‹_›, h⟩
  · exact absurd h (by simp [new, NodeKind.hasBraces])

/-- Joined with its holes, a construct is settled if its closing brace is among them whenever
something between its braces is open. -/
theorem settled_combine (h : ∀ m ∈ n.subtrees, m.Sealed) (hflat : ∀ h ∈ hs, h.isFlat = true)
    (hlacks : n.kind.hasBraces = true → n.hasOpen = true → Resolve.lacksBrace hs = true) :
    (n.combine hs).Settled := by
  have hnone : ∀ g ∈ hs, g.hasOpen = false := fun g hg => hasOpen_of_isFlat (hflat g hg)
  refine ⟨?_, fun hb => ?_⟩
  swap
  · -- nothing is joined with the braces
    obtain ⟨rfl, hb⟩ := hasBraces_combine hb
    exact Bool.eq_false_iff.mpr fun ho => absurd (hlacks hb ho) (by simp [Resolve.lacksBrace])
  unfold combine
  split
  · exact h
  · refine forall_mem_subtrees.mpr ⟨⟨?_, ?_, ?_⟩, ?_⟩
    · refine List.pairwise_cons.mpr ⟨fun g hg => .inr (hnone g hg), ?_⟩
      exact List.pairwise_of_forall_mem_list fun a ha _ _ => .inl (hnone a ha)
    · refine List.forall_mem_cons.mpr ⟨fun hb hopen => ?_, fun g hg _ hopen => ?_⟩
      · exact Bool.and_eq_true_iff.mpr ⟨hb, hlacks hb hopen⟩
      · exact absurd hopen (by simp [hnone g hg])
    · exact fun _ _ _ _ _ _ heq => NodeKind.noConfusion heq
    · exact List.forall_mem_cons.mpr ⟨h, fun g hg => (settled_of_isFlat (hflat g hg)).parts⟩

end Node

end MudEdit
