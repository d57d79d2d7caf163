import MudEdit.Node.Walk
import MudEdit.Proofs.Grammar.Span

/-!
# Without holes no constructs overlap

A missing hole lies where the last token taken ends, and a construct around it may reach
further than where the next one begins. Without holes a construct begins at the current
token or later. Whatever is read after it begins where it has ended, and parts that are
kept in another order than they were read in have something between them.
-/

namespace MudEdit

variable {mark : Nat → Prop} {r : Reach} {c c' : Cursor} {ns hs : List Node}

namespace Node

variable {n : Node}

/-- One of the two ends before the other begins. -/
def Apart (a b : Node) : Prop := a.stop ≤ b.begin ∨ b.stop ≤ a.begin

theorem Apart.symm {a b : Node} (h : a.Apart b) : b.Apart a := Or.symm h

theorem apart_perm {ms : List Node} (h : ns.Pairwise Apart) (hp : ns.Perm ms) :
    ms.Pairwise Apart := (hp.pairwise_iff Apart.symm).mp h

theorem Spaced.apart {a b : Node} (h : a.Spaced b) : a.Apart b :=
  h.imp_right fun h => Nat.le_of_lt h.2.2

/-- A tree has no holes if it is no hole and its parts have none. -/
theorem holes_eq_nil : n.holes = [] ↔ n.isHole = false ∧ ∀ m ∈ n.children, m.holes = [] := by
  rw [holes, fold_eq]
  split
  · simp [*]
  · simp_all

theorem holes_ne_nil (h : n.isHole = true) : n.holes ≠ [] := by
  intro hn
  have := (holes_eq_nil.mp hn).1
  rw [h] at this
  exact absurd this (by simp)

/-- The parts of a construct are in order, and behind the word that it starts with. What it goes
over makes no scopes. -/
structure Parted (n : Node) : Prop where
  order : n.children.Pairwise Spaced
  headed : n.kind.isHeaded = true → ∀ m ∈ n.children, n.begin < m.begin
  foreach_over : ∀ binding value body,
    n.kind = .foreachLoop binding value body → value.isFlat = true
  switch_over : ∀ value cases, n.kind = .switchOn value cases → value.isFlat = true

theorem Parted.apart (h : n.Parted) : n.children.Pairwise Apart := h.order.imp Spaced.apart

theorem parted_of_leaf (hc : n.children = []) : n.Parted where
  order := by rw [hc]; exact .nil
  headed _ := by rw [hc]; simp
  foreach_over _ _ _ h := absurd hc (by simp [children, h, NodeKind.children])
  switch_over _ _ h := absurd hc (by simp [children, h, NodeKind.children])

end Node

/-- What was read between two cursors without a hole: nothing begins before the current token,
and everything is in order. -/
structure Parts (c : Cursor) (ns hs : List Node) : Prop where
  aside : hs = []
  begins : ∀ n ∈ ns, c.current.begin ≤ n.begin
  order : ns.Pairwise Node.Spaced
  parted : ∀ n ∈ ns, ∀ m ∈ n.subtrees, m.Parted

namespace Parts

theorem apart (h : Parts c ns hs) : ns.Pairwise Node.Apart := h.order.imp Node.Spaced.apart

theorem nil : Parts c [] [] := ⟨rfl, by simp, .nil, by simp⟩

/-- A construct without parts. -/
theorem leaf {n : Node} (hc : n.children = []) (hb : c.current.begin ≤ n.begin) :
    Parts c [n] [] := by
  refine ⟨rfl, by simpa using hb, List.pairwise_singleton .., ?_⟩
  rw [List.forall_mem_singleton, Node.subtrees_eq, hc]
  simpa using Node.parted_of_leaf hc

/-- What begins where the rest has ended comes after it. -/
theorem append {ms gs : List Node} {c₁ : Cursor} (h₁ : Parts c ns hs) (h₂ : Parts c₁ ms gs)
    (hle : c.current.begin ≤ c₁.current.begin) (hns : ∀ n ∈ ns, n.stop ≤ c₁.current.begin) :
    Parts c (ns ++ ms) (hs ++ gs) where
  aside := by rw [h₁.aside, h₂.aside]; rfl
  begins := List.forall_mem_append.mpr
    ⟨h₁.begins, fun m hm => Nat.le_trans hle (h₂.begins m hm)⟩
  order := by
    refine List.pairwise_append.mpr ⟨h₁.order, h₂.order, fun n hn m hm => .inl ?_⟩
    exact Nat.le_trans (hns n hn) (h₂.begins m hm)
  parted := List.forall_mem_append.mpr ⟨h₁.parted, h₂.parted⟩

/-- A construct of its parts. -/
theorem new {begin stop : Nat} {kind : NodeKind} (h : Parts c kind.children hs)
    (hk : kind.isPlain r = true) (hbegin : c.current.begin ≤ begin) (hc : c.Placed mark)
    (hhead : kind.Headed c begin) :
    Parts c [.new begin stop kind] hs where
  aside := h.aside
  begins := by
    rw [List.forall_mem_singleton]
    show _ ≤ kind.children.foldl _ _
    rcases (Node.foldl_begin begin kind.children).1 with hm | ⟨n, hmem, hm⟩
    · rw [hm]
      exact hbegin
    · rw [hm]
      exact h.begins n hmem
  order := List.pairwise_singleton ..
  parted := by
    have hne (hf : kind.isFlat = false) : r ≠ .flat := by
      rintro rfl
      rw [NodeKind.isFlat_of_isPlain hk] at hf
      exact absurd hf (by simp)
    rw [List.forall_mem_singleton]
    refine Node.forall_mem_subtrees.mpr ⟨⟨h.order, fun hh m hm => ?_, ?_, ?_⟩, h.parted⟩
    · exact Nat.lt_of_le_of_lt (Node.begin_new_le ..) (hhead hh mark hc m hm)
    · rintro binding value body rfl
      exact (Bool.and_eq_true_iff.mp (NodeKind.isProper_of_isPlain (hne rfl) hk)).2
    · rintro value cases rfl
      exact NodeKind.isProper_of_isPlain (hne rfl) hk

end Parts

/-- Holes put aside are holes of the reading. -/
theorem Reads.aside_eq_nil (h : Reads r c ns hs c') (hn : ∀ g ∈ hs, g.holes = []) : hs = [] := by
  refine List.eq_nil_iff_forall_not_mem.mpr fun g hg => ?_
  exact Node.holes_ne_nil (h.isHole_of_mem g hg) (hn g hg)

/-- **A reading without holes is a reading of parts in order**, at every level. -/
theorem Reads.parts (h : Reads r c ns hs c') (hc : c.Placed mark)
    (hn : ∀ n ∈ ns ++ hs, n.holes = []) : Parts c ns hs := by
  induction h with
  | nil | word => exact .nil
  | append h₁ h₂ ih₁ ih₂ | settle h₁ h₂ _ ih₁ ih₂ =>
    obtain ⟨ts, ht⟩ := h₁.takes
    obtain ⟨hp, -, hb, -⟩ := hc.takes ht
    refine (ih₁ hc ?_).append (ih₂ hp ?_) hb fun n hm => ?_
    · exact fun n hm => hn n ((append_perm ..).mem_iff.mp (List.mem_append_left _ hm))
    · exact fun n hm => hn n ((append_perm ..).mem_iff.mp (List.mem_append_right _ hm))
    · have hw := h₁.within hc n (List.mem_append_left _ hm)
      exact Nat.le_trans hw.le_hi (hp.limit_le_current _)
  | loosen _ ih | embed _ ih => exact ih hc hn
  | deeper _ ih =>
    obtain ⟨h₁, h₂, h₃, h₄⟩ := ih ⟨hc.order, hc.lastStop_mark, hc.textEnd_mark, hc.ahead_mark⟩ hn
    exact ⟨h₁, h₂, h₃, h₄⟩
  | leaf _ hl =>
    have hch := NodeKind.children_of_isLeaf (Token.isLeaf_of_leaf hl)
    exact .leaf hch (by simp [Node.new, hch])
  | missing | wrong => exact absurd (hn _ List.mem_cons_self) (Node.holes_ne_nil rfl)
  | reorder _ hp hspaced ih =>
    have h := ih hc fun n hm => hn n ((hp.append_right _).mem_iff.mp hm)
    exact ⟨h.aside, fun n hm => h.begins n (hp.mem_iff.mpr hm), hspaced _ hc h.order,
      fun n hm => h.parted n (hp.mem_iff.mpr hm)⟩
  | aside _ hh => exact absurd (hn _ List.mem_cons_self) (Node.holes_ne_nil hh)
  | @combine _ _ _ n hs h _ ih =>
    have hsub : (n.combine hs).holes = [] := hn _ (by simp)
    cases hs with
    | nil => exact ih hc (by simpa [Node.combine] using hsub)
    | cons g gs =>
      -- the hole that is joined is a hole of the whole
      have hg := (Node.holes_eq_nil.mp hsub).2 g (by simp [Node.combine, Node.new, Node.children,
        NodeKind.children])
      exact absurd hg (Node.holes_ne_nil (h.isHole_of_mem g List.mem_cons_self))
  | @construct r c c' hs begin stop kind h hk hbegin _ _ hhead ih =>
    obtain ⟨hnew, hrest⟩ := List.forall_mem_cons.mp hn
    have hp := ih hc (List.forall_mem_append.mpr ⟨(Node.holes_eq_nil.mp hnew).2, hrest⟩)
    refine hp.new hk ?_ hc hhead
    -- it begins at the current token or with one of its parts
    rcases hbegin with ⟨rfl, -⟩ | ⟨n, hmem, rfl⟩
    · exact Nat.le_refl _
    · exact hp.begins n hmem
  | @record r c c₁ c' ns ms hs gs stop kind h₁ _ h₂ hch hk _ hhead ih₁ ih₂ =>
    obtain ⟨ts, ht⟩ := h₁.takes
    obtain ⟨hp, -, hb, -⟩ := hc.takes ht
    obtain ⟨hnew, hrest⟩ := List.forall_mem_cons.mp hn
    have hparts : ∀ n ∈ ns ++ ms, n.holes = [] := hch ▸ (Node.holes_eq_nil.mp hnew).2
    obtain ⟨hns, hms⟩ := List.forall_mem_append.mp hparts
    have hrest : ∀ g ∈ hs ++ gs, g.holes = [] := hrest
    obtain ⟨hhs, hgs⟩ := List.forall_mem_append.mp hrest
    have h := (ih₁ hc (List.forall_mem_append.mpr ⟨hns, hhs⟩)).append
      (ih₂ hp (List.forall_mem_append.mpr ⟨hms, hgs⟩)) hb fun n hm => by
        have hw := h₁.within hc n (List.mem_append_left _ hm)
        exact Nat.le_trans hw.le_hi (hp.limit_le_current _)
    exact (hch ▸ h).new hk (Nat.le_refl _) hc hhead
  | operatorName text _ he _ h ih =>
    rw [h.aside_eq_nil (List.forall_mem_cons.mp hn).2]
    exact .leaf rfl (Nat.le_refl _)
  | fileType basic he _ _ _ _ h _ _ _ _ =>
    rw [h.aside_eq_nil (List.forall_mem_cons.mp hn).2]
    exact .leaf rfl (Nat.le_refl _)

end MudEdit
