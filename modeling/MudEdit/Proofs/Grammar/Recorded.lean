import MudEdit.Proofs.Grammar.Span

/-!
# What is recorded begins apart

A construct that is recorded begins at a token that is taken with it. What was read before
begins before the end of the last token taken there, and what is recorded inside begins after
that token. So two constructs that are recorded begin apart. Only a declaration that is joined
with holes may begin where the declaration does.
-/

namespace MudEdit

variable {mark : Nat → Prop} {r : Reach} {c c' : Cursor} {n : Node} {ns ms hs : List Node}
  {lo lo' mid hi : Nat}

namespace Node

/-- If both are recorded they do not begin together, unless one of them is a declaration joined
with holes, and the other one does not name a file. -/
def Unlike (a b : Node) : Prop :=
  a.isRecorded = true → b.isRecorded = true →
    (a.kind.isLink = true ∨ b.kind.isLink = true) ∨
      (a.kind.isRecorded = true ∧ b.kind.isRecorded = true) → a.begin ≠ b.begin

theorem Unlike.symm {a b : Node} (h : a.Unlike b) : b.Unlike a :=
  fun hb ha hl => (h ha hb (hl.imp Or.symm And.symm)).symm

theorem isRecorded_of_isHole (h : n.isHole = true) : n.isRecorded = false := by
  obtain ⟨begin, stop, kind⟩ := n
  cases kind with
  | missing | wrong => rfl
  | _ => exact absurd h (by simp [isHole])

theorem isRecorded_of_isLink (h : n.kind.isLink = true) : n.isRecorded = true := by
  rw [isRecorded, h, Bool.true_or]

/-- What names a file declares no name. -/
theorem isTitled_of_isLink (h : n.kind.isLink = true) : n.isTitled = false := by
  obtain ⟨begin, stop, kind⟩ := n
  cases kind with
  | includeFile | inheritFile => rfl
  | _ => exact absurd h (by simp [NodeKind.isLink])

theorem subtrees_of_isHole (h : n.isHole = true) : n.subtrees = [n] := by
  rw [subtrees_eq, children_of_isHole h, List.flatMap_nil]

end Node

/-- What is recorded of the constructs begins between two offsets. It begins before what is
recorded in it in its turn, and apart from what else is recorded. -/
structure Noted (lo hi : Nat) (ns : List Node) : Prop where
  within : ∀ m ∈ ns.flatMap Node.subtrees, m.isRecorded = true → lo ≤ m.begin ∧ m.begin < hi
  leads : ∀ m ∈ ns.flatMap Node.subtrees, m.isRecorded = true →
    ∀ l ∈ m.children.flatMap Node.subtrees, l.kind.isLink = true → m.begin < l.begin
  unlike : (ns.flatMap Node.subtrees).Pairwise Node.Unlike

namespace Noted

theorem nil : Noted lo hi [] := ⟨by simp, by simp, .nil⟩

theorem perm (h : Noted lo hi ns) (hp : ns.Perm ms) : Noted lo hi ms where
  within m hm := h.within m ((hp.flatMap_right _).mem_iff.mpr hm)
  leads m hm := h.leads m ((hp.flatMap_right _).mem_iff.mpr hm)
  unlike := ((hp.flatMap_right _).pairwise_iff Node.Unlike.symm).mp h.unlike

theorem widen (h : Noted lo hi ns) (hle : lo' ≤ lo) : Noted lo' hi ns where
  within m hm hr := ⟨Nat.le_trans hle (h.within m hm hr).1, (h.within m hm hr).2⟩
  leads := h.leads
  unlike := h.unlike

/-- What is read later begins later. -/
theorem append (h₁ : Noted lo mid ns) (h₂ : Noted mid hi ms) (hlo : lo ≤ mid) (hhi : mid ≤ hi) :
    Noted lo hi (ns ++ ms) where
  within := by
    rw [List.flatMap_append]
    refine List.forall_mem_append.mpr ⟨fun m hm hr => ?_, fun m hm hr => ?_⟩
    · have := h₁.within m hm hr
      omega
    · have := h₂.within m hm hr
      omega
  leads := by
    rw [List.flatMap_append]
    exact List.forall_mem_append.mpr ⟨h₁.leads, h₂.leads⟩
  unlike := by
    rw [List.flatMap_append]
    refine List.pairwise_append.mpr ⟨h₁.unlike, h₂.unlike, fun a ha b hb hra hrb _ => ?_⟩
    have h₁ := (h₁.within a ha hra).2
    have h₂ := (h₂.within b hb hrb).1
    omega

/-- A construct of its parts, which may be recorded. -/
theorem cons (h : Noted lo hi (n.children ++ hs))
    (hwithin : n.isRecorded = true → lo ≤ n.begin ∧ n.begin < hi)
    (hleads : n.isRecorded = true → ∀ l ∈ n.children.flatMap Node.subtrees,
      l.kind.isLink = true → n.begin < l.begin)
    (hunlike : n.isRecorded = true → ∀ b ∈ (n.children ++ hs).flatMap Node.subtrees, n.Unlike b) :
    Noted lo hi (n :: hs) := by
  have heq : (n :: hs).flatMap Node.subtrees =
      n :: (n.children ++ hs).flatMap Node.subtrees := by
    rw [List.flatMap_cons, Node.subtrees_eq, List.flatMap_append, List.cons_append]
  refine ⟨heq ▸ List.forall_mem_cons.mpr ⟨hwithin, h.within⟩,
    heq ▸ List.forall_mem_cons.mpr ⟨hleads, h.leads⟩,
    heq ▸ List.pairwise_cons.mpr ⟨fun b hb hr => ?_, h.unlike⟩⟩
  exact hunlike hr b hb hr

theorem unrecorded (h : Noted lo hi (n.children ++ hs)) (hn : n.isRecorded = false) :
    Noted lo hi (n :: hs) :=
  have hno : n.isRecorded ≠ true := by simp [hn]
  h.cons (fun hr => absurd hr hno) (fun hr => absurd hr hno) fun hr => absurd hr hno

theorem leaf (hc : n.children = []) (hn : n.isRecorded = false) : Noted lo hi [n] :=
  unrecorded (by rw [hc]; exact .nil) hn

/-- A construct that is joined with holes is recorded if it was, and begins no later. -/
theorem combine (h : Noted lo hi (n :: hs)) (hh : ∀ g ∈ hs, g.isHole = true)
    (hlo : lo ≤ (n.combine hs).begin) : Noted lo hi [n.combine hs] := by
  unfold Node.combine at hlo ⊢
  split
  · rename_i he
    rwa [List.isEmpty_iff.mp he] at h
  · rename_i he
    rw [if_neg he] at hlo
    have hn : n ∈ (n :: hs).flatMap Node.subtrees := by
      rw [List.flatMap_cons, Node.subtrees_eq]
      exact List.mem_cons_self
    have hbegin : (Node.new n.begin n.stop (.combination n hs)).begin ≤ n.begin :=
      Node.begin_new_le ..
    -- what declares a name does so with the holes as well
    have hrec (hr : (Node.new n.begin n.stop (.combination n hs)).isRecorded = true) :
        n.isTitled = true := hr
    have hleads (hr : n.isTitled = true) : ∀ l ∈ (n :: hs).flatMap Node.subtrees,
        l.kind.isLink = true → n.begin < l.begin := by
      intro l hl hk
      rw [List.flatMap_cons, Node.subtrees_eq, List.cons_append] at hl
      rcases List.mem_cons.mp hl with rfl | hl
      · exact absurd hr (by simp [Node.isTitled_of_isLink hk])
      rcases List.mem_append.mp hl with hl | hl
      · exact h.leads n hn (by simp [Node.isRecorded, hr]) l hl hk
      · obtain ⟨g, hg, hl⟩ := List.mem_flatMap.mp hl
        rw [Node.subtrees_of_isHole (hh g hg), List.mem_singleton] at hl
        have := Node.isRecorded_of_isHole (hh g hg)
        exact absurd (Node.isRecorded_of_isLink hk) (by simp [hl, this])
    have hparts : Noted lo hi
        ((Node.new n.begin n.stop (.combination n hs)).children ++ []) := by
      rw [List.append_nil]
      exact h
    refine hparts.cons (fun hr => ⟨hlo, ?_⟩) (fun hr l hl hk => ?_) fun hr b hb _ _ hk => ?_
    · have := (h.within n hn (by simp [Node.isRecorded, hrec hr])).2
      omega
    · exact Nat.lt_of_le_of_lt hbegin (hleads (hrec hr) l hl hk)
    · rw [List.append_nil] at hb
      -- a combination is no declaration itself
      have hlink : b.kind.isLink = true := by
        rcases hk with (hk | hk) | hk
        · exact absurd hk (by simp [Node.new, Node.kind, NodeKind.isLink])
        · exact hk
        · exact absurd hk.1 (by simp [Node.new, Node.kind, NodeKind.isRecorded, NodeKind.isLink,
            NodeKind.isTitled])
      have := hleads (hrec hr) b hb hlink
      omega

end Noted

/-- **What a reading records begins apart** from what else it does, between the last tokens. -/
theorem Reads.noted (h : Reads r c ns hs c') (hc : c.Placed mark) :
    Noted c.lastStop c'.lastStop (ns ++ hs) := by
  induction h with
  | nil | word => exact .nil
  | append h₁ h₂ ih₁ ih₂ | settle h₁ h₂ _ ih₁ ih₂ =>
    obtain ⟨ts, ht₁⟩ := h₁.takes
    obtain ⟨us, ht₂⟩ := h₂.takes
    obtain ⟨hp, hle, -⟩ := hc.takes ht₁
    exact ((ih₁ hc).append (ih₂ hp) hle (hp.takes ht₂).2.1).perm (append_perm ..)
  | loosen _ ih | embed _ ih => exact ih hc
  | deeper _ ih => exact ih ⟨hc.order, hc.lastStop_mark, hc.textEnd_mark, hc.ahead_mark⟩
  | leaf _ hk =>
    have hch := NodeKind.children_of_isLeaf (Token.isLeaf_of_leaf hk)
    refine .leaf hch (Node.isRecorded_of_kind ?_ (NodeKind.isRecorded_of_children hch))
    exact NodeKind.not_combination (.inl hch)
  | missing | wrong => exact .leaf rfl rfl
  | reorder _ hp _ ih => exact (ih hc).perm (hp.append_right _)
  | aside _ _ ih => exact ih hc
  | combine h hp ih =>
    rw [List.append_nil]
    have hw := (h.combine hp).within hc
    exact (ih hc).combine h.isHole_of_mem (hw _ List.mem_cons_self).lo_le
  | construct _ hk _ _ hn _ ih =>
    refine .unrecorded (ih hc) (Node.isRecorded_of_kind ?_ hn)
    exact NodeKind.not_combination (.inr ⟨_, hk⟩)
  | @record r c c₁ c' ns ms hs gs stop kind h₁ hl h₂ hch hk hstop hhead ih₁ ih₂ =>
    obtain ⟨ts, ht₁⟩ := h₁.takes
    obtain ⟨us, ht₂⟩ := h₂.takes
    obtain ⟨hp, hle, -, hlt⟩ := hc.takes ht₁
    have hle₂ := (hp.takes ht₂).2.1
    have hparts := ((ih₁ hc).append (ih₂ hp) hle hle₂).perm (append_perm ..)
    have hwithin := ((h₁.record hl h₂ hch hk hstop hhead).within hc _ List.mem_cons_self).lo_le
    have hbegin : (Node.new c.current.begin stop kind).begin < c₁.lastStop :=
      Nat.lt_of_le_of_lt (Node.begin_new_le ..) (hlt hl).1
    -- of the parts read first nothing is recorded
    have hflat : ∀ l ∈ ns.flatMap Node.subtrees, l.isRecorded = false := by
      intro l hm
      obtain ⟨m, hm, hl⟩ := List.mem_flatMap.mp hm
      exact Node.isRecorded_of_isFlat (h₁.isFlat m (List.mem_append_left _ hm)) hl
    have hlater : ∀ l ∈ ms.flatMap Node.subtrees, l.isRecorded = true →
        (Node.new c.current.begin stop kind).begin < l.begin := by
      intro l hl hr
      have := ((ih₂ hp).within l (by simp [hl]) hr).1
      omega
    have hchildren : (Node.new c.current.begin stop kind).children = ns ++ ms := hch
    refine Noted.cons (hchildren ▸ hparts) (fun _ => ⟨hwithin, by omega⟩) ?_ ?_
    · intro _ l hl hkind
      rw [hchildren, List.flatMap_append] at hl
      rcases List.mem_append.mp hl with hl | hl
      · exact absurd (Node.isRecorded_of_isLink hkind) (by simp [hflat l hl])
      · exact hlater l hl (Node.isRecorded_of_isLink hkind)
    · intro _ b hb _ hr _
      rw [hchildren, List.flatMap_append, List.flatMap_append] at hb
      rcases List.mem_append.mp hb with hb | hb
      · rcases List.mem_append.mp hb with hb | hb
        · exact absurd hr (by simp [hflat b hb])
        · exact Nat.ne_of_lt (hlater b hb hr)
      · have hholes : ∀ g ∈ hs ++ gs, g.isHole = true :=
          List.forall_mem_append.mpr ⟨h₁.isHole_of_mem, h₂.isHole_of_mem⟩
        obtain ⟨g, hg, hb⟩ := List.mem_flatMap.mp hb
        rw [Node.subtrees_of_isHole (hholes g hg), List.mem_singleton] at hb
        exact absurd hr (by simp [hb, Node.isRecorded_of_isHole (hholes g hg)])
  | operatorName text _ he hk h ih =>
    have hle := (hc.takes (Cursor.takes_skip he)).2.1
    exact .unrecorded ((ih (hc.skip he).1).widen hle) rfl
  | fileType basic he hk h₁ ht hall h₂ hu hno ih₁ ih₂ =>
    obtain ⟨us, ht₁⟩ := h₁.takes
    obtain ⟨hp, hle, -⟩ := hc.takes ((Cursor.takes_skip he).trans (ht₁.trans ht))
    exact .unrecorded ((ih₂ hp).widen hle) rfl

end MudEdit
