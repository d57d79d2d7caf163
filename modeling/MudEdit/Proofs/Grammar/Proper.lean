import MudEdit.Proofs.Grammar.Span

/-!
# Every construct is in good form

Whatever the text, what is read is a type, an expression, or a statement or declaration whose
other parts are types and expressions, and any of these may be joined with holes. So a
declaration only stands where statements and declarations do.
-/

namespace MudEdit

variable {mark : Nat → Prop} {r : Reach} {c c' : Cursor} {n : Node} {ns hs : List Node}

namespace Node

/-- In good form. A combination joins its construct with holes, and begins where the braces do
if the construct has braces. -/
structure Proper (n : Node) : Prop where
  form : n.isFlat = true ∨ n.kind.isProper = true ∨ ∃ p hs, n.kind = .combination p hs
  holes : ∀ p hs, n.kind = .combination p hs → ∀ h ∈ hs, h.isHole = true
  begins : ∀ p hs, n.kind = .combination p hs → p.kind.hasBraces = true → n.begin = p.begin

theorem Proper.of_form (h : n.isFlat = true ∨ n.kind.isProper = true)
    (hk : ∀ p hs, n.kind ≠ .combination p hs) : n.Proper where
  form := h.imp_right .inl
  holes p hs heq := absurd heq (hk p hs)
  begins p hs heq := absurd heq (hk p hs)

theorem Proper.of_isHole (h : n.isHole = true) : n.Proper := by
  obtain ⟨begin, stop, kind⟩ := n
  cases kind with
  | missing | wrong => exact .of_form (.inl rfl) fun p hs h => NodeKind.noConfusion h
  | _ => exact absurd h (by simp [isHole])

theorem Proper.isProper (h : n.Proper) (hk : n.kind.isFlat = false) : n.kind.isProper = true := by
  rcases h.form with h | h | ⟨p, hs, h⟩
  · exact absurd (isFlat_iff.mp h).1 (by simp [hk])
  · exact h
  · rw [h] at hk
    exact absurd hk (by simp [NodeKind.isFlat])

/-- What has no part before it begins where it was made to begin. -/
theorem begin_new {begin stop : Nat} {kind : NodeKind}
    (h : ∀ m ∈ kind.children, begin ≤ m.begin) : (new begin stop kind).begin = begin := by
  obtain ⟨heq, -⟩ := foldl_begin begin kind.children
  rcases heq with heq | ⟨m, hm, heq⟩
  · exact heq
  · have hle : (new begin stop kind).begin ≤ begin := begin_new_le ..
    have hm' : (new begin stop kind).begin = m.begin := heq
    have := h m hm
    omega

/-- A construct joined with holes is in good form if it and the holes are. -/
theorem proper_combine (h : ∀ g ∈ n :: hs, ∀ m ∈ g.subtrees, m.Proper)
    (hh : ∀ g ∈ hs, g.isHole = true) (hp : n.Precedes c hs) (hc : c.Placed mark) :
    ∀ m ∈ (n.combine hs).subtrees, m.Proper := by
  unfold combine
  split
  · exact h n List.mem_cons_self
  · refine forall_mem_subtrees.mpr ⟨⟨.inr (.inr ⟨n, hs, rfl⟩), fun p gs heq => ?_, ?_⟩, h⟩
    · obtain ⟨rfl, rfl⟩ := NodeKind.combination.inj heq
      exact hh
    · intro p gs heq hb
      obtain ⟨rfl, rfl⟩ := NodeKind.combination.inj heq
      rcases hp with hp | hp
      · exact absurd hb (by simp [hp])
      · exact begin_new (List.forall_mem_cons.mpr ⟨Nat.le_refl _, hp mark hc⟩)

end Node

namespace NodeKind

/-- A construct of its parts is flat or proper, as the reading has it. -/
theorem form_of_isPlain {kind : NodeKind} {begin stop : Nat} (hk : kind.isPlain r = true)
    (hflat : r = .flat → ∀ m ∈ kind.children, m.isFlat = true) :
    (Node.new begin stop kind).isFlat = true ∨ kind.isProper = true := by
  by_cases hr : r = .flat
  · subst hr
    exact .inl (Node.isFlat_iff.mpr ⟨isFlat_of_isPlain hk, hflat rfl⟩)
  · exact .inr (isProper_of_isPlain hr hk)

end NodeKind

namespace Reads

/-- **Whatever is read is in good form**, at every level. -/
theorem proper (h : Reads r c ns hs c') (hc : c.Placed mark) :
    ∀ n ∈ ns ++ hs, ∀ m ∈ n.subtrees, m.Proper := by
  induction h with
  | nil | word => simp
  | append h₁ _ ih₁ ih₂ | settle h₁ _ _ ih₁ ih₂ =>
    obtain ⟨ts, ht⟩ := h₁.takes
    have h := List.forall_mem_append.mpr ⟨ih₁ hc, ih₂ (hc.takes ht).1⟩
    exact fun n hn => h n ((append_perm ..).mem_iff.mpr hn)
  | loosen _ ih | embed _ ih => exact ih hc
  | deeper _ ih => exact ih ⟨hc.order, hc.lastStop_mark, hc.textEnd_mark, hc.ahead_mark⟩
  | leaf _ hk =>
    -- what has no parts is flat, as the kinds of leaves are
    have hl := Token.isLeaf_of_leaf hk
    have hch := NodeKind.children_of_isLeaf hl
    refine List.forall_mem_singleton.mpr (Node.forall_mem_subtrees.mpr ⟨.of_form ?_ ?_, ?_⟩)
    · exact .inl (Node.isFlat_of_leaf (NodeKind.isFlat_of_isLeaf hl) hch)
    · exact NodeKind.not_combination (.inl hch)
    · simp [Node.new, Node.children, hch]
  | missing | wrong =>
    refine List.forall_mem_singleton.mpr (Node.forall_mem_subtrees.mpr ⟨.of_isHole rfl, ?_⟩)
    simp [Node.missing, Node.wrong, Node.children, NodeKind.children]
  | reorder _ hp _ ih => exact fun n hn => ih hc n ((hp.append_right _).mem_iff.mpr hn)
  | aside _ _ ih => exact ih hc
  | combine h hp ih =>
    refine fun n hn => ?_
    obtain rfl := List.mem_singleton.mp hn
    exact Node.proper_combine (ih hc) h.isHole_of_mem hp hc
  | construct h hk _ _ _ _ ih =>
    obtain ⟨hparts, hholes⟩ := List.forall_mem_append.mp (ih hc)
    refine List.forall_mem_cons.mpr ⟨Node.forall_mem_subtrees.mpr ⟨.of_form ?_ ?_, hparts⟩, hholes⟩
    · refine NodeKind.form_of_isPlain hk fun hr m hm => ?_
      subst hr
      exact h.isFlat m (List.mem_append_left _ hm)
    · exact NodeKind.not_combination (.inr ⟨_, hk⟩)
  | @record r c c₁ c' ns ms hs gs stop kind h₁ _ h₂ hch hk _ _ ih₁ ih₂ =>
    obtain ⟨ts, ht⟩ := h₁.takes
    obtain ⟨hns, hhs⟩ := List.forall_mem_append.mp (ih₁ hc)
    obtain ⟨hms, hgs⟩ := List.forall_mem_append.mp (ih₂ (hc.takes ht).1)
    have hparts := hch ▸ List.forall_mem_append.mpr ⟨hns, hms⟩
    refine List.forall_mem_append.mpr ⟨List.forall_mem_singleton.mpr
      (Node.forall_mem_subtrees.mpr ⟨.of_form ?_ ?_, hparts⟩),
      List.forall_mem_append.mpr ⟨hhs, hgs⟩⟩
    · refine NodeKind.form_of_isPlain hk fun hr m hm => ?_
      subst hr
      rw [hch, List.mem_append] at hm
      exact hm.elim (fun hm => h₁.isFlat m (List.mem_append_left _ hm))
        fun hm => h₂.isFlat m (List.mem_append_left _ hm)
    · exact NodeKind.not_combination (.inr ⟨_, hk⟩)
  | operatorName text _ he _ _ ih =>
    refine List.forall_mem_cons.mpr ⟨Node.forall_mem_subtrees.mpr ⟨.of_form (.inl rfl) ?_, ?_⟩,
      ih (hc.skip he).1⟩
    · exact NodeKind.not_combination (.inl rfl)
    · simp [Node.new, Node.children, NodeKind.children]
  | fileType basic he _ h₁ ht _ _ _ _ _ ih₂ =>
    obtain ⟨us, hu⟩ := h₁.takes
    obtain ⟨hp, -⟩ := hc.takes ((Cursor.takes_skip he).trans (hu.trans ht))
    refine List.forall_mem_cons.mpr ⟨Node.forall_mem_subtrees.mpr ⟨.of_form (.inl rfl) ?_, ?_⟩,
      ih₂ hp⟩
    · exact NodeKind.not_combination (.inl rfl)
    · simp [Node.new, Node.children, NodeKind.children]

end Reads

end MudEdit
