import MudEdit.Proofs.Grammar.Content
import MudEdit.Proofs.Grammar.Span

/-!
# Parts that share no token

Constructs may overlap: one that nothing was taken for still reaches up to the current token, and
a missing hole may lie there as well. But between the last token taken and the current one there
is no token. No token lies in two constructs that were read one after the other, therefore, nor in
two parts of a construct. Only the holes that a construct was joined with lie inside it.
-/

namespace MudEdit

variable {all : List Token} {hi : Nat} {mark : Nat → Prop} {r : Reach} {c c' c₁ : Cursor}
  {ns ms hs gs : List Node} {n : Node} {t u : Token}

namespace Node

/-- No token of the list lies in both. -/
def Shareless (all : List Token) (n m : Node) : Prop :=
  ∀ t ∈ all, ¬(n.spans t = true ∧ m.spans t = true)

theorem Shareless.symm {m : Node} (h : n.Shareless all m) : m.Shareless all n :=
  fun t ht hand => h t ht hand.symm

/-- What is known of a node of a forest: its parts share no token unless some of them are holes
that it was joined with, and a name at an identifier is that of the identifier. -/
structure Divided (all : List Token) (n : Node) : Prop where
  apart : (∀ p gs, n.kind ≠ .combination p gs) → n.children.Pairwise (Shareless all)
  named : ∀ text, n.kind = .name text → ∀ t ∈ all, t.kind = .identifier → n.begin = t.begin →
    n.represents t = true

/-- What has no parts and is no name. -/
theorem divided_of_leaf (hc : n.children = []) (hk : ∀ text, n.kind ≠ .name text) :
    n.Divided all where
  apart _ := hc ▸ .nil
  named text h := absurd h (hk text)

end Node

/-- What was read between two cursors shares no token, and neither do the parts of it. -/
structure Divided (all : List Token) (ns hs : List Node) : Prop where
  apart : ns.Pairwise (Node.Shareless all)
  below : ∀ n ∈ ns ++ hs, ∀ m ∈ n.subtrees, m.Divided all

namespace Divided

theorem nil : Divided all [] [] := ⟨.nil, by simp⟩

theorem single (h : ∀ m ∈ n.subtrees, m.Divided all) : Divided all [n] [] :=
  ⟨List.pairwise_singleton .., by simpa using h⟩

/-- A construct without parts, and holes. -/
theorem leaf (hc : n.children = []) (h : n.Divided all) (hrest : Divided all [] hs) :
    Divided all [n] hs where
  apart := List.pairwise_singleton ..
  below := by
    refine List.forall_mem_cons.mpr ⟨Node.forall_mem_subtrees.mpr ⟨h, ?_⟩, hrest.below⟩
    rw [hc]
    exact List.forall_mem_nil _

/-- A construct of its parts. -/
theorem new {begin stop : Nat} {kind : NodeKind} (h : Divided all kind.children hs)
    (hk : kind.isPlain r = true) : Divided all [.new begin stop kind] hs where
  apart := List.pairwise_singleton ..
  below := by
    obtain ⟨hparts, hholes⟩ := List.forall_mem_append.mp h.below
    refine List.forall_mem_cons.mpr ⟨Node.forall_mem_subtrees.mpr ⟨⟨fun _ => h.apart, ?_⟩, hparts⟩,
      hholes⟩
    intro text hkind
    rw [show kind = .name text from hkind] at hk
    exact absurd hk (by simp [NodeKind.isPlain])

/-- A construct that is joined with holes. -/
theorem combine (h : Divided all [n] hs) : Divided all [n.combine hs] [] := by
  unfold Node.combine
  split
  · rename_i he
    rwa [List.isEmpty_iff.mp he] at h
  · refine single (Node.forall_mem_subtrees.mpr ⟨⟨fun hno => absurd rfl (hno n hs), ?_⟩, h.below⟩)
    exact fun text hk => NodeKind.noConfusion hk

end Divided

namespace Reads

section Order

variable (ho : Token.InOrder 0 all hi) (hf : ∀ u ∈ all, Payload.Fits u.kind u.payload)

include ho

/-- What is read up to a cursor and what is read from it on share no token. -/
theorem divided_append {r' : Reach} (h₁ : Reads r c ns hs c₁) (h₂ : Reads r' c₁ ms gs c')
    (hc : c.In all) (hp : c.Placed mark) (hd₁ : Divided all ns hs)
    (hd₂ : c₁.In all → c₁.Placed mark → Divided all ms gs) :
    Divided all (ns ++ ms) (hs ++ gs) := by
  obtain ⟨ts, hts⟩ := h₁.takes
  have hc₁ := hc.takes hts
  obtain ⟨hp₁, -⟩ := hp.takes hts
  have hd₂ := hd₂ hc₁ hp₁
  constructor
  · refine List.pairwise_append.mpr ⟨hd₁.apart, hd₂.apart, fun n hn m hm t ht hand => ?_⟩
    have hlt := (ho.within t ht).2.1
    have hlimit := (h₁.within hp n (List.mem_append_left _ hn)).le_hi
    have hstop := Nat.le_trans hlimit (hp₁.limit_le_current r)
    have hbegin := (h₂.within hp₁ m (List.mem_append_left _ hm)).lo_le
    rw [Node.spans_iff, Node.spans_iff] at hand
    -- the token was taken before the cursor in between, or it is still ahead of it
    rw [← hc₁, List.mem_append, List.mem_reverse] at ht
    rcases ht with ht | ht
    · have := Cursor.stop_le_lastStop ho hc₁ ht
      omega
    · have := Cursor.current_le_begin ho hc₁ ht
      omega
  · intro n hn
    have := (append_perm ns ms hs gs).mem_iff.mpr hn
    exact (List.mem_append.mp this).elim (hd₁.below n) (hd₂.below n)

include hf in
/-- A leaf made of a token is known by it. -/
theorem divided_leaf {kind : NodeKind} (hu : u ∈ all) (hl : u.leaf? = some kind) :
    (Node.new u.begin u.stop kind).Divided all where
  apart _ := by
    rw [Node.children, Node.new, Node.kind_mk,
      NodeKind.children_of_isLeaf (Token.isLeaf_of_leaf hl)]
    exact .nil
  named text _ t ht hkind hb := by
    have hch : (Node.new u.begin u.stop kind).children = [] :=
      NodeKind.children_of_isLeaf (Token.isLeaf_of_leaf hl)
    have hbegin : (Node.new u.begin u.stop kind).begin = u.begin := by
      simp [Node.new, NodeKind.children_of_isLeaf (Token.isLeaf_of_leaf hl)]
    -- the leaf shows its token, and no other one begins there
    obtain rfl := ho.eq_of_begin hu ht (hbegin.symm.trans hb)
    have hshows := Shows.leaf ho hf hu hl u hu (by rw [hkind]; rfl)
    rw [Node.tally_singleton, hch, Node.tally_nil, List.count_singleton_self] at hshows
    by_contra hno
    rw [if_neg hno] at hshows
    exact absurd hshows (by decide)

include hf in
/-- **A reading divides the tokens among its constructs**, at every level. -/
theorem divided (h : Reads r c ns hs c') (hc : c.In all) (hp : c.Placed mark) :
    Divided all ns hs := by
  induction h with
  | nil | word => exact .nil
  | append h₁ h₂ ih₁ ih₂ | settle h₁ h₂ _ ih₁ ih₂ =>
    exact divided_append ho h₁ h₂ hc hp (ih₁ hc hp) ih₂
  | loosen _ ih | embed _ ih => exact ih hc hp
  | deeper _ ih => exact ih hc ⟨hp.order, hp.lastStop_mark, hp.textEnd_mark, hp.ahead_mark⟩
  | leaf he hl =>
    have hch := NodeKind.children_of_isLeaf (Token.isLeaf_of_leaf hl)
    exact .leaf hch (divided_leaf ho hf (hc.current_mem he) hl) .nil
  | missing | wrong => exact .leaf rfl (Node.divided_of_leaf rfl fun _ => nofun) .nil
  | reorder _ hperm _ ih =>
    have h := ih hc hp
    refine ⟨(hperm.pairwise_iff Node.Shareless.symm).mp h.apart, fun n hn => h.below n ?_⟩
    exact (hperm.append_right _).mem_iff.mpr hn
  | aside _ _ ih => exact ⟨.nil, by simpa using (ih hc hp).below⟩
  | combine _ _ ih => exact (ih hc hp).combine
  | construct _ hk _ _ _ _ ih => exact (ih hc hp).new hk
  | record h₁ _ h₂ hch hk _ _ ih₁ ih₂ =>
    have h := divided_append ho h₁ h₂ hc hp (ih₁ hc hp) ih₂
    exact (hch ▸ h).new hk
  | operatorName text _ he hw h ih =>
    have hskip := Cursor.takes_skip he
    refine .leaf rfl ⟨fun _ => .nil, fun _ _ t ht hkind hb => ?_⟩
      (ih (hc.takes hskip) (hp.takes hskip).1)
    -- the keyword that it begins at is no identifier
    obtain rfl := ho.eq_of_begin (hc.current_mem he) ht hb
    rw [Cursor.kind_eq, hkind] at hw
    exact absurd hw (by decide)
  | fileType basic he _ h₁ hts _ _ _ _ _ ih =>
    obtain ⟨vs, hvs⟩ := h₁.takes
    have hpath := ((Cursor.takes_skip he).trans hvs).trans hts
    exact .leaf rfl (Node.divided_of_leaf rfl fun _ => nofun)
      (ih (hc.takes hpath) (hp.takes hpath).1)

end Order

end Reads

end MudEdit
