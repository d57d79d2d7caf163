import MudEdit.Proofs.Grammar.Content

/-!
# What holes and files stand for

A wrong hole stands for the token it was made of, a missing one for the end of a token or
the start of the text, and a type that carries the name of a file for the strings in its
span. No two wrong holes are made of the same token.
-/

namespace MudEdit

variable {all ts us : List Token} {hi : Nat} {r : Reach} {c c' : Cursor} {ns ms hs : List Node}
  {t : Token}

/-- The constructs that stand for tokens in a way of their own. -/
def NodeKind.tells : NodeKind → Bool
  | missing _ | wrong _ _ | basicType _ (some _) => true
  | _ => false

theorem NodeKind.tells_of_isLeaf {kind : NodeKind} (h : kind.isLeaf = true) :
    kind.tells = false := by
  cases kind <;> first | rfl | exact absurd h (by simp [isLeaf])

theorem NodeKind.tells_of_isPlain {kind : NodeKind} (h : kind.isPlain r = true) :
    kind.tells = false := by
  unfold tells
  split
  · exact absurd h (by simp [isPlain])
  · exact absurd h (by simp [isPlain])
  · exact absurd h (by simp [isPlain])
  · rfl

namespace Node

variable {n : Node}

/-- Whether the node is a wrong hole with just the span of the token. -/
def isWrongAt (t : Token) (n : Node) : Bool :=
  match n.kind with
  | .wrong _ _ => n.isAt t
  | _ => false

/-- What a node tells about the tokens it was made of, beyond their content. -/
structure Tells (all : List Token) (n : Node) : Prop where
  missing : ∀ e, n.kind = .missing e →
    n.begin = n.stop ∧ (n.begin = 0 ∨ ∃ t ∈ all, n.begin = t.stop)
  wrong : ∀ e found, n.kind = .wrong e found →
    ∃ t ∈ all, n.begin = t.begin ∧ n.stop = t.stop ∧ found = t.kind
  file : ∀ basic file, n.kind = .basicType basic (some file) →
    file = String.join ((all.filter fun t => t.kind == .string && n.spans t).map Token.text)

theorem Tells.of_kind (h : n.kind.tells = false) : n.Tells all := by
  refine ⟨fun e hk => ?_, fun e found hk => ?_, fun basic file hk => ?_⟩ <;>
  · rw [hk] at h
    exact absurd h (by simp [NodeKind.tells])

theorem isWrongAt_of_kind (h : n.kind.tells = false) : n.isWrongAt t = false := by
  unfold isWrongAt
  split
  · rename_i hk
    rw [hk] at h
    exact absurd h (by simp [NodeKind.tells])
  · rfl

end Node

/-! ## Along a reading -/

/-- The nodes tell what is so, and of wrong holes there are no more than tokens in the list. -/
structure Reports (all ts : List Token) (ns : List Node) : Prop where
  tells : ∀ m ∈ ns.flatMap Node.subtrees, m.Tells all
  once : ∀ t, Node.tally (Node.isWrongAt t) ns ≤
    ts.countP fun u => u.begin == t.begin && u.stop == t.stop

namespace Reports

theorem nil : Reports all ts [] := ⟨by simp, fun _ => Nat.zero_le _⟩

theorem append (h₁ : Reports all ts ns) (h₂ : Reports all us ms) :
    Reports all (ts ++ us) (ns ++ ms) where
  tells := by
    rw [List.flatMap_append]
    exact List.forall_mem_append.mpr ⟨h₁.tells, h₂.tells⟩
  once t := by
    rw [Node.tally_append, List.countP_append]
    exact Nat.add_le_add (h₁.once t) (h₂.once t)

theorem perm (h : Reports all ts ns) (hp : ns.Perm ms) : Reports all ts ms where
  tells m hm := h.tells m ((hp.flatMap_right _).mem_iff.mpr hm)
  once t := by
    rw [← Node.tally_perm hp]
    exact h.once t

/-- A construct that stands for no token itself has the reports of its parts. -/
theorem new {begin stop : Nat} {kind : NodeKind} (hk : kind.tells = false)
    (h : Reports all ts (kind.children ++ hs)) : Reports all ts (.new begin stop kind :: hs) where
  tells := by
    have htells := h.tells
    rw [List.flatMap_append] at htells
    rw [List.flatMap_cons, Node.subtrees_eq]
    exact List.forall_mem_cons.mpr ⟨.of_kind hk, htells⟩
  once t := by
    rw [Node.tally_cons, Node.tally_new (Node.isWrongAt_of_kind hk), ← Node.tally_append]
    exact h.once t

theorem combine {n : Node} (h : Reports all ts (n :: hs)) : Reports all ts [n.combine hs] := by
  unfold Node.combine
  split
  · rename_i he
    rwa [List.isEmpty_iff.mp he] at h
  · refine new rfl ?_
    rw [List.append_nil]
    exact h

/-- A node without parts reports what it tells itself. -/
theorem single {n : Node} (hch : n.children = []) (ht : n.Tells all)
    (ho : ∀ t, n.isWrongAt t = true → ∃ u ∈ ts, u.begin = t.begin ∧ u.stop = t.stop) :
    Reports all ts [n] where
  tells := by
    rw [List.flatMap_singleton, Node.subtrees_eq, hch]
    simpa using ht
  once t := by
    rw [Node.tally_singleton, hch]
    split
    · rename_i hw
      obtain ⟨u, hu, hb, hs⟩ := ho t hw
      have : 0 < ts.countP fun u => u.begin == t.begin && u.stop == t.stop :=
        List.countP_pos_iff.mpr ⟨u, hu, by simp [hb, hs]⟩
      exact this
    · exact Nat.zero_le _

end Reports

theorem Cursor.In.lastStop_eq (h : c.In all) : c.lastStop = 0 ∨ ∃ t ∈ all, c.lastStop = t.stop := by
  cases ht : c.taken with
  | nil => exact .inl (by simp [lastStop, ht])
  | cons t ts =>
    refine .inr ⟨t, ?_, by simp [lastStop, ht]⟩
    rw [← h, ht]
    simp

/-- What reports anything are holes, and types with the name of a file. -/
theorem reports_kept (ho : Token.InOrder 0 all hi)
    (hf : ∀ u ∈ all, Payload.Fits u.kind u.payload) : Reads.Kept all (Reports all) where
  nil := .nil
  append h₁ h₂ := h₁.append h₂
  perm h hp := h.perm hp
  word _ _ _ := ⟨by simp, fun _ => Nat.zero_le _⟩
  leaf _ _ hl := by
    have hleaf := Token.isLeaf_of_leaf hl
    refine .new (NodeKind.tells_of_isLeaf hleaf) ?_
    rw [NodeKind.children_of_isLeaf hleaf]
    exact .nil
  missing e hc := by
    refine .single rfl ⟨fun _ _ => ⟨rfl, hc.lastStop_eq⟩, ?_, ?_⟩ ?_
    · exact fun _ _ hk => NodeKind.noConfusion hk
    · exact fun _ _ hk => NodeKind.noConfusion hk
    · exact fun t hw => absurd hw (by simp [Node.isWrongAt, Node.missing])
  wrong {c} e hc he := by
    refine .single rfl ⟨?_, ?_, ?_⟩ ?_
    · exact fun _ hk => NodeKind.noConfusion hk
    · intro e' found hk
      injection hk with _ hfound
      exact ⟨c.current, hc.current_mem he, rfl, rfl, hfound.symm⟩
    · exact fun _ _ hk => NodeKind.noConfusion hk
    · exact fun t hw => ⟨c.current, List.mem_cons_self, Node.isAt_iff.mp hw⟩
  combine h := h.combine
  plain hp h := .new (NodeKind.tells_of_isPlain hp) h
  operatorName _ _ _ _ := .new rfl .nil
  fileType hc he hw h₁ hvs _ hts hstrings hus hno := by
    refine .single rfl ⟨?_, ?_, ?_⟩ ?_
    · exact fun _ hk => NodeKind.noConfusion hk
    · exact fun _ _ hk => NodeKind.noConfusion hk
    · intro basic' file hk
      injection hk with _ hfile
      injection hfile with hfile
      obtain ⟨vs', hvs', hshows⟩ := h₁.shows ho hf (hc.takes (Cursor.takes_skip he))
      obtain rfl := hvs.unique hvs'
      -- between the keyword and the closing sign these strings are the only ones
      rw [← hfile, hshows.strings_spanned ho hc he hw hvs hts hstrings hus hno rfl rfl]
    · exact fun t hw => absurd hw (by simp [Node.isWrongAt, Node.new])

/-- **A reading reports what is so**, each wrong token once. -/
theorem Reads.reports (ho : Token.InOrder 0 all hi)
    (hf : ∀ u ∈ all, Payload.Fits u.kind u.payload) (h : Reads r c ns hs c') (hc : c.In all) :
    ∃ ts, c.Takes ts c' ∧ Reports all ts (ns ++ hs) :=
  (reports_kept ho hf).reads h hc

end MudEdit
