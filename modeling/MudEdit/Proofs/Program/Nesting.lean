import MudEdit.Proofs.Grammar.Apart
import MudEdit.Proofs.Program.Visit

/-!
# How the scopes of a program lie

A scope covers the construct that it was opened for, so scopes nest and do not overlap as
long as the constructs do. There is one exception. What is tried is walked outside of the
scope of its statement, but that scope covers the whole statement, and it comes later.
`Outline.Nested` says so of the scopes of a program, and the rules of `Walks` keep it.
-/

namespace MudEdit

variable {library : Library} {s begin stop id : Nat} {n : Node} {ns : List Node}
  {r r₁ r' : Resolution} {tried fits fits' fits₁ : Nat → Nat → Prop}

/-! ## Outlines -/

/-- Where the scopes of a program are, by their numbers. -/
abbrev Outline := Array Frame

namespace Outline

variable {o o₁ o' : Outline} {q : Nat}

def frame (o : Outline) (id : Nat) : Frame := o.getD id default

/-- With one more scope in another one. -/
def opened (o : Outline) (parent begin stop : Nat) : Outline :=
  (o.modify parent fun f => { f with children := f.children ++ [o.size] }).push
    ⟨begin, stop, some parent, []⟩

theorem frame_of_lt (h : id < o.size) : o.frame id = o[id] := Array.getElem_eq_getD _ |>.symm

@[simp] theorem size_opened : (o.opened q begin stop).size = o.size + 1 := by simp [opened]

/-- Of the scopes that were there only the outer one changes, by one more child. -/
theorem frame_opened (h : id < o.size) : (o.opened q begin stop).frame id =
    if q = id then { o.frame id with children := (o.frame id).children ++ [o.size] }
    else o.frame id := by
  rw [frame_of_lt (by simp; omega), frame_of_lt h]
  simp only [opened]
  rw [Array.getElem_push_lt (by simpa using h), Array.getElem_modify]

/-- The new scope is the last one, without children. -/
theorem frame_opened_self : (o.opened q begin stop).frame o.size = ⟨begin, stop, some q, []⟩ := by
  rw [frame_of_lt (by simp)]
  simp only [opened]
  rw [Array.getElem_push, dif_neg (by simp)]

end Outline

namespace Program

/-- Where the scopes of a program are. -/
def outline (p : Program) : Outline := p.scopes.map Scope.frame

@[simp] theorem size_outline (p : Program) : p.outline.size = p.scopes.size := Array.size_map

/-- The outline has the frames of the scopes. -/
theorem frame_outline (p : Program) (id : Nat) : p.outline.frame id = (p.scope id).frame := by
  unfold outline Outline.frame scope
  simp only [Array.getD_eq_getD_getElem?, Array.getElem?_map]
  cases p.scopes[id]? <;> rfl

/-- To fill a scope leaves the outline alone. -/
theorem outline_modifyScope {f : Scope → Scope} (p : Program) (id : Nat) (h : Scope.Fills f) :
    (p.modifyScope id f).outline = p.outline := by
  obtain ⟨stamp, fileName, scopes, included, inherited⟩ := p
  refine Array.ext (by simp [modifyScope, Program.scopes]) fun i _ _ => ?_
  simp only [outline, modifyScope, Program.scopes, Array.getElem_map, Array.getElem_modify]
  split
  · exact h.frame _
  · rfl

/-- To open a scope opens a frame. -/
theorem outline_openScope (p : Program) (parent begin stop : Nat) :
    (p.openScope parent begin stop).outline = p.outline.opened parent begin stop := by
  obtain ⟨stamp, fileName, scopes, included, inherited⟩ := p
  simp only [outline, openScope, Program.scopes, Outline.opened, Array.map_push, Array.size_map]
  congr 1
  refine Array.ext (by simp) fun i _ _ => ?_
  simp only [Array.getElem_map, Array.getElem_modify]
  split <;> rfl

end Program

/-! ## Tidy trees -/

namespace Node

/-- A construct without holes in it: its parts lie inside and apart, and what it goes over has
no scopes. What lies in what it tries is known to be tried. -/
structure Tidy (tried : Nat → Nat → Prop) (n : Node) : Prop extends n.Parted where
  inside : ∀ m ∈ n.children, n.begin ≤ m.begin ∧ m.stop ≤ n.stop
  whole : ∀ p hs, n.kind ≠ .combination p hs
  tries : ∀ body exception handler, n.kind = .tryCatch body exception handler →
    ∀ b e, body.begin ≤ b → e ≤ body.stop → tried b e

variable {m : Node}

/-- What is walked of a construct is walked of its scope's node. -/
theorem walked_cases (h : ∀ p hs, n.kind ≠ .combination p hs)
    (hs : ∀ p hs, n.scopeNode.kind ≠ .combination p hs) :
    (n.scopeNode = n ∧ n.kind.walked.Subperm n.children) ∨
      (n.scopeNode ∈ n.children ∧
        (n.kind.walked = n.scopeNode.children ∨ n.kind.walked = [n.scopeNode])) := by
  obtain ⟨b, e, kind⟩ := n
  cases kind with
  | functionDef mods returns title parameters variadic body =>
    cases body with
    | none => exact .inl ⟨rfl, List.nil_subperm⟩
    | some body =>
      -- the scope of a function is its body, of which the statements are walked
      refine .inr ⟨by simp [scopeNode, children, NodeKind.children], ?_⟩
      obtain ⟨b, e, kind⟩ := body
      cases kind with
      | block => exact .inl (List.flatMap_singleton ..)
      | combination p hs => exact absurd rfl (hs p _)
      | _ => exact .inr (List.flatMap_singleton ..)
  | combination p holes => exact absurd rfl (h p holes)
  | _ =>
    refine .inl ⟨rfl, NodeKind.walked_subperm (fun _ _ _ _ _ _ h => ?_) h⟩
    exact NodeKind.noConfusion h

section

variable (h : ∀ m ∈ n.subtrees, m.Tidy tried)
include h

theorem tidy_self : n.Tidy tried := (forall_mem_subtrees.mp h).1

/-- All parts of a tidy construct are tidy. -/
theorem tidy_child (hm : m ∈ n.children) : ∀ k ∈ m.subtrees, k.Tidy tried :=
  (forall_mem_subtrees.mp h).2 m hm

/-- So is what is walked of it. -/
theorem tidy_walked (hm : m ∈ n.kind.walked) : ∀ k ∈ m.subtrees, k.Tidy tried := by
  intro k hk
  have hin := (NodeKind.walked_subtrees _).subset (List.mem_flatMap.mpr ⟨m, hm, hk⟩)
  obtain ⟨c, hc, hsub⟩ := List.mem_flatMap.mp hin
  exact tidy_child h hc k hsub

theorem tidy_scopeNode : ∀ k ∈ n.scopeNode.subtrees, k.Tidy tried := by
  unfold scopeNode
  split
  · rename_i body hk
    exact tidy_child h (by simp [children, hk, NodeKind.children])
  · exact h

/-- A scope lies within its construct. -/
theorem scopeNode_inside : n.begin ≤ n.scopeNode.begin ∧ n.scopeNode.stop ≤ n.stop := by
  unfold scopeNode
  split
  · rename_i body hk
    exact (tidy_self h).inside _ (by simp [children, hk, NodeKind.children])
  · exact ⟨Nat.le_refl _, Nat.le_refl _⟩

/-- What is walked lies within the scope, part beside part. -/
theorem walked_of_tidy : (∀ m ∈ n.kind.walked,
      n.scopeNode.begin ≤ m.begin ∧ m.stop ≤ n.scopeNode.stop) ∧
    n.kind.walked.Pairwise Apart := by
  have hs := tidy_self (tidy_scopeNode h)
  rcases walked_cases (tidy_self h).whole hs.whole with ⟨heq, hsub⟩ | ⟨hc, heq | heq⟩
  · rw [heq]
    obtain ⟨l, hp, hl⟩ := hsub
    refine ⟨fun m hm => (tidy_self h).inside m (hl.subset (hp.mem_iff.mpr hm)), ?_⟩
    exact apart_perm ((tidy_self h).apart.sublist hl) hp
  · rw [heq]
    exact ⟨hs.inside, hs.apart⟩
  · rw [heq]
    simp

/-- What a construct is about has no scopes, or it is tried. -/
theorem over_of_tidy (hm : m ∈ n.kind.outer) : m.isFlat = true ∨
    ∀ b e, m.begin ≤ b → e ≤ m.stop → tried b e := by
  unfold NodeKind.outer at hm
  split at hm
  · obtain rfl := List.mem_singleton.mp hm
    exact .inl ((tidy_self h).foreach_over _ _ _ ‹_›)
  · obtain rfl := List.mem_singleton.mp hm
    exact .inl ((tidy_self h).switch_over _ _ ‹_›)
  · obtain rfl := List.mem_singleton.mp hm
    exact .inr ((tidy_self h).tries _ _ _ ‹_›)
  · exact absurd hm (by simp)

end

end Node

/-! ## Nested outlines -/

/-- One of the two ends before the other begins. -/
def Frame.Apart (f g : Frame) : Prop := f.stop ≤ g.begin ∨ g.stop ≤ f.begin

namespace Outline

variable {o o₁ o' : Outline}

/-- The scopes form a tree whose root is that of the file. -/
structure Rooted (o : Outline) : Prop where
  pos : 0 < o.size
  root : (o.frame 0).parent = none
  parent : ∀ id, 0 < id → id < o.size →
    ∃ q, (o.frame id).parent = some q ∧ id ∈ (o.frame q).children
  children : ∀ q, ∀ c ∈ (o.frame q).children, q < c ∧ c < o.size ∧ (o.frame c).parent = some q

/-- A scope lies in the one around it unless that is the file's, and two scopes in the same one
are apart unless the earlier one is tried. -/
structure Nested (tried : Nat → Nat → Prop) (o : Outline) : Prop extends Rooted o where
  inside : ∀ id q, id < o.size → (o.frame id).parent = some q → 0 < q →
    (o.frame q).begin ≤ (o.frame id).begin ∧ (o.frame id).stop ≤ (o.frame q).stop
  apart : ∀ q, (o.frame q).children.Pairwise fun a b =>
    (o.frame a).Apart (o.frame b) ∨ tried (o.frame a).begin (o.frame a).stop

/-- Only scopes in the one scope were added to it, and their stretches of source fit. -/
structure Grown (s : Nat) (fits : Nat → Nat → Prop) (o o' : Outline) : Prop where
  size_le : o.size ≤ o'.size
  others : ∀ id < o.size, id ≠ s → o'.frame id = o.frame id
  begin_eq : (o'.frame s).begin = (o.frame s).begin
  stop_eq : (o'.frame s).stop = (o.frame s).stop
  parent_eq : (o'.frame s).parent = (o.frame s).parent
  added : ∃ new, (o'.frame s).children = (o.frame s).children ++ new ∧ ∀ c ∈ new,
    o.size ≤ c ∧ fits (o'.frame c).begin (o'.frame c).stop

/-- A stretch of source within one of the constructs that are not flat. -/
def Covered (ns : List Node) (begin stop : Nat) : Prop :=
  ∃ n ∈ ns, n.isFlat = false ∧ n.begin ≤ begin ∧ stop ≤ n.stop

/-- There is room for a construct in a scope if what is not tried of it is apart. -/
def Room (tried : Nat → Nat → Prop) (o : Outline) (s : Nat) (n : Node) : Prop :=
  ∀ c ∈ (o.frame s).children,
    (o.frame c).stop ≤ n.begin ∨ n.stop ≤ (o.frame c).begin ∨
      tried (o.frame c).begin (o.frame c).stop

/-- A construct lies in a scope; in that of the file everything does. -/
def Holds (o : Outline) (s : Nat) (n : Node) : Prop :=
  s = 0 ∨ (o.frame s).begin ≤ n.begin ∧ n.stop ≤ (o.frame s).stop

namespace Grown

theorem refl : Grown s fits o o where
  size_le := Nat.le_refl _
  others _ _ _ := rfl
  begin_eq := rfl
  stop_eq := rfl
  parent_eq := rfl
  added := ⟨[], by simp, by simp⟩

theorem span (h : Grown s fits o o') (hid : id < o.size) :
    (o'.frame id).begin = (o.frame id).begin ∧ (o'.frame id).stop = (o.frame id).stop ∧
      (o'.frame id).parent = (o.frame id).parent := by
  by_cases hs : id = s
  · subst hs
    exact ⟨h.begin_eq, h.stop_eq, h.parent_eq⟩
  · rw [h.others id hid hs]
    exact ⟨rfl, rfl, rfl⟩

theorem mono (h : Grown s fits o o') (hfits : ∀ b e, fits b e → fits' b e) :
    Grown s fits' o o' where
  size_le := h.size_le
  others := h.others
  begin_eq := h.begin_eq
  stop_eq := h.stop_eq
  parent_eq := h.parent_eq
  added := by
    obtain ⟨new, heq, hnew⟩ := h.added
    exact ⟨new, heq, fun c hc => (hnew c hc).imp_right (hfits _ _)⟩

theorem trans (h₁ : Grown s fits o o₁) (h₂ : Grown s fits o₁ o') (hn : Rooted o₁) :
    Grown s fits o o' where
  size_le := Nat.le_trans h₁.size_le h₂.size_le
  others id hid hne :=
    (h₂.others id (Nat.lt_of_lt_of_le hid h₁.size_le) hne).trans (h₁.others id hid hne)
  begin_eq := h₂.begin_eq.trans h₁.begin_eq
  stop_eq := h₂.stop_eq.trans h₁.stop_eq
  parent_eq := h₂.parent_eq.trans h₁.parent_eq
  added := by
    obtain ⟨new₁, heq₁, hnew₁⟩ := h₁.added
    obtain ⟨new₂, heq₂, hnew₂⟩ := h₂.added
    refine ⟨new₁ ++ new₂, by rw [heq₂, heq₁, List.append_assoc], ?_⟩
    refine List.forall_mem_append.mpr ⟨fun c hc => ?_, fun c hc => ?_⟩
    · obtain ⟨hle, hfits⟩ := hnew₁ c hc
      -- the scope is still where it was
      have hlt := (hn.children s c (heq₁ ▸ List.mem_append_right _ hc)).2.1
      obtain ⟨hb, he, -⟩ := h₂.span hlt
      exact ⟨hle, hb ▸ he ▸ hfits⟩
    · exact (hnew₂ c hc).imp_left (Nat.le_trans h₁.size_le)

end Grown

/-! ## Opening a scope -/

/-- A scope that is not there has no frame. -/
theorem frame_of_le (h : o.size ≤ id) : o.frame id = default := by
  simp [frame, Array.getD_eq_getD_getElem?, h]

/-- Only the scope around it gets the new scope among those in it. -/
theorem children_opened (hs : s < o.size) (q : Nat) :
    ((o.opened s begin stop).frame q).children =
      (o.frame q).children ++ if q = s then [o.size] else [] := by
  rcases Nat.lt_trichotomy q o.size with hq | rfl | hq
  · rw [frame_opened hq]
    by_cases h : s = q
    · rw [if_pos h, if_pos h.symm]
    · rw [if_neg h, if_neg (Ne.symm h), List.append_nil]
  · rw [frame_opened_self, frame_of_le (Nat.le_refl _), if_neg (by omega)]
    rfl
  · rw [frame_of_le (by simp; omega), frame_of_le (Nat.le_of_lt hq), if_neg (by omega)]
    rfl

/-- To open a scope leaves the spans of all others alone. -/
theorem span_opened (s begin stop : Nat) (h : id < o.size) :
    ((o.opened s begin stop).frame id).begin = (o.frame id).begin ∧
      ((o.opened s begin stop).frame id).stop = (o.frame id).stop ∧
      ((o.opened s begin stop).frame id).parent = (o.frame id).parent := by
  rw [frame_opened h]
  split <;> exact ⟨rfl, rfl, rfl⟩

/-- A new scope has a parent, and that has it as a child. -/
theorem Rooted.opened (h : Rooted o) (hs : s < o.size) : Rooted (o.opened s begin stop) where
  pos := by simp
  root := by rw [(span_opened _ _ _ h.pos).2.2]; exact h.root
  parent id hpos hlt := by
    -- a scope that was there, or the new one
    rcases Nat.lt_or_eq_of_le (Nat.lt_succ_iff.mp (size_opened ▸ hlt)) with hid | rfl
    · obtain ⟨q, hq, hmem⟩ := h.parent id hpos hid
      refine ⟨q, (span_opened _ _ _ hid).2.2.trans hq, ?_⟩
      rw [children_opened hs]
      exact List.mem_append_left _ hmem
    · refine ⟨s, by rw [frame_opened_self], ?_⟩
      rw [children_opened hs, if_pos rfl]
      exact List.mem_append_right _ (List.mem_singleton.mpr rfl)
  children q c hc := by
    rw [children_opened hs, List.mem_append] at hc
    rw [size_opened]
    rcases hc with hc | hc
    · obtain ⟨h₁, h₂, h₃⟩ := h.children q c hc
      exact ⟨h₁, Nat.lt_succ_of_lt h₂, (span_opened _ _ _ h₂).2.2.trans h₃⟩
    · split at hc
      · obtain rfl := List.mem_singleton.mp hc
        subst q
        exact ⟨hs, Nat.lt_succ_self _, by rw [frame_opened_self]⟩
      · exact absurd hc (by simp)

/-- How the scopes in the same one lie to each other is known if it is known for the new one. -/
theorem Rooted.pairs_opened {R : Nat → Nat → Nat → Nat → Prop} (h : Rooted o) (hs : s < o.size)
    (hold : ∀ q, (o.frame q).children.Pairwise fun a b =>
      R (o.frame a).begin (o.frame a).stop (o.frame b).begin (o.frame b).stop)
    (hnew : ∀ c ∈ (o.frame s).children, R (o.frame c).begin (o.frame c).stop begin stop)
    (q : Nat) : ((o.opened s begin stop).frame q).children.Pairwise fun a b =>
      R ((o.opened s begin stop).frame a).begin ((o.opened s begin stop).frame a).stop
        ((o.opened s begin stop).frame b).begin ((o.opened s begin stop).frame b).stop := by
  rw [children_opened hs]
  -- the children that were there, and each of them beside the new one
  refine List.pairwise_append.mpr ⟨?_, by split <;> simp, fun a ha b hb => ?_⟩
  · refine (hold q).imp_of_mem fun {a b} ha hb hab => ?_
    obtain ⟨hba, hea, -⟩ := span_opened s begin stop (h.children q a ha).2.1
    obtain ⟨hbb, heb, -⟩ := span_opened s begin stop (h.children q b hb).2.1
    rwa [hba, hea, hbb, heb]
  · split at hb
    · obtain rfl := List.mem_singleton.mp hb
      subst q
      obtain ⟨hba, hea, -⟩ := span_opened s begin stop (h.children s a ha).2.1
      rw [hba, hea, frame_opened_self]
      exact hnew a ha
    · exact absurd hb (by simp)

/-- A scope may be opened in another one where those opened before are apart or tried. -/
theorem Nested.opened (h : Nested tried o) (hs : s < o.size)
    (hin : s = 0 ∨ (o.frame s).begin ≤ begin ∧ stop ≤ (o.frame s).stop)
    (hapart : ∀ c ∈ (o.frame s).children, (o.frame c).stop ≤ begin ∨ stop ≤ (o.frame c).begin ∨
      tried (o.frame c).begin (o.frame c).stop) :
    Nested tried (o.opened s begin stop) where
  toRooted := h.toRooted.opened hs
  inside id q hlt hq hpos := by
    rcases Nat.lt_or_eq_of_le (Nat.lt_succ_iff.mp (size_opened ▸ hlt)) with hid | rfl
    -- an old scope keeps its parent, and both keep their spans
    · rw [(span_opened _ _ _ hid).2.2] at hq
      obtain ⟨p, hp, hmem⟩ := h.parent id (Nat.pos_of_ne_zero fun h0 => by
        rw [h0, h.root] at hq; exact absurd hq (by simp)) hid
      obtain rfl : p = q := Option.some.inj (hp.symm.trans hq)
      have hplt := (h.children p id hmem).1
      obtain ⟨hb, he, -⟩ := span_opened s begin stop hid
      obtain ⟨hpb, hpe, -⟩ := span_opened s begin stop (Nat.lt_trans hplt hid)
      rw [hb, he, hpb, hpe]
      exact h.inside id p hid hp hpos
    · rw [frame_opened_self] at hq ⊢
      obtain rfl : s = q := Option.some.inj hq
      rw [(span_opened _ _ _ hs).1, (span_opened _ _ _ hs).2.1]
      exact hin.resolve_left (Nat.ne_of_gt hpos)
  apart q := by
    -- beside each other, unless the first is what a statement tries
    let R (b e b' e' : Nat) : Prop := (e ≤ b' ∨ e' ≤ b) ∨ tried b e
    refine h.toRooted.pairs_opened (R := R) hs h.apart (fun c hc => ?_) q
    rcases hapart c hc with h | h | h
    · exact .inl (.inl h)
    · exact .inl (.inr h)
    · exact .inr h

/-- What a new scope is filled with adds nothing but that scope to the one around it. -/
theorem Grown.opened (h : Grown o.size fits₁ (o.opened s begin stop) o') (hs : s < o.size)
    (hfits : fits begin stop) : Grown s fits o o' := by
  have hlt {id : Nat} (hid : id < o.size) : id < (o.opened s begin stop).size := by
    rw [size_opened]; omega
  have hspan := h.span (hlt hs)
  obtain ⟨hb₁, he₁, hp₁⟩ := span_opened s begin stop hs
  refine ⟨?_, fun id hid hne => ?_, hspan.1.trans hb₁, hspan.2.1.trans he₁, hspan.2.2.trans hp₁,
    [o.size], ?_, ?_⟩
  · have := h.size_le
    rw [size_opened] at this
    omega
  · rw [h.others id (hlt hid) (Nat.ne_of_lt hid), frame_opened hid, if_neg (Ne.symm hne)]
  · rw [h.others s (hlt hs) (Nat.ne_of_lt hs), children_opened hs, if_pos rfl]
  · rw [List.forall_mem_singleton, h.begin_eq, h.stop_eq, frame_opened_self]
    exact ⟨Nat.le_refl _, hfits⟩

/-- What lies in one of some constructs lies in one of those around them. -/
theorem Covered.widen {ms : List Node} (h : Covered ns begin stop)
    (hms : ∀ n ∈ ns, n.isFlat = false → ∃ m ∈ ms, m.isFlat = false ∧
      m.begin ≤ n.begin ∧ n.stop ≤ m.stop) : Covered ms begin stop := by
  obtain ⟨n, hn, hflat, hb, he⟩ := h
  obtain ⟨m, hm, hmflat, hmb, hme⟩ := hms n hn hflat
  exact ⟨m, hm, hmflat, Nat.le_trans hmb hb, Nat.le_trans he hme⟩

/-- There is room for what lies in a construct where there is room for the construct. -/
theorem Room.narrow {m : Node} (h : Room tried o s n) (hb : n.begin ≤ m.begin)
    (he : m.stop ≤ n.stop) : Room tried o s m := by
  intro c hc
  rcases h c hc with h | h | h
  · exact .inl (Nat.le_trans h hb)
  · exact .inr (.inl (Nat.le_trans he h))
  · exact .inr (.inr h)

/-- What holds a construct holds what lies within it. -/
theorem Holds.narrow {m : Node} (h : o.Holds s n) (hb : n.begin ≤ m.begin)
    (he : m.stop ≤ n.stop) : o.Holds s m :=
  h.imp_right fun h => ⟨Nat.le_trans h.1 hb, Nat.le_trans he h.2⟩

/-- What is added within a scope does not move it. -/
theorem Holds.grown {m : Node} (h : o.Holds s m) (hg : Grown s fits o o₁) : o₁.Holds s m := by
  unfold Holds
  rwa [hg.begin_eq, hg.stop_eq]

/-- There still is room for what is apart from what was walked, but for what is tried of it. -/
theorem Room.grown {m : Node} (h : Room tried o s m) (hg : Grown s (Covered ns) o o₁)
    (hn : Rooted o)
    (hns : ∀ n ∈ ns, n.isFlat = false → n.Apart m ∨
      ∀ b e, n.begin ≤ b → e ≤ n.stop → tried b e) : Room tried o₁ s m := by
  intro c hc
  -- children that were there, and those that the constructs read since have added
  obtain ⟨new, heq, hnew⟩ := hg.added
  rw [heq, List.mem_append] at hc
  rcases hc with hc | hc
  · obtain ⟨hb, he, -⟩ := hg.span (hn.children s c hc).2.1
    rw [hb, he]
    exact h c hc
  · obtain ⟨-, n, hmem, hf, hb, he⟩ := hnew c hc
    rcases hns n hmem hf with (h | h) | h
    · exact .inl (Nat.le_trans he h)
    · exact .inr (.inl (Nat.le_trans h hb))
    · exact .inr (.inr (h _ _ hb he))

end Outline

/-! ## The walk keeps outlines nested -/

/-- A link adds no scope. -/
theorem outline_link (begin : Nat) (path : Node) (instruction : String → Instruction)
    {add : Program → Program → Program} (h : ∀ p q, (add p q).outline = p.outline)
    (hi : ∀ text, (instruction text).definition? = none) :
    (Resolve.after (Resolve.link library begin path instruction add) r).program.outline =
      r.program.outline := by
  rw [program_link]
  cases Resolve.pathOf? path with
  | none => rfl
  | some text =>
    have hrec := Program.outline_modifyScope r.program 0 (.link begin (hi text))
    cases hl : library text with
    | none => simpa [hl] using hrec
    | some linked => simpa [hl, h] using hrec

/-- To define opens nothing. -/
theorem outline_define (r : Resolution) (s : Nat) (d : Definition) :
    (r.define s d).program.outline = r.program.outline :=
  Program.outline_modifyScope _ _ (Scope.Fills.define _)

/-- To enter a scope opens one. -/
theorem outline_enter {f : Scope → Scope} (r : Resolution) (s begin stop : Nat)
    (h : Scope.Fills f) : (r.enter s begin stop f).program.outline =
      r.program.outline.opened s begin stop :=
  (Program.outline_modifyScope _ _ h).trans (Program.outline_openScope ..)

/-- **The walk keeps outlines nested**, and what it opens it opens where it is. -/
theorem Walks.nested (h : Walks library s ns r r')
    (htidy : ∀ n ∈ ns, ∀ m ∈ n.subtrees, m.Tidy tried) (hapart : ns.Pairwise Node.Apart)
    (hn : r.program.outline.Nested tried) (hs : s < r.program.outline.size)
    (hin : ∀ n ∈ ns, r.program.outline.Holds s n)
    (hroom : ∀ n ∈ ns, r.program.outline.Room tried s n) :
    r'.program.outline.Nested tried ∧
      Outline.Grown s (Outline.Covered ns) r.program.outline r'.program.outline := by
  induction h with
  | nil => exact ⟨hn, .refl⟩
  | append _ _ ih₁ ih₂ =>
    obtain ⟨htidy₁, htidy₂⟩ := List.forall_mem_append.mp htidy
    obtain ⟨hapart₁, hapart₂, hcross⟩ := List.pairwise_append.mp hapart
    obtain ⟨hin₁, hin₂⟩ := List.forall_mem_append.mp hin
    obtain ⟨hroom₁, hroom₂⟩ := List.forall_mem_append.mp hroom
    obtain ⟨hn₁, hg₁⟩ := ih₁ htidy₁ hapart₁ hn hs hin₁ hroom₁
    obtain ⟨hn₂, hg₂⟩ := ih₂ htidy₂ hapart₂ hn₁ (Nat.lt_of_lt_of_le hs hg₁.size_le)
      (fun m hm => (hin₂ m hm).grown hg₁)
      fun m hm => (hroom₂ m hm).grown hg₁ hn.toRooted fun n hmem _ => .inl (hcross n hmem m hm)
    refine ⟨hn₂, (hg₁.mono fun b e h => ?_).trans (hg₂.mono fun b e h => ?_) hn₁.toRooted⟩
    · exact h.imp fun n => And.imp_left (List.mem_append_left _)
    · exact h.imp fun n => And.imp_left (List.mem_append_right _)
  | @parts s n r r' _ _ ih =>
    have ht := List.forall_mem_singleton.mp htidy
    obtain ⟨hb, he⟩ := Node.scopeNode_inside ht
    obtain ⟨hinside, hap⟩ := Node.walked_of_tidy ht
    have hw : ∀ m ∈ n.kind.walked, n.begin ≤ m.begin ∧ m.stop ≤ n.stop := fun m hm =>
      ⟨Nat.le_trans hb (hinside m hm).1, Nat.le_trans (hinside m hm).2 he⟩
    obtain ⟨hn', hg⟩ := ih (fun m hm => Node.tidy_walked ht hm) hap hn hs
      (fun m hm => (List.forall_mem_singleton.mp hin).narrow (hw m hm).1 (hw m hm).2)
      fun m hm => (List.forall_mem_singleton.mp hroom).narrow (hw m hm).1 (hw m hm).2
    refine ⟨hn', hg.mono fun b e h => h.widen fun m hm hf => ?_⟩
    exact ⟨n, List.mem_singleton.mpr rfl, Node.not_isFlat_of_walked hm hf, hw m hm⟩
  | includes =>
    rw [outline_link _ _ _ (fun p q => by cases p; rfl) fun _ => rfl]
    exact ⟨hn, .refl⟩
  | inherits =>
    rw [outline_link _ _ _ (fun p q => by cases p; rfl) fun _ => rfl]
    exact ⟨hn, .refl⟩
  | declared _ _ _ ih =>
    rw [outline_define] at ih
    exact ih htidy hapart hn hs hin hroom
  | declares _ _ _ ih =>
    rw [outline_define]
    exact ih htidy hapart hn hs hin hroom
  | @enters s n inner f r r₁ r' ho hw _ hf _ ih₁ ih₂ =>
    have hflat := NodeKind.not_isFlat_of_opens ho
    have ht := List.forall_mem_singleton.mp htidy
    obtain ⟨hb, hstop⟩ := Node.scopeNode_inside ht
    obtain ⟨hinside, hap⟩ := Node.walked_of_tidy ht
    have hholds := List.forall_mem_singleton.mp hin
    have hfree := List.forall_mem_singleton.mp hroom
    -- the scope ends with its node, which is no combination
    have hreach := Node.reach_of_kind (Node.tidy_self (Node.tidy_scopeNode ht)).whole
    rw [hreach] at ih₂
    have htw := fun m hm => Node.tidy_walked ht (m := m) hm
    rw [hw] at hinside hap htw
    obtain ⟨hin₁, hin₂⟩ := List.forall_mem_append.mp hinside
    obtain ⟨htw₁, htw₂⟩ := List.forall_mem_append.mp htw
    obtain ⟨hap₁, hap₂, -⟩ := List.pairwise_append.mp hap
    -- first what it is about, in the scope around it
    have hover : ∀ m ∈ n.kind.outer, n.begin ≤ m.begin ∧ m.stop ≤ n.stop := fun m hm =>
      ⟨Nat.le_trans hb (hin₁ m hm).1, Nat.le_trans (hin₁ m hm).2 hstop⟩
    obtain ⟨hn₁, hg₁⟩ := ih₁ htw₁ hap₁ hn hs
      (fun m hm => hholds.narrow (hover m hm).1 (hover m hm).2)
      fun m hm => hfree.narrow (hover m hm).1 (hover m hm).2
    have hs₁ := Nat.lt_of_lt_of_le hs hg₁.size_le
    -- then its own scope: what it is about opened none there or is tried
    have hspace : Outline.Room tried r₁.program.outline s n.scopeNode := by
      refine (hfree.narrow hb hstop).grown hg₁ hn.toRooted fun m hm hmf => .inr ?_
      refine (Node.over_of_tidy ht hm).resolve_left fun hmt => ?_
      rw [hmf] at hmt
      exact absurd hmt (by simp)
    have hopen := hn₁.opened hs₁ ((hholds.narrow hb hstop).grown hg₁) hspace
    rw [outline_enter _ _ _ _ hf, ← Program.size_outline] at ih₂
    obtain ⟨hn', hg₂⟩ := ih₂ htw₂ hap₂ hopen (by rw [Outline.size_opened]; omega)
      (fun m hm => .inr (by rw [Outline.frame_opened_self]; exact hin₂ m hm))
      fun m _ c hc => by rw [Outline.frame_opened_self] at hc; exact absurd hc (by simp)
    have hself : Outline.Covered [n] n.scopeNode.begin n.scopeNode.stop :=
      ⟨n, List.mem_singleton.mpr rfl, hflat, hb, hstop⟩
    refine ⟨hn', (hg₁.mono fun b e h => h.widen fun m hm _ => ?_).trans (hg₂.opened hs₁ hself)
      hn₁.toRooted⟩
    exact ⟨n, List.mem_singleton.mpr rfl, hflat, hover m hm⟩

end MudEdit
