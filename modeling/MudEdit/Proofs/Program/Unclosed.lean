import Mathlib.Data.List.Pairwise
import MudEdit.Proofs.Forest.Span
import MudEdit.Proofs.Grammar.Brace
import MudEdit.Proofs.Program.Enclosure
import MudEdit.Proofs.Program.Innermost

/-!
# At the end of a text with open bodies

A body without its closing brace is the last thing in a text, and its scope has no end. So of
the scopes in a scope at most one goes beyond the text, and from there on the search only goes
into such scopes. It comes to an open body if every scope around the body has no end either,
and that is if no loop that binds, no switch and no catching part of a `try` is around it: the
scopes of those end with the statement.
-/

namespace MudEdit

variable {library : Library} {limit offset s id : Nat} {n m k : Node} {ns : List Node}
  {r r' : Resolution}

/-! ## Parts that are walked -/

namespace Node

theorem scopeNode_cases (n : Node) :
    n.scopeNode = n ∨ n.scopeNode ∈ n.children ∧ n.isOpen = false := by
  unfold scopeNode
  split
  · exact .inr ⟨by simp [children, *, NodeKind.children], by simp [isOpen, *]⟩
  · exact .inl rfl

theorem scopeNode_mem_subtrees (n : Node) : n.scopeNode ∈ n.subtrees := by
  rcases n.scopeNode_cases with heq | ⟨hmem, -⟩
  · rw [heq]
    exact mem_subtrees_self n
  · exact mem_subtrees_child hmem

/-- What is walked of a construct are parts of one construct: of its braces, if it is a body. -/
theorem exists_walked_parent (h : n.Sealed) :
    ∃ k, (k = n.scopeNode ∨ k ∈ n.scopeNode.children) ∧ n.kind.walked.Subperm k.children ∧
      k.isOpen = false ∧
      (n.kind.opens = true → n.kind.steers = false → k.kind.hasBraces = true) := by
  obtain ⟨begin, stop, kind⟩ := n
  cases kind with
  | functionDef mods returns title parameters variadic body =>
    cases body with
    | none => exact ⟨_, .inl rfl, List.nil_subperm, rfl, fun ho _ => Bool.noConfusion ho⟩
    | some body =>
      -- the body is walked statement by statement, with or without holes around its block
      have hbody := h.body _ _ _ _ _ _ rfl
      have hwalked : (NodeKind.functionDef mods returns title parameters variadic
          (some body)).walked = body.bodyParts := List.flatMap_singleton ..
      rw [kind_mk, hwalked]
      obtain ⟨b, e, kind⟩ := body
      cases kind with
      | block statements => exact ⟨_, .inl rfl, .refl _, rfl, fun _ _ => rfl⟩
      | combination primary holes =>
        obtain ⟨b', e', kind⟩ := primary
        cases kind with
        | block statements => exact ⟨_, .inr List.mem_cons_self, .refl _, rfl, fun _ _ => rfl⟩
        | _ => exact Bool.noConfusion hbody
      | _ => exact Bool.noConfusion hbody
  | combination primary holes =>
    obtain ⟨b, e, kind⟩ := primary
    cases kind with
    | block statements => exact ⟨_, .inr List.mem_cons_self, .refl _, rfl, fun _ _ => rfl⟩
    | classDef title inherits body =>
      have hsub : (NodeKind.classDef title inherits body).walked.Subperm
          (NodeKind.classDef title inherits body).children :=
        NodeKind.walked_subperm (fun _ _ _ _ _ _ h => NodeKind.noConfusion h)
          fun _ _ h => NodeKind.noConfusion h
      exact ⟨_, .inr List.mem_cons_self, hsub, rfl, fun _ _ => rfl⟩
    | _ => exact ⟨_, .inl rfl, .refl _, rfl, fun ho _ => Bool.noConfusion ho⟩
  | _ =>
    refine ⟨_, .inl rfl, NodeKind.walked_subperm ?_ ?_, rfl, fun ho hs => ?_⟩
    · exact fun _ _ _ _ _ _ h => NodeKind.noConfusion h
    · exact fun _ _ h => NodeKind.noConfusion h
    · first | rfl | exact Bool.noConfusion ho | exact Bool.noConfusion hs

theorem mem_subtrees_of_scopeNode (hk : k = n.scopeNode ∨ k ∈ n.scopeNode.children) :
    k ∈ n.subtrees := by
  rcases hk with rfl | hk
  · exact n.scopeNode_mem_subtrees
  · exact subtrees_subset n.scopeNode_mem_subtrees (mem_subtrees_child hk)

theorem alone_of_subperm {ms : List Node} (h : ms.Pairwise OneOpen) (hsub : ns.Subperm ms) :
    ns.Pairwise OneOpen := by
  obtain ⟨l, hperm, hl⟩ := hsub
  exact (hperm.pairwise_iff fun hab => OneOpen.symm hab).mp (h.sublist hl)

section

variable (h : n.Settled)
include h

/-- Of what is walked at most one part has open bodies in it. -/
theorem walked_alone : n.kind.walked.Pairwise OneOpen := by
  obtain ⟨k, hk, hsub, -⟩ := exists_walked_parent (h.parts n (mem_subtrees_self n))
  exact alone_of_subperm (h.parts k (mem_subtrees_of_scopeNode hk)).alone hsub

theorem settled_of_walked (hm : m ∈ n.kind.walked) : m.Settled := by
  obtain ⟨k, hk, hsub, hclosed, -⟩ := exists_walked_parent (h.parts n (mem_subtrees_self n))
  have hin := mem_subtrees_of_scopeNode hk
  have hmk := hsub.subset hm
  refine ⟨fun j hj => h.parts j ?_, fun hb => Bool.eq_false_iff.mpr fun ho => ?_⟩
  · exact subtrees_subset hin (subtrees_subset (mem_subtrees_child hmk) hj)
  · exact absurd ((h.parts k hin).braces m hmk hb ho) (by simp [hclosed])

theorem closed_scopeNode (hb : n.scopeNode.kind.hasBraces = true) :
    n.scopeNode.hasOpen = false := by
  rcases n.scopeNode_cases with heq | ⟨hmem, hclosed⟩
  · rw [heq] at hb ⊢
    exact h.closed hb
  · refine Bool.eq_false_iff.mpr fun ho => ?_
    have hopen := (h.parts n (mem_subtrees_self n)).braces _ hmem hb ho
    exact absurd hopen (by simp [hclosed])

theorem mem_scopeNode_of_walked (hm : m ∈ n.kind.walked) : m ∈ n.scopeNode.subtrees := by
  obtain ⟨k, hk, hsub, -⟩ := exists_walked_parent (h.parts n (mem_subtrees_self n))
  have hmk := mem_subtrees_child (hsub.subset hm)
  rcases hk with rfl | hk
  · exact hmk
  · exact subtrees_subset (mem_subtrees_child hk) hmk

theorem subtrees_of_walked (hm : m ∈ n.kind.walked) : m.subtrees ⊆ n.subtrees :=
  subtrees_subset (subtrees_subset n.scopeNode_mem_subtrees (mem_scopeNode_of_walked h hm))

/-- A body is open if something in it is. -/
theorem isOpen_of_walked (ho : n.kind.opens = true) (hs : n.kind.steers = false)
    (hm : m ∈ n.kind.walked) (hopen : m.hasOpen = true) : n.scopeNode.isOpen = true := by
  obtain ⟨k, hk, hsub, -, hbody⟩ := exists_walked_parent (h.parts n (mem_subtrees_self n))
  have hbraces := hbody ho hs
  have hkopen : k.hasOpen = true := hasOpen_iff.mpr (.inr ⟨m, hsub.subset hm, hopen⟩)
  rcases hk with rfl | hk
  · exact absurd hkopen (by simp [closed_scopeNode h hbraces])
  · exact (h.parts _ n.scopeNode_mem_subtrees).braces k hk hbraces hkopen

end

/-- The scope of a construct has no end if it is an open body. -/
theorem isUnclosed_iff (h : n.Sealed) (ho : n.kind.opens = true) :
    Resolve.isUnclosed n.scopeNode = true ↔ n.scopeNode.isOpen = true := by
  obtain ⟨begin, stop, kind⟩ := n
  cases kind with
  | functionDef mods returns title parameters variadic body =>
    cases body with
    | none => exact Bool.noConfusion ho
    | some body =>
      have hbody := h.body _ _ _ _ _ _ rfl
      obtain ⟨b, e, kind⟩ := body
      cases kind with
      | block => exact .rfl
      | combination primary holes =>
        obtain ⟨b', e', kind⟩ := primary
        cases kind with
        | block => exact .rfl
        | _ => exact Bool.noConfusion hbody
      | _ => exact Bool.noConfusion hbody
  | combination primary holes =>
    -- a body with holes lacks its brace when one of them is that brace
    have hb := (Bool.and_eq_true_iff.mp ho).1
    show Resolve.lacksBrace holes = true ↔ (primary.kind.hasBraces && _) = true
    rw [hb, Bool.true_and]
  | _ => exact .rfl

theorem not_isUnclosed_of_steers (h : n.kind.steers = true) :
    Resolve.isUnclosed n.scopeNode = false := by
  obtain ⟨begin, stop, kind⟩ := n
  cases kind with
  | forLoop | foreachLoop | switchOn | tryCatch => rfl
  | _ => exact Bool.noConfusion h

end Node

/-- Only those statements are walked in part before their scope is opened. -/
theorem NodeKind.outer_of_steers {kind : NodeKind} (h : kind.steers = false) :
    kind.outer = [] := by
  cases kind with
  | foreachLoop | switchOn | tryCatch => exact Bool.noConfusion h
  | _ => rfl

namespace Node

theorem hasOpen_of_walked (h : n.Settled) (hm : m ∈ n.kind.walked) (ho : m.hasOpen = true) :
    n.hasOpen = true := by
  obtain ⟨j, hj, hopen⟩ := List.any_eq_true.mp ho
  exact hasOpen_of_subtree (subtrees_of_walked h hm hj) hopen

/-- Constructs of a text: they end with it, and at most one of them has open bodies in it. -/
structure Closing (limit : Nat) (ns : List Node) : Prop where
  settled : ∀ n ∈ ns, n.Settled
  ends : ∀ n ∈ ns, ∀ m ∈ n.subtrees, m.stop ≤ limit
  alone : ns.Pairwise OneOpen

theorem closing_append {ms : List Node} (h : Closing limit (ns ++ ms)) :
    Closing limit ns ∧ Closing limit ms ∧ ∀ n ∈ ns, ∀ m ∈ ms, n.OneOpen m := by
  obtain ⟨hsettled₁, hsettled₂⟩ := List.forall_mem_append.mp h.settled
  obtain ⟨hends₁, hends₂⟩ := List.forall_mem_append.mp h.ends
  obtain ⟨halone₁, halone₂, hcross⟩ := List.pairwise_append.mp h.alone
  exact ⟨⟨hsettled₁, hends₁, halone₁⟩, ⟨hsettled₂, hends₂, halone₂⟩, hcross⟩

namespace Closing

variable (h : Closing limit [n])
include h

theorem walked : Closing limit n.kind.walked := by
  have hn := List.forall_mem_singleton.mp h.settled
  refine ⟨fun m hm => settled_of_walked hn hm, fun m hm j hj => ?_, walked_alone hn⟩
  exact List.forall_mem_singleton.mp h.ends j (subtrees_of_walked hn hm hj)

/-- Only the scope of an open body goes beyond the text, and nothing is walked before it. -/
theorem of_lt_reach (ho : n.kind.opens = true) (hlt : limit < n.scopeNode.reach) :
    n.hasOpen = true ∧ n.kind.outer = [] := by
  have hn := List.forall_mem_singleton.mp h.settled
  have hunclosed : Resolve.isUnclosed n.scopeNode = true := by
    by_contra hclosed
    rw [reach, if_neg hclosed] at hlt
    exact absurd (List.forall_mem_singleton.mp h.ends _ n.scopeNode_mem_subtrees) (by omega)
  have hopen := (isUnclosed_iff (hn.parts n (mem_subtrees_self n)) ho).mp hunclosed
  refine ⟨hasOpen_of_subtree n.scopeNode_mem_subtrees hopen, NodeKind.outer_of_steers ?_⟩
  refine Bool.eq_false_iff.mpr fun hsteers => ?_
  exact absurd hunclosed (by simp [not_isUnclosed_of_steers hsteers])

end Closing

end Node

/-! ## Constructs around an open body -/

namespace Node

/-- In a tree the scope of a construct is in those of some others. If it is an open body, so are
they, unless they have no braces. -/
structure Surrounded (n m : Node) (around : List Node) : Prop where
  parts : ∀ b ∈ m :: around,
    b ∈ n.subtrees ∧ b.kind.opens = true ∧ m.scopeNode ∈ b.scopeNode.subtrees
  hasOpen : m.scopeNode.isOpen = true → n.hasOpen = true
  bodies : m.scopeNode.isOpen = true → ∀ b ∈ around, b.kind.steers = false →
    b.scopeNode.isOpen = true

namespace Surrounded

variable {around : List Node}

theorem self (ho : n.kind.opens = true) : Surrounded n n [] where
  parts := List.forall_mem_singleton.mpr ⟨mem_subtrees_self n, ho, mem_subtrees_self _⟩
  hasOpen := hasOpen_of_subtree n.scopeNode_mem_subtrees
  bodies _ b hb := absurd hb (by simp)

section

variable (h : n.Settled) (hm : m ∈ n.kind.walked) (hk : Surrounded m k around)
include h hm hk

theorem lift : Surrounded n k around := by
  have hin := subtrees_subset n.scopeNode_mem_subtrees (mem_scopeNode_of_walked h hm)
  exact ⟨fun b hb => (hk.parts b hb).imp_left fun hb => subtrees_subset hin hb,
    fun ho => hasOpen_of_walked h hm (hk.hasOpen ho), hk.bodies⟩

/-- A construct with a scope is one more that the others are in. -/
theorem push (ho : n.kind.opens = true) : Surrounded n k (around ++ [n]) := by
  have hlift := lift h hm hk
  have hin := subtrees_subset (mem_scopeNode_of_walked h hm)
  obtain ⟨hmem, -⟩ := hk.parts k List.mem_cons_self
  refine ⟨?_, hlift.hasOpen, fun hopen => ?_⟩
  · rw [← List.cons_append]
    refine List.forall_mem_append.mpr ⟨hlift.parts, List.forall_mem_singleton.mpr ?_⟩
    exact ⟨mem_subtrees_self n, ho, hin (subtrees_subset hmem k.scopeNode_mem_subtrees)⟩
  · refine List.forall_mem_append.mpr ⟨hlift.bodies hopen, List.forall_mem_singleton.mpr ?_⟩
    exact fun hs => isOpen_of_walked h ho hs hm (hk.hasOpen hopen)

end

section

variable (h : n.Settled) (hm : Surrounded n m around)
include h hm

/-- The scope of an open body is only in scopes that have no end, but for those of statements. -/
theorem isUnclosed_around : (∀ b ∈ m :: around, Resolve.isUnclosed b.scopeNode = true) ↔
    Resolve.isUnclosed m.scopeNode = true ∧ ∀ b ∈ around, b.kind.steers = false := by
  have hiff (b : Node) (hb : b ∈ m :: around) :
      Resolve.isUnclosed b.scopeNode = true ↔ b.scopeNode.isOpen = true :=
    isUnclosed_iff (h.parts b (hm.parts b hb).1) (hm.parts b hb).2.1
  rw [List.forall_mem_cons]
  refine and_congr_right fun hself => forall₂_congr fun b hb => ?_
  have hopen := (hiff m List.mem_cons_self).mp hself
  constructor
  · refine fun hunclosed => Bool.eq_false_iff.mpr fun hsteers => ?_
    exact absurd hunclosed (by simp [not_isUnclosed_of_steers hsteers])
  · exact fun hsteers => (hiff b (List.mem_cons_of_mem _ hb)).mpr (hm.bodies hopen b hb hsteers)

/-- An offset beyond the text is in the scopes that have no end, once it is in the body. -/
theorem forall_contains_iff {mark : Nat → Prop} (hnests : ∀ k ∈ n.subtrees, k.Nests mark)
    (hends : ∀ k, mark k → k ≤ offset) (hlt : offset < endless)
    (hbegin : m.scopeNode.begin < offset) :
    (∀ b ∈ m :: around, b.scopeNode.begin < offset ∧ offset < b.scopeNode.reach) ↔
      Resolve.isUnclosed m.scopeNode = true ∧ ∀ b ∈ around, b.kind.steers = false := by
  rw [← hm.isUnclosed_around h]
  refine forall₂_congr fun b hb => ?_
  obtain ⟨hin, -, hsub⟩ := hm.parts b hb
  have hin := subtrees_subset hin b.scopeNode_mem_subtrees
  have hle := (inside_of_subtree (fun k hk => hnests k (subtrees_subset hin hk)) hsub).1
  have hstop := hends _ (hnests _ hin).stop_mark
  -- a closed scope ends by `offset`, an unclosed one at no offset of the text
  unfold reach
  split
  · exact ⟨fun _ => ‹_›, fun _ => ⟨by omega, hlt⟩⟩
  · exact ⟨fun ⟨_, hreach⟩ => by omega, fun hunclosed => absurd hunclosed ‹_›⟩

end

end Surrounded

/-- What is listed for the scopes of a tree surrounds them. -/
theorem exists_surrounded (h : n.Settled) {outside chain : List Node}
    (hchain : chain ∈ n.enclosures outside) :
    ∃ m around, chain = m :: (around ++ outside) ∧ n.Surrounded m around := by
  induction n using Node.induct_walked generalizing outside with
  | step n ih =>
    have hwalked {j : Node} (hj : j ∈ n.kind.outer ++ n.kind.inner) : j ∈ n.kind.walked :=
      n.kind.walked_eq ▸ hj
    rw [enclosures_eq, List.mem_append, List.mem_append, List.mem_flatMap, List.mem_flatMap]
      at hchain
    -- in a child outside the node's own scope, the node itself, or in a child inside it
    rcases hchain with ⟨j, hj, hchain⟩ | hself | ⟨j, hj, hchain⟩
    · have hj := hwalked (List.mem_append_left _ hj)
      obtain ⟨m, around, heq, hm⟩ := ih j hj (settled_of_walked h hj) hchain
      exact ⟨m, around, heq, hm.lift h hj⟩
    · split at hself
      · exact ⟨n, [], List.mem_singleton.mp hself, .self ‹_›⟩
      · exact absurd hself (by simp)
    · have hj := hwalked (List.mem_append_right _ hj)
      obtain ⟨m, around, heq, hm⟩ := ih j hj (settled_of_walked h hj) hchain
      unfold Node.around at heq
      split at heq
      · exact ⟨m, around ++ [n], by rw [heq, List.append_assoc]; rfl, hm.push h hj ‹_›⟩
      · exact ⟨m, around, heq, hm.lift h hj⟩

end Node

/-! ## Scopes that go beyond the text -/

namespace Outline

variable {o o' : Outline} {begin stop : Nat}

/-- At most one of the scopes in the same one goes beyond the limit. -/
def Lone (limit : Nat) (o : Outline) : Prop := ∀ q, (o.frame q).children.Pairwise fun a b =>
  (o.frame a).stop ≤ limit ∨ (o.frame b).stop ≤ limit

/-- A stretch of source goes beyond the limit only if there is an open body. -/
def Spilled (limit : Nat) (ns : List Node) (_ stop : Nat) : Prop :=
  limit < stop → ∃ n ∈ ns, n.hasOpen = true

/-- Every scope in this one stays within the limit. -/
def Bounded (limit : Nat) (o : Outline) (s : Nat) : Prop :=
  ∀ c ∈ (o.frame s).children, (o.frame c).stop ≤ limit

theorem Lone.opened (h : o.Lone limit) (hr : o.Rooted) (hs : s < o.size)
    (hbounded : limit < stop → o.Bounded limit s) : (o.opened s begin stop).Lone limit := by
  let R (_ e _ e' : Nat) : Prop := e ≤ limit ∨ e' ≤ limit
  refine hr.pairs_opened (R := R) hs h fun c hc => ?_
  rcases Nat.lt_or_ge limit stop with hlt | hge
  · exact .inl (hbounded hlt c hc)
  · exact .inr hge

/-- Where nothing open was walked, no scope went beyond the limit. -/
theorem Bounded.grown (h : o.Bounded limit s) (hr : o.Rooted)
    (hg : Grown s (Spilled limit ns) o o') (hclosed : ∀ n ∈ ns, n.hasOpen = false) :
    o'.Bounded limit s := by
  intro c hc
  obtain ⟨new, heq, hnew⟩ := hg.added
  rw [heq, List.mem_append] at hc
  rcases hc with hc | hc
  · rw [(hg.span (hr.children s c hc).2.1).2.1]
    exact h c hc
  · refine Nat.le_of_not_lt fun hlt => ?_
    obtain ⟨n, hn, ho⟩ := (hnew c hc).2 hlt
    exact absurd ho (by simp [hclosed n hn])

theorem Spilled.widen (h : Spilled limit n.kind.walked begin stop) (hn : n.Settled) :
    Spilled limit [n] begin stop := fun hlt => by
  obtain ⟨m, hm, ho⟩ := h hlt
  exact ⟨n, List.mem_singleton.mpr rfl, Node.hasOpen_of_walked hn hm ho⟩

end Outline

/-- **The walk keeps to one scope beyond the limit** in each scope: that of the one open body. -/
theorem Walks.lone (h : Walks library s ns r r') (hclosing : Node.Closing limit ns)
    (hr : r.program.outline.Rooted) (hs : s < r.program.outline.size)
    (hl : r.program.outline.Lone limit)
    (hbounded : ∀ n ∈ ns, n.hasOpen = true → r.program.outline.Bounded limit s) :
    r'.program.outline.Rooted ∧ r'.program.outline.Lone limit ∧
      Outline.Grown s (Outline.Spilled limit ns) r.program.outline r'.program.outline := by
  induction h with
  | nil => exact ⟨hr, hl, .refl⟩
  | append _ _ ih₁ ih₂ =>
    obtain ⟨hclosing₁, hclosing₂, hcross⟩ := Node.closing_append hclosing
    obtain ⟨hb₁, hb₂⟩ := List.forall_mem_append.mp hbounded
    obtain ⟨hr₁, hl₁, hg₁⟩ := ih₁ hclosing₁ hr hs hl hb₁
    -- where the second part has an open body, the first has none
    obtain ⟨hr₂, hl₂, hg₂⟩ := ih₂ hclosing₂ hr₁ (Nat.lt_of_lt_of_le hs hg₁.size_le) hl₁
      fun m hm ho => (hb₂ m hm ho).grown hr hg₁ fun n hn =>
        (hcross n hn m hm).resolve_right (by simp [ho])
    refine ⟨hr₂, hl₂, (hg₁.mono fun b e h hlt => ?_).trans (hg₂.mono fun b e h hlt => ?_) hr₁⟩
    · exact (h hlt).imp fun n => And.imp_left (List.mem_append_left _)
    · exact (h hlt).imp fun n => And.imp_left (List.mem_append_right _)
  | @parts s n r r' _ _ ih =>
    have hn := hclosing.settled n (List.mem_singleton.mpr rfl)
    obtain ⟨hr', hl', hg⟩ := ih hclosing.walked hr hs hl fun m hm ho =>
      List.forall_mem_singleton.mp hbounded (Node.hasOpen_of_walked hn hm ho)
    exact ⟨hr', hl', hg.mono fun b e h => h.widen hn⟩
  | includes =>
    rw [outline_link _ _ _ (fun p q => by cases p; rfl) fun _ => rfl]
    exact ⟨hr, hl, .refl⟩
  | inherits =>
    rw [outline_link _ _ _ (fun p q => by cases p; rfl) fun _ => rfl]
    exact ⟨hr, hl, .refl⟩
  | declared _ _ _ ih =>
    rw [outline_define] at ih
    exact ih hclosing hr hs hl hbounded
  | declares _ _ _ ih =>
    rw [outline_define]
    exact ih hclosing hr hs hl hbounded
  | @enters s n inner f r r₁ r' ho hw _ hf _ ih₁ ih₂ =>
    have hn := hclosing.settled n (List.mem_singleton.mpr rfl)
    have hwalked := hclosing.walked
    rw [hw] at hwalked
    obtain ⟨hclosing₁, hclosing₂, -⟩ := Node.closing_append hwalked
    have hmem {m : Node} (hm : m ∈ n.kind.outer) : m ∈ n.kind.walked :=
      hw ▸ List.mem_append_left _ hm
    obtain ⟨hr₁, hl₁, hg₁⟩ := ih₁ hclosing₁ hr hs hl fun m hm hopen =>
      List.forall_mem_singleton.mp hbounded (Node.hasOpen_of_walked hn (hmem hm) hopen)
    have hs₁ := Nat.lt_of_lt_of_le hs hg₁.size_le
    -- the scope of an open body is the first in this one beyond the limit
    have hself : Outline.Spilled limit [n] n.scopeNode.begin n.scopeNode.reach := fun hlt =>
      ⟨n, List.mem_singleton.mpr rfl, (hclosing.of_lt_reach ho hlt).1⟩
    have hroom (hlt : limit < n.scopeNode.reach) : r₁.program.outline.Bounded limit s := by
      obtain ⟨hopen, houter⟩ := hclosing.of_lt_reach ho hlt
      refine (List.forall_mem_singleton.mp hbounded hopen).grown hr hg₁ ?_
      simp [houter]
    rw [outline_enter _ _ _ _ hf, ← Program.size_outline] at ih₂
    obtain ⟨hr', hl', hg₂⟩ := ih₂ hclosing₂ (hr₁.opened hs₁)
      (by rw [Outline.size_opened]; omega) (hl₁.opened hr₁ hs₁ hroom)
      fun m _ _ c hc => by rw [Outline.frame_opened_self] at hc; exact absurd hc (by simp)
    refine ⟨hr', hl', (hg₁.mono fun b e h hlt => ?_).trans (hg₂.opened hs₁ hself) hr₁⟩
    obtain ⟨m, hm, hopen⟩ := h hlt
    exact ⟨n, List.mem_singleton.mpr rfl, Node.hasOpen_of_walked hn (hmem hm) hopen⟩

/-! ## The search beyond the text -/

namespace Outline

/-- Beyond the limit, there is only one scope to go into. -/
theorem Lone.find_child {p : Program} {c q : Nat} (hl : p.outline.Lone limit)
    (hlimit : limit ≤ offset) (hc : c ∈ (p.scope q).children)
    (hcon : (p.scope c).contains offset = true) :
    (p.scope q).children.reverse.find? (fun c => (p.scope c).contains offset) = some c := by
  have hsome : ((p.scope q).children.reverse.find? fun c =>
      (p.scope c).contains offset).isSome = true :=
    List.find?_isSome.mpr ⟨c, List.mem_reverse.mpr hc, hcon⟩
  obtain ⟨b, hb⟩ := Option.isSome_iff_exists.mp hsome
  obtain ⟨hmem, hbcon⟩ := Program.mem_of_find hb
  have halone := hl q
  simp only [Program.frame_outline] at halone
  by_contra hne
  have hbc : b ≠ c := fun heq => hne (heq ▸ hb)
  have hsymm : Std.Symm fun a b =>
    (p.scope a).frame.stop ≤ limit ∨ (p.scope b).frame.stop ≤ limit := ⟨fun _ _ => Or.symm⟩
  -- of two children one ends by the limit, so the offset is in one of them only
  have hends := halone.forall hmem hc hbc
  simp only [Scope.contains_iff] at hcon hbcon
  simp only [Scope.frame] at hends
  omega

namespace Rooted

variable {p : Program} {a c fuel q : Nat} (h : p.outline.Rooted)
include h

/-- The search only goes into scopes that contain the offset. -/
theorem contains_of_mem_descend (hq : q < p.scopes.size)
    (ha : a ∈ p.scopesFrom (p.descend offset fuel q)) :
    a ∈ p.scopesFrom q ∨ (p.scope a).contains offset = true := by
  fun_induction Program.descend p offset fuel q with
  | case1 => exact .inl ha
  | case2 fuel q c hc ih =>
    obtain ⟨hmem, hcon⟩ := Program.mem_of_find hc
    refine (ih (h.child hmem).2.1 ha).elim (fun ha => ?_) .inr
    rw [h.scopesFrom_child hmem] at ha
    rcases List.mem_cons.mp ha with rfl | ha
    · exact .inr hcon
    · exact .inl ha
  | case3 => exact .inl ha

theorem contains_of_mem_scopeAt (ha : a ∈ p.scopesFrom (p.scopeAt offset)) (hpos : 0 < a) :
    (p.scope a).contains offset = true := by
  refine (h.contains_of_mem_descend h.pos_scopes ha).resolve_left fun hroot => ?_
  rw [h.scopesFrom_root, List.mem_singleton] at hroot
  omega

/-- **Beyond the limit a scope is found if it contains the offset**, and so do those around. -/
theorem mem_scopeAt_iff (hl : p.outline.Lone limit) (hlimit : limit ≤ offset)
    (hid : id < p.scopes.size) : id ∈ p.scopesFrom (p.scopeAt offset) ↔
    ∀ a ∈ p.scopesFrom id, 0 < a → (p.scope a).contains offset = true := by
  constructor
  · intro hmem a ha hpos
    exact h.contains_of_mem_scopeAt (h.scopesFrom_trans hmem ha h.scopeAt_lt) hpos
  · refine fun hcon => h.mem_scopesFrom_descend_of_next hid (fun q c hc hmem => ?_)
      (h.root_mem_scopesFrom hid) h.pos_scopes (Nat.le_refl _)
    exact hl.find_child hlimit hc (hcon c hmem (Nat.zero_lt_of_lt (h.child hc).1))

/-- The scopes around a scope end with the file's. -/
theorem exists_scopesFrom (hid : id < p.scopes.size) :
    ∃ ids, p.scopesFrom id = ids ++ [0] ∧ ∀ a ∈ ids, 0 < a := by
  induction id, hid using h.induct with
  | root => exact ⟨[], h.scopesFrom_root, by simp⟩
  | step q c hc _ ih =>
    obtain ⟨ids, heq, hpos⟩ := ih
    refine ⟨c :: ids, by rw [h.scopesFrom_child hc, heq, List.cons_append], ?_⟩
    exact List.forall_mem_cons.mpr ⟨Nat.zero_lt_of_lt (h.child hc).1, hpos⟩

/-- The scopes around a scope contain an offset if the constructs do whose scopes they are. -/
theorem forall_contains_iff (hid : id < p.scopes.size) {chain : List Node}
    (hspans : p.spansFrom id = Node.trace chain) :
    (∀ a ∈ p.scopesFrom id, 0 < a → (p.scope a).contains offset = true) ↔
      ∀ b ∈ chain, b.scopeNode.begin < offset ∧ offset < b.scopeNode.reach := by
  obtain ⟨ids, heq, hpos⟩ := h.exists_scopesFrom hid
  rw [Program.spansFrom, heq, List.map_append, Node.trace] at hspans
  have hids := (List.append_inj' hspans rfl).1
  have hcontains (a : Nat) : (p.scope a).contains offset = true ↔
      (p.scope a).span.1 < offset ∧ offset < (p.scope a).span.2 := Scope.contains_iff
  have hchain : (∀ x ∈ chain.map Node.stretch, x.1 < offset ∧ offset < x.2) ↔
      ∀ b ∈ chain, b.scopeNode.begin < offset ∧ offset < b.scopeNode.reach := List.forall_mem_map
  rw [← hchain, ← hids, List.forall_mem_map, heq]
  constructor
  · exact fun hall a ha => (hcontains a).mp (hall a (List.mem_append_left _ ha) (hpos a ha))
  · refine fun hall a ha hpos => (hcontains a).mpr (hall a ?_)
    exact (List.mem_append.mp ha).resolve_right (by simp; omega)

end Rooted

end Outline

/-! ## At the end of a text -/

/-- The constructs of a text end with it, and at most one of them has open bodies in it. -/
theorem parse_closing (mode : Mode) (text : String) :
    Node.Closing text.utf8ByteSize (Forest.parse mode text).nodes := by
  have hbraced := (Parse.members_braced .eof : (Parse.members .eof).Ensures
    (Reading.start mode text).cursor fun ns c' => Braced _ ns [] c')
  refine ⟨hbraced.settled, fun n hn m hm => ?_, hbraced.alone⟩
  exact (parse_nests (List.mem_flatMap.mpr ⟨n, hn, hm⟩)).stop_mark.2.le_utf8ByteSize

theorem empty_lone (limit stamp : Nat) (fileName : Option String) :
    (Program.empty stamp fileName).outline.Lone limit := by
  intro q
  obtain ⟨begin, stop, heq⟩ := frame_empty stamp fileName q
  rw [heq]
  exact .nil

theorem resolve_lone (library : Library) (stamp : Nat) (fileName : Option String) (mode : Mode)
    (text : String) :
    let p := (resolve library stamp fileName (Forest.parse mode text).nodes).program
    p.outline.Rooted ∧ p.outline.Lone text.utf8ByteSize := by
  have hempty := rooted_empty stamp fileName
  obtain ⟨hr, hl, -⟩ := (Resolve.visitAll_walk library _ 0 ⟨.empty stamp fileName, []⟩).lone
    (parse_closing mode text) hempty hempty.pos (empty_lone _ stamp fileName) fun n _ _ c hc => by
      obtain ⟨begin, stop, heq⟩ := frame_empty stamp fileName 0
      rw [heq] at hc
      exact absurd hc (by simp)
  exact ⟨hr, hl⟩

/-- **At the end of a text** a scope is reached if it was opened for a body without its closing
brace, and no loop that binds, no switch and no catching part of a `try` is around: of those the
scope ends with the statement. That is said of all scopes, for the constructs that they were
opened for and those around. -/
theorem reached_from_end_iff (library : Library) (stamp : Nat) (fileName : Option String)
    (mode : Mode) (text : String) (offset : Nat) (hoffset : text.utf8ByteSize ≤ offset)
    (hlt : offset < endless) :
    let f := Forest.parse mode text
    let p := (resolve library stamp fileName f.nodes).program
    p.scopes.size = f.enclosures.length + 1 ∧
      ∀ k n around, f.enclosures[k]? = some (n :: around) →
        (p.scope (k + 1)).begin = n.scopeNode.begin ∧
          (n.scopeNode.begin < offset → (p.Reaches offset (k + 1) ↔
            Resolve.isUnclosed n.scopeNode = true ∧ ∀ b ∈ around, b.kind.steers = false)) := by
  intro f p
  obtain ⟨hr, hl⟩ := resolve_lone library stamp fileName mode text
  have htraces : p.traces = [(0, endless)] :: f.enclosures.map Node.trace :=
    traces_resolve library stamp fileName f
  have hsize : p.scopes.size = f.enclosures.length + 1 := by
    rw [← Program.length_traces, htraces, List.length_cons, List.length_map]
  refine ⟨hsize, fun k n around hk => ?_⟩
  have hid : k + 1 < p.scopes.size := by
    obtain ⟨hlt, -⟩ := List.getElem?_eq_some_iff.mp hk
    omega
  have hspans : p.spansFrom (k + 1) = Node.trace (n :: around) := by
    have hget := Program.getElem?_traces hid
    rw [htraces, List.getElem?_cons_succ, List.getElem?_map, hk] at hget
    exact (Option.some.inj hget).symm
  refine ⟨?_, fun hbegin => ?_⟩
  · rw [Program.spansFrom_eq] at hspans
    exact congrArg Prod.fst (List.cons.inj hspans).1
  · have hreaches : p.Reaches offset (k + 1) ↔ k + 1 ∈ p.scopesFrom (p.scopeAt offset) :=
      ⟨fun h => h.around, hr.reaches (resolve_ordered library stamp fileName _)⟩
    -- at the end of the text a scope is reached when it and all around it contain the offset
    rw [hreaches, hr.mem_scopeAt_iff hl hoffset hid, hr.forall_contains_iff hid hspans]
    obtain ⟨top, htop, hchain⟩ := List.mem_flatMap.mp (List.mem_of_getElem? hk)
    have hclosing := parse_closing mode text
    obtain ⟨m, around', heq, hm⟩ := Node.exists_surrounded (hclosing.settled top htop) hchain
    rw [List.append_nil] at heq
    obtain ⟨rfl, rfl⟩ := List.cons.inj heq
    refine hm.forall_contains_iff (hclosing.settled top htop)
      (fun k hk => parse_nests (List.mem_flatMap.mpr ⟨top, htop, hk⟩)) (fun k hk => ?_) hlt hbegin
    exact Nat.le_trans hk.2.le_utf8ByteSize hoffset

/-- From the end of `void f() { if (x) { int y;` both bodies are reached. -/
theorem reached_open_blocks :
    let f := Forest.parse .editor "void f() \x7b if (x) \x7b int y;"
    let p := (resolve (fun _ => none) 0 (some "/a.c") f.nodes).program
    "void f() \x7b if (x) \x7b int y;".utf8ByteSize ≤ 26 ∧ 26 < endless ∧ p.scopes.size = 3 ∧
      (p.scope 1).begin < 26 ∧ (p.scope 2).begin < 26 ∧ p.Reaches 26 1 ∧ p.Reaches 26 2 := by
  intro f p
  have hsize : "void f() \x7b if (x) \x7b int y;".utf8ByteSize ≤ 26 := by decide
  have hlt : 26 < endless := by decide +kernel
  obtain ⟨hscopes, hreaches⟩ := reached_from_end_iff (fun _ => none) 0 (some "/a.c") .editor
    "void f() \x7b if (x) \x7b int y;" 26 hsize hlt
  -- the function, and then the block that is in the function
  have hchains : f.enclosures.map (·.map fun n =>
      (n.scopeNode.begin, Resolve.isUnclosed n.scopeNode, n.kind.steers)) =
        [[(9, true, false)], [(18, true, false), (9, true, false)]] := by decide +kernel
  simp only [List.map_eq_cons_iff, List.map_eq_nil_iff, Prod.mk.injEq] at hchains
  obtain ⟨_, _, hf, ⟨n, _, rfl, ⟨hbn, hn, -⟩, rfl⟩, _, _, rfl,
    ⟨m, _, rfl, ⟨hbm, hm, -⟩, k, _, rfl, ⟨-, -, hk⟩, rfl⟩, rfl⟩ := hchains
  obtain ⟨hbegin₁, hfirst⟩ := hreaches 0 n [] (by rw [hf]; rfl)
  obtain ⟨hbegin₂, hsecond⟩ := hreaches 1 m [k] (by rw [hf]; rfl)
  refine ⟨hsize, hlt, hscopes.trans (by rw [hf]; rfl), ?_, ?_, ?_, ?_⟩
  · exact hbegin₁ ▸ hbn ▸ by decide
  · exact hbegin₂ ▸ hbm ▸ by decide
  · exact (hfirst (by omega)).mpr ⟨hn, by simp⟩
  · exact (hsecond (by omega)).mpr ⟨hm, by simpa using hk⟩

/-- An open body in a loop is not reached, nor is anything declared in it or by the loop. At the
end of the text the search is back in the function. -/
theorem missed_open_loop :
    let f := Forest.parse .editor "void f() \x7b for (int i; i; i++) \x7b int x;"
    let p := (resolve (fun _ => none) 0 (some "/a.c") f.nodes).program
    f.enclosures.map (·.map fun n => (n.scopeNode.begin, Resolve.isUnclosed n.scopeNode)) =
        [[(9, true)], [(11, false), (9, true)], [(31, true), (11, false), (9, true)]] ∧
      p.scopeAt 39 = 1 ∧ ¬p.Reaches 39 3 ∧
      (p.scope 3).definitions.map (fun d => (d.begin, d.name)) = [(33, "x")] ∧
      p.identifiers "x" .inheritor (p.scopeAt 39) 39 = [] ∧
      (p.scope 2).definitions.map (fun d => (d.begin, d.name)) = [(16, "i")] ∧
      p.identifiers "i" .inheritor (p.scopeAt 39) 39 = [] := by
  intro f p
  have hskip : 3 ∉ p.scopesFrom (p.scopeAt 39) := by decide +kernel
  exact ⟨by decide +kernel, by decide +kernel, fun h => hskip h.around, by decide +kernel,
    by decide +kernel, by decide +kernel, by decide +kernel⟩

end MudEdit
