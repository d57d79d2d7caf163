import MudEdit.Forest
import MudEdit.Proofs.Node.Brace
import MudEdit.Proofs.Program.Links
import MudEdit.Proofs.Program.Nesting

/-!
# What stands around a scope

Each scope is opened for a construct, and the constructs whose scopes are around it can be read
off the tree. In the program that the walk makes, a scope and those around it cover the
stretches of source of these constructs, one by one.
-/

namespace MudEdit

variable {library : Library} {s begin stop id : Nat} {n m : Node} {ns : List Node}
  {kind : NodeKind} {r r' : Resolution}

/-! ## Constructs around constructs -/

namespace NodeKind

/-- The parts that are walked in the scope of the construct, if it has one. -/
def inner (kind : NodeKind) : List Node := kind.walked.drop kind.outer.length

theorem walked_eq (kind : NodeKind) : kind.walked = kind.outer ++ kind.inner := by
  have hprefix : kind.outer <+: kind.walked := by
    cases kind with
    | foreachLoop | switchOn | tryCatch => exact List.prefix_append ..
    | _ => exact List.nil_prefix
  obtain ⟨rest, hrest⟩ := hprefix
  rw [inner, ← hrest, List.drop_left]

/-- Whether the construct is a statement that has a scope but no braces of its own. -/
def steers : NodeKind → Bool
  | forLoop _ _ _ _ | foreachLoop _ _ _ | switchOn _ _ | tryCatch _ _ _ => true
  | _ => false

end NodeKind

namespace Node

/-- The stretch of source that the scope of the construct covers. -/
def stretch (n : Node) : Nat × Nat := (n.scopeNode.begin, n.scopeNode.reach)

/-- The constructs that parts are in, if they are walked in the scope of the construct. -/
def around (outside : List Node) (n : Node) : List Node :=
  if n.kind.opens then n :: outside else outside

/-- For each scope of a tree, in the order in which they are opened, the construct that has it
and those whose scopes are around it, the innermost first. -/
def enclosures (outside : List Node) (n : Node) : List (List Node) :=
  n.kind.outer.attach.flatMap (fun m => m.1.enclosures outside) ++
    ((if n.kind.opens then [n :: outside] else []) ++
      n.kind.inner.attach.flatMap fun m => m.1.enclosures (n.around outside))
termination_by n.subtrees.length
decreasing_by
  · exact length_subtrees_walked (n.kind.walked_eq ▸ List.mem_append_left _ m.2)
  · exact length_subtrees_walked (n.kind.walked_eq ▸ List.mem_append_right _ m.2)

theorem enclosures_eq (outside : List Node) (n : Node) : n.enclosures outside =
    n.kind.outer.flatMap (enclosures outside) ++
      ((if n.kind.opens then [n :: outside] else []) ++
        n.kind.inner.flatMap (enclosures (n.around outside))) := by
  rw [enclosures]
  conv_rhs => rw [← List.attach_map_subtype_val n.kind.outer, List.flatMap_map,
    ← List.attach_map_subtype_val n.kind.inner, List.flatMap_map]

end Node

/-- For each scope of a file but that of the file itself, the constructs around it. -/
def Forest.enclosures (f : Forest) : List (List Node) := f.nodes.flatMap (Node.enclosures [])

/-! ## The scopes around a scope -/

/-- The stretch of source that a scope covers. -/
def Scope.span (s : Scope) : Nat × Nat := (s.begin, s.stop)

namespace Program

variable {p q : Program}

/-- The stretches of source of a scope and of those around it, the innermost first. -/
def spansFrom (p : Program) (id : Nat) : List (Nat × Nat) :=
  (p.scopesFrom id).map fun id => (p.scope id).span

theorem spansFrom_eq (p : Program) (id : Nat) : p.spansFrom id = (p.scope id).span ::
    match (p.scope id).parent with
    | some parent => if parent < id then p.spansFrom parent else []
    | none => [] := by
  rw [spansFrom, scopesFrom]
  split
  · split <;> simp [spansFrom, *]
  · simp [*]

/-- It only matters where the scopes are. -/
theorem spansFrom_congr (h : ∀ i ≤ id, (q.scope i).begin = (p.scope i).begin ∧
    (q.scope i).stop = (p.scope i).stop ∧ (q.scope i).parent = (p.scope i).parent) :
    q.spansFrom id = p.spansFrom id := by
  induction id using Nat.strongRecOn with
  | ind id ih =>
    -- the scope itself is unchanged, and its parent has a smaller number
    obtain ⟨hb, he, hp⟩ := h id (Nat.le_refl _)
    have hspan : (q.scope id).span = (p.scope id).span := Prod.ext hb he
    rw [spansFrom_eq, spansFrom_eq, hspan, hp]
    congr 1
    split
    · split
      · rename_i parent _ hlt
        exact ih parent hlt fun i hi => h i (by omega)
      · rfl
    · rfl

/-- The stretches of source around each scope. -/
def traces (p : Program) : List (List (Nat × Nat)) := (List.range p.scopes.size).map p.spansFrom

theorem length_traces : p.traces.length = p.scopes.size := by simp [traces]

theorem getElem?_traces (hid : id < p.scopes.size) : p.traces[id]? = some (p.spansFrom id) := by
  rw [traces, List.getElem?_map, List.getElem?_range hid]
  rfl

theorem spansFrom_of_traces {ts : List (List (Nat × Nat))} (h : q.traces = p.traces ++ ts)
    (hid : id < p.scopes.size) : q.spansFrom id = p.spansFrom id := by
  have hsize : q.scopes.size = p.scopes.size + ts.length := by
    have := congrArg List.length h
    rwa [List.length_append, length_traces, length_traces] at this
  have hget : q.traces[id]? = some (q.spansFrom id) := getElem?_traces (by omega)
  rw [h, List.getElem?_append_left (by rwa [length_traces]), getElem?_traces hid] at hget
  exact (Option.some.inj hget).symm

theorem scope_outline (h : q.outline = p.outline) (id : Nat) :
    (q.scope id).frame = (p.scope id).frame := by
  rw [← frame_outline, h, frame_outline]

theorem traces_outline (h : q.outline = p.outline) : q.traces = p.traces := by
  have hsize : q.scopes.size = p.scopes.size := by rw [← size_outline, h, size_outline]
  rw [traces, traces, hsize]
  refine List.map_congr_left fun id _ => spansFrom_congr fun i _ => ?_
  have hf := scope_outline h i
  simp only [Scope.frame, Frame.mk.injEq] at hf
  exact ⟨hf.1, hf.2.1, hf.2.2.1⟩

/-- Opening a scope leaves the others where they are. -/
theorem spansFrom_opened (h : q.outline = p.outline.opened s begin stop)
    (hid : id < p.scopes.size) : q.spansFrom id = p.spansFrom id := by
  refine spansFrom_congr fun i hi => ?_
  have hlt : i < p.outline.size := by rw [size_outline]; omega
  have hspan := Outline.span_opened s begin stop hlt
  rwa [← h, frame_outline, frame_outline] at hspan

/-- The new scope is in the one that it was opened in. -/
theorem traces_opened (h : q.outline = p.outline.opened s begin stop)
    (hs : s < p.scopes.size) : q.traces = p.traces ++ [(begin, stop) :: p.spansFrom s] := by
  have hsize : q.scopes.size = p.scopes.size + 1 := by
    rw [← size_outline, h, Outline.size_opened, size_outline]
  have hself : (q.scope p.scopes.size).frame = ⟨begin, stop, some s, []⟩ := by
    rw [← frame_outline, h, ← size_outline, Outline.frame_opened_self]
  simp only [Scope.frame, Frame.mk.injEq] at hself
  obtain ⟨hb, he, hp, -⟩ := hself
  rw [traces, hsize, List.range_succ, List.map_append, List.map_singleton, spansFrom_eq, hp]
  congr 1
  · exact List.map_congr_left fun id hid => spansFrom_opened h (List.mem_range.mp hid)
  · dsimp only
    rw [if_pos hs, spansFrom_opened h hs, Scope.span, hb, he]

end Program

/-! ## The walk opens the scopes of the constructs -/

/-- The stretches of source of constructs around each other, and that of the file. -/
def Node.trace (chain : List Node) : List (Nat × Nat) := chain.map stretch ++ [(0, endless)]

/-- A walk opened a scope for the first construct of each chain, in those of the others. -/
def Opens (r r' : Resolution) (chains : List (List Node)) : Prop :=
  r'.program.traces = r.program.traces ++ chains.map Node.trace

namespace Opens

variable {r₁ : Resolution} {cs ds : List (List Node)} {outside : List Node}

theorem of_outline (h : r'.program.outline = r.program.outline) : Opens r r' [] := by
  rw [Opens, Program.traces_outline h]
  simp

theorem trans (h₁ : Opens r r₁ cs) (h₂ : Opens r₁ r' ds) : Opens r r' (cs ++ ds) := by
  rw [Opens, h₂, h₁, List.map_append, List.append_assoc]

theorem size_le (h : Opens r r' cs) : r.program.scopes.size ≤ r'.program.scopes.size := by
  have := congrArg List.length h
  rw [List.length_append, Program.length_traces, Program.length_traces] at this
  omega

/-- A scope stays where it is. -/
theorem stands (h : Opens r r' cs) (hs : s < r.program.scopes.size)
    (hspans : r.program.spansFrom s = Node.trace outside) :
    s < r'.program.scopes.size ∧ r'.program.spansFrom s = Node.trace outside :=
  ⟨Nat.lt_of_lt_of_le hs h.size_le, (Program.spansFrom_of_traces h hs).trans hspans⟩

/-- The scope that was opened last. -/
theorem last (h : Opens r r' [outside]) : r.program.scopes.size < r'.program.scopes.size ∧
    r'.program.spansFrom r.program.scopes.size = Node.trace outside := by
  have hsize : r'.program.scopes.size = r.program.scopes.size + 1 := by
    have := congrArg List.length h
    rwa [List.length_append, Program.length_traces, Program.length_traces] at this
  have hlt : r.program.scopes.size < r'.program.scopes.size := by omega
  have hget := Program.getElem?_traces hlt
  have hlength : r.program.traces.length = r.program.scopes.size := Program.length_traces
  rw [h, List.getElem?_append_right (Nat.le_of_eq hlength), hlength, Nat.sub_self] at hget
  exact ⟨hlt, (Option.some.inj hget).symm⟩

theorem enter {f : Scope → Scope} (hs : s < r.program.scopes.size)
    (hspans : r.program.spansFrom s = Node.trace outside) (hf : Scope.Fills f) :
    Opens r (r.enter s n.scopeNode.begin n.scopeNode.reach f) [n :: outside] := by
  rw [Opens, Program.traces_opened (outline_enter r s _ _ hf) hs, hspans]
  rfl

end Opens

theorem outline_declare (r : Resolution) (s : Nat) (o : Option Definition) :
    (r.declare s o).program.outline = r.program.outline := by
  cases o with
  | none => rfl
  | some d => exact outline_define r s d

namespace Resolve

/-- What each of some constructs opens, they open one after the other. -/
theorem visitAll_opens (h : ∀ n ∈ ns, ∀ s r outside, s < r.program.scopes.size →
      r.program.spansFrom s = Node.trace outside →
        Opens r (after (visit library s n) r) (n.enclosures outside))
    {outside : List Node} (hs : s < r.program.scopes.size)
    (hspans : r.program.spansFrom s = Node.trace outside) :
    Opens r (after (visitAll library s ns) r) (ns.flatMap (Node.enclosures outside)) := by
  induction ns generalizing r with
  | nil => exact .of_outline rfl
  | cons n ns ih =>
    rw [List.forall_mem_cons] at h
    rw [visitAll]
    have hn := h.1 s r outside hs hspans
    -- the scope the siblings stand in is still open where it was
    obtain ⟨hs', hspans'⟩ := hn.stands hs hspans
    exact hn.trans (ih h.2 hs' hspans')

/-- **The walk opens the scopes of the constructs**, each in those of the constructs around. -/
theorem visit_opens (n : Node) : ∀ s r outside, s < r.program.scopes.size →
    r.program.spansFrom s = Node.trace outside →
      Opens r (after (visit library s n) r) (n.enclosures outside) := by
  induction n using Node.induct_walked with
  | step n ih =>
    intro s r outside hs hspans
    rw [Node.enclosures_eq]
    rw [n.kind.walked_eq, List.forall_mem_append] at ih
    generalize hr' : after (visit library s n) r = r'
    have hturn : Turn library s n r r' := hr' ▸ visit_turn n s r
    cases hturn with
    | includes hn =>
      subst hn
      exact .of_outline (outline_link _ _ _ (fun p q => by cases p; rfl) fun _ => rfl)
    | inherits hn =>
      subst hn
      exact .of_outline (outline_link _ _ _ (fun p q => by cases p; rfl) fun _ => rfl)
    | keeps _ ho _ =>
      have hparts := visitAll_opens (List.forall_mem_append.mpr ih) hs hspans
      rw [← n.kind.walked_eq] at hparts
      rw [Node.around, ho, if_neg Bool.false_ne_true, if_neg Bool.false_ne_true, List.nil_append,
        ← List.flatMap_append, ← n.kind.walked_eq]
      simpa using hparts.trans (.of_outline (outline_declare _ s _))
    | @enters inner o ds f r₁ ho hw _ hf _ h₁ =>
      obtain rfl : inner = n.kind.inner := by
        rw [NodeKind.inner, hw, List.drop_left]
      subst h₁
      rw [Node.around, if_pos ho, if_pos ho]
      -- what it is about, then its own scope, and then what is in that
      have hdeclare : Opens r (r.declare s o) [] := .of_outline (outline_declare r s o)
      obtain ⟨hs₁, hspans₁⟩ := hdeclare.stands hs hspans
      have houter := visitAll_opens ih.1 hs₁ hspans₁
      obtain ⟨hs₂, hspans₂⟩ := houter.stands hs₁ hspans₁
      have henter := Opens.enter (n := n) hs₂ hspans₂ hf.toFills
      obtain ⟨hs₃, hspans₃⟩ := henter.last
      have hinner := visitAll_opens ih.2 hs₃ hspans₃
      exact hdeclare.trans (houter.trans (henter.trans hinner))

end Resolve

/-- In the program of a file there is a scope for every chain of constructs, and that of the
file comes first. -/
theorem traces_resolve (library : Library) (stamp : Nat) (fileName : Option String)
    (f : Forest) : (resolve library stamp fileName f.nodes).program.traces =
      [(0, endless)] :: f.enclosures.map Node.trace := by
  let start : Resolution := ⟨.empty stamp fileName, []⟩
  have hempty : start.program.spansFrom 0 = Node.trace [] := by
    rw [Program.spansFrom_eq]
    rfl
  have hstart : start.program.traces = [Node.trace []] :=
    congrArg (fun spans => [spans]) hempty
  have hopens : Opens start (resolve library stamp fileName f.nodes) f.enclosures :=
    Resolve.visitAll_opens (fun n _ => Resolve.visit_opens n) Nat.one_pos hempty
  rw [hopens, hstart]
  rfl

end MudEdit
