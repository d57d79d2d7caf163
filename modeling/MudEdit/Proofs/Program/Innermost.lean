import MudEdit.Proofs.Forest.Span
import MudEdit.Proofs.Node.Path
import MudEdit.Proofs.Program.Links
import MudEdit.Proofs.Program.Search
import MudEdit.Proofs.Program.Sight

/-!
# The innermost scope of a file

In the program of a file that was read without holes the scopes lie as its constructs do.
The scope at an offset is then the innermost one around it, and what is declared around the
offset before it is found from there. The exception is what a statement tries: its scopes
are opened beside the scope of the whole statement, and that is the one the search enters.
-/

namespace MudEdit

variable {library : Library} {s : Nat} {ns : List Node} {r r' : Resolution}

/-! ## Forests without holes -/

namespace Forest

variable {f : Forest}

/-- Whether a stretch of source lies in what a statement tries. -/
def Tries (f : Forest) (begin stop : Nat) : Prop :=
  ∃ t ∈ f.subtrees, ∃ body exception handler, t.kind = .tryCatch body exception handler ∧
    body.begin ≤ begin ∧ stop ≤ body.stop

theorem Tries.narrow {begin stop begin' stop' : Nat} (h : f.Tries begin stop)
    (hb : begin ≤ begin') (he : stop' ≤ stop) : f.Tries begin' stop' := by
  obtain ⟨t, ht, body, exception, handler, hk, hb', he'⟩ := h
  exact ⟨t, ht, body, exception, handler, hk, Nat.le_trans hb' hb, Nat.le_trans he he'⟩

theorem holes_of_subtree (h : f.holes = []) {m : Node} (hm : m ∈ f.subtrees) : m.holes = [] := by
  obtain ⟨n, hn, hsub⟩ := List.mem_flatMap.mp hm
  have hnil := List.flatMap_eq_nil_iff.mp h n hn
  rw [Node.holes_eq_filter, List.filter_eq_nil_iff] at hnil ⊢
  exact fun k hk => hnil k (Node.subtrees_subset hsub hk)

end Forest

section

variable {mode : Mode} {text : String} (h : (Forest.parse mode text).holes = [])
include h

/-- A file that was read without holes has its constructs in order. -/
theorem parse_parts :
    Parts (Reading.start mode text).cursor (Forest.parse mode text).nodes [] :=
  (parse_reads mode text).1.parts (start_placed mode text) fun n hn =>
    List.flatMap_eq_nil_iff.mp h n (by simpa using hn)

/-- Nothing is missing in its trees, and their parts are in order. -/
theorem parse_lined {n : Node} (hn : n ∈ (Forest.parse mode text).subtrees) :
    n.Lined fun o => IsOffset mode text o ∧ String.Pos.Raw.IsValid text ⟨o⟩ := by
  intro m hm
  have hmem := Forest.subtrees_subset hn hm
  obtain ⟨top, htop, hin⟩ := List.mem_flatMap.mp hmem
  refine ⟨parse_nests hmem, ?_, ((parse_parts h).parted top htop m hin).order⟩
  have hnone := (Node.holes_eq_nil.mp (Forest.holes_of_subtree h hmem)).1
  unfold Node.isHole at hnone
  unfold Node.isMissing
  split at hnone <;> simp_all

theorem parse_nodes_lined : ∀ n ∈ (Forest.parse mode text).nodes,
    n.Lined fun o => IsOffset mode text o ∧ String.Pos.Raw.IsValid text ⟨o⟩ := fun n hn =>
  parse_lined h (List.mem_flatMap.mpr ⟨n, hn, Node.mem_subtrees_self n⟩)

/-- The constructs of a file that was read without holes are tidy, and apart. -/
theorem parse_tidy :
    (∀ n ∈ (Forest.parse mode text).nodes, ∀ m ∈ n.subtrees,
      m.Tidy (Forest.parse mode text).Tries) ∧
      (Forest.parse mode text).nodes.Pairwise Node.Apart := by
  have hp := parse_parts h
  refine ⟨fun n hn m hm => ?_, hp.apart⟩
  have hmem : m ∈ (Forest.parse mode text).subtrees := List.mem_flatMap.mpr ⟨n, hn, hm⟩
  have hnests := parse_nests hmem
  refine ⟨hp.parted n hn m hm, hnests.children_inside, fun p hs hk => ?_, ?_⟩
  · -- a combination has a hole, which is one of its parts
    obtain ⟨hne, hall⟩ := hnests.holes p hs hk
    obtain ⟨g, hg⟩ := List.exists_mem_of_ne_nil hs hne
    have hnone := (Node.holes_eq_nil.mp (Forest.holes_of_subtree h hmem)).2 g
      (by simp [Node.children, hk, NodeKind.children, hg])
    exact Node.holes_ne_nil (hall g hg) hnone
  · exact fun body exception handler hk b e hb he =>
      ⟨m, hmem, body, exception, handler, hk, hb, he⟩

end

theorem frame_empty (stamp : Nat) (fileName : Option String) (id : Nat) : ∃ begin stop,
    (Program.empty stamp fileName).outline.frame id = ⟨begin, stop, none, []⟩ := by
  obtain ⟨begin, stop, heq⟩ := Program.scope_empty stamp fileName id
  exact ⟨begin, stop, by rw [Program.frame_outline, heq]; rfl⟩

theorem rooted_empty (stamp : Nat) (fileName : Option String) :
    (Program.empty stamp fileName).outline.Rooted := by
  have hsize : (Program.empty stamp fileName).outline.size = 1 := by
    rw [Program.size_outline]
    rfl
  refine ⟨by omega, ?_, fun id _ _ => by omega, fun q c hc => ?_⟩
  · obtain ⟨begin, stop, heq⟩ := frame_empty stamp fileName 0
    rw [heq]
  · obtain ⟨begin, stop, heq⟩ := frame_empty stamp fileName q
    rw [heq] at hc
    exact absurd hc (by simp)

theorem nested_empty (tried : Nat → Nat → Prop) (stamp : Nat) (fileName : Option String) :
    (Program.empty stamp fileName).outline.Nested tried := by
  refine ⟨rooted_empty stamp fileName, fun id q _ hq => ?_, fun q => ?_⟩
  · obtain ⟨begin, stop, heq⟩ := frame_empty stamp fileName id
    rw [heq] at hq
    exact absurd hq (by simp)
  · obtain ⟨begin, stop, heq⟩ := frame_empty stamp fileName q
    rw [heq]
    exact .nil

/-- The scopes of a file that was read without holes nest, but for what is tried. -/
theorem resolve_nested {mode : Mode} {text : String} (h : (Forest.parse mode text).holes = [])
    (library : Library) (stamp : Nat) (fileName : Option String) :
    (resolve library stamp fileName (Forest.parse mode text).nodes).program.outline.Nested
      (Forest.parse mode text).Tries := by
  obtain ⟨htidy, hapart⟩ := parse_tidy h
  have hempty := nested_empty (Forest.parse mode text).Tries stamp fileName
  refine ((Resolve.visitAll_walk library _ 0 ⟨.empty stamp fileName, []⟩).nested
    htidy hapart hempty hempty.pos (fun _ _ => .inl rfl) fun _ _ c hc => ?_).1
  -- nothing is in the scope of the file yet
  obtain ⟨begin, stop, heq⟩ := Program.scope_empty stamp fileName 0
  rw [Program.frame_outline, heq] at hc
  exact absurd hc (by simp [Scope.frame, Scope.fresh])

/-! ## The innermost scope -/

/-- A scope is reached from an offset if the search ends in it or further in, and nothing
declared in it before the offset is skipped: its name stands for what that scope or one
further in declares, and that is seen. -/
structure Program.Reaches (p : Program) (offset id : Nat) : Prop where
  around : id ∈ p.scopesFrom (p.scopeAt offset)
  declared : ∀ d ∈ (p.scope id).definitions, d.begin < offset → ∀ visibility,
    ∃ s ∈ p.scopesFrom (p.scopeAt offset), id ∈ p.scopesFrom s ∧
      p.identifiers d.name visibility (p.scopeAt offset) offset = p.ownNamed d.name offset s ∧
      ∃ found ∈ p.ownNamed d.name offset s, found ∈ p.visibleDefinitions offset

/-- Nothing is skipped of a scope around the one that the search ends in. -/
theorem Outline.Rooted.reaches {p : Program} {offset id : Nat} (h : p.outline.Rooted)
    (ho : p.Ordered) (hid : id ∈ p.scopesFrom (p.scopeAt offset)) : p.Reaches offset id := by
  refine ⟨hid, fun d hd hlt visibility => ?_⟩
  have hown : d ∈ p.ownNamed d.name offset id := List.mem_filter.mpr
    ⟨(Scope.mem_definitionsBefore (ho id)).mpr ⟨hd, hlt⟩, by simp⟩
  obtain ⟨s, hs, hin, hne, heq⟩ :=
    h.firstFound_scopesFrom hid (List.ne_nil_of_mem hown) h.scopeAt_lt
  refine ⟨s, hs, hin, ?_, ?_⟩
  · rw [Program.identifiers, heq]
    exact if_pos (by simpa using hne)
  · obtain ⟨found, hfound⟩ := List.exists_mem_of_ne_nil _ hne
    obtain ⟨first, rest, hcons⟩ := List.exists_cons_of_ne_nil hne
    refine ⟨first, by simp [hcons], Program.mem_visibleDefinitions d.name ?_⟩
    rw [heq, hcons]
    rfl

/-- **The scope at an offset is the innermost one** in every file that was read without holes,
whatever it is linked to: it contains the offset or is the file's, and every scope around the
offset is reached, unless a statement tries what it is in. -/
theorem resolve_innermost (library : Library) (stamp : Nat) (fileName : Option String)
    (mode : Mode) (text : String) (h : (Forest.parse mode text).holes = []) (offset : Nat) :
    let p := (resolve library stamp fileName (Forest.parse mode text).nodes).program
    (p.scopeAt offset = 0 ∨ (p.scope (p.scopeAt offset)).contains offset = true) ∧
      ∀ id, (p.scope id).contains offset = true → p.Reaches offset id ∨
        (Forest.parse mode text).Tries (p.scope id).begin (p.scope id).stop := by
  intro p
  have hn := resolve_nested h library stamp fileName
  refine ⟨p.descend_contains offset _ 0, fun id hcon => ?_⟩
  have hid : id < p.scopes.size := by
    refine Nat.lt_of_not_le fun hle => ?_
    have hdefault : p.scope id = default := by
      simp [Program.scope, Array.getD_eq_getD_getElem?, Array.getElem?_eq_none hle]
    rw [hdefault] at hcon
    exact absurd hcon (by simp [Scope.contains, default, Scope.fresh])
  refine (hn.scopeAt_innermost (fun _ _ _ _ ht => ht.narrow) hid hcon).imp_left fun hmem => ?_
  exact hn.reaches (resolve_ordered library stamp fileName _) hmem

/-- From a block in a block both are reached. -/
theorem reached_from_block :
    let f := Forest.parse .editor "void f() { int x; { x; } }"
    let p := (resolve (fun _ => none) 0 (some "/a.c") f.nodes).program
    f.holes = [] ∧ (p.scope 1).contains 20 = true ∧ (p.scope 2).contains 20 = true ∧
      p.Reaches 20 1 ∧ p.Reaches 20 2 := by
  intro f p
  have hholes : f.holes = [] := by decide +kernel
  have hreaches := (resolve_innermost (fun _ => none) 0 (some "/a.c") .editor
    "void f() { int x; { x; } }" hholes 20).2
  -- no statement of the text tries anything
  have hkinds : f.subtrees.all (fun t =>
    match t.kind with
    | .tryCatch _ _ _ => false
    | _ => true) = true := by decide +kernel
  have htries : ∀ begin stop, ¬f.Tries begin stop := by
    rintro begin stop ⟨t, ht, body, exception, handler, hk, -⟩
    have := List.all_eq_true.mp hkinds t ht
    rw [hk] at this
    exact absurd this (by simp)
  have h₁ : (p.scope 1).contains 20 = true := by decide +kernel
  have h₂ : (p.scope 2).contains 20 = true := by decide +kernel
  exact ⟨hholes, h₁, h₂, (hreaches 1 h₁).resolve_right (htries _ _),
    (hreaches 2 h₂).resolve_right (htries _ _)⟩

/-- What is tried is skipped: from an offset in it the search enters the scope of the whole
statement, and a variable that is declared there is not found. -/
theorem skipped_in_tried :
    let f := Forest.parse .editor "void f() { try { int x; x; } catch (exception e) { e; } }"
    let p := (resolve (fun _ => none) 0 (some "/a.c") f.nodes).program
    f.holes = [] ∧ (p.scope 2).contains 24 = true ∧ p.scopeAt 24 = 3 ∧
      (p.scope 2).definitions.map (fun d => (d.begin, d.name)) = [(17, "x")] ∧
      p.identifiers "x" .inheritor (p.scopeAt 24) 24 = [] ∧ ¬p.Reaches 24 2 := by
  intro f p
  have hskip : 2 ∉ p.scopesFrom (p.scopeAt 24) := by decide +kernel
  exact ⟨by decide +kernel, by decide +kernel, by decide +kernel, by decide +kernel,
    by decide +kernel, fun h => hskip h.around⟩

end MudEdit
