import MudEdit.Proofs.Forest.Span
import MudEdit.Proofs.Grammar.Recorded
import MudEdit.Proofs.Program.Links

/-!
# What a file depends on

In the scope of the file itself the walk records what is declared there, and every file that
is named anywhere, each where its construct begins. Since what is recorded begins apart from
what names a file, no such place is taken: a file depends on each file that it names.
-/

namespace MudEdit

variable {library : Library} {s : Nat} {n : Node} {ns ms : List Node} {r r' : Resolution}
  {xs ys zs : List (Nat × Instruction)} {path : String}

/-- The path that a construct names a file by. -/
def NodeKind.path? : NodeKind → Option String
  | includeFile path | inheritFile path => Resolve.pathOf? path
  | _ => none

theorem NodeKind.isLink_of_path? {kind : NodeKind} (h : kind.path? = some path) :
    kind.isLink = true := by
  cases kind with
  | includeFile | inheritFile => rfl
  | _ => exact absurd h (by simp [path?])

/-- Only a link has a path. -/
theorem NodeKind.path?_eq_none {kind : NodeKind} (h : kind.isLink = false) :
    kind.path? = none := by
  cases kind with
  | includeFile | inheritFile => exact absurd h (by simp [isLink])
  | _ => rfl

/-- A path is linked to where the walk comes to a link that has it. -/
theorem mem_linkedPaths :
    path ∈ linkedPaths ns ↔ ∃ n ∈ ns.flatMap Node.visited, n.kind.path? = some path := by
  have hkind (kind : NodeKind) : kind.path? = some path ↔
      kind.includes? = some path ∨ kind.inherits? = some path := by
    cases kind <;> simp [NodeKind.path?, NodeKind.includes?, NodeKind.inherits?]
  simp only [linkedPaths, includedPaths, inheritedPaths, List.mem_append, List.mem_filterMap,
    hkind, and_or_left, exists_or]

theorem visited_singleton (n : Node) :
    [n].flatMap Node.visited = n :: n.kind.walked.flatMap Node.visited := by
  rw [List.flatMap_singleton, Node.visited_eq]

/-! ## What is recorded -/

/-- What a walk of the constructs makes of the instructions of the file. -/
structure Recorded (ns : List Node) (xs ys : List (Nat × Instruction)) : Prop where
  grows : xs ⊆ ys
  /-- What is new stands where one of the constructs begins, and names the file that it names. -/
  begins : ∀ y ∈ ys, y ∈ xs ∨
    ∃ m ∈ ns.flatMap Node.visited, m.isRecorded = true ∧ y.1 = m.begin ∧
      ∀ path, y.2.path? = some path → m.kind.path? = some path
  /-- Each file is recorded where it is named, if no place for one is taken. -/
  names : (ns.flatMap Node.visited).Pairwise Node.Unlike →
    (∀ x ∈ xs, ∀ l ∈ ns.flatMap Node.visited, l.kind.isLink = true → x.1 ≠ l.begin) →
    ∀ l ∈ ns.flatMap Node.visited, ∀ path, l.kind.path? = some path →
      ∃ i, (l.begin, i) ∈ ys ∧ i.path? = some path

namespace Recorded

theorem nil : Recorded [] xs xs := ⟨List.Subset.refl _, fun _ hx => .inl hx, by simp⟩

/-- What is recorded first is recorded before the rest. -/
theorem append (h₁ : Recorded ns xs ys) (h₂ : Recorded ms ys zs) : Recorded (ns ++ ms) xs zs where
  grows := List.Subset.trans h₁.grows h₂.grows
  begins z hz := by
    rw [List.flatMap_append]
    rcases h₂.begins z hz with hz | ⟨m, hm, heq⟩
    · exact (h₁.begins z hz).imp_right fun ⟨m, hm, heq⟩ => ⟨m, List.mem_append_left _ hm, heq⟩
    · exact .inr ⟨m, List.mem_append_right _ hm, heq⟩
  names := by
    rw [List.flatMap_append]
    intro hunlike hfree
    -- links of the first part keep their record, as the second part begins elsewhere
    obtain ⟨hns, hms, hcross⟩ := List.pairwise_append.mp hunlike
    refine List.forall_mem_append.mpr ⟨fun l hl path hp => ?_, ?_⟩
    · obtain ⟨i, hi, hpath⟩ := h₁.names hns
        (fun x hx l hl => hfree x hx l (List.mem_append_left _ hl)) l hl path hp
      exact ⟨i, h₂.grows hi, hpath⟩
    · refine h₂.names hms fun y hy l hl hk => ?_
      rcases h₁.begins y hy with hy | ⟨m, hm, hr, heq, -⟩
      · exact hfree y hy l (List.mem_append_right _ hl) hk
      · exact heq ▸ hcross m hm l hl hr (Node.isRecorded_of_isLink hk) (.inl (.inr hk))

/-- A construct that names no file has recorded what its parts have. -/
theorem parts (h : Recorded n.kind.walked xs ys) (hn : n.kind.isLink = false) :
    Recorded [n] xs ys where
  grows := h.grows
  begins y hy := (h.begins y hy).imp_right fun ⟨m, hm, heq⟩ =>
    ⟨m, visited_singleton n ▸ List.mem_cons_of_mem _ hm, heq⟩
  names := by
    rw [visited_singleton]
    intro hunlike hfree
    refine List.forall_mem_cons.mpr ⟨fun path hp => ?_, ?_⟩
    · exact absurd (NodeKind.isLink_of_path? hp) (by simp [hn])
    · exact h.names (List.pairwise_cons.mp hunlike).2 fun x hx l hl =>
        hfree x hx l (List.mem_cons_of_mem _ hl)

/-- A construct that names a file is recorded, if its path is there. -/
theorem link {i : String → Instruction} (hi : ∀ text, (i text).path? = some text)
    (hn : n.kind.isLink = true) (hw : n.kind.walked = [])
    (hys : ys = match n.kind.path? with
      | none => xs
      | some text => Scope.insertAt n.begin (i text) xs) : Recorded [n] xs ys := by
  have hv : [n].flatMap Node.visited = [n] := by rw [visited_singleton, hw]; rfl
  refine ⟨?_, fun y hy => ?_, fun _ hfree l hl path hp => ?_⟩
  · rw [hys]
    split
    · exact List.Subset.refl _
    · exact Scope.subset_insertAt ..
  · rw [hys] at hy
    split at hy
    · exact .inl hy
    · rename_i text htext
      refine (Scope.mem_insertAt hy).symm.imp_right fun heq => ?_
      subst heq
      refine ⟨n, by rw [hv]; exact List.mem_singleton.mpr rfl, Node.isRecorded_of_isLink hn, rfl,
        fun path hp => ?_⟩
      rw [htext, ← hi text]
      exact hp
  · rw [hv, List.mem_singleton] at hl
    subst hl
    rw [hp] at hys
    refine ⟨i path, ?_, hi path⟩
    rw [hys]
    -- no other instruction stands where the link begins
    refine Scope.mem_insertAt_self fun x hx => ?_
    exact hfree x hx l (by rw [hv]; exact List.mem_singleton.mpr rfl) hn

/-- A construct may be declared before its parts are walked. -/
theorem declared {d : Definition} (h : Recorded [n] ys zs) (hn : n.isTitled = true)
    (hd : d.begin = n.begin) (hys : ys = xs ∨ ys = Scope.insertAt d.begin (.define d) xs) :
    Recorded [n] xs zs := by
  rcases hys with rfl | rfl
  · exact h
  have hr : n.isRecorded = true := by simp [Node.isRecorded, hn]
  have hmem : n ∈ [n].flatMap Node.visited := visited_singleton n ▸ List.mem_cons_self
  have hgrows := List.Subset.trans (Scope.subset_insertAt ..) h.grows
  refine ⟨hgrows, fun z hz => ?_, fun hunlike hfree => ?_⟩
  · rcases h.begins z hz with hz | hz
    · refine (Scope.mem_insertAt hz).symm.imp_right fun heq => ?_
      subst heq
      exact ⟨n, hmem, hr, hd, fun path hp => absurd hp (by simp [Instruction.path?])⟩
    · exact .inr hz
  · refine h.names hunlike fun x hx l hl hk => ?_
    rcases Scope.mem_insertAt hx with rfl | hx
    · -- what is named in the construct begins later
      rw [visited_singleton] at hunlike hl
      rcases List.mem_cons.mp hl with rfl | hl
      · exact absurd hn (by simp [Node.isTitled_of_isLink hk])
      · have := (List.pairwise_cons.mp hunlike).1 l hl hr (Node.isRecorded_of_isLink hk)
          (.inl (.inr hk))
        rwa [← hd] at this
    · exact hfree x hx l hl hk

/-- A construct may be declared after its parts were walked. -/
theorem declares {d : Definition} (h : Recorded [n] xs ys) (hn : n.isTitled = true)
    (hd : d.begin = n.begin) (hzs : zs = ys ∨ zs = Scope.insertAt d.begin (.define d) ys) :
    Recorded [n] xs zs := by
  rcases hzs with rfl | rfl
  · exact h
  have hsub := Scope.subset_insertAt d.begin (.define d) ys
  refine ⟨List.Subset.trans h.grows hsub, fun z hz => ?_, fun hunlike hfree l hl path hp =>
    (h.names hunlike hfree l hl path hp).imp fun _ hi => ⟨hsub hi.1, hi.2⟩⟩
  rcases Scope.mem_insertAt hz with rfl | hz
  · exact .inr ⟨n, visited_singleton n ▸ List.mem_cons_self, by simp [Node.isRecorded, hn], hd,
      fun path hp => absurd hp (by simp [Instruction.path?])⟩
  · exact h.begins z hz

end Recorded

/-! ## The walk -/

namespace Program

/-- Only at the root instructions are inserted there. -/
theorem root_modifyScope (p : Program) (id offset : Nat) (i : Instruction) :
    (p.modifyScope id (·.record offset i)).root.instructions = p.root.instructions ∨
      (p.modifyScope id (·.record offset i)).root.instructions =
        Scope.insertAt offset i p.root.instructions := by
  rw [root, scope_modifyScope]
  split
  · exact .inr rfl
  · exact .inl rfl

/-- At the root an instruction comes to its place. -/
theorem root_record (p : Program) (hpos : 0 < p.scopes.size) (offset : Nat) (i : Instruction) :
    (p.modifyScope 0 (·.record offset i)).root.instructions =
      Scope.insertAt offset i p.root.instructions := by
  rw [root, scope_modifyScope, if_pos ⟨rfl, hpos⟩]
  rfl

end Program

/-- A file that is named is recorded in the scope of the file, wherever it is named. -/
theorem root_link (library : Library) (hpos : 0 < r.program.scopes.size) (begin : Nat)
    (path : Node) (instruction : String → Instruction) (add : Program → Program → Program)
    (ha : ∀ p q, (add p q).scopes = p.scopes) :
    let p := (Resolve.after (Resolve.link library begin path instruction add) r).program
    p.scopes.size = r.program.scopes.size ∧
      p.root.instructions = match Resolve.pathOf? path with
        | none => r.program.root.instructions
        | some text => Scope.insertAt begin (instruction text) r.program.root.instructions := by
  intro p
  have hp : p = _ := program_link library r begin path instruction add
  cases hpath : Resolve.pathOf? path with
  | none =>
    rw [hp, hpath]
    exact ⟨rfl, rfl⟩
  | some text =>
    -- found or not, the link is on record
    have hrec := r.program.root_record hpos begin (instruction text)
    rw [hpath] at hp
    dsimp only at hp
    cases hl : library text with
    | none =>
      rw [hl] at hp
      rw [hp]
      exact ⟨Program.size_modifyScope .., hrec⟩
    | some linked =>
      rw [hl] at hp
      have hscopes : p.scopes = _ := (congrArg Program.scopes hp).trans (ha ..)
      rw [hscopes]
      refine ⟨Program.size_modifyScope .., ?_⟩
      rwa [Program.root, Program.scope, hscopes]

/-- **A walk records what its constructs declare and name**, each where it begins. -/
theorem Walks.recorded (h : Walks library s ns r r') (hpos : 0 < r.program.scopes.size) :
    0 < r'.program.scopes.size ∧
      Recorded ns r.program.root.instructions r'.program.root.instructions := by
  induction h with
  | nil => exact ⟨hpos, .nil⟩
  | append _ _ ih₁ ih₂ =>
    obtain ⟨hpos₁, h₁⟩ := ih₁ hpos
    obtain ⟨hpos₂, h₂⟩ := ih₂ hpos₁
    exact ⟨hpos₂, h₁.append h₂⟩
  | parts hl _ ih => exact (ih hpos).imp_right fun h => h.parts hl
  | @includes s begin stop path r =>
    obtain ⟨hsize, hroot⟩ := root_link library hpos begin path .includeFile
      .addIncluded fun p q => by cases p; rfl
    exact ⟨hsize ▸ hpos, .link (i := .includeFile) (fun _ => rfl) rfl rfl hroot⟩
  | @inherits s begin stop path r =>
    obtain ⟨hsize, hroot⟩ := root_link library hpos begin path .inheritFile
      .addInherited fun p q => by cases p; rfl
    exact ⟨hsize ▸ hpos, .link (i := .inheritFile) (fun _ => rfl) rfl rfl hroot⟩
  | declared hn hd _ ih =>
    obtain ⟨hpos', h⟩ := ih (by simpa [Resolution.define] using hpos)
    exact ⟨hpos', h.declared hn hd (Program.root_modifyScope ..)⟩
  | declares _ hn hd ih =>
    obtain ⟨hpos', h⟩ := ih hpos
    refine ⟨by simpa [Resolution.define] using hpos', h.declares hn hd ?_⟩
    exact Program.root_modifyScope ..
  | @enters s n inner f r r₁ r' ho hw _ _ _ ih₁ ih₂ =>
    obtain ⟨hpos₁, h₁⟩ := ih₁ hpos
    obtain ⟨hpos', h₂⟩ := ih₂ (by simp [Resolution.enter])
    -- the scope that is opened is not the file's
    have hroot : (r₁.enter s n.scopeNode.begin n.scopeNode.reach f).program.root.instructions =
        r₁.program.root.instructions := by
      rw [Resolution.enter, Program.root, Program.scope_modifyScope, if_neg (by omega),
        Program.instructions_openScope]
      rfl
    rw [hroot] at h₂
    refine ⟨hpos', Recorded.parts ?_ (NodeKind.isLink_of_opens ho)⟩
    rw [hw]
    exact h₁.append h₂

/-! ## The dependencies of a file -/

/-- A walk comes to no construct twice. -/
theorem Node.visited_subperm (n : Node) : n.visited.Subperm n.subtrees := by
  induction n using Node.induct_walked with
  | step n ih =>
    rw [visited_eq, subtrees_eq]
    refine (List.subperm_cons n).mpr (List.Subperm.trans ?_ (NodeKind.walked_subtrees n.kind))
    generalize n.kind.walked = ns at ih
    induction ns with
    | nil => exact List.nil_subperm
    | cons m ns ihns =>
      obtain ⟨hm, hns⟩ := List.forall_mem_cons.mp ih
      exact hm.append (ihns hns)

/-- Of a file that is read, nothing that is recorded begins where a file is named. -/
theorem parse_unlike (mode : Mode) (text : String) :
    ((Forest.parse mode text).nodes.flatMap Node.visited).Pairwise Node.Unlike := by
  have hnoted := (parse_reads mode text).1.noted (start_placed mode text)
  rw [List.append_nil] at hnoted
  obtain ⟨l, hp, hs⟩ : ((Forest.parse mode text).nodes.flatMap Node.visited).Subperm
      ((Forest.parse mode text).nodes.flatMap Node.subtrees) := by
    generalize (Forest.parse mode text).nodes = ns
    induction ns with
    | nil => exact List.nil_subperm
    | cons n ns ih => exact n.visited_subperm.append ih
  exact (hp.pairwise_iff Node.Unlike.symm).mp (hnoted.unlike.sublist hs)

/-- **A resolved program has its links on record**, where they begin. -/
theorem resolve_recorded (library : Library) (stamp : Nat) (fileName : Option String)
    (nodes : List Node) : Recorded nodes []
      (resolve library stamp fileName nodes).program.root.instructions :=
  ((Resolve.visitAll_walk library nodes 0 ⟨.empty stamp fileName, []⟩).recorded
    (Nat.succ_pos 0)).2

/-- **A file depends on each file that it names**, whatever it is linked to. -/
theorem linkedPaths_subset_dependencies (library : Library) (stamp : Nat)
    (fileName : Option String) (mode : Mode) (text : String) :
    linkedPaths (Forest.parse mode text).nodes ⊆
      (resolve library stamp fileName (Forest.parse mode text).nodes).program.dependencies := by
  intro path hpath
  obtain ⟨n, hn, hp⟩ := mem_linkedPaths.mp hpath
  obtain ⟨i, hi, hpath⟩ := (resolve_recorded library stamp fileName _).names
    (parse_unlike mode text) (by simp) n hn path hp
  exact List.mem_filterMap.mpr ⟨_, hi, hpath⟩

/-- And on no other. -/
theorem dependencies_subset_linkedPaths (library : Library) (stamp : Nat)
    (fileName : Option String) (nodes : List Node) :
    (resolve library stamp fileName nodes).program.dependencies ⊆ linkedPaths nodes := by
  intro path hpath
  obtain ⟨x, hx, hp⟩ := List.mem_filterMap.mp hpath
  rcases (resolve_recorded library stamp fileName nodes).begins x hx with hx | ⟨m, hm, -, -, hpath⟩
  · exact absurd hx (by simp)
  · exact mem_linkedPaths.mpr ⟨m, hm, hpath path hp⟩

/-! ## What is missing -/

/-- The paths by which constructs name files that the library lacks, in the order of the walk. -/
def lackingPaths (library : Library) (ns : List Node) : List String :=
  ((ns.flatMap Node.visited).filterMap (·.kind.path?)).filter fun path => (library path).isNone

/-- What lacks does so in the order of the walk. -/
theorem lackingPaths_append (library : Library) (ns ms : List Node) :
    lackingPaths library (ns ++ ms) = lackingPaths library ns ++ lackingPaths library ms := by
  simp [lackingPaths]

theorem lackingPaths_singleton (library : Library) (n : Node) : lackingPaths library [n] =
    (n.kind.path?.toList.filter fun path => (library path).isNone) ++
      lackingPaths library n.kind.walked := by
  rw [lackingPaths, visited_singleton, List.filterMap_cons]
  cases n.kind.path? with
  | none => rfl
  | some path => exact List.filter_append [path] _

/-- A path lacks if it is linked to and the library does not have it. -/
theorem mem_lackingPaths :
    path ∈ lackingPaths library ns ↔ path ∈ linkedPaths ns ∧ library path = none := by
  simp [lackingPaths, mem_linkedPaths]

/-- An element that comes last is the first of its kind unless it was there before. -/
theorem eraseDups_concat (as : List String) (a : String) :
    (as ++ [a]).eraseDups = if a ∈ as then as.eraseDups else as.eraseDups ++ [a] := by
  rw [List.eraseDups_append, List.removeAll]
  by_cases h : a ∈ as
  · simp [h]
  · rw [if_neg h, List.filter_cons_of_pos (by simp [h])]
    rfl

/-- A path is noted if the library lacks it and it was not noted before. -/
theorem unresolved_link (library : Library) (r : Resolution) (begin : Nat) (path : Node)
    (instruction : String → Instruction) (add : Program → Program → Program) {seen : List String}
    (h : r.unresolved = seen.eraseDups) :
    (Resolve.after (Resolve.link library begin path instruction add) r).unresolved =
      (seen ++ (Resolve.pathOf? path).toList.filter fun p => (library p).isNone).eraseDups := by
  unfold Resolve.link
  cases Resolve.pathOf? path with
  | none =>
    rw [Option.toList, List.filter_nil, List.append_nil]
    exact h
  | some text =>
    dsimp only
    rw [Resolve.after_bind, Option.toList]
    cases hl : library text with
    | some linked =>
      rw [List.filter_cons_of_neg (by simp [hl]), List.filter_nil, List.append_nil]
      exact h
    | none =>
      rw [List.filter_cons_of_pos (by simp [hl]), List.filter_nil, eraseDups_concat, ← h]
      show (ite _ _ _ : Resolution).unresolved = _
      have hseen : r.unresolved.contains text = true ↔ text ∈ seen := by
        rw [List.contains_iff_mem, h, List.mem_eraseDups]
      by_cases hmem : text ∈ seen
      · rw [if_pos hmem]
        exact (congrArg Resolution.unresolved (if_pos (hseen.mpr hmem))).trans rfl
      · rw [if_neg hmem]
        exact congrArg Resolution.unresolved (if_neg (mt hseen.mp hmem))

/-- **The walk notes what is missing**: each path that the library lacks, where it comes first. -/
theorem Walks.notes (h : Walks library s ns r r') {seen : List String}
    (hr : r.unresolved = seen.eraseDups) :
    r'.unresolved = (seen ++ lackingPaths library ns).eraseDups := by
  induction h generalizing seen with
  | nil =>
    rw [hr]
    exact congrArg _ (List.append_nil _).symm
  | append _ _ ih₁ ih₂ =>
    rw [lackingPaths_append, ← List.append_assoc]
    exact ih₂ (ih₁ hr)
  | @parts _ n _ _ hl _ ih =>
    rw [lackingPaths_singleton, NodeKind.path?_eq_none hl]
    exact ih hr
  | @includes _ begin _ path r =>
    rw [lackingPaths_singleton]
    exact (unresolved_link library r begin path .includeFile .addIncluded hr).trans
      (congrArg (fun ps => (seen ++ ps).eraseDups) (List.append_nil _).symm)
  | @inherits _ begin _ path r =>
    rw [lackingPaths_singleton]
    exact (unresolved_link library r begin path .inheritFile .addInherited hr).trans
      (congrArg (fun ps => (seen ++ ps).eraseDups) (List.append_nil _).symm)
  | declared _ _ _ ih => exact ih hr
  | declares _ _ _ ih => exact ih hr
  | @enters _ n _ _ _ _ _ ho hw _ _ _ ih₁ ih₂ =>
    rw [lackingPaths_singleton, NodeKind.path?_eq_none (NodeKind.isLink_of_opens ho), hw,
      lackingPaths_append, Option.toList, List.filter_nil, List.nil_append, ← List.append_assoc]
    exact ih₂ (ih₁ hr)

theorem unresolved_resolve (library : Library) (stamp : Nat) (fileName : Option String)
    (nodes : List Node) : (resolve library stamp fileName nodes).unresolved =
      (lackingPaths library nodes).eraseDups :=
  (Resolve.visitAll_walk library nodes 0 ⟨.empty stamp fileName, []⟩).notes
    List.eraseDups_nil.symm

/-- What is noted as missing is what is named and the library has no program for. -/
theorem mem_unresolved {library : Library} {stamp : Nat} {fileName : Option String}
    {nodes : List Node} : path ∈ (resolve library stamp fileName nodes).unresolved ↔
      path ∈ linkedPaths nodes ∧ library path = none := by
  rw [unresolved_resolve, List.mem_eraseDups, mem_lackingPaths]

/-! ## How many files are named -/

/-- Of what is in order and ends somewhere there is not more than there are places. -/
theorem length_le_of_sorted {last : Nat} (h : xs.Pairwise (·.1 < ·.1))
    (hle : ∀ x ∈ xs, x.1 ≤ last) : xs.length ≤ last + 1 := by
  have hnodup : (xs.map (·.1)).Nodup :=
    List.pairwise_map.mpr (h.imp fun {_ _} hlt => Nat.ne_of_lt hlt)
  have hsub : xs.map (·.1) ⊆ List.range (last + 1) := by
    intro o ho
    obtain ⟨x, hx, rfl⟩ := List.mem_map.mp ho
    exact List.mem_range.mpr (Nat.lt_succ_of_le (hle x hx))
  simpa using (hnodup.subperm hsub).length_le

/-- What is recorded for a file is recorded in its text. -/
theorem begin_le_of_mem_root {library : Library} {stamp : Nat} {fileName : Option String}
    {mode : Mode} {text : String} {x : Nat × Instruction}
    (hx : x ∈ (resolve library stamp fileName
      (Forest.parse mode text).nodes).program.root.instructions) :
    x.1 ≤ text.utf8ByteSize ∧ (Forest.parse mode text).nodes ≠ [] := by
  rcases (resolve_recorded library stamp fileName _).begins x hx with hx | ⟨m, hm, -, heq, -⟩
  · exact absurd hx (by simp)
  · obtain ⟨n, hn, hm⟩ := List.mem_flatMap.mp hm
    have hnests := parse_nests (List.mem_flatMap.mpr ⟨n, hn, n.visited_subset hm⟩)
    exact ⟨heq ▸ hnests.begin_mark.2.le_utf8ByteSize, List.ne_nil_of_mem hn⟩

/-- A file depends on no more files than it has places to name them. -/
theorem length_dependencies_le (library : Library) (stamp : Nat) (fileName : Option String)
    (mode : Mode) (text : String) :
    (resolve library stamp fileName (Forest.parse mode text).nodes).program.dependencies.length ≤
      2 * text.utf8ByteSize := by
  have hord := resolve_ordered library stamp fileName (Forest.parse mode text).nodes 0
  refine Nat.le_trans (List.length_filterMap_le ..) ?_
  by_cases hempty : text.utf8ByteSize = 0
  · -- an empty text has no constructs
    obtain rfl := String.utf8ByteSize_eq_zero_iff.mp hempty
    have hnil : (Forest.parse mode "").nodes = [] := by cases mode <;> decide +kernel
    refine le_of_eq_of_le (List.length_eq_zero_iff.mpr ?_) (Nat.zero_le _)
    exact List.eq_nil_iff_forall_not_mem.mpr fun x hx => (begin_le_of_mem_root hx).2 hnil
  · have := length_le_of_sorted hord.sorted fun x hx => (begin_le_of_mem_root hx).1
    show (Program.scope _ 0).instructions.length ≤ _
    omega

end MudEdit
