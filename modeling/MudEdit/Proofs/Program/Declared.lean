import Mathlib.Data.List.Nodup
import MudEdit.Proofs.Program.Links
import MudEdit.Proofs.Program.Tally
import MudEdit.Proofs.Program.Visit

/-!
# Every declaration is recorded once

The walk opens the scopes of a text one after the other, and in each it records what belongs
to the scope. What is recorded at an offset first keeps it, so a declaration is lost if
something else was recorded where it begins; but nothing is.
-/

namespace MudEdit

variable {library : Library} {place : Nat → Prop} {n : Node} {ns : List Node} {hs gs : List Home}
  {names as bs : List (Nat × String)} {xs ys zs qs : List (Nat × Instruction)}

/-! ## What a scope declares -/

/-- The declaration that is recorded, where it is recorded, and its name. -/
def titleAt? (x : Nat × Instruction) : Option (Nat × String) :=
  x.2.definition?.map fun d => (x.1, d.name)

namespace Scope

/-- The declarations in a scope: where each is recorded, and its name. -/
def titles (s : Scope) : List (Nat × String) := s.instructions.filterMap titleAt?

/-- A scope of a program keeps what belongs to a scope of the text. -/
structure Keeps (s : Scope) (h : Home) : Prop where
  begin : s.begin = h.begin
  titles : s.titles.Perm h.names
  place : ∀ at_ d, (at_, .define d) ∈ s.instructions → d.begin = at_

/-! ## Instructions recorded one after the other -/

theorem insertAll_append (qs qs' xs : List (Nat × Instruction)) :
    insertAll (qs ++ qs') xs = insertAll qs' (insertAll qs xs) := List.foldl_append

/-- What names a file takes nothing from what is declared. -/
theorem titles_insertAt_link {offset : Nat} {i : Instruction} (hi : i.definition? = none) :
    (insertAt offset i xs).filterMap titleAt? = xs.filterMap titleAt? := by
  have hnone : titleAt? (offset, i) = none := by rw [titleAt?, hi]; rfl
  fun_induction insertAt offset i xs with
  | case1 | case2 => rw [List.filterMap_cons_none hnone]
  | case3 => rfl
  | case4 _ _ _ _ _ ih => rw [List.filterMap_cons, List.filterMap_cons, ih]

theorem titles_insertAt_define {offset : Nat} {i : Instruction} {t : Nat × String}
    (hi : titleAt? (offset, i) = some t) (h : ∀ x ∈ xs, x.1 ≠ offset) :
    ((insertAt offset i xs).filterMap titleAt?).Perm (t :: xs.filterMap titleAt?) := by
  fun_induction insertAt offset i xs with
  | case1 | case2 => rw [List.filterMap_cons_some hi]
  | case3 => exact absurd rfl (h _ List.mem_cons_self)
  | case4 at_ j rest _ _ ih =>
    have ih := ih fun x hx => h x (List.mem_cons_of_mem _ hx)
    cases hj : titleAt? (at_, j) with
    | none => rwa [List.filterMap_cons_none hj, List.filterMap_cons_none hj]
    | some u =>
      rw [List.filterMap_cons_some hj, List.filterMap_cons_some hj]
      exact (ih.cons u).trans (.swap ..)

/-- Neither of two instructions takes the place of the other if that is a declaration. -/
def Apart (x y : Nat × Instruction) : Prop :=
  (titleAt? x).isSome = true ∨ (titleAt? y).isSome = true → x.1 ≠ y.1

/-- Instructions that are recorded apart are all there. -/
theorem titles_insertAll (hqs : qs.Pairwise Apart) (hxs : ∀ q ∈ qs, ∀ x ∈ xs, Apart q x) :
    ((insertAll qs xs).filterMap titleAt?).Perm
      (qs.filterMap titleAt? ++ xs.filterMap titleAt?) := by
  induction qs generalizing xs with
  | nil => exact .refl _
  | cons q qs ih =>
    obtain ⟨hq, hqs⟩ := List.pairwise_cons.mp hqs
    obtain ⟨hqx, hxs⟩ := List.forall_mem_cons.mp hxs
    -- what is inserted stands apart from the rest as it did before
    have hrest : ∀ q' ∈ qs, ∀ x ∈ insertAt q.1 q.2 xs, Apart q' x := by
      intro q' hq' x hx
      rcases mem_insertAt hx with rfl | hx
      · exact fun h => (hq q' hq' h.symm).symm
      · exact hxs q' hq' x hx
    refine (ih hqs hrest).trans ?_
    -- a link brings no title; a definition brings its own, and nothing stood at its place
    cases ht : titleAt? q with
    | none =>
      have hlink : q.2.definition? = none := Option.map_eq_none_iff.mp ht
      rw [titles_insertAt_link hlink, List.filterMap_cons_none ht]
    | some t =>
      have hfree : ∀ x ∈ xs, x.1 ≠ q.1 := fun x hx => (hqx x hx (.inl (by simp [ht]))).symm
      rw [List.filterMap_cons_some ht]
      exact ((titles_insertAt_define ht hfree).append_left _).trans List.perm_middle

/-- Some declarations have been recorded, and files that are named in certain places. -/
def Takes (place : Nat → Prop) (names : List (Nat × String)) (xs ys : List (Nat × Instruction)) :
    Prop :=
  ∃ qs, ys = insertAll qs xs ∧ (qs.filterMap titleAt?).Perm names ∧
    ∀ q ∈ qs, q.2.definition? = none → place q.1

namespace Takes

theorem refl (xs : List (Nat × Instruction)) : Takes place [] xs xs :=
  ⟨[], rfl, .refl _, by simp⟩

theorem trans (h₁ : Takes place as xs ys) (h₂ : Takes place bs ys zs) :
    Takes place (as ++ bs) xs zs := by
  obtain ⟨qs, rfl, hp, hl⟩ := h₁
  obtain ⟨qs', rfl, hp', hl'⟩ := h₂
  refine ⟨qs ++ qs', (insertAll_append ..).symm, ?_, List.forall_mem_append.mpr ⟨hl, hl'⟩⟩
  rw [List.filterMap_append]
  exact hp.append hp'

theorem perm (h : Takes place as xs ys) (hp : as.Perm bs) : Takes place bs xs ys := by
  obtain ⟨qs, heq, hq, hl⟩ := h
  exact ⟨qs, heq, hq.trans hp, hl⟩

theorem placed (ds : List Definition) (xs : List (Nat × Instruction)) :
    Takes place (ds.map Definition.title) xs (insertAll (ds.map Definition.placed) xs) := by
  refine ⟨_, rfl, .of_eq ?_, fun q hq hnone => ?_⟩
  · rw [List.filterMap_map, ← List.filterMap_eq_map]
    rfl
  · obtain ⟨d, -, rfl⟩ := List.mem_map.mp hq
    exact absurd hnone (by simp [Definition.placed, Instruction.definition?])

theorem link {offset : Nat} {i : Instruction} (hi : i.definition? = none) (ho : place offset)
    (xs : List (Nat × Instruction)) : Takes place [] xs (insertAt offset i xs) := by
  refine ⟨[(offset, i)], rfl, ?_, fun q hq _ => ?_⟩
  · rw [List.filterMap_cons_none (by rw [titleAt?, hi]; rfl)]
    exact .refl _
  · rw [List.mem_singleton.mp hq]
    exact ho

/-- What is recorded apart, and not where a file is named, is all there. -/
theorem titles (h : Takes place names [] ys) (hn : (names.map Prod.fst).Nodup)
    (hp : ∀ x ∈ names, ¬ place x.1) : (ys.filterMap titleAt?).Perm names := by
  obtain ⟨qs, rfl, hq, hl⟩ := h
  have hfst {q : Nat × Instruction} {t : Nat × String} (ht : titleAt? q = some t) :
      t.1 = q.1 := by
    obtain ⟨d, -, rfl⟩ := Option.map_eq_some_iff.mp ht
    rfl
  replace hn := (hq.map Prod.fst).nodup_iff.mpr hn
  replace hp : ∀ x ∈ qs.filterMap titleAt?, ¬ place x.1 := fun x hx => hp x (hq.subset hx)
  -- no two of them are recorded at one place, so none gives way to another
  have hapart : qs.Pairwise Apart := by
    clear hq
    induction qs with
    | nil => exact .nil
    | cons q qs ih =>
      obtain ⟨hql, hl⟩ := List.forall_mem_cons.mp hl
      cases hqt : titleAt? q with
      | none =>
        rw [List.filterMap_cons_none hqt] at hn hp
        refine List.pairwise_cons.mpr ⟨fun x hx h heq => ?_, ih hl hn hp⟩
        obtain ⟨t, ht⟩ := Option.isSome_iff_exists.mp (h.resolve_left (by simp [hqt]))
        have hplace := hql (Option.map_eq_none_iff.mp hqt)
        exact hp t (List.mem_filterMap.mpr ⟨x, hx, ht⟩) (hfst ht ▸ heq ▸ hplace)
      | some t =>
        rw [List.filterMap_cons_some hqt] at hn hp
        obtain ⟨hnot, hn⟩ := List.nodup_cons.mp hn
        obtain ⟨hpt, hp⟩ := List.forall_mem_cons.mp hp
        refine List.pairwise_cons.mpr ⟨fun x hx _ heq => ?_, ih hl hn hp⟩
        cases hxt : titleAt? x with
        | none =>
          have hplace := hl x hx (Option.map_eq_none_iff.mp hxt)
          exact hpt (hfst hqt ▸ heq ▸ hplace)
        | some u =>
          refine hnot (List.mem_map.mpr ⟨u, List.mem_filterMap.mpr ⟨x, hx, hxt⟩, ?_⟩)
          rw [hfst hxt, hfst hqt, heq]
  have hall : ((insertAll qs []).filterMap titleAt?).Perm (qs.filterMap titleAt? ++ []) :=
    titles_insertAll hapart (by simp)
  rw [List.append_nil] at hall
  exact hall.trans hq

end Takes

end Scope

/-! ## What a program declares -/

namespace Program

variable {p p₁ p' : Program} {s : Nat}

/-- In what is no scope of the program nothing is declared. -/
theorem lt_of_mem_titles {x : Nat × String} {i : Nat} (h : x ∈ (p.scope i).titles) :
    i < p.scopes.size := by
  by_contra hge
  rw [scope_of_size_le (Nat.le_of_not_lt hge)] at h
  exact absurd h (by simp [Scope.titles, default, Scope.fresh])

/-- A scope that is opened begins where it is told to, and no other one moves. -/
theorem begin_openScope (p : Program) (parent begin stop j : Nat) :
    ((p.openScope parent begin stop).scope j).begin =
      if j = p.scopes.size then begin else (p.scope j).begin := by
  rw [scope_openScope]
  by_cases hj : j = p.scopes.size
  · rw [if_pos hj, if_pos hj]
    rfl
  · rw [if_neg hj, if_neg hj]
    split <;> rfl

/-- A program gains scopes, with what belongs to them, and the names in one of those it had.
In all others only files are recorded. -/
structure Adds (place : Nat → Prop) (s : Nat) (names : List (Nat × String)) (hs : List Home)
    (p p' : Program) : Prop where
  size : p'.scopes.size = p.scopes.size + hs.length
  begins : ∀ i < p.scopes.size, (p'.scope i).begin = (p.scope i).begin
  takes : Scope.Takes place names (p.scope s).instructions (p'.scope s).instructions
  others : ∀ i < p.scopes.size, i ≠ s →
    Scope.Takes place [] (p.scope i).instructions (p'.scope i).instructions
  opened : ∀ (k : Nat) (h : Home), hs[k]? = some h →
    (p'.scope (p.scopes.size + k)).begin = h.begin ∧
      Scope.Takes place h.names [] (p'.scope (p.scopes.size + k)).instructions

namespace Adds

theorem refl (p : Program) : Adds place s [] [] p p :=
  ⟨rfl, fun _ _ => rfl, .refl _, fun _ _ _ => .refl _, fun _ _ h => absurd h (by simp)⟩

theorem perm (h : Adds place s as hs p p') (hp : as.Perm bs) : Adds place s bs hs p p' :=
  ⟨h.size, h.begins, h.takes.perm hp, h.others, h.opened⟩

theorem of_scopes (h : Adds place s as hs p p₁) (heq : p'.scopes = p₁.scopes) :
    Adds place s as hs p p' := by
  have hscope : p'.scope = p₁.scope := by
    unfold scope
    rw [heq]
  refine ⟨heq ▸ h.size, ?_, ?_, ?_, ?_⟩ <;> rw [hscope]
  · exact h.begins
  · exact h.takes
  · exact h.others
  · exact h.opened

theorem trans (hs₁ : s < p.scopes.size) (h₁ : Adds place s as hs p p₁)
    (h₂ : Adds place s bs gs p₁ p') : Adds place s (as ++ bs) (hs ++ gs) p p' := by
  have hsize := h₁.size
  refine ⟨?_, fun i hi => ?_, h₁.takes.trans h₂.takes, fun i hi his => ?_, fun k h hk => ?_⟩
  · rw [h₂.size, hsize, List.length_append, Nat.add_assoc]
  · rw [h₂.begins i (by omega), h₁.begins i hi]
  · exact (h₁.others i hi his).trans (h₂.others i (by omega) his)
  · by_cases hlt : k < hs.length
    · -- in a scope opened before nothing is declared afterwards
      rw [List.getElem?_append_left hlt] at hk
      obtain ⟨hbegin, htakes⟩ := h₁.opened k h hk
      have hlater := h₂.others (p.scopes.size + k) (by omega) (by omega)
      refine ⟨(h₂.begins _ (by omega)).trans hbegin, ?_⟩
      exact (htakes.trans hlater).perm (.of_eq (List.append_nil _))
    · rw [List.getElem?_append_right (by omega)] at hk
      have := h₂.opened _ h hk
      rwa [hsize, Nat.add_assoc, Nat.add_sub_cancel' (by omega)] at this

/-- A change that records some declarations in a scope. -/
theorem gains {f : Scope → Scope} {ds : List Definition} (hf : Scope.Gains ds f)
    (hs₁ : s < p.scopes.size) :
    Adds place s (ds.map Definition.title) [] p (p.modifyScope s f) := by
  refine ⟨size_modifyScope .., fun i _ => ?_, ?_, fun i _ his => ?_,
    fun _ _ h => absurd h (by simp)⟩
  · rw [scope_modifyScope]
    split
    · exact congrArg Frame.begin (hf.frame (p.scope i))
    · rfl
  · rw [scope_modifyScope, if_pos ⟨rfl, hs₁⟩, hf.instructions]
    exact .placed ds _
  · rw [scope_modifyScope, if_neg fun h => his h.1.symm]
    exact .refl _

/-- A file is recorded in the scope of the file that names it. -/
theorem link {offset : Nat} {i : Instruction} (hi : i.definition? = none) (ho : place offset)
    (p : Program) : Adds place s [] [] p (p.modifyScope 0 (·.record offset i)) := by
  have htakes (j : Nat) : Scope.Takes place [] (p.scope j).instructions
      ((p.modifyScope 0 (·.record offset i)).scope j).instructions := by
    rw [scope_modifyScope]
    split
    · exact .link hi ho _
    · exact .refl _
  refine ⟨size_modifyScope .., fun j _ => ?_, htakes s, fun j _ _ => htakes j,
    fun _ _ h => absurd h (by simp)⟩
  rw [scope_modifyScope]
  split <;> rfl

/-- A scope is opened and filled, and then what belongs to it is walked. -/
theorem enter {f : Scope → Scope} {ds : List Definition} {begin stop : Nat}
    (hs₁ : s < p.scopes.size) (hf : Scope.Gains ds f)
    (h : Adds place p.scopes.size names hs
      ((p.openScope s begin stop).modifyScope p.scopes.size f) p') :
    Adds place s [] (⟨begin, ds.map Definition.title ++ names⟩ :: hs) p p' := by
  have hopen : (p.openScope s begin stop).scopes.size = p.scopes.size + 1 := size_openScope ..
  -- the new scope takes its own definitions first, then those of the body
  have hfill : Adds place p.scopes.size (ds.map Definition.title) [] (p.openScope s begin stop)
      ((p.openScope s begin stop).modifyScope p.scopes.size f) := .gains hf (by omega)
  have hall := hfill.trans (by omega) h
  rw [List.nil_append] at hall
  have htakes {i : Nat} (hi : i < p.scopes.size) :
      Scope.Takes place [] (p.scope i).instructions (p'.scope i).instructions := by
    have := hall.others i (by omega) (by omega)
    rwa [instructions_openScope] at this
  refine ⟨?_, fun i hi => ?_, htakes hs₁, fun i hi _ => htakes hi, fun k g hk => ?_⟩
  · rw [hall.size, hopen, List.length_cons]
    omega
  · rw [hall.begins i (by omega), begin_openScope, if_neg (by omega)]
  · cases k with
    | zero =>
      obtain rfl := Option.some.inj hk
      refine ⟨?_, ?_⟩
      -- the first of the scopes opened is this one, the others are the body's
      · rw [Nat.add_zero, hall.begins _ (by omega), begin_openScope, if_pos rfl]
      · have hnew := hall.takes
        rwa [instructions_openScope, scope_of_size_le (Nat.le_refl _)] at hnew
    | succ k =>
      have := hall.opened k g hk
      rwa [hopen, Nat.add_assoc, Nat.add_comm 1 k] at this

end Adds

end Program

/-! ## The walk -/

namespace Resolve

variable {s : Nat} {r : Resolution}

theorem declare_adds {o : Option Definition} (ht : o.map Definition.title = n.title?)
    (hs₁ : s < r.program.scopes.size) :
    Program.Adds place s n.title?.toList [] r.program (r.declare s o).program := by
  have hadds : Program.Adds place s (o.toList.map Definition.title) [] r.program
      (r.program.modifyScope s (fill o.toList)) := .gains (fill_gains _) hs₁
  rw [declare_eq, ← ht]
  cases o <;> exact hadds

/-- A link puts a record into the program and no title into any scope. -/
theorem link_adds {begin : Nat} (hp : place begin) (path : Node)
    {instruction : String → Instruction} {add : Program → Program → Program}
    (ha : ∀ p q, (add p q).scopes = p.scopes)
    (hi : ∀ text, (instruction text).definition? = none) :
    Program.Adds place s [] [] r.program
      (after (link library begin path instruction add) r).program := by
  rw [program_link]
  cases pathOf? path with
  | none => exact .refl _
  | some text =>
    have hadds : Program.Adds place s [] [] r.program
        (r.program.modifyScope 0 (·.record begin (instruction text))) :=
      .link (hi text) hp _
    dsimp only
    cases library text with
    | none => exact hadds
    | some linked => exact hadds.of_scopes (ha ..)

/-- If each of several constructs adds what it holds, so do they all. -/
theorem visitAll_adds (h : ∀ m ∈ ns, ∀ (s : Nat) (r : Resolution), s < r.program.scopes.size →
      Program.Adds place s m.held m.homes r.program (after (visit library s m) r).program)
    (hs₁ : s < r.program.scopes.size) :
    Program.Adds place s (ns.flatMap Node.held) (ns.flatMap Node.homes) r.program
      (after (visitAll library s ns) r).program := by
  induction ns generalizing r with
  | nil => exact .refl _
  | cons n ns ih =>
    obtain ⟨hn, hns⟩ := List.forall_mem_cons.mp h
    have hadds := hn s r hs₁
    have hsize := hadds.size
    rw [visitAll]
    exact hadds.trans hs₁ (ih hns (by omega))

/-- **The walk adds what belongs to the scope it is in**, and the scopes of the construct with
what belongs to them. -/
theorem visit_adds (n : Node) (hp : ∀ m ∈ n.subtrees, m.Proper)
    (hl : ∀ m ∈ n.subtrees, m.kind.isLink = true → place m.begin) :
    ∀ (s : Nat) (r : Resolution), s < r.program.scopes.size →
      Program.Adds place s n.held n.homes r.program (after (visit library s n) r).program := by
  induction n using Node.induct_walked with
  | step n ih =>
    intro s r hs₁
    have hwalked : ∀ m ∈ n.kind.walked, ∀ (s : Nat) (r : Resolution), s < r.program.scopes.size →
        Program.Adds place s m.held m.homes r.program (after (visit library s m) r).program := by
      intro m hm
      have hsub : m.subtrees ⊆ n.subtrees := Node.subtrees_walked hm
      exact ih m hm (fun l hm => hp l (hsub hm)) fun l hm => hl l (hsub hm)
    have hn := (Node.forall_mem_subtrees.mp hp).1
    have hln := (Node.forall_mem_subtrees.mp hl).1
    generalize hr' : after (visit library s n) r = r'
    have hturn : Turn library s n r r' := hr' ▸ visit_turn n s r
    cases hturn with
    | includes heq | inherits heq =>
      subst heq
      obtain ⟨hheld, hhomes⟩ := Node.held_homes_of_isLink hn rfl
      rw [hheld, hhomes]
      exact link_adds (hln rfl) _ (fun p q => by cases p; rfl) fun _ => rfl
    | keeps _ ho ht =>
      -- the parts are walked before the construct is recorded, which the text has first
      obtain ⟨hheld, hhomes⟩ := Node.held_homes_keeps hp ho
      have hadds := visitAll_adds hwalked hs₁
      have hsize := hadds.size
      have hall := hadds.trans hs₁ (declare_adds ht (by omega))
      rw [List.append_nil, ← hhomes] at hall
      rw [hheld]
      exact hall.perm List.perm_append_comm
    | @enters inner o ds f r₁ ho hw ht hf hd h₁ =>
      obtain ⟨hheld, hhomes⟩ := Node.held_homes_enters hp ho hw
      rw [hw, List.forall_mem_append] at hwalked
      have hdeclare : Program.Adds place s n.title?.toList [] r.program
          (r.declare s o).program := declare_adds ht hs₁
      have hsize := hdeclare.size
      have houter := hdeclare.trans hs₁ (visitAll_adds hwalked.1 (by omega))
      rw [← h₁] at houter
      have hsize₁ := houter.size
      have hinner : r₁.program.scopes.size <
          (r₁.enter s n.scopeNode.begin n.scopeNode.reach f).program.scopes.size := by
        simp [Resolution.enter]
      -- in the scope that is opened, what fills it comes before the parts that lie in it
      have hall := houter.trans hs₁ (.enter (by omega) hf (visitAll_adds hwalked.2 hinner))
      rw [hheld, hhomes, ← hd]
      simpa using hall

end Resolve

/-- What names a file keeps its place whatever is declared. -/
theorem resolve_adds (library : Library) (stamp : Nat) (fileName : Option String) (ns : List Node)
    (hp : ∀ n ∈ ns, ∀ m ∈ n.subtrees, m.Proper)
    (hl : ∀ n ∈ ns, ∀ m ∈ n.subtrees, m.kind.isLink = true → place m.begin) :
    Program.Adds place 0 (ns.flatMap Node.held) (ns.flatMap Node.homes) (.empty stamp fileName)
      (resolve library stamp fileName ns).program :=
  Resolve.visitAll_adds (r := ⟨.empty stamp fileName, []⟩)
    (fun n hn => Resolve.visit_adds n (hp n hn) (hl n hn)) (Nat.succ_pos 0)

/-- **Every declaration is recorded once**, where it begins, in the scope that it belongs to:
the scopes of the program are those of the text, each with what belongs to it, and between
them they have each declaration of the text. -/
theorem resolve_keeps_declarations (library : Library) (stamp : Nat) (fileName : Option String)
    (mode : Mode) (text : String) :
    let f := Forest.parse mode text
    List.Forall₂ Scope.Keeps (resolve library stamp fileName f.nodes).program.scopes.toList
        f.homes ∧
      (f.homes.flatMap Home.names).Perm f.declarations ∧
      (f.declarations.map Prod.fst).Nodup := by
  intro f
  let p := (resolve library stamp fileName f.nodes).program
  let place (o : Nat) : Prop := ∃ l ∈ f.subtrees, l.kind.isLink = true ∧ l.begin = o
  have hadds : Program.Adds place 0 (f.nodes.flatMap Node.held) (f.nodes.flatMap Node.homes)
      (.empty stamp fileName) p := by
    refine resolve_adds library stamp fileName f.nodes (parse_proper mode text) ?_
    exact fun n hn m hm hk => ⟨m, List.mem_flatMap.mpr ⟨n, hn, hm⟩, hk, rfl⟩
  have hperm : (f.homes.flatMap Home.names).Perm f.declarations := declarations_perm mode text
  have hnodup := declarations_nodup mode text
  -- what belongs to a scope is apart, and begins where no file is named
  have hkeeps {h : Home} (hh : h ∈ f.homes) {i : Nat} (hbegin : (p.scope i).begin = h.begin)
      (htakes : Scope.Takes place h.names [] (p.scope i).instructions) :
      (p.scope i).Keeps h := by
    have hsub : h.names.Sublist (f.homes.flatMap Home.names) :=
      List.sublist_flatten_of_mem (List.mem_map_of_mem hh)
    have hapart : (h.names.map Prod.fst).Nodup :=
      ((hperm.map Prod.fst).nodup_iff.mpr hnodup).sublist (hsub.map Prod.fst)
    refine ⟨hbegin, htakes.titles hapart fun x hx => ?_,
      (resolve_ordered library stamp fileName f.nodes i).place⟩
    rintro ⟨l, hl, hk, heq⟩
    exact begin_ne_of_isLink (hperm.subset (hsub.subset hx)) hl hk heq.symm
  have hsize : p.scopes.size = f.homes.length :=
    hadds.size.trans (Nat.add_comm ..)
  refine ⟨List.forall₂_iff_get.mpr ⟨hsize, fun i hi hi' => ?_⟩, hperm, hnodup⟩
  have hscope : p.scopes.toList.get ⟨i, hi⟩ = p.scope i := by
    have hlt : i < p.scopes.size := hi
    simp [Program.scope, Array.getD_eq_getD_getElem?, hlt]
  have hmem : f.homes.get ⟨i, hi'⟩ ∈ f.homes := List.get_mem ..
  show Scope.Keeps (p.scopes.toList.get ⟨i, hi⟩) _
  rw [hscope]
  cases i with
  | zero => exact hkeeps hmem (hadds.begins 0 (Nat.succ_pos 0)) hadds.takes
  | succ k =>
    have hk : (f.nodes.flatMap Node.homes)[k]? = some (f.homes.get ⟨k + 1, hi'⟩) :=
      List.getElem?_eq_getElem (Nat.lt_of_succ_lt_succ hi')
    have hopened := hadds.opened k _ hk
    have hone : (Program.empty stamp fileName).scopes.size + k = k + 1 := Nat.add_comm 1 k
    rw [hone] at hopened
    exact hkeeps hmem hopened.1 hopened.2

section Resolved

variable (library : Library) (stamp : Nat) (fileName : Option String) (mode : Mode) (text : String)

/-- Each scope of the program keeps what belongs to the scope of the text in its place. -/
theorem resolve_keeps_home {id : Nat} :
    let f := Forest.parse mode text
    let p := (resolve library stamp fileName f.nodes).program
    id < p.scopes.size → ∃ h, f.homes[id]? = some h ∧ (p.scope id).Keeps h := by
  intro f p hid
  obtain ⟨hlength, hget⟩ :=
    List.forall₂_iff_get.mp (resolve_keeps_declarations library stamp fileName mode text).1
  have hlt : id < f.homes.length := hlength ▸ hid
  have hscope : p.scopes.toList.get ⟨id, hid⟩ = p.scope id := by
    simp [Program.scope, Array.getD_eq_getD_getElem?, hid]
  exact ⟨_, List.getElem?_eq_getElem hlt, hscope ▸ hget id hid hlt⟩

/-- Every scope of the text has one of the program that keeps what belongs to it. -/
theorem exists_keeps {h : Home} (hh : h ∈ (Forest.parse mode text).homes) :
    ∃ id, ((resolve library stamp fileName (Forest.parse mode text).nodes).program.scope
      id).Keeps h := by
  obtain ⟨id, hlt, heq⟩ := List.mem_iff_getElem.mp hh
  have hsize := (resolve_keeps_declarations library stamp fileName mode text).1.length_eq
  rw [Array.length_toList] at hsize
  obtain ⟨h', hget, hkeeps⟩ :=
    resolve_keeps_home library stamp fileName mode text (hsize ▸ hlt)
  rw [List.getElem?_eq_getElem hlt, heq] at hget
  exact ⟨id, Option.some.inj hget ▸ hkeeps⟩

/-- **A declaration is in one scope** of the program. -/
theorem eq_of_mem_titles {x : Nat × String} {i j : Nat} :
    let p := (resolve library stamp fileName (Forest.parse mode text).nodes).program
    x ∈ (p.scope i).titles → x ∈ (p.scope j).titles → i = j := by
  intro p hi hj
  have hhome {id : Nat} (hid : x ∈ (p.scope id).titles) :
      ∃ h, (Forest.parse mode text).homes[id]? = some h ∧ x ∈ h.names := by
    obtain ⟨h, hget, hkeeps⟩ :=
      resolve_keeps_home library stamp fileName mode text (Program.lt_of_mem_titles hid)
    exact ⟨h, hget, hkeeps.titles.subset hid⟩
  obtain ⟨-, hperm, hnodup⟩ := resolve_keeps_declarations library stamp fileName mode text
  have hdisjoint := (List.nodup_flatMap.mp
    (hperm.nodup_iff.mpr (List.Nodup.of_map Prod.fst hnodup))).2
  -- a title in two scopes would stand in two homes, whose titles are all different
  obtain ⟨h, hgeti, hxi⟩ := hhome hi
  obtain ⟨h', hgetj, hxj⟩ := hhome hj
  obtain ⟨hilt, rfl⟩ := List.getElem?_eq_some_iff.mp hgeti
  obtain ⟨hjlt, rfl⟩ := List.getElem?_eq_some_iff.mp hgetj
  rw [List.pairwise_iff_getElem] at hdisjoint
  rcases Nat.lt_trichotomy i j with hlt | heq | hlt
  · exact absurd hxj (hdisjoint i j hilt hjlt hlt hxi)
  · exact heq
  · exact absurd hxi (hdisjoint j i hjlt hilt hlt hxj)

/-- So there is one scope that a declaration is in. -/
theorem exists_mem_titles_iff {x : Nat × String} (hx : x ∈ (Forest.parse mode text).declarations) :
    let p := (resolve library stamp fileName (Forest.parse mode text).nodes).program
    ∃ id, ∀ j, x ∈ (p.scope j).titles ↔ j = id := by
  intro p
  have hperm := (resolve_keeps_declarations library stamp fileName mode text).2.1
  obtain ⟨h, hh, hxh⟩ := List.mem_flatMap.mp (hperm.symm.subset hx)
  obtain ⟨id, hkeeps⟩ := exists_keeps library stamp fileName mode text hh
  have hid : x ∈ (p.scope id).titles := hkeeps.titles.symm.subset hxh
  refine ⟨id, fun j => ⟨fun hj => ?_, fun hj => hj ▸ hid⟩⟩
  exact eq_of_mem_titles library stamp fileName mode text hj hid

end Resolved

end MudEdit
