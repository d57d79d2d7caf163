import Mathlib.Data.Set.Finite.List
import Mathlib.Logic.Relation
import Mathlib.Order.WellFoundedSet
import MudEdit.Proofs.Cache.Closure
import MudEdit.Proofs.Program.Alike
import MudEdit.Proofs.Program.Sight

/-!
# What the program of a file should be

A file needs the files that it includes or inherits, of those there are. Where no file needs
itself, each one has a program that its links alone decide: it is resolved against those
programs of the files that it needs. A library gives the file this program, up to stamps, if
and only if it gives theirs to all files that are needed. What is declared in an inherited
file can be named from there.
-/

namespace MudEdit

/-- If what is found in one table is found in another, and along a list the same is found, then
it is the same at each place. -/
theorem eq_of_filterMap_eq {α β : Type} {f g : α → Option β} {xs : List α}
    (hsome : ∀ x, (f x).isSome → (g x).isSome) (h : xs.filterMap f = xs.filterMap g) :
    ∀ x ∈ xs, f x = g x := by
  have hle : ∀ ys : List α, (ys.filterMap f).length ≤ (ys.filterMap g).length := by
    intro ys
    rw [List.length_filterMap_eq_countP, List.length_filterMap_eq_countP]
    exact List.countP_mono_left fun x _ => hsome x
  induction xs with
  | nil => simp
  | cons x xs ih =>
    have htail := hle xs
    rw [List.forall_mem_cons]
    cases hf : f x with
    | none =>
      cases hg : g x with
      | none => exact ⟨rfl, ih (by simpa [hf, hg] using h)⟩
      | some b =>
        rw [List.filterMap_cons_none hf, List.filterMap_cons_some hg] at h
        rw [h, List.length_cons] at htail
        omega
    | some a =>
      obtain ⟨b, hg⟩ := Option.isSome_iff_exists.mp (hsome x (by simp [hf]))
      rw [List.filterMap_cons_some hf, List.filterMap_cons_some hg] at h
      obtain ⟨rfl, hrest⟩ := List.cons.inj h
      exact ⟨hg.symm, ih hrest⟩

namespace Files

variable {files : Files} {name path : String} {nodes : List Node}

/-- The files that a file includes or inherits, of those there are. -/
def needs (files : Files) (name : String) : List String :=
  (linkedPaths ((files.nodes? name).getD [])).filter fun path => (files.find? path).isSome

/-- The files that a file inherits, of those there are. -/
def inherits (files : Files) (name : String) : List String :=
  (inheritedPaths ((files.nodes? name).getD [])).filter fun path => (files.find? path).isSome

/-- No file needs itself, be it through others. -/
def Acyclic (files : Files) : Prop :=
  ∀ name, ¬Relation.TransGen (fun path name => path ∈ files.needs name) name name

theorem isSome_nodes? : (files.nodes? name).isSome = (files.find? name).isSome := by
  rw [nodes?, Option.isSome_map]

theorem mem_needs (h : files.nodes? name = some nodes) :
    path ∈ files.needs name ↔ path ∈ linkedPaths nodes ∧ (files.find? path).isSome := by
  rw [needs, h, Option.getD_some, List.mem_filter]

theorem mem_inherits (h : files.nodes? name = some nodes) :
    path ∈ files.inherits name ↔ path ∈ inheritedPaths nodes ∧ (files.find? path).isSome := by
  rw [inherits, h, Option.getD_some, List.mem_filter]

/-- A file that needs another one is there. -/
theorem isSome_of_needs (h : path ∈ files.needs name) : (files.find? name).isSome := by
  rw [← isSome_nodes?]
  cases hn : files.nodes? name with
  | some => rfl
  | none => exact absurd h (by simp [needs, hn, linkedPaths, includedPaths, inheritedPaths])

theorem mem_names_of_isSome (h : (files.find? name).isSome) : name ∈ files.names := by
  obtain ⟨text, ht⟩ := Option.isSome_iff_exists.mp h
  exact Table.mem_names_of_find? ht

/-- There are but finitely many files to need. -/
theorem Acyclic.wellFounded (h : files.Acyclic) :
    WellFounded fun path name => path ∈ files.needs name := by
  let Below := Relation.TransGen fun path name => path ∈ files.needs name
  have : IsTrans String Below := ⟨fun _ _ _ => Relation.TransGen.trans⟩
  have : Std.Irrefl Below := ⟨h⟩
  have : IsStrictOrder String Below := { }
  have hfinite : {name | name ∈ files.names}.Finite := files.names.finite_toSet
  refine Subrelation.wf (fun {path name} hp => ⟨.single hp, ?_, ?_⟩)
    (Set.wellFoundedOn_iff.mp (hfinite.wellFoundedOn (r := Below)))
  · exact mem_names_of_isSome (List.mem_filter.mp hp).2
  · exact mem_names_of_isSome (isSome_of_needs hp)

/-! ## The program -/

/-- The program of a file, resolved against those of the files that it needs. -/
def reference (h : files.Acyclic) (name : String) : Option Program :=
  (files.nodes? name).map fun nodes =>
    (resolve (fun path => if path ∈ files.needs name then reference h path else none) 0
      (some name) nodes).program.unstamped
termination_by h.wellFounded.wrap name
decreasing_by assumption

variable (h : files.Acyclic)

theorem isSome_reference : (files.reference h name).isSome = (files.find? name).isSome := by
  rw [reference, Option.isSome_map, isSome_nodes?]

@[simp] theorem unstamped_reference :
    (files.reference h name).map Program.unstamped = files.reference h name := by
  rw [reference, Option.map_map]
  simp [Function.comp_def]

open Resolve in
theorem reference_eq (stamp : Nat) (hn : files.nodes? name = some nodes) :
    files.reference h name =
      some (resolve (files.reference h) stamp (some name) nodes).program.unstamped := by
  rw [reference, hn, Option.map_some]
  refine congrArg some (resolve_unstamped (fun path hpath => ?_) ..)
  split
  · rfl
  · -- what is named and not needed is not there
    rename_i hneeds
    rw [mem_needs hn, ← isSome_reference h] at hneeds
    rw [Option.not_isSome_iff_eq_none.mp fun hsome => hneeds ⟨hpath, hsome⟩]

/-- A library gives the file the program that it should have. -/
def Exact (h : files.Acyclic) (library : Library) (name : String) : Prop :=
  (library name).map Program.unstamped = files.reference h name

open Resolve in
/-- **A file has the program that it should have if and only if the library that it was resolved
against has those of the files that it needs.** -/
theorem exact_iff {library library' : Library} {stamp : Nat}
    (hdom : ∀ path, (library path).isSome → (files.find? path).isSome)
    (hn : files.nodes? name = some nodes)
    (heq : library' name = some (resolve library stamp (some name) nodes).program) :
    Exact h library' name ↔ ∀ path ∈ files.needs name, Exact h library path := by
  unfold Exact
  rw [heq, reference_eq h stamp hn, Option.map_some, Option.some_inj]
  constructor
  · intro hprogram path hpath
    -- the programs linked are the same, so each of them is the same
    obtain ⟨hincluded, hinherited⟩ := resolve_linked library stamp (some name) nodes
    obtain ⟨hincluded', hinherited'⟩ :=
      resolve_linked (files.reference h) stamp (some name) nodes
    have hsome : ∀ path, ((library path).map Program.unstamped).isSome →
        ((files.reference h path).map Program.unstamped).isSome := by
      simpa [isSome_reference] using hdom
    have hfound {paths : List String} (heq : (paths.filterMap library).map Program.unstamped =
        (paths.filterMap (files.reference h)).map Program.unstamped) :
        ∀ path ∈ paths, (library path).map Program.unstamped = files.reference h path := by
      rw [List.map_filterMap, List.map_filterMap] at heq
      intro path hpath
      rw [eq_of_filterMap_eq hsome heq path hpath, unstamped_reference]
    rcases List.mem_append.mp ((mem_needs hn).mp hpath).1 with hpath | hpath
    · refine hfound ?_ path hpath
      rw [← hincluded, ← hincluded', ← Program.included_unstamped, hprogram,
        Program.included_unstamped]
    · refine hfound ?_ path hpath
      rw [← hinherited, ← hinherited', ← Program.inherited_unstamped, hprogram,
        Program.inherited_unstamped]
  · intro hneeds
    refine resolve_unstamped (fun path hpath => ?_) ..
    rw [unstamped_reference]
    by_cases hsome : (files.find? path).isSome
    · exact hneeds path ((mem_needs hn).mpr ⟨hpath, hsome⟩)
    · rw [Option.not_isSome_iff_eq_none.mp fun hl => hsome (hdom path hl),
        Option.not_isSome_iff_eq_none.mp fun hr => hsome (isSome_reference h ▸ hr)]
      rfl

end Files

/-! ## Inherited members -/

namespace Files

variable {files : Files} {name path : String} (h : files.Acyclic)

/-- A program has those of the files that the file inherits, as they should be. -/
theorem mem_inherited_reference {p q : Program} (hp : files.reference h name = some p)
    (hpath : path ∈ files.inherits name) (hq : files.reference h path = some q) :
    q ∈ p.inherited := by
  obtain ⟨nodes, hn⟩ : ∃ nodes, files.nodes? name = some nodes := by
    rw [← Option.isSome_iff_exists, isSome_nodes?, ← isSome_reference h, hp]
    rfl
  obtain rfl := Option.some.inj (hp.symm.trans (reference_eq h 0 hn))
  rw [Program.inherited_unstamped, (resolve_linked ..).2, List.map_filterMap]
  refine List.mem_filterMap.mpr ⟨path, ((mem_inherits hn).mp hpath).1, ?_⟩
  rw [unstamped_reference, hq]

/-- A file that is inherited, be it through others, is reached through the links that inherit. -/
theorem exists_route_reference {p q : Program} (hp : files.reference h name = some p)
    (hchain : Relation.TransGen (fun path name => path ∈ files.inherits name) path name)
    (hq : files.reference h path = some q) : ∃ r ∈ p.inherited, ∃ links, Program.Route r links q := by
  induction hchain generalizing p with
  | single hpath => exact ⟨q, mem_inherited_reference h hp hpath hq, [], .here q⟩
  | @tail between name _ hbetween ih =>
    obtain ⟨b, hb⟩ : ∃ b, files.reference h between = some b := by
      rw [← Option.isSome_iff_exists, isSome_reference]
      exact (List.mem_filter.mp hbetween).2
    obtain ⟨r, hr, links, hroute⟩ := ih hb
    exact ⟨b, mem_inherited_reference h hp hbetween hb, .inherited :: links,
      .link .inherited hr hroute⟩

/-- What is declared in a file can be named from all that inherit it, be it through others. -/
theorem superIdentifiers_reference {p q : Program} {m : Definition}
    (hp : files.reference h name = some p)
    (hchain : Relation.TransGen (fun path name => path ∈ files.inherits name) path name)
    (hq : files.reference h path = some q) (hm : m ∈ q.topLevel)
    (hv : Visibility.inheritor.admits m = true) : p.superIdentifiers m.name ≠ [] := by
  obtain ⟨r, hr, links, hroute⟩ := exists_route_reference h hp hchain hq
  exact Program.asInheritedAny_ne_nil hr (Program.asInherited_ne_nil hroute hm hv)

end Files

end MudEdit
