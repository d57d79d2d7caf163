import Mathlib.Data.List.Nodup
import MudEdit.Proofs.Cache.Reference
import MudEdit.Proofs.Program.Stamp

/-!
# Which files of a closure get the program that they should have

The second round resolves a file against the files found after it as they are by then, and
against those found before it as the first round left them, and no file is resolved a third
time. So a file that another one found earlier needs has to be right after the first round,
which takes that all it needs, too, was found before it.
-/

namespace MudEdit

namespace Files

/-- All that the file needs was found before it, and so it was for each of those files. -/
inductive Early (files : Files) (found : List String) : String → Prop
  | intro {name : String} :
      (∀ path ∈ files.needs name, found.idxOf path < found.idxOf name) →
      (∀ path ∈ files.needs name, Early files found path) → Early files found name

/-- Of the files that the file needs, those found after it are settled, and the others were
right when it was resolved. -/
inductive Settled (files : Files) (found : List String) : String → Prop
  | intro {name : String} :
      (∀ path ∈ files.needs name, found.idxOf name < found.idxOf path →
        Settled files found path) →
      (∀ path ∈ files.needs name, ¬found.idxOf name < found.idxOf path →
        Early files found path) → Settled files found name

variable {files : Files} {found : List String} {name path : String}

theorem early_iff : files.Early found name ↔ ∀ path ∈ files.needs name,
    found.idxOf path < found.idxOf name ∧ files.Early found path := by
  constructor
  · rintro ⟨hbefore, hearly⟩ path hpath
    exact ⟨hbefore path hpath, hearly path hpath⟩
  · intro hall
    exact ⟨fun path hpath => (hall path hpath).1, fun path hpath => (hall path hpath).2⟩

theorem settled_iff : files.Settled found name ↔ ∀ path ∈ files.needs name,
    (found.idxOf name < found.idxOf path → files.Settled found path) ∧
      (¬found.idxOf name < found.idxOf path → files.Early found path) := by
  constructor
  · rintro ⟨hafter, hbefore⟩ path hpath
    exact ⟨hafter path hpath, hbefore path hpath⟩
  · intro hall
    exact ⟨fun path hpath => (hall path hpath).1, fun path hpath => (hall path hpath).2⟩

/-- Where a file stands in a list without repetition. -/
theorem idxOf_split {xs ys : List String} (hnodup : (xs ++ name :: ys).Nodup) :
    (path ∈ xs ↔ (xs ++ name :: ys).idxOf path < (xs ++ name :: ys).idxOf name) ∧
      (path ∈ ys → (xs ++ name :: ys).idxOf name < (xs ++ name :: ys).idxOf path) := by
  obtain ⟨-, htail, hdisjoint⟩ := List.nodup_append.mp hnodup
  have hname : name ∉ xs := fun hmem => hdisjoint _ hmem _ List.mem_cons_self rfl
  -- the name stands at the length of what precedes it
  have hat : (xs ++ name :: ys).idxOf name = xs.length := by
    rw [List.idxOf_append_of_notMem hname, List.idxOf_cons_self, Nat.add_zero]
  have hafter : path ∉ xs → xs.length ≤ (xs ++ name :: ys).idxOf path := fun hmem => by
    rw [List.idxOf_append_of_notMem hmem]
    exact Nat.le_add_right ..
  rw [hat]
  refine ⟨⟨fun hmem => ?_, fun hlt => ?_⟩, fun hmem => ?_⟩
  · rw [List.idxOf_append_of_mem hmem]
    exact List.idxOf_lt_length_of_mem hmem
  · by_contra hmem
    exact absurd (hafter hmem) (by omega)
  · have hne : path ≠ name := fun heq => (List.nodup_cons.mp htail).1 (heq ▸ hmem)
    have hxs : path ∉ xs := fun hin => hdisjoint _ hin _ (List.mem_cons_of_mem _ hmem) rfl
    rw [List.idxOf_append_of_notMem hxs, List.idxOf_cons_ne _ (Ne.symm hne)]
    omega

variable (h : files.Acyclic)

/-- A library gives a file its program from some other one. -/
theorem exact_congr {library library' : Library} (heq : library' name = library name) :
    Exact h library' name ↔ Exact h library name := by
  rw [Exact, Exact, heq]

/-- A file that is there and that the library does not have is not as it should be. -/
theorem not_exact_of_none {library : Library} (hnone : library name = none)
    (hthere : (files.find? name).isSome) : ¬Exact h library name := by
  intro hexact
  rw [← isSome_reference h, ← hexact, hnone] at hthere
  exact absurd hthere (by simp)

end Files

/-! ## The two rounds -/

open Files

variable {files : Files} {found : List String} {library : Library} {name path : String}

/-- After the first round, only what is early is as it should be. -/
theorem Captured.exact_iff (h : files.Acyclic) (hc : Captured files found library)
    (hnodup : found.Nodup) (hneeds : ∀ name ∈ found, files.needs name ⊆ found)
    (hname : name ∈ found) : Exact h library name ↔ files.Early found name := by
  induction name using h.wellFounded.induction with
  | _ name ih =>
    obtain ⟨xs, ys, hsplit⟩ := List.append_of_mem hname
    obtain ⟨nodes, stamp, hnodes, heq⟩ := hc.present xs name ys hsplit
    -- resolving saw the files of `xs` only, those captured before
    have hdom : ∀ path, (library.only xs path).isSome → (files.find? path).isSome := by
      intro path hsome
      unfold Library.only at hsome
      split at hsome
      · obtain ⟨us, vs, hpath⟩ := List.append_of_mem (hsplit ▸ List.mem_append_left _ ‹_›)
        obtain ⟨nodes', -, hnodes', -⟩ := hc.present us path vs hpath
        rw [← isSome_nodes?, hnodes']
        rfl
      · exact absurd hsome (by simp)
    rw [Files.exact_iff h hdom hnodes heq, early_iff]
    refine forall₂_congr fun path hpath => ?_
    have hthere := (List.mem_filter.mp hpath).2
    rw [← ih path hpath (hneeds name hname hpath)]
    subst hsplit
    rw [← (idxOf_split hnodup).1]
    by_cases hmem : path ∈ xs
    -- captured before: the tree it was resolved against is the one that stays
    · have hsame : library.only xs path = library path := if_pos hmem
      rw [exact_congr h hsame]
      exact (and_iff_right hmem).symm
    -- captured later: there was no tree to resolve against
    · have hnone : library.only xs path = none := if_neg hmem
      have hnot := not_exact_of_none h hnone hthere
      exact ⟨fun hexact => absurd hexact hnot, fun hboth => absurd hboth.1 hmem⟩

/-- After the second round, only what is settled is as it should be. -/
theorem Relinked.exact_iff (h : files.Acyclic) {c : Cache} (hc : Captured files found library)
    (hr : Relinked files.nodes? library found found c) (hnodup : found.Nodup)
    (hneeds : ∀ name ∈ found, files.needs name ⊆ found) (hname : name ∈ found) :
    Exact h c.library name ↔ files.Settled found name := by
  have hfirst : ∀ path, (library path).isSome → path ∈ found := by
    intro path hsome
    by_contra hmem
    rw [hc.absent path hmem] at hsome
    exact absurd hsome (by simp)
  -- along the links, which lead to smaller files since there is no cycle
  induction name using h.wellFounded.induction with
  | _ name ih =>
    obtain ⟨xs, ys, hsplit⟩ := List.append_of_mem hname
    obtain ⟨nodes, stamp, hnodes, heq⟩ := hr.present xs name ys hsplit
    have hdom : ∀ path, (library.patched ys c.library path).isSome →
        (files.find? path).isSome := by
      intro path hsome
      have hmem : path ∈ found := by
        unfold Library.patched at hsome
        split at hsome
        · exact hsplit ▸ List.mem_append_right _ (List.mem_cons_of_mem _ ‹_›)
        · exact hfirst path hsome
      obtain ⟨s, -, hs⟩ := hr.source path hmem
      rw [← isSome_nodes?, hs]
      rfl
    -- it is as it should be if all that it was resolved against was so at that time
    rw [Files.exact_iff h hdom hnodes heq, settled_iff]
    refine forall₂_congr fun path hpath => ?_
    have hmem := hneeds name hname hpath
    have hne : path ≠ name := fun heq => h name (.single (heq ▸ hpath))
    have hlater : Exact h c.library path ↔ files.Settled found path := ih path hpath hmem
    rw [← hlater, ← hc.exact_iff h hnodup hneeds hmem]
    subst hsplit
    by_cases hys : path ∈ ys
    · -- what stands later was resolved again before
      have hlt := (idxOf_split hnodup).2 hys
      have hsame : library.patched ys c.library path = c.library path := if_pos hys
      rw [exact_congr h hsame]
      simp [hlt]
    · -- what stands before was still as the first round left it
      have hxs : path ∈ xs := by simpa [hne, hys] using hmem
      have hlt := (idxOf_split hnodup).1.mp hxs
      have hsame : library.patched ys c.library path = library path := if_neg hys
      rw [exact_congr h hsame]
      simp [Nat.lt_asymm hlt]

/-- What a walk leaves when nothing is in line any more. -/
theorem Surveyed.complete {names : List String} {c : Cache} {w : Walk}
    (hs : Surveyed files names c w) (hdone : w.next? = none) :
    (∀ name ∈ names, (files.find? name).isSome → name ∈ w.loaded) ∧
      ∀ name ∈ w.loaded, files.needs name ⊆ w.loaded := by
  -- the walk is at its end, so all that was queued is visited, and loaded where it exists
  have hloaded : ∀ path, path ∈ w.visited ∨ path ∈ w.queue → (files.find? path).isSome →
      path ∈ w.loaded := by
    intro path hin hthere
    have hvisited : path ∈ w.visited := hin.elim id (Walk.mem_visited_of_done hdone path)
    refine (hs.visited path hvisited).resolve_right fun hnone => ?_
    rw [hnone] at hthere
    exact absurd hthere (by simp)
  refine ⟨fun name hname => hloaded name (hs.reached name hname), fun name hname path hpath => ?_⟩
  obtain ⟨xs, ys, hsplit⟩ := List.append_of_mem hname
  obtain ⟨nodes, stamp, hnodes, heq⟩ := hs.captured.present xs name ys hsplit
  obtain ⟨hlinked, hthere⟩ := (mem_needs hnodes).mp hpath
  obtain ⟨text, -, rfl⟩ := Option.map_eq_some_iff.mp hnodes
  exact hloaded path (hs.closed name _ heq path
    (linkedPaths_subset_dependencies _ _ _ _ _ hlinked)) hthere

/-! ## What can be named -/

namespace Files

/-- Whatever the files that it inherits declare, be it through others, can be named from it. -/
def Sees (h : files.Acyclic) (name : String) (p : Program) : Prop :=
  ∀ path q m, Relation.TransGen (fun path name => path ∈ files.inherits name) path name →
    files.reference h path = some q → m ∈ q.topLevel → Visibility.inheritor.admits m = true →
    p.superIdentifiers m.name ≠ []

theorem Exact.sees {h : files.Acyclic} {p : Program} (hexact : Exact h library name)
    (hp : library name = some p) : Sees h name p := by
  intro path q m hchain hq hm hv
  have href : files.reference h name = some p.unstamped := by
    rw [← hexact, hp, Option.map_some]
  rw [← Program.superIdentifiers_unstamped]
  exact superIdentifiers_reference h href hchain hq hm hv

end Files

/-! ## A file that is found before one that it needs, and needed by one found later -/

namespace Files

/-- Files that can be listed so that each comes after those that it needs. -/
theorem acyclic_of_order (order : List String)
    (hall : ∀ name ∈ files.names, ∀ path ∈ files.needs name,
      order.idxOf path < order.idxOf name) : files.Acyclic := by
  have hneeds : ∀ {path name}, path ∈ files.needs name → order.idxOf path < order.idxOf name :=
    fun {path name} hpath => hall name (mem_names_of_isSome (isSome_of_needs hpath)) path hpath
  have hlt : ∀ {path name}, Relation.TransGen (fun path name => path ∈ files.needs name) path name →
      order.idxOf path < order.idxOf name := by
    intro path name hchain
    induction hchain with
    | single hpath => exact hneeds hpath
    | tail _ hpath ih => exact Nat.lt_trans ih (hneeds hpath)
  exact fun name hcycle => Nat.lt_irrefl _ (hlt hcycle)

theorem reference_of_needs_eq_nil (h : files.Acyclic) (hneeds : files.needs name = []) :
    files.reference h name = (files.nodes? name).map fun nodes =>
      (resolve (fun _ => none) 0 (some name) nodes).program.unstamped := by
  rw [reference]
  simp [hneeds]

/-- The first file inherits the second and the third, the third inherits the second as well,
and the second inherits the last. -/
def diamond : Files :=
  [("/a", "inherit \"/b\"; inherit \"/c\";"), ("/b", "inherit \"/d\";"),
    ("/c", "inherit \"/b\";"), ("/d", "int deep;")]

theorem acyclic_diamond : diamond.Acyclic :=
  acyclic_of_order ["/d", "/b", "/c", "/a"] (by decide +kernel)

end Files

/-! ## The files of a closure -/

open Activity in
/-- **A file of a closure gets the program that it should have if and only if it is settled**,
and then all that it inherits can be named from it. -/
theorem loadClosure_exact_iff (h : files.Acyclic) (names : List String) : ∃ c w calls,
    Cache.loadClosure .empty files.find? files.bytes names = alone c (.walked w) calls ∧
      (∀ name ∈ names, (files.find? name).isSome → name ∈ w.loaded) ∧
      ∀ name ∈ w.loaded, files.needs name ⊆ w.loaded ∧
        (Exact h c.library name ↔ files.Settled w.loaded name) ∧
        ∃ p, c.library name = some p ∧ (files.Settled w.loaded name → Sees h name p) := by
  obtain ⟨c₁, c, w, calls, hrun, hdone, hs, hr⟩ := loadClosure_spec files names
  obtain ⟨hnames, hneeds⟩ := hs.complete hdone
  refine ⟨c, w, calls, hrun, hnames, fun name hname => ?_⟩
  have hiff := hr.exact_iff h hs.captured hs.nodup hneeds hname
  obtain ⟨xs, ys, hsplit⟩ := List.append_of_mem hname
  obtain ⟨nodes, stamp, -, heq⟩ := hr.present xs name ys hsplit
  exact ⟨hneeds name hname, hiff, _, heq, fun hsettled => (hiff.mpr hsettled).sees heq⟩

open Activity in
/-- The second file is as it should be, for the last one is found after it. -/
theorem diamond_settles :
    diamond.Acyclic ∧ ∃ c w calls,
      Cache.loadClosure .empty diamond.find? diamond.bytes ["/a"] = alone c (.walked w) calls ∧
        w.loaded = ["/a", "/b", "/c", "/d"] ∧ Exact acyclic_diamond c.library "/b" := by
  refine ⟨acyclic_diamond, ?_⟩
  obtain ⟨c, w, calls, hrun, -, hall⟩ := loadClosure_exact_iff acyclic_diamond ["/a"]
  have hloaded : w.loaded = ["/a", "/b", "/c", "/d"] := by
    have hwalk : ((Cache.loadClosure .empty diamond.find? diamond.bytes ["/a"]).tasks[0]?.bind
        Task.walk?).map Walk.loaded = some ["/a", "/b", "/c", "/d"] := by decide +kernel
    rw [hrun] at hwalk
    exact Option.some.inj hwalk
  refine ⟨c, w, calls, hrun, hloaded, (hall "/b" (by simp [hloaded])).2.1.mpr ?_⟩
  have hb : diamond.needs "/b" = ["/d"] := by decide +kernel
  have hd : diamond.needs "/d" = [] := by decide +kernel
  rw [hloaded, settled_iff, hb]
  intro path hpath
  obtain rfl := List.mem_singleton.mp hpath
  refine ⟨fun _ => settled_iff.mpr (by simp [hd]), fun hnot => absurd ?_ hnot⟩
  decide

/-- The member of the last file cannot be named from the third one, which is not as it should
be: it still has the second file as that was before the last one was found. -/
theorem diamond_loses_deep :
    let c := (Cache.loadClosure .empty diamond.find? diamond.bytes ["/a"]).cache
    ¬Exact acyclic_diamond c.library "/c" ∧
      Relation.TransGen (fun path name => path ∈ diamond.inherits name) "/d" "/c" ∧
      ((c.library "/d").any fun p => p.topLevel.any (·.name == "deep")) ∧
      (c.library "/c").map (·.superIdentifiers "deep") = some [] := by
  intro c
  have hchain : Relation.TransGen (fun path name => path ∈ diamond.inherits name) "/d" "/c" :=
    .tail (.single (by decide +kernel : "/d" ∈ diamond.inherits "/b"))
      (by decide +kernel : "/b" ∈ diamond.inherits "/c")
  have hlost : (c.library "/c").map (·.superIdentifiers "deep") = some [] := by decide +kernel
  refine ⟨fun hexact => ?_, hchain, by decide +kernel, hlost⟩
  -- the last file has the member whatever else is there
  have hdeep : (diamond.reference acyclic_diamond "/d").any fun q => q.topLevel.any fun m =>
      m.name == "deep" && Visibility.inheritor.admits m := by
    rw [reference_of_needs_eq_nil acyclic_diamond (by decide +kernel)]
    decide +kernel
  obtain ⟨q, hq, hany⟩ := (Option.any_eq_true ..).mp hdeep
  obtain ⟨m, hm, hadmits⟩ := List.any_eq_true.mp hany
  obtain ⟨hname, hv⟩ := Bool.and_eq_true_iff.mp hadmits
  obtain ⟨p, hp, hnil⟩ := Option.map_eq_some_iff.mp hlost
  exact hexact.sees hp "/d" q m hchain hq hm hv (beq_iff_eq.mp hname ▸ hnil)

end MudEdit
