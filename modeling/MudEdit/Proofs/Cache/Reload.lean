import MudEdit.Proofs.Cache.Rest

/-!
# What is loaded into a cache at rest

A cache may hold programs when names are loaded. What is there already is not fetched again,
but all that is found on the way is resolved again in the end, last first. So of each file
there is a program then, which was resolved against those found after it as they are in the
end.
-/

namespace MudEdit

open Activity

variable {read : String → Option String} {c c' first : Cache} {name text : String}
  {names known : List String} {w w' : Walk} {calls : List String} {p : Program} {s : Source}

/-! ## What a program depends on -/

theorem Program.IsOf.mem_dependencies (h : p.IsOf name text) {path : String} :
    path ∈ p.dependencies ↔ path ∈ linkedPaths (Forest.parse .interpretation text).nodes := by
  obtain ⟨library, stamp, rfl⟩ := h
  constructor
  · exact fun hp => dependencies_subset_linkedPaths _ _ _ _ hp
  · exact fun hp => linkedPaths_subset_dependencies _ _ _ _ _ hp

theorem Source.IsOf.mem_dependencies (h : s.IsOf name text) {path : String} :
    path ∈ s.program.dependencies ↔ path ∈ linkedPaths s.nodes := by
  rw [h.nodes, h.program.mem_dependencies]

/-! ## The first round -/

/-- What texts on the way name is known to begin with. -/
structure Covers (read : String → Option String) (known : List String) (c : Cache) : Prop where
  sources : ∀ g s, c.source? g = some s → linkedPaths s.nodes ⊆ known
  texts : ∀ g text, read g = some text →
    linkedPaths (Forest.parse .interpretation text).nodes ⊆ known

/-- What holds between the visits of two names, if there was a cache first. -/
structure Explored (read : String → Option String) (known names : List String) (first c : Cache)
    (w : Walk) : Prop where
  rested : c.Rested
  covers : Covers read known c
  /-- What was there stays there. -/
  kept : ∀ g s, first.source? g = some s → c.source? g = some s ∧ c.library g = first.library g
  /-- What was not there is of the text that there is now. -/
  fetched : ∀ g s, c.source? g = some s → first.source? g = some s ∨
    ∃ text, read g = some text ∧ s.nodes = (Forest.parse .interpretation text).nodes
  within : ∀ g, g ∈ w.visited ∨ g ∈ w.queue → g ∈ known
  visited : ∀ g ∈ w.visited, g ∈ w.loaded ∨ (read g = none ∧ first.source? g = none)
  loaded : ∀ g ∈ w.loaded, g ∈ w.visited ∧ (c.source? g).isSome
  nodup : w.loaded.Nodup
  /-- What was to be loaded, and what loaded files depend on, was visited or is in line. -/
  reached : ∀ g ∈ names, g ∈ w.visited ∨ g ∈ w.queue
  closed : ∀ g ∈ w.loaded, ∀ s, c.source? g = some s →
    ∀ d ∈ linkedPaths s.nodes, d ∈ w.visited ∨ d ∈ w.queue

theorem explored_start (h : c.Rested) (hc : Covers read known c) (hnames : names ⊆ known) :
    Explored read known names c c (.start names) where
  rested := h
  covers := hc
  kept _ _ hs := ⟨hs, rfl⟩
  fetched _ _ hs := .inl hs
  within g hg := hnames (hg.resolve_left (by simp [Walk.start]))
  visited _ hg := absurd hg (by simp [Walk.start])
  loaded _ hg := absurd hg (by simp [Walk.start])
  nodup := List.nodup_nil
  reached _ hg := .inr hg
  closed _ hg := absurd hg (by simp [Walk.start])

/-- How many of the known names are not visited yet. -/
def Walk.ahead (known : List String) (w : Walk) : Nat :=
  (known.filter fun g => g ∉ w.visited).length

theorem Walk.ahead_lt (hname : name ∈ known) (hnew : name ∉ w.visited)
    (hvisited : w'.visited = name :: w.visited) : w'.ahead known < w.ahead known := by
  have hfilter : (known.filter fun g => g ∉ w'.visited) =
      (known.filter fun g => g ∉ w.visited).filter fun g => g ≠ name := by
    rw [List.filter_filter, hvisited]
    refine List.filter_congr fun g _ => ?_
    simp [not_or]
  rw [ahead, ahead, hfilter, List.length_filter_lt_length_iff_exists]
  exact ⟨name, by simp [hname, hnew], by simp⟩

/-- A walk goes on to names that were in line. -/
theorem Walk.mem_queue_of_next? (h : w.next? = some (name, w')) {g : String}
    (hg : g = name ∨ g ∈ w'.queue) : g ∈ w.queue := by
  obtain ⟨passed, rest, hqueue, -, -, rfl⟩ := of_next? h
  rw [hqueue]
  exact List.mem_append_right _ (List.mem_cons.mpr hg)

section Visit

variable (h : Explored read known names first c w) (hnext : w.next? = some (name, w'))
include h hnext

theorem Explored.within_next {g : String} (hg : g ∈ w'.visited ∨ g ∈ w'.queue) : g ∈ known := by
  refine h.within g ?_
  rcases hg with hg | hg
  · rw [(Walk.next?_some hnext).2.1] at hg
    rcases List.mem_cons.mp hg with hg | hg
    · exact .inr (Walk.mem_queue_of_next? hnext (.inl hg))
    · exact .inl hg
  · exact .inr (Walk.mem_queue_of_next? hnext (.inr hg))

/-- A visit that finds a program, be it in the cache or fetched. -/
theorem Explored.found (hrested : c'.Rested) (hs : c'.source? name = some s)
    (hp : c'.library name = some p) (hkept : ∀ g s, c.source? g = some s →
      c'.source? g = some s ∧ c'.library g = c.library g)
    (hfetched : ∀ g s, c'.source? g = some s → c.source? g = some s ∨
      ∃ text, read g = some text ∧ s.nodes = (Forest.parse .interpretation text).nodes) :
    Explored read known names first c' (w'.arrive name (some p)) := by
  obtain ⟨hnew, hvisited, hloaded, -⟩ := Walk.next?_some hnext
  obtain ⟨t, text, ht, htof, hpof⟩ := hrested.program hp
  obtain rfl := Option.some.inj (ht.symm.trans hs)
  have hdeps : ∀ {d : String}, d ∈ p.dependencies ↔ d ∈ linkedPaths t.nodes := by
    intro d
    rw [hpof.mem_dependencies, htof.nodes]
  have hcovers : Covers read known c' := by
    refine ⟨fun g s' hs' => ?_, h.covers.texts⟩
    rcases hfetched g s' hs' with hs' | ⟨text', hread, hnodes⟩
    · exact h.covers.sources g s' hs'
    · rw [hnodes]
      exact h.covers.texts g text' hread
  refine ⟨hrested, hcovers, fun g s' hs' => ?_, fun g s' hs' => ?_, fun g hg => ?_,
    fun g hg => ?_, fun g hg => ?_, ?_, fun g hg => Walk.kept_arrive hnext _ (h.reached g hg),
    fun g hg s' hs' d hd => ?_⟩
  · obtain ⟨hold, hlib⟩ := h.kept g s' hs'
    obtain ⟨hold', hlib'⟩ := hkept g s' hold
    exact ⟨hold', hlib'.trans hlib⟩
  · rcases hfetched g s' hs' with hs' | hs'
    · exact h.fetched g s' hs'
    · exact .inr hs'
  · rcases hg with hg | hg
    · exact h.within_next hnext (.inl hg)
    · rcases List.mem_append.mp hg with hg | hg
      · exact h.within_next hnext (.inr hg)
      · exact hcovers.sources name t ht (hdeps.mp (List.mem_filter.mp hg).1)
  · rcases List.mem_cons.mp (hvisited ▸ hg) with rfl | hg
    · exact .inl (List.mem_append_right _ (List.mem_singleton.mpr rfl))
    · exact (h.visited g hg).imp_left fun hg => List.mem_append_left _ (hloaded ▸ hg)
  · rcases List.mem_append.mp hg with hg | hg
    · obtain ⟨hg, hsome⟩ := h.loaded g (hloaded ▸ hg)
      obtain ⟨s', hs'⟩ := Option.isSome_iff_exists.mp hsome
      exact ⟨hvisited ▸ List.mem_cons_of_mem _ hg, by rw [(hkept g s' hs').1]; rfl⟩
    · obtain rfl := List.mem_singleton.mp hg
      exact ⟨hvisited ▸ List.mem_cons_self, by rw [ht]; rfl⟩
  · refine List.nodup_append.mpr ⟨hloaded ▸ h.nodup, by simp, ?_⟩
    rintro g hg b hb rfl
    exact hnew (List.mem_singleton.mp hb ▸ (h.loaded g (hloaded ▸ hg)).1)
  · rcases List.mem_append.mp hg with hg | hg
    · have hg : g ∈ w.loaded := hloaded ▸ hg
      obtain ⟨old, hold⟩ := Option.isSome_iff_exists.mp (h.loaded g hg).2
      obtain rfl := Option.some.inj ((hkept g old hold).1.symm.trans hs')
      exact Walk.kept_arrive hnext _ (h.closed g hg old hold d hd)
    · obtain rfl := List.mem_singleton.mp hg
      obtain rfl := Option.some.inj (ht.symm.trans hs')
      exact w'.linked_arrive _ (hdeps.mpr hd)

/-- A visit that finds nothing. -/
theorem Explored.lacked (hs : c.source? name = none) (hread : read name = none) :
    Explored read known names first (c.lacked name) (w'.arrive name none) := by
  obtain ⟨-, hvisited, hloaded, -⟩ := Walk.next?_some hnext
  have hsource : (c.lacked name).source? = c.source? := funext (h.rested.source?_lacked hs)
  have hlib : (c.lacked name).library = c.library := Cache.library_lacked ..
  refine ⟨h.rested.lacked hs, ⟨hsource ▸ h.covers.sources, h.covers.texts⟩, ?_, ?_,
    fun g hg => h.within_next hnext hg, fun g hg => ?_, fun g hg => ?_, hloaded ▸ h.nodup,
    fun g hg => Walk.kept_arrive hnext none (h.reached g hg), fun g hg s hs d hd => ?_⟩
  · rw [hsource, hlib]
    exact h.kept
  · rw [hsource]
    exact h.fetched
  · rcases List.mem_cons.mp (hvisited ▸ hg) with rfl | hg
    · refine .inr ⟨hread, ?_⟩
      rw [Option.eq_none_iff_forall_not_mem]
      exact fun s hs' => absurd (h.kept _ s hs').1 (by simp [hs])
    · exact (h.visited g hg).imp_left fun hg => hloaded ▸ hg
  · obtain ⟨hg, hsome⟩ := h.loaded g (hloaded ▸ hg)
    exact ⟨hvisited ▸ List.mem_cons_of_mem _ hg, hsource ▸ hsome⟩
  · exact Walk.kept_arrive hnext none (h.closed g (hloaded ▸ hg) s (hsource ▸ hs) d hd)

end Visit

/-! ### One visit after the other -/

/-- A name that is in the cache is found in one step. -/
theorem run_present (hs : c.source? name = some s) (hp : c.library name = some p) (fuel : Nat)
    (w : Walk) (calls : List String) :
    run (.store read) (fuel + 1) (alone c (.load name .start (some w)) calls) =
      run (.store read) fuel (alone c (.ofWalk (w.arrive name (some p))) calls) := by
  obtain ⟨id, hid, hplace⟩ := Option.bind_eq_some_iff.mp hs
  have hof : c.placeOf name = (id, c) := by rw [Cache.placeOf, hid]
  have hor : c.programOr name s = p := by
    show (c.library name).getD s.program = p
    rw [hp]
    rfl
  have hstep : (alone c (.load name .start (some w)) calls).step 0 =
      alone c (.afterLoad name (some p) (some w)) calls := by
    show (alone c (.load name .start (some w)) calls).enter 0 name (some w) = _
    have hcache : (alone c (.load name .start (some w)) calls).cache = c := rfl
    unfold enter
    simp only [hcache, hof, hplace]
    show (alone c (.load name .start (some w)) calls).continue_ 0
      (.afterLoad name (some (c.programOr name s)) (some w)) [] = _
    rw [continue_alone _ _ _ _ rfl, hor]
  rw [run_turn rfl, turn, hstep, serve_alone fun _ _ _ _ => afterLoad_ne_asking]
  rfl

/-- Each visit takes three steps at most. -/
theorem Explored.visit (h : Explored read known names first c w)
    (hnext : w.next? = some (name, w')) (calls : List String) : ∃ c' found k calls', k ≤ 3 ∧
      Explored read known names first c' (w'.arrive name found) ∧
      ∀ fuel, run (.store read) (fuel + k) (alone c (.ofWalk w) calls) =
        run (.store read) fuel (alone c' (.ofWalk (w'.arrive name found)) calls') := by
  have htask : Task.ofWalk w = .load name .start (some w') := by rw [Task.ofWalk, hnext]
  rw [htask]
  cases hs : c.source? name with
  | some s =>
    obtain ⟨p, hp, -⟩ := h.rested.backs.sourced name s hs
    refine ⟨c, some p, 1, calls, by omega, ?_, fun fuel => run_present hs hp fuel w' calls⟩
    exact h.found hnext h.rested hs hp (fun _ _ hg => ⟨hg, rfl⟩) fun _ _ hg => .inl hg
  | none =>
    have hvacant := h.rested.vacant hs
    cases hread : read name with
    | none =>
      refine ⟨c.lacked name, none, 2, calls ++ [name], by omega, h.lacked hnext hs hread, ?_⟩
      exact fun fuel => run_lacked h.rested.named hvacant hread
    | some text =>
      let found := (resolve c.library c.stamp (some name)
        (Forest.parse .interpretation text).nodes).program
      have hsource (g : String) : (c.fetched name text).source? g =
          if g = name then some ((c.asked name).sourceOf name text) else c.source? g :=
        h.rested.source?_fetched g
      have hlib (g : String) : (c.fetched name text).library g =
          if g = name then some found else c.library g := Cache.library_fetched g
      refine ⟨c.fetched name text, some found, 3, calls ++ [name], by omega, ?_,
        fun fuel => run_fetched h.rested.named hvacant hread⟩
      refine h.found hnext h.rested.fetched ((hsource name).trans (if_pos rfl))
        ((hlib name).trans (if_pos rfl)) (fun g s hg => ?_) fun g s hg => ?_
      · have hne : g ≠ name := by
          rintro rfl
          exact absurd hg (by simp [hs])
        rw [hsource, hlib, if_neg hne, if_neg hne]
        exact ⟨hg, rfl⟩
      · rw [hsource] at hg
        split at hg
        · subst g
          obtain rfl := Option.some.inj hg
          exact .inr ⟨text, hread, rfl⟩
        · exact .inl hg

/-- The first round comes to its end. -/
theorem Explored.run (h : Explored read known names first c w) (fuel : Nat)
    (hfuel : 3 * w.ahead known ≤ fuel) (calls : List String) : ∃ c' w' calls' fuel',
      Explored read known names first c' w' ∧ w'.next? = none ∧
      fuel ≤ fuel' + 3 * w.ahead known ∧
      Activity.run (.store read) fuel (alone c (.ofWalk w) calls) =
        Activity.run (.store read) fuel'
          (alone c' (.relinking w'.loaded.reverse w') calls') := by
  induction hk : w.ahead known using Nat.strongRecOn generalizing c w fuel calls with
  | ind k ih =>
    cases hnext : w.next? with
    | none =>
      refine ⟨c, w, calls, fuel, h, hnext, by omega, ?_⟩
      rw [Task.ofWalk, hnext]
    | some next =>
      obtain ⟨name, w₁⟩ := next
      obtain ⟨c₁, found, k₁, calls₁, hle, hvisit, hrun⟩ := h.visit hnext calls
      obtain ⟨hnew, hvisited, -⟩ := Walk.next?_some hnext
      have hname : name ∈ known := h.within name (.inr (Walk.mem_queue_of_next? hnext (.inl rfl)))
      have hvisited₁ : (w₁.arrive name found).visited = name :: w.visited := by
        cases found <;> exact hvisited
      have hlt := Walk.ahead_lt hname hnew hvisited₁
      obtain ⟨fuel, rfl⟩ : ∃ n, fuel = n + k₁ := ⟨fuel - k₁, by omega⟩
      obtain ⟨c', w', calls', fuel', hexplored, hdone, hle', heq⟩ :=
        ih _ (hk ▸ hlt) hvisit fuel (by omega) calls₁ rfl
      exact ⟨c', w', calls', fuel', hexplored, hdone, by omega, (hrun fuel).trans heq⟩

/-! ## The second round -/

theorem Explored.relinked (h : Explored read known names first c w) :
    Relinked (fun g => (c.source? g).map Source.nodes) c.library w.loaded [] c where
  named := h.rested.named
  source g hg := by
    obtain ⟨s, hs⟩ := Option.isSome_iff_exists.mp (h.loaded g hg).2
    exact ⟨s, hs, by rw [hs]; rfl⟩
  kept _ _ := rfl
  present _ _ _ hsplit := absurd hsplit (by simp)

/-- The cache after names were loaded, and the names that were found, in that order. -/
structure Reloaded (read : String → Option String) (names : List String) (first c : Cache)
    (found : List String) : Prop where
  rested : c.Rested
  kept : ∀ g s, first.source? g = some s → c.source? g = some s
  /-- What was not there is of the text that there is now. -/
  fetched : ∀ g s, c.source? g = some s → first.source? g = some s ∨
    ∃ text, read g = some text ∧ s.nodes = (Forest.parse .interpretation text).nodes
  sourced : ∀ g ∈ found, (c.source? g).isSome
  /-- What was to be loaded is found if it is there, and so is what is needed for it. -/
  reached : ∀ g ∈ names, (read g).isSome ∨ (first.source? g).isSome → g ∈ found
  closed : ∀ g ∈ found, ∀ s, c.source? g = some s → ∀ d ∈ linkedPaths s.nodes,
    (read d).isSome ∨ (first.source? d).isSome → d ∈ found
  /-- What was found is resolved against what was found later as that is in the end, and in any
  case against programs of the texts that were fetched. -/
  relinked : ∀ xs g ys, found = xs ++ g :: ys → ∃ s library stamp, c.source? g = some s ∧
    c.library g = some (resolve library stamp (some g) s.nodes).program ∧
    c.Backs library ∧ ∀ d ∈ ys, library d = c.library d

/-- What has programs of some files from one library and of the others from another has one for
each source, as both have. -/
theorem Cache.Backs.patched {library library' : Library} (h : c.Backs library)
    (h' : c.Backs library') (names : List String) :
    c.Backs (library.patched names library') := by
  refine ⟨fun d s hs => ?_, fun d hs => ?_⟩
  · unfold Library.patched
    split
    · exact h'.sourced d s hs
    · exact h.sourced d s hs
  · unfold Library.patched
    split
    · exact h'.absent d hs
    · exact h.absent d hs

/-- What a walk leaves when nothing is in line any more, and all was resolved again. -/
theorem Explored.reloaded {c₁ : Cache} (h : Explored read known names first c₁ w)
    (hdone : w.next? = none) (hcurrent : c.current = c₁.current) (hplaces : c.places = c₁.places)
    (hr : Relinked (fun g => (c₁.source? g).map Source.nodes) c₁.library w.loaded w.loaded c) :
    Reloaded read names first c w.loaded := by
  have hfound {g : String} (hg : g ∈ w.visited ∨ g ∈ w.queue)
      (hthere : (read g).isSome ∨ (first.source? g).isSome) : g ∈ w.loaded := by
    have hvisited := hg.elim id (Walk.mem_visited_of_done hdone g)
    refine (h.visited g hvisited).resolve_right fun hnone => ?_
    simp [hnone.1, hnone.2] at hthere
  have hlibrary : ∀ g ∉ w.loaded, c.library g = c₁.library g := hr.kept
  have hpresent {xs ys : List String} {g : String} (hsplit : w.loaded = xs ++ g :: ys) :
      ∃ s stamp, c₁.source? g = some s ∧ c.library g =
        some (resolve (c₁.library.patched ys c.library) stamp (some g) s.nodes).program := by
    obtain ⟨nodes, stamp, hnodes, heq⟩ := hr.present xs g ys hsplit
    obtain ⟨s, hs, rfl⟩ := Option.map_eq_some_iff.mp hnodes
    exact ⟨s, stamp, hs, heq⟩
  -- what was loaded is resolved again from its own constructs, and the rest is as it was
  have hbacks : c₁.Backs c.library := by
    refine ⟨fun g s hs => ?_, fun g hs => ?_⟩
    · by_cases hg : g ∈ w.loaded
      · obtain ⟨xs, ys, hsplit⟩ := List.append_of_mem hg
        obtain ⟨s', stamp, hs', heq⟩ := hpresent hsplit
        obtain rfl := Option.some.inj (hs.symm.trans hs')
        exact ⟨_, heq, _, stamp, rfl⟩
      · rw [hlibrary g hg]
        exact h.rested.backs.sourced g s hs
    · have hg : g ∉ w.loaded := fun hg => absurd (h.loaded g hg).2 (by simp [hs])
      rw [hlibrary g hg]
      exact h.rested.backs.absent g hs
  obtain ⟨hrested, hsource⟩ := h.rested.of_same hcurrent hplaces hbacks
  refine ⟨hrested, ?_, ?_, ?_, fun g hg => hfound (h.reached g hg), ?_, fun xs g ys hsplit => ?_⟩
  · rw [hsource]
    exact fun g s hs => (h.kept g s hs).1
  · rw [hsource]
    exact h.fetched
  · rw [hsource]
    exact fun g hg => (h.loaded g hg).2
  · rw [hsource]
    exact fun g hg s hs d hd => hfound (h.closed g hg s hs d hd)
  · obtain ⟨s, stamp, hs, heq⟩ := hpresent hsplit
    have hpatched := h.rested.backs.patched hbacks ys
    refine ⟨s, _, stamp, hsource ▸ hs, heq, ⟨?_, ?_⟩, fun d hd => if_pos hd⟩
    · rw [hsource]
      exact hpatched.sourced
    · rw [hsource]
      exact hpatched.absent

/-! ## Both rounds -/

/-- The names that a cache and some texts can bring up. -/
def Cache.knownNames (c : Cache) (texts names : List String) : List String :=
  names ++ c.places.toList.flatMap (fun p => (p.source.map (·.program.dependencies)).getD []) ++
    texts.flatMap fun text => (MudEdit.resolve (fun _ => none) 0 none
      (Forest.parse .interpretation text).nodes).program.dependencies

/-- All names that places or texts link to are known. -/
theorem Cache.Rested.covers {texts : List String} (h : c.Rested)
    (htexts : ∀ g text, read g = some text → text ∈ texts) :
    Covers read (c.knownNames texts names) c where
  sources g s hs := by
    obtain ⟨text, hof⟩ := h.sourced g s hs
    obtain ⟨id, hid, hplace⟩ := Option.bind_eq_some_iff.mp hs
    have hlt := h.named g id hid
    intro d hd
    refine List.mem_append_left _ (List.mem_append_right _ (List.mem_flatMap.mpr
      ⟨c.place id, ?_, ?_⟩))
    · simp [Cache.place, Array.getD, hlt]
    · rw [hplace]
      exact hof.mem_dependencies.mpr hd
  texts g text hread d hd := List.mem_append_right _ (List.mem_flatMap.mpr
    ⟨text, htexts g text hread, linkedPaths_subset_dependencies _ _ _ _ _ hd⟩)

/-- No more names are known than are given, linked at places or spelled in texts. -/
theorem Cache.length_knownNames (c : Cache) (texts names : List String) :
    (c.knownNames texts names).length ≤
      names.length + c.links + 2 * (texts.map String.utf8ByteSize).sum := by
  -- the links of the places, counted one by one
  have hplaces : (c.places.toList.flatMap fun p =>
      (p.source.map (·.program.dependencies)).getD []).length = c.links := by
    unfold links
    induction c.places.toList with
    | nil => rfl
    | cons p ps ih =>
      rw [List.flatMap_cons, List.length_append, ih, List.foldr_cons]
      cases p.source <;> rfl
  -- a text has at most two links for each of its bytes
  have htexts : (texts.flatMap fun text => (MudEdit.resolve (fun _ => none) 0 none
      (Forest.parse .interpretation text).nodes).program.dependencies).length ≤
        2 * (texts.map String.utf8ByteSize).sum := by
    induction texts with
    | nil => exact Nat.le_refl _
    | cons text texts ih =>
      have := length_dependencies_le (fun _ => none) 0 none .interpretation text
      rw [List.flatMap_cons, List.length_append, List.map_cons, List.sum_cons]
      omega
  rw [knownNames, List.length_append, List.length_append, hplaces]
  omega

/-- **Names are loaded into a cache at rest to the end**, and what is found on the way is
resolved again. -/
theorem Cache.Rested.reload (h : c.Rested) {texts : List String}
    (htexts : ∀ g text, read g = some text → text ∈ texts) (names : List String) :
    ∃ c' w calls, c.loadClosure read (texts.map String.utf8ByteSize).sum names =
        alone c' (.walked w) calls ∧ Reloaded read names c c' w.loaded := by
  let bytes := (texts.map String.utf8ByteSize).sum
  let known := c.knownNames texts names
  let n := (alone c (.ofWalk (.start names)) []).names bytes + 1
  have hfuel : 5 * (names.length + c.links + 2 * bytes) ≤ 8 * n * n := le_fuel c names bytes
  have hknown : known.length ≤ names.length + c.links + 2 * bytes :=
    c.length_knownNames texts names
  have hahead : (Walk.start names).ahead known ≤ known.length := List.length_filter_le ..
  have hnames : names ⊆ known := fun g hg => List.mem_append_left _ (List.mem_append_left _ hg)
  have hcovers : Covers read known c := h.covers htexts
  obtain ⟨c₁, w, calls, fuel, hexplored, hdone, hle, heq⟩ :=
    (explored_start h hcovers hnames).run (8 * n * n) (by omega) []
  have hloaded : w.loaded.length ≤ known.length := by
    refine (hexplored.nodup.subperm fun g hg => ?_).length_le
    exact hexplored.within g (.inl (hexplored.loaded g hg).1)
  obtain ⟨c', hrel, hcurrent, hplaces, hrun⟩ := hexplored.relinked.run w.loaded.reverse (by simp)
    hexplored.nodup read fuel (by rw [List.length_reverse]; omega) calls
  refine ⟨c', w, calls, ?_, hexplored.reloaded hdone hcurrent hplaces hrel⟩
  rw [Cache.loadClosure]
  exact heq.trans hrun

end MudEdit
