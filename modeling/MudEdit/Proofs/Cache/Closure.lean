import Mathlib.Algebra.BigOperators.Ring.List
import Mathlib.Algebra.Order.BigOperators.Group.List
import Mathlib.Algebra.Order.Ring.Nat
import Mathlib.Data.List.TakeWhile
import MudEdit.Proofs.Cache.Alone
import MudEdit.Proofs.Program.Dependencies

/-!
# What loading a closure leaves in the cache

A closure is loaded into an empty cache in two rounds. The first one visits the files, breadth
first, and resolves each of them against those that it visited before. The second one goes
back over them, last first, and resolves each of them against the files visited after it as
they are by then, and against those before it as the first round left them.

`Surveyed` says what holds between two visits, `Relinked` what holds between two files that
are resolved again. Each visit takes away from what is left to visit, so that the fuel of the
run is enough for both rounds.
-/

namespace MudEdit

/-- Texts by the names of files. -/
abbrev Files := Table String

/-- The library with no programs but those of some names. -/
def Library.only (library : Library) (names : List String) : Library :=
  fun name => if name ∈ names then library name else none

namespace Files

/-- The constructs of a file, if there is one of the name. -/
def nodes? (files : Files) (name : String) : Option (List Node) :=
  (files.find? name).map fun text => (Forest.parse .interpretation text).nodes

/-- The length of all texts. -/
def bytes (files : Files) : Nat := (files.map (·.2.utf8ByteSize)).sum

/-- How often files that are not visited yet can name others. -/
def namesLeft (files : Files) (visited : List String) : Nat :=
  (files.map fun e => if e.1 ∈ visited then 0 else 2 * e.2.utf8ByteSize).sum

theorem namesLeft_nil (files : Files) : files.namesLeft [] = 2 * files.bytes := by
  simp [namesLeft, bytes, List.sum_map_mul_left]

theorem namesLeft_le (files : Files) (visited : List String) (name : String) :
    files.namesLeft (name :: visited) ≤ files.namesLeft visited := by
  refine List.sum_le_sum fun e _ => ?_
  simp only [List.mem_cons]
  split <;> split <;> simp_all

/-- To visit a file takes away what it can name. -/
theorem namesLeft_visit {files : Files} {visited : List String} {name text : String}
    (hfind : files.find? name = some text) (hnew : name ∉ visited) :
    files.namesLeft (name :: visited) + 2 * text.utf8ByteSize ≤ files.namesLeft visited := by
  induction files with
  | nil => exact absurd hfind (by simp)
  | cons e files ih =>
    rw [Table.find?_cons] at hfind
    have hle := namesLeft_le files visited name
    simp only [namesLeft, List.map_cons, List.sum_cons] at ih hle ⊢
    -- the entry of the name itself gives its size back, any other stays as it is
    by_cases he : name = e.1
    · rw [if_pos he] at hfind
      obtain rfl := Option.some.inj hfind
      rw [if_pos (by simp [he]), if_neg (he ▸ hnew)]
      omega
    · rw [if_neg he] at hfind
      have := ih hfind
      simp only [List.mem_cons, Ne.symm he, false_or] at this hle ⊢
      omega

end Files

namespace Walk

variable {files : Files} {w w' : Walk} {name : String}

theorem mem_visited_of_done (h : w.next? = none) : ∀ g ∈ w.queue, g ∈ w.visited := by
  unfold next? at h
  split at h
  · rename_i hnil
    intro g hg
    simpa using List.dropWhile_eq_nil_iff.mp hnil g hg
  · exact absurd h (by simp)

/-- The next name is the first in line that was not visited. -/
theorem of_next? (h : w.next? = some (name, w')) : ∃ passed rest,
    w.queue = passed ++ name :: rest ∧ (∀ g ∈ passed, g ∈ w.visited) ∧ name ∉ w.visited ∧
      w' = { w with queue := rest, visited := name :: w.visited } := by
  unfold next? at h
  split at h
  · exact absurd h (by simp)
  · rename_i first rest hdrop
    obtain ⟨rfl, rfl⟩ := Prod.mk.inj (Option.some.inj h)
    have hsplit := List.takeWhile_append_dropWhile (p := w.visited.contains) (l := w.queue)
    have hhead := List.head_dropWhile_not w.visited.contains (l := w.queue) (by simp [hdrop])
    rw [hdrop] at hsplit
    refine ⟨_, rest, hsplit.symm, fun g hg => ?_, by simpa [hdrop] using hhead, rfl⟩
    simpa using List.mem_takeWhile_imp hg

theorem next?_some (h : w.next? = some (name, w')) : name ∉ w.visited ∧
    w'.visited = name :: w.visited ∧ w'.loaded = w.loaded ∧ w'.missing = w.missing ∧
    w'.queue.length < w.queue.length := by
  obtain ⟨passed, rest, hqueue, -, hnew, rfl⟩ := of_next? h
  refine ⟨hnew, rfl, rfl, rfl, ?_⟩
  show rest.length < w.queue.length
  rw [hqueue, List.length_append, List.length_cons]
  omega

/-- What was visited or in line still is so after the visit. -/
theorem kept_arrive (h : w.next? = some (name, w')) (found : Option Program) {g : String}
    (hg : g ∈ w.visited ∨ g ∈ w.queue) :
    g ∈ (w'.arrive name found).visited ∨ g ∈ (w'.arrive name found).queue := by
  obtain ⟨passed, rest, hqueue, hpassed, -, rfl⟩ := of_next? h
  have hkept : g ∈ name :: w.visited ∨ g ∈ rest := by
    rw [hqueue, List.mem_append, List.mem_cons] at hg
    rcases hg with hg | hg | rfl | hg
    · exact .inl (List.mem_cons_of_mem _ hg)
    · exact .inl (List.mem_cons_of_mem _ (hpassed g hg))
    · exact .inl List.mem_cons_self
    · exact .inr hg
  cases found with
  | none => exact hkept
  | some p => exact hkept.imp_right (List.mem_append_left _)

/-- What a file links to that was found was visited before, or is in line. -/
theorem linked_arrive (w : Walk) (name : String) {p : Program} {d : String}
    (hd : d ∈ p.dependencies) :
    d ∈ (w.arrive name (some p)).visited ∨ d ∈ (w.arrive name (some p)).queue := by
  by_cases hd' : d ∈ w.visited
  · exact .inl hd'
  · refine .inr (List.mem_append_right _ (List.mem_filter.mpr ⟨hd, ?_⟩))
    simpa using hd'

/-- How many visits can be left to make. -/
def left (files : Files) (w : Walk) : Nat := w.queue.length + files.namesLeft w.visited

/-- A visit leaves less to visit. -/
theorem left_lacked (files : Files) (hnext : w.next? = some (name, w')) :
    (w'.arrive name none).left files < w.left files := by
  obtain ⟨-, hvisited, -, -, hlt⟩ := next?_some hnext
  have hle := files.namesLeft_le w.visited name
  show w'.queue.length + files.namesLeft w'.visited < w.queue.length + _
  rw [hvisited]
  omega

theorem left_fetched (hnext : w.next? = some (name, w')) {text : String} {program : Program}
    (hread : files.find? name = some text)
    (hdep : program.dependencies.length ≤ 2 * text.utf8ByteSize) :
    (w'.arrive name (some program)).left files < w.left files := by
  obtain ⟨hnew, hvisited, -, -, hlt⟩ := next?_some hnext
  have hle := files.namesLeft_visit hread hnew
  have hfilter := List.length_filter_le (!w'.visited.contains ·) program.dependencies
  show (w'.queue ++ program.dependencies.filter _).length + files.namesLeft w'.visited <
    w.queue.length + _
  rw [hvisited, List.length_append]
  rw [hvisited] at hfilter
  omega

end Walk

/-! ## The first round -/

variable {files : Files} {names : List String} {c c' : Cache} {w w' : Walk} {name : String}
  {loaded : List String}

/-- Each file was resolved against those loaded before it. -/
structure Captured (files : Files) (loaded : List String) (library : Library) : Prop where
  absent : ∀ g ∉ loaded, library g = none
  present : ∀ xs g ys, loaded = xs ++ g :: ys → ∃ nodes stamp, files.nodes? g = some nodes ∧
    library g = some (resolve (library.only xs) stamp (some g) nodes).program

/-- What holds between the visits of two files. -/
structure Surveyed (files : Files) (names : List String) (c : Cache) (w : Walk) : Prop where
  named : c.Named
  /-- What was not visited has no place. -/
  fresh : ∀ g ∉ w.visited, c.current.find? g = none
  visited : ∀ g ∈ w.visited, g ∈ w.loaded ∨ files.find? g = none
  loaded : ∀ g ∈ w.loaded, g ∈ w.visited
  nodup : w.loaded.Nodup
  /-- What was loaded can be resolved again. -/
  source : ∀ g ∈ w.loaded, ∃ s, c.source? g = some s ∧ files.nodes? g = some s.nodes
  captured : Captured files w.loaded c.library
  /-- What was to be loaded, and what loaded files depend on, was visited or is in line. -/
  reached : ∀ g ∈ names, g ∈ w.visited ∨ g ∈ w.queue
  closed : ∀ g p, c.library g = some p → ∀ d ∈ p.dependencies, d ∈ w.visited ∨ d ∈ w.queue

theorem Captured.concat {library library' : Library} {nodes : List Node}
    (h : Captured files loaded library) (stamp : Nat) (hnew : name ∉ loaded)
    (hnodes : files.nodes? name = some nodes)
    (hlib : ∀ g, library' g = if g = name then
      some (resolve library stamp (some name) nodes).program else library g) :
    Captured files (loaded ++ [name]) library' := by
  have hold : ∀ g ∈ loaded, library' g = library g := fun g hg => by
    have hne : g ≠ name := fun heq => hnew (heq ▸ hg)
    rw [hlib, if_neg hne]
  refine ⟨fun g hg => ?_, fun xs g ys hsplit => ?_⟩
  · obtain ⟨hg, hne⟩ := not_or.mp (fun h => hg (List.mem_append.mpr (h.imp_right
      List.mem_singleton.mpr)))
    rw [hlib, if_neg hne, h.absent g hg]
  · have honly : ∀ {zs : List String}, (∀ z ∈ zs, z ∈ loaded) →
        library'.only zs = library.only zs := fun hzs => by
      funext d
      unfold Library.only
      split
      · exact hold d (hzs d ‹_›)
      · rfl
    rcases List.eq_nil_or_concat ys with rfl | ⟨ys, last, rfl⟩
    · -- the last one is new
      obtain ⟨rfl, hg⟩ := List.append_inj' hsplit rfl
      obtain rfl : name = g := by simpa using hg
      have hall : library.only loaded = library := by
        funext d
        unfold Library.only
        split
        · rfl
        · rw [h.absent d ‹_›]
      refine ⟨nodes, stamp, hnodes, ?_⟩
      rw [hlib, if_pos rfl, honly fun z hz => hz, hall]
    · rw [List.concat_eq_append, ← List.cons_append, ← List.append_assoc] at hsplit
      obtain ⟨rfl, -⟩ := List.append_inj' hsplit rfl
      obtain ⟨nodes', stamp', hnodes', heq⟩ := h.present xs g ys rfl
      refine ⟨nodes', stamp', hnodes', ?_⟩
      rw [hold g (by simp), honly fun z hz => by simp [hz], heq]

section Visit

variable (h : Surveyed files names c w) (hnext : w.next? = some (name, w'))
include h hnext

/-- A visit keeps what holds between visits, if there was no text. -/
theorem Surveyed.lacked (hread : files.find? name = none) :
    Surveyed files names (c.lacked name) (w'.arrive name none) := by
  obtain ⟨hnew, hvisited, hloaded, -⟩ := Walk.next?_some hnext
  have hname := h.fresh name hnew
  constructor
  case named => exact Cache.named_lacked h.named
  case fresh =>
    intro g hg
    obtain ⟨hne, hg⟩ := not_or.mp (List.mem_cons.not.mp (hvisited ▸ hg))
    rw [Cache.current_lacked hname, if_neg hne, h.fresh g hg]
  case visited =>
    intro g hg
    rcases List.mem_cons.mp (hvisited ▸ hg) with rfl | hg
    · exact .inr hread
    · exact (h.visited g hg).imp_left fun hg => hloaded ▸ hg
  case loaded => exact fun g hg => hvisited ▸ List.mem_cons_of_mem _ (h.loaded g (hloaded ▸ hg))
  case nodup => exact hloaded ▸ h.nodup
  case source =>
    intro g hg
    have hg : g ∈ w.loaded := hloaded ▸ hg
    rw [Cache.source?_lacked h.named hname fun heq => hnew (heq ▸ h.loaded g hg)]
    exact h.source g hg
  case captured =>
    rw [Cache.library_lacked]
    exact hloaded ▸ h.captured
  -- a file that could not be read opens no way to another
  case reached => exact fun g hg => Walk.kept_arrive hnext none (h.reached g hg)
  case closed =>
    rw [Cache.library_lacked]
    exact fun g p hp d hd => Walk.kept_arrive hnext none (h.closed g p hp d hd)

/-- A visit keeps what holds between visits, if a text was fetched. -/
theorem Surveyed.fetched {text : String} {program : Program}
    (hread : files.find? name = some text)
    (hprogram : program = (resolve c.library c.stamp (some name)
      (Forest.parse .interpretation text).nodes).program) :
    Surveyed files names (c.fetched name text) (w'.arrive name (some program)) := by
  obtain ⟨hnew, hvisited, hloaded, -⟩ := Walk.next?_some hnext
  have hname := h.fresh name hnew
  have hnotin : name ∉ w.loaded := fun hmem => hnew (h.loaded name hmem)
  have hnodes : files.nodes? name = some (Forest.parse .interpretation text).nodes := by
    rw [Files.nodes?, hread]
    rfl
  -- the file gets its tree, and every other keeps what it had
  have hlib : ∀ g, (c.fetched name text).library g =
      if g = name then some program else c.library g := fun g => by
    rw [Cache.library_fetched, hprogram]
  constructor
  case named => exact Cache.named_fetched h.named
  case fresh =>
    intro g hg
    obtain ⟨hne, hg⟩ := not_or.mp (List.mem_cons.not.mp (hvisited ▸ hg))
    rw [Cache.current_fetched hname, if_neg hne, h.fresh g hg]
  case visited =>
    intro g hg
    rcases List.mem_cons.mp (hvisited ▸ hg) with rfl | hg
    · exact .inl (List.mem_append_right _ (List.mem_singleton.mpr rfl))
    · exact (h.visited g hg).imp_left fun hg => List.mem_append_left _ (hloaded ▸ hg)
  case loaded =>
    intro g hg
    rcases List.mem_append.mp hg with hg | hg
    · exact hvisited ▸ List.mem_cons_of_mem _ (h.loaded g (hloaded ▸ hg))
    · exact hvisited ▸ List.mem_cons.mpr (.inl (List.mem_singleton.mp hg))
  case nodup =>
    refine List.nodup_append.mpr ⟨hloaded ▸ h.nodup, by simp, ?_⟩
    rintro g hg b hb rfl
    exact hnotin (List.mem_singleton.mp hb ▸ hloaded ▸ hg)
  case source =>
    intro g hg
    rw [Cache.source?_fetched h.named hname]
    rcases List.mem_append.mp hg with hg | hg
    · have hg : g ∈ w.loaded := hloaded ▸ hg
      have hne : g ≠ name := fun heq => hnotin (heq ▸ hg)
      rw [if_neg hne]
      exact h.source g hg
    · obtain rfl := List.mem_singleton.mp hg
      rw [if_pos rfl]
      exact ⟨_, rfl, hnodes⟩
  -- the new tree was resolved against the trees of the files loaded before it
  case captured =>
    refine (hloaded ▸ h.captured : Captured files w'.loaded c.library).concat c.stamp
      (hloaded ▸ hnotin) hnodes fun g => ?_
    rw [hlib, hprogram]
  case reached => exact fun g hg => Walk.kept_arrive hnext _ (h.reached g hg)
  case closed =>
    intro g p hp d hd
    rw [hlib] at hp
    split at hp
    · obtain rfl := Option.some.inj hp
      exact w'.linked_arrive name hd
    · exact Walk.kept_arrive hnext _ (h.closed g p hp d hd)

end Visit

theorem surveyed_start (files : Files) (names : List String) :
    Surveyed files names .empty (.start names) where
  named _ _ h := absurd h (by simp [Cache.empty])
  fresh _ _ := rfl
  visited _ h := absurd h (by simp [Walk.start])
  loaded _ h := absurd h (by simp [Walk.start])
  nodup := List.nodup_nil
  source _ h := absurd h (by simp [Walk.start])
  captured := ⟨fun _ _ => rfl, fun _ _ _ h => absurd h (by simp [Walk.start])⟩
  reached _ h := .inr h
  closed _ _ h := absurd h (by simp [Cache.library, Cache.program?, Cache.empty])

/-- What a visit keeps of a walk and the names that were asked for, whatever the cache is. -/
structure Kept (files : Files) (P : Walk → List String → Prop) : Prop where
  lacked : ∀ {w w' name calls}, w.next? = some (name, w') → files.find? name = none →
    P w calls → P (w'.arrive name none) (calls ++ [name])
  fetched : ∀ {w w' name calls text} (library : Library) (stamp : Nat),
    w.next? = some (name, w') → files.find? name = some text → P w calls →
    P (w'.arrive name (some (resolve library stamp (some name)
      (Forest.parse .interpretation text).nodes).program)) (calls ++ [name])

open Activity in
/-- The first round comes to its end, with three steps for each visit at most. -/
theorem Surveyed.run {P : Walk → List String → Prop} (hkept : Kept files P)
    (h : Surveyed files names c w) (fuel : Nat) (hfuel : 3 * w.left files ≤ fuel)
    {calls : List String} (hP : P w calls) : ∃ c' w' calls' fuel', Surveyed files names c' w' ∧
      P w' calls' ∧ w'.next? = none ∧
      w'.loaded.length ≤ w.loaded.length + w.left files ∧ fuel ≤ fuel' + 3 * w.left files ∧
      Activity.run (.store files.find?) fuel (alone c (.ofWalk w) calls) =
        Activity.run (.store files.find?) fuel'
          (alone c' (.relinking w'.loaded.reverse w') calls') := by
  -- by the visits that are left at most
  induction hk : w.left files using Nat.strongRecOn generalizing c w fuel calls with
  | ind k ih =>
    cases hnext : w.next? with
    | none =>
      refine ⟨c, w, calls, fuel, h, hP, hnext, by omega, by omega, ?_⟩
      rw [Task.ofWalk, hnext]
    | some next =>
      obtain ⟨name, w₁⟩ := next
      have htask : Task.ofWalk w = .load name .start (some w₁) := by rw [Task.ofWalk, hnext]
      have hloaded := (Walk.next?_some hnext).2.2.1
      have hname := h.fresh name (Walk.next?_some hnext).1
      cases hread : files.find? name with
      | none =>
        -- to ask for a text and to find that there is none are two steps
        have hlt := Walk.left_lacked files hnext
        obtain ⟨fuel, rfl⟩ : ∃ n, fuel = n + 2 := ⟨fuel - 2, by omega⟩
        obtain ⟨c', w', calls', fuel', hs, hP', hdone, hlen, hle, heq⟩ := ih _ (hk ▸ hlt)
          (h.lacked hnext hread) fuel (by omega) (hkept.lacked hnext hread hP) rfl
        refine ⟨c', w', calls', fuel', hs, hP', hdone, ?_, by omega, ?_⟩
        · have : (w₁.arrive name none).loaded = w.loaded := hloaded
          rw [this] at hlen
          omega
        · rw [htask, run_lacked h.named (Cache.vacant_of_new hname) hread, ← heq]
          rfl
      | some text =>
        -- to ask, to fill the place and to publish are three
        have hdep := length_dependencies_le c.library c.stamp (some name) .interpretation text
        have hlt := Walk.left_fetched hnext hread hdep
        obtain ⟨fuel, rfl⟩ : ∃ n, fuel = n + 3 := ⟨fuel - 3, by omega⟩
        obtain ⟨c', w', calls', fuel', hs, hP', hdone, hlen, hle, heq⟩ := ih _ (hk ▸ hlt)
          (h.fetched hnext hread rfl) fuel (by omega)
          (hkept.fetched c.library c.stamp hnext hread hP) rfl
        refine ⟨c', w', calls', fuel', hs, hP', hdone, ?_, by omega, ?_⟩
        · have : ∀ p, (w₁.arrive name (some p)).loaded = w.loaded ++ [name] := fun _ => by
            rw [← hloaded]
            rfl
          rw [this, List.length_append, List.length_singleton] at hlen
          omega
        · rw [htask, run_fetched h.named (Cache.vacant_of_new hname) hread, ← heq]
          rfl

/-! ## The second round -/

/-- The library with the programs of some names replaced by those of another one. -/
def Library.patched (library : Library) (names : List String) (patch : Library) : Library :=
  fun name => if name ∈ names then patch name else library name

/-- Of the files that were loaded, some were resolved again: each against those after it as they
are now and those before it as they were at `first`. -/
structure Relinked (nodes? : String → Option (List Node)) (first : Library)
    (loaded done : List String) (c : Cache) : Prop where
  named : c.Named
  source : ∀ g ∈ loaded, ∃ s, c.source? g = some s ∧ nodes? g = some s.nodes
  kept : ∀ g ∉ done, c.library g = first g
  present : ∀ xs g ys, done = xs ++ g :: ys → ∃ nodes stamp, nodes? g = some nodes ∧
    c.library g = some (resolve (first.patched ys c.library) stamp (some g) nodes).program

variable {nodes? : String → Option (List Node)} {first : Library} {done : List String}

theorem Surveyed.relinked (h : Surveyed files names c w) :
    Relinked files.nodes? c.library w.loaded [] c :=
  ⟨h.named, h.source, fun _ _ => rfl, fun _ _ _ hsplit => absurd hsplit (by simp)⟩

/-- To resolve the next file again keeps what holds in the second round. -/
theorem Relinked.step {place : Nat} {source : Source} (h : Relinked nodes? first loaded done c)
    (hnew : name ∉ done) (hcur : c.current.find? name = some place)
    (hnodes : nodes? name = some source.nodes) :
    Relinked nodes? first loaded (name :: done) (c.relinked name place source) := by
  have hlib := fun g => Cache.library_relinked source hcur g
  have hold : ∀ g, g ∈ done → (c.relinked name place source).library g = c.library g := by
    intro g hg
    have hne : g ≠ name := fun heq => hnew (heq ▸ hg)
    rw [hlib, if_neg hne]
  have hpatch : ∀ {zs : List String}, (∀ z ∈ zs, z ∈ done) →
      first.patched zs (c.relinked name place source).library = first.patched zs c.library := by
    intro zs hzs
    funext d
    unfold Library.patched
    split
    · exact hold d (hzs d ‹_›)
    · rfl
  refine ⟨Cache.named_relinked h.named, fun g hg => ?_, fun g hg => ?_, fun xs g ys hsplit => ?_⟩
  · rw [Cache.source?_relinked]
    exact h.source g hg
  · obtain ⟨hne, hg⟩ := not_or.mp (List.mem_cons.not.mp hg)
    rw [hlib, if_neg hne, h.kept g hg]
  · cases xs with
    | nil =>
      obtain ⟨rfl, rfl⟩ := List.cons.inj hsplit
      -- all that is in the library is done, or as it was
      have hall : first.patched done c.library = c.library := by
        funext d
        unfold Library.patched
        split
        · rfl
        · exact (h.kept d ‹_›).symm
      refine ⟨source.nodes, c.stamp, hnodes, ?_⟩
      rw [hlib, if_pos rfl, hpatch fun z hz => hz, hall]
    | cons x xs =>
      obtain ⟨rfl, rfl⟩ := List.cons.inj hsplit
      obtain ⟨nodes, stamp, hnodes', heq⟩ := h.present xs g ys rfl
      refine ⟨nodes, stamp, hnodes', ?_⟩
      rw [hold g (by simp), hpatch fun z hz => by simp [hz], heq]

open Activity in
/-- The second round comes to its end, with two steps for each file, and fetches nothing. -/
theorem Relinked.run (h : Relinked nodes? first loaded done c) (rest : List String)
    (hloaded : loaded = rest.reverse ++ done) (hnodup : loaded.Nodup)
    (read : String → Option String) (fuel : Nat) (hfuel : 2 * rest.length ≤ fuel)
    (calls : List String) :
    ∃ c', Relinked nodes? first loaded loaded c' ∧ c'.current = c.current ∧ c'.places = c.places ∧
      Activity.run (.store read) fuel (alone c (.relinking rest w) calls) =
        alone c' (.walked w) calls := by
  induction rest generalizing c done fuel with
  | nil =>
    obtain rfl : loaded = done := by simpa using hloaded
    exact ⟨c, h, rfl, rfl, run_idle rfl⟩
  | cons name rest ih =>
    obtain ⟨fuel, rfl⟩ : ∃ n, fuel = n + 2 := ⟨fuel - 2, by simp at hfuel; omega⟩
    rw [List.reverse_cons, List.append_assoc, List.singleton_append] at hloaded
    have hnew : name ∉ done := by
      rw [hloaded] at hnodup
      exact (List.nodup_cons.mp (List.nodup_append.mp hnodup).2.1).1
    obtain ⟨source, hsource, hnodes⟩ := h.source name (by simp [hloaded])
    -- one file is resolved again, then the rest in the order they were found backwards
    obtain ⟨place, hcur, hrun⟩ := run_relinked read fuel calls rest w hsource
    obtain ⟨c', hrel, hcurrent, hplaces, heq⟩ :=
      ih (h.step hnew hcur hnodes) hloaded fuel (by simp at hfuel; omega)
    refine ⟨c', hrel, hcurrent.trans ?_, hplaces.trans ?_, hrun.trans heq⟩
    · exact Cache.current_publish ..
    · exact Cache.places_publish ..

/-! ## Both rounds -/

open Activity in
theorem spawn_closure (names : List String) : (idle .empty).spawn (.closure names) =
    alone .empty (.ofWalk (.start names)) [] := rfl

open Activity in
/-- The fuel of the run is enough for both rounds. -/
theorem le_fuel (c : Cache) (names : List String) (bytes : Nat) :
    let n := (alone c (.ofWalk (.start names)) []).names bytes + 1
    5 * (names.length + c.links + 2 * bytes) ≤ 8 * n * n := by
  intro n
  have hn : names.length + c.links + bytes + 1 ≤ n ∧ 2 ≤ n := by
    cases names with
    | nil =>
      have htask : Task.ofWalk (.start []) = .walked ⟨[], [], [], []⟩ := rfl
      simp only [n, Activity.names, alone, htask, Task.walk?]
      exact ⟨by simp, by simp; omega⟩
    | cons name rest =>
      have htask : Task.ofWalk (.start (name :: rest)) =
          .load name .start (some ⟨rest, [name], [], []⟩) := rfl
      simp only [n, Activity.names, alone, htask, Task.walk?, List.size_toArray, List.length_cons,
        List.length_nil, List.foldr_cons, List.foldr_nil, Option.map_some, Option.getD_some]
      exact ⟨by omega, by omega⟩
  -- the fuel is quadratic in `n`, and what is needed linear
  calc 5 * (names.length + c.links + 2 * bytes) ≤ 8 * n * 2 := by omega
    _ ≤ 8 * n * n := Nat.mul_le_mul_left _ hn.2

open Activity in
/-- **The loading of a closure ends**, what its visits keep holds then, and it leaves each file
resolved against those loaded after it as they are at the end, and those before it as they were
when they were visited. -/
theorem loadClosure_kept {P : Walk → List String → Prop} (hkept : Kept files P)
    (names : List String) (hP : P (.start names) []) : ∃ c₁ c w calls,
    Cache.loadClosure .empty files.find? files.bytes names = alone c (.walked w) calls ∧
      P w calls ∧ w.next? = none ∧ Surveyed files names c₁ w ∧
      Relinked files.nodes? c₁.library w.loaded w.loaded c := by
  let n := (alone .empty (.ofWalk (.start names)) []).names files.bytes + 1
  have hfuel : 5 * (names.length + 0 + 2 * files.bytes) ≤ 8 * n * n :=
    le_fuel .empty names files.bytes
  have hleft : (Walk.start names).left files = names.length + 2 * files.bytes := by
    rw [← files.namesLeft_nil]
    rfl
  -- first all that is linked to is found, then all of it is resolved again
  obtain ⟨c₁, w, calls, fuel, hs, hP, hdone, hlen, hle, heq⟩ :=
    (surveyed_start files names).run hkept (8 * n * n) (by omega) hP
  have hlen : w.loaded.length ≤ names.length + 2 * files.bytes := by
    rw [← hleft]
    simpa [Walk.start] using hlen
  obtain ⟨c, hrel, -, -, hrun⟩ := hs.relinked.run w.loaded.reverse (by simp) hs.nodup files.find?
    fuel (by rw [List.length_reverse]; omega) calls
  refine ⟨c₁, c, w, calls, ?_, hP, hdone, hs, hrel⟩
  rw [Cache.loadClosure, spawn_closure, settle]
  exact heq.trans hrun

open Activity in
theorem loadClosure_spec (files : Files) (names : List String) : ∃ c₁ c w calls,
    Cache.loadClosure .empty files.find? files.bytes names = alone c (.walked w) calls ∧
      w.next? = none ∧ Surveyed files names c₁ w ∧
      Relinked files.nodes? c₁.library w.loaded w.loaded c := by
  obtain ⟨c₁, c, w, calls, hrun, -, hspec⟩ := loadClosure_kept (P := fun _ _ => True)
    ⟨fun _ _ _ => trivial, fun _ _ _ _ _ => trivial⟩ names trivial
  exact ⟨c₁, c, w, calls, hrun, hspec⟩

end MudEdit
