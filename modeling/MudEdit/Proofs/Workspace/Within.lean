import MudEdit.Workspace
import MudEdit.Proofs.Path.Place

/-!
# Candidates stay in the directories of the layout

The files that a name may stand for are where the name leads from a directory of the layout.
A name is taken as it is written, so it is up to the name alone whether it leads out of
these directories: it does not, in any workspace, exactly if the name never leads above
where it starts (`candidates_enclosed_iff`). This is about names with at most one slash at
their start, after which they are relative paths.
-/

namespace MudEdit

open MudEdit.Path

namespace Layout

variable {l : Layout} {name path : String}

/-- A path is in one of the directories that files are looked for in. -/
def Encloses (l : Layout) (path : String) : Prop :=
  ∃ directory ∈ l.includePaths ++ l.root.toList, (place directory).Below (place path)

instance (l : Layout) (path : String) : Decidable (l.Encloses path) :=
  inferInstanceAs (Decidable (∃ directory ∈ _, _))

/-- A name without the slash that it starts with, if it starts with one. -/
def fromRoot (name : String) : String :=
  match name.toList with
  | '/' :: rest => String.ofList rest
  | _ => name

/-- A name without two slashes at its head is a relative path behind the root. -/
theorem isAbsolute_fromRoot (h : ¬ "//".toList <+: name.toList) :
    isAbsolute (fromRoot name) = false := by
  unfold fromRoot
  split
  · rename_i rest hname
    cases rest with
    | nil => rfl
    | cons c rest =>
      have hc : c ≠ '/' := fun hc => h (by simp [hname, hc])
      simp [isAbsolute, hc]
  · rename_i hname
    cases hcs : name.toList with
    | nil => simp [isAbsolute, hcs]
    | cons c cs =>
      have hc : c ≠ '/' := fun hc => hname cs (hc ▸ hcs)
      simp [isAbsolute, hcs, hc]

/-- A name is looked for in the root, or in all directories if it starts with no slash. -/
theorem candidates_cases (l : Layout) (name : String) :
    l.candidates name = l.rootedCandidates (fromRoot name) ∨
      fromRoot name = name ∧
        l.candidates name = (l.includePaths ++ l.root.toList).map fun d => join d name := by
  cases hcs : name.toList with
  | nil => exact .inr (by simp [fromRoot, candidates, hcs])
  | cons c cs =>
    by_cases hc : c = '/'
    · exact .inl (by simp [fromRoot, candidates, hcs, hc])
    · exact .inr (by simp [fromRoot, candidates, hcs, hc])

/-- Every candidate is the name, perhaps with the suffix of a program, taken from one of the
directories. -/
theorem mem_candidates (h : path ∈ l.candidates name) :
    ∃ directory ∈ l.includePaths ++ l.root.toList,
      path = join directory (fromRoot name) ∨ path = join directory (fromRoot name ++ ".c") := by
  rcases l.candidates_cases name with hrooted | ⟨hname, hall⟩
  · rw [hrooted, rootedCandidates] at h
    split at h
    · cases h
    · rename_i root hroot
      refine ⟨root, by simp [hroot], ?_⟩
      split_ifs at h
      · simpa using h
      · exact .inl (List.mem_singleton.mp h)
  · rw [hall] at h
    obtain ⟨directory, hdirectory, rfl⟩ := List.mem_map.mp h
    exact ⟨directory, hdirectory, .inl (by rw [hname])⟩

/-- Every name is looked for in the root. -/
theorem join_mem_candidates {root : String} (hroot : l.root = some root) :
    join root (fromRoot name) ∈ l.candidates name := by
  rcases l.candidates_cases name with hrooted | ⟨hname, hall⟩
  · rw [hrooted, rootedCandidates, hroot]
    dsimp only
    split_ifs
    · exact List.mem_cons_self
    · exact List.mem_singleton_self _
  · rw [hall, hname]
    exact List.mem_map.mpr ⟨root, by simp [hroot], rfl⟩

/-! ## Names that stay -/

/-- With the suffix of a program the last segment is a name, which leads no further up. -/
theorem place_suffix (hrelative : isAbsolute path = false) (h : (place path).ups = 0) :
    isAbsolute (path ++ ".c") = false ∧ (place (path ++ ".c")).ups = 0 := by
  have hsuffixed : isAbsolute (path ++ ".c") = false := by
    cases hcs : path.toList with
    | nil => simp [isAbsolute, hcs]
    | cons c cs => simpa [isAbsolute, hcs] using hrelative
  refine ⟨hsuffixed, ?_⟩
  -- only the last segment changes, and with the suffix it is not `..`
  have hslash : '/' ∉ ".c".toList := by simp
  obtain ⟨above, last, hpath, happend⟩ := segments_append path hslash
  rw [place, hpath, Place.walk_append, hrelative] at h
  rw [place, happend, Place.walk_append, hsuffixed]
  generalize Place.walk ⟨false, 0, []⟩ above = p at h ⊢
  have hp : p.ups = 0 := Nat.eq_zero_of_le_zero (Nat.le_trans Place.ups_le_walk (Nat.le_of_eq h))
  rcases p.step_cases (last ++ ".c") with ⟨names, hstep, -⟩ | ⟨hdots, -⟩
  · rw [Place.walk_cons, Place.walk_nil, hstep, hp]
  · have hlast := congrArg (fun s => s.toList.getLast?) hdots
    simp at hlast

theorem encloses_join {directory : String} (hmem : directory ∈ l.includePaths ++ l.root.toList)
    (hrelative : isAbsolute path = false) (h : (place path).ups = 0) :
    l.Encloses (join directory path) := by
  refine ⟨directory, hmem, ?_⟩
  rw [place, hrelative] at h
  have hbelow := Place.walk_under (place directory) rfl h
  rw [place_join hrelative]
  exact hbelow ▸ Place.below_under

/-- A name that never leads above its start stays in the directories. -/
theorem encloses_candidates (hrelative : isAbsolute (fromRoot name) = false)
    (h : (place (fromRoot name)).ups = 0) (hpath : path ∈ l.candidates name) :
    l.Encloses path := by
  obtain ⟨directory, hmem, rfl | rfl⟩ := mem_candidates hpath
  · exact encloses_join hmem hrelative h
  · obtain ⟨hrelative, h⟩ := place_suffix hrelative h
    exact encloses_join hmem hrelative h

/-! ## Names that leave -/

/-- In the root of a workspace that a name does not know, it leaves the root if it leads
above its start. -/
theorem exists_escape (hrelative : isAbsolute (fromRoot name) = false)
    (h : (place (fromRoot name)).ups ≠ 0) :
    ∃ root, ∃ path ∈ (ofSettings (some root) .default).candidates name,
      ¬ (ofSettings (some root) .default).Encloses path := by
  -- a root of a name the path does not hold: going up leaves it for good
  obtain ⟨fresh, hplain, hfresh⟩ := IsPlain.exists_fresh (segments (fromRoot name))
  have hroot : place ("/" ++ fresh) = ⟨true, 0, [fresh]⟩ := by
    have hsegments : segments ("/" ++ fresh) = ["", fresh] := by
      have := segments_append_slash "" fresh
      rwa [segments_eq_singleton hplain.slash, @segments_eq_singleton "" (by simp)] at this
    simp [place, hsegments, isAbsolute, Place.step, hplain.text, hplain.dot, hplain.dots]
  refine ⟨"/" ++ fresh, _, join_mem_candidates rfl, ?_⟩
  rintro ⟨directory, hmem, -, -, hsuffix⟩
  obtain rfl : directory = "/" ++ fresh := by simpa [ofSettings, Settings.default] using hmem
  rw [place, hrelative] at h
  have hleft := Place.notMem_walk_of_ups rfl h hfresh
  rw [place_join hrelative, hroot] at hsuffix
  exact hleft (hsuffix.subset List.mem_cons_self)

/-- **A name stays in the directories of every workspace** exactly if it never leads above
where it starts. -/
theorem candidates_enclosed_iff (hname : ¬ "//".toList <+: name.toList) :
    (∀ (root : Option String) (s : Settings), ∀ path ∈ (ofSettings root s).candidates name,
      (ofSettings root s).Encloses path) ↔ (place (fromRoot name)).ups = 0 := by
  have hrelative := isAbsolute_fromRoot hname
  constructor
  · intro hall
    by_contra h
    obtain ⟨root, path, hpath, hout⟩ := exists_escape hrelative h
    exact hout (hall (some root) .default path hpath)
  · intro h root s path hpath
    exact encloses_candidates hrelative h hpath

/-- A name may go up as far as it went down. -/
theorem candidates_enclosed_room :
    ¬ "//".toList <+: "/std/../room".toList ∧ (place (fromRoot "/std/../room")).ups = 0 ∧
      ∀ (root : Option String) (s : Settings),
        ∀ path ∈ (ofSettings root s).candidates "/std/../room", (ofSettings root s).Encloses path := by
  have hname : ¬ "//".toList <+: "/std/../room".toList := by decide
  have hplace : (place (fromRoot "/std/../room")).ups = 0 := by decide
  exact ⟨hname, hplace, (candidates_enclosed_iff hname).mpr hplace⟩

/-- A name that starts with `..` is looked for next to the root. -/
theorem candidates_escape :
    ∃ path ∈ (ofSettings (some "/mud") .default).candidates "../etc/passwd",
      ¬ (ofSettings (some "/mud") .default).Encloses path :=
  ⟨"/mud/../etc/passwd", by decide, by decide⟩

end Layout

end MudEdit
