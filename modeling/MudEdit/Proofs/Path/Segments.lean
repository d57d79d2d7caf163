import Mathlib.Algebra.Order.BigOperators.Group.List
import Mathlib.Algebra.Order.Group.Nat
import MudEdit.Path

/-!
# The segments of a path

A path is its segments with a slash between each two. To join two paths is to put their
segments in a row (`segments_join`), but for an empty segment where the first one ends in a
slash. What a path says are its `steps`: the segments other than the empty one and `.`. Two
paths with the same parts have the same steps, and a path that is taken from a directory
adds its steps to the parts of the directory (`parts_join`).
-/

namespace MudEdit.Path

variable {directory path name : String} {names : List String}

/-! ## Segments -/

theorem segments_ne_nil : segments path ≠ [] := by
  simp [segments, List.splitOnP_ne_nil]

theorem segments_append_slash (above below : String) :
    segments (above ++ "/" ++ below) = segments above ++ segments below := by
  have h := List.splitOnP_append_cons (p := fun c => c == '/') above.toList below.toList
    (beq_self_eq_true '/')
  simp only [segments, String.toList_append, ← List.map_append, ← h, List.append_assoc]
  rfl

/-- No part of a split list holds a separator. -/
theorem not_of_mem_splitOnP {p : Char → Bool} {cs part : List Char} (h : part ∈ cs.splitOnP p) :
    ∀ c ∈ part, p c = false := by
  induction cs generalizing part with
  | nil =>
    obtain rfl : part = [] := by simpa using h
    nofun
  | cons d cs ih =>
    rw [List.splitOnP_cons_eq_if_modifyHead] at h
    by_cases hd : p d
    · rw [if_pos hd] at h
      rcases List.mem_cons.mp h with rfl | h
      · nofun
      · exact ih h
    · rw [if_neg hd] at h
      obtain ⟨first, rest, hparts⟩ := List.exists_cons_of_ne_nil (List.splitOnP_ne_nil p cs)
      rw [hparts, List.modifyHead_cons] at h
      rcases List.mem_cons.mp h with rfl | h
      · intro c hc
        rcases List.mem_cons.mp hc with rfl | hc
        · exact Bool.eq_false_iff.mpr hd
        · exact ih (hparts ▸ List.mem_cons_self) c hc
      · exact ih (hparts ▸ List.mem_cons_of_mem first h)

/-- No segment has a slash in it. -/
theorem slash_notMem_of_mem_segments (h : name ∈ segments path) : '/' ∉ name.toList := by
  obtain ⟨cs, hcs, rfl⟩ := List.mem_map.mp h
  intro hslash
  rw [String.toList_ofList] at hslash
  exact absurd (not_of_mem_splitOnP hcs _ hslash) (by simp)

theorem segments_eq_singleton (h : '/' ∉ name.toList) : segments name = [name] := by
  have hall : ∀ c ∈ name.toList, (c == '/') = false := fun c hc =>
    beq_eq_false_iff_ne.mpr fun heq => h (heq ▸ hc)
  rw [segments, List.splitOnP_eq_singleton hall, List.map_singleton, String.ofList_toList]

theorem splitOnP_append {p : Char → Bool} {behind : List Char} (h : ∀ c ∈ behind, p c = false)
    (cs : List Char) :
    ∃ above last, cs.splitOnP p = above ++ [last] ∧
      (cs ++ behind).splitOnP p = above ++ [last ++ behind] := by
  induction cs with
  | nil => exact ⟨[], [], rfl, List.splitOnP_eq_singleton h⟩
  | cons c cs ih =>
    obtain ⟨above, last, hcs, happend⟩ := ih
    rw [List.cons_append, List.splitOnP_cons_eq_if_modifyHead,
      List.splitOnP_cons_eq_if_modifyHead, hcs, happend]
    by_cases hc : p c
    · exact ⟨[] :: above, last, by simp [hc], by simp [hc]⟩
    · cases above with
      | nil => exact ⟨[], c :: last, by simp [hc], by simp [hc]⟩
      | cons first above => exact ⟨(c :: first) :: above, last, by simp [hc], by simp [hc]⟩

/-- A text without slashes behind a path is behind its last segment. -/
theorem segments_append (path : String) {behind : String} (h : '/' ∉ behind.toList) :
    ∃ above last, segments path = above ++ [last] ∧
      segments (path ++ behind) = above ++ [last ++ behind] := by
  have hall : ∀ c ∈ behind.toList, (c == '/') = false := fun c hc =>
    beq_eq_false_iff_ne.mpr fun heq => h (heq ▸ hc)
  obtain ⟨above, last, hpath, happend⟩ := splitOnP_append hall path.toList
  refine ⟨above.map String.ofList, String.ofList last, ?_, ?_⟩
  · rw [segments, hpath, List.map_append, List.map_singleton]
  · rw [segments, String.toList_append, happend, List.map_append, List.map_singleton,
      String.ofList_append, String.ofList_toList]

/-- Names without slashes are the segments of the path that they make. -/
theorem segments_intercalate (hne : names ≠ []) (h : ∀ n ∈ names, '/' ∉ n.toList) :
    segments ("/".intercalate names) = names := by
  have hparts : (['/'].intercalate (names.map String.toList)).splitOn '/' =
      names.map String.toList :=
    List.splitOn_intercalate '/' (by simpa using h) (by simpa using hne)
  rw [List.splitOn_eq_splitOnP] at hparts
  rw [segments, String.toList_intercalate]
  refine (congrArg (List.map String.ofList) hparts).trans ?_
  simp [Function.comp_def]

theorem head?_segments_of_isAbsolute (h : isAbsolute path) : (segments path).head? = some "" := by
  obtain ⟨cs, hcs⟩ : ∃ cs, path.toList = '/' :: cs :=
    List.head?_eq_some_iff.mp (by simpa [isAbsolute] using h)
  simp [segments, hcs, List.splitOnP_cons_eq_if_modifyHead]

theorem isAbsolute_append_of_isAbsolute (h : isAbsolute path) (behind : String) :
    isAbsolute (path ++ behind) := by
  obtain ⟨cs, hcs⟩ : ∃ cs, path.toList = '/' :: cs :=
    List.head?_eq_some_iff.mp (by simpa [isAbsolute] using h)
  simp [isAbsolute, hcs]

/-! ## What a path says -/

/-- The segments of a path that say something. -/
def steps (path : String) : List String := (segments path).filter fun s => s != "" && s != "."

theorem mem_steps : name ∈ steps path ↔ name ∈ segments path ∧ name ≠ "" ∧ name ≠ "." := by
  simp [steps]

/-- The steps of a path are those of its parts that are neither the root nor a dot. -/
theorem filter_parts :
    ((parts path).filter fun s => s != "/" && s != ".") = steps path := by
  have hkept : ((steps path).filter fun s => s != "/" && s != ".") = steps path := by
    refine List.filter_eq_self.mpr fun s hs => ?_
    obtain ⟨hs, -, hdot⟩ := mem_steps.mp hs
    have hslash : s ≠ "/" := fun h => slash_notMem_of_mem_segments hs (by simp [h])
    simp [hslash, hdot]
  have hparts : parts path = if isAbsolute path then "/" :: steps path
      else if (segments path).head? == some "." then "." :: steps path else steps path := rfl
  rw [hparts]
  split
  · simpa using hkept
  · split
    · simpa using hkept
    · exact hkept

theorem steps_eq_of_parts {other : String} (h : parts path = parts other) :
    steps path = steps other := by
  rw [← filter_parts, ← filter_parts, h]

/-! ## Paths that are taken from a directory -/

theorem join_empty : join "" path = path := by simp [join]

/-- A relative path puts its segments behind those of the directory. Only the empty segment
after a slash at the end of the directory is not in the way. -/
theorem segments_join (hrelative : isAbsolute path = false) (hne : directory ≠ "") :
    ∃ above, above ≠ [] ∧ (segments directory = above ∨ segments directory = above ++ [""]) ∧
      segments (join directory path) = above ++ segments path := by
  by_cases hslash : directory.toList.getLast? = some '/'
  · -- the directory ends in a slash, behind which an empty segment stands
    obtain ⟨cs, hcs⟩ := List.getLast?_eq_some_iff.mp hslash
    have hdirectory : directory = String.ofList cs ++ "/" ++ "" := by
      rw [← String.toList_inj, hcs]
      simp
    have hjoin : join directory path = String.ofList cs ++ "/" ++ path := by
      have : join directory path = directory ++ path := by simp [join, hrelative, hne, hslash]
      rw [this, hdirectory, String.append_empty]
    refine ⟨segments (String.ofList cs), segments_ne_nil, .inr ?_, ?_⟩
    · rw [hdirectory, segments_append_slash, @segments_eq_singleton "" (by simp)]
    · rw [hjoin, segments_append_slash]
  · -- it does not, and the slash is put in
    have hjoin : join directory path = directory ++ "/" ++ path := by
      simp [join, hrelative, hne, hslash]
    exact ⟨segments directory, segments_ne_nil, .inl rfl, by rw [hjoin, segments_append_slash]⟩

theorem steps_join (directory : String) (hrelative : isAbsolute path = false) :
    steps (join directory path) = steps directory ++ steps path := by
  by_cases hne : directory = ""
  · subst hne
    rw [join_empty]
    rfl
  obtain ⟨above, -, hdirectory, hjoin⟩ := segments_join hrelative hne
  rw [steps, hjoin, List.filter_append]
  rcases hdirectory with h | h <;> simp [steps, h]

theorem isAbsolute_join (hrelative : isAbsolute path = false) (hne : directory ≠ "") :
    isAbsolute (join directory path) = isAbsolute directory := by
  obtain ⟨behind, hjoin⟩ : ∃ behind, join directory path = directory ++ behind := by
    by_cases hslash : directory.toList.getLast? = some '/'
    · exact ⟨path, by simp [join, hrelative, hne, hslash]⟩
    · exact ⟨"/" ++ path, by simp [join, hrelative, hne, hslash, String.append_assoc]⟩
  obtain ⟨c, cs, hcs⟩ : ∃ c cs, directory.toList = c :: cs :=
    List.exists_cons_of_ne_nil (by simpa using hne)
  simp [hjoin, isAbsolute, hcs]

/-- The parts of a relative path come behind those of the directory, unless the path is
taken from nowhere and starts with a dot, which it keeps then. -/
theorem parts_join (directory : String) (hrelative : isAbsolute path = false)
    (hdot : directory = "" → (segments path).head? ≠ some ".") :
    parts (join directory path) = parts directory ++ steps path := by
  by_cases hne : directory = ""
  · subst hne
    have hparts : parts path = steps path := by
      simp [parts, hrelative, hdot rfl, steps]
    rw [join_empty, hparts]
    rfl
  -- the first segment alone says whether the path begins with `.`, and the directory has it
  have hhead : (segments (join directory path)).head? = (segments directory).head? := by
    obtain ⟨above, habove, hdirectory, hjoin⟩ := segments_join hrelative hne
    rw [hjoin, List.head?_append_of_ne_nil _ habove]
    rcases hdirectory with h | h <;> simp [h, List.head?_append_of_ne_nil _ habove]
  have hsteps := steps_join directory hrelative
  simp only [steps] at hsteps
  simp only [parts, isAbsolute_join hrelative hne, hhead, hsteps]
  split
  · rfl
  · split <;> rfl

/-! ## Plain names -/

/-- A name that can only be that of something in a directory. -/
structure IsPlain (name : String) : Prop where
  text : name ≠ ""
  slash : '/' ∉ name.toList
  dot : name ≠ "."
  dots : name ≠ ".."

instance (name : String) : Decidable (IsPlain name) :=
  decidable_of_iff (name ≠ "" ∧ '/' ∉ name.toList ∧ name ≠ "." ∧ name ≠ "..")
    ⟨fun ⟨ht, hs, hd, hds⟩ => ⟨ht, hs, hd, hds⟩, fun ⟨ht, hs, hd, hds⟩ => ⟨ht, hs, hd, hds⟩⟩

theorem IsPlain.ne_root (h : IsPlain name) : name ≠ "/" :=
  fun heq => h.slash (by simp [heq])

/-- There is always one more plain name. -/
theorem IsPlain.exists_fresh (names : List String) : ∃ name, IsPlain name ∧ name ∉ names := by
  -- one that is longer than all of them together
  let total := (names.map String.length).sum
  let name := String.ofList (List.replicate (total + 3) 'a')
  have hlength : name.length = total + 3 := by simp [name]
  have hne : ∀ other : String, other.length < 3 → name ≠ other := by
    rintro _ hshort rfl
    omega
  refine ⟨name, ⟨hne "" (by decide), by simp [name], hne "." (by decide), hne ".." (by decide)⟩, ?_⟩
  intro hmem
  have : name.length ≤ total := List.le_sum_of_mem (List.mem_map_of_mem hmem)
  omega

end MudEdit.Path
