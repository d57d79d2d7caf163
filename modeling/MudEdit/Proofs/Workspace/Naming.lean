import MudEdit.Workspace
import MudEdit.Proofs.Path.Segments

/-!
# From the name of a program back to its file

Three rules know of the suffix `.c`: the name of a program leaves it out, a name is looked
for with it, and a saved program gets it back. The last two go by whether the name has an
extension. So they undo the first one, unless what is left of a file's name has an extension
of its own (`programName_leadsBack`): the name `/std/a.b` of the file `/std/a.b.c` stands
for the file `/std/a.b`, and the program is saved there.
-/

namespace MudEdit

open MudEdit.Path

variable {root path directory file rel : String} {names : List String}

namespace Path

theorem below?_eq_some : below? root path = some names ↔ parts path = parts root ++ names := by
  simp only [below?]
  constructor
  · intro h
    split at h
    · obtain ⟨behind, hbehind⟩ := List.isPrefixOf_iff_prefix.mp ‹_›
      rw [← hbehind, List.drop_left, Option.some.injEq] at h
      rw [← hbehind, h]
    · cases h
  · intro h
    rw [h, if_pos (List.isPrefixOf_iff_prefix.mpr ⟨names, rfl⟩), List.drop_left]

section Rel

variable (hrel : segments rel = names) (hplain : ∀ n ∈ names, IsPlain n)
include hrel hplain

theorem isAbsolute_of_plain : isAbsolute rel = false := by
  rw [Bool.eq_false_iff]
  intro h
  have hhead := head?_segments_of_isAbsolute h
  rw [hrel] at hhead
  exact (hplain _ (List.mem_of_head? hhead)).text rfl

theorem steps_of_plain : steps rel = names := by
  rw [steps, hrel]
  refine List.filter_eq_self.mpr fun n hn => ?_
  simp [(hplain n hn).text, (hplain n hn).dot]

theorem head?_ne_dot_of_plain : (segments rel).head? ≠ some "." := by
  rw [hrel]
  intro h
  exact (hplain _ (List.mem_of_head? h)).dot rfl

theorem extension?_of_plain (hfile : names.getLast? = some file) :
    extension? rel = extensionOf? file := by
  have hparts : parts rel = names := by
    have := parts_join "" (isAbsolute_of_plain hrel hplain)
      fun _ => head?_ne_dot_of_plain hrel hplain
    rwa [join_empty, steps_of_plain hrel hplain] at this
  have h := hplain file (List.mem_of_getLast? hfile)
  have hkept : ((file != "/") && (file != ".") && (file != "..")) = true := by
    simp only [bne_iff_ne, Bool.and_eq_true]
    exact ⟨⟨h.ne_root, h.dot⟩, h.dots⟩
  rw [extension?, fileName?, hparts, hfile, Option.filter_some, if_pos hkept, Option.bind_some]

end Rel

/-! ## A suffix -/

theorem withoutSuffix_append (suffix text : String) :
    withoutSuffix suffix (text ++ suffix) = text := by
  have h : suffix.toList.isSuffixOf (text ++ suffix).toList :=
    List.isSuffixOf_iff_suffix.mpr (by simp)
  rw [withoutSuffix, if_pos h]
  simp

theorem withoutSuffix_of_not {suffix text : String} (h : ¬ suffix.toList <:+ text.toList) :
    withoutSuffix suffix text = text := by
  rw [withoutSuffix, if_neg (by simpa [List.isSuffixOf_iff_suffix] using h)]

/-- A text either ends in a suffix, which is taken from it, or is left as it is. -/
theorem withoutSuffix_cases (suffix text : String) :
    withoutSuffix suffix text ++ suffix = text ∨
      ¬ suffix.toList <:+ text.toList ∧ withoutSuffix suffix text = text := by
  by_cases h : suffix.toList <:+ text.toList
  · obtain ⟨cs, hcs⟩ := h
    obtain rfl : text = String.ofList cs ++ suffix := by
      rw [← String.toList_inj, ← hcs]
      simp
    exact .inl (by rw [withoutSuffix_append])
  · exact .inr ⟨h, withoutSuffix_of_not h⟩

theorem suffix_intercalate (hfile : names.getLast? = some file) :
    file.toList <:+ ("/".intercalate names).toList := by
  obtain ⟨above, rfl⟩ := List.getLast?_eq_some_iff.mp hfile
  clear hfile
  rw [String.toList_intercalate]
  induction above with
  | nil => simp
  | cons n above ih =>
    obtain ⟨m, below, hbelow⟩ := List.exists_cons_of_ne_nil (l := above ++ [file]) (by simp)
    rw [List.cons_append, hbelow, List.map_cons, List.map_cons, List.intercalate_cons_cons,
      ← List.map_cons, ← hbelow]
    exact ih.trans (List.suffix_append _ _)

theorem append_ne_self {text suffix : String} (h : suffix ≠ "") : text ++ suffix ≠ text := by
  intro heq
  have := congrArg String.length heq
  rw [String.length_append] at this
  exact h (String.length_eq_zero_iff.mp (by omega))

end Path

/-! ## Names of programs -/

namespace Workspace

theorem rooted_eq (hne : names ≠ []) : rooted names = "/" ++ "/".intercalate names := by
  rw [← String.toList_inj]
  induction names with
  | nil => contradiction
  | cons n names ih =>
    cases names with
    | nil => simp [rooted]
    | cons m names =>
      have := ih (List.cons_ne_nil m names)
      simp only [rooted, String.toList_join, String.toList_append, String.toList_intercalate,
        List.map_cons, List.flatMap_cons] at this ⊢
      rw [this, List.intercalate_cons_cons]
      simp

/-- The name of a program below the root is its path from there without the suffix `.c`. -/
theorem programName_below (hbelow : below? root path = some names) (hne : names ≠ []) :
    programName (some root) path = "/" ++ withoutSuffix ".c" ("/".intercalate names) := by
  simp only [programName, Option.bind_some, hbelow, rooted_eq hne]
  generalize "/".intercalate names = rel
  rcases withoutSuffix_cases ".c" rel with h | ⟨hnot, h⟩
  · conv_lhs => rw [← h, ← String.append_assoc, withoutSuffix_append]
  · rw [h]
    -- the slash is not the dot of the suffix
    refine withoutSuffix_of_not fun hsuffix => ?_
    rw [String.toList_append] at hsuffix
    rcases List.suffix_cons_iff.mp hsuffix with heq | hsuffix
    · have hdot : '.' = '/' := congrArg (·.headD ' ') heq
      exact absurd hdot (by decide)
    · exact hnot hsuffix

theorem candidates_rooted (s : Settings) (root name : String) :
    (Layout.ofSettings (some root) s).candidates ("/" ++ name) =
      if (extension? name).isNone then [join root name, join root (name ++ ".c")]
      else [join root name] := by
  simp [Layout.candidates, Layout.rootedCandidates, Layout.ofSettings]

theorem deployPath_rooted {name : String} (hrelative : isAbsolute name = false) :
    deployPath directory ("/" ++ name) = join directory (asProgram name) := by
  have hdrop : name.toList.dropWhile (· == '/') = name.toList := by
    cases h : name.toList with
    | nil => rfl
    | cons c cs =>
      have hc : (c == '/') = false := by simpa [isAbsolute, h] using hrelative
      rw [List.dropWhile_cons, hc]
      rfl
  rw [deployPath, String.toList_append]
  simp [hdrop]

/-! ## Back to the file -/

/-- The name of the program at a path below the root leads back to it: the path is left as
it is, or what the suffix `.c` is taken from has no extension. -/
def LeadsBack (rel : String) : Prop :=
  withoutSuffix ".c" rel = rel ∨ extension? (withoutSuffix ".c" rel) = none

instance (rel : String) : Decidable (LeadsBack rel) := inferInstanceAs (Decidable (_ ∨ _))

example : LeadsBack "std/room.c" ∧ LeadsBack "std/a.b" ∧ ¬LeadsBack "std/a.b.c" := by decide

theorem leadsBack_append {base : String} (hbase : base ++ ".c" = rel) :
    LeadsBack rel ↔ extension? base = none := by
  subst hbase
  rw [LeadsBack, withoutSuffix_append]
  exact or_iff_right (append_ne_self (by simp)).symm

/-- A file with an extension below the root, at plain names from there. -/
structure FileBelow (root path : String) (names : List String) : Prop where
  below : below? root path = some names
  plain : ∀ n ∈ names, IsPlain n
  extension : ∃ file, names.getLast? = some file ∧ (extensionOf? file).isSome

namespace FileBelow

variable (h : FileBelow root path names)
include h

theorem ne_nil : names ≠ [] := by
  obtain ⟨file, hfile, -⟩ := h.extension
  rintro rfl
  cases hfile

theorem segments_rel : segments ("/".intercalate names) = names :=
  segments_intercalate h.ne_nil fun n hn => (h.plain n hn).slash

theorem isAbsolute_rel : isAbsolute ("/".intercalate names) = false :=
  isAbsolute_of_plain h.segments_rel h.plain

theorem parts_join_rel (directory : String) :
    parts (join directory ("/".intercalate names)) = parts directory ++ names := by
  have := parts_join directory h.isAbsolute_rel
    fun _ => head?_ne_dot_of_plain h.segments_rel h.plain
  rwa [steps_of_plain h.segments_rel h.plain] at this

theorem extension_rel : (extension? ("/".intercalate names)).isSome := by
  obtain ⟨file, hfile, hext⟩ := h.extension
  rwa [extension?_of_plain h.segments_rel h.plain hfile]

theorem isAbsolute_base {base : String} (hbase : base ++ ".c" = "/".intercalate names) :
    isAbsolute base = false := by
  rw [Bool.eq_false_iff]
  intro habsolute
  have := isAbsolute_append_of_isAbsolute habsolute ".c"
  rw [hbase, h.isAbsolute_rel] at this
  cases this

/-- What the suffix is taken from: the last name of the path. -/
theorem segments_base {base : String} (hbase : base ++ ".c" = "/".intercalate names) :
    ∃ above last, segments base = above ++ [last] ∧ names = above ++ [last ++ ".c"] := by
  have hslash : '/' ∉ ".c".toList := by simp
  obtain ⟨above, last, hsegments, hsuffix⟩ := segments_append base hslash
  exact ⟨above, last, hsegments, by rw [← hsuffix, hbase, h.segments_rel]⟩

/-- Without the suffix the path is that of another file: its last name is shorter. -/
theorem parts_join_ne {base : String} (hbase : base ++ ".c" = "/".intercalate names)
    (directory : String) : parts (join directory base) ≠ parts directory ++ names := by
  intro heq
  have hrelative := h.isAbsolute_base hbase
  have hsteps := steps_eq_of_parts (heq.trans (h.parts_join_rel directory).symm)
  rw [steps_join directory hrelative, steps_join directory h.isAbsolute_rel,
    List.append_cancel_left_eq, steps_of_plain h.segments_rel h.plain] at hsteps
  obtain ⟨above, last, hsegments, hsuffix⟩ := h.segments_base hbase
  -- no segment is left out, as there are as many steps as segments
  have hall : steps base = segments base := by
    refine List.filter_sublist.eq_of_length ?_
    change (steps base).length = _
    rw [hsteps, hsegments, hsuffix]
    simp
  rw [hall, hsegments, hsuffix, List.append_cancel_left_eq, List.singleton_inj] at hsteps
  exact append_ne_self (by simp) hsteps.symm

/-- Every path to a file without the suffix leads back. -/
theorem leadsBack_of_not_suffix (hfile : names.getLast? = some file)
    (hnot : ¬ ".c".toList <:+ file.toList) : LeadsBack ("/".intercalate names) := by
  rcases withoutSuffix_cases ".c" ("/".intercalate names) with hbase | ⟨-, hrel⟩
  · obtain ⟨above, last, -, hnames⟩ := h.segments_base hbase
    have hlast : file = last ++ ".c" := by simpa [hnames] using hfile.symm
    exact absurd (hlast ▸ by simp) hnot
  · exact .inl hrel

/-- A program leads back if there is no extension before the suffix. -/
theorem leadsBack_iff {stem : String} (hfile : names.getLast? = some (stem ++ ".c"))
    (hstem : IsPlain stem) :
    LeadsBack ("/".intercalate names) ↔ extensionOf? stem = none := by
  rcases withoutSuffix_cases ".c" ("/".intercalate names) with hbase | ⟨hnot, -⟩
  · obtain ⟨above, last, hsegments, hnames⟩ := h.segments_base hbase
    obtain rfl : last = stem := by simpa [hnames] using hfile
    -- without its suffix the last segment is the stem, which is a plain name as the others are
    have hplain : ∀ n ∈ above ++ [last], IsPlain n := by
      intro n hn
      rcases List.mem_append.mp hn with hn | hn
      · exact h.plain n (hnames ▸ List.mem_append_left _ hn)
      · exact List.mem_singleton.mp hn ▸ hstem
    rw [leadsBack_append hbase, extension?_of_plain hsegments hplain List.getLast?_concat]
  · have hlast := suffix_intercalate hfile
    rw [String.toList_append] at hlast
    exact absurd ((List.suffix_append _ _).trans hlast) hnot

theorem candidates_programName (s : Settings) :
    (∃ c ∈ (Layout.ofSettings (some root) s).candidates (programName (some root) path),
      parts c = parts path) ↔ LeadsBack ("/".intercalate names) := by
  rw [below?_eq_some.mp h.below, programName_below h.below h.ne_nil, candidates_rooted]
  rcases withoutSuffix_cases ".c" ("/".intercalate names) with hbase | ⟨-, hrel⟩
  · have hno := h.parts_join_ne hbase root
    rw [leadsBack_append hbase]
    cases hext : extension? (withoutSuffix ".c" ("/".intercalate names)) with
    | none => simp [hbase, h.parts_join_rel]
    | some extension => simp [hno]
  · have hext : ¬ (extension? ("/".intercalate names)).isNone := by
      simpa using Option.isSome_iff_ne_none.mp h.extension_rel
    rw [hrel, if_neg hext]
    exact iff_of_true ⟨_, List.mem_singleton_self _, h.parts_join_rel root⟩ (.inl hrel)

theorem deployPath_programName (directory : String) :
    parts (deployPath directory (programName (some root) path)) =
      parts (join directory ("/".intercalate names)) ↔ LeadsBack ("/".intercalate names) := by
  rw [programName_below h.below h.ne_nil, h.parts_join_rel]
  rcases withoutSuffix_cases ".c" ("/".intercalate names) with hbase | ⟨-, hrel⟩
  · have hno := h.parts_join_ne hbase directory
    rw [deployPath_rooted (h.isAbsolute_base hbase), leadsBack_append hbase]
    cases hext : extension? (withoutSuffix ".c" ("/".intercalate names)) with
    | none => simp [asProgram, hext, hbase, h.parts_join_rel]
    | some extension => simp [asProgram, hext, hno]
  · rw [hrel, deployPath_rooted h.isAbsolute_rel]
    simp [LeadsBack, asProgram, hrel, h.extension_rel, h.parts_join_rel]

end FileBelow

/-- **The name of a program stands for its file** among the candidates for the name, and the
program is saved at the path from the root to the file, exactly if the name leads back. Each file
without the suffix `.c` leads back, and one with the suffix if there is no extension before it. -/
theorem programName_leadsBack (h : FileBelow root path names) (s : Settings)
    (directory : String) :
    ((∃ c ∈ (Layout.ofSettings (some root) s).candidates (programName (some root) path),
        parts c = parts path) ↔ LeadsBack ("/".intercalate names)) ∧
      (parts (deployPath directory (programName (some root) path)) =
        parts (join directory ("/".intercalate names)) ↔ LeadsBack ("/".intercalate names)) ∧
      ∀ file, names.getLast? = some file →
        (¬ ".c".toList <:+ file.toList → LeadsBack ("/".intercalate names)) ∧
        ∀ stem, file = stem ++ ".c" → IsPlain stem →
          (LeadsBack ("/".intercalate names) ↔ extensionOf? stem = none) := by
  refine ⟨h.candidates_programName s, h.deployPath_programName directory, fun file hfile =>
    ⟨h.leadsBack_of_not_suffix hfile, fun stem hstem hplain => ?_⟩⟩
  exact h.leadsBack_iff (hstem ▸ hfile) hplain

theorem programName_leadsBack_room :
    FileBelow "/mud" "/mud/std/room.c" ["std", "room.c"] ∧ LeadsBack "std/room.c" ∧
      (∃ c ∈ (Layout.ofSettings (some "/mud") .default).candidates
          (programName (some "/mud") "/mud/std/room.c"), parts c = parts "/mud/std/room.c") ∧
      parts (deployPath "/deploy" (programName (some "/mud") "/mud/std/room.c")) =
        parts (join "/deploy" "std/room.c") := by
  have h : FileBelow "/mud" "/mud/std/room.c" ["std", "room.c"] :=
    ⟨by decide, by decide, "room.c", rfl, by decide⟩
  obtain ⟨hfound, hsaved, hback⟩ := programName_leadsBack h .default "/deploy"
  have hleads : LeadsBack "std/room.c" :=
    ((hback "room.c" rfl).2 "room" rfl (by decide)).mpr (by decide)
  exact ⟨h, hleads, hfound.mpr hleads, hsaved.mpr hleads⟩

/-- The name of `a.b.c` is that of another file, which it is looked for at and saved as. -/
theorem programName_leads_astray :
    FileBelow "/mud" "/mud/a.b.c" ["a.b.c"] ∧
      (Layout.ofSettings (some "/mud") .default).candidates
        (programName (some "/mud") "/mud/a.b.c") = ["/mud/a.b"] ∧
      deployPath "/deploy" (programName (some "/mud") "/mud/a.b.c") = "/deploy/a.b" :=
  ⟨⟨by decide, by decide, "a.b.c", rfl, by decide⟩, by decide, by decide⟩

end Workspace

end MudEdit
