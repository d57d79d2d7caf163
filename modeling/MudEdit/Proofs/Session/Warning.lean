import MudEdit.Document.Finding
import MudEdit.Proofs.Program.Directive
import MudEdit.Proofs.Session.Published

/-!
# Warnings in a session

An editor is warned of the directives whose files could not be read when they were looked for, and
of no others. As long as the directories that are searched stay the same, these are the directives
whose files cannot be read. When they are configured anew nothing is looked for again, so then
the warnings may be of what can be read by now, and may be lacking for what cannot be read any more.

A session hears one announcement after the other. All loading that an announcement starts is over
when the next is heard, so that what is said here is said of sessions whose announcements do not
overlap.

The warnings of a document are about its directives: there is one for each directive whose path
names a file that is missing, where the directive begins. As no two directives begin together,
each of them is recorded in the scope of the file, and none twice.
-/

namespace MudEdit

/-! ## The warnings of a document -/

/-- Whether it is about a link, and not about a hole. -/
def Finding.isWarning (f : Finding) : Bool := f.code == "R001"

/-- The warnings for the directives of a text whose paths are lacking. -/
def warningsOf (text : String) (lacks : String → Bool) : List Finding :=
  ((directives (Forest.parse .editor text).nodes).filter (lacks ·.2)).map fun x =>
    Finding.unresolved (.ofString text) x.1 x.2

/-- For what is lacking, only the paths that are named matter. -/
theorem warningsOf_congr {text : String} {lacks fails : String → Bool}
    (h : ∀ x ∈ directives (Forest.parse .editor text).nodes, lacks x.2 = fails x.2) :
    warningsOf text lacks = warningsOf text fails := by
  rw [warningsOf, warningsOf]
  exact congrArg _ (List.filter_congr h)

namespace Document

variable {d : Document}

theorem missingLinks_eq (d : Document) :
    d.missingLinks = d.program.linksAt.filter fun x => d.missing.contains x.2 := by
  unfold missingLinks Program.linksAt
  rw [List.filter_filterMap]
  refine List.filterMap_congr fun x _ => ?_
  obtain ⟨offset, instruction⟩ := x
  dsimp only
  cases instruction.path? with
  | none => rfl
  | some path =>
    cases h : d.missing.contains path <;> simp only [Option.filter, Option.map, h] <;> rfl

/-- All findings that are not about holes are about links. -/
theorem filter_findings (d : Document) : d.findings.filter Finding.isWarning =
    d.missingLinks.map fun x => Finding.unresolved d.lines x.1 x.2 := by
  -- what the parser reports is no warning, what a link lacks is one
  have hholes : ∀ f ∈ (d.forest.diagnostics d.text).map (Finding.ofDiagnostic d.lines),
      f.isWarning = false := by
    intro f hf
    obtain ⟨_, hdiagnostic, rfl⟩ := List.mem_map.mp hf
    obtain ⟨hole, -, rfl⟩ := List.mem_map.mp hdiagnostic
    show (Diagnostic.codeOf hole == "R001") = false
    unfold Diagnostic.codeOf
    split <;> decide
  have hlinks : ∀ f ∈ d.missingLinks.map fun x => Finding.unresolved d.lines x.1 x.2,
      f.isWarning = true := by
    intro f hf
    obtain ⟨_, -, rfl⟩ := List.mem_map.mp hf
    rfl
  unfold findings
  rw [List.filter_append, List.filter_eq_nil_iff.mpr (by simpa using hholes),
    List.filter_eq_self.mpr hlinks, List.nil_append]

/-- **A document is warned of each directive that was not linked**, once. -/
theorem warnings_perm {library : Library} {stamp : Nat} (hparsed : d.forest = .parse .editor d.text)
    (hprogram : d.program = (resolve library stamp (some d.name) d.forest.nodes).program)
    (hmissing : d.missing = (resolve library stamp (some d.name) d.forest.nodes).unresolved) :
    (d.findings.filter Finding.isWarning).Perm
      (warningsOf d.text fun path => (library path).isNone) := by
  rw [filter_findings, missingLinks_eq]
  refine List.Perm.map _ ?_
  have heq := linksAt_eq library stamp (some d.name) .editor d.text
  rw [← hparsed, ← hprogram] at heq
  rw [heq, ← hparsed]
  refine .of_eq (List.filter_congr fun x hx => ?_)
  -- each directive's path is one that resolving asked for
  have hlinked : x.2 ∈ linkedPaths d.forest.nodes := by
    rw [hparsed] at hx ⊢
    exact mem_linkedPaths_of_directives .editor d.text hx
  rw [hmissing, Bool.eq_iff_iff, List.contains_iff_mem, Option.isNone_iff_eq_none]
  exact mem_unresolved.trans (and_iff_right hlinked)

end Document

/-! ## What can be read in a session -/

/-- The warnings for a document that were sent last. -/
def lastWarnings (uri : String) (sent : List Sent) : List Finding :=
  ((lastFindings uri sent).map Prod.fst).getD [] |>.filter Finding.isWarning

namespace Session

variable {s : Session} {disk : Disk} {uri path : String} {history : List Announcement}

/-- The session after announcements on a disk that stays the same. -/
def heardOn (s : Session) (disk : Disk) (history : List Announcement) : Session :=
  s.after (history.map (disk, ·))

/-- What is sent in the course of them. -/
def sentOn (s : Session) (disk : Disk) (history : List Announcement) : List Sent :=
  s.sentIn (history.map (disk, ·))

theorem prefix_of_map {events : List (Disk × Announcement)} {e : Disk × Announcement}
    (h : events ++ [e] <+: history.map (disk, ·)) :
    e.1 = disk ∧ ∃ first, first <+: history ∧ events ++ [e] = first.map (disk, ·) := by
  rw [List.prefix_iff_eq_take, ← List.map_take] at h
  refine ⟨?_, _, List.take_prefix .., h⟩
  have he : e ∈ (history.take (events ++ [e]).length).map (disk, ·) := by
    rw [← h]
    simp
  obtain ⟨a, -, rfl⟩ := List.mem_map.mp he
  rfl

/-- What is loaded could be read at some time. -/
theorem read_of_library (hrested : s.cache.Rested) (hnone : s.cache.library path = none)
    (h : ((s.heardOn disk history).cache.library path).isSome) :
    ∃ first, first <+: history ∧ ((s.heardOn disk first).read disk path).isSome := by
  induction history using List.reverseRecOn with
  | nil => exact absurd h (by simp [heardOn, after, hnone])
  | append_singleton history a ih =>
    have hafter : s.heardOn disk (history ++ [a]) =
        ((s.heardOn disk history).hear disk a).session := by
      rw [heardOn, List.map_append, List.map_singleton, after_concat]
      rfl
    have hfed := feeds_hear (rested_after hrested (history.map (disk, ·))) disk a
    rw [hafter] at h
    rcases hfed.read path h with hold | hread
    · -- the file was there before the last message, so it was read for an earlier one
      obtain ⟨first, hfirst, hread⟩ := ih hold
      exact ⟨first, hfirst.trans (List.prefix_append ..), hread⟩
    · exact ⟨_, List.prefix_refl _, hafter ▸ hread⟩

/-! ## Where files are looked for -/

/-- The settings say where to look for files. -/
def Configured (s : Session) : Prop := s.layout = .ofSettings s.root s.settings

theorem Configured.congr {t : Session} (h : s.Configured) (hlayout : t.layout = s.layout)
    (hroot : t.root = s.root) (hsettings : t.settings = s.settings) : t.Configured := by
  rw [Configured, hlayout, hroot, hsettings]
  exact h

/-- A message keeps the layout in step with the root and the settings. -/
theorem Configured.hear (h : s.Configured) (disk : Disk) (a : Announcement) :
    (s.hear disk a).session.Configured := by
  cases a with
  | initialized => exact h
  | opened uri version text =>
    obtain ⟨hroot, hsettings⟩ := standing_receive s disk uri text version
    exact h.congr (layout_receive ..) hroot hsettings
  | changed uri version text =>
    cases text with
    | none => exact h
    | some text =>
      obtain ⟨hroot, hsettings⟩ := standing_receive s disk uri text version
      exact h.congr (layout_receive ..) hroot hsettings
  | saved uri text =>
    obtain ⟨hroot, hsettings⟩ := standing_save s disk uri text
    refine h.congr ?_ hroot hsettings
    cases hd : s.documents.find? uri.text with
    | none =>
      rw [Session.hear, save, hd]
    | some d => exact layout_save hd disk text
  | closed uri => exact h
  | configured value =>
    simp only [Session.hear, reconfigure]
    cases Settings.ofJson? value with
    | none => exact h
    | some settings => rfl

theorem configured_after (h : s.Configured) (events : List (Disk × Announcement)) :
    (s.after events).Configured := by
  induction events using List.reverseRecOn with
  | nil => exact h
  | append_singleton events e ih =>
    rw [after_concat]
    exact ih.hear e.1 e.2

/-- What can be read depends on the directories that are searched only. -/
theorem Configured.read_congr {t : Session} (hs : s.Configured) (ht : t.Configured)
    (hroot : t.root = s.root) (hpaths : t.settings.includePaths = s.settings.includePaths) :
    t.read disk = s.read disk := by
  refine Session.read_congr ?_ disk
  rw [hs, ht]
  unfold Layout.ofSettings
  rw [hroot, hpaths]

/-! ## The warnings -/

/-- When findings are shown, the warnings that were sent last are those of the document. -/
theorem lastWarnings_sentIn {d : Document} {events : List (Disk × Announcement)}
    (hempty : s.documents = []) (hd : (s.after events).documents.find? uri = some d)
    (hshown : (s.after events).settings.showDiagnostics = true) :
    lastWarnings uri (s.sentIn events) = d.findings.filter Finding.isWarning := by
  rw [lastWarnings, lastFindings_sentIn hempty, verdict, hd, Option.map_some, Option.some_or,
    Option.map_some, Option.getD_some, shown, if_pos hshown]

/-- **Warnings are truthful about what was looked for.** In every session on a disk that stays the
same, if findings are shown, then what an editor was sent last for an open document warns of each
directive exactly once whose file could not be read at some time since the document got its text. A
file of another directive could be read then or before. So if the directories that are searched are
the same all the time, the warnings are for the directives whose files cannot be read.

Announcements do not overlap here: each of them is heard with all the loading that it starts before
the next is. -/
theorem warnings_published (i : Introduction) (disk : Disk) (history : List Announcement)
    (uri : String) (known : Told) (hopen : told uri history = some known)
    (hshown : ((fresh.start i).heardOn disk history).settings.showDiagnostics = true) :
    let after (history : List Announcement) : Session := (fresh.start i).heardOn disk history
    let warnings := lastWarnings uri ((fresh.start i).sentOn disk history)
    (∃ last, last <+: history ∧ told uri last = some known ∧ ∃ lacks : String → Bool,
      warnings.Perm (warningsOf known.text lacks) ∧
      ∀ x ∈ directives (Forest.parse .editor known.text).nodes,
        if lacks x.2 then (after last).read disk x.2 = none
        else ∃ first, first <+: last ∧ ((after first).read disk x.2).isSome) ∧
    ((∀ first, first <+: history →
        (after first).settings.includePaths = (after history).settings.includePaths) →
      warnings.Perm (warningsOf known.text fun path =>
        ((after history).read disk path).isNone)) := by
  intro after warnings
  have hmap (h : List Announcement) : (h.map (disk, ·)).map Prod.snd = h := by simp
  have hempty : (fresh.start i).documents = [] := rfl
  have hmakes := makes_after hempty Cache.rested_empty (history.map (disk, ·)) uri
  rw [hmap, hopen] at hmakes
  obtain ⟨d, hd, earlier, e, hprefix, hsince, hof, hsought⟩ := hmakes
  obtain ⟨rfl, last, hlast, heq⟩ := prefix_of_map hprefix
  rw [heq, hmap] at hsince
  rw [heq] at hof hsought
  let lacks (path : String) : Bool := ((after last).cache.library path).isNone
  have hperm : warnings.Perm (warningsOf known.text lacks) := by
    obtain ⟨stamp, hprogram, hmissing⟩ := hof.resolved
    have hwarned := Document.warnings_perm (hof.text ▸ hof.parsed) hprogram hmissing
    rw [hof.text] at hwarned
    rwa [← lastWarnings_sentIn hempty hd hshown] at hwarned
  have hlacks : ∀ x ∈ directives (Forest.parse .editor known.text).nodes,
      if lacks x.2 then (after last).read e.1 x.2 = none
      else ∃ first, first <+: last ∧ ((after first).read e.1 x.2).isSome := by
    intro x hx
    split
    · rename_i hnone
      exact hsought x.2 (mem_linkedPaths_of_directives .editor _ hx)
        (Option.isNone_iff_eq_none.mp hnone)
    · rename_i hsome
      refine read_of_library Cache.rested_empty rfl ?_
      simpa [lacks, Option.isNone_iff_eq_none, ← Option.isSome_iff_ne_none] using hsome
  refine ⟨⟨last, hlast, hsince, lacks, hperm, hlacks⟩, fun hsame => ?_⟩
  -- what is searched is the same at all times, so the same can be read
  have hread (first : List Announcement) (hfirst : first <+: history) :
      (after first).read e.1 = (after history).read e.1 := by
    have hstart : (fresh.start i).Configured := rfl
    have hconfigured (h : List Announcement) : (after h).Configured := configured_after hstart _
    have hroot (h : List Announcement) : (after h).root = (fresh.start i).root :=
      (standing_after ..).1
    exact (hconfigured history).read_congr (hconfigured first)
      ((hroot first).trans (hroot history).symm) (hsame first hfirst)
  refine hperm.trans (.of_eq (warningsOf_congr fun x hx => ?_))
  have hx := hlacks x hx
  split at hx
  · rename_i hnone
    rw [hnone, ← hread last hlast, hx]
    rfl
  · rename_i hsome
    obtain ⟨first, hfirst, hx⟩ := hx
    rw [← hread first (hfirst.trans hlast), Bool.eq_false_iff.mpr hsome,
      Option.isNone_eq_false_iff.mpr hx]

/-! ## Directories that are searched later, and no longer -/

/-- A disk with a header in a directory of its own. -/
def headerDisk : Disk := ⟨[(["h.h", "inc", "w"], "int x;")], [["w"], ["inc", "w"]], []⟩

/-- An editor in the directory above, where these directories are searched. -/
def searching (paths : List String) : Introduction :=
  ⟨none, some (fileUri "/w"), some (.object [("includePaths", .array (paths.map .string))])⟩

/-- A document that includes the header is opened. -/
def including : List Announcement := [.opened (fileUri "/w/main.c") 1 "#include \"h.h\""]

/-- Other directories are to be searched. -/
def reconfigured (paths : List String) : Announcement :=
  .configured (.object [("includePaths", .array (paths.map .string))])

/-- The warning that the header is not found. -/
def headerWarning : Finding := .unresolved (.ofString "#include \"h.h\"") 0 "h.h"

/-- As long as the directory is not searched, the editor is warned that the header is missing. -/
theorem warnings_published_including :
    let s := (fresh.start (searching [])).heardOn headerDisk including
    s.settings.showDiagnostics = true ∧ s.read headerDisk "h.h" = none ∧
      (lastWarnings (fileUri "/w/main.c").text
        ((fresh.start (searching [])).sentOn headerDisk including)).Perm [headerWarning] := by
  intro s
  have htold : told (fileUri "/w/main.c").text including =
      some ⟨fileUri "/w/main.c", 1, "#include \"h.h\""⟩ := by decide +kernel
  have hshown : s.settings.showDiagnostics = true := by decide +kernel
  obtain ⟨-, hsame⟩ := warnings_published (searching []) headerDisk including _ _ htold hshown
  refine ⟨hshown, by decide +kernel, ?_⟩
  have hwarned := hsame fun first hfirst => ?_
  · refine hwarned.trans (.of_eq ?_)
    decide +kernel
  · rcases List.prefix_cons_iff.mp hfirst with rfl | ⟨rest, rfl, hrest⟩
    · decide +kernel
    · rw [List.prefix_nil.mp hrest]
      rfl

/-- **When other directories are searched, warnings are not brought up to date.** The header is in
one that is searched now, and the editor is still warned that it is missing. And it is in none that
is searched, and the editor is not warned. -/
theorem warnings_outdated :
    (let s := fresh.start (searching [])
    let history := including ++ [reconfigured ["inc"]]
    (s.heardOn headerDisk history).read headerDisk "h.h" = some "int x;" ∧
      lastWarnings (fileUri "/w/main.c").text (s.sentOn headerDisk history) = [headerWarning]) ∧
    let s := fresh.start (searching ["inc"])
    let history := including ++ [reconfigured []]
    (s.heardOn headerDisk history).read headerDisk "h.h" = none ∧
      lastWarnings (fileUri "/w/main.c").text (s.sentOn headerDisk history) = [] := by
  decide +kernel

end Session

end MudEdit
