import MudEdit.Proofs.Cache.Trail
import MudEdit.Session.Basic

/-!
# Runs of a session

Of a file, what a session holds is of the text that the file has now, as long as the file only
changes when the program of that name is saved: so it is for the program in the cache, and for
what the open documents that link to the file were resolved against. Each announcement keeps
it so.

A session hears one announcement after the other. All loading that an announcement starts is over
when the next is heard, so that what is said here is said of sessions whose announcements do not
overlap.
-/

namespace MudEdit

variable {c : Cache} {library : Library} {name : String} {text? : Option String}
  {s t : Session} {disk : Disk} {uris names : List String} {d : Document}

/-! ## What is held -/

/-- There is a program of the text under the name, and none if there is no text. -/
structure Library.Holds (library : Library) (name : String) (text? : Option String) : Prop where
  there : text?.isSome → (library name).isSome
  isOf : ∀ p, library name = some p → ∃ text, text? = some text ∧ p.IsOf name text

/-- If the name is in the cache, then with the text. -/
def Cache.Latest (c : Cache) (name : String) (text? : Option String) : Prop :=
  ∀ s, c.source? name = some s →
    ∃ text, text? = some text ∧ s.nodes = (Forest.parse .interpretation text).nodes

/-- The latest text is what the program stands for. -/
theorem Cache.Latest.holds (h : c.Latest name text?) (hr : c.Rested)
    (hthere : text?.isSome → (c.source? name).isSome) : c.library.Holds name text? where
  there ht := by
    obtain ⟨s, hs⟩ := Option.isSome_iff_exists.mp (hthere ht)
    obtain ⟨p, hp, -⟩ := hr.backs.sourced name s hs
    rw [hp]
    rfl
  isOf p hp := by
    obtain ⟨s, hs, hstands⟩ := hr.backs.source hp
    obtain ⟨text, ht, hnodes⟩ := h s hs
    rw [hnodes] at hstands
    exact ⟨text, ht, hstands⟩

/-- The document was resolved against a library that held the text, if it links to the name. -/
structure Document.Current (d : Document) (name : String) (text? : Option String) : Prop where
  parsed : d.forest = Forest.parse .editor d.text
  resolved : ∃ library stamp, library.Named ∧
    d.program = (resolve library stamp (some d.name) d.forest.nodes).program ∧
    (d.name ≠ name → name ∈ linkedPaths d.forest.nodes → library.Holds name text?)

/-- The session holds the text, wherever it has the name. -/
structure Session.Current (s : Session) (name : String) (text? : Option String) : Prop where
  rested : s.cache.Rested
  latest : s.cache.Latest name text?
  documents : ∀ uri d, s.documents.find? uri = some d → d.Current name text?

/-- The dependencies of a document are what it links to. -/
theorem Document.Current.mem_dependencies (h : d.Current name text?) {path : String} :
    path ∈ d.program.dependencies ↔ path ∈ linkedPaths d.forest.nodes := by
  obtain ⟨library, stamp, -, hp, -⟩ := h.resolved
  rw [hp]
  constructor
  · exact fun hpath => dependencies_subset_linkedPaths _ _ _ _ hpath
  · rw [h.parsed]
    exact fun hpath => linkedPaths_subset_dependencies _ _ _ _ _ hpath

/-! ## What is loaded -/

/-- To load again leaves the latest text the latest. -/
theorem Reloaded.latest {read : String → Option String} {first : Cache} {found : List String}
    (h : Reloaded read names first c found) (hl : first.Latest name (read name)) :
    c.Latest name (read name) := by
  intro s hs
  rcases h.fetched name s hs with hold | hnew
  · exact hl s hold
  · exact hnew

namespace Session

/-- The names that are found when names are loaded, in that order. -/
def found (s : Session) (disk : Disk) (names : List String) : List String :=
  (((s.cache.loadClosure (s.read disk) disk.size names).tasks[0]?.bind Task.walk?).map
    Walk.loaded).getD []

/-- What is read is the text of some file. -/
theorem mem_files_of_read {g text : String} (h : s.read disk g = some text) :
    text ∈ disk.files.map Prod.snd := by
  obtain ⟨path, -, hpath⟩ := List.exists_of_findSome?_eq_some h
  obtain ⟨l, -, hl⟩ := Option.bind_eq_some_iff.mp hpath
  obtain ⟨xs, ys, heq, -⟩ := List.lookup_eq_some_iff.mp hl
  rw [heq]
  simp

/-- The size of a disk is that of all its texts. -/
theorem size_eq_sum (disk : Disk) :
    disk.size = ((disk.files.map Prod.snd).map String.utf8ByteSize).sum := by
  unfold Disk.size
  induction disk.files with
  | nil => rfl
  | cons f fs ih => simp [ih]

/-- To load is to load again, from the disk. -/
theorem reloaded_load (h : s.cache.Rested) (disk : Disk) (names : List String) :
    Reloaded (s.read disk) names s.cache (s.load disk names).cache (s.found disk names) := by
  obtain ⟨c, w, calls, heq, hreloaded⟩ :=
    h.reload (fun _ _ hread => mem_files_of_read hread) names
  rw [← size_eq_sum] at heq
  rw [load, found, heq]
  exact hreloaded

/-! ## Documents that are resolved again -/

/-- The documents with these URIs were resolved again, against what is loaded. -/
structure Reresolved (uris : List String) (s t : Session) : Prop where
  places : t.cache.places = s.cache.places
  current : t.cache.current = s.cache.current
  library : t.cache.library = s.cache.library
  layout : t.layout = s.layout
  others : ∀ uri ∉ uris, t.documents.find? uri = s.documents.find? uri
  those : ∀ uri ∈ uris, ∃ stamp,
    t.documents.find? uri = (s.documents.find? uri).map (.reresolve s.cache.library stamp)

/-- One document that is resolved again. -/
theorem reresolved_one (s : Session) (uri : String) : Reresolved [uri] s (s.reresolve uri) := by
  unfold reresolve
  cases hd : s.documents.find? uri with
  | none => exact ⟨rfl, rfl, rfl, rfl, fun _ _ => rfl, by simp [hd]⟩
  | some d =>
    refine ⟨rfl, rfl, rfl, rfl, fun other hother => ?_, fun other hother => ?_⟩
    · exact (Table.find?_put ..).trans (if_neg (by simpa using hother))
    · obtain rfl := List.mem_singleton.mp hother
      refine ⟨s.cache.stamp, (Table.find?_put ..).trans ?_⟩
      rw [if_pos rfl, hd]
      rfl

/-- Documents may be resolved one after the other, the later turn counts. -/
theorem Reresolved.append {more : List String} {u : Session} (h : Reresolved uris s t)
    (h' : Reresolved more t u) : Reresolved (uris ++ more) s u where
  places := h'.places.trans h.places
  current := h'.current.trans h.current
  library := h'.library.trans h.library
  layout := h'.layout.trans h.layout
  others uri huri := by
    rw [List.mem_append, not_or] at huri
    rw [h'.others uri huri.2, h.others uri huri.1]
  those uri huri := by
    by_cases hmore : uri ∈ more
    · obtain ⟨stamp, hu⟩ := h'.those uri hmore
      rw [h.library] at hu
      -- resolved twice, it is as if it had been so once, at last
      by_cases hfirst : uri ∈ uris
      · obtain ⟨earlier, ht⟩ := h.those uri hfirst
        refine ⟨stamp, hu.trans ?_⟩
        rw [ht, Option.map_map]
        rfl
      · exact ⟨stamp, hu.trans (by rw [h.others uri hfirst])⟩
    · obtain ⟨stamp, ht⟩ := h.those uri ((List.mem_append.mp huri).resolve_right hmore)
      exact ⟨stamp, (h'.others uri hmore).trans ht⟩

/-- And so may a list of them. -/
theorem reresolved (s : Session) (uris : List String) :
    Reresolved uris s (uris.foldl reresolve s) := by
  induction uris generalizing s with
  | nil => exact ⟨rfl, rfl, rfl, rfl, fun _ _ => rfl, by simp⟩
  | cons uri uris ih => exact (reresolved_one s uri).append (ih (s.reresolve uri))

/-- What was resolved again against a library that holds the text is current. -/
theorem Reresolved.current_documents (h : Reresolved uris s t) (hr : s.cache.Rested)
    (hl : s.cache.Latest name text?)
    (hothers : ∀ uri ∉ uris, ∀ d, s.documents.find? uri = some d → d.Current name text?)
    (hthose : ∀ uri ∈ uris, ∀ d, s.documents.find? uri = some d → d.forest = .parse .editor d.text ∧
      (d.name ≠ name → name ∈ linkedPaths d.forest.nodes → text?.isSome →
        (s.cache.source? name).isSome)) : t.Current name text? := by
  have hbacks : s.cache.Backs t.cache.library := h.library ▸ hr.backs
  -- the cache has been used for stamps only
  obtain ⟨hrested, hsource⟩ := hr.of_same h.current h.places hbacks
  refine ⟨hrested, fun src hsrc => hl src (hsource ▸ hsrc), fun uri d hd => ?_⟩
  by_cases huri : uri ∈ uris
  · obtain ⟨stamp, hfind⟩ := h.those uri huri
    obtain ⟨d₀, hd₀, rfl⟩ := Option.map_eq_some_iff.mp (hfind.symm.trans hd)
    obtain ⟨hparsed, hthere⟩ := hthose uri huri d₀ hd₀
    exact ⟨hparsed, s.cache.library, stamp, hr.backs.named, rfl,
      fun hne hlink => hl.holds hr (hthere hne hlink)⟩
  · exact hothers uri huri d (h.others uri huri ▸ hd)

/-! ## Announcements -/

/-- A text that arrives does not move the root. -/
theorem layout_receive (s : Session) (disk : Disk) (uri : Uri) (text : String) (version : Int) :
    (s.receive disk uri text version).session.layout = s.layout := by
  unfold receive
  dsimp only
  split
  · rfl
  · exact (reresolved_one ..).layout

/-- A text that arrives keeps all current. -/
theorem Current.receive (h : s.Current name (s.read disk name)) (uri : Uri) (text : String)
    (version : Int) :
    (s.receive disk uri text version).session.Current name (s.read disk name) := by
  let title := Workspace.programName s.root uri.filePath
  let d := (Document.analyze s.cache.library s.cache.stamp title text (some version)).1
  let unresolved := (Document.analyze s.cache.library s.cache.stamp title text (some version)).2
  let updated : Session :=
    { s with documents := s.documents.put uri.text d, cache := s.cache.nextStamp }
  have hrested : updated.cache.Rested := h.rested.nextStamp
  have hsource : updated.cache.source? = s.cache.source? := rfl
  have hothers : ∀ other ≠ uri.text, ∀ d, updated.documents.find? other = some d →
      d.Current name (s.read disk name) := by
    intro other hother d hd
    exact h.documents other d (((Table.find?_put ..).trans (if_neg hother)).symm.trans hd)
  have hd {d' : Document} (hd' : updated.documents.find? uri.text = some d') : d' = d := by
    have hput : updated.documents.find? uri.text = some d :=
      (Table.find?_put ..).trans (if_pos rfl)
    exact Option.some.inj (hd'.symm.trans hput)
  -- what is not unresolved is in the cache
  have hthere (hlink : name ∈ linkedPaths d.forest.nodes) (hnot : name ∉ unresolved) :
      (s.cache.source? name).isSome := by
    cases hp : s.cache.library name with
    | none => exact absurd (mem_unresolved.mpr ⟨hlink, hp⟩) hnot
    | some p =>
      obtain ⟨src, hsrc, -⟩ := h.rested.backs.source hp
      rw [hsrc]
      rfl
  have hreceive : s.receive disk uri text version = if unresolved.isEmpty then
      ⟨updated, disk, updated.publish uri.text⟩
    else ⟨(updated.load disk unresolved).reresolve uri.text, disk, updated.publish uri.text ++
      ((updated.load disk unresolved).reresolve uri.text).publish uri.text⟩ := rfl
  rw [hreceive]
  split
  · rename_i hempty
    refine ⟨hrested, h.latest, fun other d' hd' => ?_⟩
    by_cases hother : other = uri.text
    · subst hother
      obtain rfl := hd hd'
      refine ⟨rfl, s.cache.library, s.cache.stamp, h.rested.backs.named, rfl, fun _ hlink => ?_⟩
      refine h.latest.holds h.rested fun _ => hthere hlink ?_
      rw [List.isEmpty_iff.mp hempty]
      exact List.not_mem_nil
    · exact hothers other hother d' hd'
  · have hreloaded := reloaded_load hrested disk unresolved
    have hres := reresolved_one (updated.load disk unresolved) uri.text
    refine hres.current_documents hreloaded.rested (hreloaded.latest h.latest) ?_ ?_
    · exact fun other hother => hothers other (by simpa using hother)
    · intro other hother d' hd'
      obtain rfl := List.mem_singleton.mp hother
      obtain rfl := hd hd'
      refine ⟨rfl, fun _ hlink hsome => ?_⟩
      by_cases hnot : name ∈ unresolved
      · exact hreloaded.sourced name (hreloaded.reached name hnot (.inl hsome))
      · obtain ⟨src, hsrc⟩ := Option.isSome_iff_exists.mp (hthere hlink hnot)
        rw [hreloaded.kept name src hsrc]
        rfl

/-! ## Saving -/

/-- The session without the program of a name. -/
def forgetting (s : Session) (title : String) : Session := { s with cache := s.cache.forget title }

/-- The documents that are refreshed when the program of a name is saved. -/
def dependents (s : Session) (title : String) : List String :=
  dependentsOf s.documents (s.forgetting title).cache.published title

/-- What documents depend on. -/
def links (s : Session) (uris : List String) : List String :=
  uris.flatMap fun uri => ((s.documents.find? uri).map (·.program.dependencies)).getD []

/-- What a dependent links to is loaded again. -/
theorem mem_links {uri path : String} (huri : uri ∈ uris) (hd : s.documents.find? uri = some d)
    (hpath : path ∈ d.program.dependencies) : path ∈ s.links uris := by
  refine List.mem_flatMap.mpr ⟨uri, huri, ?_⟩
  rw [hd]
  exact hpath

/-- The names that are found when the program of a name is saved. -/
def foundOnSave (s : Session) (disk : Disk) (title : String) : List String :=
  (s.forgetting title).found disk (s.links (s.dependents title))

/-- What a save does to a session. -/
theorem session_save {uri : Uri} (hd : s.documents.find? uri.text = some d) (disk : Disk)
    (text : Option String) : (s.save disk uri text).session =
      if (s.dependents d.name).isEmpty then s.forgetting d.name
      else (s.dependents d.name).foldl reresolve
        ((s.forgetting d.name).load disk (s.links (s.dependents d.name))) := by
  unfold save
  rw [hd]
  rfl

/-- The program in the cache is not that of the name any more when that is saved, and if another
one is saved the text is the same as before. -/
theorem Current.forgetting (h : s.Current name text?) {title : String}
    {now? : Option String} (hsame : title ≠ name → now? = text?) :
    (s.forgetting title).cache.Rested ∧ (s.forgetting title).cache.Latest name now? := by
  refine ⟨h.rested.forget title, fun src hsrc => ?_⟩
  have hfound : (s.cache.forget title).source? name = some src := hsrc
  rw [Cache.source?_forget] at hfound
  split at hfound
  · exact absurd hfound (by simp)
  · rw [hsame (Ne.symm ‹_›)]
    exact h.latest src hfound

/-- A document that is not refreshed does not link to what was saved. -/
theorem Current.of_not_dependent (h : s.Current name text?) {title uri : String}
    {now? : Option String} (hsame : title ≠ name → now? = text?) (huri : uri ∉ s.dependents title)
    (hd : s.documents.find? uri = some d) : d.Current name now? := by
  have hcurrent := h.documents uri d hd
  by_cases htitle : title = name
  · subst htitle
    obtain ⟨library, stamp, hnamed, hp, -⟩ := hcurrent.resolved
    refine ⟨hcurrent.parsed, library, stamp, hnamed, hp, fun hne hlink => absurd ?_ huri⟩
    exact mem_dependentsOf hd hne (.here (hcurrent.mem_dependencies.mpr hlink))
  · rw [hsame htitle]
    exact hcurrent

/-- A save does not move the root. -/
theorem layout_save {uri : Uri} (hd : s.documents.find? uri.text = some d) (disk : Disk)
    (text : Option String) : (s.save disk uri text).session.layout = s.layout := by
  rw [session_save hd]
  split
  · rfl
  · exact (reresolved ..).layout

/-- A save keeps all current, with the text on disk from then on. -/
theorem Current.save {uri : Uri} (h : s.Current name text?)
    (hd : s.documents.find? uri.text = some d) (text : Option String)
    (hsame : d.name ≠ name → s.read disk name = text?) :
    (s.save disk uri text).session.Current name (s.read disk name) := by
  obtain ⟨hrested, hlatest⟩ := h.forgetting hsame
  have hothers : ∀ uri ∉ s.dependents d.name, ∀ d, s.documents.find? uri = some d →
      d.Current name (s.read disk name) := fun _ huri _ => h.of_not_dependent hsame huri
  rw [session_save hd]
  split
  · rename_i hempty
    refine ⟨hrested, hlatest, fun uri d' hd' => hothers uri ?_ d' hd'⟩
    rw [List.isEmpty_iff.mp hempty]
    exact List.not_mem_nil
  -- all that dependents link to is loaded before they are resolved again
  · have hreloaded := reloaded_load hrested disk (s.links (s.dependents d.name))
    have hres := reresolved ((s.forgetting d.name).load disk (s.links (s.dependents d.name)))
      (s.dependents d.name)
    refine hres.current_documents hreloaded.rested (hreloaded.latest hlatest) hothers ?_
    intro uri huri d' hd'
    have hcurrent := h.documents uri d' hd'
    refine ⟨hcurrent.parsed, fun _ hlink hsome => hreloaded.sourced name ?_⟩
    exact hreloaded.reached name (mem_links huri hd' (hcurrent.mem_dependencies.mpr hlink))
      (.inl hsome)

/-! ## Runs -/

/-- The announcement says that the document of the name was saved. -/
def Saves (s : Session) (name : String) : Announcement → Prop
  | .saved uri _ => ∃ d, s.documents.find? uri.text = some d ∧ d.name = name
  | _ => False

/-- A session from its start, in which the file of a name changes only when its document is
saved, and the text that the file has in the end. Other files may change at any time. -/
inductive Run (name : String) : Session → Option String → Prop
  | started (i : Introduction) (disk : Disk) :
      Run name (fresh.start i) ((fresh.start i).read disk name)
  | heard {s : Session} {now? : Option String} (disk : Disk) (a : Announcement) :
      Run name s now? → (¬s.Saves name a → (s.hear disk a).session.read disk name = now?) →
      Run name (s.hear disk a).session ((s.hear disk a).session.read disk name)

/-- Nothing is saved, and the text of the file is the same as before. -/
theorem Run.unsaved {now? : Option String} {a : Announcement} (h : Run name s now?)
    (hsame : (s.hear disk a).session.read disk name = now?) :
    Run name (s.hear disk a).session now? := by
  have hheard := h.heard disk a fun _ => hsame
  rwa [hsame] at hheard

/-- Where the root is the same, the disk reads the same. -/
theorem read_congr (h : t.layout = s.layout) (disk : Disk) : t.read disk = s.read disk := by
  unfold read
  rw [h]

/-- A document is received, and the text of the file is the same as before. -/
theorem Current.received {now? : Option String} (h : s.Current name now?) (uri : Uri)
    (text : String) (version : Int)
    (hsame : (s.receive disk uri text version).session.read disk name = now?) :
    (s.receive disk uri text version).session.Current name
      ((s.receive disk uri text version).session.read disk name) := by
  rw [read_congr (layout_receive s disk uri text version)] at hsame ⊢
  exact Current.receive (hsame ▸ h) uri text version

/-- **What a session holds of a file is of the text that the file has now.** -/
theorem Run.current {now? : Option String} (h : s.Run name now?) : s.Current name now? := by
  induction h with
  | started i disk =>
    exact ⟨Cache.rested_empty, fun _ hs => absurd hs (by simp [start, configure, fresh,
      Cache.source?, Cache.empty]), fun _ _ hd => absurd hd (by simp [start, configure, fresh])⟩
  | @heard s now? disk a _ hsame ih =>
    cases a with
    | initialized => exact hsame id ▸ ih
    | opened uri version text => exact ih.received uri text version (hsame id)
    | changed uri version text =>
      cases text with
      | none => exact hsame id ▸ ih
      | some text => exact ih.received uri text version (hsame id)
    | saved uri text =>
      cases hd : s.documents.find? uri.text with
      | none =>
        have hsave : s.save disk uri text = ⟨s, disk, []⟩ := by
          unfold save
          rw [hd]
        rw [hear, hsave] at hsame ⊢
        have hunsaved : ¬s.Saves name (.saved uri text) := by
          rintro ⟨d, hd', -⟩
          exact absurd hd' (by simp [hd])
        exact hsame hunsaved ▸ ih
      | some d =>
        have hlayout := layout_save hd disk text
        rw [hear, read_congr hlayout] at hsame ⊢
        -- only when the document is that of the file may the text be another
        refine ih.save hd text fun hne => hsame ?_
        rintro ⟨d', hd', hname⟩
        obtain rfl := Option.some.inj (hd.symm.trans hd')
        exact hne hname
    | closed uri =>
      refine hsame id ▸ ⟨ih.rested, ih.latest, fun other d hd => ih.documents other d ?_⟩
      have hremove := (Table.find?_remove ..).symm.trans hd
      split at hremove
      · exact absurd hremove (by simp)
      · exact hremove
    | configured settings =>
      have hsession : (s.reconfigure disk settings).session.cache = s.cache ∧
          (s.reconfigure disk settings).session.documents = s.documents := by
        unfold reconfigure
        split <;> exact ⟨rfl, rfl⟩
      rw [hear] at hsame ⊢
      rw [hsame id]
      exact ⟨hsession.1 ▸ ih.rested, hsession.1 ▸ ih.latest, hsession.2 ▸ ih.documents⟩

/-! ## What a saved file shows -/

/-- What links to a file shows the text that the file has now. -/
theorem Current.shows {uri text : String} (h : s.Current name (some text))
    (hd : s.documents.find? uri = some d) (hne : d.name ≠ name)
    (hlink : name ∈ d.program.dependencies) : d.program.Shows [] name text := by
  have hcurrent := h.documents uri d hd
  have hpath := hcurrent.mem_dependencies.mp hlink
  obtain ⟨library, stamp, hnamed, hp, hholds⟩ := hcurrent.resolved
  have hheld := hholds hne hpath
  obtain ⟨p, hlib⟩ := Option.isSome_iff_exists.mp (hheld.there rfl)
  obtain ⟨now, hnow, hof⟩ := hheld.isOf p hlib
  obtain rfl := Option.some.inj hnow
  rw [hp]
  exact hnamed.shows_nil hpath hlib hof

/-- When a file is saved on which documents depend, these are resolved again against what was
loaded, and what was loaded holds no program of the file from before. -/
theorem Current.reloaded_save {uri : Uri} {now? : Option String} (h : s.Current name now?)
    (hd : s.documents.find? uri.text = some d) (hname : d.name = name)
    (hdependents : s.dependents name ≠ []) (disk : Disk) (text : Option String) :
    (s.forgetting name).cache.Rested ∧ (s.forgetting name).cache.source? name = none ∧
    Reloaded (s.read disk) (s.links (s.dependents name)) (s.forgetting name).cache
      ((s.forgetting name).load disk (s.links (s.dependents name))).cache
      (s.foundOnSave disk name) ∧
    Reresolved (s.dependents name)
      ((s.forgetting name).load disk (s.links (s.dependents name)))
      (s.save disk uri text).session := by
  subst hname
  have hrested : (s.forgetting d.name).cache.Rested := h.rested.forget d.name
  refine ⟨hrested, ?_, reloaded_load hrested disk (s.links (s.dependents d.name)), ?_⟩
  · show (s.cache.forget d.name).source? d.name = none
    rw [Cache.source?_forget, if_pos rfl]
  · rw [session_save hd, if_neg (by rwa [List.isEmpty_iff])]
    exact reresolved ..

/-- When a file is saved, what links to it through other files shows the new text, if those were
found one after the other. -/
theorem Current.save_shows {uri : Uri} {other new : String} {e : Document} {now? : Option String}
    (h : s.Current name now?) (hd : s.documents.find? uri.text = some d) (hname : d.name = name)
    (hread : s.read disk name = some new) (text : Option String)
    (he : s.documents.find? other = some e) (hne : e.name ≠ name)
    (hlead : (s.forgetting name).cache.library.Leads name e.program.dependencies names)
    (hturn : FoundInTurn (s.foundOnSave disk name) names) :
    ∃ e', (s.save disk uri text).session.documents.find? other = some e' ∧
      e'.program.Shows names name new := by
  -- the way leads to the file, so the document is among its dependents
  have hother : other ∈ s.dependents name := mem_dependentsOf he hne hlead
  obtain ⟨hrested, hforgotten, hreloaded, hres⟩ :=
    h.reloaded_save hd hname (List.ne_nil_of_mem hother) disk text
  obtain ⟨stamp, hfind⟩ := hres.those other hother
  have hload : ((s.forgetting name).load disk (s.links (s.dependents name))).documents.find?
      other = some e := he
  rw [hload] at hfind
  refine ⟨_, hfind, ?_⟩
  refine hreloaded.shows hrested hforgotten hread hlead (fun path hpath => ?_) hturn
    (fun path hpath => (h.documents other e he).mem_dependencies.mp hpath)
    hreloaded.rested.backs fun _ _ => rfl
  exact hreloaded.reached path (mem_links hother he hpath)

/-- And so do the programs that stay in the cache, for the documents that are opened later. -/
theorem Current.save_cached_shows {uri : Uri} {next new : String} {p : Program}
    {now? : Option String} (h : s.Current name now?) (hd : s.documents.find? uri.text = some d)
    (hname : d.name = name) (hread : s.read disk name = some new) (text : Option String)
    (hdependents : s.dependents name ≠ [])
    (hp : (s.forgetting name).cache.library next = some p) (hfound : next ∈ s.foundOnSave disk name)
    (hlead : (s.forgetting name).cache.library.Leads name p.dependencies names)
    (hturn : FoundInTurn (s.foundOnSave disk name) (next :: names)) :
    ∃ q, (s.save disk uri text).session.cache.library next = some q ∧ q.Shows names name new := by
  obtain ⟨hrested, hforgotten, hreloaded, hres⟩ :=
    h.reloaded_save hd hname hdependents disk text
  rw [hres.library]
  exact hreloaded.cached_shows hrested hforgotten hread hp hfound hlead hturn

/-! ## What is opened later -/

/-- A document that is received was resolved against what is in the cache then. -/
theorem exists_received (h : s.cache.Rested) (disk : Disk) (uri : Uri) (text : String)
    (version : Int) : ∃ e stamp,
      (s.receive disk uri text version).session.documents.find? uri.text = some e ∧
      e.forest = .parse .editor text ∧
      e.program = (resolve (s.receive disk uri text version).session.cache.library stamp
        (some e.name) e.forest.nodes).program ∧
      (s.receive disk uri text version).session.cache.library.Named ∧
      ((∀ path ∈ linkedPaths e.forest.nodes, (s.cache.library path).isSome) →
        (s.receive disk uri text version).session.cache.library = s.cache.library) := by
  let title := Workspace.programName s.root uri.filePath
  let d := (Document.analyze s.cache.library s.cache.stamp title text (some version)).1
  let unresolved := (Document.analyze s.cache.library s.cache.stamp title text (some version)).2
  let updated : Session :=
    { s with documents := s.documents.put uri.text d, cache := s.cache.nextStamp }
  have hput : updated.documents.find? uri.text = some d := (Table.find?_put ..).trans (if_pos rfl)
  have hreceive : (s.receive disk uri text version).session = if unresolved.isEmpty then updated
      else (updated.load disk unresolved).reresolve uri.text := by
    unfold receive
    dsimp only
    split <;> rename_i hempty
    · exact (if_pos hempty).symm
    · exact (if_neg hempty).symm
  rw [hreceive]
  split
  · exact ⟨d, s.cache.stamp, hput, rfl, rfl, h.backs.named, fun _ => rfl⟩
  · rename_i hmissing
    have hreloaded := reloaded_load (s := updated) h.nextStamp disk unresolved
    have hres := reresolved_one (updated.load disk unresolved) uri.text
    obtain ⟨stamp, hfind⟩ := hres.those uri.text List.mem_cons_self
    have hload : (updated.load disk unresolved).documents.find? uri.text = some d := hput
    rw [hload] at hfind
    rw [hres.library]
    refine ⟨_, stamp, hfind, rfl, rfl, hreloaded.rested.backs.named, fun hcached => ?_⟩
    -- something is not in the cache, for else nothing would be loaded
    obtain ⟨path, hpath⟩ := List.exists_mem_of_ne_nil _ (by rwa [List.isEmpty_iff] at hmissing)
    obtain ⟨hlinked, hnone⟩ := mem_unresolved.mp hpath
    have hsome := hcached path hlinked
    rw [hnone] at hsome
    cases hsome

/-- **A document that is opened later** shows by the way of a file what the program of that file
shows that is in the cache. If all that it links to is there, this is the cache from before. -/
theorem received_shows (h : s.cache.Rested) (disk : Disk) (uri : Uri) (text : String)
    (version : Int) : ∃ e,
      (s.receive disk uri text version).session.documents.find? uri.text = some e ∧
      (∀ next ∈ e.program.dependencies, ∀ p,
        (s.receive disk uri text version).session.cache.library next = some p →
        ∀ names name new, e.program.Shows (next :: names) name new ↔ p.Shows names name new) ∧
      ((∀ path ∈ e.program.dependencies, (s.cache.library path).isSome) →
        (s.receive disk uri text version).session.cache.library = s.cache.library) := by
  obtain ⟨e, stamp, he, hparsed, hprogram, hnamed, hkept⟩ :=
    exists_received h disk uri text version
  -- what the text links to and what the program depends on are the same paths
  have hdependencies : ∀ path,
      path ∈ linkedPaths e.forest.nodes ↔ path ∈ e.program.dependencies := by
    intro path
    rw [hprogram]
    refine ⟨fun hpath => ?_, fun hpath => dependencies_subset_linkedPaths _ _ _ _ hpath⟩
    rw [hparsed] at hpath ⊢
    exact linkedPaths_subset_dependencies _ _ _ _ _ hpath
  refine ⟨e, he, fun next hnext p hp names name new => ?_, fun hcached => hkept fun path hpath =>
    hcached path ((hdependencies path).mp hpath)⟩
  rw [hprogram]
  exact hnamed.shows_cons_iff ((hdependencies next).mpr hnext) hp

/-- **A saved text reaches those who use the file.** At every moment of a session an open document
that links to the file tells what the text declares that the file has then. When the file is saved,
this is so for each document that is open and leads to the file through programs that are found one
after the other; and such programs in the cache show the new text from then on. At every moment a
document that is received, be it opened again after the file was saved, shows what the programs in
the cache show.

Announcements do not overlap here: each of them is heard with all the loading that it starts before
the next is. -/
theorem Run.saved_text_shown {now? : Option String} (h : s.Run name now?) :
    (∀ uri d text, s.documents.find? uri = some d → d.name ≠ name →
      name ∈ d.program.dependencies → now? = some text → d.program.Tells [] name text) ∧
    (∀ (disk : Disk) (uri : Uri) (sent : Option String) (d : Document) (new : String),
      s.documents.find? uri.text = some d → d.name = name → s.read disk name = some new →
      (∀ other e names, s.documents.find? other = some e → e.name ≠ name →
        (s.forgetting name).cache.library.Leads name e.program.dependencies names →
        FoundInTurn (s.foundOnSave disk name) names →
        ∃ e', (s.save disk uri sent).session.documents.find? other = some e' ∧
          e'.program.Tells names name new) ∧
      ∀ next p names, s.dependents name ≠ [] →
        (s.forgetting name).cache.library next = some p → next ∈ s.foundOnSave disk name →
        (s.forgetting name).cache.library.Leads name p.dependencies names →
        FoundInTurn (s.foundOnSave disk name) (next :: names) →
        ∃ q, (s.save disk uri sent).session.cache.library next = some q ∧
          q.Tells names name new) ∧
    ∀ (disk : Disk) (uri : Uri) (text : String) (version : Int), ∃ e,
      (s.receive disk uri text version).session.documents.find? uri.text = some e ∧
      (∀ next ∈ e.program.dependencies, ∀ p,
        (s.receive disk uri text version).session.cache.library next = some p →
        ∀ names name new, p.Shows names name new → e.program.Tells (next :: names) name new) ∧
      ((∀ path ∈ e.program.dependencies, (s.cache.library path).isSome) →
        (s.receive disk uri text version).session.cache.library = s.cache.library) := by
  refine ⟨fun uri d text hd hne hlink hnow => ?_, fun disk uri sent d new hd hname hread =>
    ⟨fun other e names he hne hlead hturn => ?_,
      fun next p names hdependents hp hfound hlead hturn => ?_⟩,
    fun disk uri text version => ?_⟩
  · exact ((hnow ▸ h.current).shows hd hne hlink).tells
  · obtain ⟨e', he', hshows⟩ := h.current.save_shows hd hname hread sent he hne hlead hturn
    exact ⟨e', he', hshows.tells⟩
  · obtain ⟨q, hq, hshows⟩ :=
      h.current.save_cached_shows hd hname hread sent hdependents hp hfound hlead hturn
    exact ⟨q, hq, hshows.tells⟩
  · obtain ⟨e, he, hshows, hkept⟩ := received_shows h.current.rested disk uri text version
    exact ⟨e, he, fun next hnext p hp names name new hp' =>
      ((hshows next hnext p hp names name new).mpr hp').tells, hkept⟩

/-! ## A file with two names, and a document that is opened again -/

/-- The URI of a file. -/
def fileUri (path : String) : Uri := ⟨"file", some "", none, path, ""⟩

/-- A disk with a directory of files. -/
def diskOf (files : List (String × String)) : Disk :=
  ⟨files.map fun f => ([f.1, "w"], f.2), [["w"]], []⟩

/-- A session in that directory, after announcements at which the disk was as given. -/
def heard (events : List (Disk × Announcement)) : Session :=
  events.foldl (fun s e => (s.hear e.1 e.2).session)
    (fresh.start ⟨none, some (fileUri "/w"), none⟩)

/-- The disk before the second file is saved. -/
def oldDisk : Disk := diskOf [("a.c", "inherit \"/b\";"), ("b.c", "int old;")]

/-- The disk when the second file is saved. -/
def newDisk : Disk := diskOf [("a.c", "inherit \"/b\";"), ("b.c", "int fresh;")]

/-- A document is opened, and the second file is edited. -/
def edited (text : String) (others : List (Disk × Announcement)) : Session :=
  heard ((oldDisk, .opened (fileUri "/w/main.c") 1 text) :: others ++
    [(oldDisk, .opened (fileUri "/w/b.c") 1 "int old;"),
      (oldDisk, .changed (fileUri "/w/b.c") 2 "int fresh;")])

/-- The second file is saved. -/
def saved (s : Session) : Session := (s.save newDisk (fileUri "/w/b.c") none).session

/-- How many members of a name the document finds in what it inherits. -/
def count (s : Session) (name : String) : Option Nat :=
  (s.documents.find? (fileUri "/w/main.c").text).map fun d =>
    (d.program.superIdentifiers name).length

theorem run_edited : Run "/b" (edited "inherit \"/b\";" []) (some "int old;") := by
  have hstart : (heard []).read oldDisk "/b" = some "int old;" := by decide +kernel
  have h₀ : Run "/b" (heard []) (some "int old;") :=
    hstart ▸ .started ⟨none, some (fileUri "/w"), none⟩ oldDisk
  have h₁ : Run "/b" (heard [(oldDisk, .opened (fileUri "/w/main.c") 1 "inherit \"/b\";")])
      (some "int old;") := h₀.unsaved (by decide +kernel)
  have h₂ : Run "/b" (heard [(oldDisk, .opened (fileUri "/w/main.c") 1 "inherit \"/b\";"),
      (oldDisk, .opened (fileUri "/w/b.c") 1 "int old;")]) (some "int old;") :=
    h₁.unsaved (by decide +kernel)
  exact h₂.unsaved (by decide +kernel)

/-- The document that inherits the second file tells what that declares, before and after it is
saved. -/
theorem saved_text_shown_edited : Run "/b" (edited "inherit \"/b\";" []) (some "int old;") ∧
    ∃ d e, (edited "inherit \"/b\";" []).documents.find? (fileUri "/w/main.c").text = some d ∧
      d.program.Tells [] "/b" "int old;" ∧
      (saved (edited "inherit \"/b\";" [])).documents.find? (fileUri "/w/main.c").text = some e ∧
      e.program.Tells [] "/b" "int fresh;" := by
  obtain ⟨hnow, hsaved, -⟩ := run_edited.saved_text_shown
  have hmain : ((edited "inherit \"/b\";" []).documents.find? (fileUri "/w/main.c").text).any
      fun d => d.name != "/b" && d.program.dependencies.contains "/b" := by decide +kernel
  have hfile : ((edited "inherit \"/b\";" []).documents.find? (fileUri "/w/b.c").text).any
      fun d => d.name == "/b" := by decide +kernel
  obtain ⟨d, hd, hlinked⟩ := (Option.any_eq_true ..).mp hmain
  obtain ⟨b, hb, hname⟩ := (Option.any_eq_true ..).mp hfile
  obtain ⟨hother, hlink⟩ := Bool.and_eq_true_iff.mp hlinked
  have hne : d.name ≠ "/b" := bne_iff_ne.mp hother
  have hmem : "/b" ∈ d.program.dependencies := List.contains_iff_mem.mp hlink
  obtain ⟨hopen, -⟩ := hsaved newDisk (fileUri "/w/b.c") none b "int fresh;" hb
    (beq_iff_eq.mp hname) (by decide +kernel)
  obtain ⟨e, he, htells⟩ := hopen _ d [] hd hne (.here hmem) List.isChain_nil
  exact ⟨run_edited, d, e, hd, hnow _ d _ hd hne hmem rfl, he, htells⟩

/-- Nothing depends on the second file, so it is only forgotten when it is saved. -/
theorem saved_of_closed {s : Session} (closed : List String) (hname : "/b" ∉ closed)
    (hb : ((s.documents.find? (fileUri "/w/b.c").text).any fun d => d.name == "/b") = true)
    (hclosed : ∀ next ∈ closed, ∀ p ∈ (s.forgetting "/b").cache.published.find? next,
      p.dependencies ⊆ closed)
    (hdocuments : ∀ e ∈ s.documents, e.2.program.dependencies ⊆ closed) :
    saved s = s.forgetting "/b" := by
  obtain ⟨b, hb, hbname⟩ := (Option.any_eq_true ..).mp hb
  have hnone : s.dependents "/b" = [] := dependentsOf_eq_nil hname hclosed hdocuments
  rw [saved, session_save hb, beq_iff_eq.mp hbname, hnone]
  rfl

/-- **A saved text does not reach everyone who uses the file.** A document that inherits it by its
full name is no dependent, and one that is opened after the file was saved finds it through a
program that was loaded before. Both still find the member that is gone, and not the one that is
there now. -/
theorem saved_text_missed :
    (let s := saved (edited "inherit \"/b.c\";" [])
    s.read newDisk "/b.c" = some "int fresh;" ∧ s.count "old" = some 1 ∧ s.count "fresh" = some 0) ∧
    let s := (saved (edited "inherit \"/a\";" [(oldDisk, .closed (fileUri "/w/main.c"))])).hear
      newDisk (.opened (fileUri "/w/main.c") 2 "inherit \"/a\";") |>.session
    s.read newDisk "/b" = some "int fresh;" ∧
        s.count "old" = some 1 ∧ s.count "fresh" = some 0 := by
  have halias : saved (edited "inherit \"/b.c\";" []) =
      (edited "inherit \"/b.c\";" []).forgetting "/b" :=
    saved_of_closed ["/b.c"] (by decide) (by decide +kernel) (by decide +kernel)
      (by decide +kernel)
  have hagain : saved (edited "inherit \"/a\";" [(oldDisk, .closed (fileUri "/w/main.c"))]) =
      (edited "inherit \"/a\";" [(oldDisk, .closed (fileUri "/w/main.c"))]).forgetting "/b" :=
    saved_of_closed [] (by decide) (by decide +kernel) (by decide +kernel) (by decide +kernel)
  rw [halias, hagain]
  decide +kernel

end Session

end MudEdit
