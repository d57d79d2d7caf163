import MudEdit.Proofs.Session.Run

/-!
# What a session has loaded

Whenever documents are resolved, all that they name is loaded before, as far as it can be read
then. And nothing is loaded that could not be read at some time.
-/

namespace MudEdit

namespace Session

variable {s t : Session} {disk : Disk} {uri : String} {uris names : List String} {d : Document}

/-- The programs of the names are loaded, as far as there are files for them. -/
def Sought (s : Session) (disk : Disk) (names : List String) : Prop :=
  ∀ name ∈ names, s.cache.library name = none → s.read disk name = none

/-- Fewer names have been sought as well. -/
theorem Sought.mono {more : List String} (h : s.Sought disk more) (hsub : names ⊆ more) :
    s.Sought disk names := fun name hname => h name (hsub hname)

/-- Somebody who looks for names finds them or leaves them, and takes nothing from the cache. -/
structure Grows (disk : Disk) (names : List String) (s t : Session) : Prop where
  rested : t.cache.Rested
  layout : t.layout = s.layout
  kept : ∀ name, (s.cache.library name).isSome → (t.cache.library name).isSome
  read : ∀ name, (t.cache.library name).isSome →
    (s.cache.library name).isSome ∨ (s.read disk name).isSome
  found : ∀ name ∈ names, (s.read disk name).isSome → (t.cache.library name).isSome

/-- At rest a name has a program if it has a source. -/
theorem isSome_library {c : Cache} (h : c.Rested) (name : String) :
    (c.library name).isSome ↔ (c.source? name).isSome := by
  constructor
  · intro hp
    obtain ⟨p, hp⟩ := Option.isSome_iff_exists.mp hp
    obtain ⟨src, hsrc, -⟩ := h.backs.source hp
    rw [hsrc]
    rfl
  · intro hsrc
    obtain ⟨src, hsrc⟩ := Option.isSome_iff_exists.mp hsrc
    obtain ⟨p, hp, -⟩ := h.backs.sourced name src hsrc
    rw [hp]
    rfl

/-- To load adds what the disk has, and takes nothing away. -/
theorem grows_load (h : s.cache.Rested) (disk : Disk) (names : List String) :
    Grows disk names s (s.load disk names) := by
  have hreloaded := reloaded_load h disk names
  refine ⟨hreloaded.rested, rfl, fun name hname => ?_, fun name hname => ?_,
    fun name hname hread => ?_⟩
  · rw [isSome_library h] at hname
    rw [isSome_library hreloaded.rested]
    obtain ⟨src, hsrc⟩ := Option.isSome_iff_exists.mp hname
    rw [hreloaded.kept name src hsrc]
    rfl
  · rw [isSome_library hreloaded.rested] at hname
    rw [isSome_library h]
    obtain ⟨src, hsrc⟩ := Option.isSome_iff_exists.mp hname
    -- a source is an old one or one that the disk has
    rcases hreloaded.fetched name src hsrc with hold | ⟨text, hread, -⟩
    · exact .inl (by rw [hold]; rfl)
    · exact .inr (by rw [hread]; rfl)
  · rw [isSome_library hreloaded.rested]
    exact hreloaded.sourced name (hreloaded.reached name hname (.inl hread))

/-- Documents that are resolved again leave the programs as they are. -/
theorem Reresolved.rested (h : Reresolved uris s t) (hr : s.cache.Rested) : t.cache.Rested :=
  (hr.of_same h.current h.places (h.library ▸ hr.backs)).1

/-- Documents that are resolved again add nothing. -/
theorem Grows.reresolved {u : Session} (h : Grows disk names s t) (hu : Reresolved uris t u) :
    Grows disk names s u := by
  refine ⟨hu.rested h.rested, hu.layout.trans h.layout, ?_, ?_, ?_⟩
  all_goals rw [hu.library]
  · exact h.kept
  · exact h.read
  · exact h.found

/-- What was looked for is there then, or there is no file for it. -/
theorem Grows.sought (h : Grows disk names s t) : t.Sought disk names := by
  intro name hname hnone
  rw [read_congr h.layout]
  refine Option.not_isSome_iff_eq_none.mp fun hread => ?_
  exact absurd (h.found name hname hread) (by simp [hnone])

/-! ## What is loaded at an announcement -/

/-- Nobody works on the cache, and what is new in it could be read. -/
structure Feeds (disk : Disk) (s t : Session) : Prop where
  rested : t.cache.Rested
  read : ∀ name, (t.cache.library name).isSome →
    (s.cache.library name).isSome ∨ (t.read disk name).isSome

theorem Feeds.of_cache (h : s.cache.Rested) (heq : t.cache = s.cache) : Feeds disk s t :=
  ⟨heq ▸ h, fun _ hname => .inl (heq ▸ hname)⟩

/-- What has grown is still fed from the disk. -/
theorem Grows.feeds {first : Session} (h : Grows disk names s t)
    (hfirst : ∀ name, (s.cache.library name).isSome → (first.cache.library name).isSome) :
    Feeds disk first t :=
  ⟨h.rested, fun name hname => (h.read name hname).imp (hfirst name) fun hread =>
    read_congr h.layout disk ▸ hread⟩

/-- A text that is received has what it names looked for, unless that is in the cache. -/
theorem feeds_receive (h : s.cache.Rested) (disk : Disk) (uri : Uri) (text : String)
    (version : Int) : Feeds disk s (s.receive disk uri text version).session := by
  have hupdate : (s.update uri text version).1.cache.Rested := h.nextStamp
  unfold receive
  dsimp only
  split
  · exact ⟨hupdate, fun _ hname => .inl hname⟩
  · exact ((grows_load hupdate disk _).reresolved (reresolved_one ..)).feeds fun _ hname => hname

/-- All that a text links to has been sought when it has been received. -/
theorem sought_receive (h : s.cache.Rested) (disk : Disk) (uri : Uri) (text : String)
    (version : Int) :
    (s.receive disk uri text version).session.Sought disk
      (linkedPaths (Forest.parse .editor text).nodes) := by
  have hupdate : (s.update uri text version).1.cache.Rested := h.nextStamp
  -- what was not there when the text arrived was noted as lacking
  have hunresolved : ∀ name ∈ linkedPaths (Forest.parse .editor text).nodes,
      s.cache.library name = none → name ∈ (s.update uri text version).2 :=
    fun name hname hnone => mem_unresolved.mpr ⟨hname, hnone⟩
  unfold receive
  dsimp only
  split
  · rename_i hempty
    intro name hname hnone
    have := hunresolved name hname hnone
    rw [List.isEmpty_iff.mp hempty] at this
    exact absurd this List.not_mem_nil
  · have hgrows := (grows_load hupdate disk (s.update uri text version).2).reresolved
      (reresolved_one _ uri.text)
    intro name hname hnone
    refine hgrows.sought name (hunresolved name hname ?_) hnone
    refine Option.not_isSome_iff_eq_none.mp fun hsome => ?_
    exact absurd (hgrows.kept name hsome) (by simp [hnone])

/-- What depends on a saved program has all that it names looked for. -/
theorem grows_save {saved : Uri} (h : s.cache.Rested)
    (hd : s.documents.find? saved.text = some d) (text : Option String)
    (hne : s.dependents d.name ≠ []) :
    Grows disk (s.links (s.dependents d.name)) (s.forgetting d.name)
      (s.save disk saved text).session := by
  rw [session_save hd, if_neg (by rwa [List.isEmpty_iff])]
  exact (grows_load (h.forget d.name) disk _).reresolved (reresolved ..)

/-- To forget adds nothing. -/
theorem library_forgetting {title name : String}
    (h : ((s.forgetting title).cache.library name).isSome) : (s.cache.library name).isSome := by
  have hlib : (s.forgetting title).cache.library name = _ :=
    Cache.library_forget s.cache title name
  rw [hlib] at h
  split at h
  · exact absurd h (by simp)
  · exact h

/-- What a save brings comes from the disk. -/
theorem feeds_save (h : s.cache.Rested) (disk : Disk) (uri : Uri) (text : Option String) :
    Feeds disk s (s.save disk uri text).session := by
  cases hd : s.documents.find? uri.text with
  | none =>
    unfold save
    rw [hd]
    exact .of_cache h rfl
  | some d =>
    by_cases hempty : s.dependents d.name = []
    · rw [session_save hd, if_pos (by rw [hempty]; rfl)]
      exact ⟨h.forget d.name, fun _ hname => .inl (library_forgetting hname)⟩
    · exact (grows_save h hd text hempty).feeds fun _ => library_forgetting

/-- **What is loaded could be read.** -/
theorem feeds_hear (h : s.cache.Rested) (disk : Disk) (a : Announcement) :
    Feeds disk s (s.hear disk a).session := by
  cases a with
  | initialized => exact .of_cache h rfl
  | opened uri version text => exact feeds_receive h disk uri text version
  | changed uri version text =>
    cases text with
    | none => exact .of_cache h rfl
    | some text => exact feeds_receive h disk uri text version
  | saved uri text => exact feeds_save h disk uri text
  | closed uri => exact .of_cache h rfl
  | configured settings =>
    refine .of_cache h ?_
    simp only [hear, reconfigure]
    cases Settings.ofJson? settings <;> rfl

end Session

end MudEdit
