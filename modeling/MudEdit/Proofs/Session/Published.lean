import MudEdit.Proofs.Session.Loaded

/-!
# What is published

An editor shows of a document what was sent of it last. However documents are opened, changed,
saved and closed, and whatever is configured meanwhile, these are the findings of the document as
it is in the session, which has the text that the editor gave last. The findings of a document
that was closed are taken back.
-/

namespace MudEdit

/-! ## What an editor says -/

/-- A text that an editor gave to a document. -/
structure Told where
  uri : Uri
  version : Int
  text : String
  deriving DecidableEq, Repr

namespace Announcement

/-- The text of a document after an announcement. A document that is closed has none. -/
def tell (uri : String) (known : Option Told) : Announcement → Option Told
  | .opened u version text => if u.text = uri then some ⟨u, version, text⟩ else known
  | .changed u version (some text) => if u.text = uri then some ⟨u, version, text⟩ else known
  | .closed u => if u.text = uri then none else known
  | _ => known

def closes (uri : String) : Announcement → Bool
  | .closed u => u.text = uri
  | _ => false

/-- The settings after an announcement. -/
def adjust (settings : Settings) : Announcement → Settings
  | .configured value => (Settings.ofJson? value).getD settings
  | _ => settings

end Announcement

/-- The text that an editor gave to a document last, unless it was closed since then. -/
def told (uri : String) (history : List Announcement) : Option Told :=
  history.foldl (Announcement.tell uri) none

@[simp] theorem told_concat (uri : String) (history : List Announcement) (a : Announcement) :
    told uri (history ++ [a]) = a.tell uri (told uri history) := List.foldl_concat ..

/-! ## What an editor is sent -/

/-- The findings of a document, and the version of its text, if a message is about them. -/
def Sent.of? (uri : String) : Sent → Option (List Finding × Option Int)
  | .findings other found version => if other = uri then some (found, version) else none
  | .log _ _ => none

/-- The findings of a document that were sent last. -/
def lastFindings (uri : String) (sent : List Sent) : Option (List Finding × Option Int) :=
  (sent.filterMap (Sent.of? uri)).getLast?

@[simp] theorem lastFindings_nil (uri : String) : lastFindings uri [] = none := rfl

/-- The last findings are among what was sent last, if any are. -/
theorem lastFindings_append (uri : String) (sent more : List Sent) :
    lastFindings uri (sent ++ more) = (lastFindings uri more).or (lastFindings uri sent) := by
  rw [lastFindings, List.filterMap_append, List.getLast?_append]
  rfl

namespace Session

variable {s t : Session} {uri : String} {d : Document}

/-- The findings of a document as they are now. -/
def verdict (s : Session) (uri : String) : Option (List Finding × Option Int) :=
  (s.documents.find? uri).map fun d => (s.shown d, d.version)

/-- To publish for a document tells its findings and no others. -/
theorem lastFindings_publish (s : Session) (uri other : String) :
    lastFindings uri (s.publish other) = if other = uri then s.verdict uri else none := by
  unfold publish verdict
  by_cases h : other = uri
  · subst h
    cases s.documents.find? other <;> simp [lastFindings, Sent.of?]
  · cases s.documents.find? other <;> simp [lastFindings, Sent.of?, h]

/-- To publish for several documents tells those of each. -/
theorem lastFindings_publish_all (s : Session) (uri : String) (uris : List String) :
    lastFindings uri (uris.flatMap s.publish) = if uri ∈ uris then s.verdict uri else none := by
  induction uris with
  | nil => rfl
  | cons first uris ih =>
    rw [List.flatMap_cons, lastFindings_append, ih, lastFindings_publish]
    by_cases hfirst : first = uri
    · subst hfirst
      by_cases hmem : first ∈ uris <;> cases s.verdict first <;> simp [hmem]
    · by_cases hmem : uri ∈ uris <;> simp [hmem, hfirst, Ne.symm hfirst]

/-- Where nothing is open there is nothing to find. -/
theorem verdict_none (h : s.documents.find? uri = none) : s.verdict uri = none := by
  rw [verdict, h]
  rfl

/-- What is found depends on the document and the settings only. -/
theorem verdict_congr (hd : t.documents.find? uri = s.documents.find? uri)
    (hset : t.settings = s.settings) : t.verdict uri = s.verdict uri := by
  unfold verdict shown
  rw [hd, hset]

/-! ## Settings -/

/-- To resolve documents again changes neither root nor settings. -/
theorem standing_reresolve (s : Session) (uris : List String) :
    (uris.foldl reresolve s).root = s.root ∧ (uris.foldl reresolve s).settings = s.settings := by
  induction uris generalizing s with
  | nil => exact ⟨rfl, rfl⟩
  | cons uri uris ih =>
    have hone : (s.reresolve uri).root = s.root ∧ (s.reresolve uri).settings = s.settings := by
      unfold reresolve
      split <;> exact ⟨rfl, rfl⟩
    exact ⟨(ih _).1.trans hone.1, (ih _).2.trans hone.2⟩

/-- Nor does a text that arrives. -/
theorem standing_receive (s : Session) (disk : Disk) (uri : Uri) (text : String) (version : Int) :
    (s.receive disk uri text version).session.root = s.root ∧
      (s.receive disk uri text version).session.settings = s.settings := by
  unfold receive
  dsimp only
  split
  · exact ⟨rfl, rfl⟩
  · exact standing_reresolve _ [uri.text]

/-- Nor does a save. -/
theorem standing_save (s : Session) (disk : Disk) (uri : Uri) (text : Option String) :
    (s.save disk uri text).session.root = s.root ∧
      (s.save disk uri text).session.settings = s.settings := by
  cases hd : s.documents.find? uri.text with
  | none =>
    unfold save
    rw [hd]
    exact ⟨rfl, rfl⟩
  | some d =>
    rw [session_save hd]
    split
    · exact ⟨rfl, rfl⟩
    · exact standing_reresolve _ _

/-- Only a configuration changes settings, and nothing moves the workspace. -/
theorem standing_hear (s : Session) (disk : Disk) (a : Announcement) :
    (s.hear disk a).session.root = s.root ∧
      (s.hear disk a).session.settings = a.adjust s.settings := by
  cases a with
  | initialized => exact ⟨rfl, rfl⟩
  | opened uri version text => exact standing_receive ..
  | changed uri version text =>
    cases text with
    | none => exact ⟨rfl, rfl⟩
    | some text => exact standing_receive ..
  | saved uri text => exact standing_save ..
  | closed uri => exact ⟨rfl, rfl⟩
  | configured value =>
    simp only [hear, reconfigure, Announcement.adjust]
    cases Settings.ofJson? value <;> exact ⟨rfl, rfl⟩

/-! ## Documents -/

/-- The document is what a session makes of a text, when it has the library. -/
structure Makes (root : Option String) (library : Library) (known : Told) (d : Document) :
    Prop where
  name : d.name = Workspace.programName root known.uri.filePath
  text : d.text = known.text
  version : d.version = some known.version
  parsed : d.forest = Forest.parse .editor known.text
  resolved : ∃ stamp, d.program = (resolve library stamp (some d.name) d.forest.nodes).program ∧
    d.missing = (resolve library stamp (some d.name) d.forest.nodes).unresolved

/-- A document that is resolved again stands for the same text. -/
theorem Makes.reresolve {root : Option String} {library : Library} {known : Told}
    (h : Makes root library known d) (now : Library) (stamp : Nat) :
    Makes root now known (d.reresolve now stamp) :=
  ⟨h.name, h.text, h.version, h.parsed, stamp, rfl, rfl⟩

/-- A text that arrives makes the document, and no other one. -/
theorem find?_update (s : Session) (uri : Uri) (text : String) (version : Int) (other : String) :
    (s.update uri text version).1.documents.find? other = if other = uri.text then
      some (Document.analyze s.cache.library s.cache.stamp
        (Workspace.programName s.root uri.filePath) text (some version)).1
    else s.documents.find? other := Table.find?_put ..

/-- So all others stay as they are. -/
theorem find?_receive_other (s : Session) (disk : Disk) (uri : Uri) (text : String) (version : Int)
    {other : String} (hother : other ≠ uri.text) :
    (s.receive disk uri text version).session.documents.find? other =
      s.documents.find? other := by
  have hupdate := (s.find?_update uri text version other).trans (if_neg hother)
  unfold receive
  dsimp only
  split
  · exact hupdate
  · exact ((reresolved_one ..).others other (by simpa using hother)).trans hupdate

/-- The document is made of the text, with the library as it is in the end. -/
theorem makes_receive (s : Session) (disk : Disk) (uri : Uri) (text : String) (version : Int) :
    ∃ d, (s.receive disk uri text version).session.documents.find? uri.text = some d ∧
      Makes s.root (s.receive disk uri text version).session.cache.library ⟨uri, version, text⟩
        d := by
  have hupdate := (s.find?_update uri text version uri.text).trans (if_pos rfl)
  unfold receive
  dsimp only
  split
  · rename_i hempty
    exact ⟨_, hupdate, rfl, rfl, rfl, rfl, s.cache.stamp, rfl, (List.isEmpty_iff.mp hempty).symm⟩
  -- something lacked, so the document has been resolved again after the loading
  · have hres := reresolved_one ((s.update uri text version).1.load disk
      (s.update uri text version).2) uri.text
    obtain ⟨stamp, hfind⟩ := hres.those uri.text (List.mem_singleton.mpr rfl)
    rw [hres.library]
    refine ⟨_, hfind.trans (congrArg _ hupdate), ?_⟩
    exact ⟨rfl, rfl, rfl, rfl, stamp, rfl, rfl⟩

/-- What is saved leaves a document as it is, or resolves it against what is loaded then, after
all that the document names was looked for. -/
theorem find?_save (s : Session) (disk : Disk) (saved : Uri) (text : Option String)
    (uri : String) :
    let t := (s.save disk saved text).session
    t.documents.find? uri = s.documents.find? uri ∨
      ∃ stamp, t.documents.find? uri =
          (s.documents.find? uri).map (.reresolve t.cache.library stamp) ∧
        (s.cache.Rested → ∀ d, s.documents.find? uri = some d →
          t.Sought disk d.program.dependencies) := by
  dsimp only
  cases hd : s.documents.find? saved.text with
  | none =>
    unfold save
    rw [hd]
    exact .inl rfl
  | some d =>
    -- a dependent is resolved again, and all others are left alone
    by_cases huri : uri ∈ s.dependents d.name
    · have hne : s.dependents d.name ≠ [] := List.ne_nil_of_mem huri
      have hres := reresolved
        ((s.forgetting d.name).load disk (s.links (s.dependents d.name))) (s.dependents d.name)
      obtain ⟨stamp, hfind⟩ := hres.those uri huri
      refine .inr ⟨stamp, ?_, fun hrested e he => ?_⟩
      · rw [session_save hd, if_neg (by rwa [List.isEmpty_iff])]
        exact hres.library ▸ hfind
      · exact (grows_save hrested hd text hne).sought.mono fun path hpath =>
          mem_links huri he hpath
    · refine .inl ?_
      rw [session_save hd]
      split
      · rfl
      · exact (reresolved ..).others uri huri

/-- What does not depend on what is saved is left as it is. -/
theorem find?_save_other {saved : Uri} (hd : s.documents.find? saved.text = some d) (disk : Disk)
    (text : Option String) (huri : uri ∉ s.dependents d.name) :
    (s.save disk saved text).session.documents.find? uri = s.documents.find? uri := by
  rw [session_save hd]
  split
  · rfl
  · exact (reresolved ..).others uri huri

/-- What an announcement does to the document of a URI: it gives the document a text, or closes it,
or leaves its text to it, perhaps resolved against what is loaded then. Whatever the document names
is looked for on the disk before it is resolved. -/
inductive Affects (uri : String) (disk : Disk) (a : Announcement) (s t : Session) : Prop
  | told (known : Told) (htell : ∀ before, a.tell uri before = some known) (d : Document)
      (hfind : t.documents.find? uri = some d) (hmakes : Makes s.root t.cache.library known d)
      (hsought : s.cache.Rested →
        t.Sought disk (linkedPaths (Forest.parse .editor known.text).nodes))
  | closed (htell : ∀ before, a.tell uri before = none) (hfind : t.documents.find? uri = none)
  | kept (htell : ∀ before, a.tell uri before = before)
      (hfind : t.documents.find? uri = s.documents.find? uri)
  | resolved (htell : ∀ before, a.tell uri before = before) (stamp : Nat)
      (hfind : t.documents.find? uri =
        (s.documents.find? uri).map (.reresolve t.cache.library stamp))
      (hsought : s.cache.Rested → ∀ d, s.documents.find? uri = some d →
        t.Sought disk d.program.dependencies)

theorem affects_receive (s : Session) (disk : Disk) (u : Uri) (text : String) (version : Int)
    (uri : String) {a : Announcement} (htell : ∀ before, a.tell uri before =
      if u.text = uri then some ⟨u, version, text⟩ else before) :
    Affects uri disk a s (s.receive disk u text version).session := by
  by_cases hu : u.text = uri
  · subst hu
    obtain ⟨d, hfind, hmakes⟩ := makes_receive s disk u text version
    exact .told _ (fun before => (htell before).trans (if_pos rfl)) d hfind hmakes fun hrested =>
      sought_receive hrested disk u text version
  · exact .kept (fun before => (htell before).trans (if_neg hu))
      (find?_receive_other s disk u text version (Ne.symm hu))

/-- Each announcement does to a document one of the few things there are. -/
theorem affects_hear (s : Session) (disk : Disk) (a : Announcement) (uri : String) :
    Affects uri disk a s (s.hear disk a).session := by
  cases a with
  | initialized => exact .kept (fun _ => rfl) rfl
  | opened u version text => exact affects_receive s disk u text version uri fun _ => rfl
  | changed u version text =>
    cases text with
    | none => exact .kept (fun _ => rfl) rfl
    | some text => exact affects_receive s disk u text version uri fun _ => rfl
  | saved u text =>
    rcases find?_save s disk u text uri with hkept | ⟨stamp, hresolved, hsought⟩
    · exact .kept (fun _ => rfl) hkept
    · exact .resolved (fun _ => rfl) stamp hresolved hsought
  | closed u =>
    have hremove := Table.find?_remove s.documents u.text uri
    by_cases hu : u.text = uri
    · exact .closed (fun _ => if_pos hu) (hremove.trans (if_pos hu.symm))
    · exact .kept (fun _ => if_neg hu) (hremove.trans (if_neg (Ne.symm hu)))
  | configured value =>
    refine .kept (fun _ => rfl) ?_
    simp only [hear, reconfigure]
    cases Settings.ofJson? value <;> rfl

/-! ## What is sent -/

/-- After a text has arrived, the last findings told are those that hold. -/
theorem lastFindings_receive (s : Session) (disk : Disk) (u : Uri) (text : String) (version : Int)
    (uri : String) :
    (lastFindings uri (s.receive disk u text version).sent).or (s.verdict uri) =
      (s.receive disk u text version).session.verdict uri := by
  by_cases hu : u.text = uri
  · subst hu
    obtain ⟨d, hd, -⟩ := makes_receive s disk u text version
    -- the document is open, so it has findings to tell
    have hsome : ((s.receive disk u text version).session.verdict u.text).isSome := by
      simp [verdict, hd]
    have hlast : lastFindings u.text (s.receive disk u text version).sent =
        (s.receive disk u text version).session.verdict u.text := by
      revert hsome
      unfold receive
      dsimp only
      split
      · simp [lastFindings_publish]
      · intro hsome
        rw [lastFindings_append, lastFindings_publish, if_pos rfl, lastFindings_publish,
          if_pos rfl, Option.or_of_isSome hsome]
    rw [hlast, Option.or_of_isSome hsome]
  -- nothing is told of other documents, and nothing changes for them
  · have hnone : lastFindings uri (s.receive disk u text version).sent = none := by
      unfold receive
      dsimp only
      split <;> simp [lastFindings_append, lastFindings_publish, hu]
    rw [hnone, Option.none_or]
    exact (verdict_congr (find?_receive_other s disk u text version (Ne.symm hu))
      (standing_receive ..).2).symm

/-- So they are after a save. -/
theorem lastFindings_save (s : Session) (disk : Disk) (u : Uri) (text : Option String)
    (uri : String) :
    (lastFindings uri (s.save disk u text).sent).or (s.verdict uri) =
      (s.save disk u text).session.verdict uri := by
  cases hd : s.documents.find? u.text with
  | none =>
    unfold save
    rw [hd]
    rfl
  | some d =>
    have hsent : (s.save disk u text).sent =
        (s.dependents d.name).flatMap (s.save disk u text).session.publish := by
      unfold save
      rw [hd]
      rfl
    rw [hsent, lastFindings_publish_all]
    split
    · -- what depends on the name is open before and after
      cases hopen : s.documents.find? uri with
      | none => rw [verdict_none hopen, Option.or_none]
      | some e =>
        refine Option.or_of_isSome ?_
        rcases find?_save s disk u text uri with hfind | ⟨stamp, hfind, -⟩ <;>
          simp [verdict, hfind, hopen]
    · rename_i huri
      exact (verdict_congr (find?_save_other hd disk text huri) (standing_save ..).2).symm

/-- Unless a document is closed, its findings are sent whenever they are not what they were. -/
theorem lastFindings_hear (s : Session) (disk : Disk) {a : Announcement} {uri : String}
    (hopen : a.closes uri = false) :
    (lastFindings uri (s.hear disk a).sent).or (s.verdict uri) =
      (s.hear disk a).session.verdict uri := by
  cases a with
  | initialized => rfl
  | opened u version text => exact lastFindings_receive ..
  | changed u version text =>
    cases text with
    | none => rfl
    | some text => exact lastFindings_receive ..
  | saved u text => exact lastFindings_save ..
  | closed u =>
    have hu : u.text ≠ uri := by simpa [Announcement.closes] using hopen
    have hfind : (s.hear disk (.closed u)).session.documents.find? uri = s.documents.find? uri :=
      (Table.find?_remove ..).trans (if_neg hu.symm)
    have hnone : lastFindings uri (s.hear disk (.closed u)).sent = none := by
      simp [hear, lastFindings, Sent.of?, hu]
    rw [hnone, Option.none_or]
    exact (verdict_congr hfind rfl).symm
  | configured value =>
    simp only [hear, reconfigure]
    cases Settings.ofJson? value with
    | none => rfl
    | some settings =>
      dsimp only
      -- new settings are followed by the findings of all that is open
      rw [lastFindings_publish_all]
      cases hfind : s.documents.find? uri with
      | none =>
        have hnone : (s.configure settings).verdict uri = none := verdict_none hfind
        rw [verdict_none hfind, hnone, ite_self]
        rfl
      | some d =>
        rw [if_pos (Table.mem_names_of_find? hfind)]
        exact Option.or_of_isSome (by simp [verdict, configure, hfind])

/-! ## Runs -/

/-- The session after announcements, at each of which the disk was as given. -/
def after (s : Session) (events : List (Disk × Announcement)) : Session :=
  events.foldl (fun s e => (s.hear e.1 e.2).session) s

/-- All that is sent in the course of announcements. -/
def sentIn (s : Session) : List (Disk × Announcement) → List Sent
  | [] => []
  | (disk, a) :: events => (s.hear disk a).sent ++ (s.hear disk a).session.sentIn events

/-- Announcements are heard one after the other. -/
theorem after_concat (s : Session) (events : List (Disk × Announcement))
    (e : Disk × Announcement) :
    s.after (events ++ [e]) = ((s.after events).hear e.1 e.2).session := List.foldl_concat ..

/-- And so is what is sent. -/
theorem sentIn_concat (s : Session) (events : List (Disk × Announcement))
    (e : Disk × Announcement) :
    s.sentIn (events ++ [e]) = s.sentIn events ++ ((s.after events).hear e.1 e.2).sent := by
  induction events generalizing s with
  | nil => simp [sentIn, after]
  | cons first events ih =>
    simp only [List.cons_append, sentIn, ih, List.append_assoc]
    rfl

/-- The root stays, and the settings are what was announced. -/
theorem standing_after (s : Session) (events : List (Disk × Announcement)) :
    (s.after events).root = s.root ∧
      (s.after events).settings = (events.map Prod.snd).foldl Announcement.adjust s.settings := by
  induction events using List.reverseRecOn with
  | nil => exact ⟨rfl, rfl⟩
  | append_singleton events e ih =>
    obtain ⟨disk, a⟩ := e
    obtain ⟨hroot, hsettings⟩ := standing_hear (s.after events) disk a
    rw [after_concat, List.map_append, List.foldl_append, hroot, hsettings, ih.1, ih.2]
    exact ⟨rfl, rfl⟩

/-- Between announcements the cache is at rest. -/
theorem rested_after (hs : s.cache.Rested) (events : List (Disk × Announcement)) :
    (s.after events).cache.Rested := by
  induction events using List.reverseRecOn with
  | nil => exact hs
  | append_singleton events e ih =>
    rw [after_concat]
    exact (feeds_hear ih e.1 e.2).rested

/-- An open document is what a session makes of the text that the editor gave last, with what was
loaded at some time since then, when all that the text names had been looked for. -/
theorem makes_after (hs : s.documents = []) (hrested : s.cache.Rested)
    (events : List (Disk × Announcement)) (uri : String) :
    match told uri (events.map Prod.snd) with
    | none => (s.after events).documents.find? uri = none
    | some known => ∃ d, (s.after events).documents.find? uri = some d ∧
        ∃ earlier e, earlier ++ [e] <+: events ∧
          told uri ((earlier ++ [e]).map Prod.snd) = some known ∧
          Makes s.root (s.after (earlier ++ [e])).cache.library known d ∧
          (s.after (earlier ++ [e])).Sought e.1
            (linkedPaths (Forest.parse .editor known.text).nodes) := by
  induction events using List.reverseRecOn with
  | nil =>
    show s.documents.find? uri = none
    rw [hs]
    rfl
  | append_singleton events e ih =>
    have hroot := (standing_after s events).1
    have hrested := rested_after hrested events
    have htold : told uri ((events ++ [e]).map Prod.snd) =
        e.2.tell uri (told uri (events.map Prod.snd)) := by
      rw [List.map_append, List.map_singleton, told_concat]
    rw [htold, after_concat]
    cases affects_hear (s.after events) e.1 e.2 uri with
    | told known htell d hfind hmakes hsought =>
      rw [htell]
      refine ⟨d, hfind, events, e, List.prefix_refl _, htold.trans (htell _), ?_⟩
      rw [after_concat]
      exact ⟨hroot ▸ hmakes, hsought hrested⟩
    | closed htell hfind =>
      rw [htell]
      exact hfind
    | kept htell hfind =>
      rw [htell, hfind]
      split at ih
      · exact ih
      · obtain ⟨d, hd, earlier, e', hprefix, hsince⟩ := ih
        exact ⟨d, hd, earlier, e', hprefix.trans (List.prefix_append ..), hsince⟩
    | resolved htell stamp hfind hsought =>
      rw [htell] at htold
      rw [htell, hfind]
      split at ih
      · rw [ih]
        rfl
      · rename_i known hknown
        obtain ⟨d, hd, _, _, -, -, hmakes, -⟩ := ih
        rw [hd]
        refine ⟨_, rfl, events, e, List.prefix_refl _, htold.trans hknown, ?_⟩
        rw [after_concat]
        refine ⟨hmakes.reresolve _ stamp, (hsought hrested d hd).mono ?_⟩
        -- the document depends on all that its text names
        obtain ⟨first, hprogram, -⟩ := hmakes.resolved
        rw [hprogram, hmakes.parsed]
        exact linkedPaths_subset_dependencies _ _ _ _ _

/-- What was sent last of a document is what is found in it now, or that nothing is found since it
is closed. -/
theorem lastFindings_sentIn (hs : s.documents = []) (events : List (Disk × Announcement))
    (uri : String) :
    lastFindings uri (s.sentIn events) = ((s.after events).verdict uri).or
      (if (events.map Prod.snd).any (·.closes uri) then some ([], none) else none) := by
  induction events using List.reverseRecOn with
  | nil =>
    have hnone : s.verdict uri = none := verdict_none (by rw [hs]; rfl)
    show none = (s.verdict uri).or none
    rw [hnone]
    rfl
  | append_singleton events e ih =>
    -- the last announcement either closes the document or tells what holds, if it tells anything
    obtain ⟨disk, a⟩ := e
    rw [sentIn_concat, lastFindings_append, ih, after_concat, ← Option.or_assoc, List.map_append,
      List.any_append]
    cases hcloses : a.closes uri with
    | false =>
      rw [lastFindings_hear _ disk hcloses]
      simp only [List.map_singleton, List.any_cons, List.any_nil, hcloses, Bool.or_false]
    | true =>
      cases a with
      | closed u =>
        have hu : u.text = uri := by simpa [Announcement.closes] using hcloses
        have hnone : ((s.after events).hear disk (.closed u)).session.verdict uri = none :=
          verdict_none ((Table.find?_remove ..).trans (if_pos hu.symm))
        have htaken : lastFindings uri ((s.after events).hear disk (.closed u)).sent =
            some ([], none) := by simp [hear, lastFindings, Sent.of?, hu]
        rw [hnone, htaken]
        simp [hcloses]
      | _ => exact absurd hcloses (by simp [Announcement.closes])

/-- **An editor always ends up with the right findings.** In every session, whatever the disk is at
each announcement, a document is open exactly if the editor gave it a text since it was last closed.
Then it has the text and the version of that, it was parsed as an editor's text and resolved against
what was loaded at some time since then, and what was sent of it last are its findings now, or none
if they are not to be shown. Of a document that was closed, what was sent last is that nothing is
found. -/
theorem findings_published (i : Introduction) (events : List (Disk × Announcement)) (uri : String) :
    let start := fresh.start i
    let history := events.map Prod.snd
    let s := start.after events
    s.settings = history.foldl Announcement.adjust start.settings ∧
      match told uri history with
      | some known => ∃ d, s.documents.find? uri = some d ∧
          (∃ earlier, earlier <+: events ∧ told uri (earlier.map Prod.snd) = some known ∧
            Makes start.root (start.after earlier).cache.library known d) ∧
          lastFindings uri (start.sentIn events) =
            some (if s.settings.showDiagnostics then d.findings else [], some known.version)
      | none => s.documents.find? uri = none ∧ lastFindings uri (start.sentIn events) =
          if history.any (·.closes uri) then some ([], none) else none := by
  intro start history s
  have hempty : start.documents = [] := rfl
  have hmakes := makes_after hempty Cache.rested_empty events uri
  have hlast := lastFindings_sentIn hempty events uri
  refine ⟨(standing_after start events).2, ?_⟩
  split at hmakes
  · rename_i htold
    rw [verdict_none hmakes, Option.none_or] at hlast
    rw [htold]
    exact ⟨hmakes, hlast⟩
  · rename_i known htold
    obtain ⟨d, hd, earlier, e, hprefix, hsince, hof, -⟩ := hmakes
    rw [htold]
    refine ⟨d, hd, ⟨_, hprefix, hsince, hof⟩, ?_⟩
    rw [hlast, verdict, hd, ← hof.version]
    rfl

end Session

end MudEdit
