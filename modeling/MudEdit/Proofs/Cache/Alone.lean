import MudEdit.Proofs.Cache.Event

/-!
# A task at work alone

When one task is at work and a store answers its calls at once, nothing else happens to the
cache. To visit a name takes the task two steps if the store has no text for it and three if
it has one, and to resolve a name again takes two. What these steps make of the cache is
written down once, as `Cache.lacked`, `Cache.fetched` and `Cache.relinked`.
-/

namespace MudEdit

variable {c : Cache} {name other : String}

namespace Cache

/-! ## What a visit makes of a cache -/

/-- The source that is kept for a name. -/
def source? (c : Cache) (name : String) : Option Source :=
  (c.current.find? name).bind fun id => (c.place id).source

/-- With a new place for a name, at which the first task asks for the text. -/
def asked (c : Cache) (name : String) : Cache :=
  (c.placeOf name).2.modifyPlace (c.placeOf name).1 (.take 0)

/-- After a visit of a new name that there is no text for. -/
def lacked (c : Cache) (name : String) : Cache :=
  (c.asked name).modifyPlace (c.placeOf name).1 .passOn

/-- After a visit of a new name with a text. -/
def fetched (c : Cache) (name text : String) : Cache :=
  let source := (c.asked name).sourceOf name text
  ((c.asked name).modifyPlace (c.placeOf name).1 (.fill source)).nextStamp.publish name
    (c.placeOf name).1 source.program

/-- After a name was resolved again, from the source at its place. -/
def relinked (c : Cache) (name : String) (place : Nat) (source : Source) : Cache :=
  c.nextStamp.publish name place (c.resolve name source.nodes).program

theorem placeOf_new (h : c.current.find? name = none) : c.placeOf name = (c.places.size,
    { c with places := c.places.push .empty, current := c.current.put name c.places.size }) := by
  rw [placeOf, h]

/-- A place that is not there is empty. -/
theorem place_of_size_le {id : Nat} (h : c.places.size ≤ id) : c.place id = .empty := by
  simp [place, Array.getD, Nat.not_lt.mpr h]

/-- At the place of the name there is no source, nobody has the turn and nobody waits. -/
def Vacant (c : Cache) (name : String) : Prop :=
  (c.placeOf name).2.place (c.placeOf name).1 = .empty

/-- A name without a place is at none that is filled. -/
theorem vacant_of_new (h : c.current.find? name = none) : c.Vacant name := by
  rw [Vacant, place_placeOf, placeOf_new h, place_of_size_le (Nat.le_refl _)]

/-- To ask for a text publishes nothing. -/
theorem library_asked (c : Cache) (name : String) : (c.asked name).library = c.library := by
  unfold library program? asked
  rw [published_modifyPlace, placeOf_published]

theorem stamp_asked (c : Cache) (name : String) : (c.asked name).stamp = c.stamp := by
  unfold asked placeOf modifyPlace
  split <;> rfl

/-- A text is resolved against what was published before. -/
theorem program_sourceOf_asked (c : Cache) (name text : String) :
    ((c.asked name).sourceOf name text).program = (MudEdit.resolve c.library c.stamp (some name)
      (Forest.parse .interpretation text).nodes).program := by
  simp only [sourceOf, Cache.resolve, library_asked, stamp_asked]

theorem source_asked (c : Cache) (name : String) (id : Nat) :
    ((c.asked name).place id).source = (c.place id).source := by
  have htake : ∀ p : Place, (p.take 0).source = p.source := fun _ => rfl
  rw [asked, source_modifyPlace _ _ _ htake, place_placeOf]

/-- The place at which the task asks is as new, but for its turn. -/
theorem place_asked (n : c.Named) (h : c.Vacant name) :
    (c.asked name).place (c.placeOf name).1 = ⟨none, some 0, []⟩ := by
  rw [asked, place_modifyPlace _ (n.placeOf_lt name), if_pos rfl, h]
  rfl

/-- What happens at the new place of a name leaves the other names as they are. -/
theorem current_placeOf_new (h : c.current.find? name = none) (other : String) :
    (c.placeOf name).2.current.find? other =
      if other = name then some c.places.size else c.current.find? other := by
  rw [placeOf_new h, Table.find?_put]

theorem Named.nextStamp (n : c.Named) : c.nextStamp.Named := n

theorem source?_eq {d : Cache} (hcur : d.current.find? other = c.current.find? other)
    (hplace : ∀ id < c.places.size, (d.place id).source = (c.place id).source) (n : c.Named) :
    d.source? other = c.source? other := by
  unfold source?
  rw [hcur]
  cases hid : c.current.find? other with
  | none => rfl
  | some id => exact hplace id (n other id hid)

/-! ### A name without a text -/

section Lacked

variable (n : c.Named) (h : c.current.find? name = none)
include h

theorem current_lacked (other : String) : (c.lacked name).current.find? other =
    if other = name then some c.places.size else c.current.find? other :=
  current_placeOf_new h other

omit h in
/-- No program is published for a name that is lacking. -/
theorem library_lacked (c : Cache) (name : String) : (c.lacked name).library = c.library :=
  library_asked c name

include n

omit h in
theorem named_lacked : (c.lacked name).Named :=
  ((n.placeOf name).modifyPlace _ _).modifyPlace _ _

/-- A name that is lacking is the only one whose place has changed. -/
theorem source?_lacked (hne : other ≠ name) : (c.lacked name).source? other = c.source? other := by
  refine source?_eq (by rw [current_lacked h, if_neg hne]) (fun id hid => ?_) n
  have hpass : ∀ p : Place, p.passOn.source = p.source := fun _ => rfl
  rw [lacked, source_modifyPlace _ _ _ hpass, source_asked]

end Lacked

/-! ### A name with a text -/

section Fetched

variable {text : String} (n : c.Named) (h : c.current.find? name = none)

include h in
theorem current_fetched (other : String) : (c.fetched name text).current.find? other =
    if other = name then some c.places.size else c.current.find? other := by
  rw [fetched, current_publish]
  exact current_placeOf_new h other

/-- The program that a text stands for when it was fetched. -/
theorem library_fetched (other : String) : (c.fetched name text).library other =
    if other = name then some (MudEdit.resolve c.library c.stamp (some name)
      (Forest.parse .interpretation text).nodes).program
    else c.library other := by
  have hcur : (c.placeOf name).2.current.find? name = some (c.placeOf name).1 :=
    current_placeOf c name
  have hput : (c.fetched name text).published = (c.asked name).published.put name
      ((c.asked name).sourceOf name text).program := by
    unfold fetched publish
    exact congrArg published (if_pos hcur)
  rw [← program_sourceOf_asked]
  -- the place is still the current one of the name, so it is published
  show (c.fetched name text).published.find? other = _
  rw [hput, Table.find?_put]
  split
  · rfl
  · exact congrFun (library_asked c name) other

include n

theorem named_fetched : (c.fetched name text).Named := by
  have hn : (c.asked name).Named := (n.placeOf name).modifyPlace _ _
  exact (hn.modifyPlace (c.placeOf name).1 _).nextStamp.publish _ _ _

include h in
/-- Of the sources only that of the name is a new one. -/
theorem source?_fetched (other : String) : (c.fetched name text).source? other =
    if other = name then some ((c.asked name).sourceOf name text) else c.source? other := by
  have hlt := n.placeOf_lt name
  have hlt' : (c.placeOf name).1 < (c.asked name).places.size := by
    rw [asked, size_modifyPlace]
    exact hlt
  -- the place is filled and all others are as they were
  have hplace (id : Nat) : (c.fetched name text).place id =
      if id = (c.placeOf name).1 then
        .fill ((c.asked name).sourceOf name text) ((c.asked name).place (c.placeOf name).1)
      else (c.asked name).place id := by
    rw [fetched, place_publish, place_nextStamp, place_modifyPlace _ hlt']
  split
  · subst other
    unfold source?
    rw [current_fetched h, if_pos rfl]
    show ((c.fetched name text).place c.places.size).source = _
    rw [hplace, if_pos (by rw [placeOf_new h])]
    rfl
  · rename_i hne
    refine source?_eq (by rw [current_fetched h, if_neg hne]) (fun id hid => ?_) n
    have hid' : id ≠ (c.placeOf name).1 := by
      rw [placeOf_new h]
      exact Nat.ne_of_lt hid
    rw [hplace, if_neg hid', source_asked]

end Fetched

/-! ### A name that is resolved again -/

section Relinked

variable {place : Nat} {source : Source}

theorem named_relinked (n : c.Named) : (c.relinked name place source).Named :=
  n.nextStamp.publish _ _ _

theorem source?_relinked (other : String) :
    (c.relinked name place source).source? other = c.source? other := by
  unfold source? relinked
  rw [current_publish]
  simp only [place_publish]
  rfl

theorem library_relinked (source : Source) (h : c.current.find? name = some place) (other : String) :
    (c.relinked name place source).library other =
      if other = name then
        some (MudEdit.resolve c.library c.stamp (some name) source.nodes).program
      else c.library other := by
  unfold relinked publish
  rw [if_pos (show c.nextStamp.current.find? name = some place from h)]
  show Table.find? (Table.put _ _ _) other = _
  rw [Table.find?_put]
  rfl

end Relinked

end Cache

/-! ## The steps -/

namespace Activity

open Cache

variable {read : String → Option String} {calls : List String} {task : Task} {fuel : Nat}

/-- One task, alone at work on a cache. -/
def alone (c : Cache) (task : Task) (calls : List String) : Activity :=
  ⟨c, #[task], if task.isRunnable then [0] else [], calls⟩

/-- The task takes a step, and its call is answered if it makes one. -/
def turn (read : String → Option String) (a : Activity) : Activity :=
  (a.step 0).serve (.store read) 0

theorem run_turn (h : task.isRunnable = true) :
    run (.store read) (fuel + 1) (alone c task calls) =
      run (.store read) fuel (turn read (alone c task calls)) := by
  unfold alone
  rw [run]
  simp only [h, if_true]
  rfl

theorem run_idle (h : task.isRunnable = false) :
    run (.store read) fuel (alone c task calls) = alone c task calls := by
  cases fuel with
  | zero => rfl
  | succ fuel =>
    unfold alone
    rw [run]
    simp [h]

/-- A task that makes no call is not served. -/
theorem serve_alone (h : ∀ name place call walk, task ≠ .load name (.asking place call) walk) :
    (alone c task calls).serve (.store read) 0 = alone c task calls := by
  unfold serve
  split
  · rename_i hl ht
    exact absurd (Option.some.inj ht) (h _ _ _ _)
  · rfl

theorem afterLoad_ne_asking {found : Option Program} {w : Option Walk} {place call : Nat}
    {walk : Option Walk} : Task.afterLoad name found w ≠ .load other (.asking place call) walk := by
  intro heq
  have := Task.isFree_afterLoad name found w
  rw [heq] at this
  exact absurd this (by simp [Task.isFree])

theorem relinking_ne_asking {names : List String} {w : Walk} {place call : Nat}
    {walk : Option Walk} : Task.relinking names w ≠ .load other (.asking place call) walk := by
  intro heq
  have := Task.isFree_relinking names w
  rw [heq] at this
  exact absurd this (by simp [Task.isFree])

variable {walk : Option Walk}

/-- To come further leaves the task alone. -/
theorem continue_alone (c : Cache) (task next : Task) (calls : List String)
    (h : task.isRunnable = true) : (alone c task calls).continue_ 0 next [] =
      alone c next calls := by
  unfold alone continue_
  simp [h]

/-- The store answers the only call there is. -/
theorem serve_asking {place call : Nat} :
    (alone c (.load name (.asking place call) walk) calls).serve (.store read) 0 =
      alone c (.load name (.answered place (read name)) walk) calls := by
  -- the task is the first that asks, as there is no other one
  have hfind : #[Task.load name (.asking place call) walk].findIdx? (asks call) = some 0 := by
    simp [asks]
  have hanswer : (alone c (.load name (.asking place call) walk) calls).answer? call (read name) =
      some (alone c (.load name (.answered place (read name)) walk) calls) := by
    unfold answer?
    rw [show (alone c (.load name (.asking place call) walk) calls).tasks = #[_] from rfl, hfind]
    rfl
  unfold serve
  show ((alone c _ calls).answer? call (read name)).getD _ = _
  rw [hanswer]
  rfl

/-- A name that is not there is asked for, and the store answers. -/
theorem turn_start (h : c.Vacant name) :
    turn read (alone c (.load name .start walk) calls) =
      alone (c.asked name) (.load name (.answered (c.placeOf name).1 (read name)) walk)
        (calls ++ [name]) := by
  have hplace : (c.placeOf name).2.place (c.placeOf name).1 = .empty := h
  have hstep : (alone c (.load name .start walk) calls).step 0 =
      alone (c.asked name) (.load name (.asking (c.placeOf name).1 calls.length) walk)
        (calls ++ [name]) := by
    show (alone c (.load name .start walk) calls).enter 0 name walk = _
    unfold enter
    simp only [alone, hplace, Place.empty]
    rfl
  rw [turn, hstep, serve_asking]

/-- Without a text the walk goes on. -/
theorem turn_missing {place : Nat} (h : (c.place place).waiting = []) :
    turn read (alone c (.load name (.answered place none) walk) calls) =
      alone (c.modifyPlace place .passOn) (.afterLoad name none walk) calls := by
  have hstep : (alone c (.load name (.answered place none) walk) calls).step 0 =
      alone (c.modifyPlace place .passOn) (.afterLoad name none walk) calls := by
    show ((alone c _ calls).continue_ 0 _ []).passTurn place = _
    rw [continue_alone _ _ _ _ rfl]
    simp [passTurn, alone, h]
  rw [turn, hstep, serve_alone fun _ _ _ _ => afterLoad_ne_asking]

/-- With a text the place is filled. -/
theorem turn_found {place : Nat} {text : String} (h : (c.place place).waiting = []) :
    turn read (alone c (.load name (.answered place (some text)) walk) calls) =
      alone (c.modifyPlace place (.fill (c.sourceOf name text))).nextStamp
        (.load name (.publishing place (c.sourceOf name text).program) walk) calls := by
  have hstep : (alone c (.load name (.answered place (some text)) walk) calls).step 0 =
      alone (c.modifyPlace place (.fill (c.sourceOf name text))).nextStamp
        (.load name (.publishing place (c.sourceOf name text).program) walk) calls := by
    show (alone c _ calls).receive 0 name place walk (some text) = _
    simp only [receive, alone, h]
    rfl
  rw [turn, hstep, serve_alone (by simp)]

theorem turn_publishing {place : Nat} {program : Program} :
    turn read (alone c (.load name (.publishing place program) walk) calls) =
      alone (c.publish name place program) (.afterLoad name (some program) walk) calls := by
  have hstep : (alone c (.load name (.publishing place program) walk) calls).step 0 =
      alone (c.publish name place program) (.afterLoad name (some program) walk) calls := by
    show (alone (c.publish name place program) (.load name (.publishing place program) walk)
      calls).continue_ 0 _ [] = _
    rw [continue_alone _ _ _ _ rfl]
  rw [turn, hstep, serve_alone fun _ _ _ _ => afterLoad_ne_asking]

/-- The first of the names is resolved again from its source. -/
theorem turn_relink {place : Nat} {source : Source} {names : List String} {w : Walk}
    (hcur : c.current.find? name = some place) (hsource : (c.place place).source = some source) :
    turn read (alone c (.relink (name :: names) w) calls) =
      alone c.nextStamp (.republish name place (c.resolve name source.nodes).program names w)
        calls := by
  have hstep : (alone c (.relink (name :: names) w) calls).step 0 =
      alone c.nextStamp (.republish name place (c.resolve name source.nodes).program names w)
        calls := by
    show (alone c (.relink (name :: names) w) calls).relink 0 name names w = _
    simp only [relink, alone, hcur, Option.bind_eq_bind, Option.bind_some, hsource]
    rfl
  rw [turn, hstep, serve_alone (by simp)]

theorem turn_republish {place : Nat} {program : Program} {names : List String} {w : Walk} :
    turn read (alone c (.republish name place program names w) calls) =
      alone (c.publish name place program) (.relinking names w) calls := by
  have hstep : (alone c (.republish name place program names w) calls).step 0 =
      alone (c.publish name place program) (.relinking names w) calls := by
    show (alone (c.publish name place program) (.republish name place program names w)
      calls).continue_ 0 _ [] = _
    rw [continue_alone _ _ _ _ rfl]
  rw [turn, hstep, serve_alone fun _ _ _ _ => relinking_ne_asking]

/-! ## The visit of a name -/

/-- Two steps visit a name that there is no text for. -/
theorem run_lacked (n : c.Named) (h : c.Vacant name) (hread : read name = none) :
    run (.store read) (fuel + 2) (alone c (.load name .start walk) calls) =
      run (.store read) fuel
        (alone (c.lacked name) (.afterLoad name none walk) (calls ++ [name])) := by
  have hplace := place_asked n h
  rw [run_turn rfl, turn_start h, hread, run_turn rfl, turn_missing (by rw [hplace])]
  rfl

/-- Three steps visit a name that there is a text for. -/
theorem run_fetched {text : String} (n : c.Named) (h : c.Vacant name)
    (hread : read name = some text) :
    run (.store read) (fuel + 3) (alone c (.load name .start walk) calls) =
      run (.store read) fuel (alone (c.fetched name text)
        (.afterLoad name (some (MudEdit.resolve c.library c.stamp (some name)
          (Forest.parse .interpretation text).nodes).program) walk) (calls ++ [name])) := by
  have hplace := place_asked n h
  rw [run_turn rfl, turn_start h, hread, run_turn rfl, turn_found (by rw [hplace]), run_turn rfl,
    turn_publishing, ← program_sourceOf_asked]
  rfl

/-- Two steps resolve a name again. -/
theorem run_relinked {source : Source} (read : String → Option String) (fuel : Nat)
    (calls names : List String) (w : Walk) (h : c.source? name = some source) :
    ∃ place, c.current.find? name = some place ∧
      run (.store read) (fuel + 2) (alone c (.relink (name :: names) w) calls) =
        run (.store read) fuel (alone (c.relinked name place source) (.relinking names w) calls) := by
  obtain ⟨place, hcur, hsource⟩ := Option.bind_eq_some_iff.mp h
  refine ⟨place, hcur, ?_⟩
  rw [run_turn rfl, turn_relink hcur hsource, run_turn rfl, turn_republish]
  rfl

end Activity

end MudEdit
