import Mathlib.Data.List.Induction
import MudEdit.Cache.Task

/-!
# What can happen to a cache

Tasks come, take steps, are answered and are abandoned, and names are forgotten, in any
order. `Activity.afterAll` is the state that a list of events leads to from an empty cache.

Whoever wants to know what an event keeps does not look into the steps. `change_after`
says all that an event can do: which task came further, what happened to its place, and
under which conditions. The order in which tasks are ready is left out of it, since any
task may take the next step.
-/

namespace MudEdit

/-- What happens to a cache from outside, or the step of a task. -/
inductive Event where
  /-- A task starts that loads a name. -/
  | load (name : String)
  /-- A task starts that loads names and all that they link to. -/
  | closure (names : List String)
  | step (id : Nat)
  /-- A call is answered, with a text or without. -/
  | answer (call : Nat) (text : Option String)
  | abandon (id : Nat)
  | forget (name : String)

/-- Whether the event concerns a task or a call that there is. -/
def Event.isOwn : Event → Bool
  | .step _ | .answer _ _ | .abandon _ => true
  | .load _ | .closure _ | .forget _ => false

/-- The task that takes the step, or is abandoned. -/
def Event.task? : Event → Option Nat
  | .step id | .abandon id => some id
  | .load _ | .closure _ | .answer _ _ | .forget _ => none

namespace Activity

/-- What an event makes of a cache and its tasks. -/
def after (a : Activity) : Event → Activity
  | .load name => a.spawn (.ofName name)
  | .closure names => a.spawn (.closure names)
  | .step id => a.step id
  | .answer call text => (a.answer? call text).getD a
  | .abandon id => a.abandon id
  | .forget name => a.forget name

/-- Where events lead to, one after the other, from an empty cache without tasks. -/
def afterAll (es : List Event) : Activity := es.foldl after (idle .empty)

@[simp] theorem afterAll_nil : afterAll [] = idle .empty := rfl

@[simp] theorem afterAll_concat (es : List Event) (e : Event) :
    afterAll (es ++ [e]) = (afterAll es).after e := by
  simp [afterAll]

/-- With a place for a name, which is made if there is none. -/
def opening (a : Activity) (name : String) : Activity :=
  { a with cache := (a.cache.placeOf name).2 }

/-- Whether a task can go on without an answer and without the turn of another task. -/
def canStep (a : Activity) (id : Nat) : Bool :=
  match a.tasks[id]? with
  | some (.load _ (.queued place) _) =>
    (a.cache.place place).source.isSome || (a.cache.place place).turn == some id
  | some task => task.isRunnable
  | none => false

/-- No task can go on. -/
def AtRest (a : Activity) : Prop := ∀ id, a.canStep id = false

/-- It is enough to ask the tasks that there are. -/
theorem atRest_iff (a : Activity) : a.AtRest ↔ ∀ id < a.tasks.size, a.canStep id = false := by
  constructor
  · exact fun rest id _ => rest id
  · intro rest id
    by_cases bound : id < a.tasks.size
    · exact rest id bound
    · simp [canStep, bound]

instance (a : Activity) : Decidable a.AtRest := decidable_of_iff _ a.atRest_iff.symm

/-! ## Tasks and places after a change -/

/-- Only the task that is set becomes another one. -/
theorem getElem?_set {tasks : Array Task} {id : Nat} {task : Task} (known : tasks[id]? = some task)
    (next : Task) (other : Nat) :
    (tasks.setIfInBounds id next)[other]? = if other = id then some next else tasks[other]? := by
  have bound : id < tasks.size := (Array.getElem?_eq_some_iff.1 known).1
  rw [Array.getElem?_setIfInBounds]
  by_cases same : id = other
  · simp [same, same ▸ bound]
  · simp [same, Ne.symm same]

/-- To put a task back as it is changes nothing. -/
theorem set_same {tasks : Array Task} {id : Nat} {task : Task} (known : tasks[id]? = some task) :
    tasks.setIfInBounds id task = tasks := by
  apply Array.ext_getElem?
  intro other
  rw [getElem?_set known]
  split
  · rename_i same
    rw [same, known]
  · rfl

end Activity

namespace Cache

/-- Only the place that is changed becomes another one. -/
theorem place_modifyPlace (c : Cache) {id : Nat} (known : id < c.places.size) (f : Place → Place)
    (other : Nat) :
    (c.modifyPlace id f).place other = if other = id then f (c.place id) else c.place other := by
  by_cases same : other = id
  · subst same
    simp [place, modifyPlace, Array.getD, known, Array.getElem_modify]
  · by_cases bound : other < c.places.size
    · simp [place, modifyPlace, Array.getD, bound, same, Array.getElem_modify, Ne.symm same]
    · simp [place, modifyPlace, Array.getD, bound, same]

/-- An operation on a place that leaves alone what fills it. -/
theorem source_modifyPlace (c : Cache) (id other : Nat) {f : Place → Place}
    (same : ∀ p, (f p).source = p.source) :
    ((c.modifyPlace id f).place other).source = (c.place other).source := by
  by_cases bound : other < c.places.size
  · simp only [place, modifyPlace, Array.getD, Array.size_modify, bound, dif_pos,
      Array.getElem_modify, Array.getInternal_eq_getElem]
    split
    · exact same _
    · rfl
  · simp [place, modifyPlace, Array.getD, bound]

@[simp] theorem size_modifyPlace (c : Cache) (id : Nat) (f : Place → Place) :
    (c.modifyPlace id f).places.size = c.places.size := by
  simp [modifyPlace]

@[simp] theorem current_modifyPlace (c : Cache) (id : Nat) (f : Place → Place) :
    (c.modifyPlace id f).current = c.current := rfl

@[simp] theorem published_modifyPlace (c : Cache) (id : Nat) (f : Place → Place) :
    (c.modifyPlace id f).published = c.published := rfl

@[simp] theorem place_nextStamp (c : Cache) (id : Nat) : c.nextStamp.place id = c.place id := rfl

/-- A place that was not there before is empty, as are all that are not there. -/
theorem place_placeOf (c : Cache) (name : String) (id : Nat) :
    (c.placeOf name).2.place id = c.place id := by
  unfold placeOf
  split
  · rfl
  · by_cases last : id = c.places.size
    · simp [place, Array.getD, last]
    · by_cases bound : id < c.places.size
      · simp [place, Array.getD, Array.getElem_push, bound, Nat.lt_succ_of_lt bound]
      · have : ¬ id < c.places.size + 1 := by omega
        simp [place, Array.getD, bound, this]

theorem size_placeOf (c : Cache) (name : String) :
    c.places.size ≤ (c.placeOf name).2.places.size := by
  unfold placeOf
  split <;> simp

theorem placeOf_published (c : Cache) (name : String) :
    (c.placeOf name).2.published = c.published := by
  unfold placeOf
  split <;> rfl

/-- A place that is asked for is the current one of its name. -/
theorem current_placeOf (c : Cache) (name : String) :
    (c.placeOf name).2.current.find? name = some (c.placeOf name).1 := by
  unfold placeOf
  split
  · assumption
  · simp [Table.find?_put]

/-- To publish leaves the places alone. -/
theorem place_publish (c : Cache) (name : String) (id : Nat) (program : Program) (other : Nat) :
    (c.publish name id program).place other = c.place other := by
  unfold publish
  split <;> rfl

theorem places_publish (c : Cache) (name : String) (id : Nat) (program : Program) :
    (c.publish name id program).places = c.places := by
  unfold publish
  split <;> rfl

theorem current_publish (c : Cache) (name : String) (id : Nat) (program : Program) :
    (c.publish name id program).current = c.current := by
  unfold publish
  split <;> rfl

theorem size_publish (c : Cache) (name : String) (id : Nat) (program : Program) :
    (c.publish name id program).places.size = c.places.size := by
  unfold publish
  split <;> rfl

/-- Every name has a place that there is. -/
def Named (c : Cache) : Prop :=
  ∀ (name : String) (id : Nat), c.current.find? name = some id → id < c.places.size

namespace Named

variable {c : Cache}

theorem modifyPlace (n : c.Named) (id : Nat) (f : Place → Place) : (c.modifyPlace id f).Named := by
  intro name place found
  simpa using n name place found

theorem placeOf (n : c.Named) (name : String) : (c.placeOf name).2.Named := by
  intro other id found
  unfold Cache.placeOf at found ⊢
  split at found
  · exact n other id found
  · rw [Table.find?_put] at found
    split at found
    · simp [← Option.some.inj found]
    · simpa using Nat.lt_succ_of_lt (n other id found)

theorem placeOf_lt (n : c.Named) (name : String) :
    (c.placeOf name).1 < (c.placeOf name).2.places.size :=
  n.placeOf name name _ (c.current_placeOf name)

theorem publish (n : c.Named) (name : String) (id : Nat) (program : Program) :
    (c.publish name id program).Named := by
  intro other place found
  rw [current_publish] at found
  rw [size_publish]
  exact n other place found

theorem forget (n : c.Named) (name : String) : (c.forget name).Named := by
  intro other place found
  rw [Cache.forget, Table.find?_remove] at found
  split at found
  · cases found
  · exact n other place found

end Named

end Cache

namespace Activity

@[simp] theorem calls_opening (a : Activity) (name : String) :
    (a.opening name).calls = a.calls := rfl

@[simp] theorem tasks_opening (a : Activity) (name : String) :
    (a.opening name).tasks = a.tasks := rfl

@[simp] theorem place_opening (a : Activity) (name : String) (id : Nat) :
    (a.opening name).cache.place id = a.cache.place id :=
  a.cache.place_placeOf name id

@[simp] theorem published_opening (a : Activity) (name : String) :
    (a.opening name).cache.published = a.cache.published :=
  a.cache.placeOf_published name

end Activity

/-- A task that has a program at hand, and is about to publish it. -/
def Task.isPublishing : Task → Bool
  | .load _ (.publishing _ _) _ | .republish _ _ _ _ _ => true
  | _ => false

/-- A task that is at no place and has no program at hand. -/
def Task.isFree : Task → Bool
  | .load _ .start _ | .relink _ _ | .loaded _ | .walked _ | .abandoned => true
  | _ => false

namespace Task

theorem isFree_relinking (names : List String) (w : Walk) : (relinking names w).isFree := by
  cases names <;> rfl

theorem isFree_ofWalk (w : Walk) : (ofWalk w).isFree := by
  unfold ofWalk
  split
  · rfl
  · exact isFree_relinking _ _

theorem isFree_afterLoad (name : String) (found : Option Program) (walk : Option Walk) :
    (afterLoad name found walk).isFree := by
  cases walk
  · rfl
  · exact isFree_ofWalk _

end Task

namespace Activity

variable {a b : Activity} {e : Event} {id place : Nat} {name : String} {walk : Option Walk}

/-- The event concerns no task that is about to publish. -/
def Quiet (a : Activity) (e : Event) : Prop :=
  ∀ id task, e.task? = some id → a.tasks[id]? = some task → task.isPublishing = false

/-- An event that concerns one task is quiet if that task is not about to publish. -/
theorem Quiet.of_task (concerns : e.task? = some id)
    (still : ∀ task, a.tasks[id]? = some task → task.isPublishing = false) : a.Quiet e := by
  intro other task same known
  rw [concerns] at same
  exact still task (Option.some.inj same ▸ known)

/--
How a task comes to the place of a name: for the first time, when the place may have to
be made, or because it waits there and looks again.
-/
inductive Comes (a : Activity) (id : Nat) (name : String) (walk : Option Walk) :
    Activity → Nat → Prop where
  | first (loads : a.tasks[id]? = some (.load name .start walk)) :
    Comes a id name walk (a.opening name) (a.cache.placeOf name).1
  | again {place : Nat} (waits : a.tasks[id]? = some (.load name (.queued place) walk)) :
    Comes a id name walk a place

/-- A task comes further, while cache and calls become what is given. -/
def put (a : Activity) (id : Nat) (task : Task) (cache : Cache) (calls : List String)
    (ready : List Nat) : Activity :=
  ⟨cache, a.tasks.setIfInBounds id task, ready, calls⟩

@[simp] theorem cache_put (task : Task) (cache : Cache) (calls : List String) (ready : List Nat) :
    (a.put id task cache calls ready).cache = cache := rfl

@[simp] theorem calls_put (task : Task) (cache : Cache) (calls : List String) (ready : List Nat) :
    (a.put id task cache calls ready).calls = calls := rfl

@[simp] theorem size_put (task : Task) (cache : Cache) (calls : List String) (ready : List Nat) :
    (a.put id task cache calls ready).tasks.size = a.tasks.size := by
  simp [put]

/-- The task comes further and all others stay where they are. -/
theorem tasks_put {old : Task} (known : a.tasks[id]? = some old) (task : Task) (cache : Cache)
    (calls : List String) (ready : List Nat) (other : Nat) :
    (a.put id task cache calls ready).tasks[other]? =
      if other = id then some task else a.tasks[other]? :=
  getElem?_set known task other

/-- All that an event can do. -/
inductive Change (a : Activity) : Event → Activity → Prop where
  | nothing {e : Event} (ready : List Nat) (own : e.isOwn) (quiet : a.Quiet e) :
    Change a e { a with ready }
  | started (name : String) (ready : List Nat) :
    Change a (.load name) { a with tasks := a.tasks.push (.ofName name), ready }
  | walked (names : List String) (ready : List Nat) :
    Change a (.closure names) { a with tasks := a.tasks.push (.closure names), ready }
  /-- The place is empty and another task has the turn. -/
  | joined {id place : Nat} {name : String} {walk : Option Walk} (ready : List Nat)
    (loads : a.tasks[id]? = some (.load name .start walk))
    (isPlace : (a.cache.placeOf name).1 = place)
    (empty : (a.cache.place place).source = none)
    (busy : (a.cache.place place).turn ≠ none) :
    Change a (.step id)
      (a.put id (.load name (.queued place) walk)
        ((a.opening name).cache.modifyPlace place (.join id)) a.calls ready)
  /-- The place is empty and it is the turn of the task, or that of nobody. -/
  | asked {b : Activity} {id place : Nat} {name : String} {walk : Option Walk} (ready : List Nat)
    (comes : Comes a id name walk b place)
    (empty : (b.cache.place place).source = none)
    (turn : (b.cache.place place).turn = none ∨ (b.cache.place place).turn = some id) :
    Change a (.step id)
      (b.put id (.load name (.asking place b.calls.length) walk)
        (b.cache.modifyPlace place (.take id)) (b.calls ++ [name]) ready)
  /-- The place is filled. -/
  | arrived {b : Activity} {id place : Nat} {name : String} {walk : Option Walk} {source : Source}
    (ready : List Nat) (comes : Comes a id name walk b place)
    (filled : (b.cache.place place).source = some source) :
    Change a (.step id)
      (b.put id (.afterLoad name (some (b.cache.programOr name source)) walk) b.cache b.calls ready)
  | failed {id place : Nat} {name : String} {walk : Option Walk} (ready : List Nat)
    (answered : a.tasks[id]? = some (.load name (.answered place none) walk)) :
    Change a (.step id)
      (a.put id (.afterLoad name none walk) (a.cache.modifyPlace place .passOn) a.calls ready)
  | filled {id place : Nat} {name text : String} {walk : Option Walk} (ready : List Nat)
    (answered : a.tasks[id]? = some (.load name (.answered place (some text)) walk)) :
    Change a (.step id)
      (a.put id (.load name (.publishing place (a.cache.sourceOf name text).program) walk)
        (a.cache.modifyPlace place (.fill (a.cache.sourceOf name text))).nextStamp a.calls ready)
  | published {id place : Nat} {name : String} {walk : Option Walk} {program : Program}
    (ready : List Nat)
    (publishes : a.tasks[id]? = some (.load name (.publishing place program) walk)) :
    Change a (.step id)
      (a.put id (.afterLoad name (some program) walk) (a.cache.publish name place program)
        a.calls ready)
  /-- Of the names to resolve again, the first is no longer there. -/
  | skipped {id : Nat} {name : String} {names : List String} {w : Walk} (ready : List Nat)
    (relinks : a.tasks[id]? = some (.relink (name :: names) w)) :
    Change a (.step id) (a.put id (.relinking names w) a.cache a.calls ready)
  | resolved {id place : Nat} {name : String} {names : List String} {w : Walk} {source : Source}
    (ready : List Nat)
    (relinks : a.tasks[id]? = some (.relink (name :: names) w))
    (current : a.cache.current.find? name = some place)
    (filled : (a.cache.place place).source = some source) :
    Change a (.step id)
      (a.put id (.republish name place (a.cache.resolve name source.nodes).program names w)
        a.cache.nextStamp a.calls ready)
  | replaced {id place : Nat} {name : String} {names : List String} {w : Walk} {program : Program}
    (ready : List Nat)
    (republishes : a.tasks[id]? = some (.republish name place program names w)) :
    Change a (.step id)
      (a.put id (.relinking names w) (a.cache.publish name place program) a.calls ready)
  | answered {id place call : Nat} {text : Option String} {name : String} {walk : Option Walk}
    (ready : List Nat)
    (asks : a.tasks[id]? = some (.load name (.asking place call) walk)) :
    Change a (.answer call text)
      (a.put id (.load name (.answered place text) walk) a.cache a.calls ready)
  /-- A task is abandoned that is at no place. -/
  | dropped {id : Nat} {task : Task} (ready : List Nat) (known : a.tasks[id]? = some task)
    (away : placeHeld? task = none) :
    Change a (.abandon id) (a.put id .abandoned a.cache a.calls ready)
  /-- A task is abandoned that has the turn at a place. -/
  | passed {id place : Nat} {task : Task} (ready : List Nat) (known : a.tasks[id]? = some task)
    (isAt : placeHeld? task = some place) (turn : (a.cache.place place).turn = some id) :
    Change a (.abandon id)
      (a.put id .abandoned (a.cache.modifyPlace place .passOn) a.calls ready)
  /-- A task is abandoned that waits at a place. -/
  | left {id place : Nat} {task : Task} (ready : List Nat) (known : a.tasks[id]? = some task)
    (isAt : placeHeld? task = some place) (turn : (a.cache.place place).turn ≠ some id) :
    Change a (.abandon id)
      (a.put id .abandoned (a.cache.modifyPlace place (.leave id)) a.calls ready)
  | forgotten (name : String) : Change a (.forget name) (a.forget name)

/-- A task that starts finds the place filled, asks for the text or joins those that wait. -/
theorem change_enter (loads : a.tasks[id]? = some (.load name .start walk)) :
    Change a (.step id) (a.enter id name walk) := by
  have same := a.cache.place_placeOf name (a.cache.placeOf name).1
  unfold enter
  cases filled : ((a.cache.placeOf name).2.place (a.cache.placeOf name).1).source with
  | some source =>
    simp only [filled]
    exact .arrived _ (.first loads) filled
  | none =>
    -- empty, so it matters whether anyone is on the way
    cases turn : ((a.cache.placeOf name).2.place (a.cache.placeOf name).1).turn with
    | none =>
      simp only [filled, turn]
      exact .asked _ (.first loads) filled (.inl turn)
    | some other =>
      simp only [filled, turn]
      exact .joined _ loads rfl (by rw [← same, filled]) (by simp [← same, turn])

/-- A task that waits and looks again finds the place filled, asks for the text or waits on. -/
theorem change_wake (waits : a.tasks[id]? = some (.load name (.queued place) walk)) :
    Change a (.step id) (a.wake id name place walk) := by
  unfold wake
  cases filled : (a.cache.place place).source with
  | some source => exact .arrived _ (.again waits) filled
  | none =>
    -- woken without the turn it goes on waiting, which changes nothing
    by_cases turn : (a.cache.place place).turn = some id
    · simp only [turn, if_true]
      exact .asked _ (.again waits) filled (.inr turn)
    · have still : ∀ task, a.tasks[id]? = some task → task.isPublishing = false := by
        rintro task known
        rw [waits] at known
        exact Option.some.inj known ▸ rfl
      simpa [turn, continue_, set_same waits] using Change.nothing _ rfl (.of_task rfl still)

theorem change_receive {text : Option String}
    (answered : a.tasks[id]? = some (.load name (.answered place text) walk)) :
    Change a (.step id) (a.receive id name place walk text) := by
  cases text with
  | none => exact .failed _ answered
  | some text => exact .filled _ answered

/-- A name is resolved once more, unless its place is not filled. -/
theorem change_relink {names : List String} {w : Walk}
    (relinks : a.tasks[id]? = some (.relink (name :: names) w)) :
    Change a (.step id) (a.relink id name names w) := by
  unfold relink
  cases current : a.cache.current.find? name with
  | none => exact .skipped _ relinks
  | some place =>
    cases filled : (a.cache.place place).source with
    | none =>
      simp only [Option.bind_eq_bind, Option.bind_some, filled, Option.bind_none]
      exact .skipped _ relinks
    | some source =>
      simp only [Option.bind_eq_bind, Option.bind_some, filled]
      exact .resolved _ relinks current filled

theorem change_step (a : Activity) (id : Nat) : Change a (.step id) (a.step id) := by
  unfold step
  split
  · exact change_enter ‹_›
  · exact change_wake ‹_›
  · exact change_receive ‹_›
  · exact .published _ ‹_›
  · exact change_relink ‹_›
  · exact .replaced _ ‹_›
  · -- no task that is about to publish is left for the last case
    rename_i publishes _ republishes
    refine .nothing _ rfl (.of_task rfl fun task known => ?_)
    unfold Task.isPublishing
    split
    · exact absurd known (publishes _ _ _ _)
    · exact absurd known (republishes _ _ _ _ _)
    · rfl

/-- A call is answered once, for the task that asked. -/
theorem change_answer (a : Activity) (call : Nat) (text : Option String) :
    Change a (.answer call text) ((a.answer? call text).getD a) := by
  unfold answer?
  cases found : a.tasks.findIdx? (asks call) with
  | none => exact .nothing _ rfl nofun
  | some id =>
    obtain ⟨bound, asked, -⟩ := Array.findIdx?_eq_some_iff_getElem.1 found
    -- the first task that asks is one that asks
    have known : a.tasks[id]? = some a.tasks[id] := Array.getElem?_eq_getElem bound
    revert asked
    generalize a.tasks[id] = task at known
    intro asked
    unfold asks at asked
    split at asked
    · rw [beq_iff_eq] at asked
      subst asked
      simp only [Option.bind_eq_bind, Option.bind_some, known]
      exact .answered _ known
    · cases asked

/-- A task that is abandoned leaves its place, and the turn with it. -/
theorem change_abandon (a : Activity) (id : Nat) : Change a (.abandon id) (a.abandon id) := by
  unfold abandon
  cases known : a.tasks[id]? with
  | none =>
    exact .nothing _ rfl (.of_task rfl fun task there => absurd (known.symm.trans there) nofun)
  | some task =>
    -- a task that has finished stays as it is
    cases finished : task.isFinished with
    | true =>
      have still : ∀ task', a.tasks[id]? = some task' → task'.isPublishing = false := by
        intro task' there
        obtain rfl := Option.some.inj (known.symm.trans there)
        unfold Task.isFinished at finished
        split at finished <;> first | rfl | cases finished
      simpa [finished] using Change.nothing _ rfl (.of_task rfl still)
    | false =>
      cases isAt : placeHeld? task with
      | none =>
        simp only [finished, isAt]
        exact .dropped _ known isAt
      | some place =>
        simp only [finished, isAt, release, continue_]
        -- with the turn the next one is woken, else the line is shorter by one
        by_cases turn : (a.cache.place place).turn = some id
        · simp only [turn, if_true]
          exact .passed _ known isAt turn
        · simp only [turn, if_false]
          exact .left _ known isAt turn

/-- **What an event does is one of the changes.** -/
theorem change_after (a : Activity) (e : Event) : Change a e (a.after e) := by
  cases e with
  | load name => exact .started name _
  | closure names => exact .walked names _
  | step id => exact change_step a id
  | answer call text => exact change_answer a call text
  | abandon id => exact change_abandon a id
  | forget name => exact .forgotten name

end Activity

end MudEdit
