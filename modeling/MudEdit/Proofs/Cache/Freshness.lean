import MudEdit.Proofs.Cache.Presence

/-!
# Nothing overtaken is served

What is published under a name stands for a text that was asked for after the name was
forgotten for the last time, and so does what a task ends with that began to load the name
after that. When no task can go on, a name has a program exactly if its place is filled, unless the
task that filled it was abandoned before it could publish what is in it.
-/

namespace MudEdit

namespace Activity

variable {a b : Activity} {e : Event} {id place : Nat} {name : String} {walk : Option Walk}
  {es : List Event} {program : Program} {task old : Task}

/-- The program with which the next step of a task ends the loading of a name, if it does. -/
def finds? (a : Activity) (id : Nat) : Option Program :=
  match a.tasks[id]? with
  | some (.load name .start _) =>
    (a.cache.place (a.cache.placeOf name).1).source.map (a.cache.programOr name)
  | some (.load name (.queued place) _) =>
    (a.cache.place place).source.map (a.cache.programOr name)
  | some (.load _ (.publishing _ program) _) => some program
  | _ => none

/-- How a task comes further. -/
inductive Follows (a : Activity) (id : Nat) : Task → Task → Prop where
  | loads (name : String) (stage stage' : Stage) (walk : Option Walk) :
    Follows a id (.load name stage walk) (.load name stage' walk)
  | finds {program : Program} (name : String) (stage : Stage) (walk : Option Walk)
    (found : a.finds? id = some program) :
    Follows a id (.load name stage walk) (.afterLoad name (some program) walk)
  | misses (name : String) (stage : Stage) (walk : Option Walk) :
    Follows a id (.load name stage walk) (.afterLoad name none walk)
  | resolves (name : String) (place : Nat) (program : Program) (names : List String) (w : Walk) :
    Follows a id (.relink (name :: names) w) (.republish name place program names w)
  | skips (name : String) (names : List String) (w : Walk) :
    Follows a id (.relink (name :: names) w) (.relinking names w)
  | replaces (name : String) (place : Nat) (program : Program) (names : List String) (w : Walk) :
    Follows a id (.republish name place program names w) (.relinking names w)
  | leaves (task : Task) : Follows a id task .abandoned

/-- A task at a filled place finds the program that is there. -/
theorem Comes.finds {source : Source} (comes : Comes a id name walk b place)
    (filled : (b.cache.place place).source = some source) :
    a.finds? id = some (b.cache.programOr name source) := by
  cases comes with
  | first loads =>
    rw [place_opening] at filled
    have same : (a.opening name).cache.programOr name source = a.cache.programOr name source := by
      rw [Cache.programOr, Cache.program?, published_opening]
      rfl
    simp [finds?, loads, filled, same]
  | again waits => simp [finds?, waits, filled]

/-- A task after an event is as it was before, or it is new, or it came further. -/
theorem Change.task_cases (c : Change a e b) (known : b.tasks[id]? = some task) :
    a.tasks[id]? = some task ∨
    (id = a.tasks.size ∧ ((∃ name, e = .load name ∧ task = .ofName name) ∨
      ∃ names, e = .closure names ∧ task = .closure names)) ∨
    ∃ old, a.tasks[id]? = some old ∧ Follows a id old task := by
  -- a task that is put where another was
  have put : ∀ {b' : Activity} {other : Nat} {old new : Task} {cache : Cache}
      {calls : List String} {ready : List Nat}, b'.tasks = a.tasks → a.tasks[other]? = some old →
      Follows a other old new → (b'.put other new cache calls ready).tasks[id]? = some task →
      a.tasks[id]? = some task ∨ ∃ old, a.tasks[id]? = some old ∧ Follows a id old task := by
    intro b' other old new cache calls ready tasks before follows known
    rw [tasks_put (tasks ▸ before), tasks] at known
    split at known
    · rename_i same
      rw [same, ← Option.some.inj known]
      exact .inr ⟨old, before, follows⟩
    · exact .inl known
  have came : ∀ {b' : Activity} {other place : Nat} {name : String} {walk : Option Walk},
      Comes a other name walk b' place →
      ∃ stage, a.tasks[other]? = some (.load name stage walk) := by
    intro b' other place name walk comes
    cases comes with
    | first loads => exact ⟨_, loads⟩
    | again waits => exact ⟨_, waits⟩
  cases c
  case nothing => exact .inl known
  case started name ready =>
    simp only [Array.getElem?_push] at known
    split at known
    · rename_i last
      exact .inr (.inl ⟨last, .inl ⟨name, rfl, (Option.some.inj known).symm⟩⟩)
    · exact .inl known
  case walked names ready =>
    simp only [Array.getElem?_push] at known
    split at known
    · rename_i last
      exact .inr (.inl ⟨last, .inr ⟨names, rfl, (Option.some.inj known).symm⟩⟩)
    · exact .inl known
  case forgotten => exact .inl known
  case asked comes _ _ =>
    obtain ⟨stage, loads⟩ := came comes
    exact (put comes.tasks loads (.loads _ _ _ _) known).imp_right .inr
  case arrived comes filled =>
    obtain ⟨stage, loads⟩ := came comes
    exact (put comes.tasks loads (.finds _ _ _ (comes.finds filled)) known).imp_right .inr
  case joined loads _ _ _ => exact (put rfl loads (.loads _ _ _ _) known).imp_right .inr
  case failed answered => exact (put rfl answered (.misses _ _ _) known).imp_right .inr
  case filled answered => exact (put rfl answered (.loads _ _ _ _) known).imp_right .inr
  case published publishes =>
    exact (put rfl publishes (.finds _ _ _ (by simp [finds?, publishes])) known).imp_right .inr
  case skipped relinks => exact (put rfl relinks (.skips _ _ _) known).imp_right .inr
  case resolved relinks _ _ => exact (put rfl relinks (.resolves _ _ _ _ _) known).imp_right .inr
  case replaced republishes =>
    exact (put rfl republishes (.replaces _ _ _ _ _) known).imp_right .inr
  case answered asks => exact (put rfl asks (.loads _ _ _ _) known).imp_right .inr
  case dropped before _ => exact (put rfl before (.leaves _) known).imp_right .inr
  case passed before _ _ => exact (put rfl before (.leaves _) known).imp_right .inr
  case left before _ _ => exact (put rfl before (.leaves _) known).imp_right .inr

/-- A program is found at a filled place, be it come to or waited for, or is about to be
published. -/
theorem finds?_cases {stage : Stage} (loads : a.tasks[id]? = some (.load name stage walk))
    (found : a.finds? id = some program) :
    (stage = .start ∧ ∃ source, (a.cache.place (a.cache.placeOf name).1).source = some source ∧
      a.cache.programOr name source = program) ∨
    (∃ place, stage = .queued place ∧ ∃ source, (a.cache.place place).source = some source ∧
      a.cache.programOr name source = program) ∨
    ∃ place, stage = .publishing place program := by
  cases stage with
  | start => exact .inl ⟨rfl, by simpa only [finds?, loads, Option.map_eq_some_iff] using found⟩
  | queued place =>
    exact .inr (.inl ⟨place, rfl, by
      simpa only [finds?, loads, Option.map_eq_some_iff] using found⟩)
  | asking place call => simp [finds?, loads] at found
  | answered place text => simp [finds?, loads] at found
  | publishing place published =>
    simp only [finds?, loads, Option.some.injEq] at found
    exact .inr (.inr ⟨place, by rw [found]⟩)

/-- The step of a task does end the loading with the program that is found. -/
theorem step_finds {stage : Stage} (loads : a.tasks[id]? = some (.load name stage walk))
    (found : a.finds? id = some program) :
    (a.step id).tasks[id]? = some (.afterLoad name (some program) walk) := by
  -- however it came there, the task is put further
  have put : ∀ (b : Activity) (task : Task) (woken : List Nat), b.tasks = a.tasks →
      (b.continue_ id task woken).tasks[id]? = some task := by
    intro b task woken same
    have := tasks_put (same ▸ loads) task b.cache b.calls [] id
    simpa [continue_, Activity.put] using this
  rcases finds?_cases loads found with
    ⟨rfl, source, filled, rfl⟩ | ⟨place, rfl, source, filled, rfl⟩ | ⟨place, rfl⟩
  -- a place made for the name leaves all programs as they were
  · rw [← a.cache.place_placeOf name] at filled
    simp only [step, loads, enter, filled]
    have same : (a.opening name).cache.programOr name source = a.cache.programOr name source := by
      rw [Cache.programOr, Cache.program?, published_opening]
      rfl
    rw [← same]
    exact put (a.opening name) _ _ rfl
  · simp only [step, loads, wake, filled]
    exact put a _ _ rfl
  · simp only [step, loads]
    exact put { a with cache := a.cache.publish name place program } _ _ rfl

/-! ## What a load ends with -/

/-- A program read from the answer to a call for the name, before which there were so many. -/
def FromCall (es : List Event) (name : String) (earlier : Nat) (program : Program) : Prop :=
  ∃ call text, .answer call (some text) ∈ es ∧ (afterAll es).calls[call]? = some name ∧
    earlier ≤ call ∧ StandsFor name (Forest.parse .interpretation text).nodes program

theorem FromCall.weaken {earlier earlier' : Nat} (f : FromCall es name earlier program)
    (le : earlier' ≤ earlier) : FromCall es name earlier' program := by
  obtain ⟨call, text, answer, called, late, stands⟩ := f
  exact ⟨call, text, answer, called, Nat.le_trans le late, stands⟩

theorem FromCall.concat {earlier : Nat} (f : FromCall es name earlier program) (e : Event) :
    FromCall (es ++ [e]) name earlier program := by
  obtain ⟨call, text, answer, called, late, stands⟩ := f
  exact ⟨call, text, List.mem_append_left _ answer,
    getElem?_of_prefix (calls_grow es [e]) called, late, stands⟩

variable {owner : Nat → String} {birth : Nat → Nat} {source : Source}

/-- What stands for the source of a place was read from the answer to a call made there. -/
theorem Traced.fromCall (t : Traced es a owner birth) (calls : a.calls = (afterAll es).calls)
    (filled : (a.cache.place place).source = some source) (named : owner place = name)
    (stands : StandsFor name source.nodes program) : FromCall es name (birth place) program := by
  subst named
  obtain ⟨text, ⟨call, answer, called, late⟩, nodes⟩ := (t.sources filled).text
  exact ⟨call, text, answer, calls ▸ called, late, nodes ▸ stands⟩

/-- What is published, or else stands for the place where a task came to, is fresh for it. -/
theorem Traced.programOr (t : Traced es a owner birth) (calls : a.calls = (afterAll es).calls)
    (filled : (a.cache.place place).source = some source) (named : owner place = name)
    (entered : Entered es id name (birth place)) :
    ∃ earlier, FromCall es name earlier (a.cache.programOr name source) ∧
      Entered es id name earlier := by
  unfold Cache.programOr
  cases found : a.cache.program? name with
  | none =>
    -- nothing published: it is what the text at the place was resolved to
    have stands := (t.sources filled).program
    rw [named] at stands
    exact ⟨_, t.fromCall calls filled named stands, entered⟩
  | some program =>
    obtain ⟨current, source, here, filled, stands⟩ := t.published found
    obtain ⟨named, since⟩ := t.current here
    exact ⟨_, t.fromCall calls filled named stands, since.entered id⟩

/-- **What a load ends with is fresh for the task.** -/
theorem fresh_of_finds {stage : Stage} (found : (afterAll es).finds? id = some program)
    (loads : (afterAll es).tasks[id]? = some (.load name stage walk)) :
    ∃ earlier, FromCall es name earlier program ∧ Entered es id name earlier := by
  obtain ⟨owner, birth, t⟩ := traced_afterAll es
  have o := ordered_afterAll es
  have k : Placed es (afterAll es) owner birth id name stage := t.tasks loads
  rcases finds?_cases loads found with
    ⟨rfl, source, filled, rfl⟩ | ⟨place, rfl, source, filled, rfl⟩ | ⟨place, rfl⟩
  -- a task at its start enters now, so whatever is at the place is no older
  · obtain ⟨owner, birth, t, named, entered⟩ := t.comes o ⟨rfl, rfl⟩ (.first loads)
    rw [← place_opening _ name] at filled
    have fresh := t.programOr rfl filled named entered
    rwa [Cache.programOr, Cache.program?, published_opening] at fresh
  · obtain ⟨named, -, entered⟩ := k.entered rfl
    exact t.programOr rfl filled named entered
  · obtain ⟨source, filled, same⟩ := k.publishing rfl
    obtain ⟨named, -, entered⟩ := k.entered rfl
    have stands := (t.sources filled).program
    rw [named, same] at stands
    exact ⟨_, t.fromCall rfl filled named stands, entered⟩

/-! ## What a task returns that loads one name -/

/-- A walk does not end as a load does. -/
theorem ofWalk_ne_loaded (w : Walk) (found : Option Program) : Task.ofWalk w ≠ .loaded found := by
  unfold Task.ofWalk Task.relinking
  split
  · simp
  · split <;> simp

/-- Nor does it go on as one without a walk. -/
theorem ofWalk_ne_load (w : Walk) (name : String) (stage : Stage) :
    Task.ofWalk w ≠ .load name stage none := by
  unfold Task.ofWalk Task.relinking
  split
  · simp
  · split <;> simp

theorem relinking_ne_loaded (names : List String) (w : Walk) (found : Option Program) :
    Task.relinking names w ≠ .loaded found := by
  unfold Task.relinking
  split <;> simp

theorem relinking_ne_load (names : List String) (w : Walk) (name : String) (stage : Stage) :
    Task.relinking names w ≠ .load name stage none := by
  unfold Task.relinking
  split <;> simp

/-- The task that comes after a load of one name was that load before. -/
theorem Follows.of_load {stage : Stage} (f : Follows a id old task)
    (loads : task = .load name stage none) : ∃ stage, old = .load name stage none := by
  cases f with
  | loads name stage stage' walk =>
    cases loads
    exact ⟨stage, rfl⟩
  | finds name stage walk found =>
    cases walk with
    | none => cases loads
    | some w => exact absurd loads (ofWalk_ne_load _ _ _)
  | misses name stage walk =>
    cases walk with
    | none => cases loads
    | some w => exact absurd loads (ofWalk_ne_load _ _ _)
  | resolves => cases loads
  | skips names w => exact absurd loads (relinking_ne_load _ _ _ _)
  | replaces name place program names w => exact absurd loads (relinking_ne_load _ _ _ _)
  | leaves => cases loads

/-- A task that returns a program has just loaded one name, and found the program. -/
theorem Follows.of_loaded (f : Follows a id old task) (loaded : task = .loaded (some program)) :
    ∃ name stage, old = .load name stage none ∧ a.finds? id = some program := by
  cases f with
  | loads => cases loaded
  | finds name stage walk found =>
    cases walk with
    | none =>
      cases loaded
      exact ⟨name, stage, rfl, found⟩
    | some w => exact absurd loaded (ofWalk_ne_loaded _ _)
  | misses name stage walk =>
    cases walk with
    | none => cases loaded
    | some w => exact absurd loaded (ofWalk_ne_loaded _ _)
  | resolves => cases loaded
  | skips names w => exact absurd loaded (relinking_ne_loaded _ _ _)
  | replaces name place program names w => exact absurd loaded (relinking_ne_loaded _ _ _)
  | leaves => cases loaded

/-- The event that loads a name started the task of the given number. -/
def Starts (es : List Event) (before : List Event) (id : Nat) (name : String) : Prop :=
  Happened es before (.load name) ∧ (afterAll before).tasks.size = id

theorem Starts.lt_size {before : List Event} (s : Starts es before id name) :
    id < (afterAll es).tasks.size := by
  obtain ⟨⟨later, rfl⟩, rfl⟩ := s
  have grown := size_le (before ++ [.load name]) later
  rw [List.append_assoc, List.singleton_append, afterAll_concat] at grown
  simp only [after, spawn, Array.size_push] at grown
  omega

/-- Tasks that load one name load the one that they were started for, and what they return is
fresh. -/
structure Returned (es : List Event) : Prop where
  loading : ∀ {id : Nat} {name other : String} {stage : Stage} {before : List Event},
    (afterAll es).tasks[id]? = some (.load name stage none) → Starts es before id other →
      other = name
  loaded : ∀ {id : Nat} {name : String} {program : Program} {before : List Event},
    (afterAll es).tasks[id]? = some (.loaded (some program)) → Starts es before id name →
      ∃ earlier, FromCall es name earlier program ∧
        ∀ past, Happened es past (.forget name) → (afterAll past).tasks.size ≤ id →
          (afterAll past).calls.length ≤ earlier

theorem starts_concat {before : List Event} (s : Starts (es ++ [e]) before id name) :
    Starts es before id name ∨ before = es ∧ e = .load name ∧ (afterAll es).tasks.size = id := by
  obtain ⟨happened, size⟩ := s
  rcases happened_concat.1 happened with happened | ⟨rfl, same⟩
  · exact .inl ⟨happened, size⟩
  · exact .inr ⟨rfl, same.symm, size⟩

theorem lt_size (known : a.tasks[id]? = some task) : id < a.tasks.size :=
  (Array.getElem?_eq_some_iff.1 known).1

theorem Returned.concat (r : Returned es) (e : Event) : Returned (es ++ [e]) := by
  have change := change_after (afterAll es) e
  -- which event started a task that was there before
  have started : ∀ {id : Nat} {task : Task} {name : String} {before : List Event},
      (afterAll es).tasks[id]? = some task → Starts (es ++ [e]) before id name →
      Starts es before id name := by
    intro id task name before known starts
    rcases starts_concat starts with starts | ⟨-, -, size⟩
    · exact starts
    · exact absurd (lt_size known) (by omega)
  constructor
  case loading =>
    intro id name other stage before known starts
    rw [afterAll_concat] at known
    rcases change.task_cases known with before' | ⟨last, new⟩ | ⟨old, before', follows⟩
    · exact r.loading before' (started before' starts)
    · rcases starts_concat starts with starts | ⟨-, event, -⟩
      · exact absurd starts.lt_size (by omega)
      · rcases new with ⟨name', event', task⟩ | ⟨names, event', -⟩
        · rw [event'] at event
          cases event
          cases task
          rfl
        · rw [event'] at event
          cases event
    · obtain ⟨stage', rfl⟩ := follows.of_load rfl
      exact r.loading before' (started before' starts)
  case loaded =>
    intro id name program before known starts
    rw [afterAll_concat] at known
    rcases change.task_cases known with before' | ⟨last, new⟩ | ⟨old, before', follows⟩
    · obtain ⟨earlier, fresh, late⟩ := r.loaded before' (started before' starts)
      refine ⟨earlier, fresh.concat e, fun past happened small => ?_⟩
      rcases happened_concat.1 happened with happened | ⟨rfl, -⟩
      · exact late past happened small
      · exact absurd (lt_size before') (by omega)
    · rcases new with ⟨name', -, task⟩ | ⟨names, -, task⟩
      · cases task
      · exact absurd task.symm (ofWalk_ne_loaded _ _)
    · obtain ⟨name', stage, rfl, found⟩ := follows.of_loaded rfl
      obtain rfl := r.loading before' (started before' starts)
      obtain ⟨earlier, fresh, entered⟩ := fresh_of_finds found before'
      refine ⟨earlier, fresh.concat e, fun past happened small => ?_⟩
      rcases happened_concat.1 happened with happened | ⟨rfl, -⟩
      · -- the task was not there yet, so that it did not load the name
        refine entered past happened fun ⟨_, _, there, _⟩ => ?_
        exact absurd (lt_size there) (by omega)
      · exact absurd (lt_size before') (by omega)

theorem returned_afterAll (es : List Event) : Returned es := by
  induction es using List.reverseRecOn with
  | nil => exact ⟨by simp [idle], by simp [idle]⟩
  | append_singleton es e ih => exact ih.concat e

/-! ## All of it -/

/-- Nothing that was overtaken by forgetting its name is served. -/
structure Fresh (es : List Event) : Prop where
  /--
  What is published under a name stands for what fills its place, and that was read from the
  answer to a call for the name which was made after the name was forgotten for the last time.
  -/
  published : ∀ {name : String} {program : Program},
    (afterAll es).cache.program? name = some program →
    ∃ place source, (afterAll es).cache.current.find? name = some place ∧
      ((afterAll es).cache.place place).source = some source ∧
      StandsFor name source.nodes program ∧
      ∃ call text, source.nodes = (Forest.parse .interpretation text).nodes ∧
        .answer call (some text) ∈ es ∧ (afterAll es).calls[call]? = some name ∧
        ∀ past, Happened es past (.forget name) → (afterAll past).calls.length ≤ call
  /-- A task that began to load a name after it was forgotten returns nothing asked for before. -/
  returned : ∀ {id : Nat} {name : String} {program : Program} {before past : List Event},
    Starts es before id name → Happened before past (.forget name) →
    (afterAll es).tasks[id]? = some (.loaded (some program)) →
    FromCall es name (afterAll past).calls.length program
  /--
  The same holds when a task loads a name on a walk, if it did not load it before: it goes on with
  a program that was asked for after the name was forgotten.
  -/
  found : ∀ {id : Nat} {name : String} {stage : Stage} {walk : Option Walk} {program : Program}
    {past : List Event}, Happened es past (.forget name) → ¬ (afterAll past).IsLoading id name →
    (afterAll es).tasks[id]? = some (.load name stage walk) →
    (afterAll es).finds? id = some program →
    (afterAll (es ++ [.step id])).tasks[id]? = some (.afterLoad name (some program) walk) ∧
      FromCall es name (afterAll past).calls.length program
  /--
  When no task can go on, a name has a program exactly if its place is filled, and a walk has
  published for it if the task that filled it was abandoned before it did.
  -/
  present : (afterAll es).AtRest → ∀ name, ((afterAll es).cache.program? name).isSome ↔
    ∃ place source, (afterAll es).cache.current.find? name = some place ∧
      ((afterAll es).cache.place place).source = some source ∧
      (Stranded es place → Renewed es place)

/--
**Nothing overtaken is served.** In whatever order tasks start, take their steps, are
answered, fail and are abandoned, and names are forgotten.
-/
theorem fresh_afterAll (es : List Event) : Fresh es := by
  obtain ⟨owner, birth, t⟩ := traced_afterAll es
  constructor
  case published =>
    intro name program found
    obtain ⟨place, source, current, filled, stands⟩ := t.published found
    obtain ⟨named, since⟩ := t.current current
    obtain ⟨text, ⟨call, answer, called, late⟩, nodes⟩ := (t.sources filled).text
    rw [named] at called
    exact ⟨place, source, current, filled, stands, call, text, nodes, answer, called,
      fun past happened => Nat.le_trans (since past happened) late⟩
  case returned =>
    rintro id name program before past starts ⟨later, rfl⟩ loaded
    obtain ⟨earlier, fromCall, late⟩ := (returned_afterAll es).loaded loaded starts
    obtain ⟨⟨rest, rfl⟩, rfl⟩ := starts
    refine fromCall.weaken (late past ⟨later ++ .load name :: rest, by simp⟩ ?_)
    exact size_le past _
  case found =>
    intro id name stage walk program past happened out loads found
    obtain ⟨earlier, fromCall, entered⟩ := fresh_of_finds found loads
    refine ⟨?_, fromCall.weaken (entered past happened out)⟩
    rw [afterAll_concat]
    exact step_finds loads found
  case present => exact fun rest name => rest.program?_isSome_iff name

end Activity

/-- Whether a task is over and has found a program. -/
def Task.hasFound : Task → Bool
  | .loaded (some _) => true
  | _ => false

theorem Task.loaded_of_hasFound {t : Task} (h : t.hasFound = true) :
    ∃ program, t = .loaded (some program) := by
  unfold hasFound at h
  split at h
  · exact ⟨_, rfl⟩
  · cases h

namespace Activity

/--
The text of a name arrives after the name was forgotten, and the task that asked for it gets
it, but only what a second task asked for is published.
-/
theorem fresh_overtaken :
    let es : List Event :=
      [.load "/a", .step 0, .forget "/a", .load "/a", .step 1, .answer 0 (some "int old;"),
        .answer 1 (some "int new;"), .step 1, .step 0, .step 1, .step 0]
    (afterAll es).AtRest ∧ ((afterAll es).cache.program? "/a").isSome ∧
      (∃ program, (afterAll es).tasks[1]? = some (.loaded (some program)) ∧
        FromCall es "/a" 1 program) ∧
      ∃ place source, (afterAll es).cache.current.find? "/a" = some place ∧
        ((afterAll es).cache.place place).source = some source ∧
        (Stranded es place → Renewed es place) := by
  intro es
  have rest : (afterAll es).AtRest := by decide +kernel
  have served : ((afterAll es).cache.program? "/a").isSome := by decide +kernel
  have found : (afterAll es).tasks[1]?.any Task.hasFound = true := by decide +kernel
  refine ⟨rest, served, ?_, ((fresh_afterAll es).present rest "/a").1 served⟩
  obtain ⟨t, loaded, ht⟩ := (Option.any_eq_true ..).mp found
  obtain ⟨program, rfl⟩ := Task.loaded_of_hasFound ht
  -- the name was forgotten after one call, and then the second task started
  have starts : Starts es [.load "/a", .step 0, .forget "/a"] 1 "/a" := ⟨⟨_, rfl⟩, rfl⟩
  have forgotten : Happened [.load "/a", .step 0, .forget "/a"] [.load "/a", .step 0]
      (.forget "/a") := ⟨[], rfl⟩
  exact ⟨program, loaded, (fresh_afterAll es).returned starts forgotten loaded⟩

/--
A task is abandoned while it waits to publish what it has read. The place of the name is filled
then, and the name has no program, although no task can go on. It gets none from the next load
either: that finds the place filled, returns the program of the source and publishes nothing.
-/
theorem abandoned_unpublished :
    let es : List Event :=
      [.load "/a", .step 0, .answer 0 (some "int x;"), .step 0, .abandon 0]
    let later := es ++ [.load "/a", .step 1]
    ((afterAll es).AtRest ∧ (∃ place, (afterAll es).cache.current.find? "/a" = some place ∧
        ((afterAll es).cache.place place).source.isSome) ∧
      ((afterAll es).cache.program? "/a").isNone) ∧
    (afterAll later).AtRest ∧ (∃ place, (afterAll later).cache.current.find? "/a" = some place ∧
        ((afterAll later).cache.place place).source.isSome) ∧
      (afterAll later).tasks[1]?.any Task.hasFound = true ∧
      ((afterAll later).cache.program? "/a").isNone := by
  intro es later
  have unpublished : (afterAll es).AtRest ∧ ((afterAll es).cache.program? "/a").isNone := by
    decide +kernel
  have still : (afterAll later).AtRest ∧ ((afterAll later).cache.program? "/a").isNone := by
    decide +kernel
  exact ⟨⟨unpublished.1, ⟨0, by decide +kernel⟩, unpublished.2⟩, still.1,
    ⟨0, by decide +kernel⟩, by decide +kernel, still.2⟩

end Activity

end MudEdit
