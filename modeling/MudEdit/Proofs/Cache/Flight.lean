import MudEdit.Proofs.Cache.Origin

/-!
# One call at a time

At each place at most one task waits for an answer, and none does once the place is filled.
As long as it is not forgotten, a name keeps its place. So while a name is not forgotten
there is one call for it at a time, and none after a text has come.

Nobody is left behind: when no task can go on, those that wait at a place wait for the
answer to a call, which one of them made. If this one is abandoned or gets no text, the turn
passes to another.
-/

namespace MudEdit

namespace Activity

variable {a b : Activity} {e : Event} {id place call : Nat} {name : String} {walk : Option Walk}
  {es : List Event}

/-- A task waits for the answer to a call, which it made for a place. -/
def AsksAt (a : Activity) (id place call : Nat) : Prop :=
  ∃ name walk, a.tasks[id]? = some (.load name (.asking place call) walk)

theorem AsksAt.fetches (asks : a.AsksAt id place call) : a.Fetches place id := by
  obtain ⟨name, walk, known⟩ := asks
  exact ⟨_, known, rfl, rfl⟩

theorem Ordered.asks_unique {other call' : Nat} (o : a.Ordered) (first : a.AsksAt id place call)
    (second : a.AsksAt other place call') : id = other ∧ call = call' := by
  obtain rfl := (o.places place).fetches_unique first.fetches second.fetches
  obtain ⟨name, walk, known⟩ := first
  obtain ⟨name', walk', known'⟩ := second
  rw [known] at known'
  simp only [Option.some.injEq, Task.load.injEq, Stage.asking.injEq] at known'
  exact ⟨rfl, known'.2.1.2⟩

/-- At a filled place nobody asks. -/
theorem Ordered.empty_of_asks (o : a.Ordered) (asks : a.AsksAt id place call) :
    (a.cache.place place).source = none :=
  (o.places place).empty_of_turn ((o.places place).turn_of_fetches asks.fetches)

/-! ## How calls are made -/

/-- A call is made by a step, after which the task waits for the answer. -/
theorem Change.calls_cases (c : Change a e b) :
    b.calls = a.calls ∨ ∃ id place name walk, e = .step id ∧ b.calls = a.calls ++ [name] ∧
      b.tasks[id]? = some (.load name (.asking place a.calls.length) walk) := by
  cases c
  case asked id place name walk ready comes _ _ =>
    refine .inr ⟨id, place, name, walk, rfl, by rw [calls_put, comes.calls], ?_⟩
    -- whether it was first in the line or waited, the task is there
    obtain ⟨task, known⟩ : ∃ task, a.tasks[id]? = some task := by
      cases comes with
      | first loads => exact ⟨_, loads⟩
      | again waits => exact ⟨_, waits⟩
    rw [← comes.tasks] at known
    rw [tasks_put known, if_pos rfl, comes.calls]
  case arrived comes _ => exact .inl comes.calls
  all_goals exact .inl rfl

/-- A name keeps its place until it is forgotten. -/
theorem Change.current_kept (c : Change a e b) (other : e ≠ .forget name)
    (found : a.cache.current.find? name = some place) :
    b.cache.current.find? name = some place := by
  -- opening a place adds an entry where there was none
  have opened : ∀ other, (a.opening other).cache.current.find? name = some place := by
    intro other
    unfold Activity.opening Cache.placeOf
    split
    · exact found
    · rename_i none
      have apart : name ≠ other := by
        rintro rfl
        rw [found] at none
        cases none
      rw [Table.find?_put, if_neg apart, found]
  -- a task that comes opens a place at most
  have came : ∀ {id' place' name' walk' b'}, Comes a id' name' walk' b' place' →
      b'.cache.current.find? name = some place := by
    intro id' place' name' walk' b' comes
    cases comes with
    | first => exact opened _
    | again => exact found
  cases c
  case joined => exact opened _
  case asked comes _ _ => exact (came comes :)
  case arrived comes _ => exact (came comes :)
  case published => rw [cache_put, Cache.current_publish, found]
  case replaced => rw [cache_put, Cache.current_publish, found]
  case forgotten forgotten =>
    rw [forget, Cache.forget, Table.find?_remove, if_neg, found]
    rintro rfl
    exact other rfl
  all_goals exact found

theorem current_kept {past : List Event} (later : List Event) (kept : .forget name ∉ later)
    (found : (afterAll past).cache.current.find? name = some place) :
    (afterAll (past ++ later)).cache.current.find? name = some place := by
  induction later using List.reverseRecOn with
  | nil => simpa using found
  | append_singleton later e ih =>
    simp only [List.mem_append, List.mem_singleton, not_or] at kept
    rw [← List.append_assoc, afterAll_concat]
    exact (change_after _ e).current_kept (Ne.symm kept.2) (ih kept.1)

/-! ## Nobody is left behind -/

theorem AtRest.not_runnable {task : Task} (rest : a.AtRest) (known : a.tasks[id]? = some task)
    (waits : ∀ name place walk, task ≠ .load name (.queued place) walk) :
    task.isRunnable = false := by
  have stuck := rest id
  simpa only [canStep, known] using stuck

theorem AtRest.queued (rest : a.AtRest)
    (waits : a.tasks[id]? = some (.load name (.queued place) walk)) :
    (a.cache.place place).source = none ∧ (a.cache.place place).turn ≠ some id := by
  have stuck := rest id
  simpa [canStep, waits] using stuck

/-- When no task can go on, whoever has the turn at an empty place waits for an answer. -/
theorem AtRest.asks_of_turn (rest : a.AtRest) (o : a.Ordered)
    (turn : (a.cache.place place).turn = some id) : ∃ call, a.AsksAt id place call := by
  obtain ⟨task, known, here⟩ := (o.places place).turn_here turn
  unfold placeHeld? at here
  split at here
  · obtain rfl := Option.some.inj here
    exact absurd turn (rest.queued known).2
  · obtain rfl := Option.some.inj here
    exact ⟨_, _, _, known⟩
  · cases rest.not_runnable known (by simp)
  · cases here

/-- **When no task can go on, somebody asks at every place where a task is.** -/
theorem AtRest.asks (rest : a.AtRest) (o : a.Ordered) {stage : Stage}
    (loads : a.tasks[id]? = some (.load name stage walk)) :
    ∃ place, stage.place? = some place ∧ ∃ other call, a.AsksAt other place call := by
  cases stage with
  | start => cases rest.not_runnable loads (by simp)
  | queued place =>
    obtain ⟨empty, turn⟩ := rest.queued loads
    -- a queued load waits for the one whose turn it is, and that one is asking
    have waits : id ∈ (a.cache.place place).waiting :=
      ((o.places place).inLine ⟨_, loads, rfl⟩ empty).resolve_left turn
    cases held : (a.cache.place place).turn with
    | none => simp [(o.places place).nobody_waits held] at waits
    | some other => exact ⟨place, rfl, other, rest.asks_of_turn o held⟩
  | asking place call => exact ⟨place, rfl, id, call, _, _, loads⟩
  | answered place text => cases rest.not_runnable loads (by simp)
  | publishing place program => cases rest.not_runnable loads (by simp)

/-! ## What does no harm -/

/-- Whether what is published and what fills the places is the same. -/
def SameContent (c c' : Cache) : Prop :=
  c'.published = c.published ∧ ∀ place, (c'.place place).source = (c.place place).source

theorem sameContent_abandon (a : Activity) (id : Nat) :
    SameContent a.cache (a.abandon id).cache := by
  have change := change_abandon a id
  generalize a.abandon id = b at change
  cases change
  case passed => exact ⟨rfl, fun _ => Cache.source_modifyPlace _ _ _ fun _ => rfl⟩
  case left => exact ⟨rfl, fun _ => Cache.source_modifyPlace _ _ _ fun _ => rfl⟩
  all_goals exact ⟨rfl, fun _ => rfl⟩

theorem sameContent_failed (failed : a.tasks[id]? = some (.load name (.answered place none) walk)) :
    SameContent a.cache (a.step id).cache := by
  simp only [step, failed, receive]
  exact ⟨rfl, fun _ => Cache.source_modifyPlace _ _ _ fun _ => rfl⟩

/-! ## All of it -/

/-- One call at a time for every name, and nobody is left behind. -/
structure SingleFlight (es : List Event) : Prop where
  /-- A call is made by a step of a task, which then waits for the answer. -/
  made : ∀ e, (afterAll (es ++ [e])).calls = (afterAll es).calls ∨
    ∃ id place name walk, e = .step id ∧
      (afterAll (es ++ [e])).calls = (afterAll es).calls ++ [name] ∧
      (afterAll (es ++ [e])).tasks[id]? =
        some (.load name (.asking place (afterAll es).calls.length) walk)
  /-- The call is one for the name, and so is the place if a name has it now. -/
  named : ∀ {id place call : Nat} {name : String} {walk : Option Walk},
    (afterAll es).tasks[id]? = some (.load name (.asking place call) walk) →
      (afterAll es).calls[call]? = some name ∧
      ∀ {other : String}, (afterAll es).cache.current.find? other = some place → other = name
  /-- At most one task waits for an answer at a place, and for one answer only. -/
  alone : ∀ {id other place call call' : Nat}, (afterAll es).AsksAt id place call →
    (afterAll es).AsksAt other place call' → id = other ∧ call = call'
  /-- Between two times that it is forgotten, a name has one place. -/
  period : ∀ {past later : List Event} {name : String} {place : Nat}, es = past ++ later →
    .forget name ∉ later →
    (afterAll past).cache.current.find? name = some place →
      (afterAll es).cache.current.find? name = some place
  /-- Once a text has come, what fills the place stays and nobody asks there any more. -/
  fetched : ∀ {past later : List Event} {place : Nat} {source : Source}, es = past ++ later →
    ((afterAll past).cache.place place).source = some source →
      ((afterAll es).cache.place place).source = some source ∧
        ∀ id call, ¬ (afterAll es).AsksAt id place call
  /-- When no task can go on, a task that loads a name is at a place where one task asks for it. -/
  carried : (afterAll es).AtRest →
    ∀ {id : Nat} {name : String} {stage : Stage} {walk : Option Walk},
    (afterAll es).tasks[id]? = some (.load name stage walk) →
      ∃ place, stage.place? = some place ∧ ∃! asker : Nat × Nat,
        (∃ walk, (afterAll es).tasks[asker.1]? = some (.load name (.asking place asker.2) walk)) ∧
          (afterAll es).calls[asker.2]? = some name
  /-- Whoever is abandoned leaves nothing behind, and takes nothing away. -/
  abandoned : ∀ id, SameContent (afterAll es).cache (afterAll (es ++ [.abandon id])).cache
  /-- Nor does whoever gets no text. -/
  failed : ∀ {id place : Nat} {name : String} {walk : Option Walk},
    (afterAll es).tasks[id]? = some (.load name (.answered place none) walk) →
      SameContent (afterAll es).cache (afterAll (es ++ [.step id])).cache

/--
**One call at a time, and nobody is left behind.** In whatever order tasks start, take their
steps, are answered, fail and are abandoned, and names are forgotten.
-/
theorem singleFlight_afterAll (es : List Event) : SingleFlight es := by
  have o := ordered_afterAll es
  obtain ⟨owner, birth, t⟩ := traced_afterAll es
  have placed : ∀ {id name stage walk}, (afterAll es).tasks[id]? = some (.load name stage walk) →
      Placed es (afterAll es) owner birth id name stage := fun known => t.tasks known
  constructor
  case made =>
    intro e
    rw [afterAll_concat]
    exact (change_after _ e).calls_cases
  case named =>
    intro id place call name walk known
    refine ⟨((placed known).asking rfl).2, fun {other} current => ?_⟩
    rw [← (t.current current).1, ((placed known).entered rfl).1]
  case alone =>
    exact fun first second => o.asks_unique first second
  case period =>
    rintro past later name place rfl kept found
    exact current_kept later kept found
  case fetched =>
    rintro past later place source rfl filled
    have still := source_kept later filled
    refine ⟨still, fun id call asks => ?_⟩
    rw [o.empty_of_asks asks] at still
    cases still
  case carried =>
    intro rest id name stage walk loads
    obtain ⟨place, here, other, call, name', walk', asks⟩ := rest.asks o loads
    -- all tasks at a place load the name that it was made for
    have same : name' = name := by
      rw [← ((placed loads).entered here).1, ((placed asks).entered rfl).1]
    subst same
    refine ⟨place, here, (other, call), ⟨⟨walk', asks⟩, ((placed asks).asking rfl).2⟩, ?_⟩
    rintro ⟨other', call'⟩ ⟨⟨walk'', asks'⟩, -⟩
    obtain ⟨rfl, rfl⟩ := o.asks_unique ⟨_, _, asks'⟩ ⟨_, _, asks⟩
    rfl
  case abandoned =>
    intro id
    rw [afterAll_concat]
    exact sameContent_abandon _ id
  case failed =>
    intro id name place walk failed
    rw [afterAll_concat]
    exact sameContent_failed failed

/--
Two tasks load a name, and the one that asks is abandoned. Then the other one asks, and a
third that comes later waits for the same answer.
-/
theorem singleFlight_handedOver :
    let es : List Event :=
      [.load "/a", .load "/a", .step 0, .step 1, .abandon 0, .step 1, .load "/a", .step 2]
    (afterAll es).AtRest ∧ (afterAll es).calls = ["/a", "/a"] ∧
      ∃ place, ∃! asker : Nat × Nat,
        (∃ walk, (afterAll es).tasks[asker.1]? = some (.load "/a" (.asking place asker.2) walk)) ∧
          (afterAll es).calls[asker.2]? = some "/a" := by
  intro es
  have rest : (afterAll es).AtRest := by decide +kernel
  refine ⟨rest, by decide +kernel, ?_⟩
  have waits : (afterAll es).tasks[2]? = some (.load "/a" (.queued 0) none) := rfl
  obtain ⟨place, -, asker⟩ := (singleFlight_afterAll es).carried rest waits
  exact ⟨place, asker⟩

end Activity

end MudEdit
