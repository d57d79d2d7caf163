import MudEdit.Proofs.Cache.Turn

/-!
# Where programs come from

Every place was made for one name, when so many calls had been made. Whatever is asked for
at the place is asked for under this name and later than that, what fills the place is an
answer to such a call, and programs are published under the name that stand for what fills
its place. When a name is forgotten its place is not its place any more, so that the place
that it has was made after it was forgotten for the last time.

For which name a place was made, and when, is written down nowhere. `Traced` has both as
functions, and a new place gets values of its own.
-/

namespace MudEdit

/-- The events before one of the events. -/
def Happened (es past : List Event) (e : Event) : Prop := ∃ later, es = past ++ e :: later

/-- An event happened among more, or it is the last one. -/
theorem happened_concat {es past : List Event} {e last : Event} :
    Happened (es ++ [last]) past e ↔ Happened es past e ∨ past = es ∧ e = last := by
  constructor
  · rintro ⟨later, same⟩
    rcases List.eq_nil_or_concat later with rfl | ⟨later, x, rfl⟩
    · obtain ⟨rfl, last⟩ := List.append_inj' same rfl
      exact .inr ⟨rfl, (List.cons.inj last).1.symm⟩
    · rw [List.concat_eq_append, ← List.cons_append, ← List.append_assoc] at same
      exact .inl ⟨later, (List.append_inj' same rfl).1⟩
  · rintro (⟨later, rfl⟩ | ⟨rfl, rfl⟩)
    · exact ⟨later ++ [last], by simp⟩
    · exact ⟨[], rfl⟩

/-- The place where the loading of a name has come to. -/
def Stage.place? : Stage → Option Nat
  | .start => none
  | .queued place | .asking place _ | .answered place _ | .publishing place _ => some place

/-- A program is what constructs stand for under a name, with some library. -/
def StandsFor (name : String) (nodes : List Node) (program : Program) : Prop :=
  ∃ library stamp, program = (resolve library stamp (some name) nodes).program

namespace Activity

variable {a b : Activity} {e : Event} {id place : Nat} {name : String} {walk : Option Walk}
  {es : List Event}

/-! ## What only grows -/

theorem Comes.calls (c : Comes a id name walk b place) : b.calls = a.calls := by
  cases c <;> rfl

theorem Comes.tasks (c : Comes a id name walk b place) : b.tasks = a.tasks := by
  cases c <;> rfl

/-- To come to a place leaves all places as they are. -/
theorem Comes.place_eq (c : Comes a id name walk b place) (other : Nat) :
    b.cache.place other = a.cache.place other := by
  cases c with
  | first => exact a.cache.place_placeOf name other
  | again => rfl

/-- No task goes away. -/
theorem Change.size_le (c : Change a e b) : a.tasks.size ≤ b.tasks.size := by
  cases c
  case started | walked => simp
  case asked comes _ _ => simp [comes.tasks]
  case arrived comes _ => simp [comes.tasks]
  all_goals first | exact Nat.le_refl _ | simp

/-- No call is taken back. -/
theorem Change.calls_grow (c : Change a e b) : a.calls <+: b.calls := by
  cases c
  case asked comes _ _ =>
    rw [← comes.calls]
    exact List.prefix_append _ _
  case arrived comes _ =>
    rw [← comes.calls]
    exact List.prefix_rfl
  all_goals exact List.prefix_rfl

/-- **What fills a place stays there.** -/
theorem Ordered.source_kept {source : Source} (o : a.Ordered) (c : Change a e b)
    (filled : (a.cache.place place).source = some source) :
    (b.cache.place place).source = some source := by
  cases c
  case joined =>
    rw [cache_put, Cache.source_modifyPlace, place_opening, filled]
    exact fun _ => rfl
  case asked comes _ _ =>
    rw [cache_put, Cache.source_modifyPlace, comes.place_eq, filled]
    exact fun _ => rfl
  case arrived comes _ => rw [cache_put, comes.place_eq, filled]
  case failed =>
    rw [cache_put, Cache.source_modifyPlace, filled]
    exact fun _ => rfl
  case filled answered =>
    -- who answers has the turn, so the place that is filled was empty
    have bound := o.known ⟨_, answered, rfl⟩
    rw [cache_put, Cache.place_nextStamp, Cache.place_modifyPlace _ bound, if_neg, filled]
    rintro rfl
    rw [(o.places _).empty_of_turn (o.turn_of_answered answered)] at filled
    cases filled
  case published => rw [cache_put, Cache.place_publish, filled]
  case replaced => rw [cache_put, Cache.place_publish, filled]
  case passed =>
    rw [cache_put, Cache.source_modifyPlace, filled]
    exact fun _ => rfl
  case left =>
    rw [cache_put, Cache.source_modifyPlace, filled]
    exact fun _ => rfl
  all_goals exact filled

/-- Calls that were made remain. -/
theorem calls_grow (past later : List Event) :
    (afterAll past).calls <+: (afterAll (past ++ later)).calls := by
  induction later using List.reverseRecOn with
  | nil => simp
  | append_singleton later e ih =>
    rw [← List.append_assoc, afterAll_concat]
    exact ih.trans (change_after _ e).calls_grow

/-- Tasks that were there remain. -/
theorem size_le (past later : List Event) :
    (afterAll past).tasks.size ≤ (afterAll (past ++ later)).tasks.size := by
  induction later using List.reverseRecOn with
  | nil => simp
  | append_singleton later e ih =>
    rw [← List.append_assoc, afterAll_concat]
    exact Nat.le_trans ih (change_after _ e).size_le

/-- A place that is filled stays filled with the same. -/
theorem source_kept {source : Source} {past : List Event} (later : List Event)
    (filled : ((afterAll past).cache.place place).source = some source) :
    ((afterAll (past ++ later)).cache.place place).source = some source := by
  induction later using List.reverseRecOn with
  | nil => simpa using filled
  | append_singleton later e ih =>
    rw [← List.append_assoc, afterAll_concat]
    exact (ordered_afterAll _).source_kept (change_after _ e) ih

/-- At an event there were no more calls than later. -/
theorem calls_le_of_happened {past : List Event} (h : Happened es past e) :
    (afterAll past).calls.length ≤ (afterAll es).calls.length := by
  obtain ⟨later, rfl⟩ := h
  exact (calls_grow past _).length_le

/-! ## Where a task is, and where its text and its program come from -/

/-- The calls made before the name was forgotten for the last time are fewer. -/
def Since (es : List Event) (name : String) (calls : Nat) : Prop :=
  ∀ past, Happened es past (.forget name) → (afterAll past).calls.length ≤ calls

/-- A task is loading a name, and has come to a place for it. -/
def IsLoading (a : Activity) (id : Nat) (name : String) : Prop :=
  ∃ stage walk, a.tasks[id]? = some (.load name stage walk) ∧ stage.place? ≠ none

/-- The calls made before the name was forgotten are fewer, whenever the task did not load it
then. -/
def Entered (es : List Event) (id : Nat) (name : String) (calls : Nat) : Prop :=
  ∀ past, Happened es past (.forget name) → ¬ (afterAll past).IsLoading id name →
    (afterAll past).calls.length ≤ calls

/-- A text that answers a call for the name, before which there were at least so many calls. -/
def Brought (es : List Event) (calls : List String) (name : String) (earlier : Nat)
    (text : String) : Prop :=
  ∃ call, .answer call (some text) ∈ es ∧ calls[call]? = some name ∧ earlier ≤ call

/-- A source is read from a text that answers a call for the name. -/
structure Sourced (es : List Event) (calls : List String) (name : String) (earlier : Nat)
    (source : Source) : Prop where
  text : ∃ text, Brought es calls name earlier text ∧
    source.nodes = (Forest.parse .interpretation text).nodes
  program : StandsFor name source.nodes source.program

/-- What a task has to do with the place where it is. -/
structure Placed (es : List Event) (a : Activity) (owner : Nat → String) (birth : Nat → Nat)
    (id : Nat) (name : String) (stage : Stage) : Prop where
  entered : ∀ {place}, stage.place? = some place →
    owner place = name ∧ place < a.cache.places.size ∧ Entered es id name (birth place)
  asking : ∀ {place call}, stage = .asking place call →
    birth place ≤ call ∧ a.calls[call]? = some name
  answered : ∀ {place text}, stage = .answered place (some text) →
    Brought es a.calls name (birth place) text
  publishing : ∀ {place program}, stage = .publishing place program →
    ∃ source, (a.cache.place place).source = some source ∧ source.program = program

/-- What is true of a task, by what it does. -/
def Backed (es : List Event) (a : Activity) (owner : Nat → String) (birth : Nat → Nat) (id : Nat) :
    Task → Prop
  | .load name stage _ => Placed es a owner birth id name stage
  | .republish name place program _ _ => owner place = name ∧
    ∃ source, (a.cache.place place).source = some source ∧ StandsFor name source.nodes program
  | _ => True

/-- Every place has the name that it was made for and the number of calls made before. -/
structure Traced (es : List Event) (a : Activity) (owner : Nat → String) (birth : Nat → Nat) :
    Prop where
  current : ∀ {name place}, a.cache.current.find? name = some place →
    owner place = name ∧ Since es name (birth place)
  tasks : ∀ {id task}, a.tasks[id]? = some task → Backed es a owner birth id task
  sources : ∀ {place source}, (a.cache.place place).source = some source →
    Sourced es a.calls (owner place) (birth place) source
  published : ∀ {name program}, a.cache.program? name = some program →
    ∃ place source, a.cache.current.find? name = some place ∧
      (a.cache.place place).source = some source ∧ StandsFor name source.nodes program
  early : ∀ {place}, place < a.cache.places.size → birth place ≤ a.calls.length

/-! ## As time passes -/

variable {calls calls' : List String} {n : Nat} {text : String} {source : Source}
  {owner owner' : Nat → String} {birth birth' : Nat → Nat} {task : Task} {stage : Stage}

/-- A call keeps its name. -/
theorem getElem?_of_prefix {call : Nat} (grows : calls <+: calls')
    (known : calls[call]? = some name) : calls'[call]? = some name := by
  obtain ⟨more, rfl⟩ := grows
  rw [List.getElem?_append_left (List.getElem?_eq_some_iff.1 known).1, known]

/-- Since then the name has not been forgotten, and another event does not forget it. -/
theorem Since.concat (s : Since es name n) (other : e ≠ .forget name) : Since (es ++ [e]) name n := by
  intro past h
  rcases happened_concat.1 h with h | ⟨-, same⟩
  · exact s past h
  · exact absurd same.symm other

/-- Who entered after a name was forgotten did so with it. -/
theorem Since.entered (s : Since es name n) (id : Nat) : Entered es id name n :=
  fun past h _ => s past h

/-- At the latest call nothing has been forgotten since. -/
theorem since_calls (es : List Event) (name : String) :
    Since es name (afterAll es).calls.length :=
  fun _ h => calls_le_of_happened h

/-- A task that is loading a name entered before whatever happens now. -/
theorem Entered.concat (s : Entered es id name n)
    (loads : e = .forget name → (afterAll es).IsLoading id name) :
    Entered (es ++ [e]) id name n := by
  intro past h out
  rcases happened_concat.1 h with h | ⟨rfl, same⟩
  · exact s past h out
  · exact absurd (loads same.symm) out

/-- A text that was brought was brought. -/
theorem Brought.mono (b : Brought es calls name n text) (grows : calls <+: calls') (e : Event) :
    Brought (es ++ [e]) calls' name n text := by
  obtain ⟨call, answer, named, late⟩ := b
  exact ⟨call, List.mem_append_left _ answer, getElem?_of_prefix grows named, late⟩

/-- What was made of a text stays made of it. -/
theorem Sourced.mono (s : Sourced es calls name n source) (grows : calls <+: calls') (e : Event) :
    Sourced (es ++ [e]) calls' name n source := by
  obtain ⟨text, brought, nodes⟩ := s.text
  exact ⟨⟨text, brought.mono grows e, nodes⟩, s.program⟩

/-- What is true of a task stays true, as long as it does not come further. -/
theorem Backed.mono (k : Backed es a owner birth id task) (tasks : a.tasks = (afterAll es).tasks)
    (known : a.tasks[id]? = some task) (grows : a.calls <+: b.calls)
    (size : a.cache.places.size ≤ b.cache.places.size)
    (kept : ∀ {place source}, (a.cache.place place).source = some source →
      (b.cache.place place).source = some source) (e : Event) :
    Backed (es ++ [e]) b owner birth id task := by
  unfold Backed at k ⊢
  split
  · exact {
      entered := fun {place} here =>
        have ⟨named, bound, entered⟩ := k.entered here
        ⟨named, Nat.lt_of_lt_of_le bound size, entered.concat fun same =>
          ⟨_, _, tasks ▸ known, by simp [here]⟩⟩
      asking := fun asks =>
        have ⟨late, named⟩ := k.asking asks
        ⟨late, getElem?_of_prefix grows named⟩
      answered := fun answered => (k.answered answered).mono grows e
      publishing := fun publishes =>
        have ⟨source, filled, same⟩ := k.publishing publishes
        ⟨source, kept filled, same⟩ }
  -- to republish needs a filled place, which stays filled
  · obtain ⟨named, source, filled, stands⟩ := k
    exact ⟨named, source, kept filled, stands⟩
  · trivial

/-- A task is one that was there, or the new one, which is free. -/
theorem known_or_pushed {tasks : Array Task} {new : Task}
    (found : (tasks.push new)[id]? = some task) (free : new.isFree) :
    tasks[id]? = some task ∨ task.isFree := by
  rw [Array.getElem?_push] at found
  split at found
  · rw [← Option.some.inj found]
    exact .inr free
  · exact .inl found

/-- A task that is at no place has nothing to show. -/
theorem backed_of_isFree (free : task.isFree) : Backed es a owner birth id task := by
  unfold Task.isFree at free
  split at free
  · exact ⟨by simp [Stage.place?], by simp, by simp, by simp⟩
  all_goals trivial

/-- Nothing happens to the cache, and tasks that are new have just started. -/
theorem Traced.later (t : Traced es a owner birth) (tasks : a.tasks = (afterAll es).tasks)
    (still : ∀ name, e ≠ .forget name) (cache : b.cache = a.cache) (calls : b.calls = a.calls)
    (old : ∀ {id : Nat} {task : Task}, b.tasks[id]? = some task →
      a.tasks[id]? = some task ∨ task.isFree) :
    Traced (es ++ [e]) b owner birth where
  current := by
    intro name place found
    rw [cache] at found
    obtain ⟨named, since⟩ := t.current found
    exact ⟨named, since.concat (still name)⟩
  tasks := by
    intro id task found
    rcases old found with found | free
    · exact (t.tasks found).mono tasks found (calls ▸ List.prefix_rfl)
        (Nat.le_of_eq (by rw [cache])) (fun filled => by rw [cache, filled]) e
    · exact backed_of_isFree free
  sources := by
    intro place source filled
    rw [cache] at filled
    exact (t.sources filled).mono (calls ▸ List.prefix_rfl) e
  published := by
    rw [cache]
    exact t.published
  early := by
    rw [cache, calls]
    exact t.early

/-- A name is forgotten, and with it the place that it has and the program. -/
theorem Traced.forget (t : Traced es a owner birth) (tasks : a.tasks = (afterAll es).tasks)
    (name : String) : Traced (es ++ [.forget name]) (a.forget name) owner birth where
  current := by
    intro other place found
    rw [Activity.forget, Cache.forget, Table.find?_remove] at found
    split at found
    · cases found
    · rename_i apart
      -- the forgotten name aside, names are as recent as before
      obtain ⟨named, since⟩ := t.current found
      exact ⟨named, since.concat (by simpa using Ne.symm apart)⟩
  tasks := fun found =>
    Backed.mono (b := a.forget name) (t.tasks found) tasks found List.prefix_rfl (Nat.le_refl _)
      (fun filled => filled) _
  sources := fun filled => (t.sources filled).mono List.prefix_rfl _
  published := by
    intro other program found
    rw [Activity.forget, Cache.forget, Cache.program?, Table.find?_remove] at found
    split at found
    · cases found
    · rename_i apart
      obtain ⟨place, source, current, filled, stands⟩ := t.published found
      refine ⟨place, source, ?_, filled, stands⟩
      rw [Activity.forget, Cache.forget, Table.find?_remove, if_neg apart, current]
  early := t.early

/-- A task comes further, and no name is forgotten. -/
theorem Traced.put {old new : Task} {cache : Cache} {ready : List Nat}
    (t : Traced es a owner birth) (tasks : a.tasks = (afterAll es).tasks)
    (known : a.tasks[id]? = some old) (own : e.isOwn) (grows : a.calls <+: calls)
    (size : cache.places.size = a.cache.places.size)
    (kept : ∀ {place source}, (a.cache.place place).source = some source →
      (cache.place place).source = some source)
    (current : cache.current = a.cache.current)
    (sources : ∀ {place source}, (cache.place place).source = some source →
      (a.cache.place place).source = some source ∨
        Sourced (es ++ [e]) calls (owner place) (birth place) source)
    (published : ∀ {name program}, cache.program? name = some program →
      a.cache.program? name = some program ∨
        ∃ place source, a.cache.current.find? name = some place ∧
          (a.cache.place place).source = some source ∧ StandsFor name source.nodes program)
    (backed : Backed (es ++ [e]) (a.put id new cache calls ready) owner birth id new) :
    Traced (es ++ [e]) (a.put id new cache calls ready) owner birth where
  current := by
    intro name place found
    rw [cache_put, current] at found
    obtain ⟨named, since⟩ := t.current found
    exact ⟨named, since.concat (by rintro rfl; cases own)⟩
  tasks := by
    intro other task found
    rw [tasks_put known] at found
    split at found
    · rename_i same
      rw [← Option.some.inj found, same]
      exact backed
    · exact (t.tasks found).mono tasks found grows (Nat.le_of_eq size.symm) kept e
  sources := by
    intro place source filled
    rcases sources filled with filled | sourced
    · exact (t.sources filled).mono grows e
    · exact sourced
  published := by
    intro name program found
    rw [cache_put, current]
    -- a program was published before, or it is that of a source now current
    rcases published found with before | ⟨place, source, here, filled, stands⟩
    · obtain ⟨place, source, here, filled, stands⟩ := t.published before
      exact ⟨place, source, here, kept filled, stands⟩
    · exact ⟨place, source, here, kept filled, stands⟩
  early := by
    intro place bound
    rw [cache_put, size] at bound
    exact Nat.le_trans (t.early bound) grows.length_le

/-- A task comes further, and no place is filled. -/
theorem Traced.put_same {old new : Task} {cache : Cache} {ready : List Nat}
    (t : Traced es a owner birth) (tasks : a.tasks = (afterAll es).tasks)
    (known : a.tasks[id]? = some old) (own : e.isOwn) (grows : a.calls <+: calls)
    (size : cache.places.size = a.cache.places.size)
    (same : ∀ place, (cache.place place).source = (a.cache.place place).source)
    (current : cache.current = a.cache.current)
    (published : ∀ {name program}, cache.program? name = some program →
      a.cache.program? name = some program ∨
        ∃ place source, a.cache.current.find? name = some place ∧
          (a.cache.place place).source = some source ∧ StandsFor name source.nodes program)
    (backed : Backed (es ++ [e]) (a.put id new cache calls ready) owner birth id new) :
    Traced (es ++ [e]) (a.put id new cache calls ready) owner birth :=
  t.put tasks known own grows size (fun filled => by rw [same, filled]) current
    (fun filled => .inl (by rw [← same, filled])) published backed

/-- A task comes further, and operates on a place which it does not fill. -/
theorem Traced.put_place {old new : Task} {f : Place → Place} {ready : List Nat}
    (t : Traced es a owner birth) (tasks : a.tasks = (afterAll es).tasks)
    (known : a.tasks[id]? = some old) (own : e.isOwn) (grows : a.calls <+: calls)
    (same : ∀ p, (f p).source = p.source)
    (backed : Backed (es ++ [e]) (a.put id new (a.cache.modifyPlace place f) calls ready)
      owner birth id new) :
    Traced (es ++ [e]) (a.put id new (a.cache.modifyPlace place f) calls ready) owner birth :=
  t.put_same tasks known own grows (by simp) (fun _ => Cache.source_modifyPlace _ _ _ same) rfl .inl
    backed

/-- Publishing a program under a name that has still the place which it stands for. -/
theorem publish_stands {cache : Cache} {program : Program}
    (filled : ∃ source, (cache.place place).source = some source ∧
      StandsFor name source.nodes program) {other : String} {found : Program}
    (here : (cache.publish name place program).program? other = some found) :
    cache.program? other = some found ∨
      ∃ place source, cache.current.find? other = some place ∧
        (cache.place place).source = some source ∧ StandsFor other source.nodes found := by
  -- a program is only published where its place is the current one
  unfold Cache.publish at here
  split at here
  · rename_i current
    rw [Cache.program?, Table.find?_put] at here
    split at here
    · rename_i same
      obtain ⟨source, filled, stands⟩ := filled
      rw [same, ← Option.some.inj here]
      exact .inr ⟨place, source, current, filled, stands⟩
    · exact .inl here
  · exact .inl here

section Placed

variable (named : owner place = name) (bound : place < a.cache.places.size)
  (entered : Entered es id name (birth place))
include named bound entered

/-- A task is at a place once it has entered it, and waits there. -/
theorem Placed.of_queued : Placed es a owner birth id name (.queued place) where
  entered here := by
    obtain rfl := Option.some.inj here
    exact ⟨named, bound, entered⟩
  asking := by simp
  answered := by simp
  publishing := by simp

theorem Placed.of_asking {call : Nat} (late : birth place ≤ call)
    (called : a.calls[call]? = some name) :
    Placed es a owner birth id name (.asking place call) where
  entered here := by
    obtain rfl := Option.some.inj here
    exact ⟨named, bound, entered⟩
  asking asks := by
    obtain ⟨rfl, rfl⟩ := Stage.asking.inj asks
    exact ⟨late, called⟩
  answered := by simp
  publishing := by simp

theorem Placed.of_answered {text? : Option String}
    (brought : ∀ text, text? = some text → Brought es a.calls name (birth place) text) :
    Placed es a owner birth id name (.answered place text?) where
  entered here := by
    obtain rfl := Option.some.inj here
    exact ⟨named, bound, entered⟩
  asking := by simp
  answered answers := by
    obtain ⟨rfl, same⟩ := Stage.answered.inj answers
    exact brought _ same
  publishing := by simp

theorem Placed.of_publishing (filled : (a.cache.place place).source = some source) :
    Placed es a owner birth id name (.publishing place source.program) where
  entered here := by
    obtain rfl := Option.some.inj here
    exact ⟨named, bound, entered⟩
  asking := by simp
  answered := by simp
  publishing publishes := by
    obtain ⟨rfl, rfl⟩ := Stage.publishing.inj publishes
    exact ⟨source, filled, rfl⟩

end Placed

/-- A name gets a place, which is made now if there is none. -/
theorem Traced.opening (t : Traced es a owner birth) (o : a.Ordered)
    (calls : a.calls = (afterAll es).calls) (name : String) :
    ∃ owner birth, Traced es (a.opening name) owner birth := by
  cases found : a.cache.current.find? name with
  | some place =>
    have same : a.opening name = a := by simp [Activity.opening, Cache.placeOf, found]
    rw [same]
    exact ⟨owner, birth, t⟩
  | none =>
    have old : ∀ {place}, place < a.cache.places.size → place ≠ a.cache.places.size :=
      fun bound => Nat.ne_of_lt bound
    have filled_old : ∀ {place source}, (a.cache.place place).source = some source →
        place < a.cache.places.size := by
      intro place source filled
      by_contra bound
      simp [Cache.place, Array.getD, bound, Place.empty] at filled
    -- the new place gets values of its own, all others have the ones they had
    refine ⟨Function.update owner a.cache.places.size name,
      Function.update birth a.cache.places.size a.calls.length, ?_, ?_, ?_, ?_, ?_⟩
    · intro other place here
      simp only [Activity.opening, Cache.placeOf, found, Table.find?_put] at here
      split at here
      · rename_i same
        obtain rfl := Option.some.inj here
        simp only [Function.update_self]
        exact ⟨same.symm, calls ▸ since_calls es other⟩
      · simpa [old (o.named _ _ here)] using t.current here
    · intro id task known
      have k := t.tasks known
      unfold Backed at k ⊢
      split
      · exact {
          entered := fun {place} here => by
            obtain ⟨named, bound, entered⟩ := k.entered here
            refine ⟨by simpa [old bound] using named,
              Nat.lt_of_lt_of_le bound (a.cache.size_placeOf name), ?_⟩
            simpa [old bound] using entered
          asking := fun {place call} asks => by
            have bound := (k.entered (congrArg Stage.place? asks)).2.1
            simpa [old bound] using k.asking asks
          answered := fun {place text} answered => by
            have bound := (k.entered (congrArg Stage.place? answered)).2.1
            simpa [old bound] using k.answered answered
          publishing := fun {place program} publishes => by
            rw [place_opening]
            exact k.publishing publishes }
      · obtain ⟨named, source, filled, stands⟩ := k
        refine ⟨by simpa [old (filled_old filled)] using named, source, ?_, stands⟩
        rw [place_opening, filled]
      · trivial
    · intro place source filled
      rw [place_opening] at filled
      simpa [old (filled_old filled)] using t.sources filled
    · intro other program here
      rw [Cache.program?, published_opening] at here
      obtain ⟨place, source, current, filled, stands⟩ := t.published here
      refine ⟨place, source, ?_, ?_, stands⟩
      · simp only [Activity.opening, Cache.placeOf, found, Table.find?_put]
        rw [if_neg, current]
        rintro rfl
        rw [found] at current
        cases current
      · rw [place_opening, filled]
    · intro place bound
      by_cases last : place = a.cache.places.size
      · simp [last]
      · simp only [Activity.opening, Cache.placeOf, found, Array.size_push] at bound
        simpa [last] using t.early (by omega)

/-- A task comes to a place that was made for the name that it loads. -/
theorem Traced.comes (t : Traced es a owner birth) (o : a.Ordered)
    (same : a.calls = (afterAll es).calls ∧ a.tasks = (afterAll es).tasks)
    (comes : Comes a id name walk b place) :
    ∃ owner birth, Traced es b owner birth ∧ owner place = name ∧
      Entered es id name (birth place) := by
  -- the place may be new, and then it is younger than all calls; or the task has been there
  cases comes with
  | first loads =>
    obtain ⟨owner, birth, t⟩ := t.opening o same.1 name
    obtain ⟨named, since⟩ := t.current (a.cache.current_placeOf name)
    exact ⟨owner, birth, t, named, since.entered id⟩
  | again waits =>
    have here : Stage.place? (.queued place) = some place := rfl
    obtain ⟨named, -, entered⟩ := Placed.entered (t.tasks waits) here
    exact ⟨owner, birth, t, named, entered⟩

/-- **Every change leaves it traced where programs come from.** -/
theorem Traced.change (t : Traced es (afterAll es) owner birth) (c : Change (afterAll es) e b) :
    ∃ owner birth, Traced (es ++ [e]) b owner birth := by
  have o := ordered_afterAll es
  have kept : ∀ {place : Nat} {source : Source},
      ((afterAll es).cache.place place).source = some source →
        (b.cache.place place).source = some source := fun filled => o.source_kept c filled
  cases c with
  | nothing ready own =>
    exact ⟨owner, birth, t.later rfl (by rintro _ rfl; cases own) rfl rfl .inl⟩
  | started name ready =>
    refine ⟨owner, birth, t.later rfl (by simp) rfl rfl fun {id task} found => ?_⟩
    exact known_or_pushed found rfl
  | walked names ready =>
    refine ⟨owner, birth, t.later rfl (by simp) rfl rfl fun {id task} found => ?_⟩
    exact known_or_pushed found (Task.isFree_ofWalk _)
  | @joined id place name walk ready loads isPlace empty busy =>
    obtain ⟨owner, birth, t, named, entered⟩ := t.comes o ⟨rfl, rfl⟩ (.first loads)
    rw [isPlace] at named entered
    refine ⟨owner, birth, t.put_place rfl loads rfl List.prefix_rfl (fun _ => rfl) ?_⟩
    have bound : place < ((afterAll es).opening name).cache.places.size :=
      isPlace ▸ o.named.placeOf_lt name
    exact .of_queued named (by simpa using bound) (entered.concat (by simp))
  | @asked b id place name walk ready comes empty turn =>
    obtain ⟨-, bound, stage, loads, -⟩ := o.comes comes
    obtain ⟨owner, birth, t, named, entered⟩ := t.comes o ⟨rfl, rfl⟩ comes
    refine ⟨owner, birth,
      t.put_place comes.tasks loads rfl (List.prefix_append _ _) (fun _ => rfl) ?_⟩
    -- the call is made now, after all that were made when the place was
    exact .of_asking named (by simpa using bound) (entered.concat (by simp)) (t.early bound)
      (by simp)
  | @arrived b id place name walk source ready comes filled =>
    obtain ⟨-, -, stage, loads, -⟩ := o.comes comes
    obtain ⟨owner, birth, t, -⟩ := t.comes o ⟨rfl, rfl⟩ comes
    exact ⟨owner, birth, t.put_same comes.tasks loads rfl List.prefix_rfl rfl (fun _ => rfl) rfl
      .inl (backed_of_isFree (Task.isFree_afterLoad _ _ _))⟩
  | @failed id place name walk ready answered =>
    exact ⟨owner, birth, t.put_place rfl answered rfl List.prefix_rfl (fun _ => rfl)
      (backed_of_isFree (Task.isFree_afterLoad _ _ _))⟩
  | @filled id place name text walk ready answered =>
    have k : Placed es (afterAll es) owner birth id name (.answered place (some text)) :=
      t.tasks answered
    obtain ⟨named, bound, entered⟩ := k.entered rfl
    have brought := (k.answered rfl).mono List.prefix_rfl (.step id)
    have places := (afterAll es).cache.place_modifyPlace bound
      (.fill ((afterAll es).cache.sourceOf name text))
    refine ⟨owner, birth, t.put rfl answered rfl List.prefix_rfl (by simp [Cache.nextStamp]) kept
      rfl (fun {other source} filled => ?_) .inl ?_⟩
    · rw [Cache.place_nextStamp, places] at filled
      split at filled
      · -- only this place is filled now, with the text that was brought
        rename_i same
        obtain rfl := Option.some.inj filled
        rw [same, named]
        exact .inr ⟨⟨text, brought, rfl⟩, _, _, rfl⟩
      · exact .inl filled
    · refine .of_publishing named (by simpa [Cache.nextStamp] using bound)
        (entered.concat (by simp)) ?_
      rw [cache_put, Cache.place_nextStamp, places, if_pos rfl]
      rfl
  | @published id place name walk program ready publishes =>
    have k : Placed es (afterAll es) owner birth id name (.publishing place program) :=
      t.tasks publishes
    obtain ⟨source, filled, same⟩ := k.publishing rfl
    obtain ⟨named, -⟩ := k.entered rfl
    have stands := (t.sources filled).program
    rw [named, same] at stands
    exact ⟨owner, birth, t.put_same rfl publishes rfl List.prefix_rfl (Cache.size_publish _ _ _ _)
      (fun _ => by rw [Cache.place_publish]) (Cache.current_publish _ _ _ _)
      (publish_stands ⟨source, filled, stands⟩) (backed_of_isFree (Task.isFree_afterLoad _ _ _))⟩
  | @skipped id name names w ready relinks =>
    exact ⟨owner, birth, t.put_same rfl relinks rfl List.prefix_rfl rfl (fun _ => rfl) rfl .inl
      (backed_of_isFree (Task.isFree_relinking _ _))⟩
  | @resolved id place name names w source ready relinks current filled =>
    exact ⟨owner, birth, t.put_same rfl relinks rfl List.prefix_rfl rfl (fun _ => rfl) rfl .inl
      ⟨(t.current current).1, source, filled, _, _, rfl⟩⟩
  | @replaced id place name names w program ready republishes =>
    obtain ⟨-, filled⟩ := t.tasks republishes
    exact ⟨owner, birth, t.put_same rfl republishes rfl List.prefix_rfl (Cache.size_publish _ _ _ _)
      (fun _ => by rw [Cache.place_publish]) (Cache.current_publish _ _ _ _)
      (publish_stands filled) (backed_of_isFree (Task.isFree_relinking _ _))⟩
  | @answered id place call text name walk ready asks =>
    have k : Placed es (afterAll es) owner birth id name (.asking place call) := t.tasks asks
    obtain ⟨named, bound, entered⟩ := k.entered rfl
    obtain ⟨late, called⟩ := k.asking rfl
    refine ⟨owner, birth,
      t.put_same rfl asks rfl List.prefix_rfl rfl (fun _ => rfl) rfl .inl ?_⟩
    refine .of_answered named (by simpa using bound) (entered.concat (by simp)) ?_
    rintro brought rfl
    exact ⟨call, by simp, called, late⟩
  | @dropped id task ready known away =>
    exact ⟨owner, birth, t.put_same rfl known rfl List.prefix_rfl rfl (fun _ => rfl) rfl .inl
      trivial⟩
  | @passed id place task ready known isAt turn =>
    exact ⟨owner, birth, t.put_place rfl known rfl List.prefix_rfl (fun _ => rfl) trivial⟩
  | @left id place task ready known isAt turn =>
    exact ⟨owner, birth, t.put_place rfl known rfl List.prefix_rfl (fun _ => rfl) trivial⟩
  | forgotten name => exact ⟨owner, birth, t.forget rfl name⟩

/-- **After any events it can be traced where programs come from.** -/
theorem traced_afterAll (es : List Event) : ∃ owner birth, Traced es (afterAll es) owner birth := by
  induction es using List.reverseRecOn with
  | nil =>
    refine ⟨fun _ => "", fun _ => 0, ?_, ?_, ?_, ?_, ?_⟩
    all_goals simp [idle, Cache.empty, Cache.place, Place.empty, Cache.program?]
  | append_singleton es e ih =>
    obtain ⟨owner, birth, t⟩ := ih
    rw [afterAll_concat]
    exact t.change (change_after _ e)

end Activity

end MudEdit
