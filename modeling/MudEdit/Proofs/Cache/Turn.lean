import MudEdit.Proofs.Cache.Event

/-!
# Taking turns at a place

Of the tasks at an empty place, one has the turn and all others wait in line. Only the one
with the turn asks for the text. At a filled place nobody has the turn and nobody waits.

`Place.Ordered` says this of one place and the tasks that are there, and each operation on
a place keeps it. That a change keeps the order at all places then is a matter of who comes
to which place and who leaves it.
-/

namespace MudEdit

/-- The order at a place, where some tasks are, of which some ask for the text or have it. -/
structure Place.Ordered (p : Place) (isHere fetches : Nat → Prop) : Prop where
  turn_here : ∀ {id}, p.turn = some id → isHere id
  turn_of_fetches : ∀ {id}, fetches id → p.turn = some id
  waiting_here : ∀ {id}, id ∈ p.waiting → isHere id ∧ p.turn ≠ some id
  nodup : p.waiting.Nodup
  /-- Whoever is at an empty place has the turn or is in line. -/
  inLine : ∀ {id}, isHere id → p.source = none → p.turn = some id ∨ id ∈ p.waiting
  nobody_waits : p.turn = none → p.waiting = []
  turn_of_filled : p.source ≠ none → p.turn = none

namespace Place.Ordered

variable {p : Place} {isHere fetches : Nat → Prop} {id : Nat}

theorem congr {isHere' fetches' : Nat → Prop} (o : p.Ordered isHere fetches)
    (here : ∀ other, isHere' other ↔ isHere other)
    (asks : ∀ other, fetches' other ↔ fetches other) : p.Ordered isHere' fetches' := by
  have h : isHere' = isHere := funext fun other => propext (here other)
  have f : fetches' = fetches := funext fun other => propext (asks other)
  rw [h, f]
  exact o

/-- At an empty place where nobody has the turn, there is nobody. -/
theorem nobody_here (o : p.Ordered isHere fetches) (empty : p.source = none)
    (turn : p.turn = none) : ¬ isHere id := by
  intro here
  rcases o.inLine here empty with h | h
  · simp [turn] at h
  · simp [o.nobody_waits turn] at h

/-- Only one task at a time asks for the text or has it. -/
theorem fetches_unique {other : Nat} (o : p.Ordered isHere fetches) (first : fetches id)
    (second : fetches other) : id = other := by
  have := o.turn_of_fetches first
  rw [o.turn_of_fetches second] at this
  exact (Option.some.inj this).symm

/-- Whoever has the turn finds the place empty. -/
theorem empty_of_turn (o : p.Ordered isHere fetches) (turn : p.turn = some id) :
    p.source = none := by
  cases filled : p.source with
  | none => rfl
  | some source =>
    have := o.turn_of_filled (by simp [filled])
    simp [turn] at this

/-- A task that comes to a place where another one has the turn waits at the end of the line. -/
theorem join (o : p.Ordered isHere fetches) (out : ¬ isHere id) (busy : p.turn ≠ none) :
    (p.join id).Ordered (fun other => other = id ∨ isHere other) fetches where
  turn_here turn := .inr (o.turn_here turn)
  turn_of_fetches asks := o.turn_of_fetches asks
  waiting_here := by
    intro other waits
    simp only [Place.join, List.mem_append, List.mem_singleton] at waits
    rcases waits with waits | same
    · exact ⟨.inr (o.waiting_here waits).1, (o.waiting_here waits).2⟩
    · subst same
      exact ⟨.inl rfl, fun turn => out (o.turn_here turn)⟩
  nodup := by
    -- it was not here, so it is not yet in the line
    have fresh : id ∉ p.waiting := fun waits => out (o.waiting_here waits).1
    simpa [Place.join, List.nodup_append, o.nodup] using fun other waits => by
      rintro rfl
      exact fresh waits
  inLine := by
    intro other here empty
    rcases here with same | here
    · exact .inr (by simp [Place.join, same])
    · rcases o.inLine here empty with turn | waits
      · exact .inl turn
      · exact .inr (by simp [Place.join, waits])
  nobody_waits turn := absurd turn busy
  turn_of_filled filled := o.turn_of_filled filled

/-- A task takes the turn of an empty place if it is free or its own. -/
theorem take (o : p.Ordered isHere fetches) (empty : p.source = none)
    (turn : p.turn = none ∨ p.turn = some id) :
    (p.take id).Ordered (fun other => other = id ∨ isHere other)
      (fun other => other = id ∨ fetches other) where
  turn_here same := .inl (Option.some.inj same).symm
  turn_of_fetches := by
    rintro other (rfl | asks)
    · rfl
    -- whoever fetches has the turn, so it is the task itself
    · have asking := o.turn_of_fetches asks
      rcases turn with none | mine
      · simp [none] at asking
      · rw [← asking, mine]
        rfl
  waiting_here := by
    intro other waits
    refine ⟨.inr (o.waiting_here waits).1, fun same => ?_⟩
    obtain rfl := Option.some.inj same
    rcases turn with none | mine
    · rw [Place.take, o.nobody_waits none] at waits
      cases waits
    · exact (o.waiting_here waits).2 mine
  nodup := o.nodup
  inLine := by
    rintro other (rfl | here) _
    · exact .inl rfl
    · rcases turn with none | mine
      · exact absurd here (o.nobody_here empty none)
      · rcases o.inLine here empty with turn | waits
        · exact .inl (by rw [← turn, mine]; rfl)
        · exact .inr waits
  nobody_waits none := by simp [Place.take] at none
  turn_of_filled filled := absurd empty filled

/-- With the place filled nobody waits and nobody has the turn. -/
theorem fill (o : p.Ordered isHere fetches) (source : Source) (turn : p.turn = some id) :
    (p.fill source).Ordered (fun other => other ≠ id ∧ isHere other)
      (fun other => other ≠ id ∧ fetches other) where
  turn_here none := by simp [Place.fill] at none
  turn_of_fetches := by
    rintro other ⟨apart, asks⟩
    rw [o.turn_of_fetches asks] at turn
    exact absurd (Option.some.inj turn) apart
  waiting_here waits := by simp [Place.fill] at waits
  nodup := by simp [Place.fill]
  inLine _ empty := by simp [Place.fill] at empty
  nobody_waits _ := rfl
  turn_of_filled _ := rfl

/-- The turn goes to the first that waits. -/
theorem passOn (o : p.Ordered isHere fetches) (turn : p.turn = some id) :
    p.passOn.Ordered (fun other => other ≠ id ∧ isHere other)
      (fun other => other ≠ id ∧ fetches other) := by
  -- who has the turn does not wait, so those who wait are the others
  have apart : ∀ {other}, other ∈ p.waiting → other ≠ id ∧ isHere other := by
    intro other waits
    refine ⟨?_, (o.waiting_here waits).1⟩
    rintro rfl
    exact (o.waiting_here waits).2 turn
  constructor
  case turn_here =>
    intro other first
    exact apart (List.mem_of_mem_head? first)
  case turn_of_fetches =>
    rintro other ⟨apart, asks⟩
    rw [o.turn_of_fetches asks] at turn
    exact absurd (Option.some.inj turn) apart
  case waiting_here =>
    intro other waits
    refine ⟨apart (List.mem_of_mem_tail waits), fun first => ?_⟩
    -- nobody waits twice, so the first is not among those behind it
    have distinct := o.nodup
    simp only [Place.passOn] at waits first
    cases line : p.waiting with
    | nil => simp [line] at waits
    | cons next rest =>
      simp only [line, List.head?_cons, Option.some.injEq, List.tail_cons] at first waits distinct
      exact (List.nodup_cons.1 distinct).1 (first ▸ waits)
  case nodup => exact o.nodup.tail
  case inLine =>
    rintro other ⟨apart, here⟩ empty
    rcases o.inLine here empty with mine | waits
    · rw [turn] at mine
      exact absurd (Option.some.inj mine).symm apart
    · simp only [Place.passOn]
      cases line : p.waiting with
      | nil => simp [line] at waits
      | cons next rest =>
        rcases List.mem_cons.1 (line ▸ waits) with first | later
        · exact .inl (by simp [first])
        · exact .inr later
  case nobody_waits =>
    intro none
    simp only [Place.passOn, List.head?_eq_none_iff] at none ⊢
    simp [none]
  case turn_of_filled =>
    intro filled
    exact absurd (o.empty_of_turn turn) filled

/-- A task without the turn leaves the line. -/
theorem leave (o : p.Ordered isHere fetches) (turn : p.turn ≠ some id) :
    (p.leave id).Ordered (fun other => other ≠ id ∧ isHere other)
      (fun other => other ≠ id ∧ fetches other) where
  turn_here mine := ⟨fun same => turn (same ▸ mine), o.turn_here mine⟩
  turn_of_fetches asks := o.turn_of_fetches asks.2
  waiting_here := by
    intro other waits
    obtain ⟨apart, waits⟩ := (o.nodup.mem_erase_iff).1 waits
    exact ⟨⟨apart, (o.waiting_here waits).1⟩, (o.waiting_here waits).2⟩
  nodup := o.nodup.erase _
  inLine := by
    rintro other ⟨apart, here⟩ empty
    rcases o.inLine here empty with turn | waits
    · exact .inl turn
    · exact .inr ((o.nodup.mem_erase_iff).2 ⟨apart, waits⟩)
  nobody_waits none := by simp [Place.leave, o.nobody_waits none]
  turn_of_filled filled := o.turn_of_filled filled

/-- From a filled place a task can go without a word. -/
theorem go (o : p.Ordered isHere fetches) (id : Nat) (filled : p.source ≠ none) :
    p.Ordered (fun other => other ≠ id ∧ isHere other) fetches where
  turn_here mine := by simp [o.turn_of_filled filled] at mine
  turn_of_fetches := o.turn_of_fetches
  waiting_here waits := by simp [o.nobody_waits (o.turn_of_filled filled)] at waits
  nodup := o.nodup
  inLine _ empty := absurd empty filled
  nobody_waits := o.nobody_waits
  turn_of_filled := o.turn_of_filled

end Place.Ordered

/-! ## At all places -/

/-- Whether a task asks for a text or has the answer. -/
def Task.fetches : Task → Bool
  | .load _ (.asking _ _) _ | .load _ (.answered _ _) _ => true
  | _ => false

theorem Task.placeHeld?_of_isFree {task : Task} (free : task.isFree) :
    Activity.placeHeld? task = none := by
  unfold Task.isFree at free
  split at free
  all_goals first | rfl | cases free

namespace Activity

variable {a b : Activity} {e : Event} {id place : Nat} {name : String} {walk : Option Walk}

/-- A task is at a place: it waits there or has the turn. -/
def IsAt (a : Activity) (place id : Nat) : Prop :=
  ∃ task, a.tasks[id]? = some task ∧ placeHeld? task = some place

/-- A task at a place asks for the text or has the answer. -/
def Fetches (a : Activity) (place id : Nat) : Prop :=
  ∃ task, a.tasks[id]? = some task ∧ placeHeld? task = some place ∧ task.fetches

/-- All places are in order. Tasks are only at places that there are, as are names. -/
structure Ordered (a : Activity) : Prop where
  places : ∀ place, (a.cache.place place).Ordered (a.IsAt place) (a.Fetches place)
  known : ∀ {place id}, a.IsAt place id → place < a.cache.places.size
  named : a.cache.Named

variable {old new : Task} {cache : Cache} {calls : List String} {ready : List Nat}

/-- Who is at a place changes for the task that comes further. -/
theorem isAt_put (known : a.tasks[id]? = some old) (place other : Nat) :
    (a.put id new cache calls ready).IsAt place other ↔
      if other = id then placeHeld? new = some place else a.IsAt place other := by
  unfold IsAt
  simp only [tasks_put known]
  by_cases same : other = id <;> simp [same]

/-- So does who fetches for it. -/
theorem fetches_put (known : a.tasks[id]? = some old) (place other : Nat) :
    (a.put id new cache calls ready).Fetches place other ↔
      if other = id then placeHeld? new = some place ∧ new.fetches
      else a.Fetches place other := by
  unfold Fetches
  simp only [tasks_put known]
  by_cases same : other = id <;> simp [same]

theorem isAt_iff {task : Task} (known : a.tasks[id]? = some task) :
    a.IsAt place id ↔ placeHeld? task = some place := by
  simp [IsAt, known]

theorem fetches_iff {task : Task} (known : a.tasks[id]? = some task) :
    a.Fetches place id ↔ placeHeld? task = some place ∧ task.fetches := by
  simp [Fetches, known]

namespace Ordered

/--
A task comes further. If it is at a place before or after, this is the only one that
changes, and the order has to be shown there only.
-/
theorem put (o : a.Ordered) (known : a.tasks[id]? = some old) (named : cache.Named)
    (size : a.cache.places.size ≤ cache.places.size)
    (elsewhere : ∀ other, other ≠ place → cache.place other = a.cache.place other)
    (leaves : ∀ other, placeHeld? old = some other → other = place)
    (comes : ∀ other, placeHeld? new = some other → other = place ∧ place < cache.places.size)
    (order : (cache.place place).Ordered
      (fun other => if other = id then placeHeld? new = some place else a.IsAt place other)
      (fun other => if other = id then placeHeld? new = some place ∧ new.fetches
        else a.Fetches place other)) :
    (a.put id new cache calls ready).Ordered where
  places other := by
    by_cases same : other = place
    · rw [same]
      exact order.congr (isAt_put known place) (fetches_put known place)
    -- elsewhere the task is neither before nor after
    · have old_away : placeHeld? old ≠ some other := fun h => same (leaves other h)
      have new_away : placeHeld? new ≠ some other := fun h => same (comes other h).1
      have before := o.places other
      rw [← elsewhere other same] at before
      refine before.congr (fun task => ?_) (fun task => ?_)
      · rw [isAt_put known]
        split
        · rename_i h
          simp [h, isAt_iff known, old_away, new_away]
        · rfl
      · rw [fetches_put known]
        split
        · rename_i h
          simp [h, fetches_iff known, old_away, new_away]
        · rfl
  known := by
    intro other task here
    rw [isAt_put known] at here
    split at here
    · obtain ⟨rfl, bound⟩ := comes other here
      exact bound
    · exact Nat.lt_of_lt_of_le (o.known here) size
  named := named

/-- A task leaves the place where it is. -/
theorem put_out (o : a.Ordered) (known : a.tasks[id]? = some old) (named : cache.Named)
    (size : a.cache.places.size ≤ cache.places.size)
    (elsewhere : ∀ other, other ≠ place → cache.place other = a.cache.place other)
    (isAt : placeHeld? old = some place) (away : placeHeld? new = none)
    (order : (cache.place place).Ordered (fun other => other ≠ id ∧ a.IsAt place other)
      (fun other => other ≠ id ∧ a.Fetches place other)) :
    (a.put id new cache calls ready).Ordered := by
  refine o.put known named size elsewhere (fun other h => ?_) (by simp [away]) ?_
  · rw [isAt] at h
    exact (Option.some.inj h).symm
  · refine order.congr (fun other => ?_) (fun other => ?_)
    · by_cases same : other = id <;> simp [same, away]
    · by_cases same : other = id <;> simp [same, away]

/-- A task leaves its place, and does there what the order at a place allows. -/
theorem put_leaving {f : Place → Place} (o : a.Ordered) (known : a.tasks[id]? = some old)
    (isAt : placeHeld? old = some place) (away : placeHeld? new = none)
    (order : (f (a.cache.place place)).Ordered (fun other => other ≠ id ∧ a.IsAt place other)
      (fun other => other ≠ id ∧ a.Fetches place other)) :
    (a.put id new (a.cache.modifyPlace place f) calls ready).Ordered := by
  have bound := o.known ⟨old, known, isAt⟩
  have places := a.cache.place_modifyPlace bound f
  refine o.put_out known (o.named.modifyPlace place f) (by simp) (fun other apart => ?_)
    isAt away ?_
  · rw [places, if_neg apart]
  · rw [places, if_pos rfl]
    exact order

/-- A task comes to a place or stays there, and does there what the order at a place allows. -/
theorem put_coming {f : Place → Place} (o : a.Ordered) (known : a.tasks[id]? = some old)
    (before : ∀ other, placeHeld? old = some other → other = place)
    (isAt : placeHeld? new = some place) (bound : place < a.cache.places.size)
    (order : (f (a.cache.place place)).Ordered (fun other => other = id ∨ a.IsAt place other)
      (fun other => if other = id then (new.fetches : Prop) else a.Fetches place other)) :
    (a.put id new (a.cache.modifyPlace place f) calls ready).Ordered := by
  have places := a.cache.place_modifyPlace bound f
  refine o.put known (o.named.modifyPlace place f) (by simp)
    (fun other (apart : other ≠ place) => ?_) before (by simpa [isAt] using bound) ?_
  · rw [places, if_neg apart]
  · rw [places, if_pos rfl]
    refine order.congr (fun other => ?_) (fun other => ?_)
    · by_cases same : other = id <;> simp [same, isAt]
    · simp [isAt]

/-- A task comes further that is at no place. -/
theorem put_away (o : a.Ordered) (known : a.tasks[id]? = some old) (named : cache.Named)
    (size : a.cache.places.size ≤ cache.places.size)
    (same : ∀ other, cache.place other = a.cache.place other)
    (old_away : placeHeld? old = none) (new_away : placeHeld? new = none) :
    (a.put id new cache calls ready).Ordered := by
  refine o.put known named size (fun other (_ : other ≠ 0) => same other) (by simp [old_away])
    (by simp [new_away]) ?_
  rw [same]
  -- the task is at no place, so any place will do, and nothing changes there
  refine (o.places 0).congr (fun other => ?_) (fun other => ?_)
  · split
    · rename_i h
      simp [h, isAt_iff known, old_away, new_away]
    · rfl
  · split
    · rename_i h
      simp [h, fetches_iff known, old_away, new_away]
    · rfl

theorem opening (o : a.Ordered) (name : String) : (a.opening name).Ordered where
  places place := by
    have := o.places place
    rwa [← a.cache.place_placeOf name place] at this
  known here := Nat.lt_of_lt_of_le (o.known here) (a.cache.size_placeOf name)
  named := o.named.placeOf name

/-- A task that has just been started is at no place. -/
theorem spawn {task : Task} (o : a.Ordered) (ready : List Nat) (away : placeHeld? task = none) :
    { a with tasks := a.tasks.push task, ready }.Ordered := by
  have here : ∀ place other,
      { a with tasks := a.tasks.push task, ready }.IsAt place other ↔ a.IsAt place other := by
    intro place other
    simp only [IsAt, Array.getElem?_push]
    split
    · rename_i last
      simp [last, away]
    · rfl
  have asks : ∀ place other,
      { a with tasks := a.tasks.push task, ready }.Fetches place other ↔
        a.Fetches place other := by
    intro place other
    simp only [Fetches, Array.getElem?_push]
    split
    · rename_i last
      simp [last, away]
    · rfl
  exact ⟨fun place => (o.places place).congr (here place) (asks place),
    fun isAt => o.known ((here _ _).1 isAt), o.named⟩

/-- Whoever has an answer has the turn. -/
theorem turn_of_answered {text : Option String} (o : a.Ordered)
    (answered : a.tasks[id]? = some (.load name (.answered place text) walk)) :
    (a.cache.place place).turn = some id :=
  (o.places place).turn_of_fetches ⟨_, answered, rfl, rfl⟩

/-- A task comes to a place that there is, and all places stay in order. -/
theorem comes (o : a.Ordered) (comes : Comes a id name walk b place) :
    b.Ordered ∧ place < b.cache.places.size ∧
      ∃ stage, b.tasks[id]? = some (.load name stage walk) ∧
        (stage = .start ∨ stage = .queued place) := by
  cases comes with
  | first loads =>
    exact ⟨o.opening name, o.named.placeOf_lt name, .start, loads, .inl rfl⟩
  | again waits => exact ⟨o, o.known ⟨_, waits, rfl⟩, .queued place, waits, .inr rfl⟩

/-- **Every change keeps all places in order.** -/
theorem change (o : a.Ordered) (c : Change a e b) : b.Ordered := by
  cases c with
  | nothing ready own => exact ⟨o.places, o.known, o.named⟩
  | started name ready => exact o.spawn ready rfl
  | walked names ready =>
    exact o.spawn ready (Task.placeHeld?_of_isFree (Task.isFree_ofWalk _))
  | @joined id place name walk ready loads isPlace empty busy =>
    have out : ¬ a.IsAt place id := by simp [isAt_iff loads, placeHeld?]
    have order := (o.places place).join out busy
    rw [← a.cache.place_placeOf name place] at order
    refine (o.opening name).put_coming loads (by simp [placeHeld?]) rfl
      (isPlace ▸ o.named.placeOf_lt name) (order.congr (fun _ => .rfl) fun other => ?_)
    have fetches : (a.opening name).Fetches place other ↔ a.Fetches place other := .rfl
    by_cases same : other = id
    · simp [same, Task.fetches, fetches_iff loads, placeHeld?]
    · rw [if_neg same, fetches]
  | @asked b id place name walk ready comes empty turn =>
    obtain ⟨o, bound, stage, loads, before⟩ := o.comes comes
    refine o.put_coming loads ?_ rfl bound
      (((o.places place).take empty turn).congr (fun _ => .rfl) fun other => ?_)
    · rcases before with rfl | rfl <;> simp +contextual [placeHeld?]
    · by_cases same : other = id <;> simp [same, Task.fetches]
  | @arrived b id place name walk source ready comes filled =>
    obtain ⟨o, bound, stage, loads, before⟩ := o.comes comes
    have away := Task.placeHeld?_of_isFree
      (Task.isFree_afterLoad name (some (b.cache.programOr name source)) walk)
    -- it came just now, or it was in line when the place was filled
    rcases before with rfl | rfl
    · exact o.put_away loads o.named (Nat.le_refl _) (fun _ => rfl) rfl away
    · refine o.put_out loads o.named (Nat.le_refl _) (fun _ _ => rfl) rfl away ?_
      refine ((o.places place).go id (by simp [filled])).congr (fun _ => .rfl) fun other => ?_
      by_cases same : other = id <;> simp [same, fetches_iff loads, Task.fetches]
  | failed ready answered =>
    exact o.put_leaving answered rfl (Task.placeHeld?_of_isFree (Task.isFree_afterLoad _ _ _))
      ((o.places _).passOn (o.turn_of_answered answered))
  | @filled id place name text walk ready answered =>
    have filled : (a.put id
        (.load name (.publishing place (a.cache.sourceOf name text).program) walk)
        (a.cache.modifyPlace place (.fill (a.cache.sourceOf name text))) a.calls ready).Ordered :=
      o.put_leaving answered rfl rfl
        ((o.places _).fill (a.cache.sourceOf name text) (o.turn_of_answered answered))
    exact ⟨filled.places, filled.known, filled.named⟩
  | published ready publishes =>
    exact o.put_away publishes (o.named.publish _ _ _)
      (Nat.le_of_eq (Cache.size_publish _ _ _ _).symm)
      (fun _ => Cache.place_publish _ _ _ _ _) rfl
      (Task.placeHeld?_of_isFree (Task.isFree_afterLoad _ _ _))
  | skipped ready relinks =>
    exact o.put_away relinks o.named (Nat.le_refl _) (fun _ => rfl) rfl
      (Task.placeHeld?_of_isFree (Task.isFree_relinking _ _))
  | resolved ready relinks current filled =>
    exact o.put_away relinks o.named (Nat.le_refl _) (fun _ => rfl) rfl rfl
  | replaced ready republishes =>
    exact o.put_away republishes (o.named.publish _ _ _)
      (Nat.le_of_eq (Cache.size_publish _ _ _ _).symm)
      (fun _ => Cache.place_publish _ _ _ _ _) rfl
      (Task.placeHeld?_of_isFree (Task.isFree_relinking _ _))
  | @answered id place call text name walk ready asks =>
    refine o.put asks o.named (Nat.le_refl _) (fun other (_ : other ≠ place) => rfl)
      (by simp +contextual [placeHeld?])
      (by simpa [placeHeld?] using o.known ⟨_, asks, rfl⟩) ?_
    refine (o.places place).congr (fun other => ?_) (fun other => ?_)
    · by_cases same : other = id <;> simp [same, placeHeld?, isAt_iff asks]
    · by_cases same : other = id <;> simp [same, placeHeld?, Task.fetches, fetches_iff asks]
  | dropped ready known away =>
    exact o.put_away known o.named (Nat.le_refl _) (fun _ => rfl) away rfl
  | passed ready known isAt turn =>
    exact o.put_leaving known isAt rfl ((o.places _).passOn turn)
  | left ready known isAt turn =>
    exact o.put_leaving known isAt rfl ((o.places _).leave turn)
  | forgotten name => exact ⟨o.places, o.known, o.named.forget name⟩

end Ordered

theorem ordered_idle : (idle .empty).Ordered where
  places place := by
    have empty : (idle .empty).cache.place place = .empty := by
      simp [idle, Cache.empty, Cache.place]
    rw [empty]
    constructor <;> simp [Place.empty, IsAt, Fetches, idle]
  known here := by simp [IsAt, idle] at here
  named _ _ found := by simp [idle, Cache.empty] at found

/-- **After any events all places are in order.** -/
theorem ordered_afterAll (es : List Event) : (afterAll es).Ordered := by
  induction es using List.reverseRecOn with
  | nil => exact ordered_idle
  | append_singleton es e ih =>
    rw [afterAll_concat]
    exact ih.change (change_after _ e)

end Activity

end MudEdit
