import MudEdit.Cache.Basic

/-!
# Tasks on a cache

Tasks load names, one at a time or as they walk from file to file. A walk visits files and
what they link to, breadth first and each name once, and notes which of them could be
loaded. A step takes a task from one point at which others may go on to the next such point.
Which ready task takes the next step is free; `Activity.settle` lets each go as far as it can,
first come first served.

Of the tasks that want a name which is not there, one has the turn and asks for the
text. If it gets none, or is abandoned, the turn passes to the next in line, which asks
again. If it gets the text, nobody waits any longer.
-/

namespace MudEdit

/-! ## Walks -/

/-- A walk on its way. What was loaded or missing is in the order of the visits. -/
structure Walk where
  queue : List String
  visited : List String
  loaded : List String
  missing : List String
  deriving DecidableEq, Repr

namespace Walk

/-- A walk that starts with the given names. -/
def start (names : List String) : Walk := ⟨names, [], [], []⟩

/-- The next name to visit, and the walk when it is there. Names visited before are skipped. -/
def next? (w : Walk) : Option (String × Walk) :=
  match w.queue.dropWhile w.visited.contains with
  | [] => none
  | name :: rest => some (name, { w with queue := rest, visited := name :: w.visited })

/-- The walk after a visit, with the program found there. -/
def arrive (w : Walk) (name : String) : Option Program → Walk
  | none => { w with missing := w.missing ++ [name] }
  | some program =>
    { w with
      queue := w.queue ++ program.dependencies.filter (!w.visited.contains ·)
      loaded := w.loaded ++ [name] }

end Walk

/-! ## Tasks -/

/-- How far the loading of a name has come. -/
inductive Stage where
  | start
  /-- Waits for its turn at the place. -/
  | queued (place : Nat)
  /-- Has asked for the text, and waits for the answer to that call. -/
  | asking (place : Nat) (call : Nat)
  /-- Has the answer. -/
  | answered (place : Nat) (text : Option String)
  /-- Has filled the place, and is about to publish. -/
  | publishing (place : Nat) (program : Program)

inductive Task where
  /-- Loads a name, as a step of a walk if there is one. -/
  | load (name : String) (stage : Stage) (walk : Option Walk)
  /-- After a walk, resolves the names again that were loaded. -/
  | relink (names : List String) (walk : Walk)
  /-- Publishes a program that was resolved again, before the names that remain. -/
  | republish (name : String) (place : Nat) (program : Program) (names : List String) (walk : Walk)
  | loaded (program : Option Program)
  | walked (walk : Walk)
  | abandoned

namespace Task

/-- A task that loads one name. -/
def ofName (name : String) : Task := .load name .start none

/-- What remains to do of the names to resolve again. -/
def relinking : List String → Walk → Task
  | [], w => .walked w
  | names, w => .relink names w

/-- What a walk does next. When all is visited, it resolves what it loaded, last first. -/
def ofWalk (w : Walk) : Task :=
  match w.next? with
  | some (name, w) => .load name .start (some w)
  | none => relinking w.loaded.reverse w

/-- A task that loads names and all that they link to. -/
def closure (names : List String) : Task := .ofWalk (.start names)

/-- What follows when the loading of a name ends. -/
def afterLoad (name : String) (found : Option Program) : Option Walk → Task
  | none => .loaded found
  | some w => .ofWalk (w.arrive name found)

def isFinished : Task → Bool
  | loaded _ | walked _ | abandoned => true
  | _ => false

/-- Whether the task can go on without anybody else. -/
def isRunnable : Task → Bool
  | load _ (.queued _) _ | load _ (.asking _ _) _ => false
  | load _ _ _ | relink _ _ | republish _ _ _ _ _ => true
  | loaded _ | walked _ | abandoned => false

/-- The walk that the task is on. -/
def walk? : Task → Option Walk
  | load _ _ w => w
  | relink _ w | republish _ _ _ _ w | walked w => some w
  | _ => none

end Task

/-- A cache, and the tasks that work on it. -/
structure Activity where
  cache : Cache
  tasks : Array Task
  /-- The tasks that can take a step, in the order in which they became able to. -/
  ready : List Nat
  /-- The names whose text was asked for. -/
  calls : List String

namespace Activity

/-- A cache on which no task works. -/
def idle (cache : Cache) : Activity := ⟨cache, #[], [], []⟩

/-- With one more task. -/
def spawn (task : Task) (a : Activity) : Activity :=
  { a with
    tasks := a.tasks.push task
    ready := if task.isRunnable then a.ready ++ [a.tasks.size] else a.ready }

/--
With a task that has come further. It keeps its place among the ready ones as long as it
can go on, and those that it woke come last.
-/
def continue_ (a : Activity) (id : Nat) (task : Task) (woken : List Nat) : Activity :=
  let others := a.ready.erase id
  { a with
    tasks := a.tasks.setIfInBounds id task
    ready := (if task.isRunnable then id :: others else others) ++ woken }

/-- Passes the turn at a place on, which wakes the first in line. -/
def passTurn (a : Activity) (place : Nat) : Activity :=
  { a with
    cache := a.cache.modifyPlace place .passOn
    ready := a.ready ++ (a.cache.place place).waiting.head?.toList }

/-- A task takes its turn at a place and asks for the text. -/
def ask (a : Activity) (id : Nat) (name : String) (place : Nat) (walk : Option Walk) : Activity :=
  let asked := { a with
    cache := a.cache.modifyPlace place (.take id)
    calls := a.calls ++ [name] }
  asked.continue_ id (.load name (.asking place a.calls.length) walk) []

/-- A task ends the loading of a name with the program of a source. -/
def arrive (a : Activity) (id : Nat) (name : String) (source : Source) (walk : Option Walk) :
    Activity :=
  a.continue_ id (.afterLoad name (some (a.cache.programOr name source)) walk) []

/-- A task comes to the place of a name. -/
def enter (a : Activity) (id : Nat) (name : String) (walk : Option Walk) : Activity :=
  let (place, cache) := a.cache.placeOf name
  let entered := { a with cache }
  match (cache.place place).source with
  | some source => entered.arrive id name source walk
  | none =>
    if (cache.place place).turn.isNone then entered.ask id name place walk
    else
      { entered with cache := cache.modifyPlace place (.join id) }.continue_ id
        (.load name (.queued place) walk) []

/-- A task that waited at a place looks again. -/
def wake (a : Activity) (id : Nat) (name : String) (place : Nat) (walk : Option Walk) : Activity :=
  match (a.cache.place place).source with
  | some source => a.arrive id name source walk
  | none =>
    if (a.cache.place place).turn = some id then a.ask id name place walk
    else a.continue_ id (.load name (.queued place) walk) []

/-- A task has the answer to its call. -/
def receive (a : Activity) (id : Nat) (name : String) (place : Nat) (walk : Option Walk) :
    Option String → Activity
  | none => (a.continue_ id (.afterLoad name none walk) []).passTurn place
  | some text =>
    let source := a.cache.sourceOf name text
    { a with cache := (a.cache.modifyPlace place (.fill source)).nextStamp }.continue_ id
      (.load name (.publishing place source.program) walk) (a.cache.place place).waiting

/-- A task resolves the first of the names again, if it is still there. -/
def relink (a : Activity) (id : Nat) (name : String) (names : List String) (w : Walk) : Activity :=
  let found := do
    let place ← a.cache.current.find? name
    let source ← (a.cache.place place).source
    return (place, source)
  match found with
  | none => a.continue_ id (.relinking names w) []
  | some (place, source) =>
    { a with cache := a.cache.nextStamp }.continue_ id
      (.republish name place (a.cache.resolve name source.nodes).program names w) []

/-- A task takes a step. -/
def step (a : Activity) (id : Nat) : Activity :=
  match a.tasks[id]? with
  | some (.load name .start walk) => a.enter id name walk
  | some (.load name (.queued place) walk) => a.wake id name place walk
  | some (.load name (.answered place text) walk) => a.receive id name place walk text
  | some (.load name (.publishing place program) walk) =>
    { a with cache := a.cache.publish name place program }.continue_ id
      (.afterLoad name (some program) walk) []
  | some (.relink (name :: names) w) => a.relink id name names w
  | some (.republish name place program names w) =>
    { a with cache := a.cache.publish name place program }.continue_ id (.relinking names w) []
  | _ => { a with ready := a.ready.erase id }

/-! ## What happens from outside -/

/-- Whether a task waits for the answer to a call. -/
def asks (call : Nat) : Task → Bool
  | .load _ (.asking _ c) _ => c == call
  | _ => false

/-- Answers a call, if a task waits for it. That task goes on first. -/
def answer? (a : Activity) (call : Nat) (text : Option String) : Option Activity := do
  let id ← a.tasks.findIdx? (asks call)
  match a.tasks[id]? with
  | some (.load name (.asking place _) walk) =>
    return { a with
      tasks := a.tasks.setIfInBounds id (.load name (.answered place text) walk)
      ready := id :: a.ready }
  | _ => none

/-- The place at which a task has the turn or waits for it. -/
def placeHeld? : Task → Option Nat
  | .load _ (.queued place) _ | .load _ (.asking place _) _ | .load _ (.answered place _) _ =>
    some place
  | _ => none

/-- Takes a task away from the place where it waits or has the turn. -/
def release (a : Activity) (id place : Nat) : Activity :=
  if (a.cache.place place).turn = some id then a.passTurn place
  else { a with cache := a.cache.modifyPlace place (.leave id) }

/-- Abandons a task, unless it is finished. -/
def abandon (a : Activity) (id : Nat) : Activity :=
  match a.tasks[id]? with
  | none => a
  | some task =>
    if task.isFinished then a
    else
      let dropped := a.continue_ id .abandoned []
      match placeHeld? task with
      | some place => dropped.release id place
      | none => dropped

/-- Forgets a name. -/
def forget (a : Activity) (name : String) : Activity := { a with cache := a.cache.forget name }

/-! ## Until no task can go on -/

/-- Where the texts come from: someone who answers later, or a store that answers at once. -/
inductive Supply where
  | later
  | store (read : String → Option String)

/-- The answer of a store to the call that a task has just made. -/
def serve (supply : Supply) (a : Activity) (id : Nat) : Activity :=
  match supply, a.tasks[id]? with
  | .store read, some (.load name (.asking _ call) _) => (a.answer? call (read name)).getD a
  | _, _ => a

/-- Lets the ready tasks take steps, at most as many as the fuel. -/
def run (supply : Supply) : (fuel : Nat) → Activity → Activity
  | 0, a => a
  | fuel + 1, a =>
    match a.ready with
    | [] => a
    | id :: _ => run supply fuel ((a.step id).serve supply id)

/-- How many names can come up, where the texts to be had are so many bytes in all. -/
def names (a : Activity) (bytes : Nat) : Nat :=
  a.tasks.size + a.tasks.toList.foldr (fun t n => (t.walk?.map fun w =>
    w.queue.length + w.loaded.length).getD 0 + n) 0 + a.cache.links + bytes

/--
Lets the ready tasks go on until none can. A task visits each name that comes up at most
once, with a few steps for each.
-/
def settle (supply : Supply) (bytes : Nat) (a : Activity) : Activity :=
  let n := a.names bytes + 1
  a.run supply (8 * n * n)

end Activity

/-- Loads names and all that they link to, with no other task at work. -/
def Cache.loadClosure (c : Cache) (read : String → Option String) (bytes : Nat)
    (names : List String) : Activity :=
  ((Activity.idle c).spawn (.closure names)).settle (.store read) bytes

end MudEdit
