import MudEdit.Proofs.Cache.Origin

/-!
# When a name has a program

Whoever fills a place publishes what is in it with a step of its own, and nobody does so in its
stead: a task that finds the place filled only reads it. So if the one that filled the place is
abandoned before that step, the name stays without a program although its place is filled. Only
a walk that resolves the name again publishes for the place after that.

`Served` says this for all places at any moment. The name of a filled place has a program, unless
the one that filled it has yet to publish, or never will, and no walk has published in between.
-/

namespace MudEdit

/-- The place that a task has filled, if it is about to publish what is in it. -/
def Task.publishes? : Task → Option Nat
  | .load _ (.publishing place _) _ => some place
  | _ => none

/-- The place that a task is about to publish for what it has resolved again. -/
def Task.renews? : Task → Option Nat
  | .republish _ place _ _ _ => some place
  | _ => none

namespace Task

variable {task : Task}

theorem of_not_isPublishing (h : task.isPublishing = false) :
    task.publishes? = none ∧ task.renews? = none := by
  unfold isPublishing at h
  split at h
  · cases h
  · cases h
  · rename_i publishes renews
    constructor
    · unfold publishes?
      split
      · exact absurd rfl (publishes _ _ _ _)
      · rfl
    · unfold renews?
      split
      · exact absurd rfl (renews _ _ _ _ _)
      · rfl

theorem publishes?_of_isFree (free : task.isFree) : task.publishes? = none := by
  unfold isFree at free
  split at free <;> first | rfl | cases free

end Task

namespace Activity

variable {a b : Activity} {e : Event} {es : List Event} {id other place elsewhere : Nat}
  {name : String} {walk : Option Walk} {task old new : Task} {program : Program} {source : Source}

/-! ## Who is about to publish -/

/-- The task has filled the place and is about to publish what is in it. -/
def PublishesAt (a : Activity) (id place : Nat) : Prop :=
  a.tasks[id]?.bind Task.publishes? = some place

/-- The task is about to publish for the place what it has resolved again. -/
def RenewsAt (a : Activity) (id place : Nat) : Prop :=
  a.tasks[id]?.bind Task.renews? = some place

/-- The task that filled the place was abandoned before it published. -/
def Stranded (es : List Event) (place : Nat) : Prop :=
  ∃ past id, Happened es past (.abandon id) ∧ (afterAll past).PublishesAt id place

/-- A walk came to publish for the place what it had resolved again. -/
def Renewed (es : List Event) (place : Nat) : Prop :=
  ∃ past id, Happened es past (.step id) ∧ (afterAll past).RenewsAt id place

theorem publishesAt_iff (known : a.tasks[id]? = some task) :
    a.PublishesAt id place ↔ task.publishes? = some place := by
  rw [PublishesAt, known, Option.bind_some]

theorem renewsAt_iff (known : a.tasks[id]? = some task) :
    a.RenewsAt id place ↔ task.renews? = some place := by
  rw [RenewsAt, known, Option.bind_some]

/-- A place is stranded by the event at which its task is abandoned. -/
theorem stranded_concat : Stranded (es ++ [e]) place ↔
    Stranded es place ∨ ∃ id, e = .abandon id ∧ (afterAll es).PublishesAt id place := by
  constructor
  · rintro ⟨past, id, happened, publishes⟩
    rcases happened_concat.1 happened with happened | ⟨rfl, rfl⟩
    · exact .inl ⟨past, id, happened, publishes⟩
    · exact .inr ⟨id, rfl, publishes⟩
  · rintro (⟨past, id, happened, publishes⟩ | ⟨id, rfl, publishes⟩)
    · exact ⟨past, id, happened_concat.2 (.inl happened), publishes⟩
    · exact ⟨es, id, happened_concat.2 (.inr ⟨rfl, rfl⟩), publishes⟩

/-- A place is renewed by the step of a task that republishes. -/
theorem renewed_concat : Renewed (es ++ [e]) place ↔
    Renewed es place ∨ ∃ id, e = .step id ∧ (afterAll es).RenewsAt id place := by
  constructor
  · rintro ⟨past, id, happened, renews⟩
    rcases happened_concat.1 happened with happened | ⟨rfl, rfl⟩
    · exact .inl ⟨past, id, happened, renews⟩
    · exact .inr ⟨id, rfl, renews⟩
  · rintro (⟨past, id, happened, renews⟩ | ⟨id, rfl, renews⟩)
    · exact ⟨past, id, happened_concat.2 (.inl happened), renews⟩
    · exact ⟨es, id, happened_concat.2 (.inr ⟨rfl, rfl⟩), renews⟩

/-- No step strands a place, nor does an answer. -/
theorem stranded_iff (h : ∀ id, e = .abandon id → ¬(afterAll es).PublishesAt id place) :
    Stranded (es ++ [e]) place ↔ Stranded es place := by
  rw [stranded_concat, or_iff_left]
  rintro ⟨id, same, publishes⟩
  exact h id same publishes

theorem renewed_iff (h : ∀ id, e = .step id → ¬(afterAll es).RenewsAt id place) :
    Renewed (es ++ [e]) place ↔ Renewed es place := by
  rw [renewed_concat, or_iff_left]
  rintro ⟨id, same, renews⟩
  exact h id same renews

/-- A quiet event strands no place. -/
theorem Quiet.stranded_iff (quiet : (afterAll es).Quiet e) :
    Stranded (es ++ [e]) place ↔ Stranded es place := by
  refine Activity.stranded_iff fun id same publishes => ?_
  obtain ⟨task, known, here⟩ := Option.bind_eq_some_iff.1 publishes
  have still := quiet id task (by rw [same]; rfl) known
  rw [(Task.of_not_isPublishing still).1] at here
  cases here

/-- A quiet event renews no place. -/
theorem Quiet.renewed_iff (quiet : (afterAll es).Quiet e) :
    Renewed (es ++ [e]) place ↔ Renewed es place := by
  refine Activity.renewed_iff fun id same renews => ?_
  obtain ⟨task, known, here⟩ := Option.bind_eq_some_iff.1 renews
  have still := quiet id task (by rw [same]; rfl) known
  rw [(Task.of_not_isPublishing still).2] at here
  cases here

/-! ### Where something was filled -/

/-- A program is at hand only for a place that is filled. -/
theorem PublishesAt.filled (publishes : (afterAll es).PublishesAt id place) :
    ∃ source, ((afterAll es).cache.place place).source = some source := by
  obtain ⟨owner, birth, t⟩ := traced_afterAll es
  obtain ⟨task, known, here⟩ := Option.bind_eq_some_iff.1 publishes
  unfold Task.publishes? at here
  split at here
  · obtain rfl := Option.some.inj here
    obtain ⟨source, filled, -⟩ := Placed.publishing (t.tasks known) rfl
    exact ⟨source, filled⟩
  · cases here

/-- A program is renewed only for a place that is filled. -/
theorem RenewsAt.filled (renews : (afterAll es).RenewsAt id place) :
    ∃ source, ((afterAll es).cache.place place).source = some source := by
  obtain ⟨owner, birth, t⟩ := traced_afterAll es
  obtain ⟨task, known, here⟩ := Option.bind_eq_some_iff.1 renews
  unfold Task.renews? at here
  split at here
  · obtain rfl := Option.some.inj here
    obtain ⟨-, source, filled, -⟩ := t.tasks known
    exact ⟨source, filled⟩
  · cases here

/-- So is a place at which a task was given up. -/
theorem Stranded.filled (stranded : Stranded es place) :
    ∃ source, ((afterAll es).cache.place place).source = some source := by
  obtain ⟨past, id, ⟨later, rfl⟩, publishes⟩ := stranded
  obtain ⟨source, filled⟩ := publishes.filled
  exact ⟨source, source_kept _ filled⟩

/-- And one whose program was renewed. -/
theorem Renewed.filled (renewed : Renewed es place) :
    ∃ source, ((afterAll es).cache.place place).source = some source := by
  obtain ⟨past, id, ⟨later, rfl⟩, renews⟩ := renewed
  obtain ⟨source, filled⟩ := renews.filled
  exact ⟨source, source_kept _ filled⟩

/-! ### After a task came further -/

/-- A new task is not about to publish. -/
theorem publishesAt_push {ready : List Nat} (free : task.isFree) :
    ({ a with tasks := a.tasks.push task, ready } : Activity).PublishesAt id place ↔
      a.PublishesAt id place := by
  rw [PublishesAt, PublishesAt, Array.getElem?_push]
  split
  · rename_i last
    simp [last, Task.publishes?_of_isFree free]
  · rfl

/-- Who is about to publish changes for the task that comes further. -/
theorem publishesAt_put {cache : Cache} {calls : List String} {ready : List Nat}
    (known : b.tasks[id]? = some old) : (b.put id new cache calls ready).PublishesAt other place ↔
      if other = id then new.publishes? = some place else b.PublishesAt other place := by
  rw [PublishesAt, tasks_put known]
  split
  · rw [Option.bind_some]
  · rfl

/-- A task comes further that is about to publish neither before nor after. -/
theorem publishesAt_put_still {cache : Cache} {calls : List String} {ready : List Nat}
    (known : b.tasks[id]? = some old) (before : old.publishes? = none)
    (after : new.publishes? = none) :
    (b.put id new cache calls ready).PublishesAt other place ↔ b.PublishesAt other place := by
  rw [publishesAt_put known]
  split
  · rename_i same
    rw [same, publishesAt_iff known, before, after]
  · rfl

/-- A task comes further that has nothing to publish then. -/
theorem publishesAt_put_none {cache : Cache} {calls : List String} {ready : List Nat}
    (known : b.tasks[id]? = some old) (after : new.publishes? = none) :
    (b.put id new cache calls ready).PublishesAt other place ↔
      b.PublishesAt other place ∧ other ≠ id := by
  rw [publishesAt_put known]
  split <;> simp_all

/-! ## Caches with the same filled places -/

/-- What is filled in the one cache was filled in the other, and has the same program there. -/
def SameFilled (c d : Cache) : Prop :=
  ∀ name place source, d.current.find? name = some place → (d.place place).source = some source →
    (c.current.find? name = some place ∧ (c.place place).source = some source) ∧
      d.program? name = c.program? name

theorem SameFilled.refl (c : Cache) : SameFilled c c := fun _ _ _ current filled =>
  ⟨⟨current, filled⟩, rfl⟩

theorem SameFilled.modifyPlace {c d : Cache} (same : SameFilled c d) {f : Place → Place}
    (keeps : ∀ p, (f p).source = p.source) (id : Nat) : SameFilled c (d.modifyPlace id f) := by
  intro name place source current filled
  rw [Cache.source_modifyPlace _ _ _ keeps] at filled
  exact same name place source current filled

/-- A place that is made for a name is empty. -/
theorem sameFilled_opening (a : Activity) (name : String) :
    SameFilled a.cache (a.opening name).cache := by
  intro other place source current filled
  rw [place_opening] at filled
  refine ⟨⟨?_, filled⟩, by rw [Cache.program?, published_opening, Cache.program?]⟩
  -- a place that has just been made is empty, so it is none of the filled ones
  unfold Activity.opening Cache.placeOf at current
  split at current
  · exact current
  · rw [Table.find?_put] at current
    split at current
    · rw [← Option.some.inj current] at filled
      simp [Cache.place, Array.getD, Place.empty] at filled
    · exact current

/-- To come to a place leaves all filled ones as they are. -/
theorem Comes.sameFilled (comes : Comes a id name walk b place) : SameFilled a.cache b.cache := by
  cases comes with
  | first => exact sameFilled_opening a name
  | again => exact .refl _

/-- To forget a name takes places away, and fills none. -/
theorem sameFilled_forget (a : Activity) (name : String) :
    SameFilled a.cache (a.forget name).cache := by
  intro other place source current filled
  simp only [Activity.forget, Cache.forget, Cache.program?, Table.find?_remove] at current ⊢
  split at current
  · cases current
  · rename_i apart
    rw [if_neg apart]
    exact ⟨⟨current, filled⟩, rfl⟩

/-- What is published for a place is the program of the name that the place was made for. -/
theorem Traced.program?_publish {owner : Nat → String} {birth : Nat → Nat} {other : String}
    (t : Traced es a owner birth) (named : owner place = name)
    (current : a.cache.current.find? other = some elsewhere) :
    (a.cache.publish name place program).program? other =
      if elsewhere = place then some program else a.cache.program? other := by
  -- published is where the name leads, and names of places differ
  unfold Cache.publish
  split
  · rename_i here
    rw [Cache.program?, Table.find?_put]
    refine if_ctx_congr ⟨?_, ?_⟩ (fun _ => rfl) fun _ => rfl
    · rintro rfl
      exact Option.some.inj (current.symm.trans here)
    · rintro rfl
      rw [← named, (t.current current).1]
  · rename_i gone
    rw [if_neg]
    rintro rfl
    exact gone (named ▸ (t.current current).1 ▸ current)

/-! ## What is filled and what is published -/

/-- Who filled the place has yet to publish, or was abandoned before. -/
def Awaits (es : List Event) (a : Activity) (place : Nat) : Prop :=
  Stranded es place ∨ ∃ id, a.PublishesAt id place

theorem awaits_congr {es' : List Event} (stranded : Stranded es' place ↔ Stranded es place)
    (publishes : ∀ id, b.PublishesAt id place ↔ a.PublishesAt id place) :
    Awaits es' b place ↔ Awaits es a place := or_congr stranded (exists_congr publishes)

/-- A place is filled by one task, and its name has a program when that one has published. -/
structure Served (es : List Event) (a : Activity) : Prop where
  alone : ∀ {id other place}, a.PublishesAt id place → a.PublishesAt other place → id = other
  nobody : ∀ {id place}, Stranded es place → ¬ a.PublishesAt id place
  present : ∀ {name place source}, a.cache.current.find? name = some place →
    (a.cache.place place).source = some source →
    ((a.cache.program? name).isSome ↔ (Awaits es a place → Renewed es place))

namespace Served

variable (s : Served es (afterAll es))
include s

/-- Nobody comes to publish, and nobody who was about to does so or is abandoned. -/
theorem frame (stranded : ∀ {place}, Stranded (es ++ [e]) place ↔ Stranded es place)
    (renewed : ∀ {place}, Renewed (es ++ [e]) place ↔ Renewed es place)
    (publishes : ∀ {id place}, b.PublishesAt id place ↔ (afterAll es).PublishesAt id place)
    (same : SameFilled (afterAll es).cache b.cache) : Served (es ++ [e]) b where
  alone first second := s.alone (publishes.1 first) (publishes.1 second)
  nobody gone here := s.nobody (stranded.1 gone) (publishes.1 here)
  present {name place source} current filled := by
    obtain ⟨⟨current, filled⟩, program⟩ := same name place source current filled
    rw [program, s.present current filled, awaits_congr stranded fun _ => publishes, renewed]

/-- A task comes further that has nothing to publish. -/
theorem put {cache : Cache} {calls : List String} {ready : List Nat}
    (concerns : e.task? = none ∨ e.task? = some id) (tasks : b.tasks = (afterAll es).tasks)
    (known : (afterAll es).tasks[id]? = some old) (still : old.isPublishing = false)
    (after : new.publishes? = none) (same : SameFilled (afterAll es).cache cache) :
    Served (es ++ [e]) (b.put id new cache calls ready) := by
  -- the event concerns no task or this one, which has nothing to publish
  have quiet : (afterAll es).Quiet e := by
    rcases concerns with none | some
    · intro _ _ concerns
      rw [none] at concerns
      cases concerns
    · refine .of_task some fun task found => ?_
      rw [known] at found
      exact Option.some.inj found ▸ still
  refine s.frame quiet.stranded_iff quiet.renewed_iff (fun {other place} => ?_) same
  rw [publishesAt_put_still (tasks ▸ known) (Task.of_not_isPublishing still).1 after,
    PublishesAt, PublishesAt, tasks]

/-- A task fills a place. It was empty, so that nobody had published for it. -/
theorem fill {text : String} {ready : List Nat}
    (answered : (afterAll es).tasks[id]? = some (.load name (.answered place (some text)) walk)) :
    Served (es ++ [.step id]) ((afterAll es).put id
      (.load name (.publishing place ((afterAll es).cache.sourceOf name text).program) walk)
      ((afterAll es).cache.modifyPlace place
        (.fill ((afterAll es).cache.sourceOf name text))).nextStamp (afterAll es).calls ready) := by
  have o := ordered_afterAll es
  obtain ⟨owner, birth, t⟩ := traced_afterAll es
  have quiet : (afterAll es).Quiet (.step id) := .of_task rfl fun task known => by
    rw [answered] at known
    exact Option.some.inj known ▸ rfl
  have empty : ¬∃ source, ((afterAll es).cache.place place).source = some source := by
    rw [(o.places _).empty_of_turn (o.turn_of_answered answered)]
    simp
  constructor
  case alone =>
    intro first second elsewhere
    rw [publishesAt_put answered, publishesAt_put answered]
    split <;> split
    · omega
    · rintro ⟨⟩ publishes
      exact absurd publishes.filled empty
    · rintro publishes ⟨⟩
      exact absurd publishes.filled empty
    · exact s.alone
  case nobody =>
    intro other elsewhere stranded
    rw [quiet.stranded_iff] at stranded
    rw [publishesAt_put answered]
    split
    · rintro ⟨⟩
      exact absurd stranded.filled empty
    · exact s.nobody stranded
  case present =>
    intro other elsewhere source current filled
    have bound := o.known ⟨_, answered, rfl⟩
    rw [cache_put, Cache.place_nextStamp, Cache.place_modifyPlace _ bound] at filled
    rw [quiet.renewed_iff]
    split at filled
    · -- a name with a program has a place that is filled
      rename_i same
      subst same
      have absent : ¬((afterAll es).cache.program? other).isSome := by
        rintro found
        obtain ⟨program, found⟩ := Option.isSome_iff_exists.1 found
        obtain ⟨place, source, here, there, -⟩ := t.published found
        obtain rfl := Option.some.inj (here.symm.trans current)
        exact empty ⟨source, there⟩
      refine iff_of_false absent fun renews => ?_
      refine absurd (renews (.inr ⟨id, ?_⟩)).filled empty
      rw [publishesAt_put answered, if_pos rfl]
      rfl
    · rename_i apart
      rw [awaits_congr quiet.stranded_iff fun other => ?_]
      · exact s.present current filled
      · rw [publishesAt_put answered]
        split
        · rename_i same
          rw [same, publishesAt_iff answered]
          exact iff_of_false (fun here => apart (Option.some.inj here).symm) nofun
        · rfl

/-- A task publishes for the first time, and nobody waits for it any longer. -/
theorem publish {ready : List Nat}
    (publishes : (afterAll es).tasks[id]? = some (.load name (.publishing place program) walk)) :
    Served (es ++ [.step id]) ((afterAll es).put id (.afterLoad name (some program) walk)
      ((afterAll es).cache.publish name place program) (afterAll es).calls ready) := by
  obtain ⟨owner, birth, t⟩ := traced_afterAll es
  have k : Placed es (afterAll es) owner birth id name (.publishing place program) :=
    t.tasks publishes
  have here : (afterAll es).PublishesAt id place := (publishesAt_iff publishes).2 rfl
  have free := Task.publishes?_of_isFree (Task.isFree_afterLoad name (some program) walk)
  have stranded {elsewhere : Nat} : Stranded (es ++ [.step id]) elsewhere ↔ Stranded es elsewhere :=
    stranded_iff nofun
  constructor
  case alone =>
    intro first second elsewhere h h'
    rw [publishesAt_put_none publishes free] at h h'
    exact s.alone h.1 h'.1
  case nobody =>
    intro other elsewhere gone h
    rw [publishesAt_put_none publishes free] at h
    exact s.nobody (stranded.1 gone) h.1
  case present =>
    intro other elsewhere source current filled
    rw [cache_put, Cache.current_publish] at current
    rw [cache_put, Cache.place_publish] at filled
    rw [cache_put, t.program?_publish (k.entered rfl).1 current, renewed_iff]
    · split
      · -- the only one who was about to publish has done so
        rename_i same
        subst same
        refine iff_of_true rfl fun awaits => ?_
        rcases awaits with gone | ⟨other, h⟩
        · exact absurd here (s.nobody (stranded.1 gone))
        · rw [publishesAt_put_none publishes free] at h
          exact absurd (s.alone h.1 here) h.2
      · rename_i apart
        rw [awaits_congr stranded fun other => ?_]
        · exact s.present current filled
        · rw [publishesAt_put_none publishes free, and_iff_left_iff_imp]
          rintro h rfl
          exact apart (Option.some.inj ((publishesAt_iff publishes).1 h)).symm
    · rintro _ ⟨⟩ renews
      rw [renewsAt_iff publishes] at renews
      cases renews

/-- A walk publishes for a place what it has resolved again. -/
theorem renew {names : List String} {w : Walk} {ready : List Nat}
    (republishes : (afterAll es).tasks[id]? = some (.republish name place program names w)) :
    Served (es ++ [.step id]) ((afterAll es).put id (.relinking names w)
      ((afterAll es).cache.publish name place program) (afterAll es).calls ready) := by
  obtain ⟨owner, birth, t⟩ := traced_afterAll es
  have k : Backed es (afterAll es) owner birth id (.republish name place program names w) :=
    t.tasks republishes
  -- nobody is about to publish who was not before
  have publishers {other elsewhere : Nat} :
      ((afterAll es).put id (.relinking names w) ((afterAll es).cache.publish name place program)
        (afterAll es).calls ready).PublishesAt other elsewhere ↔
        (afterAll es).PublishesAt other elsewhere :=
    publishesAt_put_still republishes rfl (Task.publishes?_of_isFree (Task.isFree_relinking _ _))
  have stranded {elsewhere : Nat} : Stranded (es ++ [.step id]) elsewhere ↔ Stranded es elsewhere :=
    stranded_iff nofun
  refine ⟨fun h h' => s.alone (publishers.1 h) (publishers.1 h'),
    fun gone h => s.nobody (stranded.1 gone) (publishers.1 h), ?_⟩
  intro other elsewhere source current filled
  rw [cache_put, Cache.current_publish] at current
  rw [cache_put, Cache.place_publish] at filled
  rw [cache_put, t.program?_publish k.1 current, awaits_congr stranded fun _ => publishers]
  split
  · rename_i same
    -- its own place has a program from now on, and was renewed to have it
    refine iff_of_true rfl fun _ => renewed_concat.2 (.inr ⟨id, rfl, ?_⟩)
    rw [renewsAt_iff republishes, same]
    rfl
  · rename_i apart
    rw [renewed_iff]
    · exact s.present current filled
    · rintro _ ⟨⟩ renews
      exact apart (Option.some.inj ((renewsAt_iff republishes).1 renews)).symm

/-- A task is abandoned that was about to publish, and the place is left without. -/
theorem strand {ready : List Nat}
    (publishes : (afterAll es).tasks[id]? = some (.load name (.publishing place program) walk)) :
    Served (es ++ [.abandon id])
      ((afterAll es).put id .abandoned (afterAll es).cache (afterAll es).calls ready) := by
  have here : (afterAll es).PublishesAt id place := (publishesAt_iff publishes).2 rfl
  have place_eq {elsewhere : Nat} (h : (afterAll es).PublishesAt id elsewhere) :
      elsewhere = place := (Option.some.inj ((publishesAt_iff publishes).1 h)).symm
  -- one task less is about to publish, and it was the only one at its place
  have publishers {other elsewhere : Nat} :
      ((afterAll es).put id .abandoned (afterAll es).cache (afterAll es).calls ready).PublishesAt
        other elsewhere ↔ (afterAll es).PublishesAt other elsewhere ∧ other ≠ id :=
    publishesAt_put_none publishes rfl
  have stranded {elsewhere : Nat} : Stranded (es ++ [.abandon id]) elsewhere ↔
      Stranded es elsewhere ∨ elsewhere = place := by
    rw [stranded_concat]
    refine or_congr_right ⟨?_, ?_⟩
    · rintro ⟨_, ⟨⟩, h⟩
      exact place_eq h
    · rintro rfl
      exact ⟨id, rfl, here⟩
  constructor
  case alone => exact fun h h' => s.alone (publishers.1 h).1 (publishers.1 h').1
  case nobody =>
    intro other elsewhere gone h
    obtain ⟨h, ne⟩ := publishers.1 h
    rcases stranded.1 gone with gone | rfl
    · exact s.nobody gone h
    · exact ne (s.alone h here)
  case present =>
    intro other elsewhere source current filled
    -- the place waited for the task, and waits in vain now
    have awaits : Awaits (es ++ [.abandon id]) ((afterAll es).put id .abandoned
        (afterAll es).cache (afterAll es).calls ready) elsewhere ↔
          Awaits es (afterAll es) elsewhere := by
      by_cases same : elsewhere = place
      · exact iff_of_true (.inl (stranded.2 (.inr same))) (.inr ⟨id, same ▸ here⟩)
      · refine awaits_congr (stranded.trans (or_iff_left same)) fun other => ?_
        rw [publishers, and_iff_left_iff_imp]
        rintro h rfl
        exact same (place_eq h)
    rw [awaits, renewed_iff (by rintro _ ⟨⟩)]
    exact s.present current filled

/-- **Every change leaves it so** that a filled place has a program or waits for one. -/
theorem change (c : Change (afterAll es) e b) : Served (es ++ [e]) b := by
  have o := ordered_afterAll es
  have free (name : String) (found : Option Program) (walk : Option Walk) :=
    Task.publishes?_of_isFree (Task.isFree_afterLoad name found walk)
  have waiting {task : Task} {place : Nat} (isAt : placeHeld? task = some place) :
      task.isPublishing = false := by
    unfold placeHeld? at isAt
    split at isAt <;> first | rfl | cases isAt
  cases c with
  | nothing ready own quiet =>
    exact s.frame quiet.stranded_iff quiet.renewed_iff Iff.rfl (.refl _)
  | started name ready =>
    exact s.frame (stranded_iff nofun) (renewed_iff nofun) (publishesAt_push rfl) (.refl _)
  | walked names ready =>
    exact s.frame (stranded_iff nofun) (renewed_iff nofun)
      (publishesAt_push (Task.isFree_ofWalk _)) (.refl _)
  | @joined id place name walk ready loads isPlace empty busy =>
    exact s.put (.inr rfl) rfl loads rfl rfl
      ((sameFilled_opening _ name).modifyPlace (fun _ => by rfl) place)
  | @asked b id place name walk ready comes empty turn =>
    obtain ⟨-, -, stage, loads, before⟩ := o.comes comes
    rw [comes.tasks] at loads
    exact s.put (.inr rfl) comes.tasks loads (by rcases before with rfl | rfl <;> rfl) rfl
      (comes.sameFilled.modifyPlace (fun _ => by rfl) place)
  | @arrived b id place name walk source ready comes filled =>
    obtain ⟨-, -, stage, loads, before⟩ := o.comes comes
    rw [comes.tasks] at loads
    exact s.put (.inr rfl) comes.tasks loads (by rcases before with rfl | rfl <;> rfl)
      (free ..) comes.sameFilled
  | @failed id place name walk ready answered =>
    exact s.put (.inr rfl) rfl answered rfl (free ..)
      ((SameFilled.refl _).modifyPlace (fun _ => by rfl) place)
  | filled ready answered => exact s.fill answered
  | published ready publishes => exact s.publish publishes
  | skipped ready relinks =>
    exact s.put (.inr rfl) rfl relinks rfl
      (Task.publishes?_of_isFree (Task.isFree_relinking _ _)) (.refl _)
  | resolved ready relinks current filled =>
    exact s.put (.inr rfl) rfl relinks rfl rfl fun _ _ _ current filled => ⟨⟨current, filled⟩, rfl⟩
  | replaced ready republishes => exact s.renew republishes
  | answered ready asks => exact s.put (.inl rfl) rfl asks rfl rfl (.refl _)
  | @dropped id task ready known away =>
    cases task with
    | load name stage walk =>
      cases stage with
      | publishing place program => exact s.strand known
      | _ => exact s.put (.inr rfl) rfl known rfl rfl (.refl _)
    | republish name place program names w =>
      -- what was resolved again is not published, and the program before it stays
      refine s.frame (stranded_iff ?_) (renewed_iff nofun)
        (publishesAt_put_still known rfl rfl) (.refl _)
      rintro _ ⟨⟩ publishes
      rw [publishesAt_iff known] at publishes
      cases publishes
    | _ => exact s.put (.inr rfl) rfl known rfl rfl (.refl _)
  | @passed id place task ready known isAt turn =>
    exact s.put (.inr rfl) rfl known (waiting isAt) rfl
      ((SameFilled.refl _).modifyPlace (fun _ => by rfl) place)
  | @left id place task ready known isAt turn =>
    exact s.put (.inr rfl) rfl known (waiting isAt) rfl
      ((SameFilled.refl _).modifyPlace (fun _ => by rfl) place)
  | forgotten name =>
    exact s.frame (stranded_iff nofun) (renewed_iff nofun) Iff.rfl (sameFilled_forget _ name)

end Served

/-- After any events. -/
theorem served_afterAll (es : List Event) : Served es (afterAll es) := by
  induction es using List.reverseRecOn with
  | nil => constructor <;> simp [PublishesAt, idle, Cache.empty]
  | append_singleton es e ih =>
    rw [afterAll_concat]
    exact ih.change (change_after _ e)

/-- **When no task can go on, a name has a program** if and only if its place is filled, and a walk
has published for it if the task that filled it was abandoned before it did. -/
theorem AtRest.program?_isSome_iff (rest : (afterAll es).AtRest) (name : String) :
    ((afterAll es).cache.program? name).isSome ↔
      ∃ place source, (afterAll es).cache.current.find? name = some place ∧
        ((afterAll es).cache.place place).source = some source ∧
        (Stranded es place → Renewed es place) := by
  have awaits {place : Nat} : Awaits es (afterAll es) place ↔ Stranded es place := by
    refine or_iff_left ?_
    rintro ⟨id, publishes⟩
    obtain ⟨task, known, here⟩ := Option.bind_eq_some_iff.1 publishes
    unfold Task.publishes? at here
    split at here
    · -- whoever is about to publish can go on
      have stuck := rest id
      simp [canStep, known, Task.isRunnable] at stuck
    · cases here
  constructor
  · intro found
    obtain ⟨owner, birth, t⟩ := traced_afterAll es
    obtain ⟨program, known⟩ := Option.isSome_iff_exists.1 found
    obtain ⟨place, source, current, filled, -⟩ := t.published known
    refine ⟨place, source, current, filled, fun stranded => ?_⟩
    exact ((served_afterAll es).present current filled).1 found (awaits.2 stranded)
  · rintro ⟨place, source, current, filled, renewed⟩
    rw [(served_afterAll es).present current filled, awaits]
    exact renewed

end Activity

end MudEdit
