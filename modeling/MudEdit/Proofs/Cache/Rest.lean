import MudEdit.Proofs.Cache.Closure
import MudEdit.Proofs.Cache.Origin

/-!
# A cache at rest

Between two messages no task is at work on the cache. Nobody waits at a place then, and under
each name that was fetched there is a program of the text that was fetched for it, whatever
that was resolved against. One task that visits names one after the other leaves the cache at
rest between two visits.
-/

namespace MudEdit

variable {c : Cache} {name other text : String} {s : Source}

/-- The program is that of a text, whatever else was there when it was resolved. -/
def Program.IsOf (name text : String) (p : Program) : Prop :=
  StandsFor name (Forest.parse .interpretation text).nodes p

/-- The source is that of a text. -/
structure Source.IsOf (name text : String) (s : Source) : Prop where
  nodes : s.nodes = (Forest.parse .interpretation text).nodes
  program : s.program.IsOf name text

namespace Cache

/-- The library has a program for each source in the cache, of the same constructs, and no
others. -/
structure Backs (c : Cache) (library : Library) : Prop where
  sourced : ∀ g s, c.source? g = some s → ∃ p, library g = some p ∧ StandsFor g s.nodes p
  absent : ∀ g, c.source? g = none → library g = none

/-- Nobody is at work on the cache. -/
structure Rested (c : Cache) : Prop where
  named : c.Named
  /-- A place belongs to one name. -/
  apart : ∀ name other id, c.current.find? name = some id → c.current.find? other = some id →
    other = name
  /-- Nobody has the turn, and nobody waits. -/
  still : ∀ name id, c.current.find? name = some id →
    (c.place id).turn = none ∧ (c.place id).waiting = []
  sourced : ∀ name s, c.source? name = some s → ∃ text, s.IsOf name text
  backs : c.Backs c.library

theorem rested_empty : Rested .empty where
  named _ _ h := absurd h (by simp [empty])
  apart _ _ _ h := absurd h (by simp [empty])
  still _ _ h := absurd h (by simp [empty])
  sourced _ _ h := absurd h (by simp [source?, empty])
  backs := ⟨fun _ _ h => absurd h (by simp [source?, empty]), fun _ _ => rfl⟩

/-- What a library has for a name that is fetched is of the text of its source. -/
theorem Backs.source {library : Library} (h : c.Backs library) {p : Program}
    (hp : library name = some p) : ∃ s, c.source? name = some s ∧ StandsFor name s.nodes p := by
  cases hs : c.source? name with
  | none => exact absurd (h.absent name hs) (by simp [hp])
  | some s =>
    obtain ⟨q, hq, hstands⟩ := h.sourced name s hs
    obtain rfl := Option.some.inj (hq.symm.trans hp)
    exact ⟨s, rfl, hstands⟩

namespace Rested

/-- What is published under a name is of the text of its source. -/
theorem program (h : c.Rested) {p : Program} (hp : c.library name = some p) :
    ∃ s text, c.source? name = some s ∧ s.IsOf name text ∧ p.IsOf name text := by
  obtain ⟨s, hs, hstands⟩ := h.backs.source hp
  obtain ⟨text, hof⟩ := h.sourced name s hs
  rw [hof.nodes] at hstands
  exact ⟨s, text, hs, hof, hstands⟩

/-- A cache with the same places, that publishes programs of the same texts. -/
theorem of_same {d : Cache} (h : c.Rested) (hcurrent : d.current = c.current)
    (hplaces : d.places = c.places) (hb : c.Backs d.library) :
    d.Rested ∧ d.source? = c.source? := by
  have hplace : d.place = c.place := by
    unfold place
    rw [hplaces]
  have hsource : d.source? = c.source? := by
    unfold source?
    rw [hcurrent, hplace]
  -- names and places are the same, only what is published may differ
  refine ⟨⟨?_, ?_, ?_, hsource ▸ h.sourced, ?_, ?_⟩, hsource⟩
  · intro g id hid
    rw [hplaces]
    exact h.named g id (hcurrent ▸ hid)
  · rw [hcurrent]
    exact h.apart
  · rw [hcurrent, hplace]
    exact h.still
  · rw [hsource]
    exact hb.sourced
  · rw [hsource]
    exact hb.absent

/-- A stamp more moves nothing. -/
theorem nextStamp (h : c.Rested) : c.nextStamp.Rested :=
  (h.of_same (d := c.nextStamp) rfl rfl h.backs).1

end Rested

/-- What a text is resolved to stands for the text. -/
theorem isOf_sourceOf (c : Cache) (name text : String) : (c.sourceOf name text).IsOf name text :=
  ⟨rfl, c.library, c.stamp, rfl⟩

theorem current_forget (c : Cache) (name other : String) : (c.forget name).current.find? other =
    if other = name then none else c.current.find? other := Table.find?_remove ..

theorem library_forget (c : Cache) (name other : String) : (c.forget name).library other =
    if other = name then none else c.library other := Table.find?_remove ..

theorem source?_forget (c : Cache) (name other : String) : (c.forget name).source? other =
    if other = name then none else c.source? other := by
  unfold source?
  rw [current_forget]
  split <;> rfl

/-- A cache at rest is at rest without a name. -/
theorem Rested.forget (h : c.Rested) (name : String) : (c.forget name).Rested := by
  have hcurrent {g : String} {id : Nat} (hid : (c.forget name).current.find? g = some id) :
      g ≠ name ∧ c.current.find? g = some id := by
    rw [current_forget] at hid
    split at hid
    · exact absurd hid (by simp)
    · exact ⟨‹_›, hid⟩
  -- what remains of the names was there before, and is apart, still and backed as it was
  refine ⟨h.named.forget name, ?_, ?_, fun g s hs => ?_, fun g s hs => ?_, fun g hs => ?_⟩
  · exact fun g g' id hg hg' => h.apart g g' id (hcurrent hg).2 (hcurrent hg').2
  · exact fun g id hid => h.still g id (hcurrent hid).2
  · rw [source?_forget] at hs
    split at hs
    · exact absurd hs (by simp)
    · exact h.sourced g s hs
  · rw [source?_forget] at hs
    rw [library_forget]
    split at hs
    · exact absurd hs (by simp)
    · rw [if_neg ‹_›]
      exact h.backs.sourced g s hs
  · rw [source?_forget] at hs
    rw [library_forget]
    split at hs
    · rw [if_pos ‹_›]
    · rw [if_neg ‹_›]
      exact h.backs.absent g hs

/-! ## The visit of a name -/

theorem find?_placeOf (c : Cache) (name other : String) :
    (c.placeOf name).2.current.find? other =
      if other = name then some (c.placeOf name).1 else c.current.find? other := by
  by_cases heq : other = name
  · subst heq
    rw [if_pos rfl, current_placeOf]
  · rw [if_neg heq]
    unfold placeOf
    split
    · rfl
    · exact (Table.find?_put ..).trans (if_neg heq)

namespace Rested

/-- A name without a source is one that nobody works on. -/
theorem vacant (h : c.Rested) (hs : c.source? name = none) : c.Vacant name := by
  cases hid : c.current.find? name with
  | none => exact vacant_of_new hid
  | some id =>
    have hplace : c.placeOf name = (id, c) := by rw [placeOf, hid]
    have hsource : (c.place id).source = none := by
      rw [source?, hid] at hs
      exact hs
    obtain ⟨hturn, hwaiting⟩ := h.still name id hid
    rw [Vacant, hplace]
    show c.place id = ⟨none, none, []⟩
    rw [← hsource, ← hturn, ← hwaiting]

/-- What is done at the place of a name is not done at that of another one. -/
theorem ne_placeOf (h : c.Rested) {id : Nat} (hne : other ≠ name)
    (hid : c.current.find? other = some id) : id ≠ (c.placeOf name).1 := by
  cases hname : c.current.find? name with
  | none =>
    rw [placeOf_new hname]
    exact Nat.ne_of_lt (h.named other id hid)
  | some id' =>
    have hplace : c.placeOf name = (id', c) := by rw [placeOf, hname]
    rw [hplace]
    rintro rfl
    exact hne (h.apart name other id hname hid)

end Rested

theorem find?_current_lacked (c : Cache) (name other : String) :
    (c.lacked name).current.find? other =
      if other = name then some (c.placeOf name).1 else c.current.find? other :=
  find?_placeOf c name other

theorem find?_current_fetched (c : Cache) (name text other : String) :
    (c.fetched name text).current.find? other =
      if other = name then some (c.placeOf name).1 else c.current.find? other := by
  rw [fetched, current_publish]
  exact find?_placeOf c name other

/-- A visit changes the place of its name and no other. -/
theorem place_asked_of_ne (c : Cache) (name : String) {id : Nat} (hne : id ≠ (c.placeOf name).1)
    (hlt : (c.placeOf name).1 < (c.placeOf name).2.places.size) :
    (c.asked name).place id = c.place id := by
  rw [asked, place_modifyPlace _ hlt, if_neg hne, place_placeOf]

section Visit

variable (h : c.Rested)
include h

theorem place_fetched (id : Nat) : (c.fetched name text).place id =
    if id = (c.placeOf name).1 then ⟨some ((c.asked name).sourceOf name text), none, []⟩
    else c.place id := by
  have hlt := h.named.placeOf_lt name
  have hlt' : (c.placeOf name).1 < (c.asked name).places.size := by
    rwa [asked, size_modifyPlace]
  rw [fetched, place_publish, place_nextStamp, place_modifyPlace _ hlt']
  split
  · rfl
  · exact place_asked_of_ne c name ‹_› hlt

/-- A cache in which the place of one name is another one, and nobody is there. -/
theorem Rested.visited {d : Cache} (hnamed : d.Named)
    (hcurrent : ∀ g, d.current.find? g =
      if g = name then some (c.placeOf name).1 else c.current.find? g)
    (hplace : ∀ id ≠ (c.placeOf name).1, d.place id = c.place id)
    (hname : (d.place (c.placeOf name).1).turn = none ∧ (d.place (c.placeOf name).1).waiting = [])
    (hsourced : ∀ g s, d.source? g = some s → ∃ text, s.IsOf g text) (hb : d.Backs d.library) :
    d.Rested := by
  -- the place of the name is one of its own, whether new or not
  refine ⟨hnamed, fun g g' id hg hg' => ?_, fun g id hid => ?_, hsourced, hb⟩
  · rw [hcurrent] at hg hg'
    split at hg <;> split at hg'
    · rw [‹g = name›, ‹g' = name›]
    · exact absurd (Option.some.inj hg).symm (h.ne_placeOf ‹_› hg')
    · exact absurd (Option.some.inj hg').symm (h.ne_placeOf ‹_› hg)
    · exact h.apart g g' id hg hg'
  · rw [hcurrent] at hid
    split at hid
    · obtain rfl := Option.some.inj hid
      exact hname
    · rw [hplace id (h.ne_placeOf ‹_› hid)]
      exact h.still g id hid

/-- Of the sources only that of the name is a new one. -/
theorem Rested.source?_fetched (other : String) : (c.fetched name text).source? other =
    if other = name then some ((c.asked name).sourceOf name text) else c.source? other := by
  unfold source?
  rw [find?_current_fetched]
  split
  · show ((c.fetched name text).place (c.placeOf name).1).source = _
    rw [place_fetched h, if_pos rfl]
  · rename_i hne
    cases hid : c.current.find? other with
    | none => rfl
    | some id =>
      show ((c.fetched name text).place id).source = (c.place id).source
      rw [place_fetched h, if_neg (h.ne_placeOf hne hid)]

/-- The visit of a name with a text leaves the cache at rest. -/
theorem Rested.fetched : (c.fetched name text).Rested := by
  -- the name has the source and the program of the text now, all others are as before
  refine h.visited (named_fetched h.named) (find?_current_fetched c name text)
    (fun id hne => ?_) ?_ (fun g s hg => ?_) ⟨fun g s hg => ?_, fun g hg => ?_⟩
  · rw [place_fetched h, if_neg hne]
  · rw [place_fetched h, if_pos rfl]
    exact ⟨rfl, rfl⟩
  · rw [h.source?_fetched] at hg
    split at hg
    · subst g
      obtain rfl := Option.some.inj hg
      exact ⟨text, isOf_sourceOf ..⟩
    · exact h.sourced g s hg
  · rw [h.source?_fetched] at hg
    rw [library_fetched]
    split at hg
    · subst g
      obtain rfl := Option.some.inj hg
      rw [if_pos rfl]
      exact ⟨_, rfl, c.library, c.stamp, rfl⟩
    · rw [if_neg ‹_›]
      exact h.backs.sourced g s hg
  · rw [h.source?_fetched] at hg
    rw [library_fetched]
    split at hg
    · exact absurd hg (by simp)
    · rw [if_neg ‹_›]
      exact h.backs.absent g hg

variable (hs : c.source? name = none)
include hs

theorem place_lacked (id : Nat) : (c.lacked name).place id =
    if id = (c.placeOf name).1 then .empty else c.place id := by
  have hlt := h.named.placeOf_lt name
  have hlt' : (c.placeOf name).1 < (c.asked name).places.size := by
    rwa [asked, size_modifyPlace]
  rw [lacked, place_modifyPlace _ hlt']
  split
  · rw [place_asked h.named (h.vacant hs)]
    rfl
  · exact place_asked_of_ne c name ‹_› hlt

/-- A name that is lacking was not there before. -/
theorem Rested.source?_lacked (other : String) :
    (c.lacked name).source? other = c.source? other := by
  unfold source?
  rw [find?_current_lacked]
  split
  · subst other
    have hempty : ((c.lacked name).place (c.placeOf name).1).source = none := by
      rw [place_lacked h hs, if_pos rfl]
      rfl
    exact hempty.trans hs.symm
  · rename_i hne
    cases hid : c.current.find? other with
    | none => rfl
    | some id =>
      show ((c.lacked name).place id).source = (c.place id).source
      rw [place_lacked h hs, if_neg (h.ne_placeOf hne hid)]

/-- So does that of a name that there is no text for. -/
theorem Rested.lacked : (c.lacked name).Rested := by
  -- the place of the name is empty again, and all others are as before
  refine h.visited (named_lacked h.named) (find?_current_lacked c name) (fun id hne => ?_) ?_
    (fun g s hg => ?_) ⟨fun g s hg => ?_, fun g hg => ?_⟩
  · rw [place_lacked h hs, if_neg hne]
  · rw [place_lacked h hs, if_pos rfl]
    exact ⟨rfl, rfl⟩
  · rw [h.source?_lacked hs] at hg
    exact h.sourced g s hg
  · rw [h.source?_lacked hs] at hg
    rw [library_lacked]
    exact h.backs.sourced g s hg
  · rw [h.source?_lacked hs] at hg
    rw [library_lacked]
    exact h.backs.absent g hg

end Visit

end Cache

end MudEdit
