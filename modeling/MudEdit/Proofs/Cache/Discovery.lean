import Mathlib.Logic.Relation
import MudEdit.Proofs.Cache.Closure
import MudEdit.Proofs.Program.Directive

/-!
# What the loading of a closure finds, and in which order

What a file names depends on its text alone. So the names that are asked for are those that can
be reached over the directives of the files, and they are asked for as they are discovered: first
the names to start with, and then what the files name, file by file in this same order, each name
where it comes first.

Between two visits, this holds of the names visited so far and of those in line behind them, each
of them taken where it comes first. When nothing is in line that was not visited, it holds of the
visited names alone.
-/

namespace MudEdit

variable {files : Files} {names order calls : List String} {w w' : Walk} {name text : String}

namespace Files

/-- The paths that the directives of a file name, in their order. -/
def links (files : Files) (name : String) : List String :=
  match files.find? name with
  | none => []
  | some text => (Forest.parse .interpretation text).directives.filterMap (·.kind.path?)

/-- Directives lead from one of the names to start with to a name. -/
def Reached (files : Files) (names : List String) (name : String) : Prop :=
  ∃ start ∈ names, Relation.ReflTransGen (fun g d => d ∈ files.links g) start name

/-- So many directives, one after the other, are enough to get to a name. -/
def Within (files : Files) (names : List String) : Nat → String → Prop
  | 0, name => name ∈ names
  | k + 1, name => files.Within names k name ∨ ∃ g, files.Within names k g ∧ name ∈ files.links g

theorem Reached.start (h : name ∈ names) : files.Reached names name := ⟨name, h, .refl⟩

theorem Reached.link {d : String} (h : files.Reached names name) (hd : d ∈ files.links name) :
    files.Reached names d := by
  obtain ⟨start, hstart, hlinks⟩ := h
  exact ⟨start, hstart, hlinks.tail hd⟩

theorem Within.of_start {k : Nat} (h : name ∈ names) : files.Within names k name := by
  induction k with
  | zero => exact h
  | succ k ih => exact .inl ih

theorem links_of_none (h : files.find? name = none) : files.links name = [] := by
  rw [links, h]

/-- What a file depends on, whatever it is resolved against. -/
theorem dependencies_eq_links (library : Library) (stamp : Nat)
    (h : files.find? name = some text) : (resolve library stamp (some name)
      (Forest.parse .interpretation text).nodes).program.dependencies = files.links name := by
  rw [dependencies_eq, links, h]

/-- The names in the order in which they are found: first those to start with, then those that
the names found so far lead to. -/
def InOrder (files : Files) (names order : List String) : Prop :=
  order = (names ++ order.flatMap files.links).eraseDups

end Files

/-! ## Names in their first places -/

/-- What comes later in the list of first places is not in a part of the list that lacks what
comes earlier. -/
theorem mem_of_eraseDups_append {as bs xs ys : List String} {a b : String}
    (h : (as ++ bs).eraseDups = xs ++ b :: ys) (ha : a ∈ ys) (hmem : a ∈ as) : b ∈ as := by
  rw [List.eraseDups_append] at h
  -- `a` is in `as`, so the part that comes of `bs` alone does not hold it
  have hrest : a ∉ (bs.removeAll as).eraseDups := by
    rw [List.mem_eraseDups, List.removeAll, List.mem_filter]
    simp [hmem]
  rcases List.append_eq_append_iff.mp h with ⟨zs, rfl, hzs⟩ | ⟨zs, hzs, htail⟩
  · rw [hzs] at hrest
    exact absurd (by simp [ha]) hrest
  · cases zs with
    | nil =>
      rw [List.nil_append] at htail
      rw [← htail] at hrest
      exact absurd (by simp [ha]) hrest
    | cons z zs =>
      obtain ⟨rfl, -⟩ := List.cons.inj htail
      rw [← List.mem_eraseDups, hzs]
      simp

namespace Walk

/-- The names in line that were not visited. -/
def pending (w : Walk) : List String := w.queue.filter (· ∉ w.visited)

/-- The next name is the first of those in line, and is not in line any more. -/
theorem pending_next (h : w.next? = some (name, w')) :
    w.pending.eraseDups = name :: w'.pending.eraseDups := by
  obtain ⟨passed, rest, hqueue, hpassed, hnew, rfl⟩ := of_next? h
  have hnone : passed.filter (· ∉ w.visited) = [] :=
    List.filter_eq_nil_iff.mpr fun g hg => by simpa using hpassed g hg
  have hpending : w.pending = name :: rest.filter (· ∉ w.visited) := by
    rw [pending, hqueue, List.filter_append, hnone, List.nil_append,
      List.filter_cons_of_pos (by simpa using hnew)]
  rw [hpending, List.eraseDups_cons, List.filter_filter]
  refine congrArg (fun gs => name :: gs.eraseDups) (List.filter_congr fun g _ => ?_)
  simp [beq_eq_decide]

theorem pending_of_done (h : w.next? = none) : w.pending = [] := by
  refine List.filter_eq_nil_iff.mpr fun g hg => ?_
  simpa using mem_visited_of_done h g hg

end Walk

/-! ## What holds between two visits -/

/-- What was asked for, with what is in line behind it, is what was named so far, each name where
it came first. -/
structure Found (files : Files) (names : List String) (w : Walk) (calls : List String) : Prop where
  visited : ∀ g, g ∈ w.visited ↔ g ∈ calls
  nodup : calls.Nodup
  loaded : w.loaded = calls.filter fun g => (files.find? g).isSome
  missing : w.missing = calls.filter fun g => (files.find? g).isNone
  reached : ∀ g ∈ calls, files.Reached names g
  order : calls ++ w.pending.eraseDups = (names ++ calls.flatMap files.links).eraseDups

theorem found_start (files : Files) (names : List String) :
    Found files names (.start names) [] where
  visited _ := Iff.rfl
  nodup := List.nodup_nil
  loaded := rfl
  missing := rfl
  reached _ h := absurd h (by simp)
  order := by
    have hpending : (Walk.start names).pending = names :=
      List.filter_eq_self.mpr fun g _ => by simp [Walk.start]
    rw [hpending, List.flatMap_nil, List.append_nil, List.nil_append]

namespace Found

section Visit

variable (h : Found files names w calls) (hnext : w.next? = some (name, w'))
include h

/-- What is in line was named to start with, or by a file that was visited. -/
theorem mem_iff (g : String) :
    g ∈ calls ∨ g ∈ w.pending ↔ g ∈ names ∨ ∃ a ∈ calls, g ∈ files.links a := by
  have hmem : g ∈ calls ++ w.pending.eraseDups ↔
      g ∈ (names ++ calls.flatMap files.links).eraseDups := by rw [h.order]
  simpa only [List.mem_append, List.mem_eraseDups, List.mem_flatMap] using hmem

theorem reached_of_mem {g : String} (hg : g ∈ calls ∨ g ∈ w.pending) : files.Reached names g := by
  rcases (h.mem_iff g).mp hg with hg | ⟨a, ha, hg⟩
  · exact .start hg
  · exact (h.reached a ha).link hg

include hnext

theorem visited_next (g : String) : g ∈ w'.visited ↔ g ∈ calls ++ [name] := by
  rw [(Walk.next?_some hnext).2.1, List.mem_cons, h.visited, List.mem_append, List.mem_singleton,
    or_comm]

/-- A visit keeps what does not tell whether there was a text. -/
theorem visit {next : Walk} (hvisited : next.visited = w'.visited)
    (hloaded : next.loaded = (calls ++ [name]).filter fun g => (files.find? g).isSome)
    (hmissing : next.missing = (calls ++ [name]).filter fun g => (files.find? g).isNone)
    (horder : calls ++ [name] ++ next.pending.eraseDups =
      (names ++ (calls ++ [name]).flatMap files.links).eraseDups) :
    Found files names next (calls ++ [name]) := by
  have hnew := (Walk.next?_some hnext).1
  refine ⟨fun g => ?_, ?_, hloaded, hmissing, fun g hg => ?_, horder⟩
  · rw [hvisited]
    exact h.visited_next hnext g
  · refine List.nodup_append.mpr ⟨h.nodup, by simp, ?_⟩
    rintro g hg b hb rfl
    exact hnew ((h.visited name).mpr (List.mem_singleton.mp hb ▸ hg))
  -- the name came from the queue, and what stands there is linked to
  · refine h.reached_of_mem ?_
    have hname : name ∈ w.pending := by
      rw [← List.mem_eraseDups, Walk.pending_next hnext]
      exact List.mem_cons_self
    rcases List.mem_append.mp hg with hg | hg
    · exact .inl hg
    · exact .inr (List.mem_singleton.mp hg ▸ hname)

theorem order_next : calls ++ [name] ++ w'.pending.eraseDups =
    (names ++ calls.flatMap files.links).eraseDups := by
  rw [← h.order, Walk.pending_next hnext, List.append_assoc, List.singleton_append]

/-- A visit keeps what holds between visits, if there was no text. -/
theorem lacked (hread : files.find? name = none) :
    Found files names (w'.arrive name none) (calls ++ [name]) := by
  obtain ⟨-, -, hloaded, hmissing, -⟩ := Walk.next?_some hnext
  refine h.visit hnext rfl ?_ ?_ ?_
  · rw [List.filter_append, ← h.loaded, List.filter_singleton, hread]
    simpa [Walk.arrive] using hloaded
  · rw [List.filter_append, ← h.missing, List.filter_singleton, hread]
    simp [Walk.arrive, hmissing]
  · rw [List.flatMap_append, List.flatMap_singleton, Files.links_of_none hread, List.append_nil]
    show _ ++ w'.pending.eraseDups = _
    exact h.order_next hnext

/-- A visit keeps what holds between visits, if a text was fetched. -/
theorem fetched (library : Library) (stamp : Nat) (hread : files.find? name = some text) :
    Found files names (w'.arrive name (some (resolve library stamp (some name)
      (Forest.parse .interpretation text).nodes).program)) (calls ++ [name]) := by
  obtain ⟨-, -, hloaded, hmissing, -⟩ := Walk.next?_some hnext
  refine h.visit hnext rfl ?_ ?_ ?_
  · rw [List.filter_append, ← h.loaded, List.filter_singleton, hread]
    simp [Walk.arrive, hloaded]
  · rw [List.filter_append, ← h.missing, List.filter_singleton, hread]
    simpa [Walk.arrive] using hmissing
  · have hpending : (w'.arrive name (some (resolve library stamp (some name)
        (Forest.parse .interpretation text).nodes).program)).pending =
        w'.pending ++ (files.links name).filter (· ∉ w'.visited) := by
      rw [← Files.dependencies_eq_links library stamp hread]
      simp [Walk.pending, Walk.arrive, List.filter_append, List.filter_filter]
    -- what the file names and no other one did is neither visited nor in line
    have hfirst : ((files.links name).filter (· ∉ w'.visited)).removeAll w'.pending =
        (files.links name).removeAll (names ++ calls.flatMap files.links) := by
      rw [List.removeAll, List.removeAll, List.filter_filter]
      refine List.filter_congr fun d _ => ?_
      have hmem : d ∈ calls ++ [name] ++ w'.pending.eraseDups ↔
          d ∈ (names ++ calls.flatMap files.links).eraseDups := by rw [h.order_next hnext]
      rw [List.mem_append, ← h.visited_next hnext, List.mem_eraseDups, List.mem_eraseDups] at hmem
      simp only [List.elem_eq_mem, ← hmem]
      simp [Bool.and_comm]
    rw [hpending, List.flatMap_append, List.flatMap_singleton, ← List.append_assoc names,
      List.eraseDups_append, hfirst, ← List.append_assoc, h.order_next hnext,
      ← List.eraseDups_append]

end Visit

theorem inOrder (h : Found files names w calls) (hdone : w.next? = none) :
    files.InOrder names calls := by
  have horder := h.order
  rw [Walk.pending_of_done hdone, List.eraseDups_nil, List.append_nil] at horder
  exact horder

end Found

theorem kept_found (files : Files) (names : List String) : Kept files (Found files names) where
  lacked hnext hread h := h.lacked hnext hread
  fetched library stamp hnext hread h := h.fetched hnext library stamp hread

/-! ## What the order tells -/

namespace Files

variable (h : files.InOrder names order)
include h

theorem InOrder.mem_iff (g : String) :
    g ∈ order ↔ g ∈ names ∨ ∃ a ∈ order, g ∈ files.links a := by
  have hmem : g ∈ order ↔ g ∈ (names ++ order.flatMap files.links).eraseDups := by
    rw [← show order = _ from h]
  simpa only [List.mem_append, List.mem_eraseDups, List.mem_flatMap] using hmem

theorem InOrder.mem_of_reached {g : String} (hg : files.Reached names g) : g ∈ order := by
  obtain ⟨start, hstart, hlinks⟩ := hg
  induction hlinks with
  | refl => exact (h.mem_iff start).mpr (.inl hstart)
  | tail _ hd ih => exact (h.mem_iff _).mpr (.inr ⟨_, ih, hd⟩)

theorem InOrder.mem_of_within {k : Nat} {g : String} (hg : files.Within names k g) : g ∈ order := by
  induction k generalizing g with
  | zero => exact (h.mem_iff g).mpr (.inl hg)
  | succ k ih =>
    rcases hg with hg | ⟨a, ha, hg⟩
    · exact ih hg
    · exact (h.mem_iff g).mpr (.inr ⟨a, ih ha, hg⟩)

/-- What is fewer directives away comes first. -/
theorem InOrder.nearer {k : Nat} {xs ys : List String} {a b : String}
    (hsplit : order = xs ++ b :: ys) (ha : a ∈ ys) (hnear : files.Within names k a) :
    files.Within names k b := by
  induction k generalizing a b xs ys with
  | zero =>
    have hlist : (names ++ order.flatMap files.links).eraseDups = xs ++ b :: ys := hsplit ▸ h.symm
    exact mem_of_eraseDups_append hlist ha hnear
  | succ k ih =>
    rcases hnear with hnear | ⟨p, hp, hlink⟩
    · exact .inl (ih hsplit ha hnear)
    -- `b` is among the names to start with, or one of the files up to `p` names it
    obtain ⟨us, vs, hsplit'⟩ := List.append_of_mem (h.mem_of_within hp)
    have hlist : (names ++ (us ++ [p]).flatMap files.links ++ vs.flatMap files.links).eraseDups =
        xs ++ b :: ys := by
      rw [List.append_assoc, ← List.flatMap_append, List.append_assoc, List.singleton_append,
        ← hsplit', ← hsplit]
      exact h.symm
    have hb := mem_of_eraseDups_append hlist ha (List.mem_append_right _
      (List.mem_flatMap.mpr ⟨p, by simp, hlink⟩))
    rcases List.mem_append.mp hb with hb | hb
    · exact .of_start hb
    · obtain ⟨q, hq, hlink⟩ := List.mem_flatMap.mp hb
      refine .inr ⟨q, ?_, hlink⟩
      rcases List.mem_append.mp hq with hq | hq
      · obtain ⟨us, us', rfl⟩ := List.append_of_mem hq
        have hsplit : order = us ++ q :: (us' ++ p :: vs) := by
          rw [hsplit', List.append_assoc, List.cons_append]
        exact ih hsplit (by simp) hp
      · exact List.mem_singleton.mp hq ▸ hp

end Files

open Activity in
/-- **The closure is what can be reached.** The loading ends, and each name that the directives of
the files lead to is asked for once: first the names to start with, then what the files asked for
name, file by file, each where it comes first, so that what is fewer directives away comes
first. The names with a text are reported as loaded and the others as missing, in this order. -/
theorem loadClosure_reaches (files : Files) (names : List String) : ∃ c w order,
    Cache.loadClosure .empty files.find? files.bytes names = alone c (.walked w) order ∧
      order.Nodup ∧ (∀ g, g ∈ order ↔ files.Reached names g) ∧
      order = (names ++ order.flatMap files.links).eraseDups ∧
      (∀ xs b ys, order = xs ++ b :: ys → ∀ a ∈ ys, ∀ k,
        files.Within names k a → files.Within names k b) ∧
      w.loaded = order.filter (fun g => (files.find? g).isSome) ∧
      w.missing = order.filter (fun g => (files.find? g).isNone) := by
  obtain ⟨-, c, w, order, hrun, hfound, hdone, -, -⟩ :=
    loadClosure_kept (kept_found files names) names (found_start files names)
  have horder := hfound.inOrder hdone
  refine ⟨c, w, order, hrun, hfound.nodup, fun g => ⟨hfound.reached g, ?_⟩, horder, ?_,
    hfound.loaded, hfound.missing⟩
  · exact horder.mem_of_reached
  · intro xs b ys hsplit a ha k
    exact horder.nearer hsplit ha

end MudEdit
