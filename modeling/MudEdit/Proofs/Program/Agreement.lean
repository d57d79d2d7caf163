import Mathlib.Data.List.Nodup
import Mathlib.Data.List.TakeWhile
import MudEdit.Proofs.Program.Dependencies
import MudEdit.Proofs.Program.Sight

/-!
# What can be seen and what is found

A name is looked up, and all names that can be seen are listed, in two searches that go through
the linked programs in the same order. The list passes over a program that it has been to
before. A lookup keeps the hidden members of a program back if any link of the route inherits;
the list keeps them back if the last link does, and does so for good, since it comes only once.

So the two agree on a name where each program that hides a member of the name is either never
reached through a link that inherits, or only ever inherited directly.
-/

namespace MudEdit

/-! ## Programs that come from texts

A program is made by the resolution of a text against programs that were made in the same way.
No text is as long as the greatest offset. -/

namespace Program

/-- Made from a text, as are all programs that are linked to it. -/
inductive Resolved : Program → Prop
  | resolve {library : Library} {text : String} (stamp : Nat) (fileName : Option String)
      (mode : Mode) : (∀ path p, library path = some p → Resolved p) →
      text.utf8ByteSize < endless →
      Resolved (resolve library stamp fileName (Forest.parse mode text).nodes).program

variable {p q : Program} {path : List Link}

/-- What is linked to a program comes from the library. -/
theorem exists_library_of_linked {library : Library} {stamp : Nat} {fileName : Option String}
    {nodes : List Node} {l : Link}
    (hq : q ∈ (resolve library stamp fileName nodes).program.linked l) :
    ∃ name, library name = some q := by
  obtain ⟨hincluded, hinherited⟩ := resolve_linked library stamp fileName nodes
  cases l with
  | included =>
    rw [Program.linked, hincluded] at hq
    obtain ⟨name, -, hname⟩ := List.mem_filterMap.mp hq
    exact ⟨name, hname⟩
  | inherited =>
    rw [Program.linked, hinherited] at hq
    obtain ⟨name, -, hname⟩ := List.mem_filterMap.mp hq
    exact ⟨name, hname⟩

/-- What a resolved program links to is resolved. -/
theorem Resolved.linked (h : p.Resolved) {l : Link} (hq : q ∈ p.linked l) : q.Resolved := by
  cases h with
  | resolve stamp fileName mode hlibrary _ =>
    obtain ⟨name, hname⟩ := exists_library_of_linked hq
    exact hlibrary name q hname

/-- So is all that can be reached from it. -/
theorem Resolved.route (h : p.Resolved) (hroute : Route p path q) : q.Resolved := by
  induction hroute with
  | here => exact h
  | link l hq _ ih => exact ih (h.linked hq)

/-- The end of a text comes after all that is declared in it. -/
theorem definitionsBefore_endless {library : Library} {stamp : Nat} {fileName : Option String}
    {mode : Mode} {text : String} (hlen : text.utf8ByteSize < endless) :
    let p := (resolve library stamp fileName (Forest.parse mode text).nodes).program
    p.root.definitionsBefore endless = p.topLevel := by
  intro p
  rw [Scope.definitionsBefore, List.takeWhile_eq_self_iff.mpr fun x hx =>
    decide_eq_true (Nat.lt_of_le_of_lt (begin_le_of_mem_root hx).1 hlen)]
  rfl

/-- At the very end all definitions of the file are behind one. -/
theorem Resolved.definitionsBefore_endless (h : p.Resolved) :
    p.root.definitionsBefore endless = p.topLevel := by
  cases h with
  | resolve stamp fileName mode _ hlen => exact Program.definitionsBefore_endless hlen

end Program

/-! ## Hidden members -/

namespace Program

/-- The program has a member of the name that inheritors do not see. -/
def Hides (name : String) (p : Program) : Prop :=
  ∃ d ∈ p.topLevel, d.name = name ∧ Visibility.inheritor.admits d = false

/-- Each program that hides the name is part of the file on all routes, or is inherited at the
end of all routes. -/
def Unmixed (name : String) (p : Program) : Prop :=
  ∀ q : Program, q.Hides name → (∀ path, Route p path q → .inherited ∉ path) ∨
    ∀ path, Route p path q → path.getLast? = some .inherited

/-- Programs are told apart by their stamps. -/
def Stamped (p : Program) : Prop :=
  ∀ l path l' path' q q', Route p (path ++ [l]) q → Route p (path' ++ [l']) q' →
    q.stamp = q'.stamp → q = q'

/-! ## The first definition on the way -/

section Free

variable (name : String) (free : Program → Bool)

/-- The members of a name that a program shows. A free one shows the hidden ones, too. -/
def shown (p : Program) : List Definition :=
  p.topLevel.filter fun d => d.name == name && (free p || Visibility.inheritor.admits d)

mutual

/-- What a program or one linked to it shows first. -/
def firstShown : Program → Option Definition
  | .mk stamp fileName scopes included inherited =>
    (shown name free (.mk stamp fileName scopes included inherited)).head?.or
      ((firstShownAny included).or (firstShownAny inherited))

def firstShownAny : List Program → Option Definition
  | [] => none
  | p :: ps => (firstShown p).or (firstShownAny ps)

end

/-- What is shown first is the program's own, then what it includes, then what it inherits. -/
theorem firstShown_eq (p : Program) : firstShown name free p =
    (shown name free p).head?.or
      ((firstShownAny name free p.included).or (firstShownAny name free p.inherited)) := by
  cases p
  rw [firstShown]
  rfl

theorem isSome_firstShownAny {ps : List Program} {p : Program} (hp : p ∈ ps)
    (h : (firstShown name free p).isSome) : (firstShownAny name free ps).isSome := by
  induction ps with
  | nil => exact absurd hp (by simp)
  | cons q ps ih =>
    rw [firstShownAny, Option.isSome_or, Bool.or_eq_true]
    rcases List.mem_cons.mp hp with rfl | hp
    · exact .inl h
    · exact .inr (ih hp)

/-- Something is shown of a name, wherever there is a member of it that inheritors see. -/
theorem isSome_firstShown {p q : Program} {path : List Link} {d : Definition}
    (hroute : Route p path q) (hd : d ∈ q.topLevel) (hv : Visibility.inheritor.admits d) :
    (firstShown d.name free p).isSome := by
  induction hroute with
  | here p =>
    rw [firstShown_eq, Option.isSome_or, Bool.or_eq_true, List.isSome_head?]
    exact .inl (List.ne_nil_of_mem (List.mem_filter.mpr ⟨hd, by simp [hv]⟩))
  | @link p _ _ _ l hl _ ih =>
    have hlinked := isSome_firstShownAny d.name free hl (ih hd)
    rw [firstShown_eq, Option.isSome_or, Option.isSome_or, Bool.or_eq_true, Bool.or_eq_true]
    cases l with
    | included => exact .inr (.inl hlinked)
    | inherited => exact .inr (.inr hlinked)

/-- The programs that show what they hide are those that are part of the file. -/
structure Frees (root : Program) : Prop where
  part : ∀ {q path}, q.Hides name → free q = true → Route root path q → .inherited ∉ path
  apart : ∀ {q path}, q.Hides name → free q = false → Route root path q →
    path.getLast? = some .inherited

variable {name free} {root p q : Program} {path : List Link}

open Classical in
theorem Unmixed.frees (h : root.Unmixed name) : ∃ free, Frees name free root := by
  refine ⟨fun q => decide (∀ path, Route root path q → .inherited ∉ path), ?_, ?_⟩
  · intro q path _ hfree hroute
    exact of_decide_eq_true hfree path hroute
  · intro q path hhides hfree hroute
    exact (h q hhides).resolve_left (of_decide_eq_false hfree) path hroute

/-- All is shown where nothing that is hidden is kept back. -/
theorem shown_of_free (h : q.Hides name → free q = true) :
    shown name free q = q.topLevel.filter (·.name == name) := by
  refine List.filter_congr fun d hd => ?_
  cases hname : d.name == name with
  | false => rfl
  | true =>
    cases hv : Visibility.inheritor.admits d with
    | true => simp
    | false => simp [h ⟨d, hd, beq_iff_eq.mp hname, hv⟩]

/-- Where all that is hidden is kept back the rest is shown. -/
theorem shown_of_not_free (h : q.Hides name → free q = false) : shown name free q =
    q.topLevel.filter fun d => d.name == name && Visibility.inheritor.admits d := by
  refine List.filter_congr fun d hd => ?_
  cases hname : d.name == name with
  | false => rfl
  | true =>
    cases hv : Visibility.inheritor.admits d with
    | true => simp
    | false => simp [h ⟨d, hd, beq_iff_eq.mp hname, hv⟩]

/-- Behind an inherit link only what may be seen is shown. -/
theorem Frees.shown_inherited (h : Frees name free root) (hroute : Route root path q)
    (hpath : .inherited ∈ path) : shown name free q =
      q.topLevel.filter fun d => d.name == name && Visibility.inheritor.admits d := by
  refine shown_of_not_free fun hhides => ?_
  rw [← Bool.not_eq_true]
  exact fun hfree => h.part hhides hfree hroute hpath

/-- Before any inherit link all is shown. -/
theorem Frees.shown_included (h : Frees name free root)
    (hroute : Route root (path ++ [.included]) q) :
    shown name free q = q.topLevel.filter (·.name == name) := by
  refine shown_of_free fun hhides => ?_
  rw [← Bool.not_eq_false]
  exact fun hfree => absurd (h.apart hhides hfree hroute) (by simp)

end Free

/-! ## Lookups -/

/-- The first found is the first of the first that found any. -/
theorem head?_ite {α : Type} (own rest : List α) :
    (if !own.isEmpty then own else rest).head? = own.head?.or rest.head? := by
  cases own <;> rfl

section Lookup

variable {name : String} {free : Program → Bool} {root : Program}

mutual

/-- Through a link that inherits, what is shown first is found. -/
theorem head?_asInherited (hfrees : Frees name free root) : ∀ (p : Program) {path : List Link},
    Route root path p → .inherited ∈ path →
    (asInherited name .inheritor p).head? = firstShown name free p
  | .mk stamp fileName scopes included inherited, path, hroute, hpath => by
    have hincluded : ∀ q ∈ included, ∃ path, Route root path q ∧ .inherited ∈ path :=
      fun q hq => ⟨_, hroute.snoc .included hq, List.mem_append_left _ hpath⟩
    have hinherited : ∀ q ∈ inherited, ∃ path, Route root path q ∧ .inherited ∈ path :=
      fun q hq => ⟨_, hroute.snoc .inherited hq, by simp⟩
    rw [asInherited, head?_ite, head?_ite, firstShown, hfrees.shown_inherited hroute hpath,
      head?_asInheritedAny hfrees included hincluded,
      head?_asInheritedAny hfrees inherited hinherited]
    rfl

theorem head?_asInheritedAny (hfrees : Frees name free root) : ∀ (ps : List Program),
    (∀ q ∈ ps, ∃ path, Route root path q ∧ .inherited ∈ path) →
    (asInheritedAny name .inheritor ps).head? = firstShownAny name free ps
  | [], _ => rfl
  | p :: ps, h => by
    obtain ⟨path, hroute, hpath⟩ := h p List.mem_cons_self
    have hrest := fun q hq => h q (List.mem_cons_of_mem p hq)
    rw [asInheritedAny, head?_ite, head?_asInherited hfrees p hroute hpath,
      head?_asInheritedAny hfrees ps hrest, firstShownAny]

end

mutual

/-- Through links that include, what is shown first is found. -/
theorem head?_asIncluded (hfrees : Frees name free root) (hresolved : root.Resolved) :
    ∀ (p : Program) {path : List Link}, Route root (path ++ [.included]) p →
    (asIncluded name .inheritor p).head? = firstShown name free p
  | .mk stamp fileName scopes included inherited, path, hroute => by
    have hown : (Program.mk stamp fileName scopes [] []).root.definitionsBefore endless = _ :=
      (hresolved.route hroute).definitionsBefore_endless
    have hincluded : ∀ q ∈ included, ∃ path, Route root (path ++ [.included]) q :=
      fun q hq => ⟨_, hroute.snoc .included hq⟩
    have hinherited : ∀ q ∈ inherited, ∃ path, Route root path q ∧ .inherited ∈ path :=
      fun q hq => ⟨_, hroute.snoc .inherited hq, by simp⟩
    rw [asIncluded, head?_ite, head?_ite, firstShown, hfrees.shown_included hroute, hown,
      head?_asIncludedAny hfrees hresolved included hincluded,
      head?_asInheritedAny hfrees inherited hinherited]

theorem head?_asIncludedAny (hfrees : Frees name free root) (hresolved : root.Resolved) :
    ∀ (ps : List Program),
    (∀ q ∈ ps, ∃ path, Route root (path ++ [.included]) q) →
    (asIncludedAny name .inheritor ps).head? = firstShownAny name free ps
  | [], _ => rfl
  | p :: ps, h => by
    obtain ⟨path, hroute⟩ := h p List.mem_cons_self
    have hrest := fun q hq => h q (List.mem_cons_of_mem p hq)
    rw [asIncludedAny, head?_ite, head?_asIncluded hfrees hresolved p hroute,
      head?_asIncludedAny hfrees hresolved ps hrest, firstShownAny]

end

/-- What is found is declared around the place, or shown first of what is linked. -/
theorem head?_identifiers (hfrees : Frees name free root) (hresolved : root.Resolved)
    (id offset : Nat) :
    (root.identifiers name .inheritor id offset).head? =
      (firstFound ((root.scopesFrom id).map (root.ownNamed name offset))).head?.or
        ((firstShownAny name free root.included).or (firstShownAny name free root.inherited)) := by
  have hincluded : ∀ q ∈ root.included, ∃ path, Route root (path ++ [.included]) q :=
    fun q hq => ⟨[], .link .included hq (.here q)⟩
  have hinherited : ∀ q ∈ root.inherited, ∃ path, Route root path q ∧ .inherited ∈ path :=
    fun q hq => ⟨_, .link .inherited hq (.here q), List.mem_cons_self⟩
  simp only [identifiers, head?_ite, head?_asIncludedAny hfrees hresolved _ hincluded,
    head?_asInheritedAny hfrees _ hinherited]

end Lookup

/-! ## The list -/

section See

variable {name : String} {free : Program → Bool} {root p q : Program} {s : Sight}
  {pending : List Program} {path : List Link}

/-- What a program that was visited shows has been seen, unless its visit is not over. -/
def Accounted (name : String) (free : Program → Bool) (root : Program) (pending : List Program)
    (s : Sight) : Prop :=
  ∀ path l q, Route root (path ++ [l]) q → q.stamp ∈ s.visited →
    q ∈ pending ∨ ((firstShown name free q).isSome → (s.find? name).isSome)

/-- A visit begins: what the program shows is taken in. -/
theorem Accounted.enter {l : Link} {ds : List Definition} (h : Accounted name free root pending s)
    (hstamps : root.Stamped) (hroute : Route root (path ++ [l]) p) :
    Accounted name free root (p :: pending)
      (Sight.addAll ⟨s.definitions, p.stamp :: s.visited⟩ ds) := by
  intro path' l' q hq hvisited
  rw [Sight.visited_addAll] at hvisited
  rcases List.mem_cons.mp hvisited with hstamp | hvisited
  · exact .inl (List.mem_cons.mpr (.inl (hstamps _ _ _ _ _ _ hq hroute hstamp)))
  · refine (h path' l' q hq hvisited).imp (List.mem_cons_of_mem _) fun hseen hfirst => ?_
    rw [Sight.find_addAll, Option.isSome_or]
    exact Bool.or_eq_true_iff.mpr (.inl (hseen hfirst))

/-- A visit is over when all that can be seen from the program has been seen. -/
theorem Accounted.leave (h : Accounted name free root (p :: pending) s)
    (hseen : (firstShown name free p).isSome → (s.find? name).isSome) :
    Accounted name free root pending s := by
  intro path l q hq hvisited
  rcases h path l q hq hvisited with hmem | hq
  · rcases List.mem_cons.mp hmem with rfl | hmem
    · exact .inr hseen
    · exact .inl hmem
  · exact .inr hq

/-- To come to a program again shows nothing new. -/
theorem Accounted.again {l : Link} (h : Accounted name free root pending s)
    (hroute : Route root (path ++ [l]) p) (hvisited : p.stamp ∈ s.visited) (hnot : p ∉ pending) :
    (s.find? name).or (firstShown name free p) = s.find? name := by
  have hseen := (h path l p hroute hvisited).resolve_left hnot
  cases hfirst : firstShown name free p with
  | none => exact Option.or_none
  | some d =>
    obtain ⟨e, he⟩ := Option.isSome_iff_exists.mp (hseen (by rw [hfirst]; rfl))
    rw [he]
    rfl

/-- What one program adds to what was seen, if what is seen through its links is known. -/
theorem Accounted.visit {ds : List Definition}
    (hds : ds.find? (·.name == name) = (shown name free p).head?)
    (hlinks : (seeLinks p (Sight.addAll ⟨s.definitions, p.stamp :: s.visited⟩ ds)).find? name =
        ((Sight.addAll ⟨s.definitions, p.stamp :: s.visited⟩ ds).find? name).or
          ((firstShownAny name free p.included).or (firstShownAny name free p.inherited)) ∧
      Accounted name free root (p :: pending)
        (seeLinks p (Sight.addAll ⟨s.definitions, p.stamp :: s.visited⟩ ds))) :
    (seeLinks p (Sight.addAll ⟨s.definitions, p.stamp :: s.visited⟩ ds)).find? name =
        (s.find? name).or (firstShown name free p) ∧
      Accounted name free root pending
        (seeLinks p (Sight.addAll ⟨s.definitions, p.stamp :: s.visited⟩ ds)) := by
  -- the program's own come before those of its links, in the list and in the order shown
  obtain ⟨hlinks, h⟩ := hlinks
  have hfind : (seeLinks p (Sight.addAll ⟨s.definitions, p.stamp :: s.visited⟩ ds)).find? name =
      (s.find? name).or (firstShown name free p) := by
    rw [hlinks, Sight.find_addAll, hds, Option.or_assoc, ← firstShown_eq]
    rfl
  exact ⟨hfind, h.leave fun hfirst => by rw [hfind, Option.isSome_or, hfirst, Bool.or_true]⟩

mutual

/-- Through the links of a program what is shown first is seen. -/
theorem find?_seeLinks (hfrees : Frees name free root) (hstamps : root.Stamped) :
    ∀ (p : Program) {path : List Link} {pending : List Program} {s : Sight},
    Route root path p → (∀ q ∈ pending, sizeOf p ≤ sizeOf q) →
    Accounted name free root pending s →
    (seeLinks p s).find? name = (s.find? name).or
        ((firstShownAny name free p.included).or (firstShownAny name free p.inherited)) ∧
      Accounted name free root pending (seeLinks p s)
  | .mk stamp fileName scopes included inherited, path, pending, s, hroute, hsize, h => by
    -- what is pending is larger, so nothing pending comes again on the way down
    have hincluded : ∀ q ∈ included, (∃ path, Route root (path ++ [.included]) q) ∧
        ∀ a ∈ pending, sizeOf q < sizeOf a := by
      refine fun q hq => ⟨⟨path, hroute.snoc .included hq⟩, fun a ha => ?_⟩
      have := List.sizeOf_lt_of_mem hq
      have := hsize a ha
      simp only [mk.sizeOf_spec] at this
      omega
    have hinherited : ∀ q ∈ inherited, (∃ path, Route root (path ++ [.inherited]) q) ∧
        ∀ a ∈ pending, sizeOf q < sizeOf a := by
      refine fun q hq => ⟨⟨path, hroute.snoc .inherited hq⟩, fun a ha => ?_⟩
      have := List.sizeOf_lt_of_mem hq
      have := hsize a ha
      simp only [mk.sizeOf_spec] at this
      omega
    rw [seeLinks]
    -- first all that is included, then all that is inherited
    obtain ⟨hfind₁, h₁⟩ := find?_seeIncluded hfrees hstamps included hincluded h
    obtain ⟨hfind₂, h₂⟩ := find?_seeInherited hfrees hstamps inherited hinherited h₁
    refine ⟨?_, h₂⟩
    rw [hfind₂, hfind₁, Option.or_assoc]
    rfl

/-- Among the programs included. -/
theorem find?_seeIncluded (hfrees : Frees name free root) (hstamps : root.Stamped) :
    ∀ (ps : List Program) {pending : List Program} {s : Sight},
    (∀ q ∈ ps, (∃ path, Route root (path ++ [.included]) q) ∧ ∀ a ∈ pending, sizeOf q < sizeOf a) →
    Accounted name free root pending s →
    (seeIncluded ps s).find? name = (s.find? name).or (firstShownAny name free ps) ∧
      Accounted name free root pending (seeIncluded ps s)
  | [], pending, s, _, h => by simpa [seeIncluded, firstShownAny] using h
  | p :: ps, pending, s, hps, h => by
    obtain ⟨⟨path, hroute⟩, hsize⟩ := hps p List.mem_cons_self
    have hrest := fun q hq => hps q (List.mem_cons_of_mem p hq)
    rw [seeIncluded, firstShownAny, ← Option.or_assoc]
    split
    · rename_i hvisited
      -- seen before, with all that it shows, so the walk misses nothing by passing it over
      rw [h.again hroute (by simpa using hvisited) fun hmem => Nat.lt_irrefl _ (hsize p hmem)]
      exact find?_seeIncluded hfrees hstamps ps hrest h
    -- included, it shows all
    · have hds : p.topLevel.find? (·.name == name) = (shown name free p).head? := by
        rw [hfrees.shown_included hroute, List.head?_filter]
      have hle : ∀ a ∈ p :: pending, sizeOf p ≤ sizeOf a :=
        List.forall_mem_cons.mpr ⟨Nat.le_refl _, fun a ha => Nat.le_of_lt (hsize a ha)⟩
      obtain ⟨hfind, h₁⟩ := Accounted.visit hds
        (find?_seeLinks hfrees hstamps p hroute hle (h.enter hstamps hroute))
      rw [← hfind]
      exact find?_seeIncluded hfrees hstamps ps hrest h₁

/-- Among the programs inherited, of which only a part is shown. -/
theorem find?_seeInherited (hfrees : Frees name free root) (hstamps : root.Stamped) :
    ∀ (ps : List Program) {pending : List Program} {s : Sight},
    (∀ q ∈ ps, (∃ path, Route root (path ++ [.inherited]) q) ∧ ∀ a ∈ pending, sizeOf q < sizeOf a) →
    Accounted name free root pending s →
    (seeInherited ps s).find? name = (s.find? name).or (firstShownAny name free ps) ∧
      Accounted name free root pending (seeInherited ps s)
  | [], pending, s, _, h => by simpa [seeInherited, firstShownAny] using h
  | p :: ps, pending, s, hps, h => by
    obtain ⟨⟨path, hroute⟩, hsize⟩ := hps p List.mem_cons_self
    have hrest := fun q hq => hps q (List.mem_cons_of_mem p hq)
    rw [seeInherited, firstShownAny, ← Option.or_assoc]
    split
    · rename_i hvisited
      rw [h.again hroute (by simpa using hvisited) fun hmem => Nat.lt_irrefl _ (hsize p hmem)]
      exact find?_seeInherited hfrees hstamps ps hrest h
    -- inherited, it shows what may be seen, which is all of it if it is free
    · have hds : (p.topLevel.filter Visibility.inheritor.admits).find? (·.name == name) =
          (shown name free p).head? := by
        rw [hfrees.shown_inherited hroute (by simp), ← List.head?_filter, List.filter_filter]
      have hle : ∀ a ∈ p :: pending, sizeOf p ≤ sizeOf a :=
        List.forall_mem_cons.mpr ⟨Nat.le_refl _, fun a ha => Nat.le_of_lt (hsize a ha)⟩
      obtain ⟨hfind, h₁⟩ := Accounted.visit hds
        (find?_seeLinks hfrees hstamps p hroute hle (h.enter hstamps hroute))
      rw [← hfind]
      exact find?_seeInherited hfrees hstamps ps hrest h₁

end

end See

/-! ## Both -/

/-- Of what is listed once for each name the first is the only one. -/
theorem filter_eq_toList_find? {name : String} {ds : List Definition}
    (h : ds.Pairwise (·.name ≠ ·.name)) :
    ds.filter (·.name == name) = (ds.find? (·.name == name)).toList := by
  induction h with
  | nil => rfl
  | @cons d ds hd _ ih =>
    by_cases hname : d.name = name
    · subst hname
      have hnone : ds.filter (·.name == d.name) = [] :=
        List.filter_eq_nil_iff.mpr fun e he => by simpa using (hd e he).symm
      simp [hnone]
    · simp [hname, ih]

/-- Of a name, what is declared around the place is seen, or else what is shown first of what is
linked. -/
theorem find?_visibleDefinitions {p : Program} {name : String} {free : Program → Bool}
    (hfrees : Frees name free p) (hstamps : p.Stamped) (offset : Nat) :
    (p.visibleDefinitions offset).find? (·.name == name) =
      (firstFound ((p.scopesFrom (p.scopeAt offset)).map (p.ownNamed name offset))).head?.or
        ((firstShownAny name free p.included).or (firstShownAny name free p.inherited)) := by
  let own := (p.scopesFrom (p.scopeAt offset)).flatMap fun id =>
    (p.scope id).definitionsBefore offset
  -- at the start no program has been seen
  have hstart : Accounted name free p [] (Sight.addAll ⟨[], []⟩ own) := by
    intro path l q _ hvisited
    rw [Sight.visited_addAll] at hvisited
    exact absurd hvisited (by simp)
  obtain ⟨hlinks, -⟩ := find?_seeLinks hfrees hstamps p (.here p) (by simp) hstart
  rw [Sight.find_addAll] at hlinks
  rw [← find_flatMap_scopes]
  exact hlinks

/-- What inheritors see of a linked program is seen, or something else of that name. -/
theorem exists_visible {p q r : Program} {d : Definition} {l : Link} {path : List Link}
    (hstamps : p.Stamped) (hname : p.Unmixed d.name) (hl : q ∈ p.linked l)
    (hroute : Route q path r) (hd : d ∈ r.topLevel) (hv : Visibility.inheritor.admits d)
    (offset : Nat) : ∃ e ∈ p.visibleDefinitions offset, e.name = d.name := by
  obtain ⟨free, hfrees⟩ := hname.frees
  have hlinked := isSome_firstShownAny d.name free hl (isSome_firstShown free hroute hd hv)
  have hseen : ((p.visibleDefinitions offset).find? (·.name == d.name)).isSome := by
    rw [find?_visibleDefinitions hfrees hstamps, Option.isSome_or, Option.isSome_or,
      Bool.or_eq_true, Bool.or_eq_true]
    cases l with
    | included => exact .inr (.inl hlinked)
    | inherited => exact .inr (.inr hlinked)
  obtain ⟨e, he⟩ := Option.isSome_iff_exists.mp hseen
  have hsame := List.find?_some he
  exact ⟨e, List.mem_of_find?_eq_some he, beq_iff_eq.mp hsame⟩

/-- **What can be seen of a name is what is found first**, where no program that hides a member
of the name is both part of the file and apart from it. -/
theorem visible_eq_first {p : Program} {name : String} (hresolved : p.Resolved)
    (hstamps : p.Stamped) (hname : p.Unmixed name) (offset : Nat) :
    (p.visibleDefinitions offset).filter (·.name == name) =
      (p.identifiers name .inheritor (p.scopeAt offset) offset).head?.toList := by
  obtain ⟨free, hfrees⟩ := hname.frees
  rw [head?_identifiers hfrees hresolved, ← find?_visibleDefinitions hfrees hstamps]
  exact filter_eq_toList_find? (p.visibleDefinitions_pairwise offset)

/-! ## Where they agree and where they do not -/

/-- The library with the program of one more file, resolved against the library before. -/
def withFile (library : Library) (stamp : Nat) (name text : String) : Library := fun path =>
  if path = name then
    some (resolve library stamp (some name) (Forest.parse .interpretation text).nodes).program
  else library path

/-- A library with one more file has resolved programs only. -/
theorem resolved_withFile {library : Library} {stamp : Nat} {name text : String}
    (h : ∀ path p, library path = some p → Resolved p) (hlen : text.utf8ByteSize < endless) :
    ∀ path p, withFile library stamp name text path = some p → Resolved p := by
  intro path p hp
  unfold withFile at hp
  split at hp
  · exact Option.some.inj hp ▸ .resolve stamp _ _ h hlen
  · exact h path p hp

/-- The program inherits two files, of which the first hides the member that the second has. -/
def heir : Program :=
  (resolve (withFile (withFile (fun _ => none) 1 "/b" "private int x;") 2 "/c" "int x;") 3
    (some "/a") (Forest.parse .interpretation "inherit \"/b\"; inherit \"/c\";").nodes).program

theorem resolved_heir : heir.Resolved := by
  refine .resolve _ _ _ (resolved_withFile (resolved_withFile (by simp) ?_) ?_) ?_ <;>
    decide +kernel

/-- All that can be reached from it is inherited directly. -/
theorem heir_route {path : List Link} {q : Program} (h : Route heir path q) :
    path = [] ∧ q = heir ∨ path = [.inherited] ∧ q ∈ heir.inherited := by
  have hincluded : heir.included.length = 0 := by decide +kernel
  have hleaves : heir.inherited.all (fun q => q.included.isEmpty && q.inherited.isEmpty) := by
    decide +kernel
  cases h with
  | here => exact .inl ⟨rfl, rfl⟩
  | @link _ r _ path l hr hroute =>
    cases l with
    | included =>
      rw [linked, List.length_eq_zero_iff.mp hincluded] at hr
      exact absurd hr (by simp)
    | inherited =>
      have hr : r ∈ heir.inherited := hr
      obtain ⟨h₁, h₂⟩ := Bool.and_eq_true_iff.mp (List.all_eq_true.mp hleaves r hr)
      cases hroute with
      | here => exact .inr ⟨rfl, hr⟩
      | link k hk =>
        cases k <;> simp_all [linked]

/-- The hidden member of the first file is passed over in both searches. -/
theorem visible_heir :
    (heir.Resolved ∧ heir.Stamped ∧ heir.Unmixed "x") ∧
      (heir.visibleDefinitions 30).filter (·.name == "x") =
        (heir.identifiers "x" .inheritor (heir.scopeAt 30) 30).head?.toList ∧
      (heir.identifiers "x" .inheritor (heir.scopeAt 30) 30).map (·.modifiers) = [[]] := by
  have hstamps : heir.Stamped := by
    have hnodup : (heir.inherited.map stamp).Nodup := by decide +kernel
    intro l path l' path' q q' h h' hstamp
    have hq := (heir_route h).resolve_left (by simp)
    have hq' := (heir_route h').resolve_left (by simp)
    exact List.inj_on_of_nodup_map hnodup hq.2 hq'.2 hstamp
  have hname : heir.Unmixed "x" := by
    have hnone : heir.topLevel = [] := by decide +kernel
    refine fun q hhides => .inr fun path hroute => ?_
    rcases heir_route hroute with ⟨-, rfl⟩ | ⟨rfl, -⟩
    · obtain ⟨d, hd, -⟩ := hhides
      exact absurd (hnone ▸ hd) (by simp)
    · rfl
  exact ⟨⟨resolved_heir, hstamps, hname⟩, visible_eq_first resolved_heir hstamps hname 30,
    by decide +kernel⟩

/-- The program inherits a file, which includes the one with the hidden member. -/
def behindInclude : Program :=
  (resolve (withFile (withFile (fun _ => none) 1 "/h" "private int hidden;") 2 "/b"
    "#include \"/h\"\n") 3 (some "/a") (Forest.parse .interpretation
    "inherit \"/b\";\nvoid f() \x7b \x7d").nodes).program

/-- The program includes a file that inherits another one, and then includes that one, too. -/
def reachedTwice : Program :=
  (resolve (withFile (withFile (fun _ => none) 1 "/p" "private int own;") 2 "/q"
    "inherit \"/p\";") 3 (some "/a") (Forest.parse .interpretation
    "#include \"/q\"\n#include \"/p\"\nvoid f() \x7b \x7d").nodes).program

/-- A member that is hidden behind an include can be seen and is not found, and one that is
inherited before it is included is found and cannot be seen. -/
theorem seen_and_found_differ :
    ((behindInclude.visibleDefinitions 30).filter (·.name == "hidden")).length = 1 ∧
      behindInclude.identifiers "hidden" .inheritor (behindInclude.scopeAt 30) 30 = [] ∧
      (reachedTwice.visibleDefinitions 30).filter (·.name == "own") = [] ∧
      (reachedTwice.identifiers "own" .inheritor (reachedTwice.scopeAt 30) 30).length = 1 := by
  decide +kernel

end Program

end MudEdit
