import MudEdit.Program.Lookup

/-!
# What is seen through linked programs

A program is reached from another one through links, each of which includes or inherits. The
same program may be reached by several routes. An included file is part of the file, so a
program is seen from outside only where its route inherits somewhere.

Of all that can be seen the first definition of each name is kept. What is seen through links
comes behind what was seen before, so what is declared around a place is always seen there.
-/

namespace MudEdit

/-- How a program is linked to another one. -/
inductive Link where
  | included
  | inherited
  deriving DecidableEq

namespace Program

/-! ## Routes -/

/-- The programs that are linked to a program in one of the ways. -/
def linked (p : Program) : Link → List Program
  | .included => p.included
  | .inherited => p.inherited

/-- The links lead from the one program to the other, the first link first. -/
inductive Route : Program → List Link → Program → Prop
  | here (p : Program) : Route p [] p
  | link {p q r : Program} {path : List Link} (l : Link) :
      q ∈ p.linked l → Route q path r → Route p (l :: path) r

variable {p q r : Program} {path : List Link} {d : Definition}

/-- A route goes on by one more link. -/
theorem Route.snoc (h : Route p path q) (l : Link) (hr : r ∈ q.linked l) :
    Route p (path ++ [l]) r := by
  induction h with
  | here p => exact .link l hr (.here r)
  | link k hq _ ih => exact .link k hq (ih hr)

/-! ## What is at the top level -/

/-- The definition is at the top level of the program, or of one that its links lead to. -/
def Offers (p : Program) (d : Definition) : Prop := ∃ path q, Route p path q ∧ d ∈ q.topLevel

theorem Offers.self (h : d ∈ p.topLevel) : p.Offers d := ⟨[], p, .here p, h⟩

/-- What a linked program offers is offered. -/
theorem Offers.link {l : Link} (hq : q ∈ p.linked l) (h : q.Offers d) : p.Offers d := by
  obtain ⟨path, r, hroute, hd⟩ := h
  exact ⟨l :: path, r, .link l hq hroute, hd⟩

/-! ## What is offered is found -/

section Lookup

variable {v : Visibility} {ps : List Program}

/-- The one list stands in for the other only if that is empty. -/
theorem orElse_ne_nil {α : Type} {own rest : List α} :
    (if !own.isEmpty then own else rest) ≠ [] ↔ own ≠ [] ∨ rest ≠ [] := by
  cases own <;> simp

/-- It is enough that one of the programs finds any. -/
theorem asInheritedAny_ne_nil (hp : p ∈ ps) (h : asInherited d.name v p ≠ []) :
    asInheritedAny d.name v ps ≠ [] := by
  induction ps with
  | nil => exact absurd hp (by simp)
  | cons q ps ih =>
    rw [asInheritedAny, orElse_ne_nil]
    rcases List.mem_cons.mp hp with rfl | hp
    · exact .inl h
    · exact .inr (ih hp)

/-- An inheritor finds something under the name of a member that it sees, wherever that is. -/
theorem asInherited_ne_nil (hroute : Route p path q) (hd : d ∈ q.topLevel) (hv : v.admits d) :
    asInherited d.name v p ≠ [] := by
  induction hroute with
  | here p =>
    cases p
    rw [asInherited, orElse_ne_nil]
    exact .inl (List.ne_nil_of_mem (List.mem_filter.mpr ⟨hd, by simp [hv]⟩))
  | @link p _ _ _ l hl _ ih =>
    cases p
    rw [asInherited, orElse_ne_nil, orElse_ne_nil]
    -- by either link, what the next program finds is not lost
    have hfound := asInheritedAny_ne_nil hl (ih hd)
    cases l with
    | included => exact .inr (.inl hfound)
    | inherited => exact .inr (.inr hfound)

/-- The same for what is included. -/
theorem asIncludedAny_ne_nil (hp : p ∈ ps) (h : asIncluded d.name v p ≠ []) :
    asIncludedAny d.name v ps ≠ [] := by
  induction ps with
  | nil => exact absurd hp (by simp)
  | cons q ps ih =>
    rw [asIncludedAny, orElse_ne_nil]
    rcases List.mem_cons.mp hp with rfl | hp
    · exact .inl h
    · exact .inr (ih hp)

/-- So does an including file. -/
theorem asIncluded_ne_nil (hroute : Route p path q) (hd : d ∈ q.topLevel)
    (hend : q.root.definitionsBefore endless = q.topLevel) (hv : v.admits d) :
    asIncluded d.name v p ≠ [] := by
  induction hroute with
  | here p =>
    cases p
    rw [asIncluded, orElse_ne_nil]
    refine .inl (List.ne_nil_of_mem (List.mem_filter.mpr ⟨?_, beq_self_eq_true _⟩))
    exact hend ▸ hd
  | @link p r _ _ l hl hroute ih =>
    cases p
    rw [asIncluded, orElse_ne_nil, orElse_ne_nil]
    cases l with
    | included => exact .inr (.inl (asIncludedAny_ne_nil hl (ih hd hend)))
    | inherited => exact .inr (.inr (asInheritedAny_ne_nil hl (asInherited_ne_nil hroute hd hv)))

/-- And so does what is linked to a file that includes or inherits it. -/
theorem identifiers_ne_nil {l : Link} {r : Program} (hl : r ∈ p.linked l) (hroute : Route r path q)
    (hd : d ∈ q.topLevel) (hend : q.root.definitionsBefore endless = q.topLevel)
    (hv : v.admits d) (id offset : Nat) : p.identifiers d.name v id offset ≠ [] := by
  rw [identifiers, orElse_ne_nil, orElse_ne_nil]
  cases l with
  | included => exact .inr (.inl (asIncludedAny_ne_nil hl (asIncluded_ne_nil hroute hd hend hv)))
  | inherited => exact .inr (.inr (asInheritedAny_ne_nil hl (asInherited_ne_nil hroute hd hv)))

end Lookup

/-! ## Definitions kept as they are seen -/

namespace Sight

variable {s : Sight}

/-- The definition of a name that was seen. -/
def find? (s : Sight) (name : String) : Option Definition :=
  s.definitions.find? (·.name == name)

/-- The definition is kept at the end, or its name was seen before. -/
theorem definitions_add (s : Sight) (d : Definition) :
    (s.add d).definitions = s.definitions ∧ (s.find? d.name).isSome ∨
      (s.add d).definitions = s.definitions ++ [d] ∧ s.find? d.name = none := by
  unfold add find?
  split
  · rename_i hany
    exact .inl ⟨rfl, List.find?_isSome.mpr (List.any_eq_true.mp hany)⟩
  · rename_i hnew
    refine .inr ⟨rfl, List.find?_eq_none.mpr fun e he => ?_⟩
    simp only [List.any_eq_true, not_exists, not_and] at hnew
    exact hnew e he

/-- Of the definitions of a name the first one is kept. -/
theorem find_addAll (name : String) (s : Sight) (ds : List Definition) :
    (s.addAll ds).find? name = (s.find? name).or (ds.find? (·.name == name)) := by
  induction ds generalizing s with
  | nil => simp [addAll]
  | cons d ds ih =>
    show ((s.add d).addAll ds).find? _ = _
    rw [ih, List.find?_cons]
    rcases s.definitions_add d with ⟨hsame, hsome⟩ | ⟨hnew, hnone⟩
    · have hfind : (s.add d).find? name = s.find? name := by rw [find?, hsame, find?]
      rw [hfind]
      cases hd : d.name == name with
      | false => rfl
      | true =>
        -- its name is taken
        obtain ⟨e, he⟩ := Option.isSome_iff_exists.mp (beq_iff_eq.mp hd ▸ hsome)
        rw [he]
        rfl
    · have hfind : (s.add d).find? name =
          (s.find? name).or (if d.name == name then some d else none) := by
        rw [find?, hnew, List.find?_append, List.find?_singleton, find?]
      rw [hfind, Option.or_assoc]
      cases d.name == name <;> rfl

@[simp] theorem visited_addAll (s : Sight) (ds : List Definition) :
    (s.addAll ds).visited = s.visited := by
  induction ds generalizing s with
  | nil => rfl
  | cons d ds ih =>
    show ((s.add d).addAll ds).visited = _
    rw [ih, add]
    split <;> rfl

theorem definitions_addAll_congr {s' : Sight} (h : s.definitions = s'.definitions)
    (ds : List Definition) : (s.addAll ds).definitions = (s'.addAll ds).definitions := by
  induction ds generalizing s s' with
  | nil => exact h
  | cons d ds ih =>
    refine ih ?_
    rw [add, add, h]
    split
    · exact h
    · rfl

/-- To add definitions adds some of them behind all that is there. -/
theorem addAll_append {P : Definition → Prop} {ds : List Definition} (h : ∀ d ∈ ds, P d) :
    ∃ new, (s.addAll ds).definitions = s.definitions ++ new ∧ ∀ d ∈ new, P d := by
  induction ds generalizing s with
  | nil => exact ⟨[], (List.append_nil _).symm, by simp⟩
  | cons d ds ih =>
    obtain ⟨hd, hds⟩ := List.forall_mem_cons.mp h
    obtain ⟨new, heq, hnew⟩ := ih (s := s.add d) hds
    have heq : (s.addAll (d :: ds)).definitions = (s.add d).definitions ++ new := heq
    rcases s.definitions_add d with ⟨hsame, -⟩ | ⟨hadd, -⟩
    · exact ⟨new, by rw [heq, hsame], hnew⟩
    · exact ⟨d :: new, by rw [heq, hadd, List.append_assoc]; rfl,
        List.forall_mem_cons.mpr ⟨hd, hnew⟩⟩

/-- What holds of the definitions seen, if it stays so with one more. -/
theorem addAll_keeps {P : List Definition → Prop}
    (hadd : ∀ (s : Sight) (d : Definition), P s.definitions → P (s.add d).definitions)
    (ds : List Definition) (h : P s.definitions) : P (s.addAll ds).definitions := by
  induction ds generalizing s with
  | nil => exact h
  | cons d ds ih => exact ih (hadd s d h)

/-- Definitions, all of a sort, are seen one after the other. -/
def Gains (P : Definition → Prop) (s s' : Sight) : Prop :=
  ∃ ds, s'.definitions = (s.addAll ds).definitions ∧ ∀ d ∈ ds, P d

namespace Gains

variable {P Q : Definition → Prop} {s₁ s' : Sight}

theorem of_eq (h : s'.definitions = s.definitions) : s.Gains P s' := ⟨[], h, by simp⟩

theorem addAll {ds : List Definition} (h : ∀ d ∈ ds, P d) : s.Gains P (s.addAll ds) :=
  ⟨ds, rfl, h⟩

theorem trans (h₁ : s.Gains P s₁) (h₂ : s₁.Gains P s') : s.Gains P s' := by
  obtain ⟨ds₁, heq₁, hds₁⟩ := h₁
  obtain ⟨ds₂, heq₂, hds₂⟩ := h₂
  refine ⟨ds₁ ++ ds₂, ?_, List.forall_mem_append.mpr ⟨hds₁, hds₂⟩⟩
  rw [heq₂, definitions_addAll_congr heq₁, Sight.addAll, Sight.addAll, Sight.addAll,
    List.foldl_append]

theorem mono (h : s.Gains P s') (hPQ : ∀ d, P d → Q d) : s.Gains Q s' := by
  obtain ⟨ds, heq, hds⟩ := h
  exact ⟨ds, heq, fun d hd => hPQ d (hds d hd)⟩

/-- What holds of the definitions seen, if it stays so with one more. -/
theorem keeps {R : List Definition → Prop} (h : s.Gains P s')
    (hadd : ∀ (s : Sight) (d : Definition), R s.definitions → R (s.add d).definitions)
    (hs : R s.definitions) : R s'.definitions := by
  obtain ⟨ds, heq, -⟩ := h
  rw [heq]
  exact addAll_keeps hadd ds hs

/-- What is seen comes behind what was seen before. -/
theorem append (h : s.Gains P s') :
    ∃ new, s'.definitions = s.definitions ++ new ∧ ∀ d ∈ new, P d := by
  obtain ⟨ds, heq, hds⟩ := h
  rw [heq]
  exact addAll_append hds

end Gains

end Sight

/-! ### Through links -/

/-- What is seen of a program and through its links. -/
theorem gains_visit {p : Program} {s : Sight} {ds : List Definition} (ps : List Program)
    (hds : ∀ d ∈ ds, d ∈ p.topLevel)
    (hlinks : ∀ s, Sight.Gains (fun d => ∃ l, ∃ q ∈ p.linked l, q.Offers d) s (seeLinks p s)) :
    s.Gains (fun d => ∃ q ∈ p :: ps, q.Offers d)
      (seeLinks p <| { s with visited := p.stamp :: s.visited }.addAll ds) := by
  have hvisit : s.Gains (fun d => ∃ q ∈ p :: ps, q.Offers d)
      { s with visited := p.stamp :: s.visited } := .of_eq rfl
  have hown := hvisit.trans (.addAll fun d hd => ⟨p, List.mem_cons_self, .self (hds d hd)⟩)
  refine hown.trans ((hlinks _).mono ?_)
  rintro d ⟨l, q, hq, h⟩
  exact ⟨p, List.mem_cons_self, h.link hq⟩

mutual

theorem gains_seeLinks : ∀ (p : Program) (s : Sight),
    s.Gains (fun d => ∃ l, ∃ q ∈ p.linked l, q.Offers d) (seeLinks p s)
  | .mk stamp fileName scopes included inherited, s => by
    rw [seeLinks]
    exact ((gains_seeIncluded included s).mono fun d h => ⟨.included, h⟩).trans
      ((gains_seeInherited inherited _).mono fun d h => ⟨.inherited, h⟩)

theorem gains_seeIncluded : ∀ (ps : List Program) (s : Sight),
    s.Gains (fun d => ∃ q ∈ ps, q.Offers d) (seeIncluded ps s)
  | [], s => .of_eq (by rw [seeIncluded])
  | p :: ps, s => by
    rw [seeIncluded]
    split
    · exact (gains_seeIncluded ps s).mono fun d ⟨q, hq, h⟩ => ⟨q, List.mem_cons_of_mem _ hq, h⟩
    · exact (gains_visit ps (fun _ h => h) (gains_seeLinks p)).trans
        ((gains_seeIncluded ps _).mono fun d ⟨q, hq, h⟩ => ⟨q, List.mem_cons_of_mem _ hq, h⟩)

theorem gains_seeInherited : ∀ (ps : List Program) (s : Sight),
    s.Gains (fun d => ∃ q ∈ ps, q.Offers d) (seeInherited ps s)
  | [], s => .of_eq (by rw [seeInherited])
  | p :: ps, s => by
    rw [seeInherited]
    split
    · exact (gains_seeInherited ps s).mono fun d ⟨q, hq, h⟩ => ⟨q, List.mem_cons_of_mem _ hq, h⟩
    · exact (gains_visit ps (fun _ h => (List.mem_filter.mp h).1) (gains_seeLinks p)).trans
        ((gains_seeInherited ps _).mono fun d ⟨q, hq, h⟩ => ⟨q, List.mem_cons_of_mem _ hq, h⟩)

end

/-- What was seen before stays in front of what is seen through links. -/
theorem prefix_seeLinks (p : Program) (s : Sight) :
    s.definitions <+: (seeLinks p s).definitions := by
  obtain ⟨new, heq, -⟩ := (gains_seeLinks p s).append
  exact heq ▸ List.prefix_append ..

/-- No two definitions that are seen have one name. -/
theorem visibleDefinitions_pairwise (p : Program) (offset : Nat) :
    (p.visibleDefinitions offset).Pairwise (·.name ≠ ·.name) := by
  have hadd : ∀ (s : Sight) (d : Definition), s.definitions.Pairwise (·.name ≠ ·.name) →
      (s.add d).definitions.Pairwise (·.name ≠ ·.name) := by
    intro s d h
    rcases s.definitions_add d with ⟨hsame, -⟩ | ⟨hnew, hnone⟩
    · rwa [hsame]
    · rw [hnew]
      refine List.pairwise_append.mpr ⟨h, List.pairwise_singleton .., fun e he d' hd' => ?_⟩
      obtain rfl := List.mem_singleton.mp hd'
      simpa using List.find?_eq_none.mp hnone e he
  exact (gains_seeLinks p _).keeps hadd (Sight.addAll_keeps hadd _ .nil)

/-- The first scope with a name has the definition of it that is seen. -/
theorem find_flatMap_scopes (p : Program) (name : String) (offset : Nat) (ids : List Nat) :
    (ids.flatMap fun id => (p.scope id).definitionsBefore offset).find? (·.name == name) =
      (firstFound (ids.map (p.ownNamed name offset))).head? := by
  induction ids with
  | nil => rfl
  | cons id ids ih =>
    rw [List.flatMap_cons, List.find?_append, ih, List.map_cons, firstFound, ← List.head?_filter]
    change (p.ownNamed name offset id).head?.or _ = _
    cases p.ownNamed name offset id <;> rfl

/-- A name that is declared around an offset is seen as what it stands for there. -/
theorem mem_visibleDefinitions {p : Program} (name : String) {offset : Nat} {d : Definition}
    (h : (firstFound ((p.scopesFrom (p.scopeAt offset)).map
      (p.ownNamed name offset))).head? = some d) : d ∈ p.visibleDefinitions offset := by
  rw [← find_flatMap_scopes] at h
  have hown := Sight.find_addAll name ⟨[], []⟩
    ((p.scopesFrom (p.scopeAt offset)).flatMap fun id => (p.scope id).definitionsBefore offset)
  rw [h] at hown
  exact (prefix_seeLinks p _).subset (List.mem_of_find?_eq_some hown)

end Program

end MudEdit
