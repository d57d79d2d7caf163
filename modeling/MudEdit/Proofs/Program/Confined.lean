import MudEdit.Proofs.Grammar.Content
import MudEdit.Proofs.Program.Declared
import MudEdit.Proofs.Program.Sight
import MudEdit.Proofs.Program.Unclosed

/-!
# Locals do not leak

What a name stands for at a place, and what is visible there, is taken from the scopes around the
place and then from linked programs. A scope around the place is one that the search went into, so
the place is strictly inside the stretch of source that it was opened for, or the scope has no end.
And what a scope has is what belongs to it in the text. So nothing that is declared in a construct
is seen from outside of the construct.
-/

namespace MudEdit

variable {name : String} {v : Visibility} {d : Definition} {offset : Nat} {n m : Node}

/-! ## What linked programs add -/

/-- What is found first is one of those found. -/
theorem mem_of_mem_firstFound {α : Type} {a : α} {xss : List (List α)} (h : a ∈ firstFound xss) :
    ∃ xs ∈ xss, a ∈ xs := by
  induction xss with
  | nil => exact absurd h (by simp [firstFound])
  | cons xs xss ih =>
    rw [firstFound] at h
    split at h
    · obtain ⟨ys, hys, ha⟩ := ih h
      exact ⟨ys, List.mem_cons_of_mem _ hys, ha⟩
    · exact ⟨xs, List.mem_cons_self, h⟩

namespace Program

variable {p q : Program} {s : Sight}

/-- The program without those that it is linked to: what the file itself says. -/
def unlinked : Program → Program
  | .mk stamp fileName scopes _ _ => .mk stamp fileName scopes [] []

mutual

/-- What an inheritor finds of a name has the name, and is offered by the program. -/
theorem offers_asInherited : ∀ p : Program, d ∈ asInherited name v p → d.name = name ∧ p.Offers d
  | .mk stamp fileName scopes included inherited, h => by
    rw [asInherited] at h
    dsimp only at h
    split at h
    · obtain ⟨hd, hname⟩ := List.mem_filter.mp h
      exact ⟨beq_iff_eq.mp (Bool.and_eq_true_iff.mp hname).1, .self hd⟩
    · split at h
      · obtain ⟨hname, q, hq, h⟩ := offers_asInheritedAny included h
        exact ⟨hname, .link (l := .included) hq h⟩
      · obtain ⟨hname, q, hq, h⟩ := offers_asInheritedAny inherited h
        exact ⟨hname, .link (l := .inherited) hq h⟩

/-- Whatever is found in one of several programs has the name and is offered there. -/
theorem offers_asInheritedAny : ∀ ps : List Program, d ∈ asInheritedAny name v ps →
    d.name = name ∧ ∃ q ∈ ps, q.Offers d
  | [], h => absurd h (by simp [asInheritedAny])
  | p :: ps, h => by
    rw [asInheritedAny] at h
    split at h
    · obtain ⟨hname, h⟩ := offers_asInherited p h
      exact ⟨hname, p, List.mem_cons_self, h⟩
    · obtain ⟨hname, q, hq, h⟩ := offers_asInheritedAny ps h
      exact ⟨hname, q, List.mem_cons_of_mem _ hq, h⟩

end

mutual

/-- The same for what an including file finds. -/
theorem offers_asIncluded : ∀ p : Program, d ∈ asIncluded name v p → d.name = name ∧ p.Offers d
  | .mk stamp fileName scopes included inherited, h => by
    rw [asIncluded] at h
    dsimp only at h
    split at h
    · obtain ⟨hd, hname⟩ := List.mem_filter.mp h
      exact ⟨beq_iff_eq.mp hname, .self (Scope.definitionsBefore_subset _ _ hd)⟩
    · split at h
      · obtain ⟨hname, q, hq, h⟩ := offers_asIncludedAny included h
        exact ⟨hname, .link (l := .included) hq h⟩
      · obtain ⟨hname, q, hq, h⟩ := offers_asInheritedAny inherited h
        exact ⟨hname, .link (l := .inherited) hq h⟩

/-- The same for what is included. -/
theorem offers_asIncludedAny : ∀ ps : List Program, d ∈ asIncludedAny name v ps →
    d.name = name ∧ ∃ q ∈ ps, q.Offers d
  | [], h => absurd h (by simp [asIncludedAny])
  | p :: ps, h => by
    rw [asIncludedAny] at h
    split at h
    · obtain ⟨hname, h⟩ := offers_asIncluded p h
      exact ⟨hname, p, List.mem_cons_self, h⟩
    · obtain ⟨hname, q, hq, h⟩ := offers_asIncludedAny ps h
      exact ⟨hname, q, List.mem_cons_of_mem _ hq, h⟩

end

/-! ## What the file itself says -/

theorem scope_unlinked (p : Program) (id : Nat) : p.unlinked.scope id = p.scope id := by
  cases p; rfl

theorem scopesFrom_unlinked (p : Program) (id : Nat) :
    p.unlinked.scopesFrom id = p.scopesFrom id :=
  scopesFrom_congr (scope_unlinked p) id

theorem descend_unlinked (p : Program) (offset fuel id : Nat) :
    p.unlinked.descend offset fuel id = p.descend offset fuel id := by
  induction fuel generalizing id with
  | zero => rfl
  | succ fuel ih =>
    rw [descend, descend]
    simp only [scope_unlinked, ih]

/-- Without its links a program has the same scopes at the same places. -/
theorem scopeAt_unlinked (p : Program) (offset : Nat) :
    p.unlinked.scopeAt offset = p.scopeAt offset := by
  have hsize : p.unlinked.scopes = p.scopes := by cases p; rfl
  rw [scopeAt, scopeAt, hsize, descend_unlinked]

/-- What a file says of a name is what the first of its scopes with the name says. -/
theorem identifiers_unlinked (p : Program) (name : String) (v : Visibility) (id offset : Nat) :
    p.unlinked.identifiers name v id offset =
      firstFound ((p.scopesFrom id).map (p.ownNamed name offset)) := by
  have hlinks : p.unlinked.included = [] ∧ p.unlinked.inherited = [] := by
    cases p
    exact ⟨rfl, rfl⟩
  rw [identifiers, scopesFrom_unlinked, ownNamed_congr (scope_unlinked p), hlinks.1, hlinks.2]
  generalize firstFound _ = own
  cases own <;> rfl

/-- Linked programs are only asked for a name that the file itself does not have. -/
theorem identifiers_eq (p : Program) (name : String) (v : Visibility) (id offset : Nat) :
    ∃ linked, p.identifiers name v id offset =
        p.unlinked.identifiers name v id offset ++ linked ∧
      ∀ d ∈ linked, d.name = name ∧ ∃ l, ∃ q ∈ p.linked l, q.Offers d := by
  rw [identifiers_unlinked, identifiers]
  -- links are only followed if the scopes found nothing
  generalize firstFound _ = own
  cases own with
  | cons d ds => exact ⟨[], (List.append_nil _).symm, by simp⟩
  | nil =>
    show ∃ linked, (if !(asIncludedAny name v p.included).isEmpty then
      asIncludedAny name v p.included else asInheritedAny name v p.inherited) = [] ++ linked ∧ _
    split
    · exact ⟨_, rfl, fun d hd => (offers_asIncludedAny p.included hd).imp_right (⟨.included, ·⟩)⟩
    · exact ⟨_, rfl, fun d hd => (offers_asInheritedAny p.inherited hd).imp_right (⟨.inherited, ·⟩)⟩

/-- Without its links a program shows what its scopes define before the place. -/
theorem visibleDefinitions_unlinked (p : Program) (offset : Nat) :
    p.unlinked.visibleDefinitions offset =
      (Sight.addAll ⟨[], []⟩ ((p.scopesFrom (p.scopeAt offset)).flatMap fun id =>
        (p.scope id).definitionsBefore offset)).definitions := by
  simp only [visibleDefinitions, scopeAt_unlinked, scopesFrom_unlinked, scope_unlinked]
  generalize Sight.addAll _ _ = s
  cases p
  simp [unlinked, seeLinks, seeIncluded, seeInherited]

/-- What is shown are first the program's own and then those of its links. -/
theorem visibleDefinitions_eq (p : Program) (offset : Nat) :
    ∃ linked, p.visibleDefinitions offset = p.unlinked.visibleDefinitions offset ++ linked ∧
      ∀ d ∈ linked, ∃ l, ∃ q ∈ p.linked l, q.Offers d := by
  rw [visibleDefinitions_unlinked]
  exact (gains_seeLinks p _).append

/-- What the file itself says is in the scopes around the place, and declared before it. -/
theorem mem_scopes_of_identifiers {p : Program} {id : Nat}
    (h : d ∈ p.unlinked.identifiers name v id offset) :
    ∃ i ∈ p.scopesFrom id, d ∈ (p.scope i).definitionsBefore offset := by
  rw [identifiers_unlinked] at h
  obtain ⟨_, hxs, hd⟩ := mem_of_mem_firstFound h
  obtain ⟨i, hi, rfl⟩ := List.mem_map.mp hxs
  exact ⟨i, hi, (List.mem_filter.mp hd).1⟩

theorem mem_scopes_of_visible {p : Program} (h : d ∈ p.unlinked.visibleDefinitions offset) :
    ∃ i ∈ p.scopesFrom (p.scopeAt offset), d ∈ (p.scope i).definitionsBefore offset := by
  rw [visibleDefinitions_unlinked] at h
  obtain ⟨new, heq, hnew⟩ := Sight.addAll_append (s := ⟨[], []⟩) (P := (· ∈
    (p.scopesFrom (p.scopeAt offset)).flatMap fun id => (p.scope id).definitionsBefore offset))
    fun d hd => hd
  rw [heq, List.nil_append] at h
  exact List.mem_flatMap.mp (hnew d h)

end Program

/-! ## What belongs to a scope -/

namespace Scope

/-- The definitions in a scope are there under their names, where they begin. -/
theorem Ordered.titles_eq {s : Scope} (ho : s.Ordered) :
    s.titles = s.definitions.map Definition.title := by
  rw [titles, definitions, List.map_filterMap]
  refine List.filterMap_congr fun x hx => ?_
  obtain ⟨at_, i⟩ := x
  cases i with
  | define d =>
    show some (at_, d.name) = some (d.begin, d.name)
    rw [ho.place at_ d hx]
  | includeFile | inheritFile => rfl

end Scope

/-- What belongs to a scope, and the constructs that have it and are around it. -/
def Home.Of (h : Home) (chain : List Node) : Prop :=
  ∃ n around, chain = n :: around ∧ n.core.home.names = h.names

namespace Node

theorem homes_flatMap {ns outside : List Node} (h : ∀ m ∈ ns, List.Forall₂ Home.Of m.homes
    (m.enclosures outside)) : List.Forall₂ Home.Of (ns.flatMap homes)
      (ns.flatMap (enclosures outside)) := by
  induction ns with
  | nil => exact .nil
  | cons m ns ih =>
    obtain ⟨hm, hns⟩ := List.forall_mem_cons.mp h
    exact List.rel_append hm (ih hns)

/-- The scopes of a tree are those of its constructs, one by one. -/
theorem homes_enclosures (hp : ∀ m ∈ n.subtrees, m.Proper) (outside : List Node) :
    List.Forall₂ Home.Of n.homes (n.enclosures outside) := by
  induction n using Node.induct_walked generalizing outside with
  | step n ih =>
    have hwalked (outside : List Node) : ∀ m ∈ n.kind.walked,
        List.Forall₂ Home.Of m.homes (m.enclosures outside) := fun m hm =>
      ih m hm (fun k hk => hp k (subtrees_walked hm hk)) outside
    rw [enclosures_eq]
    cases ho : n.kind.opens with
    | false =>
      -- no scope opens, so all parts are in what was around
      have haround : n.around outside = outside := if_neg (by simp [ho])
      rw [(held_homes_keeps hp ho).2, haround, if_neg Bool.false_ne_true, List.nil_append,
        ← List.flatMap_append, ← n.kind.walked_eq]
      exact homes_flatMap (hwalked outside)
    | true =>
      rw [(held_homes_enters hp ho n.kind.walked_eq).2, if_pos rfl]
      rw [n.kind.walked_eq] at hwalked
      have hhome := (home_core hp ho n.kind.walked_eq).1
      refine List.rel_append (homes_flatMap (List.forall_mem_append.mp (hwalked outside)).1) ?_
      -- the scope that opens is a home, and its construct is around all within
      refine .cons ⟨n, outside, rfl, by rw [hhome]⟩ ?_
      exact homes_flatMap (List.forall_mem_append.mp (hwalked _)).2

end Node

/-! ## The constructs around a place -/

/-- The offset is in a stretch of source: strictly inside, or behind where it begins if that is a
body without its closing brace, which goes to the end of the text. -/
def Node.Covers (mode : Mode) (text : String) (offset : Nat) (n : Node) : Prop :=
  n.begin < offset ∧ (offset < n.stop ∨
    n.isOpen = true ∧ ∀ t ∈ significant mode text, t.stop ≤ n.stop)

/-- A declaration begins before the offset, and it stands at the top of the file or belongs to the
scope of a construct that is around the offset. -/
def Forest.Confines (f : Forest) (around : Node → Prop) (offset : Nat) (x : Nat × String) : Prop :=
  x.1 < offset ∧ (x ∈ f.nodes.flatMap Node.held ∨
    ∃ n ∈ f.subtrees, n.kind.opens = true ∧ x ∈ n.core.home.names ∧ around n)

section Text

variable (mode : Mode) (text : String)

/-- An open body goes to the end of the text. -/
theorem parse_open_last (hm : m ∈ (Forest.parse mode text).subtrees) (ho : m.isOpen = true) :
    ∀ t ∈ significant mode text, t.stop ≤ m.stop := by
  obtain ⟨n, hn, hm⟩ := List.mem_flatMap.mp hm
  have hbraced : Braced (Reading.start mode text).cursor (Forest.parse mode text).nodes []
      (finalReading mode text).cursor := Parse.members_braced .eof
  obtain ⟨-, ht, hend⟩ := parse_reads mode text
  have hin : (Reading.start mode text).cursor.In (significant mode text) := rfl
  intro t hmem
  refine Nat.le_trans ?_ (hbraced.last n hn m hm ho)
  refine Cursor.stop_le_lastStop (significant_spec mode text).1 (hin.takes ht) ?_
  rw [ht.taken]
  exact List.mem_append_left _ (List.mem_reverse.mpr hmem)

/-- What a scope is listed for is a construct of the file. -/
theorem parse_enclosure {around : List Node}
    (hchain : n :: around ∈ (Forest.parse mode text).enclosures) :
    n.kind.opens = true ∧ n ∈ (Forest.parse mode text).subtrees ∧
      ∀ m ∈ n.subtrees, m ∈ (Forest.parse mode text).subtrees ∧ m.Sealed := by
  obtain ⟨top, htop, hchain⟩ := List.mem_flatMap.mp hchain
  have hsettled := (parse_closing mode text).settled top htop
  obtain ⟨m, around', heq, hm⟩ := Node.exists_surrounded hsettled hchain
  obtain ⟨rfl, -⟩ := List.cons.inj heq
  obtain ⟨hin, hopens, -⟩ := hm.parts n List.mem_cons_self
  have hmem : n ∈ (Forest.parse mode text).subtrees := List.mem_flatMap.mpr ⟨top, htop, hin⟩
  exact ⟨hopens, hmem, fun m hm =>
    ⟨Forest.subtrees_subset hmem hm, hsettled.parts m (Node.subtrees_subset hin hm)⟩⟩

/-- What the constructs of a file contain that have a scope, and are around one another. -/
theorem covers_of_enclosures {around : List Node}
    (hchain : n :: around ∈ (Forest.parse mode text).enclosures)
    (hcontains : n.scopeNode.begin < offset ∧ offset < n.scopeNode.reach) :
    n ∈ (Forest.parse mode text).subtrees ∧ n.kind.opens = true ∧
      n.scopeNode.Covers mode text offset := by
  obtain ⟨hopens, hmem, hparts⟩ := parse_enclosure mode text hchain
  refine ⟨hmem, hopens, hcontains.1, ?_⟩
  unfold Node.reach at hcontains
  split at hcontains
  · have hopen := (Node.isUnclosed_iff (hparts n (Node.mem_subtrees_self n)).2 hopens).mp ‹_›
    have hin := (hparts _ n.scopeNode_mem_subtrees).1
    exact .inr ⟨hopen, parse_open_last mode text hin hopen⟩
  · exact .inl hcontains.2

section Resolved

variable (library : Library) (stamp : Nat) (fileName : Option String)

/-- Each scope but that of the file was opened for a construct, and has what belongs to that. -/
theorem resolve_opened {id : Nat} :
    let f := Forest.parse mode text
    let p := (resolve library stamp fileName f.nodes).program
    id < p.scopes.size → 0 < id → ∃ n around, n :: around ∈ f.enclosures ∧
      (p.scope id).titles.Perm n.core.home.names ∧ (p.scope id).span = n.stretch := by
  intro f p hid hpos
  obtain ⟨k, rfl⟩ := Nat.exists_eq_add_one.mpr hpos
  obtain ⟨h, hh, hkeeps⟩ := resolve_keeps_home library stamp fileName mode text hid
  have htraces : p.traces = [(0, endless)] :: f.enclosures.map Node.trace :=
    traces_resolve library stamp fileName f
  have hof : List.Forall₂ Home.Of (f.nodes.flatMap Node.homes) f.enclosures :=
    Node.homes_flatMap fun n hn => Node.homes_enclosures (parse_proper mode text n hn) []
  -- the construct and what belongs to it are at the same place in both lists
  obtain ⟨hk', rfl⟩ := List.getElem?_eq_some_iff.mp hh
  have hk' : k < (f.nodes.flatMap Node.homes).length := Nat.lt_of_succ_lt_succ hk'
  have hk : k < f.enclosures.length := hof.length_eq ▸ hk'
  obtain ⟨n, around, hchain, hnames⟩ := (List.forall₂_iff_get.mp hof).2 k hk' hk
  refine ⟨n, around, hchain ▸ List.get_mem .., hnames ▸ hkeeps.titles, ?_⟩
  have hget := Program.getElem?_traces hid
  rw [htraces, List.getElem?_cons_succ, List.getElem?_map, List.getElem?_eq_getElem hk,
    show f.enclosures[k] = n :: around from hchain, Program.spansFrom_eq] at hget
  exact (List.cons.inj (Option.some.inj hget)).1.symm

/-- The scope of the file has what is declared outside of all constructs with scopes. -/
theorem resolve_root :
    let f := Forest.parse mode text
    let p := (resolve library stamp fileName f.nodes).program
    (p.scope 0).begin = 0 ∧ (p.scope 0).titles.Perm (f.nodes.flatMap Node.held) := by
  intro f p
  obtain ⟨hr, -⟩ := resolve_lone library stamp fileName mode text
  obtain ⟨h, hh, hkeeps⟩ := resolve_keeps_home library stamp fileName mode text hr.pos_scopes
  obtain rfl := Option.some.inj hh
  exact ⟨hkeeps.begin, hkeeps.titles⟩

/-- What a scope declares belongs to it in the text: to the file, or to the construct that the
scope was opened for. -/
theorem resolve_scope {id : Nat} :
    let f := Forest.parse mode text
    let p := (resolve library stamp fileName f.nodes).program
    id < p.scopes.size → ∀ d ∈ (p.scope id).definitions,
      id = 0 ∧ d.title ∈ f.nodes.flatMap Node.held ∨
        0 < id ∧ ∃ n around, n :: around ∈ f.enclosures ∧ d.title ∈ n.core.home.names ∧
          (p.scope id).span = n.stretch := by
  intro f p hid d hd
  -- the titles of a scope are those of its definitions
  have htitle : d.title ∈ (p.scope id).titles := by
    rw [(resolve_ordered library stamp fileName f.nodes id).titles_eq]
    exact List.mem_map_of_mem hd
  rcases Nat.eq_zero_or_pos id with rfl | hpos
  · exact .inl ⟨rfl, (resolve_root mode text library stamp fileName).2.subset htitle⟩
  · obtain ⟨n, around, hchain, hnames, hspan⟩ :=
      resolve_opened mode text library stamp fileName hid hpos
    exact .inr ⟨hpos, n, around, hchain, hnames.subset htitle, hspan⟩

/-- What is declared in a scope around a place is confined to the construct that has the scope. -/
theorem confines_of_scopeAt (offset : Nat) :
    let f := Forest.parse mode text
    let p := (resolve library stamp fileName f.nodes).program
    ∀ id ∈ p.scopesFrom (p.scopeAt offset), ∀ d ∈ (p.scope id).definitionsBefore offset,
      f.Confines (fun n => n.scopeNode.Covers mode text offset) offset d.title := by
  intro f p id hid d hd
  obtain ⟨hr, -⟩ := resolve_lone library stamp fileName mode text
  obtain ⟨hmem, hlt⟩ := (Scope.mem_definitionsBefore
    (resolve_ordered library stamp fileName f.nodes id)).mp hd
  -- a scope that is not there defines nothing
  have hsize : id < p.scopes.size := by
    by_contra hge
    rw [Program.scope_of_size_le (Nat.le_of_not_lt hge)] at hmem
    exact absurd hmem (by simp [Scope.definitions, default, Scope.fresh])
  refine ⟨hlt, ?_⟩
  rcases resolve_scope mode text library stamp fileName hsize d hmem with
    ⟨-, htop⟩ | ⟨hpos, n, around, hchain, hnames, hspan⟩
  · exact .inl htop
  -- a scope around the place contains it, so its construct covers the place
  · have hcon := hr.contains_of_mem_scopeAt hid hpos
    simp only [Scope.contains_iff] at hcon
    obtain ⟨hbegin, hstop⟩ := Prod.mk.inj hspan
    rw [hbegin, hstop] at hcon
    obtain ⟨hin, hopens, hcovers⟩ := covers_of_enclosures mode text hchain hcon
    exact .inr ⟨n, hin, hopens, hnames, hcovers⟩

end Resolved

end Text

/-- **Locals do not leak.** What a name stands for at an offset, and what is visible there, is what
the file itself says, followed by what stands at the top level of programs that its links lead to.
Whatever the file itself says begins before the offset, and stands at the top of the file or belongs
to the scope of a construct that covers the offset. Of a class that is the whole declaration, of a
function its body, to which its parameters belong. -/
theorem resolve_confines (library : Library) (stamp : Nat) (fileName : Option String)
    (mode : Mode) (text : String) (offset : Nat) :
    let f := Forest.parse mode text
    let p := (resolve library stamp fileName f.nodes).program
    let confined (d : Definition) : Prop :=
      f.Confines (fun n => n.scopeNode.Covers mode text offset) offset d.title
    let linked (d : Definition) : Prop := ∃ l, ∃ q ∈ p.linked l, q.Offers d
    (∀ name v, ∃ outside, p.identifiers name v (p.scopeAt offset) offset =
        p.unlinked.identifiers name v (p.scopeAt offset) offset ++ outside ∧
      (∀ d ∈ p.unlinked.identifiers name v (p.scopeAt offset) offset, confined d) ∧
      ∀ d ∈ outside, linked d) ∧
    ∃ outside, p.visibleDefinitions offset = p.unlinked.visibleDefinitions offset ++ outside ∧
      (∀ d ∈ p.unlinked.visibleDefinitions offset, confined d) ∧ ∀ d ∈ outside, linked d := by
  intro f p confined linked
  have hconfined : ∀ id ∈ p.scopesFrom (p.scopeAt offset),
      ∀ d ∈ (p.scope id).definitionsBefore offset, confined d :=
    confines_of_scopeAt mode text library stamp fileName offset
  constructor
  · intro name v
    obtain ⟨outside, heq, houtside⟩ := p.identifiers_eq name v (p.scopeAt offset) offset
    refine ⟨outside, heq, fun d hd => ?_, fun d hd => (houtside d hd).2⟩
    obtain ⟨id, hid, hbefore⟩ := Program.mem_scopes_of_identifiers hd
    exact hconfined id hid d hbefore
  · obtain ⟨outside, heq, houtside⟩ := p.visibleDefinitions_eq offset
    refine ⟨outside, heq, fun d hd => ?_, houtside⟩
    obtain ⟨id, hid, hbefore⟩ := Program.mem_scopes_of_visible hd
    exact hconfined id hid d hbefore

/-! ## Behind the braces of a class -/

/-- Whether the construct is a class. -/
def NodeKind.isClass : NodeKind → Bool
  | classDef _ _ _ => true
  | _ => false

/-- The offset is in what the scope of the construct covers, and if that is a class, then not
behind its last brace. -/
def Node.CoversBody (mode : Mode) (text : String) (offset : Nat) (n : Node) : Prop :=
  n.scopeNode.Covers mode text offset ∧ (n.core.kind.isClass = true → n.isOpen = true ∨
    ∃ t ∈ significant mode text, t.kind = .sign .rightBrace ∧ t.stop ≤ n.stop ∧ offset < t.stop)

/-- The semicolon behind a class is part of its declaration, so up to there the members of the
class are seen, although its braces are closed. -/
theorem seen_behind_braces :
    let text := "class A \x7b int x; \x7d ;"
    let f := Forest.parse .editor text
    let p := (resolve (fun _ => none) 0 (some "/a.c") f.nodes).program
    ∃ d ∈ p.unlinked.identifiers "x" .inheritor (p.scopeAt 19) 19,
      d ∈ p.unlinked.visibleDefinitions 19 ∧
        ¬ f.Confines (Node.CoversBody .editor text 19) 19 d.title := by
  intro text f p
  have hseen : ∃ d ∈ p.unlinked.identifiers "x" .inheritor (p.scopeAt 19) 19,
      d ∈ p.unlinked.visibleDefinitions 19 ∧ d.title = (10, "x") := by decide +kernel
  have htop : (10, "x") ∉ f.nodes.flatMap Node.held := by decide +kernel
  have hclass : ∀ n ∈ f.subtrees, (10, "x") ∈ n.core.home.names →
      n.core.kind.isClass = true ∧ n.isOpen = false := by decide +kernel
  have hbrace : ∀ t ∈ significant .editor text, t.kind = .sign .rightBrace → t.stop ≤ 18 := by
    decide +kernel
  obtain ⟨d, hd, hvisible, htitle⟩ := hseen
  refine ⟨d, hd, hvisible, ?_⟩
  rw [htitle]
  rintro ⟨-, hmem | ⟨n, hn, -, hnames, -, hbody⟩⟩
  · exact htop hmem
  · obtain ⟨hkind, hopen⟩ := hclass n hn hnames
    rcases hbody hkind with ho | ⟨t, ht, hk, -, hlt⟩
    · exact absurd ho (by simp [hopen])
    · have := hbrace t ht hk
      omega

end MudEdit
