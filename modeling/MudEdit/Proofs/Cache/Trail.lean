import MudEdit.Proofs.Cache.Reload
import MudEdit.Proofs.Document.Dependents
import MudEdit.Proofs.Program.Agreement
import MudEdit.Proofs.Program.Confined

/-!
# What a program shows of a file

A program answers with what it finds along its links, so of a file it shows the text of the
program that they lead to. It was linked when it was made, and does not see that a file on the
way is resolved again. After names were loaded into a cache, what leads to a file that had to
be fetched shows the text that the file has now, if the programs on the way were found one
after the other.
-/

namespace MudEdit

variable {library : Library} {name next text : String} {names : List String} {p q : Program}
  {nodes : List Node} {stamp : Nat} {title : Option String}

namespace Program

/-- Links lead from the one program to the other, by programs of these names in turn. -/
inductive Trail : Program → List String → Program → Prop
  | here (p : Program) : Trail p [] p
  | link {p q r : Program} {name : String} {names : List String} (l : Link) :
      q ∈ p.linked l → q.fileName = some name → Trail q names r → Trail p (name :: names) r

/-- By programs of these names, the links of a program lead to the file and nowhere but to a
program of this text. -/
structure Shows (p : Program) (names : List String) (name text : String) : Prop where
  leads : ∃ q, p.Trail (names ++ [name]) q
  isOf : ∀ q, p.Trail (names ++ [name]) q → q.IsOf name text

/-! ### What is answered then -/

/-- The definition stands at the top level of the file when it has this text. -/
def Declares (name text : String) (d : Definition) : Prop :=
  ∃ q : Program, q.IsOf name text ∧ d ∈ q.topLevel

/-- Of all programs that the links lead to, only those at the end of the trail declare the word. -/
def OnlyAt (p : Program) (names : List String) (word : String) : Prop :=
  ∀ l, ∀ q ∈ p.linked l, ∀ path r, Route q path r → ∀ d ∈ r.topLevel, d.name = word →
    p.Trail names r

/--
What the lookups answer with from linked programs is what the text of the file declares. For a word
that no other of these programs declares it is nothing else, and nothing of an earlier text. And
what the text declares is found and seen, if inheritors see it.
-/
structure Tells (p : Program) (names : List String) (name text : String) : Prop
    extends p.Shows names name text where
  identifiers : ∀ {word}, p.OnlyAt (names ++ [name]) word → ∀ v id offset, ∃ linked,
    p.identifiers word v id offset = p.unlinked.identifiers word v id offset ++ linked ∧
      ∀ d ∈ linked, Declares name text d
  superIdentifiers : ∀ {word}, p.OnlyAt (names ++ [name]) word →
    ∀ d ∈ p.superIdentifiers word, Declares name text d
  visible : ∀ {word}, p.OnlyAt (names ++ [name]) word → ∀ offset, ∃ linked,
    p.visibleDefinitions offset = p.unlinked.visibleDefinitions offset ++ linked ∧
      ∀ d ∈ linked, d.name = word → Declares name text d
  found : text.utf8ByteSize < endless → ∀ {q d}, p.Trail (names ++ [name]) q → d ∈ q.topLevel →
    Visibility.inheritor.admits d → ∀ id offset, p.identifiers d.name .inheritor id offset ≠ []
  superFound : ∀ {q d}, p.Trail (names ++ [name]) q → d ∈ q.topLevel →
    Visibility.inheritor.admits d → ∀ r ∈ p.inherited, ∀ path, Route r path q →
      p.superIdentifiers d.name ≠ []
  seen : p.Stamped → ∀ {q d}, p.Trail (names ++ [name]) q → d ∈ q.topLevel →
    Visibility.inheritor.admits d → p.Unmixed d.name →
      ∀ offset, ∃ e ∈ p.visibleDefinitions offset, e.name = d.name

variable {d : Definition} {word : String}

theorem Trail.route (h : p.Trail names q) : ∃ path, Route p path q := by
  induction h with
  | here p => exact ⟨[], .here p⟩
  | link l hl _ _ ih =>
    obtain ⟨path, hroute⟩ := ih
    exact ⟨l :: path, .link l hl hroute⟩

/-- A trail to a file starts with a link. -/
theorem Trail.exists_linked (h : p.Trail (names ++ [name]) q) :
    ∃ l, ∃ r ∈ p.linked l, ∃ path, Route r path q := by
  obtain ⟨path, hroute⟩ := h.route
  cases hroute with
  | here =>
    generalize htrail : names ++ [name] = trail at h
    cases h with
    | here => exact absurd htrail (by simp)
    | link l hl hname htrail => exact ⟨l, _, hl, htrail.route⟩
  | link l hl hroute => exact ⟨l, _, hl, _, hroute⟩

/-- What only the file declares is declared by its text, wherever a linked program offers it. -/
theorem Shows.declares (h : p.Shows names name text) (honly : p.OnlyAt (names ++ [name]) word)
    {l : Link} (hl : q ∈ p.linked l) (hd : q.Offers d) (hword : d.name = word) :
    Declares name text d := by
  obtain ⟨path, r, hroute, hd⟩ := hd
  exact ⟨r, h.isOf r (honly l q hl path r hroute d hd hword), hd⟩

/-- **What a program shows of a file is what its lookups answer with.** -/
theorem Shows.tells (h : p.Shows names name text) : p.Tells names name text where
  toShows := h
  identifiers {word} honly v id offset := by
    -- what is found by name: the program's own, or what a link leads to
    obtain ⟨linked, heq, hlinked⟩ := p.identifiers_eq word v id offset
    refine ⟨linked, heq, fun d hd => ?_⟩
    obtain ⟨hword, l, q, hl, hd⟩ := hlinked d hd
    exact h.declares honly hl hd hword
  superIdentifiers {word} honly d hd := by
    obtain ⟨hword, q, hq, hd⟩ := offers_asInheritedAny p.inherited hd
    exact h.declares honly (l := .inherited) hq hd hword
  visible {word} honly offset := by
    obtain ⟨linked, heq, hlinked⟩ := p.visibleDefinitions_eq offset
    refine ⟨linked, heq, fun d hd hword => ?_⟩
    obtain ⟨l, q, hl, hd⟩ := hlinked d hd
    exact h.declares honly hl hd hword
  found hlen {q d} htrail hd hv id offset := by
    obtain ⟨l, r, hl, path, hroute⟩ := htrail.exists_linked
    obtain ⟨library, stamp, rfl⟩ := h.isOf q htrail
    exact identifiers_ne_nil hl hroute hd (definitionsBefore_endless hlen) hv id offset
  superFound _ hd hv r hr path hroute :=
    asInheritedAny_ne_nil hr (asInherited_ne_nil hroute hd hv)
  seen hstamps {q d} htrail hd hv hword offset := by
    obtain ⟨l, r, hl, path, hroute⟩ := htrail.exists_linked
    exact exists_visible hstamps hword hl hroute hd hv offset

end Program

/-! ## What is linked -/

theorem StandsFor.fileName_eq (h : StandsFor name nodes p) : p.fileName = some name := by
  obtain ⟨library, stamp, rfl⟩ := h
  exact fileName_resolve ..

/-- What is linked to a program is what the library has for the paths that are named. -/
theorem exists_linked_iff : (∃ l, q ∈ (resolve library stamp title nodes).program.linked l) ↔
    ∃ path ∈ linkedPaths nodes, library path = some q := by
  obtain ⟨hincluded, hinherited⟩ := resolve_linked library stamp title nodes
  have hlink : (∃ l, q ∈ (resolve library stamp title nodes).program.linked l) ↔
      q ∈ (includedPaths nodes).filterMap library ∨
        q ∈ (inheritedPaths nodes).filterMap library := by
    rw [← hincluded, ← hinherited]
    constructor
    · rintro ⟨l, hl⟩
      cases l with
      | included => exact .inl hl
      | inherited => exact .inr hl
    · rintro (hl | hl)
      · exact ⟨.included, hl⟩
      · exact ⟨.inherited, hl⟩
  -- links of both kinds are those of either kind
  rw [hlink, ← List.mem_append, ← List.filterMap_append]
  exact List.mem_filterMap

/-- Each program of the library has the name that it is found under. -/
def Library.Named (library : Library) : Prop :=
  ∀ name p, library name = some p → p.fileName = some name

theorem Cache.Backs.named {c : Cache} (h : c.Backs library) : library.Named := by
  intro name p hp
  obtain ⟨s, -, hstands⟩ := h.source hp
  exact hstands.fileName_eq

namespace Library.Named

variable (h : library.Named) (hpath : next ∈ linkedPaths nodes) (hp : library next = some p)
include h hpath hp

/-- A link to a name that the library has leads to the program there. -/
theorem trail_cons : (resolve library stamp title nodes).program.Trail (next :: names) q ↔
    p.Trail names q := by
  constructor
  · rintro (- | ⟨l, hl, hn, htrail⟩)
    obtain ⟨path, -, hother⟩ := exists_linked_iff.mp ⟨l, hl⟩
    obtain rfl := Option.some.inj ((h path _ hother).symm.trans hn)
    obtain rfl := Option.some.inj (hp.symm.trans hother)
    exact htrail
  · intro htrail
    obtain ⟨l, hl⟩ := exists_linked_iff.mpr ⟨next, hpath, hp⟩
    exact .link l hl (h next p hp) htrail

/-- What names a file shows the text of the program that the library has. -/
theorem shows_nil (hof : p.IsOf next text) :
    (resolve library stamp title nodes).program.Shows [] next text := by
  refine ⟨⟨p, (h.trail_cons hpath hp).mpr (.here p)⟩, fun q hq => ?_⟩
  cases (h.trail_cons hpath hp).mp hq with
  | here => exact hof

/-- And what this shows, it shows as well. -/
theorem shows_cons (hshows : p.Shows names name text) :
    (resolve library stamp title nodes).program.Shows (next :: names) name text := by
  obtain ⟨q, hq⟩ := hshows.leads
  exact ⟨⟨q, (h.trail_cons hpath hp).mpr hq⟩,
    fun q hq => hshows.isOf q ((h.trail_cons hpath hp).mp hq)⟩

/-- What names a file shows by the way of it just what the program that the library has shows. -/
theorem shows_cons_iff :
    (resolve library stamp title nodes).program.Shows (next :: names) name text ↔
      p.Shows names name text := by
  refine ⟨fun hshows => ?_, h.shows_cons hpath hp⟩
  obtain ⟨q, hq⟩ := hshows.leads
  exact ⟨⟨q, (h.trail_cons hpath hp).mp hq⟩,
    fun q hq => hshows.isOf q ((h.trail_cons hpath hp).mpr hq)⟩

end Library.Named

/-! ## After names were loaded -/

/-- Names are found in the order of a list. -/
def FoundInTurn (found names : List String) : Prop :=
  names.IsChain fun a b => found.idxOf a < found.idxOf b

/-- What is found after the first place of something is in the rest. -/
theorem mem_of_idxOf_lt {xs ys : List String} (hnew : next ∉ xs)
    (hlt : (xs ++ next :: ys).idxOf next < (xs ++ next :: ys).idxOf name)
    (hname : name ∈ xs ++ next :: ys) : name ∈ ys := by
  rw [List.idxOf_append_of_notMem hnew, List.idxOf_cons_self] at hlt
  rcases List.mem_append.mp hname with hxs | hname
  · rw [List.idxOf_append_of_mem hxs] at hlt
    have := List.idxOf_lt_length_of_mem hxs
    omega
  · refine (List.mem_cons.mp hname).resolve_left fun heq => ?_
    rw [heq, List.idxOf_append_of_notMem hnew, List.idxOf_cons_self] at hlt
    omega

variable {read : String → Option String} {links paths found : List String} {first c : Cache}

/-- The program of a file is resolved again against that of the next file on the way as it is in the
end, if that was found later. -/
theorem Reloaded.relinked_in_turn (h : Reloaded read links first c found) (hfirst : first.Rested)
    (hp : first.library next = some p) (hfound : next ∈ found)
    (hlead : first.library.Leads name p.dependencies names)
    (hturn : FoundInTurn found (next :: names)) : ∃ nodes library stamp,
      c.library next = some (resolve library stamp (some next) nodes).program ∧ c.Backs library ∧
      p.dependencies ⊆ linkedPaths nodes ∧
      (∀ path ∈ p.dependencies, (read path).isSome ∨ (first.source? path).isSome → path ∈ found) ∧
      ∀ other ∈ names.head?, library other = c.library other := by
  obtain ⟨s, hs, hstands⟩ := hfirst.backs.source hp
  obtain ⟨xs, ys, hsplit, hnew⟩ := List.eq_append_cons_of_mem hfound
  obtain ⟨s', library, stamp, hs', hlib, hb, hlater⟩ := h.relinked xs next ys hsplit
  obtain rfl := Option.some.inj ((h.kept next s hs).symm.trans hs')
  have hdeps : p.dependencies ⊆ linkedPaths s.nodes := by
    obtain ⟨older, stamp, rfl⟩ := hstands
    exact dependencies_subset_linkedPaths ..
  have hclosed := h.closed next hfound s hs'
  refine ⟨s.nodes, library, stamp, hlib, hb, hdeps, fun path hpath => hclosed path (hdeps hpath),
    fun other hother => hlater other ?_⟩
  -- what comes next on the way was found later, so it was resolved again before
  cases hlead with
  | here => exact absurd hother (by simp)
  | @via _ _ after p' hmem' _ hp' _ =>
    obtain rfl : after = other := Option.some.inj hother
    obtain ⟨t, ht, -⟩ := hfirst.backs.source hp'
    have hlt : found.idxOf next < found.idxOf after := hturn.rel
    have hafter : after ∈ found := hclosed after (hdeps hmem') (.inr (by rw [ht]; rfl))
    rw [hsplit] at hlt hafter
    exact mem_of_idxOf_lt hnew hlt hafter

section Shows

variable (h : Reloaded read links first c found) (hfirst : first.Rested)
  (hname : first.source? name = none) (hread : read name = some text)
include h hfirst hname hread

/-- **Programs that were found in turn show what was fetched.** -/
theorem Reloaded.shows (hlead : first.library.Leads name paths names)
    (hpaths : ∀ path ∈ paths, (read path).isSome ∨ (first.source? path).isSome → path ∈ found)
    (hturn : FoundInTurn found names) (hsub : paths ⊆ linkedPaths nodes) (hb : c.Backs library)
    (hnext : ∀ next ∈ names.head?, library next = c.library next) :
    (resolve library stamp title nodes).program.Shows names name text := by
  induction hlead generalizing nodes library stamp title with
  | here hmem =>
    have hfound := hpaths name hmem (.inl (by rw [hread]; rfl))
    obtain ⟨s, hs⟩ := Option.isSome_iff_exists.mp (h.sourced name hfound)
    obtain ⟨p, hp, hstands⟩ := hb.sourced name s hs
    -- it was not there before, so it has been read since
    have hnodes : s.nodes = (Forest.parse .interpretation text).nodes := by
      rcases h.fetched name s hs with hold | ⟨now, hnow, hnodes⟩
      · exact absurd hold (by simp [hname])
      · obtain rfl := Option.some.inj (hread.symm.trans hnow)
        exact hnodes
    rw [hnodes] at hstands
    exact hb.named.shows_nil (hsub hmem) hp hstands
  | @via paths names next p hmem hne hp hlead ih =>
    -- the next program on the way was there before, so it is found as well
    have hfound : next ∈ found := by
      obtain ⟨s, hs, -⟩ := hfirst.backs.source hp
      exact hpaths next hmem (.inr (by rw [hs]; rfl))
    -- in turn: it was resolved once more behind all that the way goes on to
    obtain ⟨nodes, library', stamp, hlib, hb', hdeps, hclosed, hlater⟩ :=
      h.relinked_in_turn hfirst hp hfound hlead hturn
    exact hb.named.shows_cons (hsub hmem) ((hnext next rfl).trans hlib)
      (ih hclosed hturn.tail hdeps hb' hlater)

/-- **And so do the programs that stay in the cache**, if they led to the file before. -/
theorem Reloaded.cached_shows (hp : first.library next = some p) (hfound : next ∈ found)
    (hlead : first.library.Leads name p.dependencies names)
    (hturn : FoundInTurn found (next :: names)) :
    ∃ q, c.library next = some q ∧ q.Shows names name text := by
  obtain ⟨nodes, library, stamp, hlib, hb, hdeps, hclosed, hlater⟩ :=
    h.relinked_in_turn hfirst hp hfound hlead hturn
  exact ⟨_, hlib, h.shows hfirst hname hread hlead hclosed hturn.tail hdeps hb hlater⟩

end Shows

end MudEdit
