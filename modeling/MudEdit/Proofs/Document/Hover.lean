import MudEdit.Document.Hover
import MudEdit.Proofs.Program.AtHome

/-!
# Hovering over a declaration

The path to an offset in a declared name ends with the declaration and the name. So what is shown
is what the name stands for around the offset, up to the end of the name, and that is what its home
says. The exceptions are what a statement tries, since the search passes over the scopes of it, and
parameters: their home is the body of the function, which begins behind them, so that they are not
found and something else of that name may be shown.
-/

namespace MudEdit

variable {n title : Node} {word text : String} {offset : Nat} {d : Document}

/-! ## The path to a name -/

/-- The path to an offset in a name ends with what the name is a part of, and the name. -/
theorem pathAt_name (h : (Forest.parse .editor text).holes = [])
    (hn : n ∈ (Forest.parse .editor text).subtrees) (ht : title ∈ n.children)
    (hname : title.kind = .name word) (hoffset : title.Has offset) :
    ∃ above, pathAt (Forest.parse .editor text).nodes offset = above ++ [n, title] := by
  have hlined := parse_lined h hn
  have hnoffset := hoffset.of_subtree hlined (Node.mem_subtrees_child ht)
  obtain ⟨above, hpath⟩ :=
    pathAt_through (parse_parts h).order (parse_nodes_lined h) hn hnoffset
  obtain ⟨-, hmissing, -⟩ := hlined title (Node.mem_subtrees_child ht)
  obtain ⟨-, -, hspaced⟩ := hlined n (Node.mem_subtrees_self n)
  have hleaf : pathAt title.children offset = [] := by
    rw [Node.children, hname]
    exact pathAt_eq_nil.mpr (List.forall_mem_nil _)
  rw [pathAt_of_spaced hspaced ht hmissing hoffset, hleaf] at hpath
  exact ⟨above, hpath⟩

namespace Hover

/-- What is shown of a definition behind a name. -/
def ofDefinition (d : Document) (title : Node) (definition : Definition) : Hover :=
  ⟨markup definition.signature, d.lines.range title.begin title.stop⟩

end Hover

/-- A name that is declared shows what it stands for around it. -/
theorem Document.hover?_of_path {above : List Node}
    (hpath : pathAt d.forest.nodes offset = above ++ [n, title])
    (hname : title.kind = .name word)
    (hn : n.kind.title? = some title ∨ ∃ type, n.kind = .parameter type (some title)) :
    d.hover? offset = ((d.program.identifiers word ⟨true, true⟩ (d.program.scopeAt offset)
      title.stop).head?).map (Hover.ofDefinition d title) := by
  have hlast : Hover.lastName? (above ++ [n, title]).reverse =
      some (title, n :: above.reverse) := by
    rw [List.reverse_append]
    simp [Hover.lastName?, hname]
  -- the name is no member of another object, and does not stand behind `::`
  have haround : Hover.declarations d.program offset title word (n :: above.reverse) =
      d.program.identifiers word ⟨true, true⟩ (d.program.scopeAt offset) title.stop := by
    rw [Hover.declarations, List.head?_cons, Option.map_some]
    rcases hn with hn | ⟨type, hn⟩
    · cases hk : n.kind with
      | scopeChain | member =>
        rw [hk] at hn
        cases hn
      | _ => rfl
    · rw [hn]
  rw [hover?, hpath, hlast]
  show ((title.nameText?).bind fun name => _) = _
  rw [Node.nameText_of_kind hname, Option.bind_some, haround]
  generalize List.head? _ = found
  cases found <;> rfl

/-! ## Declarations -/

section

variable {library : Library} {stamp : Nat} {fileName : Option String}

/-- **Hovering a declared name shows its own declaration** in every file that was read without
holes, whatever it is linked to: the first definition of the name in the one scope that has the
declaration, unless a statement tries what that is in. The search never comes to the scope that
has a parameter, so over its name it shows whatever else the name stands for there, if anything. -/
theorem hover_declared (hparsed : d.forest = .parse .editor d.text)
    (hprogram : d.program = (resolve library stamp fileName d.forest.nodes).program)
    (hholes : d.forest.holes = []) :
    let p := d.program
    (∀ n ∈ d.forest.subtrees, ∀ title word, n.kind.title? = some title →
      title.nameText? = some word → ∀ offset, title.begin ≤ offset → offset < title.stop →
        ∃ id, (∀ i, (n.begin, word) ∈ (p.scope i).titles ↔ i = id) ∧
          (d.forest.Tries (p.scope id).begin (p.scope id).stop ∨
            ∃ first, (p.scope id).definitions.find? (·.name == word) = some first ∧
              d.hover? offset = some (.ofDefinition d title first))) ∧
    ∀ n ∈ d.forest.subtrees, ∀ mods returns name parameters variadic body,
      n.kind = .functionDef mods returns name parameters variadic (some body) →
        ∀ parameter ∈ parameters, ∀ type title word,
          parameter.kind = .parameter type (some title) → title.nameText? = some word →
            ∀ offset, title.begin ≤ offset → offset < title.stop →
              ∃ id, (∀ i, (parameter.begin, word) ∈ (p.scope i).titles ↔ i = id) ∧
                id ∉ p.scopesFrom (p.scopeAt offset) ∧
                d.hover? offset = ((p.identifiers word ⟨true, true⟩ (p.scopeAt offset)
                  title.stop).head?).map (.ofDefinition d title) := by
  intro p
  rw [hparsed] at hprogram hholes ⊢
  -- the scope that has what is declared
  have hhome {x : Nat × String} {m : Node} (hm : m ∈ (Forest.parse .editor d.text).subtrees)
      (hx : x ∈ m.declarations) : ∃ id, ∀ i, x ∈ (p.scope i).titles ↔ i = id := by
    have hmem : x ∈ (Forest.parse .editor d.text).declarations :=
      List.mem_flatMap.mpr ⟨m, hm, hx⟩
    have := exists_mem_titles_iff library stamp fileName .editor d.text hmem
    rwa [← hprogram] at this
  constructor
  · intro n hn title word htitle hword offset hbegin hstop
    have hchild := NodeKind.mem_of_title? htitle
    have hname := (parse_whole hholes
      (Forest.subtrees_subset hn (Node.mem_subtrees_child hchild))).kind_of_nameText hword
    have hdeclares := Node.declaration_of_title htitle hname
    obtain ⟨id, hid⟩ := hhome (x := (n.begin, word)) hn
      (List.mem_append_left _ (by rw [hdeclares]; exact List.mem_cons_self))
    refine ⟨id, hid, ?_⟩
    refine (found_at_home hholes hprogram.symm hn htitle hname ⟨hbegin, hstop⟩
      ((hid id).mpr rfl)).imp_right fun ⟨first, hfirst, hfound⟩ => ⟨first, hfirst, ?_⟩
    obtain ⟨above, hpath⟩ := pathAt_name hholes hn hchild hname ⟨hbegin, hstop⟩
    rw [← hparsed] at hpath
    rw [Document.hover?_of_path hpath hname (.inl htitle), hfound]
    rfl
  · intro n hn mods returns name parameters variadic body hkind
      parameter hparameter type title word hq hword offset hbegin hstop
    have hmem : parameter ∈ n.children := by
      simp [Node.children, hkind, NodeKind.children, hparameter]
    have hqmem := Forest.subtrees_subset hn (Node.mem_subtrees_child hmem)
    have hchild : title ∈ parameter.children := by simp [Node.children, hq, NodeKind.children]
    have hname := (parse_whole hholes
      (Forest.subtrees_subset hqmem (Node.mem_subtrees_child hchild))).kind_of_nameText hword
    have hformal := Node.formal_of_parameter hq hword
    obtain ⟨id, hid⟩ := hhome (x := (parameter.begin, word)) hn (List.mem_append_right _ (by
      rw [Node.formals, hkind]
      exact List.mem_filterMap.mpr ⟨parameter, hparameter, hformal⟩))
    have hin := (parse_whole hholes hqmem).tidy.inside title hchild
    obtain ⟨above, hpath⟩ := pathAt_name hholes hqmem hchild hname ⟨hbegin, hstop⟩
    rw [← hparsed] at hpath
    exact ⟨id, hid, not_around_formal hholes hprogram.symm hqmem hformal ((hid id).mpr rfl)
      (Nat.lt_of_lt_of_le hstop hin.2), Document.hover?_of_path hpath hname (.inr ⟨type, hq⟩)⟩

/-- The inner one of two variables of the same name shows itself. -/
theorem hover_inner_variable :
    let text := "int x; void f() \x7b string x; \x7d"
    let d := (Document.analyze (fun _ => none) 0 "/a.c" text none).1
    d.forest.holes = [] ∧
      d.hover? 25 = some ⟨Hover.markup "string x", d.lines.range 25 26⟩ := by
  intro text d
  have hholes : d.forest.holes = [] := by decide +kernel
  refine ⟨hholes, ?_⟩
  have hthere : d.forest.subtrees.any (fun n => n.begin == 18 && n.kind.title?.any fun title =>
      title.nameText? == some "x" && title.begin == 25 && title.stop == 26) = true := by
    decide +kernel
  obtain ⟨n, hn, hthere⟩ := List.any_eq_true.mp hthere
  obtain ⟨hnbegin, htitle⟩ := Bool.and_eq_true_iff.mp hthere
  obtain ⟨title, htitle, hthere⟩ := (Option.any_eq_true ..).mp htitle
  simp only [Bool.and_eq_true, beq_iff_eq] at hnbegin hthere
  obtain ⟨⟨hword, hbegin⟩, hstop⟩ := hthere
  obtain ⟨id, hid, htries | ⟨first, hfirst, hhover⟩⟩ :=
    (hover_declared (d := d) rfl rfl hholes).1 n hn title "x" htitle hword 25
      (by omega) (by omega)
  · -- no statement of the text tries anything
    have hnone : d.forest.subtrees.all (fun t => !t.kind.steers) = true := by decide +kernel
    obtain ⟨t, ht, body, exception, handler, hk, -⟩ := htries
    have := List.all_eq_true.mp hnone t ht
    rw [hk] at this
    cases this
  · -- the home of the variable is the body of the function
    have hhome : (18, "x") ∈ (d.program.scope 1).titles := by decide +kernel
    obtain rfl : 1 = id := (hid 1).mp (hnbegin ▸ hhome)
    have hsignature : ((d.program.scope 1).definitions.find? (·.name == "x")).map
        Definition.signature = some "string x" := by decide +kernel
    rw [hfirst] at hsignature
    rw [hhover, Hover.ofDefinition, Option.some.inj hsignature, hbegin, hstop]

/-- A parameter does not show itself, but what is outside of the function under its name. -/
theorem hover_shadowed_parameter :
    let text := "int x; void f(string x) \x7b \x7d"
    let d := (Document.analyze (fun _ => none) 0 "/a.c" text none).1
    d.forest.holes = [] ∧ (∃ n ∈ d.forest.subtrees, n.formals = [(14, "x")]) ∧
      (d.program.scope 1).definitions.map (fun e => (e.begin, e.signature)) = [(14, "string x")] ∧
      d.hover? 21 = some ⟨Hover.markup "int x", d.lines.range 21 22⟩ ∧
      d.hover? 21 ≠ some ⟨Hover.markup "string x", d.lines.range 21 22⟩ := by
  intro text d
  have hshown : d.hover? 21 = some ⟨Hover.markup "int x", d.lines.range 21 22⟩ := by
    decide +kernel
  refine ⟨by decide +kernel, by decide +kernel, by decide +kernel, hshown, ?_⟩
  rw [hshown]
  decide +kernel

end

end MudEdit
