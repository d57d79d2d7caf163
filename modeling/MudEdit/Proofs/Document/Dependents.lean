import MudEdit.Document.Dependents
import Mathlib.Logic.Relation

/-!
# The search for dependents

What a search without success leaves behind is closed: with each name that it came to it came
to all that the program of that name depends on. So a document depends on each program that
some chain of programs leads to. A search with success followed such a chain: all names that
wait for their turn are at the end of one. Together the dependents are those documents from
which there is a chain, however the programs depend on each other.
-/

namespace MudEdit

/-- What depends on the paths depends on the name, through programs of the given names. -/
inductive Library.Leads (library : Library) (name : String) : List String → List String → Prop
  | here {paths : List String} : name ∈ paths → Leads library name paths []
  | via {paths names : List String} {next : String} {p : Program} :
      next ∈ paths → next ≠ name → library next = some p →
      Leads library name p.dependencies names → Leads library name paths (next :: names)

/-- The program of one name depends on another name. -/
def Library.Depends (library : Library) (name next : String) : Prop :=
  ∃ p, library name = some p ∧ next ∈ p.dependencies

namespace Dependents

variable {programs : Table Program} {name : String}

/-- A search that fails comes to all that depends on what it came to. -/
theorem closed_of_not_reaches {seen pending : List String}
    (h : reaches programs name seen pending = false) :
    ∃ closed : List String, pending ⊆ closed ∧ seen ⊆ closed ∧ ∀ next ∈ closed, next ∉ seen →
      next ≠ name ∧ ∀ p, programs.find? next = some p → p.dependencies ⊆ closed := by
  fun_induction reaches programs name seen pending with
  | case1 seen => exact ⟨seen, by simp, List.Subset.refl _, fun _ hn hnot => absurd hn hnot⟩
  | case2 seen rest => exact absurd h (by simp)
  -- a program seen before is skipped; a new one adds what it depends on
  | case3 seen next rest _ hseen ih =>
    obtain ⟨closed, hrest, hsub, hclosed⟩ := ih h
    exact ⟨closed, List.cons_subset.mpr ⟨hsub hseen, hrest⟩, hsub, hclosed⟩
  | case4 seen next rest hne hnew p hp ih =>
    obtain ⟨closed, hpending, hsub, hclosed⟩ := ih h
    obtain ⟨hdeps, hrest⟩ := List.append_subset.mp hpending
    obtain ⟨hnext, hseen⟩ := List.cons_subset.mp hsub
    refine ⟨closed, List.cons_subset.mpr ⟨hnext, hrest⟩, hseen, fun other hother hnot => ?_⟩
    -- `next` itself is closed by what it put into `pending`
    by_cases heq : other = next
    · subst heq
      refine ⟨hne, fun q hq => ?_⟩
      obtain rfl := Option.some.inj (hp.symm.trans hq)
      exact hdeps
    · exact hclosed other hother (by simp [heq, hnot])
  | case5 seen next rest hne hnew hp ih =>
    obtain ⟨closed, hrest, hsub, hclosed⟩ := ih h
    obtain ⟨hnext, hseen⟩ := List.cons_subset.mp hsub
    refine ⟨closed, List.cons_subset.mpr ⟨hnext, hrest⟩, hseen, fun other hother hnot => ?_⟩
    by_cases heq : other = next
    · subst heq
      exact ⟨hne, fun q hq => absurd hq (by simp [hp])⟩
    · exact hclosed other hother (by simp [heq, hnot])

/-- What the search finds is at the end of a chain from what waits. -/
theorem chain_of_reaches {seen pending : List String}
    (h : reaches programs name seen pending = true) :
    ∃ first ∈ pending, Relation.ReflTransGen (Library.Depends programs.find?) first name := by
  fun_induction reaches programs name seen pending with
  | case1 seen => exact absurd h (by simp)
  | case2 seen rest => exact ⟨name, List.mem_cons_self, .refl⟩
  | case3 seen next rest _ _ ih =>
    obtain ⟨first, hfirst, hchain⟩ := ih h
    exact ⟨first, List.mem_cons_of_mem _ hfirst, hchain⟩
  | case4 seen next rest _ _ p hp ih =>
    obtain ⟨first, hfirst, hchain⟩ := ih h
    rcases List.mem_append.mp hfirst with hdep | hrest
    · -- the chain of a dependency is longer by one for the name that has it
      exact ⟨next, List.mem_cons_self, .head ⟨p, hp, hdep⟩ hchain⟩
    · exact ⟨first, List.mem_cons_of_mem _ hrest, hchain⟩
  | case5 seen next rest _ _ _ ih =>
    obtain ⟨first, hfirst, hchain⟩ := ih h
    exact ⟨first, List.mem_cons_of_mem _ hfirst, hchain⟩

/-- The search finds what there is a chain to. -/
theorem reaches_of_chain {pending : List String} {first : String} (hfirst : first ∈ pending)
    (h : Relation.ReflTransGen (Library.Depends programs.find?) first name) :
    reaches programs name [] pending = true := by
  rw [← Bool.not_eq_false]
  intro hfails
  obtain ⟨closed, hpending, -, hclosed⟩ := closed_of_not_reaches hfails
  have hnot {next : String} (hn : next ∈ closed) := hclosed next hn (by simp)
  have hmem := hpending hfirst
  clear hfails hclosed hpending hfirst
  induction h using Relation.ReflTransGen.head_induction_on with
  | refl => exact (hnot hmem).1 rfl
  | head hstep _ ih =>
    obtain ⟨p, hp, hdep⟩ := hstep
    exact ih ((hnot hmem).2 p hp hdep)

theorem reaches_iff {pending : List String} :
    reaches programs name [] pending = true ↔
      ∃ first ∈ pending, Relation.ReflTransGen (Library.Depends programs.find?) first name :=
  ⟨chain_of_reaches, fun ⟨_, hfirst, hchain⟩ => reaches_of_chain hfirst hchain⟩

/-- The search finds what programs of given names lead to. -/
theorem reaches_of_leads {pending names : List String}
    (h : Library.Leads programs.find? name pending names) :
    reaches programs name [] pending = true := by
  rw [reaches_iff]
  induction h with
  | here hname => exact ⟨name, hname, .refl⟩
  | via hnext _ hp _ ih =>
    obtain ⟨first, hfirst, hchain⟩ := ih
    exact ⟨_, hnext, .head ⟨_, hp, hfirst⟩ hchain⟩

/-- The search does not leave what is closed. -/
theorem reaches_of_closed {closed seen pending : List String} (hname : name ∉ closed)
    (hclosed : ∀ next ∈ closed, ∀ p ∈ programs.find? next, p.dependencies ⊆ closed)
    (h : pending ⊆ closed) : reaches programs name seen pending = false := by
  fun_induction reaches programs name seen pending with
  | case1 seen => rfl
  | case2 seen rest => exact absurd (h List.mem_cons_self) hname
  | case3 seen next rest _ _ ih => exact ih (List.cons_subset.mp h).2
  | case4 seen next rest _ _ p hp ih =>
    obtain ⟨hnext, hrest⟩ := List.cons_subset.mp h
    exact ih (List.append_subset.mpr ⟨hclosed next hnext p hp, hrest⟩)
  | case5 seen next rest _ _ _ ih => exact ih (List.cons_subset.mp h).2

end Dependents

/-- Documents whose links do not lead to a program are no dependents of it. -/
theorem dependentsOf_eq_nil {documents : Table Document} {programs : Table Program}
    {name : String} {closed : List String} (hname : name ∉ closed)
    (hclosed : ∀ next ∈ closed, ∀ p ∈ programs.find? next, p.dependencies ⊆ closed)
    (hdocuments : ∀ e ∈ documents, e.2.program.dependencies ⊆ closed) :
    dependentsOf documents programs name = [] := by
  refine List.eq_nil_iff_forall_not_mem.mpr fun uri huri => ?_
  obtain ⟨e, he, -⟩ := List.mem_map.mp (List.mem_mergeSort.mp huri)
  obtain ⟨hmem, hleads⟩ := List.mem_filter.mp he
  have hreaches := (Bool.and_eq_true_iff.mp hleads).2
  rw [Dependents.reaches_of_closed hname hclosed (hdocuments e hmem)] at hreaches
  exact Bool.false_ne_true hreaches

/-- A document is a dependent of each program that its links lead to, if it is not that of the
program itself. -/
theorem mem_dependentsOf {documents : Table Document} {programs : Table Program}
    {name uri : String} {d : Document} {names : List String} (hd : documents.find? uri = some d)
    (hne : d.name ≠ name) (h : Library.Leads programs.find? name d.program.dependencies names) :
    uri ∈ dependentsOf documents programs name := by
  have hmem : (uri, d) ∈ documents := by
    obtain ⟨xs, ys, heq, -⟩ := List.lookup_eq_some_iff.mp hd
    rw [heq]
    exact List.mem_append_right _ List.mem_cons_self
  refine List.mem_mergeSort.mpr (List.mem_map.mpr ⟨(uri, d), List.mem_filter.mpr ⟨hmem, ?_⟩, rfl⟩)
  show (d.name != name && Dependents.reaches programs name [] d.program.dependencies) = true
  rw [Dependents.reaches_of_leads h]
  simpa using hne

/-- Where no name has two values, what stands with a name is its value. -/
theorem Table.mem_iff_find? {α : Type} {t : Table α} (h : t.names.Nodup) {name : String}
    {value : α} : (name, value) ∈ t ↔ t.find? name = some value := by
  induction t with
  | nil => simp
  | cons entry t ih =>
    obtain ⟨hnot, hnodup⟩ := List.nodup_cons.mp h
    rw [Table.find?_cons, List.mem_cons, ih hnodup]
    by_cases hname : name = entry.1
    · subst hname
      have hnone : Table.find? t entry.1 ≠ some value := fun hfound =>
        hnot (Table.mem_names_of_find? hfound)
      simp [hnone, Prod.ext_iff, eq_comm]
    · simp [hname, Prod.ext_iff]

/-- Documents of different names that are found are found once and in order. -/
theorem pairwise_dependentsOf {documents : Table Document} {programs : Table Program}
    {name : String} (distinct : documents.names.Nodup) :
    (dependentsOf documents programs name).Pairwise (· < ·) := by
  have hle (a b : String) : (!decide (b < a)) = true ↔ a ≤ b :=
    (Bool.not_eq_true' _).to_iff.trans (decide_eq_false_iff_not.trans String.not_lt)
  have hsorted : (dependentsOf documents programs name).Pairwise fun a b => !(b < a) := by
    refine List.pairwise_mergeSort (fun a b c hab hbc => ?_) (fun a b => ?_) _
    · exact (hle a c).mpr (String.le_trans ((hle a b).mp hab) ((hle b c).mp hbc))
    · exact Bool.or_eq_true_iff.mpr ((String.le_total a b).imp (hle a b).mpr (hle b a).mpr)
  have hnodup : (dependentsOf documents programs name).Nodup :=
    (List.mergeSort_perm _ _).nodup_iff.mpr (List.filter_sublist.map _ |>.nodup distinct)
  exact (hsorted.and hnodup).imp fun {a b} h => Std.lt_of_le_of_ne ((hle a b).mp h.1) h.2

/-- **The dependents of a program are the documents of other programs from which a chain of
programs leads to it**, each once and in order. -/
theorem dependentsOf_exact (documents : Table Document) (programs : Table Program)
    (name : String) (distinct : documents.names.Nodup) :
    (dependentsOf documents programs name).Pairwise (· < ·) ∧
      ∀ uri, uri ∈ dependentsOf documents programs name ↔
        ∃ d, documents.find? uri = some d ∧ d.name ≠ name ∧
          ∃ first ∈ d.program.dependencies,
            Relation.ReflTransGen (Library.Depends programs.find?) first name := by
  refine ⟨pairwise_dependentsOf distinct, fun uri => ?_⟩
  simp only [dependentsOf, List.mem_mergeSort, List.mem_map, List.mem_filter, Bool.and_eq_true,
    bne_iff_ne, Dependents.reaches_iff, Prod.exists, exists_and_right, exists_eq_right,
    Table.mem_iff_find? distinct]

/-- A document of a text, as if nothing that it links to were there. -/
def Document.unlinked (name text : String) : Document :=
  (analyze (fun _ => none) 1 name text none).1

/-- Two documents and two programs; the programs and the second document inherit each other. -/
def cyclicDocuments : Table Document :=
  [("file:///a.c", .unlinked "/a.c" "inherit \"/d\";"),
    ("file:///b.c", .unlinked "/b" "inherit \"/d\";")]

def cyclicPrograms : Table Program :=
  [("/b", (Document.unlinked "/b" "inherit \"/d\";").program),
    ("/d", (Document.unlinked "/d" "inherit \"/b\";").program)]

/-- Only the first document is a dependent of the program of the second one. -/
theorem dependentsOf_exact_cyclic : cyclicDocuments.names.Nodup ∧
    "file:///a.c" ∈ dependentsOf cyclicDocuments cyclicPrograms "/b" ∧
    "file:///b.c" ∉ dependentsOf cyclicDocuments cyclicPrograms "/b" := by
  have hdistinct : cyclicDocuments.names.Nodup := by decide
  obtain ⟨-, hexact⟩ := dependentsOf_exact cyclicDocuments cyclicPrograms "/b" hdistinct
  refine ⟨hdistinct, (hexact _).mpr ?_, fun h => ?_⟩
  · exact ⟨_, rfl, by decide, "/d", by decide +kernel, .single ⟨_, rfl, by decide +kernel⟩⟩
  · obtain ⟨d, hd, hother, -⟩ := (hexact _).mp h
    obtain rfl : _ = d := Option.some.inj hd
    exact hother rfl

end MudEdit
