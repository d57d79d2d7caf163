import Mathlib.Data.List.Nodup
import MudEdit.Completion
import MudEdit.Proofs.Program.Name
import MudEdit.Proofs.Text.Runs

/-!
# What completion offers

Away from the name of a member, completion offers what can be seen and the reserved words, both
as far as they start with what is typed. No name is offered twice: of the definitions that can be
seen no two have one name, and none has the name of a reserved word. Where a function returns a
value, the definitions of its type are moved to the front, and nothing else changes places.
-/

namespace MudEdit

open Text (byteSize splitBytes?)

namespace Completion

variable {path : List Node} {offset : Nat} {start : List Char} {program : Program}

/-! ## What is typed -/

/-- What has been typed at an offset of the name that a path leads to. -/
structure Typed (path : List Node) (offset : Nat) (start : List Char) : Prop where
  /-- The part of the name before the offset. -/
  before : ∀ n word, path.getLast? = some n → n.kind = .name word → ∀ head rest,
    word.toList = head ++ rest → byteSize head = offset - n.begin → start = head
  /-- All of a name that no character of it ends at. -/
  whole : ∀ n word, path.getLast? = some n → n.kind = .name word →
    (∀ head rest, word.toList = head ++ rest → byteSize head ≠ offset - n.begin) →
    start = word.toList
  /-- Nothing where there is no name. -/
  nothing : (∀ n word, path.getLast? = some n → n.kind ≠ .name word) → start = []

/-- What `typed` takes of the innermost name is what the user has typed of it. -/
theorem typed_spec (path : List Node) (offset : Nat) : Typed path offset (typed path offset) where
  before n word hlast hk head rest hword hsize := by
    have hsplit : splitBytes? (offset - n.begin) word.toList = some (head, rest) := by
      rw [← hsize, hword, Text.splitBytes?_append]
    simp [typed, hlast, hk, hsplit]
  whole n word hlast hk hno := by
    have hsplit : splitBytes? (offset - n.begin) word.toList = none := by
      cases h : splitBytes? (offset - n.begin) word.toList with
      | none => rfl
      | some cut =>
        obtain ⟨hword, hsize⟩ := Text.of_splitBytes? h
        exact absurd hsize (hno _ _ hword)
    simp [typed, hlast, hk, hsplit]
  nothing hno := by
    unfold typed
    split
    · rename_i n hlast
      split
      · rename_i word hk
        exact absurd hk (hno n word hlast)
      · rfl
    · rfl

/-! ## The order of the definitions -/

/-- A list with those to the front that are wanted, and otherwise as it was. -/
structure Ranks {α : Type} (wanted : α → Bool) (xs ys : List α) : Prop where
  perm : ys.Perm xs
  front : ys.Pairwise fun x y => wanted y = true → wanted x = true
  first : ys.filter wanted = xs.filter wanted
  others : ys.filter (!wanted ·) = xs.filter (!wanted ·)

theorem ranks_partition {α : Type} (wanted : α → Bool) (xs : List α) :
    Ranks wanted xs (xs.filter wanted ++ xs.filter (!wanted ·)) where
  perm := List.filter_append_perm wanted xs
  front := by
    refine List.pairwise_append.mpr ⟨?_, ?_, fun x hx y _ _ => (List.mem_filter.mp hx).2⟩
    · exact List.pairwise_of_forall_mem_list fun x hx _ _ _ => (List.mem_filter.mp hx).2
    · refine List.pairwise_of_forall_mem_list fun _ _ y hy hw => ?_
      have := (List.mem_filter.mp hy).2
      simp [hw] at this
  first := by simp [List.filter_append, List.filter_filter]
  others := by simp [List.filter_append, List.filter_filter]

theorem partition_of_none {α : Type} {wanted : α → Bool} {xs : List α}
    (h : ∀ x ∈ xs, wanted x = false) : xs.filter wanted ++ xs.filter (!wanted ·) = xs := by
  rw [List.filter_eq_nil_iff.mpr fun x hx => by simp [h x hx], List.nil_append]
  exact List.filter_eq_self.mpr fun x hx => by simp [h x hx]

/-- A value is returned on the way to the offset. -/
def Returns (path : List Node) : Prop := ∃ n ∈ path, ∃ value, n.kind = .returnValue value

theorem returned?_of_returns (h : Returns path) :
    returned? program path offset = (program.enclosingFunction? offset).map (·.type) := by
  obtain ⟨n, hn, value, hk⟩ := h
  unfold returned?
  rw [if_pos (List.any_eq_true.mpr ⟨n, hn, by simp [hk]⟩)]

theorem returned?_of_not (h : ¬ Returns path) : returned? program path offset = none := by
  unfold returned?
  rw [if_neg]
  intro hany
  obtain ⟨n, hn, hk⟩ := List.any_eq_true.mp hany
  split at hk
  · rename_i value hvalue
    exact h ⟨n, hn, value, hvalue⟩
  · cases hk

/-! ## The reserved words -/

/-- The reserved words that start so, in the order of the table. -/
def reserved (start : List Char) : List Suggestion :=
  (vocabulary.filter fun (text, _) => startsWith start text).map
    fun (text, kind) => ⟨text, .ofWord kind, none⟩

theorem words_of_unreserved {taken : List String}
    (h : ∀ name ∈ taken, reservedWord? name = none) : words start taken = reserved start := by
  have hfree : ∀ p ∈ vocabulary, taken.contains p.1 = false := by
    intro p hp
    rw [List.contains_eq_mem, decide_eq_false_iff_not]
    intro hmem
    have hnone := List.find?_eq_none.mp (Option.map_eq_none_iff.mp (h p.1 hmem)) p hp
    simp at hnone
  unfold words reserved
  congr 1
  refine List.filter_congr fun p hp => ?_
  show (startsWith start p.1 && !taken.contains p.1) = startsWith start p.1
  rw [hfree p hp, Bool.not_false, Bool.and_true]

theorem nodup_reserved (start : List Char) : ((reserved start).map (·.label)).Nodup := by
  have hwords : (vocabulary.map (·.1)).Nodup := by decide
  have hlabels : (reserved start).map (·.label) =
      (vocabulary.filter fun p => startsWith start p.1).map (·.1) := by
    simp [reserved, Function.comp_def]
  rw [hlabels]
  exact hwords.sublist (List.filter_sublist.map _)

theorem reservedWord?_of_mem_reserved {s : Suggestion} (h : s ∈ reserved start) :
    reservedWord? s.label ≠ none := by
  obtain ⟨p, hp, rfl⟩ := List.mem_map.mp h
  have hmem := (List.mem_filter.mp hp).1
  intro hnone
  have := List.find?_eq_none.mp (Option.map_eq_none_iff.mp hnone) p hmem
  simp at this

/-! ## All that is offered -/

theorem receiver?_eq_none : receiver? path offset = none ↔
    ∀ n ∈ path, ∀ receiver access title,
      n.kind = .member receiver access title → title.contains offset = false := by
  unfold receiver?
  rw [List.findSome?_eq_none_iff]
  constructor
  · intro h n hn receiver access title hk
    have hnone := h n (List.mem_reverse.mpr hn)
    rw [hk] at hnone
    simpa using hnone
  · intro h n hn
    split
    · rename_i receiver access title hk
      rw [h n (List.mem_reverse.mp hn) _ _ _ hk, if_neg (by simp)]
    · rfl

theorem suggestions_of_plain {library : Library} {f : Forest}
    (hplain : ∀ n ∈ pathAt f.nodes offset, ∀ receiver access title,
      n.kind = .member receiver access title → title.contains offset = false) :
    suggestions library f program offset =
      ofScope program (pathAt f.nodes offset) offset (typed (pathAt f.nodes offset) offset) := by
  rw [suggestions, receiver?_eq_none.mpr hplain]

/-- The definitions that are visible at an offset, as far as they start so. -/
def visible (program : Program) (offset : Nat) (start : List Char) : List Definition :=
  (program.visibleDefinitions offset).filter (startsWith start ·.name)

/-- What is offered in a scope, if no visible name is reserved. -/
theorem ofScope_eq (h : ∀ d ∈ program.visibleDefinitions offset, reservedWord? d.name = none) :
    ofScope program path offset start =
      ((visible program offset start).filter (fits program (returned? program path offset)) ++
        (visible program offset start).filter
          (!fits program (returned? program path offset) ·)).map ofDefinition ++
      reserved start := by
  unfold ofScope
  dsimp only
  rw [words_of_unreserved]
  · rfl
  · intro name hname
    simp only [List.map_map, List.mem_map, List.mem_append, List.mem_filter] at hname
    obtain ⟨d, hd, rfl⟩ := hname
    exact h d (hd.elim (·.1.1) (·.1.1))

/-- No name is offered twice. -/
theorem nodup_labels {offered : List Definition} (hunlike : offered.Pairwise (·.name ≠ ·.name))
    (hfree : ∀ d ∈ offered, reservedWord? d.name = none) :
    ((offered.map ofDefinition ++ reserved start).map (·.label)).Nodup := by
  rw [List.map_append, List.nodup_append]
  refine ⟨?_, nodup_reserved start, ?_⟩
  · rw [List.map_map, List.nodup_iff_pairwise_ne, List.pairwise_map]
    exact hunlike
  · intro label hlabel word hword heq
    obtain ⟨s, hs, rfl⟩ := List.mem_map.mp hlabel
    obtain ⟨d, hd, rfl⟩ := List.mem_map.mp hs
    obtain ⟨w, hw, rfl⟩ := List.mem_map.mp hword
    exact reservedWord?_of_mem_reserved hw (heq ▸ hfree d hd)

end Completion

open Completion

/-- **What is offered away from the names of members**: each visible definition and each reserved
word that starts with what is typed, once; in a value that a function returns, the definitions
of its type first. -/
theorem suggestions_ranked (mode : Mode) (text : String) (library : Library) (stamp : Nat)
    (fileName : Option String) (offset : Nat)
    (hlibrary : ∀ path p, library path = some p → p.Resolved)
    (hplain : ∀ n ∈ pathAt (Forest.parse mode text).nodes offset, ∀ receiver access title,
      n.kind = .member receiver access title → title.contains offset = false) :
    let f := Forest.parse mode text
    let program := (resolve library stamp fileName f.nodes).program
    let path := pathAt f.nodes offset
    ∃ (start : List Char) (offered : List Definition), Typed path offset start ∧
      suggestions library f program offset = offered.map ofDefinition ++ reserved start ∧
      ((suggestions library f program offset).map (·.label)).Nodup ∧
      (∀ function, Returns path → program.enclosingFunction? offset = some function →
        Ranks (fun d => function.type.acceptsIn fileName d.valueType)
          (visible program offset start) offered) ∧
      (¬ Returns path ∨ program.enclosingFunction? offset = none →
        offered = visible program offset start) := by
  intro f program path
  -- no definition bears a reserved word's name, so the two lists of labels do not meet
  have hfree : ∀ d ∈ program.visibleDefinitions offset, reservedWord? d.name = none :=
    fun d hd => visible_unreserved stamp fileName hlibrary hd
  have hname : program.fileName = fileName := fileName_resolve ..
  have hoffered : suggestions library f program offset = _ :=
    (suggestions_of_plain hplain).trans (ofScope_eq hfree)
  have hranks := ranks_partition (fits program (returned? program path offset))
    (visible program offset (typed path offset))
  have hunlike : (visible program offset (typed path offset)).Pairwise (·.name ≠ ·.name) :=
    (program.visibleDefinitions_pairwise offset).filter _
  refine ⟨typed path offset, _, typed_spec path offset, hoffered, ?_, ?_, ?_⟩
  · rw [hoffered]
    refine nodup_labels ?_ fun d hd => ?_
    · exact hranks.perm.symm.pairwise hunlike Ne.symm
    · exact hfree d (List.mem_filter.mp (hranks.perm.subset hd)).1
  · intro function hreturns hfunction
    -- the ranking compares with the type of the function around the offset
    have hfits : fits program (returned? program path offset) =
        fun d => function.type.acceptsIn fileName d.valueType := by
      rw [returned?_of_returns hreturns, hfunction, ← hname]
      rfl
    rwa [hfits] at hranks ⊢
  · intro hno
    have hreturned : returned? program path offset = none := by
      by_cases hreturns : Returns path
      · rw [returned?_of_returns hreturns, hno.resolve_left (not_not.mpr hreturns)]
        rfl
      · exact returned?_of_not hreturns
    exact partition_of_none fun d _ => by rw [hreturned]; rfl

/-- In a value that a function returns: the number goes before the text that is declared first. -/
theorem suggestions_ranked_returned :
    let f := Forest.parse .editor "string cat; int call; int f() { return ca; }"
    let program := (resolve (fun _ => none) 0 none f.nodes).program
    (∀ n ∈ pathAt f.nodes 41, ∀ receiver access title,
      n.kind = .member receiver access title → title.contains 41 = false) ∧
    Returns (pathAt f.nodes 41) ∧
    (program.visibleDefinitions 41).map (·.name) = ["cat", "call", "f"] ∧
    (suggestions (fun _ => none) f program 41).map (·.label) = ["call", "cat", "case", "catch"] ∧
    ((suggestions (fun _ => none) f program 41).map (·.label)).Nodup := by
  intro f program
  have hplain := receiver?_eq_none.mp
    (show receiver? (pathAt f.nodes 41) 41 = none by decide +kernel)
  have hreturned : (returned? program (pathAt f.nodes 41) 41).isSome = true := by decide +kernel
  have hreturns : Returns (pathAt f.nodes 41) := by
    by_contra hno
    simp [returned?_of_not hno] at hreturned
  obtain ⟨-, -, -, -, hnodup, -⟩ :=
    suggestions_ranked .editor "string cat; int call; int f() { return ca; }" (fun _ => none) 0
      none 41 (fun _ _ h => nomatch h) hplain
  exact ⟨hplain, hreturns, by decide +kernel, by decide +kernel, hnodup⟩

end MudEdit
