import MudEdit.Document.Basic
import MudEdit.Table

/-!
# Dependents

The open documents that reach a program through what they link to, directly or through
other programs.
-/

namespace MudEdit

namespace Dependents

/-- The names of programs that were not looked at yet. -/
def unseen (programs : Table Program) (seen : List String) : List String :=
  programs.names.filter (· ∉ seen)

theorem unseen_cons (programs : Table Program) (seen : List String) (name : String) :
    unseen programs (name :: seen) = (unseen programs seen).filter (· ≠ name) := by
  simp only [unseen, List.filter_filter, List.mem_cons, not_or]
  congr 1
  funext x
  simp

theorem unseen_cons_length_le (programs : Table Program) (seen : List String) (name : String) :
    (unseen programs (name :: seen)).length ≤ (unseen programs seen).length := by
  rw [unseen_cons]
  exact List.length_filter_le _ _

theorem unseen_cons_length_lt {programs : Table Program} {seen : List String} {name : String}
    (known : name ∈ programs.names) (fresh : name ∉ seen) :
    (unseen programs (name :: seen)).length < (unseen programs seen).length := by
  rw [unseen_cons, List.length_filter_lt_length_iff_exists]
  exact ⟨name, by simp [unseen, known, fresh], by simp⟩

set_option linter.unusedVariables false in
/-- Whether a program is among pending names or what they link to, where others were seen. -/
def reaches (programs : Table Program) (name : String) (seen pending : List String) : Bool :=
  match pending with
  | [] => false
  | next :: rest =>
    if next = name then true
    else if h : next ∈ seen then reaches programs name seen rest
    else
      match found : programs.find? next with
      | some p => reaches programs name (next :: seen) (p.dependencies ++ rest)
      | none => reaches programs name (next :: seen) rest
termination_by ((unseen programs seen).length, pending.length)
decreasing_by
  · simp [Prod.lex_def]
  · have := unseen_cons_length_lt (Table.mem_names_of_find? found) h
    simp only [Prod.lex_def]
    omega
  · have := unseen_cons_length_le programs seen next
    simp only [Prod.lex_def, List.length_cons]
    omega

end Dependents

/-- The open documents that a change to a program is visible in, sorted. -/
def dependentsOf (documents : Table Document) (programs : Table Program) (name : String) :
    List String :=
  ((documents.filter fun (_, d) =>
    d.name != name && Dependents.reaches programs name [] d.program.dependencies).map
      (·.1)).mergeSort fun a b => !(b < a)

end MudEdit
