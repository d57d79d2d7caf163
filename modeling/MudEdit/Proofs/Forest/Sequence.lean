import MudEdit.Diagnostic
import MudEdit.Proofs.Forest.Span
import MudEdit.Proofs.Grammar.Sequenced

/-!
# The order of the diagnostics

The diagnostics of a file are listed as a walk comes by its holes. All productions read in turn, so
the diagnostics begin in order unless a construct lists one of its holes behind a part that was
read after the hole was found, or a type before the name that it follows.
-/

namespace MudEdit

/-- The constructs of a file were read in turn. -/
theorem parse_inTurn (mode : Mode) (text : String) :
    ∃ hi, InTurn 0 hi (Forest.parse mode text).nodes [] :=
  ⟨_, (Parse.members_sequenced .eof _ (start_placed mode text)).2⟩

/-- **Diagnostics begin in order** if and only if no construct of the file puts holes out of order:
none that may have parts after its holes is joined with one that begins before a hole of its parts,
and no variable has a hole in its name that begins before a hole in its type. -/
theorem diagnostics_inOrder_iff (mode : Mode) (text : String) :
    ((Forest.parse mode text).holes.Pairwise (fun g h => g.begin ≤ h.begin) ↔
      ∀ n ∈ (Forest.parse mode text).subtrees, n.disorders = false) ∧
    (((Forest.parse mode text).diagnostics text).Pairwise (fun d e => d.begin ≤ e.begin) ↔
      ∀ n ∈ (Forest.parse mode text).subtrees, n.disorders = false) := by
  obtain ⟨hi, h⟩ := parse_inTurn mode text
  have hholes : (Forest.parse mode text).holes.Pairwise (fun g h => g.begin ≤ h.begin) ↔
      ∀ n ∈ (Forest.parse mode text).subtrees, n.disorders = false := by
    have horderly : ∀ n ∈ (Forest.parse mode text).nodes, ∀ m ∈ n.subtrees, m.Orderly :=
      fun n hn => h.orderly n (List.mem_append_left _ hn)
    rw [Forest.holes, holesOf_inOrder, and_iff_left h.parts, Forest.subtrees,
      List.forall_mem_flatMap]
    exact forall₂_congr fun n hn => Node.holes_inOrder_iff (horderly n hn)
  -- a diagnostic begins where its hole does
  exact ⟨hholes, (List.pairwise_map).trans hholes⟩

/-- The `x` in place of the parenthesis of `if x) { y }` is listed after what is missing behind it,
and so is the name of `let 1 : 2 = 3;` after its type. -/
theorem diagnostics_out_of_order :
    let f := Forest.parse .editor "void f() \x7b if x) \x7b y \x7d \x7d"
    let g := Forest.parse .editor "let 1 : 2 = 3;"
    f.holes.map Node.begin = [15, 20, 14] ∧ g.holes.map Node.begin = [8, 4] ∧
      ¬f.holes.Pairwise (fun g h => g.begin ≤ h.begin) ∧
      ¬g.holes.Pairwise (fun g h => g.begin ≤ h.begin) := by
  intro f g
  have hf : f.holes.map Node.begin = [15, 20, 14] := by decide +kernel
  have hg : g.holes.map Node.begin = [8, 4] := by decide +kernel
  refine ⟨hf, hg, fun h => ?_, fun h => ?_⟩
  · have hsorted : ([15, 20, 14] : List Nat).Pairwise (· ≤ ·) := hf ▸ List.pairwise_map.mpr h
    exact absurd hsorted (by decide)
  · have hsorted : ([8, 4] : List Nat).Pairwise (· ≤ ·) := hg ▸ List.pairwise_map.mpr h
    exact absurd hsorted (by decide)

end MudEdit
