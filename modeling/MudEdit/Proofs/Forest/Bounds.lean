import MudEdit.Proofs.Forest.Span
import MudEdit.Proofs.Grammar.Height
import MudEdit.Proofs.Grammar.Recursion

/-!
# Trees are shallow

However long a text is and whatever stands in it, its constructs are only so tall, and
reading nests only so deep. The first follows from what a level of the grammar adds. For
the second, every production is given a substitute that is read in its place where the
depth is beyond the limit. What the substitute does makes no difference.
-/

namespace MudEdit

namespace Parse

variable {α : Type} {d limit : Nat}

/-- The production at cursors that are no deeper than the limit, and another one beyond. -/
def upTo (limit : Nat) (p beyond : Parse α) : Parse α := fun c =>
  if c.depth ≤ limit then p c else beyond c

/-- At depths within the limit, what stands beyond it does not matter. -/
theorem Agree.upTo {p q beyond : Parse α} (hd : d ≤ limit) (h : Agree d p q) :
    Agree d (Parse.upTo limit p beyond) q := by
  intro c hc
  have hp : Parse.upTo limit p beyond c = p c := if_pos (hc ▸ hd)
  rw [hp]
  exact h c hc

end Parse

namespace Nested

/-- The productions one level up, with others in their place beyond the limit. -/
def aboveUpTo (limit : Nat) (beyond below : Nested) : Nested where
  statement := Parse.nested .statement ((Parse.statement below).upTo limit beyond.statement)
  member := Parse.nested .declaration ((Parse.member below).upTo limit beyond.member)
  expression := Parse.nested .expression ((Parse.expression below).upTo limit beyond.expression)
  alternative := Parse.nested .expression ((Parse.alternative below).upTo limit beyond.alternative)
  operand loosest :=
    Parse.nested .expression ((Parse.operand below loosest).upTo limit (beyond.operand loosest))
  unary := Parse.nested .expression ((Parse.unary below).upTo limit beyond.unary)
  type := Parse.nested .type ((Parse.type below).upTo limit beyond.type)

/-- So many levels, with other productions in the place of all that is beyond the limit. -/
def levelsUpTo (limit : Nat) (beyond : Nested) : Nat → Nested
  | 0 => .none
  | n + 1 => aboveUpTo limit beyond (levelsUpTo limit beyond n)

theorem Agree.aboveUpTo {d : Nat} {a b : Nested} (beyond : Nested)
    (h : Nested.Agree (d + 1) a b) :
    Nested.Agree d (aboveUpTo maxDepth beyond a) b.above where
  statement := .nested_of_lt _ fun hd => .upTo hd (Parse.statement_agree h)
  member := .nested_of_lt _ fun hd => .upTo hd (Parse.member_agree h)
  expression := .nested_of_lt _ fun hd => .upTo hd (Parse.expression_agree h)
  alternative := .nested_of_lt _ fun hd => .upTo hd (Parse.alternative_agree h)
  operand loosest := .nested_of_lt _ fun hd => .upTo hd (Parse.operand_agree h loosest)
  unary := .nested_of_lt _ fun hd => .upTo hd (Parse.unary_agree h)
  type := .nested_of_lt _ fun hd => .upTo hd (Parse.type_agree h)

theorem none_steady (d : Nat) : Nested.Agree d .none .none :=
  ⟨Parse.refuse_steady _, Parse.refuse_steady _, Parse.refuse_steady _, Parse.refuse_steady _,
    fun _ => Parse.refuse_steady _, Parse.refuse_steady _, Parse.refuse_steady _⟩

/-- No production of a level is read beyond the greatest depth. -/
theorem levelsUpTo_agree (beyond : Nested) (n : Nat) :
    ∀ d, Nested.Agree d (levelsUpTo maxDepth beyond n) (levels n) := by
  induction n with
  | zero => exact none_steady
  | succ n ih => exact fun d => .aboveUpTo beyond (ih (d + 1))

end Nested

/-- The constructs of a file, with other productions in the place of all beyond the limit. -/
def Parse.membersUpTo (limit : Nat) (beyond : Nested) (until_ : TokenKind) : Parse (List Node) :=
  manyUntil (· == until_)
    (guarded ((member (.levelsUpTo limit beyond maxDepth)).upTo limit beyond.member))

/-- No construct of a file is read beyond the greatest depth. -/
theorem Parse.membersUpTo_agree (beyond : Nested) (until_ : TokenKind) :
    Agree 0 (membersUpTo maxDepth beyond until_) (members until_) := by
  have hlevels := Nested.levelsUpTo_agree beyond maxDepth 0
  exact .manyUntil (.guarded (.upTo (Nat.zero_le _) (member_agree hlevels)))

/--
**Trees are shallow**, whatever the text. Each construct is at most so tall, and one taller
than the tallest of its parts. No production is read at a greater depth than `maxDepth`:
whatever were read there instead, the forest would be the same.
-/
theorem parse_shallow (mode : Mode) (text : String) :
    (∀ n ∈ (Forest.parse mode text).subtrees,
      n.height ≤ maxHeight + 8 * (maxDepth + 1) ∧
        (∀ c ∈ n.children, c.height + 1 ≤ n.height) ∧
        (n.children = [] ∧ n.height = 1 ∨ ∃ c ∈ n.children, n.height = c.height + 1)) ∧
      ∀ beyond : Nested, (Forest.parse mode text).nodes =
        (Parse.membersUpTo maxDepth beyond .eof (Reading.start mode text).cursor).1 := by
  refine ⟨fun n hn => ⟨?_, fun c hc => Node.height_lt_of_child hc, ?_⟩, fun beyond => ?_⟩
  · obtain ⟨top, htop, hsub⟩ := List.mem_flatMap.mp hn
    have hlow := Parse.members_low .eof (Reading.start mode text).cursor top htop
    exact Nat.le_trans (Node.height_le_of_mem hsub) (Nat.le_trans hlow (by decide))
  · by_cases hc : n.children = []
    · exact .inl ⟨hc, Node.height_of_leaf hc⟩
    · exact .inr (Node.exists_child_height hc)
  · rw [parse_nodes, (Parse.membersUpTo_agree beyond .eof _ rfl).1]

end MudEdit
