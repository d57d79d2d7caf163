import Mathlib.Data.List.Induction
import MudEdit.Node.Basic

/-!
# Formulas

A formula is a tree of names and binary operators. From left to right, a formula is a first name
and then operators, each with the name behind it. Among the trees with the same operators and
names, the ordered one has tighter operators below looser ones and groups equal ones to the left.
There always is one: an operator that is put behind an ordered formula goes down its right side,
past the operators that bind looser.
-/

namespace MudEdit

/-- Names with binary operators between them. -/
inductive Formula where
  | name (text : String)
  | binary (op : BinaryOp) (lhs rhs : Formula)
  deriving DecidableEq, Repr

/-- The formula that an expression is, if it is made of names and binary operators only. -/
def Node.formula? : Node → Option Formula
  | .mk _ _ (.name text) => some (.name text)
  | .mk _ _ (.binary op lhs rhs) => return .binary op (← lhs.formula?) (← rhs.formula?)
  | _ => none

/-- An operator that is no assignment has a priority. -/
theorem BinaryOp.exists_priority {op : BinaryOp} (h : op.isAssignment = false) :
    ∃ p, op.priority? = some p := by
  cases op <;> first | exact ⟨_, rfl⟩ | exact Bool.noConfusion h

theorem BinaryOp.priority_bounds {op : BinaryOp} {p : Nat} (h : op.priority? = some p) :
    0 < p ∧ p ≤ loosest := by
  revert p
  cases op <;> rintro p ⟨⟩ <;> decide

namespace Formula

variable {f lhs rhs : Formula} {op : BinaryOp} {p : Nat} {text : String}

/-- The name that the formula starts with. -/
def first : Formula → String
  | name text => text
  | binary _ lhs _ => lhs.first

/-- The operators from left to right, each with the name behind it. -/
def rest : Formula → List (BinaryOp × String)
  | name _ => []
  | binary op lhs rhs => lhs.rest ++ (op, rhs.first) :: rhs.rest

/-- All operators have a priority, and it is one of those. -/
def Among (priorities : Nat → Prop) (f : Formula) : Prop :=
  ∀ x ∈ f.rest, ∃ p, x.1.priority? = some p ∧ priorities p

/-- Below each operator, those to the left bind no looser and those to the right bind tighter. -/
inductive Ordered : Formula → Prop
  | name (text : String) : Ordered (name text)
  | binary {op : BinaryOp} {p : Nat} {lhs rhs : Formula} : op.priority? = some p →
      lhs.Ordered → rhs.Ordered → lhs.Among (· ≤ p) → rhs.Among (· < p) →
      Ordered (binary op lhs rhs)

theorem Among.mono {P Q : Nat → Prop} (h : f.Among P) (hPQ : ∀ p, P p → Q p) : f.Among Q :=
  fun x hx => (h x hx).imp fun p => And.imp_right (hPQ p)

theorem among_name {P : Nat → Prop} : (name text).Among P := List.forall_mem_nil _

theorem among_binary {P : Nat → Prop} : (binary op lhs rhs).Among P ↔
    lhs.Among P ∧ (∃ p, op.priority? = some p ∧ P p) ∧ rhs.Among P := by
  rw [Among, rest, List.forall_mem_append, List.forall_mem_cons]
  rfl

theorem Ordered.among (h : f.Ordered) : f.Among (· ≤ BinaryOp.loosest) := by
  induction h with
  | name => exact among_name
  | binary hp _ _ _ _ ihl ihr =>
    exact among_binary.mpr ⟨ihl, ⟨_, hp, (BinaryOp.priority_bounds hp).2⟩, ihr⟩

/-! ## The ordered formula of names and operators -/

/-- The formula with one more operator and the name behind it. -/
def push : Formula → BinaryOp × String → Formula
  | name text, (op, right) => binary op (name text) (name right)
  | binary below lhs rhs, (op, right) =>
    if below.priority?.any fun p => op.priority?.any (· < p) then
      binary below lhs (rhs.push (op, right))
    else binary op (binary below lhs rhs) (name right)

theorem first_push (f : Formula) (x : BinaryOp × String) : (f.push x).first = f.first := by
  cases f with
  | name => rfl
  | binary =>
    rw [push]
    split <;> rfl

theorem rest_push (f : Formula) (x : BinaryOp × String) : (f.push x).rest = f.rest ++ [x] := by
  induction f with
  | name => rfl
  | binary below lhs rhs _ ih =>
    rw [push]
    split
    · rw [rest, ih, first_push, rest, List.append_assoc, List.cons_append]
    · rfl

theorem Ordered.push (h : f.Ordered) (hop : op.priority? = some p) (text : String) :
    (f.push (op, text)).Ordered := by
  induction h with
  | name left => exact .binary hop (.name left) (.name text) among_name among_name
  | @binary below q lhs rhs hbelow hlhs hrhs hleft hright _ ih =>
    rw [Formula.push, hbelow, hop, Option.any_some, Option.any_some]
    split
    · -- it binds tighter than what is above it
      rename_i hlt
      refine .binary hbelow hlhs ih hleft ?_
      rw [Among, rest_push, List.forall_mem_append, List.forall_mem_singleton]
      exact ⟨hright, p, hop, of_decide_eq_true hlt⟩
    · rename_i hnot
      have hle : q ≤ p := Nat.le_of_not_lt fun hlt => hnot (decide_eq_true hlt)
      refine .binary hop (.binary hbelow hlhs hrhs hleft hright) (.name text) ?_ among_name
      exact among_binary.mpr ⟨hleft.mono fun r hr => Nat.le_trans hr hle, ⟨q, hbelow, hle⟩,
        hright.mono fun r hr => Nat.le_trans (Nat.le_of_lt hr) hle⟩

/-- Operators with priorities and the names around them are those of an ordered formula. -/
theorem exists_ordered (text : String) {items : List (BinaryOp × String)}
    (h : ∀ x ∈ items, x.1.isAssignment = false) :
    ∃ f : Formula, f.first = text ∧ f.rest = items ∧ f.Ordered := by
  induction items using List.reverseRecOn with
  | nil => exact ⟨name text, rfl, rfl, .name text⟩
  | append_singleton items x ih =>
    rw [List.forall_mem_append, List.forall_mem_singleton] at h
    obtain ⟨f, hfirst, hrest, hordered⟩ := ih h.1
    obtain ⟨op, right⟩ := x
    obtain ⟨p, hp⟩ := BinaryOp.exists_priority h.2
    exact ⟨f.push (op, right), by rw [first_push, hfirst], by rw [rest_push, hrest],
      hordered.push hp right⟩

/-- Two operators of one priority are grouped to the left. -/
example : (((name "a").push (.sub, "b")).push (.mul, "c")).push (.add, "d") =
    binary .add (binary .sub (name "a") (binary .mul (name "b") (name "c"))) (name "d") := by
  decide

end Formula

end MudEdit
