import Mathlib.Data.List.Basic
import MudEdit.Ty

/-!
# Choices that are grouped to the left

Where a type is a choice of several, its text does not say how they are grouped. Grouped to the
left, as reading groups them, the type has the same text, and from the one to the other only
choices are regrouped.
-/

namespace MudEdit

namespace Ty

variable {s t u lhs rhs : Ty} {ts : List Ty} {p q : Ty → Bool} {k : Nat}

/-! ## The parts of a type -/

/-- The types that a type is made of. -/
def parts : Ty → List Ty
  | array element => [element]
  | or lhs rhs => [lhs, rhs]
  | function returns parameters _ => returns :: parameters
  | _ => []

/-- A part of a type is smaller than the type. -/
theorem sizeOf_lt_of_part (h : s ∈ t.parts) : sizeOf s < sizeOf t := by
  cases t with
  | array =>
    obtain rfl := List.mem_singleton.mp h
    rw [array.sizeOf_spec]
    omega
  | or =>
    rw [or.sizeOf_spec]
    rcases List.mem_pair.mp h with rfl | rfl
    · omega
    · omega
  | function returns parameters variadic =>
    rw [function.sizeOf_spec]
    rcases List.mem_cons.mp h with rfl | h
    · omega
    · have := List.sizeOf_lt_of_mem h
      omega
  | basic | this => exact absurd h List.not_mem_nil

/-- What holds of a type whenever it holds of its parts holds of every type. -/
theorem induct {motive : Ty → Prop} (step : ∀ t, (∀ s ∈ t.parts, motive s) → motive t) (t : Ty) :
    motive t := by
  induction ht : sizeOf t using Nat.strongRecOn generalizing t with
  | ind n ih => exact step t fun s hs => ih _ (ht ▸ sizeOf_lt_of_part hs) s rfl

mutual

/-- Whether it is so of the type and of all that it is made of. -/
def all (p : Ty → Bool) : Ty → Bool
  | .basic kind file => p (.basic kind file)
  | .array element => p (.array element) && all p element
  | .or lhs rhs => p (.or lhs rhs) && (all p lhs && all p rhs)
  | .function returns parameters variadic =>
    p (.function returns parameters variadic) && (all p returns && allOf p parameters)
  | .this => p .this

/-- Whether it is so of all the types and of all that they are made of. -/
def allOf (p : Ty → Bool) : List Ty → Bool
  | [] => true
  | t :: ts => all p t && allOf p ts

end

theorem allOf_iff : allOf p ts = true ↔ ∀ t ∈ ts, t.all p = true := by
  induction ts with
  | nil => simp [allOf]
  | cons t ts ih => rw [allOf, Bool.and_eq_true, ih, List.forall_mem_cons]

theorem all_iff : t.all p = true ↔ p t = true ∧ ∀ s ∈ t.parts, s.all p = true := by
  cases t with
  | basic | this => simp [all, parts]
  | array => simp [all, parts]
  | or => simp [all, parts]
  | function => simp [all, parts, allOf_iff]

mutual

/-- How deep types are nested in the type. -/
def height : Ty → Nat
  | .array element => height element + 1
  | .or lhs rhs => max (height lhs) (height rhs) + 1
  | .function returns parameters _ => max (height returns) (heightOf parameters) + 1
  | .basic _ _ | .this => 0

/-- How deep types are nested in the types. -/
def heightOf : List Ty → Nat
  | [] => 0
  | t :: ts => max (height t) (heightOf ts)

end

theorem heightOf_le : heightOf ts ≤ k ↔ ∀ t ∈ ts, t.height ≤ k := by
  induction ts with
  | nil => simp [heightOf]
  | cons t ts ih => rw [heightOf, Nat.max_le, ih, List.forall_mem_cons]

/-- The parts of a type are lower than the type, and that is all its height says. -/
theorem height_le : t.height ≤ k ↔ ∀ s ∈ t.parts, s.height < k := by
  cases t with
  | basic | this => simp [height, parts]
  | array => rw [height, parts, List.forall_mem_singleton]; exact Nat.add_one_le_iff
  | or lhs rhs =>
    rw [height, parts, List.forall_mem_cons, List.forall_mem_singleton, Nat.add_one_le_iff,
      Nat.max_lt]
  | function returns parameters =>
    rw [height, parts, List.forall_mem_cons, Nat.add_one_le_iff]
    cases k with
    | zero => exact ⟨fun h => absurd h (Nat.not_lt_zero _), fun h => absurd h.1 (Nat.not_lt_zero _)⟩
    | succ k => simp only [Nat.lt_succ_iff, Nat.max_le, heightOf_le]

mutual

/-- How deep parentheses are nested in the text of the type. -/
def nesting : Ty → Nat
  | .array element => nesting element + if element.isCompound then 1 else 0
  | .or lhs rhs => max (nesting lhs) (nesting rhs)
  | .function returns parameters _ => max (nesting returns) (nestingOf parameters)
  | .basic _ _ | .this => 0

/-- How deep parentheses are nested where the types are parameters. -/
def nestingOf : List Ty → Nat
  | [] => 0
  | t :: ts => max (nesting t + 1) (nestingOf ts)

end

theorem nestingOf_le : nestingOf ts ≤ k ↔ ∀ t ∈ ts, t.nesting + 1 ≤ k := by
  induction ts with
  | nil => simp [nestingOf]
  | cons t ts ih => rw [nestingOf, Nat.max_le, ih, List.forall_mem_cons]

/-- Brackets are nested no deeper than the type is high. -/
theorem nesting_le_height (t : Ty) : t.nesting ≤ t.height := by
  induction t using induct with
  | step t ih =>
    cases t with
    | array element =>
      have := ih element List.mem_cons_self
      rw [nesting, height]
      split <;> omega
    | or lhs rhs =>
      have := ih lhs List.mem_cons_self
      have := ih rhs (List.mem_cons_of_mem _ List.mem_cons_self)
      rw [nesting, height]
      omega
    | function returns parameters variadic =>
      have := ih returns List.mem_cons_self
      -- a parameter's brackets count one more than its own, like its height
      have hle : nestingOf parameters ≤ heightOf parameters + 1 := nestingOf_le.mpr fun t ht =>
        Nat.succ_le_succ (Nat.le_trans (ih t (List.mem_cons_of_mem _ ht))
          (heightOf_le.mp (Nat.le_refl _) t ht))
      rw [nesting, height]
      omega
    | basic | this => exact Nat.le_refl _

/-! ## Grouping to the left -/

def isOr : Ty → Bool
  | or _ _ => true
  | _ => false

/-- The choice between a type and what another one is a choice between, grouped to the left. -/
def join (lhs : Ty) : Ty → Ty
  | or mid rhs => or (join lhs mid) rhs
  | rhs => or lhs rhs

mutual

/-- The type with its choices grouped to the left. -/
def grouped : Ty → Ty
  | .array element => .array (grouped element)
  | .or lhs rhs => (grouped lhs).join (grouped rhs)
  | .function returns parameters variadic =>
    .function (grouped returns) (groupedOf parameters) variadic
  | .basic kind file => .basic kind file
  | .this => .this

/-- The types with their choices grouped to the left. -/
def groupedOf : List Ty → List Ty
  | [] => []
  | t :: ts => grouped t :: groupedOf ts

end

theorem groupedOf_eq (ts : List Ty) : groupedOf ts = ts.map grouped := by
  induction ts with
  | nil => rfl
  | cons t ts ih => rw [groupedOf, ih]; rfl

theorem texts_eq (ts : List Ty) : texts ts = ts.map text := by
  induction ts with
  | nil => rfl
  | cons t ts ih => rw [texts, ih]; rfl

/-- A property of choices is that of the last two, and goes on to those before. -/
theorem join_induct {motive : Ty → Ty → Prop}
    (last : ∀ rhs, rhs.isOr = false → motive rhs (or lhs rhs))
    (more : ∀ mid rhs, motive mid (lhs.join mid) → motive (or mid rhs) (or (lhs.join mid) rhs))
    (rhs : Ty) : motive rhs (lhs.join rhs) := by
  induction rhs using induct with
  | step rhs ih =>
    cases rhs with
    | or mid rhs => exact more mid rhs (ih mid List.mem_cons_self)
    | basic | array | function | this => exact last _ rfl

theorem isOr_join : (lhs.join rhs).isOr = true := by cases rhs <;> rfl

theorem isOr_grouped (t : Ty) : t.grouped.isOr = t.isOr := by
  cases t with
  | or => exact isOr_join
  | _ => rfl

theorem parts_grouped (h : t.isOr = false) : t.grouped.parts = t.parts.map grouped := by
  cases t with
  | or => exact Bool.noConfusion h
  | function returns parameters => exact congrArg (returns.grouped :: ·) (groupedOf_eq parameters)
  | _ => rfl

section

variable (last : ∀ lhs rhs, rhs.isOr = false → p (or lhs rhs) = true)
  (more : ∀ lhs mid rhs, p (or mid rhs) = true → p (or lhs rhs) = true)
include last more

theorem all_join (hlhs : lhs.all p = true) (hrhs : rhs.all p = true) :
    (lhs.join rhs).all p = true := by
  refine join_induct (motive := fun rhs both => rhs.all p = true → both.all p = true)
    (fun rhs hor hrhs => ?_) (fun mid rhs ih hrhs => ?_) rhs hrhs
  · simp [all, last lhs rhs hor, hlhs, hrhs]
  · rw [all, Bool.and_eq_true, Bool.and_eq_true] at hrhs ⊢
    exact ⟨more _ _ _ hrhs.1, ih hrhs.2.1, hrhs.2.2⟩

/-- What is so of a type with its choices grouped is so of all that it is made of. -/
theorem all_grouped (step : ∀ t, q t = true → t.isOr = false → p t.grouped = true)
    (h : t.all q = true) : t.grouped.all p = true := by
  induction t using induct with
  | step t ih =>
    obtain ⟨ht, hparts⟩ := all_iff.mp h
    -- a union is flattened, so its members join; any other type keeps its parts
    cases hor : t.isOr with
    | true =>
      cases t with
      | or lhs rhs =>
        have hmem : rhs ∈ (or lhs rhs).parts := List.mem_cons_of_mem _ List.mem_cons_self
        exact all_join last more (ih lhs List.mem_cons_self (hparts lhs List.mem_cons_self))
          (ih rhs hmem (hparts rhs hmem))
      | _ => exact Bool.noConfusion hor
    | false =>
      refine all_iff.mpr ⟨step t ht hor, ?_⟩
      rw [parts_grouped hor, List.forall_mem_map]
      exact fun s hs => ih s hs (hparts s hs)

end

/-- Whether the second of two types to choose from is no choice itself. -/
def isGrouped : Ty → Bool
  | or _ rhs => !rhs.isOr
  | _ => true

theorem all_true (t : Ty) : t.all (fun _ => true) = true := by
  induction t using induct with
  | step t ih => exact all_iff.mpr ⟨rfl, ih⟩

/-- Grouped to the left, all choices are. -/
theorem all_isGrouped (t : Ty) : t.grouped.all isGrouped = true := by
  refine all_grouped (fun _ rhs hor => by simp [isGrouped, hor]) (fun _ _ _ h => h)
    (fun t _ hor => ?_) t.all_true
  rw [← isOr_grouped] at hor
  cases hgrouped : t.grouped with
  | or => rw [hgrouped] at hor; exact Bool.noConfusion hor
  | _ => rfl

/-! ## Regrouping -/

/-- From one type to another, only choices are regrouped. -/
inductive Regroups : Ty → Ty → Prop
  | refl (t : Ty) : Regroups t t
  | symm {s t : Ty} : Regroups s t → Regroups t s
  | trans {s t u : Ty} : Regroups s t → Regroups t u → Regroups s u
  | rotate (lhs mid rhs : Ty) : Regroups (or lhs (or mid rhs)) (or (or lhs mid) rhs)
  | array {s t : Ty} : Regroups s t → Regroups (array s) (array t)
  | left {s t : Ty} (rhs : Ty) : Regroups s t → Regroups (or s rhs) (or t rhs)
  | right {s t : Ty} (lhs : Ty) : Regroups s t → Regroups (or lhs s) (or lhs t)
  | returns {s t : Ty} (parameters : List Ty) (variadic : Bool) : Regroups s t →
      Regroups (function s parameters variadic) (function t parameters variadic)
  | parameter {s t : Ty} (returns : Ty) (before after : List Ty) (variadic : Bool) :
      Regroups s t → Regroups (function returns (before ++ s :: after) variadic)
        (function returns (before ++ t :: after) variadic)

namespace Regroups

theorem isCompound (h : Regroups s t) : s.isCompound = t.isCompound := by
  induction h with
  | symm _ ih => exact ih.symm
  | trans _ _ ih₁ ih₂ => exact ih₁.trans ih₂
  | _ => rfl

theorem isOr_eq (h : Regroups s t) : s.isOr = t.isOr := by
  induction h with
  | symm _ ih => exact ih.symm
  | trans _ _ ih₁ ih₂ => exact ih₁.trans ih₂
  | _ => rfl

/-- **The text does not say how choices are grouped.** -/
theorem text_eq (h : Regroups s t) : s.text = t.text := by
  induction h with
  | refl => rfl
  | symm _ ih => exact ih.symm
  | trans _ _ ih₁ ih₂ => exact ih₁.trans ih₂
  | rotate => simp only [text, String.append_assoc]
  | array h ih => rw [text, text, h.isCompound, ih]
  | left _ _ ih | right _ _ ih | returns _ _ _ ih => simp only [text, ih]
  | parameter _ _ _ _ _ ih => simp only [text, texts_eq, List.map_append, List.map_cons, ih]

/-- Types that differ in the grouping of their unions only nest alike. -/
theorem nesting_eq (h : Regroups s t) : s.nesting = t.nesting := by
  induction h with
  | refl => rfl
  | symm _ ih => exact ih.symm
  | trans _ _ ih₁ ih₂ => exact ih₁.trans ih₂
  | rotate => simp only [nesting, Nat.max_assoc]
  | array h ih => rw [nesting, nesting, h.isCompound, ih]
  | left _ _ ih | right _ _ ih | returns _ _ _ ih => simp only [nesting, ih]
  | parameter _ before _ _ _ ih =>
    have hbefore (ts us : List Ty) : nestingOf (ts ++ us) = max (nestingOf ts) (nestingOf us) := by
      induction ts with
      | nil => exact (Nat.zero_max _).symm
      | cons t ts ih => rw [List.cons_append, nestingOf, ih, nestingOf, Nat.max_assoc]
    simp only [nesting, hbefore, nestingOf, ih]

theorem join (lhs rhs : Ty) : Regroups (or lhs rhs) (lhs.join rhs) :=
  join_induct (motive := fun rhs both => Regroups (or lhs rhs) both) (fun _ _ => refl _)
    (fun mid rhs h => (rotate lhs mid rhs).trans (left rhs h)) rhs

theorem parameters (returns : Ty) (before : List Ty) (variadic : Bool)
    (h : ∀ t ∈ ts, Regroups t t.grouped) : Regroups (function returns (before ++ ts) variadic)
      (function returns (before ++ ts.map grouped) variadic) := by
  induction ts generalizing before with
  | nil => exact refl _
  | cons t ts ih =>
    rw [List.forall_mem_cons] at h
    have hrest := ih (before ++ [t.grouped]) h.2
    rw [List.append_assoc, List.append_assoc] at hrest
    exact (parameter returns before ts variadic h.1).trans hrest

/-- Grouping to the left is regrouping. -/
theorem grouped (t : Ty) : Regroups t t.grouped := by
  induction t using induct with
  | step t ih =>
    cases t with
    | array element => exact array (ih element List.mem_cons_self)
    | or lhs rhs =>
      have hlhs := ih lhs List.mem_cons_self
      have hrhs := ih rhs (List.mem_cons_of_mem _ List.mem_cons_self)
      -- group both sides first, then join them
      exact ((left rhs hlhs).trans (right _ hrhs)).trans (join _ _)
    | function returns ts variadic =>
      have hts := parameters returns.grouped [] variadic fun t ht =>
        ih t (List.mem_cons_of_mem _ ht)
      rw [Ty.grouped, groupedOf_eq]
      exact (Regroups.returns ts variadic (ih returns List.mem_cons_self)).trans hts
    | basic | this => exact refl _

end Regroups

end Ty

end MudEdit
