import MudEdit.Program.Resolution
import MudEdit.Proofs.Program.Record

/-!
# Programs without their stamps

Two programs that were made separately have different stamps. Without the stamps, their
own and those of the programs linked to them, programs are equal if they declare the same.
What a name stands for does not depend on stamps.
-/

namespace MudEdit

namespace Program

mutual

/-- The program with no stamps in it. -/
def unstamped : Program → Program
  | .mk _ fileName scopes included inherited =>
    .mk 0 fileName scopes (unstampedAll included) (unstampedAll inherited)

def unstampedAll : List Program → List Program
  | [] => []
  | p :: ps => unstamped p :: unstampedAll ps

end

variable {p q : Program}

@[simp] theorem unstampedAll_eq (ps : List Program) : unstampedAll ps = ps.map unstamped := by
  induction ps with
  | nil => rfl
  | cons p ps ih => rw [unstampedAll, ih, List.map_cons]

theorem unstamped_mk (stamp : Nat) (fileName : Option String) (scopes : Array Scope)
    (included inherited : List Program) : (mk stamp fileName scopes included inherited).unstamped =
      .mk 0 fileName scopes (included.map unstamped) (inherited.map unstamped) := by
  rw [unstamped, unstampedAll_eq, unstampedAll_eq]

@[simp] theorem fileName_unstamped (p : Program) : p.unstamped.fileName = p.fileName := by
  cases p; rfl

@[simp] theorem scopes_unstamped (p : Program) : p.unstamped.scopes = p.scopes := by
  cases p; rfl

@[simp] theorem scope_unstamped (p : Program) (id : Nat) : p.unstamped.scope id = p.scope id := by
  cases p; rfl

@[simp] theorem topLevel_unstamped (p : Program) : p.unstamped.topLevel = p.topLevel := by
  cases p; rfl

@[simp] theorem included_unstamped (p : Program) :
    p.unstamped.included = p.included.map unstamped := by
  cases p; rw [unstamped_mk]; rfl

@[simp] theorem inherited_unstamped (p : Program) :
    p.unstamped.inherited = p.inherited.map unstamped := by
  cases p; rw [unstamped_mk]; rfl

mutual

@[simp] theorem unstamped_unstamped : ∀ p : Program, p.unstamped.unstamped = p.unstamped
  | .mk stamp fileName scopes included inherited => by
    simp only [unstamped_mk, List.map_map, map_unstamped_comp]

/-- Without stamps all trees stay as they are, however often the stamps are taken away. -/
theorem map_unstamped_comp : ∀ ps : List Program,
    ps.map (unstamped ∘ unstamped) = ps.map unstamped
  | [] => rfl
  | p :: ps => by
    rw [List.map_cons, List.map_cons, map_unstamped_comp ps, Function.comp_apply,
      unstamped_unstamped p]

end

/-! ## Changes to a program -/

@[simp] theorem unstamped_empty (stamp : Nat) (fileName : Option String) :
    (empty stamp fileName).unstamped = empty 0 fileName := unstamped_mk ..

/-- What changes a scope does not look at stamps. -/
theorem unstamped_modifyScope (p : Program) (id : Nat) (f : Scope → Scope) :
    (p.modifyScope id f).unstamped = p.unstamped.modifyScope id f := by
  cases p; simp only [modifyScope, unstamped_mk]

/-- Nor does what opens one. -/
theorem unstamped_openScope (p : Program) (parent begin stop : Nat) :
    (p.openScope parent begin stop).unstamped = p.unstamped.openScope parent begin stop := by
  cases p; simp only [openScope, unstamped_mk]

/-- A program that is linked to is linked to without its stamps. -/
theorem unstamped_addIncluded (p q : Program) :
    (p.addIncluded q).unstamped = p.unstamped.addIncluded q.unstamped := by
  cases p; simp only [addIncluded, unstamped_mk, List.map_append, List.map_cons, List.map_nil]

theorem unstamped_addInherited (p q : Program) :
    (p.addInherited q).unstamped = p.unstamped.addInherited q.unstamped := by
  cases p; simp only [addInherited, unstamped_mk, List.map_append, List.map_cons, List.map_nil]

/-! ## Names -/

section Named

variable (name : String) (visibility : Visibility)

mutual

/-- Lookups go by names and links, not by stamps. -/
theorem asInherited_unstamped : ∀ p : Program,
    asInherited name visibility p.unstamped = asInherited name visibility p
  | .mk stamp fileName scopes included inherited => by
    rw [unstamped_mk, asInherited, asInherited, asInheritedAny_unstamped included,
      asInheritedAny_unstamped inherited]
    rfl

theorem asInheritedAny_unstamped : ∀ ps : List Program,
    asInheritedAny name visibility (ps.map unstamped) = asInheritedAny name visibility ps
  | [] => rfl
  | p :: ps => by
    rw [List.map_cons, asInheritedAny, asInheritedAny, asInherited_unstamped p,
      asInheritedAny_unstamped ps]

end

mutual

/-- The same for what is included. -/
theorem asIncluded_unstamped : ∀ p : Program,
    asIncluded name visibility p.unstamped = asIncluded name visibility p
  | .mk stamp fileName scopes included inherited => by
    rw [unstamped_mk, asIncluded, asIncluded, asIncludedAny_unstamped included,
      asInheritedAny_unstamped]
    rfl

theorem asIncludedAny_unstamped : ∀ ps : List Program,
    asIncludedAny name visibility (ps.map unstamped) = asIncludedAny name visibility ps
  | [] => rfl
  | p :: ps => by
    rw [List.map_cons, asIncludedAny, asIncludedAny, asIncluded_unstamped p,
      asIncludedAny_unstamped ps]

end

/-- Scopes are nested as they were. -/
theorem scopesFrom_unstamped (p : Program) (id : Nat) :
    p.unstamped.scopesFrom id = p.scopesFrom id :=
  scopesFrom_congr (scope_unstamped p) id

/-- What a name means does not depend on stamps. -/
theorem identifiers_unstamped (p : Program) (id offset : Nat) :
    p.unstamped.identifiers name visibility id offset =
      p.identifiers name visibility id offset := by
  simp only [identifiers, scopesFrom_unstamped, ownNamed_congr (scope_unstamped p),
    included_unstamped, inherited_unstamped, asIncludedAny_unstamped, asInheritedAny_unstamped]

end Named

/-- Nor does what it means in the programs inherited. -/
theorem superIdentifiers_unstamped (name : String) (p : Program) :
    p.unstamped.superIdentifiers name = p.superIdentifiers name := by
  rw [superIdentifiers, inherited_unstamped, asInheritedAny_unstamped, superIdentifiers]

/-- Nor behind a label. -/
theorem labelledIdentifiers_unstamped (label_ name : String) (p : Program) :
    p.unstamped.labelledIdentifiers label_ name = p.labelledIdentifiers label_ name := by
  have hfile : ((fun q : Program => q.fileName.any fun file => label file == label_) ∘ unstamped) =
      fun q => q.fileName.any fun file => label file == label_ := by
    funext q
    simp only [Function.comp_apply, fileName_unstamped]
  unfold labelledIdentifiers
  rw [inherited_unstamped, List.find?_map, hfile, superIdentifiers_unstamped]
  cases p.inherited.find? _ with
  | none => rfl
  | some q => exact asInherited_unstamped ..

end Program

end MudEdit
