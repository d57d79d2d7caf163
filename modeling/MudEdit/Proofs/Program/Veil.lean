import MudEdit.Proofs.Program.Record
import MudEdit.Proofs.Program.Sight

/-!
# Hidden members have no influence

A visibility hides members of inherited programs. To take the hidden ones away, wherever the
links inherit on the way, changes no answer: a hidden member is neither found nor does it stand
before what lies behind it. What is reached by including only is part of the file, and keeps
all of its members.
-/

namespace MudEdit

/-- The scope without the definitions that the visibility hides. -/
def Scope.admitted (v : Visibility) (s : Scope) : Scope :=
  { s with instructions := s.instructions.filter fun i => i.2.definition?.all v.admits }

/-- What is admitted into a scope are the definitions that may be seen. -/
theorem Scope.definitions_admitted (v : Visibility) (s : Scope) :
    (s.admitted v).definitions = s.definitions.filter v.admits := by
  have hall : ∀ is : List (Nat × Instruction),
      (is.filter fun i => i.2.definition?.all v.admits).filterMap (·.2.definition?) =
        (is.filterMap (·.2.definition?)).filter v.admits := by
    intro is
    induction is with
    | nil => rfl
    | cons i is ih =>
      -- links among the instructions are no definitions, and are kept
      cases hd : i.2.definition? with
      | none => simp [hd, ih]
      | some d => by_cases hv : v.admits d <;> simp [hd, hv, ih]
  exact hall s.instructions

namespace Program

variable (v : Visibility)

mutual

/-- The program without the hidden members, its own and those of all programs linked to it. -/
def stripped : Program → Program
  | .mk stamp fileName scopes included inherited =>
    .mk stamp fileName (scopes.modify 0 (·.admitted v)) (strippedAll included)
      (strippedAll inherited)

def strippedAll : List Program → List Program
  | [] => []
  | p :: ps => stripped p :: strippedAll ps

end

mutual

/-- The program without the members that are hidden from it: those of programs to which some
link on the way inherits. -/
def veiled : Program → Program
  | .mk stamp fileName scopes included inherited =>
    .mk stamp fileName scopes (veiledAll included) (strippedAll v inherited)

def veiledAll : List Program → List Program
  | [] => []
  | p :: ps => veiled p :: veiledAll ps

end

variable {v}

@[simp] theorem strippedAll_eq (ps : List Program) : strippedAll v ps = ps.map (stripped v) := by
  induction ps with
  | nil => rfl
  | cons p ps ih => rw [strippedAll, ih, List.map_cons]

@[simp] theorem veiledAll_eq (ps : List Program) : veiledAll v ps = ps.map (veiled v) := by
  induction ps with
  | nil => rfl
  | cons p ps ih => rw [veiledAll, ih, List.map_cons]

theorem stripped_mk (stamp : Nat) (fileName : Option String) (scopes : Array Scope)
    (included inherited : List Program) : (mk stamp fileName scopes included inherited).stripped v =
      mk stamp fileName (scopes.modify 0 (·.admitted v)) (included.map (stripped v))
        (inherited.map (stripped v)) := by
  rw [stripped, strippedAll_eq, strippedAll_eq]

theorem veiled_mk (stamp : Nat) (fileName : Option String) (scopes : Array Scope)
    (included inherited : List Program) : (mk stamp fileName scopes included inherited).veiled v =
      mk stamp fileName scopes (included.map (veiled v)) (inherited.map (stripped v)) := by
  rw [veiled, veiledAll_eq, strippedAll_eq]

@[simp] theorem included_veiled (p : Program) :
    (p.veiled v).included = p.included.map (veiled v) := by
  cases p; rw [veiled_mk]; rfl

@[simp] theorem inherited_veiled (p : Program) :
    (p.veiled v).inherited = p.inherited.map (stripped v) := by
  cases p; rw [veiled_mk]; rfl

@[simp] theorem linked_stripped (p : Program) (l : Link) :
    (p.stripped v).linked l = (p.linked l).map (stripped v) := by
  cases p; rw [stripped_mk]; cases l <;> rfl

/-- A scope with less in it has less at the top. -/
theorem topLevel_modifyScope_admitted (p : Program) :
    (p.modifyScope 0 (·.admitted v)).topLevel = p.topLevel.filter v.admits := by
  rw [topLevel, root, scope_modifyScope]
  split
  · rw [Scope.definitions_admitted]
    rfl
  · -- where there is no scope nothing is declared
    rename_i hnone
    have hdefault : p.scope 0 = default := by
      rw [scope, Array.getD, dif_neg (by simpa using hnone)]
    rw [topLevel, root, hdefault]
    rfl

/-- A stripped program links to what it linked to, all of it stripped. -/
theorem Route.stripped {p q : Program} {path : List Link} (h : Route p path q) :
    Route (p.stripped v) path (q.stripped v) := by
  induction h with
  | here p => exact .here _
  | link l hq _ ih => exact .link l (linked_stripped .. ▸ List.mem_map_of_mem hq) ih

/-- Through links that inherit nowhere all members remain, and through others those that are
not hidden. -/
theorem Route.veiled {p q : Program} {path : List Link} (h : Route p path q) :
    Route (p.veiled v) path (if .inherited ∈ path then q.stripped v else q.veiled v) := by
  -- along the route, up to its first inherit link
  induction h with
  | here p => exact .here _
  | link l hq hroute ih =>
    cases l with
    | included =>
      have hmem : _ ∈ (Program.veiled v _).included := included_veiled _ ▸ List.mem_map_of_mem hq
      simpa using Route.link .included hmem ih
    | inherited =>
      have hmem : _ ∈ (Program.veiled v _).inherited := inherited_veiled _ ▸ List.mem_map_of_mem hq
      simpa using Route.link .inherited hmem hroute.stripped

/-! ## What is found -/

variable (name : String)

/-- What may not be seen is not looked at, so it may as well be gone. -/
theorem filter_admits (ds : List Definition) :
    ((ds.filter v.admits).filter fun d => d.name == name && v.admits d) =
      ds.filter fun d => d.name == name && v.admits d := by
  rw [List.filter_filter]
  refine List.filter_congr fun d _ => ?_
  cases v.admits d <;> simp

mutual

/-- A lookup among what is inherited finds the same. -/
theorem asInherited_stripped : ∀ p : Program,
    asInherited name v (p.stripped v) = asInherited name v p
  | .mk stamp fileName scopes included inherited => by
    have hown : (mk stamp fileName (scopes.modify 0 (·.admitted v)) [] []).topLevel =
        (mk stamp fileName scopes [] []).topLevel.filter v.admits :=
      topLevel_modifyScope_admitted (.mk stamp fileName scopes [] [])
    rw [stripped_mk, asInherited, asInherited, hown, filter_admits,
      asInheritedAny_stripped included, asInheritedAny_stripped inherited]

theorem asInheritedAny_stripped : ∀ ps : List Program,
    asInheritedAny name v (ps.map (stripped v)) = asInheritedAny name v ps
  | [] => rfl
  | p :: ps => by
    rw [List.map_cons, asInheritedAny, asInheritedAny, asInherited_stripped p,
      asInheritedAny_stripped ps]

end

mutual

/-- So does one among what is included, where all may be seen. -/
theorem asIncluded_veiled : ∀ p : Program,
    asIncluded name v (p.veiled v) = asIncluded name v p
  | .mk stamp fileName scopes included inherited => by
    rw [veiled_mk, asIncluded, asIncluded, asIncludedAny_veiled included,
      asInheritedAny_stripped]

theorem asIncludedAny_veiled : ∀ ps : List Program,
    asIncludedAny name v (ps.map (veiled v)) = asIncludedAny name v ps
  | [] => rfl
  | p :: ps => by
    rw [List.map_cons, asIncludedAny, asIncludedAny, asIncluded_veiled p,
      asIncludedAny_veiled ps]

end

end Program

end MudEdit
