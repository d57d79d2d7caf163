import Mathlib.Data.List.Pairwise
import Mathlib.Data.List.Perm.Basic
import MudEdit.Proofs.Grammar.Recorded
import MudEdit.Proofs.Program.Home

/-!
# Every declaration belongs to one scope

The scopes of a text share its declarations out: none is left out, and none is in two of them.
No two declarations of a text begin together, nor does one begin where a file is named, so the
place where a declaration begins is enough to tell it from all that is recorded.
-/

namespace MudEdit

variable {n m : Node} {ns : List Node} {x : Nat × String} {mode : Mode} {text : String}

namespace Node

/-! ## None is left out -/

/-- What is declared in a tree, in the order of the text. -/
def declared (n : Node) : List (Nat × String) := n.subtrees.flatMap declarations

/-- A construct declares its own name, its formals and what its parts declare. -/
theorem declared_eq (n : Node) : n.declared =
    n.declaration?.toList ++ (n.formals ++ n.children.flatMap declared) := by
  rw [declared, subtrees_eq, List.flatMap_cons, List.flatMap_assoc, declarations,
    List.append_assoc]
  rfl

/-- Formals only come with a scope. -/
theorem formals_of_hasScope (h : n.kind.hasScope = false) : n.formals = [] := by
  unfold formals
  split
  · rename_i heq
    rw [heq] at h
    exact absurd h (by simp [NodeKind.hasScope])
  · rfl

/-- Where nothing is declared, no parameter is named either. -/
theorem declared_vanishes : Vanishes declared :=
  .of_parts fun m hd hs => by rw [declared_eq, hd, formals_of_hasScope hs]; rfl

/-- The body of a function declares what the parts of it that are walked do. -/
theorem declared_bodyParts (h : ∀ m ∈ n.subtrees, m.Proper) :
    n.bodyParts.flatMap declared = n.declared := by
  fun_induction bodyParts n with
  | case1 begin stop statements =>
    rw [declared_eq]
    rfl
  | case2 begin stop primary holes ih =>
    obtain ⟨hp, hparts⟩ := forall_mem_subtrees.mp h
    -- holes declare nothing, so it is the body itself that is taken apart
    have hholes : holes.flatMap declared = [] := declared_vanishes.flatMap fun g hg =>
      isFlat_of_isHole (hp.holes _ _ rfl g hg)
    have heq : (mk begin stop (.combination primary holes)).declared =
        primary.declared ++ holes.flatMap declared := declared_eq _
    rw [ih (hparts primary List.mem_cons_self), heq, hholes, List.append_nil]
  | case3 => rw [List.flatMap_singleton]

/-- The parts of a construct declare what its children do. -/
theorem declared_parts (h : ∀ m ∈ n.subtrees, m.Proper) :
    ((n.kind.outside ++ n.kind.inside).flatMap declared).Perm (n.children.flatMap declared) := by
  obtain ⟨begin, stop, kind⟩ := n
  -- only the body of a function is taken apart, everything else is there as it is
  by_cases hf : ∃ mods returns title parameters variadic body,
      kind = .functionDef mods returns title parameters variadic (some body)
  · obtain ⟨mods, returns, title, parameters, variadic, body, rfl⟩ := hf
    have hbody : body.bodyParts.flatMap declared = body.declared :=
      declared_bodyParts ((forall_mem_subtrees.mp h).2 body
        (by simp [children, NodeKind.children]))
    refine .of_eq ?_
    simp only [Node.kind, children, NodeKind.outside, NodeKind.inside, NodeKind.children,
      List.flatMap_append, hbody, List.append_assoc, Option.toList, List.flatMap_singleton]
  · refine (NodeKind.outside_inside_perm fun mods returns title parameters variadic body heq =>
      hf ⟨mods, returns, title, parameters, variadic, body, heq⟩).flatMap_right _

/-- What belongs to the scopes of a construct. -/
theorem names_homes (n : Node) : n.homes.flatMap Home.names =
    (n.kind.outside.flatMap homes).flatMap Home.names ++
      ((n.formals ++ n.kind.inside.flatMap held) ++
        (n.kind.inside.flatMap homes).flatMap Home.names) := by
  rw [homes_eq, List.flatMap_append, List.flatMap_append]
  cases h : n.kind.hasScope with
  | true => rw [if_pos rfl, List.flatMap_singleton]; rfl
  | false => simp [(NodeKind.parts_of_hasScope h).2, formals_of_hasScope h]

/-- What is declared in several trees is what belongs to the scope around them, and to those
in them, if that is so for each of them. -/
theorem flatMap_declared (h : ∀ m ∈ ns, m.declared.Perm (m.held ++ m.homes.flatMap Home.names)) :
    (ns.flatMap declared).Perm (ns.flatMap held ++ (ns.flatMap homes).flatMap Home.names) := by
  refine (List.Perm.flatMap_left _ h).trans ?_
  rw [List.flatMap_assoc]
  exact (List.flatMap_append_perm ..).symm

/-- **Each declaration in a tree belongs to the scope around it or to one in it.** -/
theorem declared_perm (n : Node) (h : ∀ m ∈ n.subtrees, m.Proper) :
    n.declared.Perm (n.held ++ n.homes.flatMap Home.names) := by
  induction n using induct_parts with
  | step n ih =>
    have hparts : ∀ m ∈ n.kind.outside ++ n.kind.inside,
        m.declared.Perm (m.held ++ m.homes.flatMap Home.names) := fun m hm =>
      ih m hm fun l hl => h l (subtrees_part hm hl)
    obtain ⟨hout, hin⟩ := List.forall_mem_append.mp hparts
    have hchildren := declared_parts h
    rw [List.flatMap_append] at hchildren
    -- each name is counted: outside of the scope it is held, inside it is at home
    rw [declared_eq, held_eq, names_homes, List.perm_iff_count]
    intro x
    have h₁ := hchildren.count_eq x
    have h₂ := (flatMap_declared hout).count_eq x
    have h₃ := (flatMap_declared hin).count_eq x
    simp only [List.count_append] at h₁ h₂ h₃ ⊢
    omega

/-! ## None is declared twice -/

/-- The name that the construct declares, or that of the parameter that it is. -/
def mark? (n : Node) : Option (Nat × String) := n.declaration? <|> n.formal?

/-- A construct is marked as a parameter or as a declaration, never as both. -/
theorem toList_mark? (n : Node) :
    n.mark?.toList = n.formal?.toList ++ n.declaration?.toList := by
  obtain ⟨begin, stop, kind⟩ := n
  cases kind with
  | parameter type title => simp [mark?, declaration?]
  | _ => simp [mark?, formal?]

/-- A name is declared where the construct begins. -/
theorem begin_mark? (h : n.mark? = some x) : n.kind.isTitled = true ∧ x.1 = n.begin := by
  have hmap {o : Option String} {begin : Nat} (h : o.map (begin, ·) = some x) :
      o.isSome = true ∧ x.1 = begin := by
    obtain ⟨text, rfl, rfl⟩ := Option.map_eq_some_iff.mp h
    exact ⟨rfl, rfl⟩
  rw [mark?, Option.orElse_eq_orElse, Option.orElse_eq_or, Option.or_eq_some_iff] at h
  rcases h with h | ⟨-, h⟩
  · unfold declaration? at h
    split at h <;> first | exact hmap h | exact absurd h (by simp)
  · unfold formal? at h
    split at h
    · exact hmap h
    · exact absurd h (by simp)

/-- What declares a name is recorded. -/
theorem isRecorded_of_isTitled (h : n.kind.isTitled = true) :
    n.isRecorded = true ∧ n.kind.isRecorded = true := by
  have hprimary : n.primary = n := primary_of_kind fun p hs heq => by
    rw [heq] at h
    exact absurd h (by simp [NodeKind.isTitled])
  rw [isRecorded, isTitled, hprimary, h, NodeKind.isRecorded, h, Bool.or_true]
  exact ⟨rfl, rfl⟩

/-- The formals of a function are among its parts. -/
theorem formals_sublist (n : Node) :
    n.formals.Sublist (n.children.flatMap fun m => m.formal?.toList) := by
  unfold formals
  split
  · rename_i mods returns title parameters variadic body heq
    rw [children, heq, List.filterMap_eq_flatMap_toList]
    refine List.Sublist.flatMap ?_ _
    exact (List.sublist_append_right ..).trans (List.sublist_append_left ..)
  · exact List.nil_sublist _

theorem subperm_flatMap {β : Type} {f g : Node → List β} (h : ∀ m ∈ ns, (f m).Subperm (g m)) :
    (ns.flatMap f).Subperm (ns.flatMap g) := by
  induction ns with
  | nil => exact List.nil_subperm
  | cons n ns ih =>
    obtain ⟨hn, hns⟩ := List.forall_mem_cons.mp h
    exact hn.append (ih hns)

/-- A parameter is declared once at most, namely by its function. -/
theorem declared_subperm (n : Node) :
    (n.formal?.toList ++ n.declared).Subperm (n.subtrees.filterMap mark?) := by
  induction n using Node.induct with
  | step n ih =>
    -- the marks of the tree, the one at its root first
    have hmarks : n.subtrees.filterMap mark? =
        n.mark?.toList ++ n.children.flatMap fun m => m.subtrees.filterMap mark? := by
      rw [List.filterMap_eq_flatMap_toList, subtrees_eq, List.flatMap_cons, List.flatMap_assoc]
      simp only [List.filterMap_eq_flatMap_toList]
    rw [declared_eq, hmarks, toList_mark?, List.append_assoc]
    refine (List.Subperm.refl _).append ((List.Subperm.refl _).append ?_)
    refine ((formals_sublist n).subperm.append (.refl _)).trans ?_
    exact (List.flatMap_append_perm ..).subperm.trans (subperm_flatMap ih)

end Node

/-! ## The declarations of a text -/

/-- What is parsed is proper at every depth. -/
theorem parse_proper (mode : Mode) (text : String) :
    ∀ n ∈ (Forest.parse mode text).nodes, ∀ m ∈ n.subtrees, m.Proper := fun n hn =>
  (parse_reads mode text).1.proper (start_placed mode text) n (List.mem_append_left _ hn)

/-- No two of its constructs begin alike, as far as their places are noted. -/
theorem parse_subtrees_unlike (mode : Mode) (text : String) :
    (Forest.parse mode text).subtrees.Pairwise Node.Unlike := by
  have hnoted := (parse_reads mode text).1.noted (start_placed mode text)
  rw [List.append_nil] at hnoted
  exact hnoted.unlike

/-- The declarations of a file are those of its constructs. -/
theorem Forest.declarations_eq (f : Forest) :
    f.declarations = f.nodes.flatMap Node.declared := List.flatMap_assoc ..

/-- **Each declaration of a text belongs to one of its scopes.** -/
theorem declarations_perm (mode : Mode) (text : String) :
    ((Forest.parse mode text).homes.flatMap Home.names).Perm
      (Forest.parse mode text).declarations := by
  rw [Forest.declarations_eq]
  exact (Node.flatMap_declared fun n hn =>
    n.declared_perm (parse_proper mode text n hn)).symm

/-- No declaration counts twice. -/
theorem declarations_subperm (f : Forest) :
    f.declarations.Subperm (f.subtrees.filterMap Node.mark?) := by
  rw [Forest.declarations_eq, List.filterMap_eq_flatMap_toList, Forest.subtrees,
    List.flatMap_assoc]
  refine Node.subperm_flatMap fun n _ => ?_
  have hsub := (List.sublist_append_right ..).subperm.trans n.declared_subperm
  rwa [List.filterMap_eq_flatMap_toList] at hsub

/-- **No two declarations of a text begin together.** -/
theorem declarations_nodup (mode : Mode) (text : String) :
    ((Forest.parse mode text).declarations.map Prod.fst).Nodup := by
  obtain ⟨l, hp, hs⟩ := declarations_subperm (Forest.parse mode text)
  refine (hp.map Prod.fst).nodup_iff.mp (List.Nodup.sublist (hs.map Prod.fst) ?_)
  refine List.pairwise_map.mpr (List.pairwise_filterMap.mpr ?_)
  -- two declarations are two constructs, and those begin at different places
  refine (parse_subtrees_unlike mode text).imp fun {a b} hunlike x hx y hy => ?_
  obtain ⟨ha, hax⟩ := Node.begin_mark? hx
  obtain ⟨hb, hby⟩ := Node.begin_mark? hy
  obtain ⟨hra, hka⟩ := Node.isRecorded_of_isTitled ha
  obtain ⟨hrb, hkb⟩ := Node.isRecorded_of_isTitled hb
  rw [hax, hby]
  exact hunlike hra hrb (.inr ⟨hka, hkb⟩)

/-- **No declaration begins where a file is named.** -/
theorem begin_ne_of_isLink {l : Node} (hx : x ∈ (Forest.parse mode text).declarations)
    (hl : l ∈ (Forest.parse mode text).subtrees) (hk : l.kind.isLink = true) :
    x.1 ≠ l.begin := by
  obtain ⟨m, hm, hx⟩ := List.mem_filterMap.mp ((declarations_subperm _).subset hx)
  obtain ⟨ht, hbegin⟩ := Node.begin_mark? hx
  have : Std.Symm Node.Unlike := ⟨fun _ _ => Node.Unlike.symm⟩
  have hne : m ≠ l := by
    rintro rfl
    have hno : m.kind.isTitled = false := by
      cases h : m.kind <;> first | rfl | exact absurd hk (by simp [h, NodeKind.isLink])
    exact absurd ht (by simp [hno])
  rw [hbegin]
  exact (parse_subtrees_unlike mode text).forall hm hl hne (Node.isRecorded_of_isTitled ht).1
    (Node.isRecorded_of_isLink hk) (.inl (.inr hk))

end MudEdit
