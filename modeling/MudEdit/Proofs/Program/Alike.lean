import MudEdit.Proofs.Program.Links
import MudEdit.Proofs.Program.Stamp

/-!
# What the program of a file depends on

Two libraries may give different programs for a path, as long as they differ in their stamps
only. If they do so for all the paths that a file names, they give the file programs that
differ in their stamps only. `Alike` says so of the steps of the walk, with one rule for each
way to put steps together.
-/

namespace MudEdit

variable {library library' : Library} {scope begin stop : Nat} {n m : Node} {ns : List Node}
  {kind : NodeKind}

/-- Made so far are programs that differ in their stamps only. -/
def Resolution.Alike (r r' : Resolution) : Prop := r.program.unstamped = r'.program.unstamped

namespace Resolve

variable {α β : Type} {p q : Resolve α} {f g : α → Resolve β}

/-- From programs that differ in their stamps only the steps find the same, and make programs
that differ in their stamps only. -/
structure Alike (p q : Resolve α) : Prop where
  run : ∀ r r' : Resolution, r.Alike r' → (p r).1 = (q r').1 ∧ (p r).2.Alike (q r').2

namespace Alike

theorem pure (a : α) : Alike (Pure.pure a) (Pure.pure a) := ⟨fun _ _ h => ⟨rfl, h⟩⟩

/-- Steps may follow that are alike for what may be found. -/
theorem bind_of {P : α → Prop} (h : Alike p q) (hp : ∀ r, P (p r).1)
    (hf : ∀ a, P a → Alike (f a) (g a)) : Alike (p >>= f) (q >>= g) := by
  refine ⟨fun r r' hr => ?_⟩
  obtain ⟨ha, hs⟩ := h.run r r' hr
  obtain ⟨hb, ht⟩ := (hf (p r).1 (hp r)).run _ _ hs
  show (f (p r).1 (p r).2).1 = (g (q r').1 (q r').2).1 ∧ _
  rw [← ha]
  refine ⟨hb, ?_⟩
  show (f (p r).1 (p r).2).2.Alike (g (q r').1 (q r').2).2
  rw [← ha]
  exact ht

theorem bind (h : Alike p q) (hf : ∀ a, Alike (f a) (g a)) : Alike (p >>= f) (q >>= g) :=
  h.bind_of (P := fun _ => True) (fun _ => trivial) fun a _ => hf a

theorem map (h : Alike p q) (f : α → β) : Alike (f <$> p) (f <$> q) :=
  h.bind fun a => pure (f a)

/-- What is read off the program made so far does not depend on stamps. -/
theorem reads {f : Program → α} (h : ∀ p, f p.unstamped = f p)
    (hp : ∀ r, p r = (f r.program, r)) : Alike p p := by
  refine ⟨fun r r' hr => ?_⟩
  rw [hp, hp]
  exact ⟨by rw [← h, hr, h], hr⟩

theorem update {f g : Program → Program}
    (h : ∀ p p' : Program, p.unstamped = p'.unstamped → (f p).unstamped = (g p').unstamped) :
    Alike (Resolve.update f) (Resolve.update g) :=
  ⟨fun r r' hr => ⟨rfl, h r.program r'.program hr⟩⟩

end Alike

/-! ## Steps -/

theorem update_modifyScope_alike (id : Nat) (f : Scope → Scope) :
    Alike (update (·.modifyScope id f)) (update (·.modifyScope id f)) :=
  .update fun p p' h => by rw [Program.unstamped_modifyScope, h, Program.unstamped_modifyScope]

theorem openScope_alike (parent begin stop : Nat) :
    Alike (openScope parent begin stop) (openScope parent begin stop) := by
  have hsize : Alike (fun r => (r.program.scopes.size, r)) fun r => (r.program.scopes.size, r) :=
    .reads (f := fun p => p.scopes.size) (fun p => by rw [Program.scopes_unstamped]) fun _ => rfl
  refine hsize.bind fun id => Alike.bind (.update fun p p' h => ?_) fun _ => .pure id
  rw [Program.unstamped_openScope, h, Program.unstamped_openScope]

theorem define_alike (scope : Nat) (d : Definition) : Alike (define scope d) (define scope d) :=
  update_modifyScope_alike ..

theorem defineNamed_alike (scope begin stop : Nat) (title : Node) (type : Ty)
    (dk : DefinitionKind) (mods : List Modifier) :
    Alike (defineNamed scope begin stop title type dk mods)
      (defineNamed scope begin stop title type dk mods) := by
  unfold defineNamed
  split
  · exact define_alike ..
  · exact .pure ()

theorem defines_alike (id : Nat) (ds : List Definition) :
    Alike (ds.forM (define id)) (ds.forM (define id)) := by
  induction ds with
  | nil => exact .pure ()
  | cons d ds ih => exact (define_alike id d).bind fun _ => ih

theorem openBody_alike (parent begin stop : Nat) (unclosed : Bool) :
    Alike (openBody parent begin stop unclosed) (openBody parent begin stop unclosed) :=
  openScope_alike ..

theorem openClass_alike (scope begin stop : Nat) (unclosed : Bool) (title : Node)
    (inherits : Option Node) : Alike (openClass scope begin stop unclosed title inherits)
      (openClass scope begin stop unclosed title inherits) := by
  unfold openClass
  refine (defineNamed_alike ..).bind fun _ => ?_
  split
  · exact .pure none
  · exact (openBody_alike ..).map some

/-- A class has a scope for members only if it has no body elsewhere. -/
theorem class_alike {unclosed : Bool} {title : Node} {inherits : Option Node}
    {f g : Option Nat → Resolve α} (hnone : Alike (f none) (g none))
    (hsome : inherits = none → ∀ id, Alike (f (some id)) (g (some id))) :
    Alike (openClass scope begin stop unclosed title inherits >>= f)
      (openClass scope begin stop unclosed title inherits >>= g) := by
  have hfound : ∀ r, inherits = none ∨
      (openClass scope begin stop unclosed title inherits r).1 = none := by
    intro r
    cases inherits with
    | none => exact .inl rfl
    | some file => exact .inr rfl
  refine (openClass_alike ..).bind_of (P := fun o => inherits = none ∨ o = none) hfound
    fun o ho => ?_
  cases o with
  | none => exact hnone
  | some id => exact hsome (ho.resolve_right (by simp)) id

theorem openFunction_alike (scope owner : Nat) (body : Node) (parameters : List Node) :
    Alike (openFunction scope owner body parameters) (openFunction scope owner body parameters) :=
  (openBody_alike ..).bind fun _ => (update_modifyScope_alike ..).bind fun _ =>
    (defines_alike ..).bind fun _ => .pure _

theorem nameType_alike (scope offset : Nat) (name : String) :
    Alike (nameType scope offset name) (nameType scope offset name) :=
  .reads (f := fun p => firstType (p.identifiers name .inheritor scope offset))
    (fun p => by rw [Program.identifiers_unstamped]) fun _ => rfl

theorem scopedType_alike (label_ : Option Node) (name : Node) :
    Alike (scopedType label_ name) (scopedType label_ name) := by
  cases hn : name.nameText? with
  | none =>
    exact .reads (f := fun _ => .any) (fun _ => rfl) fun r => by simp only [scopedType, hn]; rfl
  | some text =>
    cases hl : label_.bind Node.nameText? with
    | none =>
      refine .reads (f := fun p => firstType (p.superIdentifiers text))
        (fun p => by rw [Program.superIdentifiers_unstamped]) fun r => ?_
      simp only [scopedType, hn, hl]
      rfl
    | some label_ =>
      refine .reads (f := fun p => firstType (p.labelledIdentifiers label_ text))
        (fun p => by rw [Program.labelledIdentifiers_unstamped]) fun r => ?_
      simp only [scopedType, hn, hl]
      rfl

theorem thisType_alike : Alike thisType thisType := by
  refine .reads (f := fun p => (p.fileName.map Ty.object).getD .this)
    (fun p => by rw [Program.fileName_unstamped]) fun r => ?_
  obtain ⟨⟨stamp, fileName, scopes, included, inherited⟩, unresolved⟩ := r
  cases fileName <;> rfl

/-- A link may be made to programs that differ in their stamps only. -/
theorem link_alike {path : Node} {instruction : String → Instruction}
    {add : Program → Program → Program}
    (ha : ∀ p q, (add p q).unstamped = add p.unstamped q.unstamped)
    (hl : ∀ text, pathOf? path = some text →
      (library text).map Program.unstamped = (library' text).map Program.unstamped) :
    Alike (link library begin path instruction add) (link library' begin path instruction add) := by
  unfold link
  cases hp : pathOf? path with
  | none => exact .pure _
  | some text =>
    refine (update_modifyScope_alike ..).bind fun _ => ?_
    have hsame := hl text hp
    cases h : library text with
    | none =>
      have h' : library' text = none := by simpa [h] using hsame.symm
      rw [h']
      refine Alike.bind ⟨fun r r' hr => ⟨rfl, ?_⟩⟩ fun _ => .pure _
      show (ite _ _ _ : Resolution).Alike (ite _ _ _ : Resolution)
      split <;> split <;> exact hr
    | some linked =>
      cases h' : library' text with
      | none => simp [h, h'] at hsame
      | some linked' =>
        have heq : linked.unstamped = linked'.unstamped := by simpa [h, h'] using hsame
        refine Alike.bind (.update fun p p' hp => ?_) fun _ => .pure _
        rw [ha, ha, hp, heq]

/-! ## The walk -/

theorem visitAll_alike
    (h : ∀ m ∈ ns, ∀ scope, Alike (visit library scope m) (visit library' scope m))
    (scope : Nat) : Alike (visitAll library scope ns) (visitAll library' scope ns) := by
  induction ns with
  | nil => exact .pure []
  | cons n ns ih =>
    rw [List.forall_mem_cons] at h
    rw [visitAll, visitAll]
    exact (h.1 scope).bind fun type => (ih h.2).bind fun types => .pure (type :: types)

theorem visitOption_alike {o : Option Node}
    (h : ∀ m ∈ o, ∀ scope, Alike (visit library scope m) (visit library' scope m)) (scope : Nat) :
    Alike (visitOption library scope o) (visitOption library' scope o) := by
  cases o with
  | none => exact .pure none
  | some n =>
    rw [visitOption, visitOption]
    exact (h n rfl scope).map some

theorem visitBody_alike {n : Node}
    (h : ∀ m ∈ n.bodyParts, ∀ scope, Alike (visit library scope m) (visit library' scope m))
    (scope : Nat) : Alike (visitBody library scope n) (visitBody library' scope n) := by
  fun_induction Node.bodyParts n with
  | case1 begin stop statements =>
    rw [visitBody, visitBody]
    exact (visitAll_alike h scope).bind fun _ => .pure ()
  | case2 begin stop primary holes ih =>
    rw [visitBody, visitBody]
    exact ih h
  | case3 n hb hc =>
    have hn := List.forall_mem_singleton.mp h scope
    obtain ⟨begin, stop, kind⟩ := n
    rw [visit, visit] at hn
    have hblock : ∀ statements, kind = .block statements → False :=
      fun ss heq => hb _ _ ss (by rw [heq])
    have hcomb : ∀ primary holes, kind = .combination primary holes → False :=
      fun p hs heq => hc _ _ p hs (by rw [heq])
    rw [visitBody, visitBody]
    · exact hn.bind fun _ => .pure ()
    all_goals first | exact hblock | exact hcomb

/-- The libraries give for each path programs that differ in their stamps only. -/
def SameOn (paths : List String) (library library' : Library) : Prop :=
  ∀ path ∈ paths,
    (library path).map Program.unstamped = (library' path).map Program.unstamped

/-- The variable that a loop binds is recorded alike. -/
theorem defineItem_alike {binding : Node} {iterable : Ty} {p : Resolve Unit}
    (h : defineItem? scope binding iterable = some p) : Alike p p := by
  unfold defineItem? at h
  split at h
  · obtain rfl := Option.some.inj h
    exact defineNamed_alike ..
  · exact absurd h (by simp)

/-! ### One construct -/

/-- The parts of a construct that the walk goes into are walked alike. -/
def PartsAlike (library library' : Library) (kind : NodeKind) : Prop :=
  ∀ m ∈ kind.walked, ∀ scope, Alike (visit library scope m) (visit library' scope m)

namespace PartsAlike

variable (h : PartsAlike library library' kind)
include h

theorem all (hns : ns ⊆ kind.walked) (scope : Nat) :
    Alike (visitAll library scope ns) (visitAll library' scope ns) :=
  visitAll_alike (fun m hm => h m (hns hm)) scope

theorem option {o : Option Node} (ho : o.toList ⊆ kind.walked) (scope : Nat) :
    Alike (visitOption library scope o) (visitOption library' scope o) :=
  visitOption_alike (fun m hm => h m (ho (Option.mem_toList.mpr hm))) scope

/-- What a loop over items binds is recorded alike, or walked alike. -/
theorem foreachLoop {binding iterable body : Node}
    (hkind : kind = .foreachLoop binding iterable body) (scope : Nat) :
    Alike (visitKind library scope begin stop kind)
      (visitKind library' scope begin stop kind) := by
  subst hkind
  simp only [visitKind]
  refine (h _ List.mem_cons_self _).bind fun type => (openScope_alike ..).bind fun id => ?_
  have hbody := h body (by simp [NodeKind.walked]) id
  cases hd : defineItem? id binding type with
  | some p => exact (defineItem_alike hd).bind fun _ => hbody.bind fun _ => .pure _
  | none =>
    -- what is no declaration is walked
    have hb : binding.isBinding = false := by
      cases hb : binding.isBinding with
      | false => rfl
      | true =>
        obtain ⟨p, -, hp, -⟩ := defineItem_eq id type hb
        exact absurd (hd.symm.trans hp) (by simp)
    exact (h binding (by simp [NodeKind.walked, hb]) id).bind fun _ =>
      hbody.bind fun _ => .pure _

/-- A construct with a scope of its own: the scope is opened alike, whether before the first part
or between two of them, and the parts in it are walked alike. -/
theorem ownScope (hscope : kind.hasScope = true) (scope : Nat) :
    Alike (visitKind library scope begin stop kind)
      (visitKind library' scope begin stop kind) := by
  cases kind with
  | classDef title inherits body =>
    cases inherits with
    | some file => cases hscope
    | none =>
      simp only [visitKind]
      exact class_alike (.pure _) fun _ id => (visitAll_alike h id).bind fun _ => .pure _
  | functionDef mods returns title parameters variadic body =>
    cases body with
    | none => cases hscope
    | some body =>
      simp only [visitKind]
      refine (defineNamed_alike ..).bind fun _ => (openFunction_alike ..).bind fun _ =>
        Alike.bind ?_ fun _ => .pure _
      -- the statements of the body are parts of the function, and the block itself is none
      exact visitBody_alike (fun m hm => h m (by simpa [NodeKind.walked] using hm)) _
  | block statements =>
    simp only [visitKind]
    exact (openBody_alike ..).bind fun _ => (visitAll_alike h _).bind fun _ => .pure _
  | forLoop initializer condition step body =>
    simp only [visitKind]
    exact (openScope_alike ..).bind fun _ =>
      (h.option (List.subset_append_left ..) _).bind fun _ =>
      (h.option (fun m hm => by simp [NodeKind.walked, Option.mem_toList.mp hm]) _).bind fun _ =>
      (h.option (fun m hm => by simp [NodeKind.walked, Option.mem_toList.mp hm]) _).bind fun _ =>
      (h _ (by simp [NodeKind.walked]) _).bind fun _ => .pure _
  | foreachLoop binding iterable body => exact h.foreachLoop rfl scope
  | switchOn value cases =>
    simp only [visitKind]
    exact (h _ List.mem_cons_self _).bind fun _ => (openScope_alike ..).bind fun _ =>
      (h.all (List.subset_cons_self ..) _).bind fun _ => .pure _
  | tryCatch body exception handler =>
    simp only [visitKind]
    exact (h _ List.mem_cons_self _).bind fun _ => (openScope_alike ..).bind fun _ =>
      (h.option (by simp [NodeKind.walked]) _).bind fun _ =>
      (h _ (by simp [NodeKind.walked]) _).bind fun _ => .pure _
  | _ => cases hscope

/-- Where holes were found around a construct, it is walked as such, but for braces: a block and a
class open their scopes, and the holes among their parts are walked with these. -/
theorem combination {primary : Node} {holes : List Node}
    (hkind : kind = .combination primary holes) (scope : Nat) :
    Alike (visitKind library scope begin stop kind)
      (visitKind library' scope begin stop kind) := by
  subst hkind
  obtain ⟨b, e, k⟩ := primary
  cases k with
  | block statements =>
    simp only [visitKind]
    exact (openBody_alike ..).bind fun _ => (visitAll_alike h _).bind fun _ => .pure _
  | classDef title inherits body =>
    simp only [visitKind]
    refine class_alike (.pure _) fun hi id => Alike.bind ?_ fun _ => .pure _
    subst hi
    exact visitAll_alike h _
  | _ =>
    simp only [visitKind]
    exact (h _ List.mem_cons_self _).bind fun _ =>
      (h.all (List.subset_cons_self ..) _).bind fun _ => .pure _

/-- What neither declares anything nor opens a scope is looked up or walked part by part. -/
theorem passive (hacts : kind.acts = false) (scope : Nat) :
    Alike (visitKind library scope begin stop kind)
      (visitKind library' scope begin stop kind) := by
  cases kind with
  -- names are looked up among programs that differ in their stamps only
  | name text =>
    simp only [visitKind]
    exact nameType_alike ..
  | scopeChain label_ title =>
    simp only [visitKind]
    exact scopedType_alike ..
  | this =>
    simp only [visitKind]
    exact thisType_alike
  | combination primary holes => exact h.combination rfl scope
  | ifElse condition thenBranch elseBranch =>
    simp only [visitKind]
    exact (h _ (by simp [NodeKind.walked]) _).bind fun _ =>
      (h _ (by simp [NodeKind.walked]) _).bind fun _ =>
      (h.option (List.subset_append_right ..) _).bind fun _ => .pure _
  | caseLabel label statements =>
    simp only [visitKind]
    exact (h.option (List.subset_append_left ..) _).bind fun _ =>
      (h.all (List.subset_append_right ..) _).bind fun _ => .pure _
  | returnValue value =>
    simp only [visitKind]
    exact (h.option (List.Subset.refl _) _).bind fun _ => .pure _
  | call callee arguments =>
    simp only [visitKind]
    exact (h _ List.mem_cons_self _).bind fun _ =>
      (h.all (List.subset_cons_self ..) _).bind fun _ => .pure _
  | new target arguments =>
    simp only [visitKind]
    refine (h.all (List.subset_append_left ..) _).bind fun _ => ?_
    -- a type behind `new` is no part that is walked
    cases ht : isType target with
    | true => exact .pure _
    | false => exact (h _ (by simp [NodeKind.walked, ht]) _).bind fun _ => .pure _
  | range lower upper =>
    simp only [visitKind]
    exact (h.option (List.subset_append_left ..) _).bind fun _ =>
      (h.option (List.subset_append_right ..) _).bind fun _ => .pure _
  | array | mapping =>
    simp only [visitKind]
    exact (visitAll_alike h _).bind fun _ => .pure _
  | ternary condition thenValue elseValue =>
    simp only [visitKind]
    exact (h _ (by simp [NodeKind.walked]) _).bind fun _ =>
      (h _ (by simp [NodeKind.walked]) _).bind fun _ =>
      (h _ (by simp [NodeKind.walked]) _).bind fun _ => .pure _
  | whileLoop | doWhile | subscript | binary | entry =>
    -- two parts, one after the other
    simp only [visitKind]
    exact (h _ (by simp [NodeKind.walked]) _).bind fun _ =>
      (h _ (by simp [NodeKind.walked]) _).bind fun _ => .pure _
  | member | cast | unary | typeTest =>
    simp only [visitKind]
    exact (h _ (by simp [NodeKind.walked]) _).bind fun _ => .pure _
  | includeFile | inheritFile | classDef | variableDef | functionDef | block | forLoop | foreachLoop
  | switchOn | tryCatch => cases hacts
  | _ =>
    -- nothing to look up, and no parts
    simp only [visitKind]
    exact .pure _

end PartsAlike

/-- A link is made to what the libraries have for the path, which is the same up to stamps. -/
theorem visitKind_link_alike (hlink : kind.isLink = true)
    (hlib : SameOn (linkedPaths [.mk begin stop kind]) library library') (scope : Nat) :
    Alike (visitKind library scope begin stop kind)
      (visitKind library' scope begin stop kind) := by
  cases kind with
  | includeFile path =>
    rw [visitKind, visitKind]
    refine link_alike Program.unstamped_addIncluded fun text ht => hlib text ?_
    rw [linkedPaths, includedPaths_singleton]
    simp [NodeKind.includes?, Node.kind, ht]
  | inheritFile path =>
    rw [visitKind, visitKind]
    refine link_alike Program.unstamped_addInherited fun text ht => hlib text ?_
    rw [linkedPaths, inheritedPaths_singleton]
    simp [NodeKind.inherits?, Node.kind, ht]
  | _ => cases hlink

/-- **What the walk finds and makes depends on stamps in the library no further than in them.** -/
theorem visit_alike (n : Node) : SameOn (linkedPaths [n]) library library' →
    ∀ scope, Alike (visit library scope n) (visit library' scope n) := by
  -- the induction follows the walk: its parts are not those of the tree, see `NodeKind.walked`
  induction n using Node.induct_walked with
  | step n ih =>
    intro hlib scope
    have parts : PartsAlike library library' n.kind := fun m hm =>
      ih m hm fun path hpath => hlib path (linkedPaths_walked hm hpath)
    obtain ⟨begin, stop, kind⟩ := n
    replace parts : PartsAlike library library' kind := parts
    rw [visit, visit]
    cases kind with
    | includeFile | inheritFile => exact visitKind_link_alike rfl hlib scope
    | combination => exact parts.combination rfl scope
    | classDef title inherits body =>
      cases inherits with
      | none => exact parts.ownScope rfl scope
      | some file =>
        -- the members are in another file, so there is no scope for them here
        simp only [visitKind]
        exact class_alike (.pure _) fun hnone => absurd hnone (Option.some_ne_none file)
    | functionDef mods returns title parameters variadic body =>
      cases body with
      | some body => exact parts.ownScope rfl scope
      | none =>
        simp only [visitKind]
        exact (defineNamed_alike ..).bind fun _ => .pure _
    | variableDef mods type title value =>
      -- the value is walked first, since the type of the variable may come from it
      simp only [visitKind]
      exact (parts.option (List.Subset.refl _) _).bind fun _ => (defineNamed_alike ..).bind fun _ =>
        .pure _
    | block | forLoop | foreachLoop | switchOn | tryCatch => exact parts.ownScope rfl scope
    | _ => exact parts.passive rfl scope

end Resolve

open Resolve in
/-- **What a file stands for depends on the paths that it names only**: two libraries that give
for them the same up to stamps give the file the same up to stamps. -/
theorem resolve_unstamped {nodes : List Node}
    (h : SameOn (linkedPaths nodes) library library') (stamp stamp' : Nat)
    (fileName : Option String) :
    (resolve library stamp fileName nodes).program.unstamped =
      (resolve library' stamp' fileName nodes).program.unstamped := by
  have hall := visitAll_alike (fun n hn =>
    visit_alike n fun path hpath => h path (linkedPaths_of_mem hn hpath)) 0
  refine (hall.run _ _ ?_).2
  show (Program.empty ..).unstamped = (Program.empty ..).unstamped
  rw [Program.unstamped_empty, Program.unstamped_empty]

end MudEdit
