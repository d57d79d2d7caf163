import MudEdit.Proofs.Program.Walks

/-!
# Every construct is walked by the rules

What the walk does at each construct, as equations between resolutions, and from them that
it keeps to the rules of `Walks`. Most constructs only hand their parts on. The others open
a scope and fill it before its parts are walked.
-/

namespace MudEdit

variable {library : Library} {s begin stop : Nat} {n : Node} {ns : List Node} {kind : NodeKind}
  {r r₁ r' : Resolution}

/-! ## Constructs that hand their parts on -/

namespace Resolve

variable {scope : Nat} {α β : Type}

/-- First the one, then the other. -/
theorem after_bind (p : Resolve α) (f : α → Resolve β) :
    after (p >>= f) r = after (f (p r).1) (after p r) := rfl

theorem after_bind_of_eq {p : Resolve α} {f : α → Resolve β} {a : α} (h : p r = (a, r₁)) :
    after (p >>= f) r = after (f a) r₁ := by
  have ha : after p r = r₁ := by rw [after, h]
  rw [after_bind, ha, h]

/-- Lists are visited in their order. -/
theorem after_visitAll_append (ns ms : List Node) : after (visitAll library scope (ns ++ ms)) r =
    after (visitAll library scope ms) (after (visitAll library scope ns) r) := by
  induction ns generalizing r with
  | nil => rfl
  | cons n ns ih =>
    rw [List.cons_append, visitAll, visitAll]
    exact ih

theorem after_visitAll_singleton (n : Node) : after (visitAll library scope [n]) r =
    after (visit library scope n) r := by
  rw [visitAll]
  rfl

/-- What may be missing is visited if it is there. -/
theorem after_visitOption (o : Option Node) :
    after (visitOption library scope o) r = after (visitAll library scope o.toList) r := by
  cases o with
  | none => rfl
  | some n => rw [visitOption, Option.toList, after_visitAll_singleton]; rfl

/-- The body of a function is walked part by part. -/
theorem after_visitBody (n : Node) : after (visitBody library scope n) r =
    after (visitAll library scope n.bodyParts) r := by
  fun_induction Node.bodyParts n with
  | case1 => rw [visitBody]; rfl
  | case2 begin stop primary holes ih => rw [visitBody, ih]
  | case3 n hb hc =>
    obtain ⟨begin, stop, kind⟩ := n
    rw [after_visitAll_singleton, visitBody, visit]
    · rfl
    · exact fun ss h => hb _ _ ss (by rw [h])
    · exact fun p hs h => hc _ _ p hs (by rw [h])

/-- What is used of the program made so far leaves it as it is. -/
theorem after_scopedType (label_ : Option Node) (name : Node) :
    after (scopedType label_ name) r = r := by
  unfold scopedType
  rw [after_bind]
  dsimp only
  split <;> rfl

/-- To look up a type changes nothing. -/
theorem after_thisType : after thisType r = r := by
  unfold thisType
  rw [after_bind]
  split <;> rfl

/-- A construct that does nothing else has its parts walked where it is. -/
theorem after_visitKind (h : kind.acts = false) :
    after (visitKind library scope begin stop kind) r =
      after (visitAll library scope kind.walked) r := by
  cases kind with
  | combination primary holes =>
    obtain ⟨b, e, k⟩ := primary
    cases k with
    | block | classDef => exact absurd h (by simp [NodeKind.acts])
    | _ => simp only [visitKind, NodeKind.walked, visitAll]; rfl
  | ifElse _ _ part | caseLabel part _ | returnValue part =>
    cases part <;>
      simp only [visitKind, NodeKind.walked, visitAll, visitOption, Option.toList,
        List.append_nil, List.cons_append, List.nil_append] <;> rfl
  | range lower upper =>
    cases lower <;> cases upper <;>
      simp only [visitKind, NodeKind.walked, visitAll, visitOption, Option.toList,
        List.cons_append, List.nil_append] <;> rfl
  | new target arguments =>
    -- the target of a new value is only walked if it is an expression
    simp only [visitKind, NodeKind.walked]
    split
    · rw [List.append_nil]; rfl
    · rw [after_visitAll_append, after_visitAll_singleton]; rfl
  | scopeChain => rw [visitKind, after_scopedType]; rfl
  | this => rw [visitKind, after_thisType]; rfl
  | whileLoop | doWhile | call | member | cast | subscript | binary | unary | ternary | typeTest
  | array | mapping | entry =>
    simp only [visitKind, NodeKind.walked, visitAll, List.cons_append, List.nil_append]; rfl
  | includeFile | inheritFile | classDef | variableDef | functionDef | block | forLoop
  | foreachLoop | switchOn | tryCatch => exact absurd h (by simp [NodeKind.acts])
  | _ => simp only [visitKind, NodeKind.walked, visitAll]; rfl

/-- The declaration that a name makes, if it is there. -/
def definition? (begin stop : Nat) (title : Node) (type : Ty) (dk : DefinitionKind)
    (mods : List Modifier) : Option Definition :=
  title.nameText?.map fun text => ⟨begin, stop, text, type, dk, mods⟩

/-- A definition has the title of what it defines. -/
theorem title_definition? (begin stop : Nat) (title : Node) (type : Ty) (dk : DefinitionKind)
    (mods : List Modifier) : (definition? begin stop title type dk mods).map Definition.title =
      title.nameText?.map (begin, ·) := by
  unfold definition?
  cases title.nameText? <;> rfl

/-- To define by a name that is missing defines nothing. -/
theorem after_defineNamed (r : Resolution) (scope begin stop : Nat) (title : Node) (type : Ty)
    (dk : DefinitionKind) (mods : List Modifier) :
    after (defineNamed scope begin stop title type dk mods) r =
      r.declare scope (definition? begin stop title type dk mods) := by
  unfold defineNamed definition?
  cases title.nameText? <;> rfl

end Resolve

/-! ## Links -/

/-- What a link makes of the program: if the path can be read, it is recorded, and the program
that the library has for it is added. -/
theorem program_link (library : Library) (r : Resolution) (begin : Nat) (path : Node)
    (instruction : String → Instruction) (add : Program → Program → Program) :
    (Resolve.after (Resolve.link library begin path instruction add) r).program =
      match Resolve.pathOf? path with
      | none => r.program
      | some text =>
        let recorded := r.program.modifyScope 0 (·.record begin (instruction text))
        ((library text).map (add recorded)).getD recorded := by
  unfold Resolve.link
  cases Resolve.pathOf? path with
  | none => rfl
  | some text =>
    dsimp only
    rw [Resolve.after_bind]
    cases library text with
    | some linked => rfl
    | none =>
      show (ite _ _ _ : Resolution).program = _
      split <;> rfl

/-! ## Opening scopes -/

namespace Scope.Fills

theorem id : Fills fun s => s := ⟨fun _ => rfl, fun _ h => h⟩

theorem comp {f g : Scope → Scope} (hf : Fills f) (hg : Fills g) : Fills fun s => g (f s) :=
  ⟨fun s => (hg.frame (f s)).trans (hf.frame s), fun s h => hg.ordered _ (hf.ordered s h)⟩

theorem owner (o : Option Nat) : Fills fun s => { s with owner := o } :=
  ⟨fun _ => rfl, fun _ h => ⟨h.sorted, h.place⟩⟩

theorem define (d : Definition) : Fills (·.record d.begin (.define d)) :=
  ⟨fun _ => rfl, fun _ h => h.record fun _ hd => (Instruction.define.inj hd) ▸ rfl⟩

theorem link (offset : Nat) {i : Instruction} (hi : i.definition? = none) :
    Fills (·.record offset i) := by
  refine ⟨fun _ => rfl, fun _ h => h.record fun d hd => ?_⟩
  subst hd
  exact absurd hi (by simp [Instruction.definition?])

end Scope.Fills

namespace Program

variable {p : Program} {id : Nat}

theorem modifyScope_id : p.modifyScope id (fun s => s) = p := by
  obtain ⟨stamp, fileName, scopes, included, inherited⟩ := p
  show Program.mk _ _ (scopes.modify id _) _ _ = _
  congr 1
  refine Array.ext (by simp) fun i _ _ => ?_
  simp [Array.getElem_modify]

theorem modifyScope_modifyScope (f g : Scope → Scope) :
    (p.modifyScope id f).modifyScope id g = p.modifyScope id fun s => g (f s) := by
  obtain ⟨stamp, fileName, scopes, included, inherited⟩ := p
  show Program.mk _ _ ((scopes.modify id f).modify id g) _ _ =
    Program.mk _ _ (scopes.modify id _) _ _
  congr 1
  refine Array.ext (by simp) fun i _ _ => ?_
  simp only [Array.getElem_modify]
  split <;> rfl

end Program

namespace Resolve

/-- With declarations recorded one after the other. -/
def fill (ds : List Definition) (s : Scope) : Scope :=
  ds.foldl (fun s d => s.record d.begin (.define d)) s

/-- What is recorded in the scope of a function before its body is walked. -/
def fillFunction (owner : Nat) (ds : List Definition) (s : Scope) : Scope :=
  fill ds { s with owner := some owner }

/-- To record definitions gains them, in their order. -/
theorem fill_gains (ds : List Definition) : Scope.Gains ds (fill ds) := by
  induction ds with
  | nil => exact ⟨.id, fun _ => rfl⟩
  | cons d ds ih => exact ⟨(Scope.Fills.define d).comp ih.toFills, fun s => ih.instructions _⟩

/-- So it is with those of a function, which also gets its owner. -/
theorem fillFunction_gains (owner : Nat) (ds : List Definition) :
    Scope.Gains ds (fillFunction owner ds) :=
  ⟨(Scope.Fills.owner _).comp (fill_gains ds).toFills, fun _ => (fill_gains ds).instructions _⟩

/-- In a scope that was opened before, a declaration is recorded by filling it. -/
theorem declare_eq (s : Nat) (o : Option Definition) :
    r.declare s o = { r with program := r.program.modifyScope s (fill o.toList) } := by
  cases o with
  | none =>
    show r = Resolution.mk (r.program.modifyScope s fun s => s) _
    rw [Program.modifyScope_id]
  | some d => rfl

theorem after_defines (id : Nat) (ds : List Definition) :
    after (ds.forM (define id)) r = { r with program := r.program.modifyScope id (fill ds) } := by
  induction ds generalizing r with
  | nil =>
    show r = Resolution.mk (r.program.modifyScope id fun s => s) _
    rw [Program.modifyScope_id]
  | cons d ds ih =>
    show after (define id d >>= fun _ => ds.forM (define id)) r = _
    rw [after_bind, ih]
    show Resolution.mk ((r.program.modifyScope id _).modifyScope id _) _ = _
    rw [Program.modifyScope_modifyScope]
    rfl

/-- A function opens one scope with all its parameters in it. -/
theorem openFunction_eq (scope owner : Nat) (body : Node) (parameters : List Node) :
    openFunction scope owner body parameters r = (r.program.scopes.size,
      r.enter scope body.begin (if isUnclosed body then endless else body.stop)
        (fillFunction owner (parameters.filterMap parameterDefinition?))) := by
  show (r.program.scopes.size, after ((parameters.filterMap parameterDefinition?).forM _) _) = _
  rw [after_defines]
  refine Prod.ext rfl ?_
  show Resolution.mk ((Program.modifyScope _ _ _).modifyScope _ _) _ = _
  rw [Program.modifyScope_modifyScope]
  rfl

/-- A body opens a scope, to the end of the text if it is not closed. -/
theorem openBody_eq (parent begin stop : Nat) (unclosed : Bool) :
    openBody parent begin stop unclosed r = (r.program.scopes.size,
      r.enter parent begin (if unclosed then endless else stop) fun s => s) := by
  show (r.program.scopes.size, Resolution.mk _ _) = (_, Resolution.mk _ _)
  rw [Program.modifyScope_id]

theorem openScope_eq (parent begin stop : Nat) : openScope parent begin stop r =
    (r.program.scopes.size, r.enter parent begin stop fun s => s) := openBody_eq _ _ _ false

end Resolve

/-! ## What the walk does at a construct -/

namespace Resolve

/-- The type of what a class makes. -/
def classType (inherits : Option Node) : Ty :=
  match inherits.bind pathOf? with
  | some path => .object path
  | none => .plain .object

/-- The declaration that a construct is. A variable that is declared without a type has the one
that was found for it. -/
def declaration? (found : Ty) : Node → Option Definition
  | .mk begin stop (.variableDef mods type title _) =>
    definition? begin stop title ((type.map Ty.ofNode).getD found) .var (modifiersOf mods)
  | .mk begin stop (.functionDef mods returns title parameters variadic _) =>
    definition? begin stop title (.ofNode returns) (.func (parameters.map parameterType) variadic)
      (modifiersOf mods)
  | .mk begin stop (.classDef title inherits _)
  | .mk begin stop (.combination (.mk _ _ (.classDef title inherits _)) _) =>
    definition? begin stop title (classType inherits) .cls []
  | _ => none

/-- The variable that a loop binds, if it is declared there. -/
def item? (found : Ty) (binding : Node) : Option Definition :=
  match binding.primary with
  | .mk begin stop (.variableDef _ type title _) =>
    definition? begin stop title ((type.map Ty.ofNode).getD found) .var []
  | _ => none

/-- What is recorded in the scope of a construct before its parts are walked. -/
def filling (found : Ty) : Node → Scope → Scope
  | .mk begin _ (.functionDef _ _ _ parameters _ (some _)) =>
    fillFunction begin (parameters.filterMap parameterDefinition?)
  | .mk _ _ (.foreachLoop binding _ _) => fill (item? found binding).toList
  | _ => fill []

/-- What the walk of a construct comes to, the walks of its parts included: a file is linked,
or the parts are walked in the same scope, or they are walked in a scope that is opened and
filled before. In the scope around it the construct is recorded if it declares a name. -/
inductive Turn (library : Library) (s : Nat) (n : Node) (r : Resolution) : Resolution → Prop where
  | includes {begin stop : Nat} {path : Node} : n = .mk begin stop (.includeFile path) →
      Turn library s n r (after (link library begin path .includeFile .addIncluded) r)
  | inherits {begin stop : Nat} {path : Node} : n = .mk begin stop (.inheritFile path) →
      Turn library s n r (after (link library begin path .inheritFile .addInherited) r)
  | keeps {o : Option Definition} : n.kind.isLink = false → n.kind.opens = false →
      o.map Definition.title = n.title? → (∃ found, o = declaration? found n) →
      Turn library s n r ((after (visitAll library s n.kind.walked) r).declare s o)
  | enters {inner : List Node} {o : Option Definition} {ds : List Definition}
      {f : Scope → Scope} {r₁ : Resolution} : n.kind.opens = true →
      n.kind.walked = n.kind.outer ++ inner → o.map Definition.title = n.title? →
      Scope.Gains ds f → ds.map Definition.title = n.kind.locals →
      r₁ = after (visitAll library s n.kind.outer) (r.declare s o) →
      (∃ found, o = declaration? found n) → (∃ found, f = filling found n) →
      Turn library s n r (after (visitAll library r₁.program.scopes.size inner)
        (r₁.enter s n.scopeNode.begin n.scopeNode.reach f))

/-- A construct that declares nothing, with a scope of its own. -/
theorem Turn.scoped (outer inner : List Node) {ds : List Definition}
    {f : Scope → Scope} (hn : n.kind.opens = true) (ho : n.kind.outer = outer)
    (hw : n.kind.walked = outer ++ inner) (ht : n.title? = none) (hf : Scope.Gains ds f)
    (hd : ds.map Definition.title = n.kind.locals)
    (h₁ : r₁ = after (visitAll library s outer) r)
    (h' : r' = after (visitAll library r₁.program.scopes.size inner)
      (r₁.enter s n.scopeNode.begin n.scopeNode.reach f))
    (hnone : declaration? .any n = none) (hfilling : ∃ found, f = filling found n) :
    Turn library s n r r' := by
  subst ho h₁ h'
  exact .enters (o := none) hn hw ht.symm hf hd rfl ⟨_, hnone.symm⟩ hfilling

/-- A class that is taken from a file opens none. -/
theorem openClass_some (title file : Node) (unclosed : Bool) :
    openClass s begin stop unclosed title (some file) r =
      (none, after (defineNamed s begin stop title (classType (some file)) .cls []) r) := rfl

theorem openClass_none (title : Node) (unclosed : Bool) :
    openClass s begin stop unclosed title none r =
      let r₁ := after (defineNamed s begin stop title (classType none) .cls []) r
      (some r₁.program.scopes.size,
        r₁.enter s begin (if unclosed then endless else stop) fun s => s) := by
  let r₁ := after (defineNamed s begin stop title (classType none) .cls []) r
  show ((some (openBody s begin stop unclosed r₁).1, (openBody s begin stop unclosed r₁).2) :
    Option Nat × Resolution) = _
  rw [openBody_eq]

/-- A class is declared, and then its members are walked in a scope of their own. -/
theorem Turn.class {title : Node} {inherits : Option Node} {body : List Node} {unclosed : Bool}
    (hn : n.kind.opens = inherits.isNone) (hl : n.kind.isLink = false)
    (hw : n.kind.walked = if inherits.isSome then [] else body)
    (ho : n.kind.outer = []) (hlocals : n.kind.locals = []) (hs : n.scopeNode = n)
    (hb : begin = n.begin) (ht : n.title? = title.nameText?.map (n.begin, ·))
    (he : (if unclosed then endless else stop) = n.reach)
    (hd : declaration? .any n = definition? n.begin stop title (classType inherits) .cls [])
    (hf : filling .any n = fill []) :
    Turn library s n r (after (do
      match ← openClass s begin stop unclosed title inherits with
      | some id => let _ ← visitAll library id body
      | none => Pure.pure ()
      return Ty.void) r) := by
  subst hb
  have htitle := (title_definition? n.begin stop title (classType inherits) .cls []).trans ht.symm
  cases inherits with
  | some file =>
    -- no scope is opened, so the class is a definition only
    rw [after_bind_of_eq (openClass_some title file unclosed), after_defineNamed]
    have hturn : Turn library s n r
        ((after (visitAll library s n.kind.walked) r).declare s _) :=
      .keeps hl hn htitle ⟨_, hd.symm⟩
    rw [hw] at hturn
    exact hturn
  | none =>
    -- the class is defined first, and then its members in a scope of their own
    rw [after_bind_of_eq (openClass_none title unclosed)]
    have hwalked : n.kind.walked = n.kind.outer ++ body := by rw [hw, ho]; rfl
    have hturn {r₁ : Resolution} (h₁ : r₁ = after (visitAll library s n.kind.outer) _) :
        Turn library s n r _ :=
      .enters hn hwalked htitle (fill_gains []) hlocals.symm h₁ ⟨_, hd.symm⟩ ⟨_, hf.symm⟩
    rw [ho, hs, ← he] at hturn
    rw [after_defineNamed]
    exact hturn rfl

/-- The variable of a loop is recorded in the scope of the loop. -/
theorem defineItem_eq {binding : Node} (scope : Nat) (iterable : Ty)
    (h : binding.isBinding = true) : ∃ (p : Resolve Unit) (o : Option Definition),
      defineItem? scope binding iterable = some p ∧
        o.map Definition.title = binding.primary.title? ∧ o = item? (itemType iterable) binding ∧
        ∀ r, after p r = { r with program := r.program.modifyScope scope (fill o.toList) } := by
  unfold Node.isBinding at h
  cases hp : binding.primary with
  | mk b e k =>
  rw [hp] at h
  unfold defineItem?
  rw [hp]
  cases k with
  | variableDef mods type title value =>
    let declared := (type.map Ty.ofNode).getD (itemType iterable)
    refine ⟨_, definition? b e title declared .var [], rfl, title_definition? .., ?_, fun r => ?_⟩
    · rw [item?, hp]
    · rw [after_defineNamed, declare_eq]
  | _ => exact absurd h (by simp [Node.kind])

/-- An expression binds nothing. -/
theorem item?_none {binding : Node} (found : Ty) (h : binding.isBinding = false) :
    item? found binding = none := by
  unfold Node.isBinding at h
  unfold item?
  split
  · rename_i hp
    rw [hp] at h
    exact Bool.noConfusion h
  · rfl

theorem defineItem_none {scope : Nat} {binding : Node} (iterable : Ty)
    (h : binding.isBinding = false) : defineItem? scope binding iterable = none := by
  unfold Node.isBinding at h
  cases hp : binding.primary with
  | mk b e k =>
  rw [hp] at h
  unfold defineItem?
  rw [hp]
  cases k with
  | variableDef => exact absurd h (by simp [Node.kind])
  | _ => rfl

/-- What does nothing but have its parts walked has no scope and declares no name. -/
theorem opens_of_acts (begin stop : Nat) (h : kind.acts = false) :
    kind.opens = false ∧ (Node.mk begin stop kind).title? = none ∧
      declaration? .any (.mk begin stop kind) = none := by
  cases kind with
  | combination primary holes =>
    obtain ⟨b, e, k⟩ := primary
    cases k with
    | block | classDef => exact absurd h (by simp [NodeKind.acts])
    | _ => exact ⟨rfl, rfl, rfl⟩
  | includeFile | inheritFile | classDef | variableDef | functionDef | block | forLoop
  | foreachLoop | switchOn | tryCatch => exact absurd h (by simp [NodeKind.acts])
  | _ => exact ⟨rfl, rfl, rfl⟩

/-- A loop over items is walked in a scope of its own. A variable that it binds is recorded there,
and what it binds otherwise is walked there. -/
theorem foreach_turn (binding iterable body : Node) :
    Turn library s (.mk begin stop (.foreachLoop binding iterable body)) r
      (after (visitKind library s begin stop (.foreachLoop binding iterable body)) r) := by
  rw [visitKind, after_bind, after_bind_of_eq (openScope_eq ..)]
  have hover : after (visitAll library s [iterable]) r = after (visit library s iterable) r :=
    after_visitAll_singleton iterable
  cases hb : binding.isBinding with
  | true =>
    obtain ⟨p, o, hp, ho, hitem, heq⟩ := defineItem_eq
      (after (visit library s iterable) r).program.scopes.size
      (visit library s iterable r).1 hb
    rw [hp]
    dsimp only
    rw [after_bind, heq]
    refine .scoped [iterable] [body] rfl rfl (by simp [NodeKind.walked, hb, Node.kind]) rfl
      (fill_gains o.toList) ?_ hover.symm ?_ rfl ⟨_, by rw [hitem]; rfl⟩
    · simp only [Node.kind, NodeKind.locals, hb, if_true, ← ho]
      cases o <;> rfl
    · -- the scope is filled after it was opened, which is to open it filled
      rw [after_visitAll_singleton, Resolution.enter, Program.modifyScope_modifyScope]
      rfl
  | false =>
    rw [defineItem_none _ hb]
    refine .scoped [iterable] [binding, body] rfl rfl
      (by simp [NodeKind.walked, hb, Node.kind]) rfl (fill_gains [])
      (by simp [NodeKind.locals, hb, Node.kind]) hover.symm ?_ rfl
      ⟨.any, by rw [filling, item?_none _ hb]; rfl⟩
    simp only [visitAll]
    rfl

/-- **At every construct the walk takes a turn.** -/
theorem visit_turn (n : Node) (s : Nat) (r : Resolution) :
    Turn library s n r (after (visit library s n) r) := by
  obtain ⟨begin, stop, kind⟩ := n
  rw [visit]
  cases hact : kind.acts with
  | false =>
    -- whatever only has its parts walked takes the same turn
    rw [after_visitKind hact]
    obtain ⟨hopens, htitle, hnone⟩ := opens_of_acts begin stop hact
    exact .keeps (o := none) (NodeKind.isLink_of_acts hact) hopens htitle.symm ⟨_, hnone.symm⟩
  | true =>
    cases kind with
    | includeFile path => rw [visitKind]; exact .includes rfl
    | inheritFile path => rw [visitKind]; exact .inherits rfl
    | variableDef mods type title value =>
      rw [visitKind, after_bind, after_bind, after_visitOption, after_defineNamed]
      refine .keeps rfl rfl (title_definition? ..) ⟨(visitOption library s value r).1.getD .any, ?_⟩
      cases type <;> rfl
    | combination primary holes =>
      obtain ⟨b, e, k⟩ := primary
      cases k with
      | block statements =>
        rw [visitKind, after_bind_of_eq (openBody_eq ..)]
        exact .scoped [] statements rfl rfl rfl rfl (fill_gains []) rfl rfl rfl rfl ⟨.any, rfl⟩
      | classDef title inherits body =>
        rw [visitKind]
        exact .class (by cases inherits <;> rfl) rfl rfl rfl rfl rfl rfl rfl rfl rfl rfl
      | _ => exact absurd hact (by simp [NodeKind.acts])
    | classDef title inherits body =>
      rw [visitKind]
      exact .class (by cases inherits <;> rfl) rfl rfl rfl rfl rfl rfl rfl rfl rfl rfl
    | functionDef mods returns title parameters variadic body =>
      rw [visitKind, after_bind, defineFunction, after_defineNamed]
      have htitle := title_definition? begin stop title (.ofNode returns)
        (.func (parameters.map parameterType) variadic) (modifiersOf mods)
      cases body with
      | none => exact .keeps rfl rfl htitle ⟨.any, rfl⟩
      | some body =>
        dsimp only
        rw [after_bind_of_eq (openFunction_eq ..), after_bind, after_visitBody]
        exact .enters rfl (List.flatMap_singleton ..) htitle (fillFunction_gains _ _) rfl rfl
          ⟨.any, rfl⟩ ⟨.any, rfl⟩
    | block statements =>
      rw [visitKind, after_bind_of_eq (openBody_eq ..)]
      exact .scoped [] statements rfl rfl rfl rfl (fill_gains []) rfl rfl rfl rfl ⟨.any, rfl⟩
    | forLoop initializer condition step body =>
      rw [visitKind, after_bind_of_eq (openScope_eq ..)]
      refine .scoped [] (initializer.toList ++ (condition.toList ++ (step.toList ++ [body])))
        rfl rfl rfl rfl (fill_gains []) rfl rfl ?_ rfl ⟨.any, rfl⟩
      simp only [after_bind, after_visitOption, after_visitAll_append, after_visitAll_singleton]
      rfl
    | foreachLoop binding iterable body => exact foreach_turn ..
    | switchOn value cases =>
      rw [visitKind, after_bind, after_bind_of_eq (openScope_eq ..)]
      exact .scoped [value] cases rfl rfl rfl rfl (fill_gains []) rfl
        (after_visitAll_singleton value).symm rfl rfl ⟨.any, rfl⟩
    | tryCatch body exception handler =>
      rw [visitKind, after_bind, after_bind_of_eq (openScope_eq ..)]
      refine .scoped [body] (exception.toList ++ [handler]) rfl rfl rfl rfl (fill_gains []) rfl
        (after_visitAll_singleton body).symm ?_ rfl ⟨.any, rfl⟩
      rw [after_visitAll_append, after_visitAll_singleton, after_bind, after_visitOption]
      rfl
    | _ => exact absurd hact (by simp [NodeKind.acts])

end Resolve

/-! ## Every construct is walked by the rules -/

namespace Node

variable {b : Nat} {text : String}

/-- What is recorded of a construct is that it declares a name where it begins. -/
theorem title?_eq_some (h : n.title? = some (b, text)) : n.isTitled = true ∧ b = n.begin := by
  have hmap {o : Option String} {begin : Nat} (h : o.map (begin, ·) = some (b, text)) :
      o.isSome = true ∧ b = begin := by
    cases o with
    | none => exact absurd h (by simp)
    | some text' => exact ⟨rfl, (Prod.mk.inj (Option.some.inj h)).1.symm⟩
  unfold title? at h
  split at h <;> first | exact hmap h | exact absurd h (by simp)

end Node

namespace Resolve

/-- To define after the parts were walked. -/
theorem declare_walks {o : Option Definition} (h : Walks library s [n] r r')
    (ht : o.map Definition.title = n.title?) : Walks library s [n] r (r'.declare s o) := by
  cases o with
  | none => exact h
  | some d =>
    obtain ⟨htitled, hbegin⟩ := Node.title?_eq_some ht.symm
    exact h.declares htitled hbegin

/-- To define before they are walked. -/
theorem declared_walks {o : Option Definition} (h : Walks library s [n] (r.declare s o) r')
    (ht : o.map Definition.title = n.title?) : Walks library s [n] r r' := by
  cases o with
  | none => exact h
  | some d =>
    obtain ⟨htitled, hbegin⟩ := Node.title?_eq_some ht.symm
    exact .declared htitled hbegin h

/-- Parts that are walked by the rules one at a time are so one after the other. -/
theorem visitAll_walks (h : ∀ m ∈ ns, ∀ s r, Walks library s [m] r (after (visit library s m) r))
    (s : Nat) (r : Resolution) : Walks library s ns r (after (visitAll library s ns) r) := by
  induction ns generalizing r with
  | nil => exact .nil
  | cons n ns ih =>
    rw [List.forall_mem_cons] at h
    rw [visitAll]
    exact (h.1 s r).append (ih h.2 _)

/-- **Every construct is walked by the rules.** -/
theorem visit_walks (n : Node) : ∀ s r, Walks library s [n] r (after (visit library s n) r) := by
  induction n using Node.induct_walked with
  | step n ih =>
    intro s r
    -- one turn at the root, and what it walks by the hypothesis
    generalize hr' : after (visit library s n) r = r'
    have hturn : Turn library s n r r' := hr' ▸ visit_turn n s r
    cases hturn with
    | includes hn => subst hn; exact .includes
    | inherits hn => subst hn; exact .inherits
    | keeps hl _ ht => exact declare_walks (.parts hl (visitAll_walks ih s r)) ht
    | enters ho hw ht hf _ h₁ =>
      subst h₁
      rw [hw, List.forall_mem_append] at ih
      refine declared_walks ?_ ht
      exact .enters ho hw (visitAll_walks ih.1 _ _) hf.toFills (visitAll_walks ih.2 _ _)

/-- So is a whole file. -/
theorem visitAll_walk (library : Library) (ns : List Node) (s : Nat) (r : Resolution) :
    Walks library s ns r (after (visitAll library s ns) r) :=
  visitAll_walks (fun n _ => visit_walks n) s r

end Resolve

end MudEdit
