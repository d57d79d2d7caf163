import Mathlib.Data.List.Nodup
import MudEdit.Document.Finding
import MudEdit.Proofs.Document.SemanticToken
import MudEdit.Proofs.Forest.Content
import MudEdit.Proofs.Forest.Mode

/-!
# What is highlighted, and how often

Keywords and comments are highlighted as tokens, literals and holes as nodes. A name is
highlighted by whoever claims it first, by where it begins. No two names begin together, since
each begins at a token of its own, and what is claimed is a name of the forest. As every name
claims itself at last, each is highlighted once. The holes among the highlights are those of the
diagnostics and of what an editor shows as errors.
-/

namespace MudEdit

variable {all ts seen ns hs : List Node} {n m : Node} {r : Reach} {c c' : Cursor} {mode : Mode}
  {text : String}

/-! ## Names begin at tokens -/

/-- Whether the node is a name that begins there. -/
def Node.isNameAt (offset : Nat) (n : Node) : Bool := Highlight.isName n && n.begin == offset

theorem Node.isNameAt_of_not {offset : Nat} (h : Highlight.isName n = false) :
    n.isNameAt offset = false := by
  rw [isNameAt, h, Bool.false_and]

theorem Node.isNameAt_of_isPlain {offset begin stop : Nat} {kind : NodeKind}
    (h : kind.isPlain r = true) : (new begin stop kind).isNameAt offset = false := by
  refine isNameAt_of_not ?_
  cases kind with
  | name => exact Bool.noConfusion h
  | _ => rfl

/-- No offset is the beginning of more names in the nodes than there are tokens in the list. -/
def NamesWithin (ts : List Token) (ns : List Node) : Prop :=
  ∀ offset, Node.tally (Node.isNameAt offset) ns ≤ (ts.map Token.begin).count offset

namespace NamesWithin

variable {ts us : List Token} {ms : List Node} {u : Token}

theorem append (h₁ : NamesWithin ts ns) (h₂ : NamesWithin us ms) :
    NamesWithin (ts ++ us) (ns ++ ms) := by
  intro offset
  rw [Node.tally_append, List.map_append, List.count_append]
  exact Nat.add_le_add (h₁ offset) (h₂ offset)

theorem congr (h : NamesWithin ts ns) (heq : ∀ offset,
    Node.tally (Node.isNameAt offset) ms = Node.tally (Node.isNameAt offset) ns) :
    NamesWithin ts ms := fun offset => heq offset ▸ h offset

theorem perm (h : NamesWithin ts ns) (hp : ns.Perm ms) : NamesWithin ts ms :=
  h.congr fun _ => Node.tally_perm hp.symm

theorem nil (ts : List Token) : NamesWithin ts [] := fun _ => Nat.zero_le _

/-- What has no parts and is no name has no names. -/
theorem of_leaf (ts : List Token) (hc : n.children = []) (hn : Highlight.isName n = false) :
    NamesWithin ts [n] := by
  intro offset
  rw [Node.tally_singleton, hc, Node.isNameAt_of_not hn]
  exact Nat.zero_le _

/-- What has no parts is one name at most. -/
theorem of_begin (hc : n.children = []) (hb : n.begin = u.begin) : NamesWithin [u] [n] := by
  intro offset
  rw [Node.tally_singleton, hc, Node.tally_nil, Nat.zero_add, List.map_singleton,
    List.count_singleton, Node.isNameAt, hb]
  cases u.begin == offset <;> cases Highlight.isName n <;> decide

end NamesWithin

/-- A name begins at the token that it is made of. -/
theorem namesWithin_kept (all : List Token) : Reads.Kept all NamesWithin where
  nil := .nil []
  append h₁ h₂ := h₁.append h₂
  perm h hp := h.perm hp
  word _ _ _ := .nil _
  leaf _ _ hl := by
    have hch := NodeKind.children_of_isLeaf (Token.isLeaf_of_leaf hl)
    exact .of_begin hch (by simp [Node.new, hch])
  missing _ _ := .of_leaf _ rfl rfl
  wrong _ _ _ := .of_leaf _ rfl rfl
  combine h := h.congr fun _ => Node.tally_combine fun _ _ => Node.isNameAt_of_not rfl
  plain hp h := by
    -- what is made of its parts is no name, so the parts have all that there are
    refine h.congr fun offset => ?_
    rw [Node.tally_cons, Node.tally_new (Node.isNameAt_of_isPlain hp), Node.tally_append]
  operatorName _ _ _ _ := .of_begin rfl rfl
  fileType _ _ _ _ _ _ _ _ _ _ := .of_leaf _ rfl rfl

/-- **The names of a reading begin at the tokens taken**, each at one of its own. -/
theorem Reads.namesWithin (h : Reads r c ns hs c') :
    ∃ ts, c.Takes ts c' ∧ NamesWithin ts (ns ++ hs) :=
  (namesWithin_kept _).reads h rfl

/-- **No two names of a text begin together.** -/
theorem names_nodup (mode : Mode) (text : String) :
    (((Forest.parse mode text).subtrees.filter Highlight.isName).map Node.begin).Nodup := by
  obtain ⟨hr, hall, -⟩ := parse_reads mode text
  obtain ⟨ts, hts, hnames⟩ := hr.namesWithin
  obtain rfl := hall.unique hts
  have hord := (significant_spec mode text).1
  -- each name node takes a token of its own, and no two tokens begin at one place
  have hbegins : ((significant mode text).map Token.begin).Nodup :=
    hord.nodup.map_on fun t ht u hu heq => hord.eq_of_begin ht hu heq
  refine List.nodup_iff_count_le_one.mpr fun offset => ?_
  refine Nat.le_trans ?_ (List.nodup_iff_count_le_one.mp hbegins offset)
  have hle := hnames offset
  rw [List.append_nil, Node.tally] at hle
  refine Nat.le_trans (Nat.le_of_eq ?_) hle
  rw [List.count_eq_countP, List.countP_map, List.countP_filter]
  refine List.countP_congr fun m _ => ?_
  simp [Node.isNameAt, and_comm]

/-! ## What a node has styled -/

/-- What is in a tree, holes aside, is in the tree. -/
theorem Node.primary_mem (h : m ∈ n.subtrees) : m.primary ∈ n.subtrees :=
  subtrees_subset h m.mem_subtrees_primary

namespace Highlight

/-- The style of a literal or a basic type. -/
def literal? (n : Node) : Option Highlight :=
  match n.kind with
  | .int _ => some ⟨n.begin, n.stop, .integer, none⟩
  | .float _ => some ⟨n.begin, n.stop, .float, none⟩
  | .string _ => some ⟨n.begin, n.stop, .string, none⟩
  | .char _ => some ⟨n.begin, n.stop, .character, none⟩
  | .symbol _ => some ⟨n.begin, n.stop, .symbol, none⟩
  | .basicType _ _ => some ⟨n.begin, n.stop, .type, none⟩
  | _ => none

/-- A hole with its message. -/
def ofHole (n : Node) : Highlight :=
  ⟨n.begin, n.stop, if n.isMissing then .missing else .wrong, n.message?⟩

/-- The styles of names. -/
def nameStyles : List HighlightKind := [.function, .var, .parameter, .type, .name]

/-- What a node has styled that is no name. -/
def plain? (n : Node) : Option Highlight :=
  match request n with
  | .plain kind => some (ofNode n kind)
  | _ => none

theorem plain?_of_isHole (h : n.isHole = true) :
    plain? n = some (ofHole n) ∧ literal? n = none := by
  obtain ⟨begin, stop, kind⟩ := n
  cases kind with
  | missing | wrong => exact ⟨rfl, rfl⟩
  | _ => exact Bool.noConfusion h

theorem plain?_of_not_isHole (h : n.isHole = false) : plain? n = literal? n := by
  obtain ⟨begin, stop, kind⟩ := n
  cases kind with
  | missing | wrong => exact Bool.noConfusion h
  | parameter type title => cases title <;> rfl
  | _ => rfl

/-- Besides names, the literals and the holes are styled. -/
theorem filterMap_plain?_perm (ns : List Node) : (ns.filterMap plain?).Perm
    (ns.filterMap literal? ++ (ns.filter Node.isHole).map ofHole) := by
  induction ns with
  | nil => exact .nil
  | cons n ns ih =>
    -- a hole is shown as a hole and as nothing else
    cases h : n.isHole with
    | true =>
      obtain ⟨hplain, hliteral⟩ := plain?_of_isHole h
      rw [List.filterMap_cons_some hplain, List.filterMap_cons_none hliteral,
        List.filter_cons_of_pos h, List.map_cons]
      exact (ih.cons _).trans List.perm_middle.symm
    | false =>
      rw [List.filter_cons_of_neg (by simp [h])]
      cases hliteral : literal? n with
      | none =>
        rw [List.filterMap_cons_none ((plain?_of_not_isHole h).trans hliteral),
          List.filterMap_cons_none hliteral]
        exact ih
      | some styled =>
        rw [List.filterMap_cons_some ((plain?_of_not_isHole h).trans hliteral),
          List.filterMap_cons_some hliteral]
        exact ih.cons _

theorem calledName_mem (callee : Node) : calledName callee ∈ callee.subtrees := by
  unfold calledName
  split
  · rename_i heq
    refine Node.subtrees_subset callee.mem_subtrees_primary (Node.mem_subtrees_child ?_)
    rw [Node.children, heq]
    exact List.mem_cons_of_mem _ List.mem_cons_self
  · rename_i heq
    refine Node.subtrees_subset callee.mem_subtrees_primary (Node.mem_subtrees_child ?_)
    rw [Node.children, heq]
    exact List.mem_append_right _ List.mem_cons_self
  · exact Node.mem_subtrees_self callee

/-- What a node claims is in its tree. -/
theorem request_claim {title : Node} {style : HighlightKind} (h : request n = .claim title style) :
    title.primary ∈ n.subtrees ∧ style ∈ nameStyles := by
  obtain ⟨begin, stop, kind⟩ := n
  have hpart {part : Node} (hpart : part ∈ kind.children) :
      part.primary ∈ (Node.mk begin stop kind).subtrees :=
    Node.primary_mem (Node.mem_subtrees_child (n := .mk begin stop kind) hpart)
  cases kind with
  | variableDef | functionDef | classDef =>
    cases h
    exact ⟨hpart (by simp [NodeKind.children]), by decide⟩
  | parameter type name =>
    cases name <;> cases h
    exact ⟨hpart (by simp [NodeKind.children]), by decide⟩
  | call callee arguments =>
    cases h
    refine ⟨Node.primary_mem (Node.subtrees_subset (Node.mem_subtrees_child ?_)
      (calledName_mem callee)), by decide⟩
    exact List.mem_cons_self
  | name text =>
    cases h
    exact ⟨Node.mem_subtrees_self _, by decide⟩
  | _ => cases h

theorem message?_of_isName (h : isName n = true) : n.message? = none := by
  obtain ⟨begin, stop, kind⟩ := n
  cases kind with
  | name => rfl
  | _ => exact Bool.noConfusion h

/-- A name claims itself. -/
theorem request_of_isName (h : isName n = true) : request n = .claim n .name ∧ n.primary = n := by
  obtain ⟨begin, stop, kind⟩ := n
  cases kind with
  | name => exact ⟨rfl, rfl⟩
  | _ => exact Bool.noConfusion h

/-! ## Each name is styled once -/

/-- What was styled when the nodes have been seen: names of all the nodes, each where none was
claimed before, and what else the nodes have styled. No name that was seen is left out. -/
structure Styled.Shows (all seen : List Node) (styled : List (Node × HighlightKind))
    (s : Styled) : Prop where
  claimed : s.claimed = (styled.map Prod.fst).map Node.begin
  once : s.claimed.Nodup
  names : ∀ x ∈ styled, x.1 ∈ all.filter isName ∧ x.2 ∈ nameStyles
  highlights : s.highlights.Perm (seen.filterMap plain? ++ styled.map fun x => ofNode x.1 x.2)
  complete : ∀ n ∈ seen, isName n = true → n.begin ∈ s.claimed

namespace Styled.Shows

variable {styled : List (Node × HighlightKind)} {s : Styled}

/-- A node that has nothing styled, or what is no name. -/
theorem pass (h : Shows all seen styled s) {s' : Styled} (hclaimed : s'.claimed = s.claimed)
    (hhighlights : s'.highlights = (plain? n).toList ++ s.highlights)
    (hn : isName n = true → n.begin ∈ s.claimed) : Shows all (seen ++ [n]) styled s' := by
  refine ⟨hclaimed.trans h.claimed, hclaimed ▸ h.once, h.names, ?_, ?_⟩
  · rw [hhighlights, List.filterMap_append, List.append_assoc]
    have hone : [n].filterMap plain? = (plain? n).toList := by
      cases hplain : plain? n <;> simp [hplain]
    rw [hone]
    refine (h.highlights.append_left _).trans ?_
    rw [← List.append_assoc, ← List.append_assoc]
    exact List.perm_append_comm.append_right _
  · rw [hclaimed]
    exact List.forall_mem_append.mpr ⟨h.complete, List.forall_mem_singleton.mpr hn⟩

/-- One more node. -/
theorem add (h : Shows all seen styled s) (hn : n.subtrees ⊆ all) :
    ∃ styled', Shows all (seen ++ [n]) styled' (s.add n) := by
  have hname : isName n = true → request n = .claim n .name ∧ n.primary = n := request_of_isName
  unfold Styled.add
  split
  · rename_i hrequest
    refine ⟨styled, h.pass rfl (by simp [plain?, hrequest]) fun hn' => ?_⟩
    exact Request.noConfusion (hrequest.symm.trans (hname hn').1)
  · rename_i style hrequest
    refine ⟨styled, h.pass rfl (by simp [plain?, hrequest]) fun hn' => ?_⟩
    exact Request.noConfusion (hrequest.symm.trans (hname hn').1)
  · rename_i title style hrequest
    have hplain : plain? n = none := by simp [plain?, hrequest]
    obtain ⟨hmem, hstyle⟩ := request_claim hrequest
    have hself (hn' : isName n = true) : title.primary = n := by
      obtain ⟨hclaim, hprimary⟩ := hname hn'
      obtain ⟨rfl, -⟩ := Request.claim.inj (hrequest.symm.trans hclaim)
      exact hprimary
    dsimp only
    split
    · -- the name has not been claimed before
      rename_i hfree
      obtain ⟨htitle, hfree⟩ : isName title.primary = true ∧ title.primary.begin ∉ s.claimed := by
        simpa using hfree
      refine ⟨(title.primary, style) :: styled, ?_, ?_, ?_, ?_, ?_⟩
      · show _ :: s.claimed = _
        rw [h.claimed]
        rfl
      · exact List.nodup_cons.mpr ⟨hfree, h.once⟩
      · exact List.forall_mem_cons.mpr ⟨⟨List.mem_filter.mpr ⟨hn hmem, htitle⟩, hstyle⟩, h.names⟩
      · rw [List.filterMap_append, List.filterMap_cons_none hplain, List.filterMap_nil,
          List.append_nil, List.map_cons]
        exact (h.highlights.cons _).trans List.perm_middle.symm
      · refine List.forall_mem_append.mpr ⟨fun m hm hm' => ?_,
          List.forall_mem_singleton.mpr fun hn' => ?_⟩
        · exact List.mem_cons_of_mem _ (h.complete m hm hm')
        · rw [hself hn']
          exact List.mem_cons_self
    · -- it has been claimed, or it is no name at all
      rename_i hclaimed
      refine ⟨styled, h.pass rfl (by rw [hplain]; rfl) fun hn' => ?_⟩
      rw [hself hn', hn'] at hclaimed
      simpa using hclaimed

/-- All the nodes, one after the other. -/
theorem foldl (h : Shows all seen styled s) (hns : ∀ n ∈ ns, n.subtrees ⊆ all) :
    ∃ styled', Shows all (seen ++ ns) styled' (ns.foldl Styled.add s) := by
  induction ns generalizing seen styled s with
  | nil => exact ⟨styled, by rwa [List.append_nil]⟩
  | cons n ns ih =>
    rw [List.forall_mem_cons] at hns
    obtain ⟨styled', h'⟩ := h.add hns.1
    obtain ⟨styled'', h''⟩ := ih h' hns.2
    rw [List.append_assoc] at h''
    exact ⟨styled'', h''⟩

/-- If no two names begin together, all of them are styled, each once. -/
theorem perm (h : Shows all all styled s) (hapart : ((all.filter isName).map Node.begin).Nodup) :
    (styled.map Prod.fst).Perm (all.filter isName) := by
  have honce := h.once
  rw [h.claimed] at honce
  refine (List.perm_ext_iff_of_nodup honce.of_map hapart.of_map).mpr fun n => ⟨fun hn => ?_, ?_⟩
  · obtain ⟨x, hx, rfl⟩ := List.mem_map.mp hn
    exact (h.names x hx).1
  · intro hn
    obtain ⟨hmem, hname⟩ := List.mem_filter.mp hn
    have hclaimed := h.complete n hmem hname
    rw [h.claimed] at hclaimed
    obtain ⟨m, hm, hbegin⟩ := List.mem_map.mp hclaimed
    obtain ⟨x, hx, rfl⟩ := List.mem_map.mp hm
    rwa [← List.inj_on_of_nodup_map hapart (h.names x hx).1 hn hbegin]

end Styled.Shows

/-- The highlights of nodes in which no two names begin together. -/
theorem ofNodes_perm (nodes : List Node)
    (hapart : (((nodes.flatMap Node.subtrees).filter isName).map Node.begin).Nodup) :
    ∃ names : List Highlight,
      (ofNodes nodes).Perm ((nodes.flatMap Node.subtrees).filterMap literal? ++
        (names ++ ((nodes.flatMap Node.subtrees).filter Node.isHole).map ofHole)) ∧
      (names.map fun h => (h.begin, h.stop)).Perm
        (((nodes.flatMap Node.subtrees).filter isName).map fun n => (n.begin, n.stop)) ∧
      ∀ h ∈ names, h.kind ∈ nameStyles ∧ h.message = none := by
  -- the fold over all nodes keeps account of what is claimed and what is shown
  let all := nodes.flatMap Node.subtrees
  have hall : ∀ n ∈ all, n.subtrees ⊆ all := by
    intro n hn m hm
    obtain ⟨k, hk, hn⟩ := List.mem_flatMap.mp hn
    exact List.mem_flatMap.mpr ⟨k, hk, Node.subtrees_subset hn hm⟩
  have hstart : Styled.Shows all [] [] ⟨[], []⟩ :=
    ⟨rfl, .nil, List.forall_mem_nil _, .nil, List.forall_mem_nil _⟩
  obtain ⟨styled, hshows⟩ := hstart.foldl hall
  rw [List.nil_append] at hshows
  refine ⟨styled.map fun x => ofNode x.1 x.2, ?_, ?_, ?_⟩
  · refine (List.reverse_perm _).trans (hshows.highlights.trans ?_)
    refine ((filterMap_plain?_perm all).append_right _).trans ?_
    rw [List.append_assoc]
    exact List.perm_append_comm.append_left _
  · have hspans := (hshows.perm hapart).map fun n => (n.begin, n.stop)
    rwa [List.map_map] at hspans ⊢
  · intro h hh
    obtain ⟨x, hx, rfl⟩ := List.mem_map.mp hh
    obtain ⟨hname, hstyle⟩ := hshows.names x hx
    exact ⟨hstyle, message?_of_isName (List.mem_filter.mp hname).2⟩

end Highlight

/-! ## The highlights of a text -/

namespace Highlight

theorem isHole_of_literal? {h : Highlight} (hl : literal? n = some h) : h.kind.isHole = false := by
  unfold literal? at hl
  split at hl <;> cases hl <;> rfl

theorem isHole_ofHole (n : Node) : (ofHole n).kind.isHole = true := by
  rw [ofHole]
  split <;> rfl

theorem isHole_of_nameStyles {kind : HighlightKind} (h : kind ∈ nameStyles) :
    kind.isHole = false := by
  revert h
  cases kind <;> decide

theorem isHole_ofKeyword (kind : TokenKind) : (HighlightKind.ofKeyword kind).isHole = false := by
  unfold HighlightKind.ofKeyword
  split <;> rfl

theorem isHole_ofComment (kind : TokenKind) : (HighlightKind.ofComment kind).isHole = false := by
  unfold HighlightKind.ofComment
  split <;> rfl

end Highlight

namespace Forest

open Highlight

/-- What a forest has highlighted, if no two of its names begin together. -/
theorem highlights_perm (f : Forest) (hapart : ((f.subtrees.filter isName).map Node.begin).Nodup) :
    ∃ names : List Highlight,
      f.highlights.Perm (f.keywords.map (fun t => ofToken t (.ofKeyword t.kind)) ++
        f.comments.map (fun t => ofToken t (.ofComment t.kind)) ++
        f.subtrees.filterMap literal? ++ names ++ f.holes.map ofHole) ∧
      (names.map fun h => (h.begin, h.stop)).Perm
        ((f.subtrees.filter isName).map fun n => (n.begin, n.stop)) ∧
      ∀ h ∈ names, h.kind ∈ nameStyles ∧ h.message = none := by
  obtain ⟨names, hperm, hspans, hnames⟩ := ofNodes_perm f.nodes hapart
  refine ⟨names, (List.mergeSort_perm ..).trans ?_, hspans, hnames⟩
  rw [f.holes_eq_filter, Forest.subtrees, List.append_assoc _ names, List.append_assoc _ _ (_ ++ _)]
  exact hperm.append_left _

/-- Of what is highlighted, the holes are those of the forest, each with its message. -/
theorem marked_perm (f : Forest) (hapart : ((f.subtrees.filter isName).map Node.begin).Nodup) :
    (f.highlights.filter (·.kind.isHole)).Perm (f.holes.map ofHole) := by
  obtain ⟨names, hperm, -, hnames⟩ := f.highlights_perm hapart
  refine (hperm.filter _).trans (.of_eq ?_)
  rw [List.filter_append, List.filter_eq_nil_iff.mpr, List.nil_append, List.filter_eq_self.mpr]
  · exact List.forall_mem_map.mpr fun n _ => isHole_ofHole n
  · simp only [List.forall_mem_append, List.forall_mem_map, Bool.not_eq_true]
    refine ⟨⟨⟨fun t _ => isHole_ofKeyword t.kind, fun t _ => isHole_ofComment t.kind⟩, ?_⟩, ?_⟩
    · intro h hh
      obtain ⟨n, -, hn⟩ := List.mem_filterMap.mp hh
      exact isHole_of_literal? hn
    · exact fun h hh => isHole_of_nameStyles (hnames h hh).1

end Forest

/-- A hole has a message, the one of its diagnostic. -/
theorem Diagnostic.message_ofHole (lines : Text.Lines) (h : n.isHole = true) :
    n.message? = some (ofHole lines n).message := by
  obtain ⟨begin, stop, kind⟩ := n
  cases kind with
  | missing | wrong => rfl
  | _ => exact Bool.noConfusion h

/-- The errors among the findings of a document are those for its holes. -/
theorem Document.errors_findings (d : Document) : d.findings.filter (·.severity = .error) =
    (d.forest.diagnostics d.text).map (Finding.ofDiagnostic d.lines) := by
  rw [findings, List.filter_append, List.filter_eq_self.mpr, List.filter_eq_nil_iff.mpr,
    List.append_nil]
  · exact List.forall_mem_map.mpr fun _ _ => by simp [Finding.unresolved]
  · exact List.forall_mem_map.mpr fun _ _ => by simp [Finding.ofDiagnostic]

/-- **Every hole is shown as one, and everything is styled once.** The highlights of a text are
in order, and are its keywords, its comments, its literals and basic types, its names and its
holes, each once. Those of the holes are the diagnostics of the text and the errors that an editor
shows. -/
theorem highlights_once (text : String) (d : Document) :
    let f := Forest.parse .editor text
    let marked := f.highlights.filter (·.kind.isHole)
    let shown := Document.findings { d with text, forest := f }
    (f.highlights.Pairwise fun a b => a.before b = true) ∧
    (∃ names : List Highlight,
      f.highlights.Perm
        (f.keywords.map (fun t => Highlight.ofToken t (.ofKeyword t.kind)) ++
          ((lex .editor text).filter (·.kind.isComment)).map
            (fun t => Highlight.ofToken t (.ofComment t.kind)) ++
          f.subtrees.filterMap Highlight.literal? ++ names ++ f.holes.map Highlight.ofHole) ∧
      (names.map fun h => (h.begin, h.stop)).Perm
        ((f.subtrees.filter Highlight.isName).map fun n => (n.begin, n.stop)) ∧
      ∀ h ∈ names, h.kind ∈ Highlight.nameStyles ∧ h.message = none) ∧
    (marked.map fun h => (h.begin, h.stop, h.message)).Perm
      ((f.diagnostics text).map fun x => (x.begin, x.stop, some x.message)) ∧
    (marked.map fun h => ((Text.Lines.ofString text).range h.begin h.stop, h.message)).Perm
      ((shown.filter (·.severity = .error)).map fun x => (x.range, some x.message)) := by
  intro f marked shown
  have hapart := names_nodup .editor text
  have hmarked : marked.Perm (f.holes.map Highlight.ofHole) := f.marked_perm hapart
  let lines := Text.Lines.ofString text
  -- a hole's highlight and its diagnostic say the same
  have hmessage (n : Node) (hn : n ∈ f.holes) :
      n.message? = some (Diagnostic.ofHole lines n).message := by
    rw [f.holes_eq_filter] at hn
    exact Diagnostic.message_ofHole lines (List.mem_filter.mp hn).2
  refine ⟨f.highlights_sorted, ?styled, ?diagnostics, ?errors⟩
  case styled =>
    rw [← parse_comments .editor text]
    exact f.highlights_perm hapart
  case diagnostics =>
    refine (hmarked.map _).trans (.of_eq ?_)
    rw [Forest.diagnostics, List.map_map, List.map_map]
    exact List.map_congr_left fun n hn =>
      congrArg (fun message => (n.begin, n.stop, message)) (hmessage n hn)
  case errors =>
    refine (hmarked.map _).trans (.of_eq ?_)
    rw [Document.errors_findings, Forest.diagnostics, List.map_map, List.map_map, List.map_map]
    exact List.map_congr_left fun n hn =>
      congrArg (fun message => (lines.range n.begin n.stop, message)) (hmessage n hn)

end MudEdit
