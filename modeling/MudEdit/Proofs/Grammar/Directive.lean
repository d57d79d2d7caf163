import MudEdit.Proofs.Grammar.Levels
import MudEdit.Proofs.Grammar.Recorded
import MudEdit.Proofs.Grammar.Sequence

/-!
# Directives stand in source order

A directive is a construct of a file or a member of a class, and nothing else: statements and
their parts only hold those of the classes that are declared in them. In a walk the directives
come in the order in which they begin. A directive begins at its word, which is taken before
anything that is read later, and no production puts a part that may hold directives before another
one that was read earlier. So it is enough to follow the productions that read such parts; types,
expressions, variables and parameters hold none.
-/

namespace MudEdit

variable {mark : Nat → Prop} {free : Bool} {r : Reach} {c c₁ c' : Cursor} {n m l : Node}
  {ns ms hs gs : List Node} {lo lo' mid hi hi' begin stop : Nat} {kind : NodeKind}

namespace Node

/-- The directives in a tree, in the order of a walk. -/
def links (n : Node) : List Node := n.subtrees.filter (·.kind.isLink)

theorem mem_links : l ∈ n.links ↔ l ∈ n.subtrees ∧ l.kind.isLink = true := List.mem_filter

/-- The directives of several trees are those of their walks. -/
theorem flatMap_links (ns : List Node) :
    ns.flatMap links = (ns.flatMap subtrees).filter (·.kind.isLink) := by
  rw [List.filter_flatMap]
  rfl

/-- What is no directive itself has those of its parts. -/
theorem links_of_not (h : n.kind.isLink = false) : n.links = n.children.flatMap links := by
  rw [links, subtrees_eq, List.filter_cons_of_neg (by simp [h]), flatMap_links]

/-- Nothing in types and expressions names a file. -/
theorem isLink_of_isFlat (h : n.isFlat = true) (hm : m ∈ n.subtrees) :
    m.kind.isLink = false := by
  have := isRecorded_of_isFlat h hm
  rw [isRecorded, Bool.or_eq_false_iff] at this
  exact this.1

/-- So types and expressions have no directives. -/
theorem links_of_isFlat (h : n.isFlat = true) : n.links = [] :=
  List.filter_eq_nil_iff.mpr fun _ hm => by simp [isLink_of_isFlat h hm]

theorem flatMap_links_of_isFlat (h : ∀ n ∈ ns, n.isFlat = true) : ns.flatMap links = [] :=
  List.flatMap_eq_nil_iff.mpr fun n hn => links_of_isFlat (h n hn)

/-- Nor do holes. -/
theorem flatMap_links_of_isHole (h : ∀ g ∈ hs, g.isHole = true) : hs.flatMap links = [] :=
  flatMap_links_of_isFlat fun g hg => isFlat_of_isHole (h g hg)

/-- A directive has no other one in it. -/
theorem links_of_isLink (h : n.kind.isLink = true) (hflat : ∀ m ∈ n.children, m.isFlat = true) :
    n.links = [n] := by
  rw [links, subtrees_eq, List.filter_cons_of_pos (by simpa using h), ← flatMap_links,
    flatMap_links_of_isFlat hflat]

/-- Holes joined to a construct bring no directives. -/
theorem links_combine (h : hs.flatMap links = []) : (n.combine hs).links = n.links := by
  unfold combine
  split
  · rfl
  · rw [links_of_not rfl]
    show (n :: hs).flatMap links = _
    rw [List.flatMap_cons, h, List.append_nil]

/-- In the tree a class is declared of which the directive, holes aside, is a member. -/
def HasMember (n l : Node) : Prop :=
  ∃ k ∈ n.subtrees, ∃ title inherits body, k.kind = .classDef title inherits body ∧
    ∃ m ∈ body, m.primary = l

/-- A class in a part is one in the whole. -/
theorem HasMember.of_subtree (h : m.HasMember l) (hm : m ∈ n.subtrees) : n.HasMember l := by
  obtain ⟨k, hk, hclass⟩ := h
  exact ⟨k, subtrees_subset hm hk, hclass⟩

end Node

/-! ## What is read between two offsets -/

/-- The directives of the constructs begin between two offsets, one after the other. Each is a
member of a class, or one of the constructs itself if that is free to be a directive. -/
structure InLine (free : Bool) (lo hi : Nat) (ns : List Node) : Prop where
  le : lo ≤ hi
  within : ∀ l ∈ ns.flatMap Node.links, lo ≤ l.begin ∧ l.begin < hi
  sorted : (ns.flatMap Node.links).Pairwise (·.begin < ·.begin)
  placed : ∀ n ∈ ns, ∀ l ∈ n.links, free = true ∧ n.primary = l ∨ n.HasMember l

namespace InLine

/-- Where there are no directives, all are in line. -/
theorem of_links (h : ns.flatMap Node.links = []) (hle : lo ≤ hi) : InLine free lo hi ns where
  le := hle
  within := by simp [h]
  sorted := by simp [h]
  placed n hn l hl := absurd hl (by simp [List.flatMap_eq_nil_iff.mp h n hn])

/-- What is read later begins later. -/
theorem append (h₁ : InLine free lo mid ns) (h₂ : InLine free mid hi ms) :
    InLine free lo hi (ns ++ ms) where
  le := Nat.le_trans h₁.le h₂.le
  within := by
    have hle₁ := h₁.le
    have hle₂ := h₂.le
    rw [List.flatMap_append]
    refine List.forall_mem_append.mpr ⟨fun l hl => ?_, fun l hl => ?_⟩
    · have := h₁.within l hl
      omega
    · have := h₂.within l hl
      omega
  sorted := by
    rw [List.flatMap_append]
    refine List.pairwise_append.mpr ⟨h₁.sorted, h₂.sorted, fun a ha b hb => ?_⟩
    have := (h₁.within a ha).2
    have := (h₂.within b hb).1
    omega
  placed := List.forall_mem_append.mpr ⟨h₁.placed, h₂.placed⟩

/-- A construct that has the directives of its parts. -/
theorem parts (h : InLine false lo hi n.children) (hn : n.kind.isLink = false) :
    InLine free lo hi [n] := by
  have heq : [n].flatMap Node.links = n.children.flatMap Node.links := by
    rw [List.flatMap_singleton, Node.links_of_not hn]
  refine ⟨h.le, heq ▸ h.within, heq ▸ h.sorted, List.forall_mem_singleton.mpr fun l hl => .inr ?_⟩
  rw [Node.links_of_not hn] at hl
  obtain ⟨m, hm, hl⟩ := List.mem_flatMap.mp hl
  -- no part is free, so the directive is a member of a class within it
  have hmember := (h.placed m hm l hl).resolve_left fun hno => absurd hno.1 (by simp)
  exact hmember.of_subtree (Node.mem_subtrees_child hm)

/-- A class, whose members are free to be directives. -/
theorem ofClass {title : Node} {inherits : Option Node} {body : List Node}
    (h : InLine true lo hi n.children) (hk : n.kind = .classDef title inherits body)
    (hflat : ∀ m ∈ title :: inherits.toList, m.isFlat = true) : InLine free lo hi [n] := by
  have hlinks : n.links = n.children.flatMap Node.links := Node.links_of_not (by rw [hk]; rfl)
  have heq : [n].flatMap Node.links = n.children.flatMap Node.links := by
    rw [List.flatMap_singleton, hlinks]
  refine ⟨h.le, heq ▸ h.within, heq ▸ h.sorted, List.forall_mem_singleton.mpr fun l hl => .inr ?_⟩
  rw [hlinks] at hl
  obtain ⟨m, hm, hl⟩ := List.mem_flatMap.mp hl
  rcases h.placed m hm l hl with ⟨-, hprimary⟩ | hmember
  · -- the name of the class and that of its file hold no directive
    have hbody : m ∈ body := by
      rw [Node.children, hk] at hm
      refine (List.mem_append.mp hm).resolve_left fun hm => ?_
      exact absurd hl (by simp [Node.links_of_isFlat (hflat m hm)])
    exact ⟨n, n.mem_subtrees_self, title, inherits, body, hk, m, hbody, hprimary⟩
  · exact hmember.of_subtree (Node.mem_subtrees_child hm)

/-- A construct that is joined with holes. -/
theorem combine (h : InLine free lo hi [n]) (hh : hs.flatMap Node.links = []) :
    InLine free lo hi [n.combine hs] := by
  have heq : [n.combine hs].flatMap Node.links = [n].flatMap Node.links := by
    rw [List.flatMap_singleton, List.flatMap_singleton, Node.links_combine hh]
  -- joined or not, the construct stays in the tree
  have hsub : n ∈ (n.combine hs).subtrees := by
    unfold Node.combine
    split
    · exact n.mem_subtrees_self
    · exact Node.mem_subtrees_child List.mem_cons_self
  refine ⟨h.le, heq ▸ h.within, heq ▸ h.sorted, List.forall_mem_singleton.mpr fun l hl => ?_⟩
  rw [Node.links_combine hh] at hl
  rw [Node.primary_combine]
  exact (h.placed n List.mem_cons_self l hl).imp_right fun hmember => hmember.of_subtree hsub

end InLine

/-- Between the cursors the constructs `ns` were read, with their directives in line, and the holes
`hs`, which hold none. -/
def Listed (free : Bool) (c : Cursor) (ns hs : List Node) (c' : Cursor) : Prop :=
  hs.flatMap Node.links = [] ∧
    ∀ mark, c.Placed mark → c'.Placed mark ∧ InLine free c.lastStop c'.lastStop ns

namespace Listed

theorem nil : Listed free c [] [] c := ⟨rfl, fun _ hc => ⟨hc, .of_links rfl (Nat.le_refl _)⟩⟩

theorem append (h₁ : Listed free c ns hs c₁) (h₂ : Listed free c₁ ms gs c') :
    Listed free c (ns ++ ms) (hs ++ gs) c' := by
  refine ⟨by rw [List.flatMap_append, h₁.1, h₂.1]; rfl, fun mark hc => ?_⟩
  obtain ⟨hc₁, hline₁⟩ := h₁.2 mark hc
  obtain ⟨hc', hline₂⟩ := h₂.2 mark hc₁
  exact ⟨hc', hline₁.append hline₂⟩

/-- A token is passed over. -/
theorem word : Listed free c [] [] c.skip := by
  refine ⟨rfl, fun mark hc => ?_⟩
  obtain ⟨hp, hle, hle'⟩ := hc.past
  exact ⟨hp, .of_links rfl (Nat.le_trans hle hle')⟩

/-- A token is taken as wrong. -/
theorem wrong (e : Expected) : Listed free c [.wrong c.current e] [] c.skip := by
  have hnil : [Node.wrong c.current e].flatMap Node.links = [] :=
    Node.flatMap_links_of_isHole (List.forall_mem_singleton.mpr rfl)
  have hword : Listed free c [] [] c.skip := .word
  exact ⟨rfl, fun mark hc => (hword.2 mark hc).imp_right fun hline => .of_links hnil hline.le⟩

/-- Types and expressions hold no directives. -/
theorem flat (h : Reads .flat c ns hs c') : Listed free c ns hs c' := by
  have hflat := List.forall_mem_append.mp h.isFlat
  refine ⟨Node.flatMap_links_of_isFlat hflat.2, fun mark hc => ?_⟩
  obtain ⟨ts, ht⟩ := h.takes
  obtain ⟨hp, hle, -⟩ := hc.takes ht
  exact ⟨hp, .of_links (Node.flatMap_links_of_isFlat hflat.1) hle⟩

/-- A directive begins where it is read. -/
theorem link (h : Reads r c [n] [] c') (hl : n.links = [n.primary]) :
    Listed true c [n] [] c' := by
  refine ⟨rfl, fun mark hc => ?_⟩
  obtain ⟨ts, ht⟩ := h.takes
  obtain ⟨hp, hle, -⟩ := hc.takes ht
  have hlinks : [n].flatMap Node.links = [n.primary] := by rw [List.flatMap_singleton, hl]
  have hmem : n.primary ∈ n.links := hl ▸ List.mem_cons_self
  obtain ⟨hsub, hkind⟩ := Node.mem_links.mp hmem
  -- a directive is among the constructs whose places are noted
  have hwithin := (h.noted hc).within n.primary (by simpa using hsub)
    (Node.isRecorded_of_isLink hkind)
  refine ⟨hp, hle, hlinks ▸ List.forall_mem_singleton.mpr hwithin,
    hlinks ▸ List.pairwise_singleton .., List.forall_mem_singleton.mpr fun l hm => .inl ⟨rfl, ?_⟩⟩
  exact (List.mem_singleton.mp (hl ▸ hm)).symm

/-- A construct of the parts just read. -/
theorem new (h : Listed false c kind.children hs c') (hn : kind.isLink = false) :
    Listed free c [.new begin stop kind] hs c' :=
  ⟨h.1, fun mark hc => (h.2 mark hc).imp_right fun hline => .parts hline hn⟩

/-- A construct of its parts, joined with the holes found between them. -/
theorem gathered (h : Listed false c kind.children hs c') (hn : kind.isLink = false) :
    Listed free c [(Node.new begin stop kind).combine hs] [] c' :=
  ⟨rfl, fun mark hc => ((h.new hn).2 mark hc).imp_right fun hline => hline.combine h.1⟩

/-- A class of its parts, joined with the holes of its braces. -/
theorem ofClass {title : Node} {body : List Node} (h : Listed true c (title :: body) hs c')
    (hflat : title.isFlat = true) :
    Listed free c [(Node.new begin stop (.classDef title none body)).combine hs] [] c' := by
  refine ⟨rfl, fun mark hc => (h.2 mark hc).imp_right fun hline => ?_⟩
  exact .combine (.ofClass hline rfl (List.forall_mem_singleton.mpr hflat)) h.1

/-- A construct joined with the holes found after it. -/
theorem late (h : Listed free c [n] [] c₁) (hh : Listed free c₁ [] hs c') :
    Listed free c [n.combine hs] [] c' := by
  have hboth := h.append hh
  rw [List.append_nil, List.nil_append] at hboth
  exact ⟨rfl, fun mark hc => (hboth.2 mark hc).imp_right fun hline => hline.combine hh.1⟩

/-- One level deeper and back. -/
theorem deeper (h : Listed free { c with depth := c.depth + 1 } ns hs c') :
    Listed free c ns hs { c' with depth := c'.depth - 1 } := by
  refine ⟨h.1, fun mark hc => ?_⟩
  obtain ⟨hp, hline⟩ := h.2 mark ⟨hc.order, hc.lastStop_mark, hc.textEnd_mark, hc.ahead_mark⟩
  exact ⟨⟨hp.order, hp.lastStop_mark, hp.textEnd_mark, hp.ahead_mark⟩, hline⟩

end Listed

/-- The productions one level down read what is in line, and only members are free to be
directives. -/
structure Nested.Lists (below : Nested) : Prop where
  sound : below.Sound
  statement : ∀ c, below.statement.Ensures c fun n c' => Listed false c [n] [] c'
  member : ∀ c, below.member.Ensures c fun n c' => Listed true c [n] [] c'

namespace Parse

/-! ## Loops -/

/-- A token more that a loop takes as wrong is a hole. -/
theorem guarded_listed {item : Parse Node}
    (h : item.Ensures c fun n c' => Listed free c [n] [] c') :
    (guarded item).Ensures c fun n c' => Listed free c [n] [] c' := by
  unfold guarded
  refine .left (h.bind fun n c₁ h₁ => .atEnd (.left ?_))
  split
  · exact .pure h₁
  · refine (wrongCurrent_ensures _).bind fun g c₂ heq => .pure (h₁.late ?_)
    obtain ⟨rfl, rfl⟩ := heq
    have hwrong : Listed free c₁ [] [] c₁.skip := .word
    exact ⟨Node.flatMap_links_of_isHole (by simp), hwrong.2⟩

/-- A loop keeps the directives of its turns in line. -/
theorem manyUntil_listed {stops : TokenKind → Bool} {item : Parse Node}
    (turn : ∀ c, c.atEnd = false →
      item.Ensures c fun n c' => Listed free c [n] [] c' ∧ c'.left < c.left) :
    Ensures (manyUntil stops item) c fun ns c' => Listed free c ns [] c' := by
  refine (Ensures.manyUntil (I := fun ns c' => Listed free c ns [] c') ?_ [] c .nil).mono
    fun _ _ h => h.1
  intro ns c₁ h _ he
  exact (turn c₁ he).mono fun n c₂ hn => ⟨by simpa using h.append hn.1, hn.2⟩

variable {below : Nested} (hb : below.Lists)
include hb

/-- Among statements no directive is free. -/
theorem statements_listed {stops : TokenKind → Bool} :
    Ensures (manyUntil stops (guarded below.statement)) c fun ns c' => Listed false c ns [] c' := by
  refine manyUntil_listed fun c he => (guarded_listed (hb.statement c)).and ?_
  exact (guarded_reads he (hb.sound.statement c)).mono fun _ _ h => h.2

/-! ## Declarations -/

omit hb in
/-- Whatever words stand before a declaration, they are flat. -/
theorem modifiers_listed : modifiers.Ensures c fun o c' => Reads .flat c o.toList [] c' := by
  refine modifiers_ensures.mono fun o c' hcase => ?_
  rcases hcase with ⟨rfl, -, rfl⟩ | ⟨n, rfl, h, -⟩
  · exact .nil
  · exact h

/-- A block has the directives of its statements. -/
theorem block_listed : (block below).Ensures c fun n c' => Listed free c [n] [] c' := by
  unfold block
  refine .advance ((statements_listed hb).bind fun statements c₁ h₁ => ?_)
  refine closeBrace_reads.bind fun hs c₂ h₂ => .lastStop (.pure (.gathered ?_ rfl))
  simpa [NodeKind.children] using Listed.word.append (h₁.append (.flat h₂))

/-- A body or a semicolon. -/
theorem functionBody_listed :
    (functionBody below).Ensures c fun p c' => Listed false c p.1.toList p.2 c' := by
  unfold functionBody
  refine .sees ?_
  split
  · exact (block_listed hb).bind fun body c₁ h => .pure h
  · exact semicolon_reads.bind fun hs c₁ h => .pure (.flat h)

/-- A parameter has no directives. -/
theorem parameter_listed : (parameter below).Ensures c fun n c' => Listed free c [n] [] c' := by
  unfold parameter
  refine .here (.kind (.seesParenthesizedType ?_))
  split
  · exact (hole_reads _).mono fun n c' h => .flat h.2
  · refine (hb.sound.type c).bind fun type c₁ h₁ => .eat? (fun hk => ?_) (fun _ => ?_)
    · exact .lastStop (.pure (.new (.flat (h₁.append (nameNode_reads hk))) rfl))
    · exact .lastStop (.pure (.new (.flat h₁) rfl))

/-- A function has the directives of its body, which is its last part. -/
theorem functionRest_listed {at_ : Nat} {mods : Option Node} {returns title : Node}
    (h : Reads .flat c (mods.toList ++ [returns, title]) [] c₁) :
    (functionRest below at_ mods returns title).Ensures c₁ fun n c' =>
      Listed free c [n] [] c' := by
  unfold functionRest
  have hparameters (c : Cursor) : Ensures (separatedOpen (parameter below)) c
      fun ps c' => Listed false c ps.1 [] c' := by
    refine Ensures.separatedOpen (I := fun ns c' => Listed false c ns [] c') ?_ ?_ [] c .nil
    · exact fun ns c₁ h₁ _ => (parameter_listed hb).mono fun n c₂ h₂ => by simpa using h₁.append h₂
    · exact fun ns c₁ h₁ _ => by simpa using h₁.append .word
  refine .advance ((hparameters _).bind fun p c₂ h₂ => ?_)
  show Ensures (closeParen >>= _) _ _
  refine closeParen_reads.bind fun hs c₃ h₃ => (functionBody_listed hb).bind fun p c₄ h₄ => ?_
  refine .lastStop (.pure (.gathered ?_ rfl))
  simpa [NodeKind.children] using
    (Listed.flat h).append (Listed.word.append (h₂.append ((Listed.flat h₃).append h₄)))

/-- A declaration is no directive, though a class in a function may hold some. -/
theorem declaration_listed :
    (declaration below).Ensures c fun n c' => Listed free c [n] [] c' := by
  unfold declaration
  refine .here (.kind (.seesParenthesizedType ?_))
  split
  · exact (refuse_reads _).mono fun n c' h => .flat h.1
  · refine modifiers_listed.bind fun mods c₁ h₁ => .sees ?_
    split
    · rename_i hk
      refine (letDefinition_ensures hb.sound _ h₁ (beq_iff_eq.mp hk)).mono fun n c' hcase => ?_
      obtain ⟨type, title, value, hs, rfl, hr, -⟩ := hcase
      exact .gathered (.flat hr) rfl
    · refine (hb.sound.type c₁).bind fun type c₂ h₂ => declaredName_reads.bind ?_
      intro title c₃ h₃
      -- up to the name functions and variables are read alike
      have h₄ : Reads .flat c (mods.toList ++ [type, title]) [] c₃ := by
        simpa using h₁.append (h₂.append h₃)
      refine .sees ?_
      split
      · exact functionRest_listed hb h₄
      · unfold variableRest
        refine (initialValue_reads hb.sound).bind fun value c₄ h₅ => semicolon_reads.bind ?_
        refine fun hs c₅ h₆ => .lastStop (.pure (.gathered (.flat ?_) rfl))
        simpa [NodeKind.children] using h₄.append (h₅.append h₆)

/-! ## Members -/

omit hb in
/-- An include is a directive, and begins where it is read. -/
theorem includeDirective_listed (hk : c.kind = .includeDirective) :
    includeDirective.Ensures c fun n c' => Listed true c [n] [] c' := by
  refine (includeDirective_reads hk).and ?_ |>.mono fun n c' h => .link h.1 h.2
  unfold includeDirective
  refine .advance (path_reads.bind fun file c₁ h => .pure ?_)
  exact Node.links_of_isLink rfl (List.forall_mem_singleton.mpr (h.isFlat file (by simp)))

omit hb in
/-- So is an inheritance. -/
theorem inheritance_listed (hk : c.kind = .keyword .inheritWord) :
    inheritance.Ensures c fun n c' => Listed true c [n] [] c' := by
  refine (inheritance_reads hk).and ?_ |>.mono fun n c' h => .link h.1 h.2
  unfold inheritance
  refine .advance (path_reads.bind fun file c₁ h₁ => semicolon_reads.bind fun hs c₂ h₂ => ?_)
  refine .lastStop (.pure ?_)
  rw [Node.links_combine (Node.flatMap_links_of_isHole h₂.isHole_of_mem), Node.primary_combine]
  exact Node.links_of_isLink rfl (List.forall_mem_singleton.mpr (h₁.isFlat file (by simp)))

/-- Between the braces of a class directives are free. -/
theorem classBody_listed :
    (classBody below).Ensures c fun p c' => Listed true c p.1 p.2 c' := by
  unfold classBody
  refine (expect_reads rfl _).bind fun p c₁ h₁ => ?_
  obtain ⟨opened, opening⟩ := p
  cases opened with
  | false => exact .pure (.flat h₁)
  | true =>
    show Ensures (manyUntil _ _ >>= _) _ _
    -- each turn reads a member and takes a token
    have hmembers : Ensures (manyUntil (· == .sign .rightBrace) (guarded below.member)) c₁
        fun ns c' => Listed true c₁ ns [] c' := by
      refine manyUntil_listed fun c he => (guarded_listed (hb.member c)).and ?_
      exact (guarded_reads he (hb.sound.member c)).mono fun _ _ h => h.2
    refine hmembers.bind fun members c₂ h₂ => closeBrace_reads.bind fun closing c₃ h₃ => ?_
    have hbody : Listed true c members (opening ++ closing) c₃ := by
      simpa using (Listed.flat h₁).append (h₂.append (.flat h₃))
    -- a semicolon may follow and leaves nothing
    exact .eats (fun _ => .pure (by simpa using hbody.append .word)) fun _ => .pure hbody

/-- A class puts its name before its members, as they are read. -/
theorem classDefinition_listed :
    (classDefinition below).Ensures c fun n c' => Listed free c [n] [] c' := by
  unfold classDefinition
  refine .advance (name_reads.bind fun title c₁ h₁ => .sees ?_)
  split
  · rename_i hk
    refine (strings_reads (beq_iff_eq.mp hk)).bind fun file c₂ h₂ => semicolon_reads.bind ?_
    refine fun hs c₃ h₃ => .lastStop (.pure (.gathered ?_ rfl))
    simpa [NodeKind.children] using
      Listed.word.append (.flat (h₁.append (h₂.append h₃)))
  · refine (classBody_listed hb).bind fun p c₂ h₂ => .lastStop (.pure (.ofClass ?_ ?_))
    · simpa using Listed.word.append ((Listed.flat h₁).append h₂)
    · exact h₁.isFlat title (by simp)

/-- A member may be a directive itself. -/
theorem member_listed : (member below).Ensures c fun n c' => Listed true c [n] [] c' := by
  unfold member
  refine .kind ?_
  split
  · exact includeDirective_listed ‹_›
  · exact inheritance_listed ‹_›
  · exact classDefinition_listed hb
  · exact .advance (.pure (.new .word rfl))
  · exact declaration_listed hb

/-! ## Statements -/

/-- The other branch, if its word is there. -/
theorem otherwise_listed :
    (otherwise below).Ensures c fun o c' => Listed false c o.toList [] c' := by
  unfold otherwise
  refine .eats (fun _ => ?_) fun _ => .pure .nil
  exact (hb.statement _).bind fun n c₁ h => .pure (Listed.word.append h)

theorem ifStatement_listed :
    (ifStatement below).Ensures c fun n c' => Listed free c [n] [] c' := by
  unfold ifStatement
  refine .advance ((parenthesizedCondition_reads hb.sound).bind fun p c₁ h₁ => ?_)
  refine (hb.statement c₁).bind fun thenBranch c₂ h₂ => (otherwise_listed hb).bind ?_
  refine fun elseBranch c₃ h₃ => .lastStop (.pure (.gathered ?_ rfl))
  simpa [NodeKind.children] using Listed.word.append ((Listed.flat h₁).append (h₂.append h₃))

theorem whileStatement_listed :
    (whileStatement below).Ensures c fun n c' => Listed free c [n] [] c' := by
  unfold whileStatement
  refine .advance ((parenthesizedCondition_reads hb.sound).bind fun p c₁ h₁ => ?_)
  refine (hb.statement c₁).bind fun body c₂ h₂ => .lastStop (.pure (.gathered ?_ rfl))
  simpa [NodeKind.children] using Listed.word.append ((Listed.flat h₁).append h₂)

theorem doStatement_listed :
    (doStatement below).Ensures c fun n c' => Listed free c [n] [] c' := by
  unfold doStatement
  refine .advance ((hb.statement _).bind fun body c₁ h₁ => (expect_reads rfl _).bind ?_)
  refine fun p c₂ h₂ => (parenthesizedCondition_reads hb.sound).bind fun q c₃ h₃ => ?_
  refine semicolon_reads.bind fun ending c₄ h₄ => .lastStop (.pure (.gathered ?_ rfl))
  simpa [NodeKind.children] using
    Listed.word.append (h₁.append (.flat (h₂.append (h₃.append h₄))))

/-- What comes before the first semicolon of a loop. -/
theorem forStart_listed :
    (forStart below).Ensures c fun p c' => Listed false c p.1.toList p.2 c' := by
  unfold forStart
  refine .eats (fun _ => .pure .word) fun _ => .kind ?_
  split
  · exact (declaration_listed hb).bind fun n c₁ h => .pure h
  · refine (hb.sound.expression c).bind fun n c₁ h₁ => semicolon_reads.bind fun hs c₂ h₂ => ?_
    exact .pure (.flat (h₁.append h₂))

theorem forStatement_listed :
    (forStatement below).Ensures c fun n c' => Listed free c [n] [] c' := by
  unfold forStatement
  refine .advance (openParen_reads.bind fun opening c₁ h₁ => (forStart_listed hb).bind ?_)
  refine fun p c₂ h₂ => (optionalExpression_reads hb.sound _).bind fun condition c₃ h₃ => ?_
  refine semicolon_reads.bind fun between c₄ h₄ => (optionalExpression_reads hb.sound _).bind ?_
  refine fun step c₅ h₅ => closeParen_reads.bind fun closing c₆ h₆ => ?_
  refine (hb.statement c₆).bind fun body c₇ h₇ => .lastStop (.pure (.gathered ?_ rfl))
  -- between the start and the body all is flat
  have hrest : Listed false c₂ _ _ c₆ := .flat (h₃.append (h₄.append (h₅.append h₆)))
  simpa [NodeKind.children] using
    Listed.word.append ((Listed.flat h₁).append (h₂.append (hrest.append h₇)))

theorem foreachBinding_listed :
    (foreachBinding below).Ensures c fun n c' => Listed false c [n] [] c' := by
  unfold foreachBinding
  refine .kind ?_
  split
  · refine (bareVariable_ensures hb.sound).mono fun n c' hcase => ?_
    obtain ⟨type, title, rfl, hr⟩ := hcase
    exact .new (.flat hr) rfl
  · exact (hb.sound.expression c).mono fun n c' h => .flat h

theorem foreachStatement_listed :
    (foreachStatement below).Ensures c fun n c' => Listed free c [n] [] c' := by
  unfold foreachStatement
  refine .advance (openParen_reads.bind fun opening c₁ h₁ => (foreachBinding_listed hb).bind ?_)
  refine fun binding c₂ h₂ => colon_reads.bind fun between c₃ h₃ => ?_
  refine (spanned_reads hb.sound).bind fun iterable c₄ h₄ => closeParen_reads.bind ?_
  refine fun closing c₅ h₅ => (hb.statement c₅).bind fun body c₆ h₆ => ?_
  refine .lastStop (.pure (.gathered ?_ rfl))
  have hrest : Listed false c₂ _ _ c₅ := .flat (h₃.append (h₄.append h₅))
  simpa [NodeKind.children] using
    Listed.word.append ((Listed.flat h₁).append (h₂.append (hrest.append h₆)))

/-- The statements of a case come behind its values. -/
theorem labelledCase_listed :
    (labelledCase below).Ensures c fun n c' => Listed free c [n] [] c' := by
  unfold labelledCase
  refine .advance ((caseValues_reads hb.sound _).bind fun label c₁ h₁ => colon_reads.bind ?_)
  refine fun hs c₂ h₂ => (statements_listed hb).bind fun statements c₃ h₃ => ?_
  refine .lastStop (.pure (.gathered ?_ rfl))
  simpa [NodeKind.children] using Listed.word.append ((Listed.flat (h₁.append h₂)).append h₃)

theorem switchCase_listed : (switchCase below).Ensures c fun n c' => Listed false c [n] [] c' := by
  unfold switchCase
  refine .kind ?_
  split
  · exact labelledCase_listed hb
  · exact labelledCase_listed hb
  · exact .advance (.pure (.wrong _))

/-- Between the braces of a switch no directive is free. -/
theorem switchBody_listed :
    (switchBody below).Ensures c fun p c' => Listed false c p.1 p.2 c' := by
  unfold switchBody
  refine (expect_reads rfl _).bind fun p c₁ h₁ => ?_
  obtain ⟨opened, opening⟩ := p
  cases opened with
  | false => exact .pure (.flat h₁)
  | true =>
    show Ensures (manyUntil _ _ >>= _) _ _
    -- each turn reads a case and takes a token
    have hcases : Ensures (manyUntil (· == .sign .rightBrace) (switchCase below)) c₁
        fun ns c' => Listed false c₁ ns [] c' := manyUntil_listed fun c he =>
      (switchCase_listed hb).and ((switchCase_reads hb.sound he).mono fun _ _ h => h.2)
    refine hcases.bind fun cases c₂ h₂ => closeBrace_reads.bind fun closing c₃ h₃ => .pure ?_
    simpa using (Listed.flat h₁).append (h₂.append (.flat h₃))

theorem switchStatement_listed :
    (switchStatement below).Ensures c fun n c' => Listed free c [n] [] c' := by
  unfold switchStatement
  refine .advance ((parenthesizedCondition_reads hb.sound).bind fun p c₁ h₁ => ?_)
  refine (switchBody_listed hb).bind fun q c₂ h₂ => .lastStop (.pure (.gathered ?_ rfl))
  simpa [NodeKind.children] using Listed.word.append ((Listed.flat h₁).append h₂)

theorem handlerVariable_listed :
    (handlerVariable below).Ensures c fun p c' => Listed false c p.1.toList p.2 c' := by
  unfold handlerVariable
  refine .eats (fun _ => ?_) fun _ => .pure .nil
  refine (bareVariable_ensures hb.sound).bind fun exception c₁ hcase => ?_
  obtain ⟨type, title, rfl, h₁⟩ := hcase
  refine closeParen_reads.bind fun hs c₂ h₂ => .pure ?_
  simpa using Listed.word.append ((Listed.new (.flat h₁) rfl).append (.flat h₂))

theorem tryStatement_listed :
    (tryStatement below).Ensures c fun n c' => Listed free c [n] [] c' := by
  unfold tryStatement
  refine .advance ((hb.statement _).bind fun body c₁ h₁ => .eats (fun _ => ?_) fun _ => ?_)
  · refine (handlerVariable_listed hb).bind fun p c₂ h₂ => (hb.statement c₂).bind ?_
    refine fun handler c₃ h₃ => .lastStop (.pure (.gathered ?_ rfl))
    simpa [NodeKind.children] using
      Listed.word.append (h₁.append (Listed.word.append (h₂.append h₃)))
  · refine (hole_reads _).bind fun handler c₂ h₂ => .lastStop (.pure (.new ?_ rfl))
    exact Listed.word.append (h₁.append (.flat h₂.2))

theorem returnStatement_listed :
    (returnStatement below).Ensures c fun n c' => Listed free c [n] [] c' := by
  unfold returnStatement
  refine .advance ((optionalExpression_reads hb.sound _).bind fun value c₁ h₁ => ?_)
  refine semicolon_reads.bind fun hs c₂ h₂ => .lastStop (.pure (.gathered ?_ rfl))
  simpa [NodeKind.children] using Listed.word.append (.flat (h₁.append h₂))

omit hb in
/-- A statement that is only a word has no parts. -/
theorem wordStatement_listed {construct : NodeKind} (hk : construct.children = [])
    (hn : construct.isLink = false) :
    (wordStatement construct).Ensures c fun n c' => Listed free c [n] [] c' := by
  unfold wordStatement
  refine .advance (semicolon_reads.bind fun hs c₁ h => .lastStop (.pure (.gathered ?_ hn)))
  rw [hk]
  exact Listed.word.append (.flat h)

/-- A statement is no directive. -/
theorem statement_listed : (statement below).Ensures c fun n c' => Listed false c [n] [] c' := by
  unfold statement
  refine .kind ?_
  split
  · exact block_listed hb
  · exact ifStatement_listed hb
  · exact whileStatement_listed hb
  · exact doStatement_listed hb
  · exact forStatement_listed hb
  · exact foreachStatement_listed hb
  · exact switchStatement_listed hb
  · exact tryStatement_listed hb
  · exact returnStatement_listed hb
  · exact wordStatement_listed rfl rfl
  · exact wordStatement_listed rfl rfl
  · exact .advance (.pure (.new .word rfl))
  · -- at its word a class is the only member that can be read
    rename_i hk
    unfold member
    refine .kind ?_
    rw [hk]
    exact classDefinition_listed hb
  · split
    · exact declaration_listed hb
    · exact (expressionStatement_reads hb.sound).mono fun n c' h => .flat h

/-! ## All levels -/

omit hb in
/-- A level more or less moves no directive. -/
theorem nested_listed {e : Expected} {production : Parse Node}
    (h : ∀ c, production.Ensures c fun n c' => Listed free c [n] [] c') :
    (nested e production).Ensures c fun n c' => Listed free c [n] [] c' := by
  unfold nested
  refine .depth ?_
  split
  · exact (refuse_reads e).mono fun _ _ h => .flat h.1
  · exact .setDepth ((h _).bind fun n c₁ h₁ => .depth (.setDepth (.pure h₁.deeper)))

end Parse

namespace Nested

open Parse

/-- So it is on every level that can be built. -/
theorem lists_levels : ∀ k, (levels k).Lists
  | 0 => ⟨levels_sound 0, fun _ => (refuse_reads _).mono fun _ _ h => .flat h.1,
      fun _ => (refuse_reads _).mono fun _ _ h => .flat h.1⟩
  | k + 1 => ⟨levels_sound (k + 1),
      fun _ => nested_listed fun _ => statement_listed (lists_levels k),
      fun _ => nested_listed fun _ => member_listed (lists_levels k)⟩

end Nested

/-- **The directives of a file are in line**, each at the top or in the body of a class. -/
theorem Parse.members_listed (until_ : TokenKind) :
    (members until_).Ensures c fun ns c' => Listed true c ns [] c' := by
  have hlevels := Nested.lists_levels maxDepth
  refine manyUntil_listed fun c he => (guarded_listed (member_listed hlevels)).and ?_
  exact (guarded_reads he (member_reads hlevels.sound)).mono fun _ _ h => h.2

end MudEdit
