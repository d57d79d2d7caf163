import MudEdit.Proofs.Grammar.Levels
import MudEdit.Proofs.Node.Brace

/-!
# A closing brace is only missing at the end of the text

The statements of a block and the members of a class are read up to the closing brace or up to
the end of the text, so the brace is only missing at that end. Nothing is read after an open
body, then, and whatever is still in braces around it is open as well.
-/

namespace MudEdit

variable {c c' c₁ : Cursor} {n : Node} {ns ms hs gs : List Node} {begin stop : Nat}
  {kind : NodeKind}

/-! ## What is read with its braces -/

/-- Between the cursors the constructs `ns` were read, and a body among them is only open if the
text ends there. The holes `hs` are still to be joined to the construct they were found in. -/
structure Braced (c : Cursor) (ns hs : List Node) (c' : Cursor) : Prop where
  /-- Beyond the end of the text there is nothing to read. -/
  stays : c.atEnd = true → c'.atEnd = true ∧ c'.lastStop = c.lastStop
  settled : ∀ n ∈ ns, n.Settled
  alone : ns.Pairwise Node.OneOpen
  ends : ∀ n ∈ ns, n.hasOpen = true → c.atEnd = false ∧ c'.atEnd = true
  /-- An open body ends with the last token taken. -/
  last : ∀ n ∈ ns, ∀ m ∈ n.subtrees, m.isOpen = true → c'.lastStop ≤ m.stop
  flat : ∀ h ∈ hs, h.isFlat = true

namespace Braced

/-- Where nothing is read, nothing is open. -/
theorem nil : Braced c [] [] c :=
  ⟨fun h => ⟨h, rfl⟩, by simp, .nil, by simp, by simp, by simp⟩

/-- What is read after an open body has none, since there is nothing to read. -/
theorem append (h₁ : Braced c ns hs c₁) (h₂ : Braced c₁ ms gs c') :
    Braced c (ns ++ ms) (hs ++ gs) c' where
  stays he := by
    obtain ⟨he₁, hstop₁⟩ := h₁.stays he
    obtain ⟨he₂, hstop₂⟩ := h₂.stays he₁
    exact ⟨he₂, hstop₂.trans hstop₁⟩
  settled := List.forall_mem_append.mpr ⟨h₁.settled, h₂.settled⟩
  alone := by
    refine List.pairwise_append.mpr ⟨h₁.alone, h₂.alone, fun n hn m hm => ?_⟩
    by_contra hboth
    simp only [Node.OneOpen, not_or, Bool.not_eq_false] at hboth
    -- the first one ends where the text does, and the second one would begin there
    have hend := (h₁.ends n hn hboth.1).2
    have hstart := (h₂.ends m hm hboth.2).1
    exact absurd hend (by simp [hstart])
  ends := by
    refine List.forall_mem_append.mpr ⟨fun n hn hopen => ?_, fun n hn hopen => ?_⟩
    · obtain ⟨hc, he⟩ := h₁.ends n hn hopen
      exact ⟨hc, (h₂.stays he).1⟩
    · obtain ⟨hc, he⟩ := h₂.ends n hn hopen
      exact ⟨Bool.eq_false_iff.mpr fun hstart => absurd (h₁.stays hstart).1 (by simp [hc]), he⟩
  last := by
    refine List.forall_mem_append.mpr ⟨fun n hn m hm ho => ?_, h₂.last⟩
    -- nothing is taken any more
    obtain ⟨-, he⟩ := h₁.ends n hn (Node.hasOpen_of_subtree hm ho)
    rw [(h₂.stays he).2]
    exact h₁.last n hn m hm ho
  flat := List.forall_mem_append.mpr ⟨h₁.flat, h₂.flat⟩

/-- In types and expressions there are no bodies. -/
theorem of_flat (h : Reads .flat c ns hs c') : Braced c ns hs c' := by
  obtain ⟨hflat, hholes⟩ := List.forall_mem_append.mp h.isFlat
  have hnone : ∀ n ∈ ns, n.hasOpen = false := fun n hn => Node.hasOpen_of_isFlat (hflat n hn)
  refine ⟨fun he => ?_, fun n hn => Node.settled_of_isFlat (hflat n hn),
    List.pairwise_of_forall_mem_list fun a ha _ _ => .inl (hnone a ha), fun n hn hopen => ?_,
    fun n hn m hm ho => ?_, hholes⟩
  · obtain ⟨ts, ht⟩ := h.takes
    rw [(ht.eq_of_atEnd he).2]
    exact ⟨he, rfl⟩
  · exact absurd hopen (by simp [hnone n hn])
  · exact absurd (Node.hasOpen_of_subtree hm ho) (by simp [hnone n hn])

/-- A token is passed over. -/
theorem word {k : TokenKind} (hk : k.leavesNoTrace = true) (h : c.kind = k) :
    Braced c [] [] c.skip := of_flat (.of_word (r := .flat) hk h)

/-- A construct joined with holes, none of which is that of its own closing brace. -/
theorem combine (h : Braced c [n] hs c')
    (hl : n.kind.hasBraces = false ∨ Resolve.lacksBrace hs = false) :
    Braced c [n.combine hs] [] c' := by
  have hn := List.forall_mem_singleton.mp h.settled
  have hown : ¬ (n.kind.hasBraces = true ∧ Resolve.lacksBrace hs = true) := by
    rcases hl with hl | hl <;> simp [hl]
  refine ⟨h.stays, List.forall_mem_singleton.mpr ?_, List.pairwise_singleton ..,
    List.forall_mem_singleton.mpr fun ho => List.forall_mem_singleton.mp h.ends ?_,
    List.forall_mem_singleton.mpr fun m hm ho =>
      List.forall_mem_singleton.mp h.last m ?_ ho, by simp⟩
  · exact Node.settled_combine hn.parts h.flat fun hb ho => absurd ho (by simp [hn.closed hb])
  · exact ((Node.hasOpen_combine h.flat).mp ho).resolve_right hown
  · exact (Node.mem_combine_of_isOpen h.flat hm ho).resolve_right fun ⟨_, hbl⟩ => hown hbl

/-- A construct of the parts just read. -/
theorem new (h : Braced c kind.children hs c') (hk : kind.isUnbraced = true) :
    Braced c [.new begin stop kind] hs c' where
  stays := h.stays
  settled := List.forall_mem_singleton.mpr ⟨Node.sealed_new h.settled h.alone (.inl hk),
    fun hb => absurd hb (by simp [Node.new, NodeKind.hasBraces_of_isUnbraced hk])⟩
  alone := List.pairwise_singleton ..
  ends := List.forall_mem_singleton.mpr fun ho => by
    obtain ⟨m, hm, ho⟩ := (Node.hasOpen_new (.inl hk)).mp ho
    exact h.ends m hm ho
  last := List.forall_mem_singleton.mpr <| Node.forall_mem_subtrees.mpr
    ⟨fun ho => absurd ho (by simp [Node.isOpen_new (.inl hk)]), h.last⟩
  flat := h.flat

/-- A construct of the parts just read, joined with the holes found on the way. -/
theorem joined (h : Braced c kind.children hs c') (hk : kind.isUnbraced = true) :
    Braced c [(Node.new begin stop kind).combine hs] [] c' :=
  (new h hk).combine (.inl (NodeKind.hasBraces_of_isUnbraced hk))

/-- A body, which ends with the last token taken: its closing brace is missing if something in
it is open, and at the end of the text only. -/
theorem body (h : Braced c kind.children hs c') (hk : kind.hasBraces = true)
    (hstop : c'.lastStop = stop)
    (hlacks : Resolve.lacksBrace hs = true → c.atEnd = false ∧ c'.atEnd = true)
    (hopen : ∀ m ∈ kind.children, m.hasOpen = true → Resolve.lacksBrace hs = true) :
    Braced c [(Node.new begin stop kind).combine hs] [] c' := by
  -- before it is joined, a body is open only through its parts
  have hnew : (Node.new begin stop kind).hasOpen = true → Resolve.lacksBrace hs = true :=
    fun ho => by
      obtain ⟨m, hm, ho⟩ := (Node.hasOpen_new (.inr hk)).mp ho
      exact hopen m hm ho
  refine ⟨h.stays, List.forall_mem_singleton.mpr ?_, List.pairwise_singleton ..,
    List.forall_mem_singleton.mpr fun ho => hlacks ?_,
    List.forall_mem_singleton.mpr fun m hm ho => ?_, by simp⟩
  · exact Node.settled_combine (Node.sealed_new h.settled h.alone (.inr hk)) h.flat fun _ => hnew
  · exact ((Node.hasOpen_combine h.flat).mp ho).elim hnew fun hl => hl.2
  · rcases Node.mem_combine_of_isOpen h.flat hm ho with hm | ⟨rfl, -⟩
    · have hparts : ∀ m ∈ (Node.new begin stop kind).subtrees, m.isOpen = true →
          c'.lastStop ≤ m.stop := Node.forall_mem_subtrees.mpr
        ⟨fun ho => absurd ho (by simp [Node.isOpen_new (.inr hk)]), h.last⟩
      exact hparts m hm ho
    · rw [hstop]
      exact Nat.le_trans Node.le_stop_new (Node.stop_le_combine _ _)

end Braced

/-- What holds of the statements and members that nest, whatever cursor they are read at. -/
structure Nested.Braces (below : Nested) : Prop extends below.Sound where
  statement_braced : ∀ c, below.statement.Ensures c fun n c' => Braced c [n] [] c'
  member_braced : ∀ c, below.member.Ensures c fun n c' => Braced c [n] [] c'

namespace Parse

/-! ## Loops and closing braces -/

/-- A token more that a loop takes leaves no body open. -/
theorem guarded_braced {production : Parse Node} {r : Reach} (he : c.atEnd = false)
    (hr : production.Ensures c fun n c' => Reads r c [n] [] c')
    (h : production.Ensures c fun n c' => Braced c [n] [] c') :
    (guarded production).Ensures c fun n c' => Braced c [n] [] c' ∧ c'.left < c.left := by
  refine Ensures.and ?_ ((guarded_reads he hr).mono fun _ _ h => h.2)
  unfold guarded
  refine .left (h.bind fun n c₁ h₁ => .atEnd (.left ?_))
  split
  · exact .pure h₁
  · rename_i hg
    rw [Bool.not_eq_true, Bool.or_eq_false_iff] at hg
    refine (wrongCurrent_ensures _).bind ?_
    intro _ _ heq
    obtain ⟨rfl, rfl⟩ := heq
    have hw : Reads .flat c₁ [] [.wrong c₁.current .statement] c₁.skip :=
      .aside (.wrong _ hg.1) rfl
    exact .pure (.combine (by simpa using h₁.append (.of_flat hw)) (.inr rfl))

/-- A loop reads its items with their braces if each turn does. -/
theorem manyUntil_braced {stops : TokenKind → Bool} {item : Parse Node}
    (turn : ∀ c, c.atEnd = false →
      item.Ensures c fun n c' => Braced c [n] [] c' ∧ c'.left < c.left) :
    Ensures (manyUntil stops item) c fun ns c' =>
      Braced c ns [] c' ∧ (stops c'.kind = true ∨ c'.atEnd = true) := by
  refine Ensures.manyUntil (I := fun ns c' => Braced c ns [] c') ?_ [] c .nil
  intro ns c₁ h _ he
  exact (turn c₁ he).mono fun n c₂ ⟨h', hl⟩ => ⟨by simpa using h.append h', hl⟩

/-- Another token that is missing leaves another hole. -/
theorem expect_lacks {k : TokenKind} {e : Expected}
    (he : ∀ at_, Resolve.lacksBrace [.missing at_ e] = false) :
    (expect k e).Ensures c fun p _ => Resolve.lacksBrace p.2 = false := by
  refine (expect_ensures k e).mono ?_
  intro p c' hcase
  rcases hcase with ⟨-, hp, -⟩ | ⟨-, -, hp, -⟩ | ⟨-, -, hp, -⟩
  · rw [hp]; rfl
  · rw [hp]; exact he _
  · rw [hp]; rfl

/-- What stands between braces is read up to the brace that closes, or the text ends there. -/
theorem closeBrace_braced (h : Braced c ns [] c₁)
    (hstop : (c₁.kind == .sign .rightBrace) = true ∨ c₁.atEnd = true) :
    closeBrace.Ensures c₁ fun hs c' => Braced c ns hs c' ∧
      (Resolve.lacksBrace hs = true → c'.atEnd = true) ∧
      ∀ n ∈ ns, n.hasOpen = true → Resolve.lacksBrace hs = true := by
  refine (closeBrace_reads.and (closeBrace_ensures hstop)).mono ?_
  intro hs c' hp
  obtain ⟨hr, hcase⟩ := hp
  refine ⟨by simpa using h.append (.of_flat hr), ?_⟩
  -- the brace is there, and then nothing before it is open; or the text has ended
  rcases hcase with ⟨hk, rfl, rfl⟩ | ⟨he, rfl, rfl⟩
  · refine ⟨fun hl => absurd hl (by simp [Resolve.lacksBrace]), fun n hn ho => ?_⟩
    have he := Reads.atEnd_of_word (k := .sign .rightBrace) rfl hk
    exact absurd (h.ends n hn ho).2 (by simp [he])
  · exact ⟨fun _ => he, fun _ _ _ => rfl⟩

section Below

variable {below : Nested} (hb : below.Braces)
include hb

/-- The statements of a body, up to where it stops. -/
theorem statements_braced {stops : TokenKind → Bool} :
    Ensures (manyUntil stops (guarded below.statement)) c fun ns c' =>
      Braced c ns [] c' ∧ (stops c'.kind = true ∨ c'.atEnd = true) :=
  manyUntil_braced fun c he => guarded_braced he (hb.statement c) (hb.statement_braced c)

/-! ## Declarations -/

theorem letDefinition_braced (at_ : Nat) {mods : Option Node}
    (h : Reads .flat c mods.toList [] c₁) (hk : c₁.kind = .keyword .letWord) :
    (letDefinition below at_ mods).Ensures c₁ fun n c' => Braced c [n] [] c' := by
  refine (letDefinition_ensures hb.toSound at_ h hk).mono ?_
  intro _ c' hcase
  obtain ⟨type, title, value, hs, rfl, hp, -⟩ := hcase
  exact (Braced.of_flat hp).joined rfl

theorem bareVariable_braced :
    (bareVariable below).Ensures c fun n c' => Braced c [n] [] c' := by
  refine (bareVariable_ensures hb.toSound).mono ?_
  intro _ c' hcase
  obtain ⟨type, title, rfl, hp⟩ := hcase
  exact (Braced.of_flat hp).new rfl

theorem variableRest_braced (at_ : Nat) {mods : Option Node} {type title : Node}
    (h : Reads .flat c (mods.toList ++ [type, title]) [] c₁) :
    (variableRest below at_ mods type title).Ensures c₁ fun n c' => Braced c [n] [] c' := by
  unfold variableRest
  refine (initialValue_reads hb.toSound).bind fun value c₂ h₂ => ?_
  refine semicolon_reads.bind fun hs c₃ h₃ => .lastStop (.pure (.joined ?_ rfl))
  simpa [NodeKind.children] using Braced.of_flat (h.append (h₂.append h₃))

/-- A block begins with its brace, so an open one has taken it. -/
theorem block_braced (hk : c.kind = .sign .leftBrace) :
    (block below).Ensures c fun n c' => Braced c [n] [] c' ∧ n.isBlock = true := by
  have he : c.atEnd = false := Reads.atEnd_of_word rfl hk
  unfold block
  refine .advance ((statements_braced hb).bind ?_)
  intro statements c₁ hp
  obtain ⟨h₁, hstop⟩ := hp
  have hstatements : Braced c statements [] c₁ := (Braced.word rfl hk).append h₁
  refine (closeBrace_braced hstatements hstop).bind ?_
  intro hs c₂ hp
  obtain ⟨h₂, hend, hopen⟩ := hp
  refine .lastStop (.pure ⟨.body h₂ rfl rfl (fun hl => ⟨he, hend hl⟩) hopen, ?_⟩)
  unfold Node.combine
  split
  · rfl
  · rfl

/-- A body is a block, or there is none. -/
theorem functionBody_braced : (functionBody below).Ensures c fun p c' =>
    Braced c p.1.toList p.2 c' ∧ ∀ body ∈ p.1, body.isBlock = true := by
  unfold functionBody
  refine .sees ?_
  split
  · refine (block_braced hb (beq_iff_eq.mp ‹_›)).bind ?_
    intro body c' hp
    obtain ⟨h, hbody⟩ := hp
    exact .pure ⟨h, fun n hn => Option.some.inj hn ▸ hbody⟩
  · exact semicolon_reads.bind fun hs c' h => .pure ⟨.of_flat h, fun n hn => absurd hn (by simp)⟩

theorem parameter_braced : (parameter below).Ensures c fun n c' => Braced c [n] [] c' := by
  unfold parameter
  refine .here (.kind (.seesParenthesizedType ?_))
  split
  · exact (hole_reads _).mono fun n c' h => .of_flat h.2
  · refine (hb.type c).bind fun type c₁ h₁ => .eat? (fun hk => ?_) (fun _ => ?_)
    · exact .lastStop (.pure (.new (.of_flat (h₁.append (nameNode_reads hk))) rfl))
    · exact .lastStop (.pure (.new (.of_flat h₁) rfl))

/-- Parameters have no bodies. -/
theorem parameters_braced : Ensures (separatedOpen (parameter below)) c fun ps c' =>
    Braced c ps.1 [] c' := by
  refine Ensures.separatedOpen (I := fun ns c' => Braced c ns [] c') ?_ ?_ [] c .nil
  · intro ns c₁ h _
    exact (parameter_braced hb).mono fun n c₂ h' => by simpa using h.append h'
  · intro ns c₁ h hcase
    rcases hcase with hk | hk
    · simpa using h.append (.word rfl hk)
    · simpa using h.append (.word rfl hk)

/-- A function is open where its body is. -/
theorem functionRest_braced (at_ : Nat) {mods : Option Node} {returns title : Node}
    (h : Reads .flat c (mods.toList ++ [returns, title]) [] c₁)
    (hk : c₁.kind = .sign .leftParen) :
    (functionRest below at_ mods returns title).Ensures c₁ fun n c' => Braced c [n] [] c' := by
  unfold functionRest
  refine .advance ((parameters_braced hb).bind ?_)
  intro p c₂ h₂
  obtain ⟨parameters, variadic⟩ := p
  show Ensures (closeParen >>= _) _ _
  refine closeParen_reads.bind fun hs c₃ h₃ => (functionBody_braced hb).bind ?_
  intro p c₄ hp
  obtain ⟨body, gs⟩ := p
  obtain ⟨h₄, hbody⟩ := hp
  refine .lastStop (.pure (.joined ?_ ?_))
  · have hhead := Braced.of_flat (h.append (Reads.of_word rfl hk))
    simpa [NodeKind.children] using hhead.append (h₂.append ((Braced.of_flat h₃).append h₄))
  · cases body with
    | none => rfl
    | some body => exact hbody body rfl

/-- Of the declarations only functions have bodies. -/
theorem declaration_braced : (declaration below).Ensures c fun n c' => Braced c [n] [] c' := by
  unfold declaration
  refine .here (.kind (.seesParenthesizedType ?_))
  split
  · exact (refuse_reads _).mono fun n c' h => .of_flat h.1
  · refine modifiers_ensures.bind fun mods c₁ hm => ?_
    have h₁ : Reads .flat c mods.toList [] c₁ := by
      rcases hm with ⟨rfl, -, rfl⟩ | ⟨n, rfl, h, -⟩
      · exact .nil
      · exact h
    refine .sees ?_
    split
    · exact letDefinition_braced hb _ h₁ (beq_iff_eq.mp ‹_›)
    · refine (hb.type c₁).bind fun type c₂ h₂ => declaredName_reads.bind fun title c₃ h₃ => ?_
      have h₄ : Reads .flat c (mods.toList ++ [type, title]) [] c₃ := by
        simpa using h₁.append (h₂.append h₃)
      refine .sees ?_
      split
      · exact functionRest_braced hb _ h₄ (beq_iff_eq.mp ‹_›)
      · exact variableRest_braced hb _ h₄

/-! ## Members -/

omit hb in
theorem includeDirective_braced (hk : c.kind = .includeDirective) :
    includeDirective.Ensures c fun n c' => Braced c [n] [] c' := by
  unfold includeDirective
  refine .advance (path_reads.bind fun file c₁ h => .pure (.new ?_ rfl))
  simpa [NodeKind.children] using (Braced.word rfl hk).append (.of_flat h)

omit hb in
theorem inheritance_braced (hk : c.kind = .keyword .inheritWord) :
    inheritance.Ensures c fun n c' => Braced c [n] [] c' := by
  unfold inheritance
  refine .advance (path_reads.bind fun file c₁ h₁ => semicolon_reads.bind fun hs c₂ h₂ => ?_)
  refine .lastStop (.pure (.joined ?_ rfl))
  simpa [NodeKind.children] using (Braced.word rfl hk).append (.of_flat (h₁.append h₂))

omit hb in
theorem emptyStatement_braced (hk : c.kind = .sign .semicolon) :
    emptyStatement.Ensures c fun n c' => Braced c [n] [] c' := by
  unfold emptyStatement
  exact .advance (.pure (.new (.word rfl hk) rfl))

/-- The members of a class, with the holes of its braces. -/
theorem classBody_braced : (classBody below).Ensures c fun p c' => Braced c p.1 p.2 c' ∧
    (Resolve.lacksBrace p.2 = true → c'.atEnd = true) ∧
      ∀ n ∈ p.1, n.hasOpen = true → Resolve.lacksBrace p.2 = true := by
  unfold classBody
  refine ((expect_reads rfl _).and (expect_lacks fun _ => rfl)).bind ?_
  intro p c₁ hp
  obtain ⟨opened, opening⟩ := p
  -- the hole of the opening brace is not that of the closing one
  obtain ⟨h₁, hopening⟩ : Reads .flat c [] opening c₁ ∧ Resolve.lacksBrace opening = false := hp
  cases opened with
  | false =>
    refine .pure ⟨.of_flat h₁, fun hl => ?_, fun n hn => absurd hn (by simp)⟩
    exact absurd hl (by simp [hopening])
  | true =>
    show Ensures (manyUntil _ _ >>= _) _ _
    refine (manyUntil_braced fun c he =>
      guarded_braced he (hb.member c) (hb.member_braced c)).bind ?_
    intro members c₂ hp
    obtain ⟨h₂, hstop⟩ := hp
    refine (closeBrace_braced h₂ hstop).bind ?_
    intro closing c₃ hp
    obtain ⟨h₃, hend, hopen⟩ := hp
    -- of the two holes only that of the closing brace counts
    have hlacks : Resolve.lacksBrace (opening ++ closing) = Resolve.lacksBrace closing := by
      unfold Resolve.lacksBrace at hopening ⊢
      rw [List.any_append, hopening, Bool.false_or]
    have hr := (Braced.of_flat h₁).append h₃
    refine .eats (fun hk => .pure ?_) (fun _ => .pure ?_)
    · rw [hlacks]
      have hword : Braced c₃ [] [] c₃.skip := .word rfl hk
      exact ⟨by simpa using hr.append hword, fun hl => (hword.stays (hend hl)).1, hopen⟩
    · rw [hlacks]
      exact ⟨hr, hend, hopen⟩

/-- A class is open if its own brace is missing or something in it is open. -/
theorem classDefinition_braced (hk : c.kind = .keyword .classWord) :
    (classDefinition below).Ensures c fun n c' => Braced c [n] [] c' := by
  unfold classDefinition
  refine .advance (name_reads.bind fun title c₁ h₁ => ?_)
  have ht : Reads .flat c [title] [] c₁ := (Reads.of_word rfl hk).append h₁
  have he : c.atEnd = false := Reads.atEnd_of_word rfl hk
  refine .sees ?_
  split
  · refine (strings_reads (beq_iff_eq.mp ‹_›)).bind fun file c₂ h₂ => ?_
    have hlacks : semicolon.Ensures c₂ fun hs _ => Resolve.lacksBrace hs = false := by
      unfold semicolon
      exact (expect_lacks fun _ => rfl).bind fun p _ h => .pure h
    refine (semicolon_reads.and hlacks).bind ?_
    intro hs c₃ hp
    obtain ⟨h₃, hlacks⟩ := hp
    have hr : Reads .flat c [title, file] hs c₃ := ht.append (h₂.append h₃)
    refine .lastStop (.pure (.body (.of_flat hr) rfl rfl (fun hl => ?_) fun m hm ho => ?_))
    · exact absurd hl (by simp [hlacks])
    · have hflat := hr.isFlat m (List.mem_append_left _ hm)
      exact absurd ho (by simp [Node.hasOpen_of_isFlat hflat])
  · refine (classBody_braced hb).bind ?_
    intro p c₂ hp
    obtain ⟨members, bracing⟩ := p
    obtain ⟨h₂, hend, hopen⟩ := hp
    have hr : Braced c (title :: members) bracing c₂ := (Braced.of_flat ht).append h₂
    refine .lastStop (.pure (.body hr rfl rfl (fun hl => ⟨he, hend hl⟩) ?_))
    refine List.forall_mem_cons.mpr ⟨fun ho => ?_, hopen⟩
    exact absurd ho (by simp [Node.hasOpen_of_isFlat (ht.isFlat title (by simp))])

/-- Whatever a file or a class may contain. -/
theorem member_braced : (member below).Ensures c fun n c' => Braced c [n] [] c' := by
  unfold member
  refine .kind ?_
  split
  · exact includeDirective_braced ‹_›
  · exact inheritance_braced ‹_›
  · exact classDefinition_braced hb ‹_›
  · exact emptyStatement_braced ‹_›
  · exact declaration_braced hb

/-! ## Statements -/

/-- The other branch is open where its statement is. -/
theorem otherwise_braced : (otherwise below).Ensures c fun o c' => Braced c o.toList [] c' := by
  unfold otherwise
  refine .eats (fun hk => ?_) (fun _ => .pure .nil)
  exact (hb.statement_braced _).bind fun n c' h => .pure ((Braced.word rfl hk).append h)

/-- Of the two branches only the last one can be open. -/
theorem ifStatement_braced (hk : c.kind = .keyword .ifWord) :
    (ifStatement below).Ensures c fun n c' => Braced c [n] [] c' := by
  unfold ifStatement
  refine .advance ((parenthesizedCondition_reads hb.toSound).bind ?_)
  intro p c₁ h₁
  obtain ⟨condition, hs⟩ := p
  refine (hb.statement_braced _).bind fun thenBranch c₂ h₂ => ?_
  refine (otherwise_braced hb).bind fun elseBranch c₃ h₃ => .lastStop (.pure (.joined ?_ rfl))
  have hhead := Braced.of_flat ((Reads.of_word rfl hk).append h₁)
  simpa [NodeKind.children] using hhead.append (h₂.append h₃)

/-- A loop is open where its body is. -/
theorem whileStatement_braced (hk : c.kind = .keyword .whileWord) :
    (whileStatement below).Ensures c fun n c' => Braced c [n] [] c' := by
  unfold whileStatement
  refine .advance ((parenthesizedCondition_reads hb.toSound).bind ?_)
  intro p c₁ h₁
  obtain ⟨condition, hs⟩ := p
  refine (hb.statement_braced _).bind fun body c₂ h₂ => .lastStop (.pure (.joined ?_ rfl))
  have hhead := Braced.of_flat ((Reads.of_word rfl hk).append h₁)
  simpa [NodeKind.children] using hhead.append h₂

/-- Nothing after an open body is read. -/
theorem doStatement_braced (hk : c.kind = .keyword .doWord) :
    (doStatement below).Ensures c fun n c' => Braced c [n] [] c' := by
  unfold doStatement
  refine .advance ((hb.statement_braced _).bind fun body c₁ h₁ => ?_)
  refine (expect_reads rfl _).bind ?_
  intro p c₂ h₂
  obtain ⟨found, hs⟩ := p
  refine (parenthesizedCondition_reads hb.toSound).bind ?_
  intro p c₃ h₃
  obtain ⟨condition, more⟩ := p
  refine semicolon_reads.bind fun gs c₄ h₄ => .lastStop (.pure (.joined ?_ rfl))
  have hrest := Braced.of_flat (h₂.append (h₃.append h₄))
  simpa [NodeKind.children] using (Braced.word rfl hk).append (h₁.append hrest)

/-- A declaration in a loop has no more bodies than elsewhere. -/
theorem forStart_braced : (forStart below).Ensures c fun p c' =>
    Braced c p.1.toList p.2 c' := by
  unfold forStart
  refine .eats (fun hk => .pure (.word rfl hk)) (fun _ => .kind ?_)
  split
  · exact (declaration_braced hb).bind fun n c' h => .pure h
  · refine (hb.expression _).bind fun start c₁ h₁ => semicolon_reads.bind fun hs c₂ h₂ => ?_
    exact .pure (.of_flat (h₁.append h₂))

theorem forStatement_braced (hk : c.kind = .keyword .forWord) :
    (forStatement below).Ensures c fun n c' => Braced c [n] [] c' := by
  unfold forStatement
  refine .advance (openParen_reads.bind fun hs₁ c₁ h₁ => (forStart_braced hb).bind ?_)
  intro p c₂ h₂
  obtain ⟨start, hs₂⟩ := p
  refine (optionalExpression_reads hb.toSound _).bind fun condition c₃ h₃ => ?_
  refine semicolon_reads.bind fun hs₃ c₄ h₄ => ?_
  refine (optionalExpression_reads hb.toSound _).bind fun step c₅ h₅ => ?_
  refine closeParen_reads.bind fun hs₄ c₆ h₆ => (hb.statement_braced _).bind fun body c₇ h₇ => ?_
  refine .lastStop (.pure (.joined ?_ rfl))
  have hhead := Braced.of_flat ((Reads.of_word rfl hk).append h₁)
  have hrest := Braced.of_flat (h₃.append (h₄.append (h₅.append h₆)))
  simpa [NodeKind.children] using hhead.append (h₂.append (hrest.append h₇))

theorem foreachBinding_braced : (foreachBinding below).Ensures c fun n c' =>
    Braced c [n] [] c' := by
  unfold foreachBinding
  refine .kind ?_
  split
  · exact bareVariable_braced hb
  · exact (hb.expression _).mono fun n c' h => .of_flat h

theorem foreachStatement_braced (hk : c.kind = .keyword .foreachWord) :
    (foreachStatement below).Ensures c fun n c' => Braced c [n] [] c' := by
  unfold foreachStatement
  refine .advance (openParen_reads.bind fun hs₁ c₁ h₁ => ?_)
  refine (foreachBinding_braced hb).bind fun binding c₂ h₂ => colon_reads.bind fun hs₂ c₃ h₃ => ?_
  refine (spanned_reads hb.toSound).bind fun iterable c₄ h₄ => ?_
  refine closeParen_reads.bind fun hs₃ c₅ h₅ => (hb.statement_braced _).bind fun body c₆ h₆ => ?_
  refine .lastStop (.pure (.joined ?_ rfl))
  have hhead := Braced.of_flat ((Reads.of_word rfl hk).append h₁)
  have hrest := Braced.of_flat (h₃.append (h₄.append h₅))
  simpa [NodeKind.children] using hhead.append (h₂.append (hrest.append h₆))

/-- A case is open where its last statement is. -/
theorem labelledCase_braced (hw : c.kind.leavesNoTrace = true) :
    (labelledCase below).Ensures c fun n c' => Braced c [n] [] c' := by
  unfold labelledCase
  refine .advance ((caseValues_reads hb.toSound _).bind fun label c₁ h₁ => ?_)
  refine colon_reads.bind fun hs c₂ h₂ => (statements_braced hb).bind ?_
  intro statements c₃ hp
  obtain ⟨h₃, -⟩ := hp
  refine .lastStop (.pure (.joined ?_ rfl))
  have hhead := Braced.of_flat ((Reads.of_word hw rfl).append (h₁.append h₂))
  simpa [NodeKind.children] using hhead.append h₃

/-- A token in the place of a case has no body. -/
theorem switchCase_braced (he : c.atEnd = false) : (switchCase below).Ensures c fun n c' =>
    Braced c [n] [] c' := by
  unfold switchCase
  refine .kind ?_
  split
  · exact labelledCase_braced hb (by rw [‹c.kind = _›]; rfl)
  · exact labelledCase_braced hb (by rw [‹c.kind = _›]; rfl)
  · refine (wrongCurrent_ensures _).mono ?_
    intro _ _ heq
    obtain ⟨rfl, rfl⟩ := heq
    exact .of_flat (.wrong _ he)

/-- The brace of a switch is no body of its own. -/
theorem switchBody_braced : (switchBody below).Ensures c fun p c' => Braced c p.1 p.2 c' := by
  unfold switchBody
  refine (expect_reads rfl _).bind ?_
  intro p c₁ h₁
  obtain ⟨opened, opening⟩ := p
  cases opened with
  | false => exact .pure (.of_flat h₁)
  | true =>
    show Ensures (manyUntil _ _ >>= _) _ _
    refine (manyUntil_braced fun c he => (switchCase_braced hb he).and
      ((switchCase_reads hb.toSound he).mono fun _ _ h => h.2)).bind ?_
    intro cases c₂ hp
    obtain ⟨h₂, -⟩ := hp
    refine closeBrace_reads.bind fun closing c₃ h₃ => .pure ?_
    simpa using (Braced.of_flat h₁).append (h₂.append (.of_flat h₃))

/-- A switch is open where its last case is. -/
theorem switchStatement_braced (hk : c.kind = .keyword .switchWord) :
    (switchStatement below).Ensures c fun n c' => Braced c [n] [] c' := by
  unfold switchStatement
  refine .advance ((parenthesizedCondition_reads hb.toSound).bind ?_)
  intro p c₁ h₁
  obtain ⟨value, hs⟩ := p
  refine (switchBody_braced hb).bind ?_
  intro p c₂ h₂
  obtain ⟨cases, bracing⟩ := p
  refine .lastStop (.pure (.joined ?_ rfl))
  exact (Braced.of_flat ((Reads.of_word rfl hk).append h₁)).append h₂

theorem handlerVariable_braced : (handlerVariable below).Ensures c fun p c' =>
    Braced c p.1.toList p.2 c' := by
  unfold handlerVariable
  refine .eats (fun hk => ?_) (fun _ => .pure .nil)
  refine (bareVariable_braced hb).bind fun exception c₁ h₁ => ?_
  refine closeParen_reads.bind fun hs c₂ h₂ => .pure ?_
  exact (Braced.word rfl hk).append (h₁.append (.of_flat h₂))

/-- The handler is read after what is tried, so only one of them can be open. -/
theorem tryStatement_braced (hk : c.kind = .keyword .tryWord) :
    (tryStatement below).Ensures c fun n c' => Braced c [n] [] c' := by
  unfold tryStatement
  have hword : Braced c [] [] c.skip := .word rfl hk
  refine .advance ((hb.statement_braced _).bind fun body c₁ h₁ =>
    .eats (fun hc => ?_) (fun _ => ?_))
  · refine (handlerVariable_braced hb).bind ?_
    intro p c₂ h₂
    obtain ⟨exception, hs⟩ := p
    refine (hb.statement_braced _).bind fun handler c₃ h₃ => .lastStop (.pure (.joined ?_ rfl))
    simpa [NodeKind.children] using
      hword.append (h₁.append ((Braced.word rfl hc).append (h₂.append h₃)))
  · refine (hole_reads _).bind fun handler c₂ h₂ => .lastStop (.pure (.new ?_ rfl))
    exact hword.append (h₁.append (.of_flat h₂.2))

theorem returnStatement_braced (hk : c.kind = .keyword .returnWord) :
    (returnStatement below).Ensures c fun n c' => Braced c [n] [] c' := by
  unfold returnStatement
  refine .advance ((optionalExpression_reads hb.toSound _).bind fun value c₁ h₁ => ?_)
  refine semicolon_reads.bind fun hs c₂ h₂ => .lastStop (.pure (.joined ?_ rfl))
  simpa [NodeKind.children] using
    Braced.of_flat ((Reads.of_word (r := .flat) rfl hk).append (h₁.append h₂))

/-- The first token decides which statement is read. -/
theorem statement_braced : (statement below).Ensures c fun n c' => Braced c [n] [] c' := by
  unfold statement
  refine .kind ?_
  split
  · exact (block_braced hb ‹_›).mono fun _ _ h => h.1
  · exact ifStatement_braced hb ‹_›
  · exact whileStatement_braced hb ‹_›
  · exact doStatement_braced hb ‹_›
  · exact forStatement_braced hb ‹_›
  · exact foreachStatement_braced hb ‹_›
  · exact switchStatement_braced hb ‹_›
  · exact tryStatement_braced hb ‹_›
  · exact returnStatement_braced hb ‹_›
  · exact (wordStatement_reads rfl rfl rfl ‹_›).mono fun _ _ h => .of_flat h
  · exact (wordStatement_reads rfl rfl rfl ‹_›).mono fun _ _ h => .of_flat h
  · exact emptyStatement_braced ‹_›
  · exact member_braced hb
  · split
    · exact declaration_braced hb
    · exact (expressionStatement_reads hb.toSound).mono fun _ _ h => .of_flat h

end Below

/-! ## The whole grammar -/

/-- A level more or less opens nothing. -/
theorem nested_braced {production : Parse Node} (e : Expected)
    (h : ∀ c, production.Ensures c fun n c' => Braced c [n] [] c') :
    (nested e production).Ensures c fun n c' => Braced c [n] [] c' := by
  unfold nested
  refine .depth ?_
  split
  · exact (refuse_reads e).mono fun _ _ h => .of_flat h.1
  · refine .setDepth ((h _).bind fun n c' hr => .depth (.setDepth (.pure ?_)))
    exact ⟨hr.stays, hr.settled, hr.alone, hr.ends, hr.last, hr.flat⟩

end Parse

namespace Nested

/-- Where all is refused, nothing has a body. -/
theorem none_braces : Nested.none.Braces where
  toSound := none_sound
  statement_braced _ := (Parse.refuse_reads _).mono fun _ _ h => .of_flat h.1
  member_braced _ := (Parse.refuse_reads _).mono fun _ _ h => .of_flat h.1

/-- A level reads bodies up to their braces if the one below it does. -/
theorem above_braces {below : Nested} (hb : below.Braces) : below.above.Braces where
  toSound := above_sound hb.toSound
  statement_braced _ := Parse.nested_braced _ fun _ => Parse.statement_braced hb
  member_braced _ := Parse.nested_braced _ fun _ => Parse.member_braced hb

/-- So does every level that can be built. -/
theorem levels_braces : ∀ n, (levels n).Braces
  | 0 => none_braces
  | n + 1 => above_braces (levels_braces n)

end Nested

/-- **In a file only the last bodies are open**, one around the other. -/
theorem Parse.members_braced (until_ : TokenKind) :
    (members until_).Ensures c fun ns c' => Braced c ns [] c' := by
  have hb := Nested.levels_braces maxDepth
  refine (manyUntil_braced fun c he => ?_).mono fun _ _ h => h.1
  exact guarded_braced he (member_reads hb.toSound) (member_braced hb)

end MudEdit
