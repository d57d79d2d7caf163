import MudEdit.Grammar.Annotation
import MudEdit.Proofs.Grammar.Ensures
import MudEdit.Proofs.Grammar.Span

/-!
# Holes are read by the rules

What the productions for holes do at each kind of token, and that it is a reading. At the
end of the text nothing is taken as wrong: that end counts as a token from which reading
can resume.
-/

namespace MudEdit

variable {α : Type} {r : Reach} {c c' : Cursor}

namespace Node

variable {begin stop : Nat} {t : Token} {e : Expected}

@[simp] theorem isHole_missing : (missing begin e).isHole = true := rfl

@[simp] theorem isMissing_missing : (missing begin e).isMissing = true := rfl

@[simp] theorem isHole_wrong : (wrong t e).isHole = true := rfl

@[simp] theorem isMissing_wrong : (wrong t e).isMissing = false := rfl

end Node

/-- The kinds that a declaration starts with, one by one. -/
theorem TokenKind.startsDeclaration_iff {k : TokenKind} : k.startsDeclaration = true ↔
    (∃ b, k = .basic b) ∨ (∃ m, k = .modifier m) ∨ k = .keyword .letWord ∨
      k = .keyword .inheritWord ∨ k = .keyword .classWord ∨ k = .includeDirective := by
  unfold startsDeclaration
  split <;> simp_all

/-- The end of the text is a place to resume at. -/
theorem Cursor.isSync_of_atEnd (h : c.atEnd = true) : c.kind.isSync = true := by
  rw [Cursor.kind_of_atEnd h]; rfl

/-- What is taken as wrong is a token of the text. -/
theorem Cursor.atEnd_of_not_isSync (h : c.kind.isSync = false) : c.atEnd = false := by
  cases he : c.atEnd with
  | false => rfl
  | true => rw [Cursor.isSync_of_atEnd he] at h; exact absurd h (by simp)

namespace Parse

/-! ## A hole -/

/-- The current token becomes the hole. -/
theorem wrongCurrent_ensures (e : Expected) : (wrongCurrent e).Ensures c fun n c' =>
    n = .wrong c.current e ∧ c' = c.skip := .advance (.pure ⟨rfl, rfl⟩)

/-- Where reading can resume the hole is empty, elsewhere it takes the token there. -/
theorem hole_ensures (e : Expected) : (hole e).Ensures c fun n c' =>
    (c.kind.isSync = true ∧ n = .missing c.lastStop e ∧ c' = c) ∨
      (c.kind.isSync = false ∧ n = .wrong c.current e ∧ c' = c.skip) := by
  unfold hole
  refine .kind ?_
  split
  · rename_i hs
    exact .lastStop (.pure (.inl ⟨hs, rfl, rfl⟩))
  · rename_i hs
    rw [Bool.not_eq_true] at hs
    exact (wrongCurrent_ensures e).mono fun _ _ h => .inr ⟨hs, h⟩

/-- Either hole is read by a rule of its own. -/
theorem hole_reads (e : Expected) :
    (hole e).Ensures c fun n c' => n.isHole = true ∧ Reads .flat c [n] [] c' := by
  refine (hole_ensures e).mono ?_
  intro n c' hcase
  rcases hcase with ⟨hs, rfl, rfl⟩ | ⟨hs, rfl, rfl⟩
  · exact ⟨rfl, .missing e⟩
  · exact ⟨rfl, .wrong e (Cursor.atEnd_of_not_isSync hs)⟩

/-- Refusing takes a token unless the text has ended. -/
theorem refuse_reads (e : Expected) : (refuse e).Ensures c fun n c' =>
    Reads .flat c [n] [] c' ∧ (c.atEnd = false → c'.left < c.left) := by
  unfold refuse
  refine .atEnd ?_
  split
  · rename_i he
    exact .lastStop (.pure ⟨.missing e, fun h => absurd he (by simp [h])⟩)
  · rename_i he
    rw [Bool.not_eq_true] at he
    refine (wrongCurrent_ensures e).mono ?_
    intro _ _ heq
    obtain ⟨rfl, rfl⟩ := heq
    exact ⟨.wrong e he, Cursor.left_skip⟩

/-! ## A token that has to be there -/

/-- The token is there, or nothing is taken, or a wrong token is, and with it the right one behind
it. -/
theorem expect_ensures (k : TokenKind) (e : Expected) : (expect k e).Ensures c fun p c' =>
    (c.kind = k ∧ p = (true, []) ∧ c' = c.skip) ∨
      (c.kind ≠ k ∧ c.kind.isSync = true ∧ p = (false, [.missing c.lastStop e]) ∧ c' = c) ∨
      (c.kind ≠ k ∧ c.kind.isSync = false ∧ p.2 = [.wrong c.current e] ∧
        (c' = c.skip ∨ c.skip.kind = k ∧ c' = c.skip.skip)) := by
  unfold expect
  refine .eats (fun hk => ?_) (fun hk => ?_)
  · exact .pure (.inl ⟨hk, rfl, rfl⟩)
  · refine (hole_ensures e).bind ?_
    intro h c' hcase
    rcases hcase with ⟨hs, rfl, rfl⟩ | ⟨hs, rfl, rfl⟩
    · exact .pure (.inr (.inl ⟨hk, hs, rfl, rfl⟩))
    · -- behind a wrong token the right one may still stand
      refine .eats (fun hn => ?_) (fun _ => ?_)
      · exact .pure (.inr (.inr ⟨hk, hs, rfl, .inr ⟨hn, rfl⟩⟩))
      · exact .pure (.inr (.inr ⟨hk, hs, rfl, .inl rfl⟩))

/-- Whatever is found in the place of a token, only its holes are kept. -/
theorem expect_reads {k : TokenKind} (hk : k.leavesNoTrace = true) (e : Expected) :
    (expect k e).Ensures c fun p c' => Reads .flat c [] p.2 c' := by
  refine (expect_ensures k e).mono ?_
  intro p c' hcase
  obtain ⟨found, holes⟩ := p
  rcases hcase with ⟨h, hp, rfl⟩ | ⟨-, -, hp, rfl⟩ | ⟨-, hs, hp, hc⟩
  · obtain ⟨rfl, rfl⟩ := Prod.mk.inj hp
    exact .of_word hk h
  · obtain ⟨rfl, rfl⟩ := Prod.mk.inj hp
    exact .aside (.missing e) rfl
  · have hw : Reads .flat c [] holes c.skip := by
      subst hp
      exact .aside (.wrong e (Cursor.atEnd_of_not_isSync hs)) rfl
    -- the right token behind the wrong one is passed over
    rcases hc with rfl | ⟨h, rfl⟩
    · exact hw
    · simpa using hw.append (.of_word hk h)

/-- The same where it does not matter whether the token was found. -/
theorem holesOf_expect_reads {k : TokenKind} (hk : k.leavesNoTrace = true) (e : Expected) :
    Ensures (return (← expect k e).2) c fun hs c' => Reads .flat c [] hs c' :=
  (expect_reads hk e).bind fun _ _ h => .pure h

theorem semicolon_reads : semicolon.Ensures c fun hs c' => Reads .flat c [] hs c' :=
  holesOf_expect_reads rfl _

theorem colon_reads : colon.Ensures c fun hs c' => Reads .flat c [] hs c' :=
  holesOf_expect_reads rfl _

theorem openParen_reads : openParen.Ensures c fun hs c' => Reads .flat c [] hs c' :=
  holesOf_expect_reads rfl _

theorem closeParen_reads : closeParen.Ensures c fun hs c' => Reads .flat c [] hs c' :=
  holesOf_expect_reads rfl _

theorem closeBracket_reads : closeBracket.Ensures c fun hs c' => Reads .flat c [] hs c' :=
  holesOf_expect_reads rfl _

theorem closeBrace_reads : closeBrace.Ensures c fun hs c' => Reads .flat c [] hs c' :=
  holesOf_expect_reads rfl _

/-- At a closing brace it is taken, and at the end of the text nothing is. -/
theorem closeBrace_ensures (h : (c.kind == .sign .rightBrace) = true ∨ c.atEnd = true) :
    closeBrace.Ensures c fun hs c' =>
      (c.kind = .sign .rightBrace ∧ hs = [] ∧ c' = c.skip) ∨
        (c.atEnd = true ∧ hs = [.missing c.lastStop .rightBrace] ∧ c' = c) := by
  unfold closeBrace
  refine (expect_ensures _ _).bind ?_
  intro p c' hcase
  obtain ⟨found, holes⟩ := p
  rcases hcase with ⟨hk, hp, rfl⟩ | ⟨hk, -, hp, rfl⟩ | ⟨hk, hs, -, -⟩
  · obtain ⟨rfl, rfl⟩ := Prod.mk.inj hp
    exact .pure (.inl ⟨hk, rfl, rfl⟩)
  · obtain ⟨rfl, rfl⟩ := Prod.mk.inj hp
    exact .pure (.inr ⟨h.resolve_left fun hb => hk (beq_iff_eq.mp hb), rfl, rfl⟩)
  · -- neither a brace nor the end is taken as wrong
    rcases h with h | h
    · exact absurd (beq_iff_eq.mp h) hk
    · exact absurd hs (by simp [Cursor.isSync_of_atEnd h])

/-- So behind a closing brace nothing reaches further, or the text ends there. -/
theorem closeBrace_settles (h : (c.kind == .sign .rightBrace) = true ∨ c.atEnd = true) :
    closeBrace.Ensures c fun _ c' => c'.left < c.left ∨ c'.atEnd = true := by
  refine (closeBrace_ensures h).mono ?_
  intro hs c' hcase
  rcases hcase with ⟨hk, -, rfl⟩ | ⟨he, -, rfl⟩
  · exact .inl (Cursor.left_skip (Reads.atEnd_of_word rfl hk))
  · exact .inr he

/-! ## Loops -/

section Loops

variable {stops : TokenKind → Bool} {closer : TokenKind} {item : Parse Node}

/-- The turns of a loop up to some token read a construct and take a token each. -/
theorem manyUntil_reads
    (turn : ∀ c, stops c.kind = false → c.atEnd = false →
      item.Ensures c fun n c' => Reads r c [n] [] c' ∧ c'.left < c.left) :
    Ensures (manyUntil stops item) c fun ns c' =>
      Reads r c ns [] c' ∧ (stops c'.kind = true ∨ c'.atEnd = true) := by
  refine Ensures.manyUntil (I := fun ns c' => Reads r c ns [] c') ?_ [] c .nil
  intro ns c₁ h hs he
  exact (turn c₁ hs he).mono fun n c₂ ⟨h', hl⟩ => ⟨by simpa using h.append h', hl⟩

/-- A list with signs between its items is read up to what closes it. -/
theorem separated_reads
    (turn : ∀ c, c.atEnd = false → item.Ensures c fun n c' => Reads r c [n] [] c') :
    Ensures (separated closer item) c fun ns c' => Reads r c ns [] c' := by
  refine Ensures.separated (I := fun ns c' => Reads r c ns [] c') ?_ ?_ [] c .nil
  · intro ns c₁ h he
    exact (turn c₁ he).mono fun n c₂ h' => by simpa using h.append h'
  · intro ns c₁ h hk
    simpa using h.append (.of_word rfl hk)

/-- What holds of each item holds of all. -/
theorem separatedOpen_reads {p : Node → Prop}
    (turn : ∀ c, c.atEnd = false → item.Ensures c fun n c' => Reads r c [n] [] c' ∧ p n) :
    Ensures (separatedOpen item) c fun ns c' => Reads r c ns.1 [] c' ∧ ∀ n ∈ ns.1, p n := by
  let I := fun ns c' => Reads r c ns [] c' ∧ ∀ n ∈ ns, p n
  refine Ensures.separatedOpen (I := I) ?_ ?_ [] c ⟨.nil, by simp⟩
  · intro ns c₁ hp he
    obtain ⟨h, hall⟩ := hp
    refine (turn c₁ he).mono ?_
    intro n c₂ hp
    obtain ⟨h', hn⟩ := hp
    exact ⟨by simpa using h.append h',
      List.forall_mem_append.mpr ⟨hall, List.forall_mem_singleton.mpr hn⟩⟩
  · intro ns c₁ hp hcase
    obtain ⟨h, hall⟩ := hp
    refine ⟨?_, hall⟩
    rcases hcase with hk | hk
    · simpa using h.append (.of_word rfl hk)
    · simpa using h.append (.of_word rfl hk)

end Loops

/-- Between the cursors the construct became part of a larger one, and a token was taken. -/
def Grown (target : Node) (c : Cursor) (n : Node) (c' : Cursor) : Prop :=
  c'.left < c.left ∧ ∀ c₀, Reads .flat c₀ [target] [] c → Reads .flat c₀ [n] [] c'

/-- At every cursor the construct is left as it is and nothing is taken, or it grows. -/
def Grows (grow : Node → Parse (Option Node)) : Prop :=
  ∀ target c, (grow target).Ensures c fun o c' =>
    (o = none ∧ c' = c) ∨ ∃ n, o = some n ∧ Grown target c n c'

/-- What has nothing to grow by. -/
theorem unchanged_ensures {target : Node} :
    Ensures (pure (none : Option Node)) c fun o c' =>
      (o = none ∧ c' = c) ∨ ∃ n, o = some n ∧ Grown target c n c' := .pure (.inl ⟨rfl, rfl⟩)

/-- What has grown. -/
theorem grown_ensures {target : Node} {p : Parse Node} (h : p.Ensures c (Grown target c)) :
    Ensures (return Option.some (← p)) c fun o c' =>
      (o = none ∧ c' = c) ∨ ∃ n, o = Option.some n ∧ Grown target c n c' :=
  h.bind fun n _ hn => .pure (.inr ⟨n, rfl, hn⟩)

/-- A construct that grows again and again is read as one, from where it began. -/
theorem chain_reads {grow : Node → Parse (Option Node)} (hg : Grows grow) {n : Node}
    (h : Reads .flat c [n] [] c') :
    Ensures (chain grow n) c' fun n c'' => Reads .flat c [n] [] c'' ∧ c''.left ≤ c'.left := by
  refine Ensures.chain (I := fun n c'' => Reads .flat c [n] [] c'' ∧ c''.left ≤ c'.left)
    ?_ n c' ⟨h, Nat.le_refl _⟩
  intro n c₁ hp
  obtain ⟨h, hl⟩ := hp
  refine (hg n c₁).mono ?_
  intro o c₂ hcase
  rcases hcase with ⟨rfl, rfl⟩ | ⟨m, rfl, hlt, hm⟩
  · exact ⟨h, hl⟩
  · exact ⟨hm c h, Nat.le_trans (Nat.le_of_lt hlt) hl⟩

/-! ## What every loop is guarded by -/

/-- Guarded, a production takes a token even where it took none by itself. -/
theorem guarded_reads {production : Parse Node} (he : c.atEnd = false)
    (h : production.Ensures c fun n c' => Reads r c [n] [] c') :
    (guarded production).Ensures c fun n c' => Reads r c [n] [] c' ∧ c'.left < c.left := by
  unfold guarded
  refine .left (h.bind fun n c' hr => .atEnd (.left ?_))
  have hle := hr.left_le
  split
  · rename_i hg
    refine .pure ⟨hr, ?_⟩
    -- nothing more is taken if a token was, or if the text has ended since
    simp only [Bool.or_eq_true, bne_iff_ne] at hg
    rcases hg with hg | hg
    · -- the end of the text was not there before
      obtain ⟨ts, ht⟩ := hr.takes
      have hl := ht.left
      rw [c'.left_eq, Cursor.ahead_eq_nil hg] at hl ⊢
      obtain ⟨us, ha⟩ := Cursor.ahead_eq_cons he
      simp [c.left_eq, ha]
    · omega
  · rename_i hg
    rw [Bool.not_eq_true, Bool.or_eq_false_iff] at hg
    refine (wrongCurrent_ensures _).bind ?_
    intro _ _ heq
    obtain ⟨rfl, rfl⟩ := heq
    refine .pure ⟨?_, ?_⟩
    · -- the production took nothing, so the current token is taken for it
      refine .combine (by simpa using hr.append (.aside (.wrong _ hg.1) rfl)) (.inr ?_)
      intro mark hc
      rw [List.forall_mem_singleton]
      obtain ⟨ts, ht⟩ := hr.takes
      have hw := hr.within hc n List.mem_cons_self
      exact Nat.le_trans hw.self.begin_le_stop
        (Nat.le_trans hw.le_hi ((hc.takes ht).1.limit_le_current r))
    · exact Nat.lt_of_lt_of_le (Cursor.left_skip hg.1) hle

/-! ## Names and strings -/

/-- A name is a leaf with its text. -/
theorem leaf_identifier {t : Token} (h : t.kind = .identifier) :
    t.leaf? = some (.name t.text) := by
  simp [Token.leaf?, h]

theorem leaf_string {t : Token} (h : t.kind = .string) : t.leaf? = some (.string t.text) := by
  simp [Token.leaf?, h]

/-- A name is read by the rule for leaves. -/
theorem nameNode_reads (h : c.kind = .identifier) :
    Reads r c [nameNode c.current] [] c.skip :=
  .leaf (Cursor.atEnd_of_kind (by simp [h])) (leaf_identifier h)

/-- A name or a hole in its place. -/
theorem name_reads : name.Ensures c fun n c' => Reads .flat c [n] [] c' := by
  unfold name
  refine .eat? (fun hk => ?_) (fun _ => ?_)
  · exact .pure (nameNode_reads hk)
  · exact (hole_reads _).mono fun _ _ h => h.2

/-- The string literal of a token. -/
def stringNode (t : Token) : Node := .new t.begin t.stop (.string t.text)

/-- The strings that stand side by side are all taken, each as a literal. -/
theorem manyStrings_ensures :
    Ensures (manyUntil (· != .string) stringLiteral) c fun ns c' =>
      ∃ ts, ns = ts.map stringNode ∧ c.Takes ts c' ∧ (∀ t ∈ ts, t.kind = .string) ∧
        c'.kind ≠ .string := by
  let I := fun (ns : List Node) c' => ∃ ts, ns = ts.map stringNode ∧ c.Takes ts c' ∧
    ∀ t ∈ ts, t.kind = .string
  refine (Ensures.manyUntil (I := I) ?_ [] c ⟨[], rfl, .refl c, by simp⟩).mono ?_
  · intro ns c₁ hp hk he
    obtain ⟨ts, hn, ht, hs⟩ := hp
    refine .advance (.pure ⟨⟨ts ++ [c₁.current], ?_, ht.trans (Cursor.takes_skip he), ?_⟩,
      Cursor.left_skip he⟩)
    · rw [hn, List.map_append]; rfl
    · intro t h
      rcases List.mem_append.mp h with h | h
      · exact hs t h
      · rw [List.mem_singleton] at h
        subst h
        rwa [bne_eq_false_iff_eq, Cursor.kind_eq] at hk
  · intro ns c' hp
    obtain ⟨⟨ts, hn, ht, hs⟩, hstop⟩ := hp
    refine ⟨ts, by simpa using hn, ht, hs, ?_⟩
    rcases hstop with h | h
    · simpa using h
    · simp [Cursor.kind_of_atEnd h]

/-- Literals in a row are as many leaves. -/
theorem stringNodes_read : ∀ {ts : List Token} {c : Cursor}, c.Takes ts c' →
    (∀ t ∈ ts, t.kind = .string) → Reads .flat c (ts.map stringNode) [] c'
  | [], c, h, _ => by rw [h.eq_of_nil]; exact .nil
  | t :: ts, c, h, hs => by
    obtain ⟨he, rfl, ht⟩ := h.cons
    have hk := leaf_string (hs _ List.mem_cons_self)
    exact .append (.leaf he hk) (stringNodes_read ht fun u hu => hs u (List.mem_cons_of_mem _ hu))

/-- A literal stands for its text. -/
theorem stringValue_stringNode (t : Token) : (stringNode t).stringValue? = some t.text := rfl

/-- Several literals stand for their texts put together. -/
theorem stringValue_strings (begin stop : Nat) (ts : List Token) :
    (Node.new begin stop (.strings (ts.map stringNode))).stringValue? =
      some (String.join (ts.map Token.text)) := by
  show some (String.join ((ts.map stringNode).filterMap _)) = _
  rw [List.filterMap_map]
  exact congrArg (some ∘ String.join) (congrFun (List.filterMap_eq_map (f := Token.text)) ts)

/-- Strings that stand side by side are read as one construct that has all their text. -/
theorem strings_ensures (hk : c.kind = .string) : strings.Ensures c fun n c' =>
    Reads .flat c [n] [] c' ∧ ∃ ts, n.stringValue? = some (String.join (ts.map Token.text)) ∧
      c.Takes ts c' ∧ (∀ t ∈ ts, t.kind = .string) ∧ c'.kind ≠ .string := by
  unfold strings
  refine manyStrings_ensures.bind ?_
  intro _ c' hstrings
  obtain ⟨ts, rfl, ht, hs, hn⟩ := hstrings
  have hr : Reads .flat c (ts.map stringNode) [] c' := stringNodes_read ht hs
  -- one literal stands for itself, several are put together
  match ts, ht, hs, hr with
  | [], ht, _, _ => exact absurd hk (ht.eq_of_nil ▸ hn)
  | [t], ht, hs, hr =>
    show Ensures (pure (stringNode t)) c' _
    exact .pure ⟨hr, [t], by simp [stringValue_stringNode], ht, hs, hn⟩
  | t :: u :: ts, ht, hs, hr =>
    show Ensures (pure (Node.new t.begin t.begin (.strings ((t :: u :: ts).map stringNode)))) c' _
    refine .pure ⟨?_, t :: u :: ts, stringValue_strings _ _ _, ht, hs, hn⟩
    exact .construct hr rfl (.inr ⟨stringNode t, List.mem_cons_self, rfl⟩)
      (.inr ⟨stringNode t, List.mem_cons_self, .inl rfl⟩) rfl (.of_not rfl _ _)

theorem strings_reads (hk : c.kind = .string) :
    strings.Ensures c fun n c' => Reads .flat c [n] [] c' :=
  (strings_ensures hk).mono fun _ _ h => h.1

theorem path_reads : path.Ensures c fun n c' => Reads .flat c [n] [] c' := by
  unfold path
  refine .sees ?_
  split
  · exact strings_reads (beq_iff_eq.mp ‹_›)
  · exact (hole_reads _).mono fun _ _ h => h.2

end Parse

end MudEdit
