import MudEdit.Grammar.Control
import MudEdit.Proofs.Grammar.Ensures
import MudEdit.Proofs.Node.Flat
import MudEdit.Proofs.Token.Lexeme

/-!
# What the grammar makes of the tokens

The productions of the grammar are many, but each of them only does a few things with
the tokens ahead: it passes over a token that leaves no trace, it makes a leaf of one, it
leaves a hole, it makes a construct of the constructs just read. `Reads` has one rule for
each. `Reads r c ns hs c'` says that between the cursors `c` and `c'` the constructs `ns`
have been read, and that the holes `hs` are still to be joined to the
construct they were found in. Every production is shown to keep to these rules; what is
true of every forest then needs an induction over a dozen rules and not over the grammar.

A construct takes its offsets from the tokens between the cursors and from its parts. Some
productions note where the current token begins and then may find that there is nothing
for them, so that their construct reaches up to that token although it was not taken.
`Reach` tells such readings from the others. It also tells the readings of types and
expressions, in which there are no statements and no declarations.
-/

namespace MudEdit

/-- Whether a token of the kind may be passed over. -/
def TokenKind.leavesNoTrace (k : TokenKind) : Bool := !k.isContent && k != .eof

/-- The construct that a token is on its own, be it a name, a literal or a constant. -/
def Token.leaf? (t : Token) : Option NodeKind :=
  match t.kind with
  | .identifier => some (.name t.text)
  | .string => some (.string t.text)
  | _ => Parse.literal? t

/-- The constructs that a single token can be. -/
def NodeKind.isLeaf : NodeKind → Bool
  | name _ | int _ | float _ | string _ | char _ | symbol _ | bool _ | nil | this => true
  | _ => false

theorem Token.isLeaf_of_leaf {t : Token} {kind : NodeKind} (h : t.leaf? = some kind) :
    kind.isLeaf = true := by
  unfold Token.leaf? at h
  split at h
  · injection h with h; subst h; rfl
  · injection h with h; subst h; rfl
  · unfold Parse.literal? at h
    split at h <;> first
      | (injection h with h; subst h; rfl)
      | (injection h with h; subst h; split <;> rfl)
      | exact absurd h (by simp)

theorem NodeKind.children_of_isLeaf {kind : NodeKind} (h : kind.isLeaf = true) :
    kind.children = [] := by
  cases kind <;> first | rfl | exact absurd h (by simp [isLeaf])

/-- How far the constructs of a reading may reach. -/
inductive Reach where
  /-- Up to the last token taken; at the end of the text, up to that end. -/
  | taken
  /-- Up to where the current token begins. -/
  | ahead
  /-- As far as `taken`, by constructs that are flat. -/
  | flat
  deriving DecidableEq

/--
The constructs that are made of their parts only: no leaf that carries content, no hole,
no combination, and no type that carries the name of a file. A flat reading makes flat
constructs, and any other reading makes proper statements and declarations.
-/
def NodeKind.isPlain (r : Reach) : NodeKind → Bool
  | missing _ | wrong _ _ | combination _ _ | name _ | int _ | float _ | string _ | char _
  | symbol _ | basicType _ (some _) => false
  | kind =>
    match r with
    | .flat => kind.isFlat
    | _ => kind.isProper

/-- The construct begins no later than holes that are found in its braces. -/
def Node.Precedes (c : Cursor) (n : Node) (hs : List Node) : Prop :=
  n.kind.hasBraces = false ∨ ∀ mark, c.Placed mark → ∀ h ∈ hs, n.begin ≤ h.begin

/-- The constructs with a word or a brace of their own in front of all their parts. -/
def NodeKind.isHeaded : NodeKind → Bool
  | block _ | classDef _ _ _ | forLoop _ _ _ _ | foreachLoop _ _ _ | switchOn _ _
  | tryCatch _ _ _ => true
  | _ => false

theorem NodeKind.isHeaded_of_isFlat {kind : NodeKind} (h : kind.isFlat = true) :
    kind.isHeaded = false := by
  cases kind with
  | block | classDef | forLoop | foreachLoop | switchOn | tryCatch => exact Bool.noConfusion h
  | _ => rfl

/-- What has a word in front of its parts begins before each of them. -/
def NodeKind.Headed (c : Cursor) (begin : Nat) (kind : NodeKind) : Prop :=
  kind.isHeaded = true → ∀ mark, c.Placed mark → ∀ n ∈ kind.children, begin < n.begin

theorem NodeKind.Headed.of_not {kind : NodeKind} (h : kind.isHeaded = false) (c : Cursor)
    (begin : Nat) : kind.Headed c begin := by
  intro hh
  rw [h] at hh
  exact Bool.noConfusion hh

/-- The constructs read between two cursors, and the holes found on the way. -/
inductive Reads : Reach → Cursor → List Node → List Node → Cursor → Prop where
  | nil {r : Reach} {c : Cursor} : Reads r c [] [] c
  | append {r : Reach} {c c₁ c₂ : Cursor} {ns ms hs gs : List Node} :
      Reads r c ns hs c₁ → Reads r c₁ ms gs c₂ → Reads r c (ns ++ ms) (hs ++ gs) c₂
  | loosen {c c' : Cursor} {ns hs : List Node} : Reads .taken c ns hs c' → Reads .ahead c ns hs c'
  | embed {c c' : Cursor} {ns hs : List Node} : Reads .flat c ns hs c' → Reads .taken c ns hs c'
  /-- A token taken afterwards, or the end of the text, is beyond what was read before. -/
  | settle {c c₁ c₂ : Cursor} {ns ms hs gs : List Node} :
      Reads .ahead c ns hs c₁ → Reads .taken c₁ ms gs c₂ → c₂.left < c₁.left ∨ c₂.atEnd = true →
      Reads .taken c (ns ++ ms) (hs ++ gs) c₂
  /-- One level deeper and back. -/
  | deeper {r : Reach} {c c' : Cursor} {ns hs : List Node} :
      Reads r { c with depth := c.depth + 1 } ns hs c' →
      Reads r c ns hs { c' with depth := c'.depth - 1 }
  /-- A token that leaves no trace has no content. -/
  | word {r : Reach} {c : Cursor} :
      c.atEnd = false → c.kind.isContent = false → Reads r c [] [] c.skip
  | leaf {r : Reach} {c : Cursor} {kind : NodeKind} :
      c.atEnd = false → c.current.leaf? = some kind →
      Reads r c [.new c.current.begin c.current.stop kind] [] c.skip
  | missing {r : Reach} {c : Cursor} (expected : Expected) :
      Reads r c [.missing c.lastStop expected] [] c
  | wrong {r : Reach} {c : Cursor} (expected : Expected) :
      c.atEnd = false → Reads r c [.wrong c.current expected] [] c.skip
  /-- The parts of a construct need not be in the order they were read in, if there is something
  between those that change places. -/
  | reorder {r : Reach} {c c' : Cursor} {ns ms hs : List Node} :
      Reads r c ns hs c' → ns.Perm ms →
      (∀ mark, c.Placed mark → ns.Pairwise Node.Spaced → ms.Pairwise Node.Spaced) →
      Reads r c ms hs c'
  /-- A hole is put aside. -/
  | aside {r : Reach} {c c' : Cursor} {h : Node} :
      Reads r c [h] [] c' → h.isHole = true → Reads r c [] [h] c'
  /-- A construct is joined with the holes put aside. -/
  | combine {r : Reach} {c c' : Cursor} {n : Node} {hs : List Node} :
      Reads r c [n] hs c' → n.Precedes c hs → Reads r c [n.combine hs] [] c'
  /-- A construct of the parts just read. -/
  | construct {r : Reach} {c c' : Cursor} {hs : List Node} {begin stop : Nat} {kind : NodeKind} :
      Reads r c kind.children hs c' → kind.isPlain r = true →
      (begin = c.current.begin ∧ (r = .ahead ∨ c'.left < c.left)) ∨
        (∃ n ∈ kind.children, begin = n.begin) →
      (stop = c'.lastStop ∨ stop = c.current.stop ∧ c'.left < c.left) ∨
        (∃ n ∈ kind.children, stop = n.begin ∨ stop = n.stop) →
      kind.isRecorded = false → kind.Headed c begin → Reads r c [.new begin stop kind] hs c'
  /-- A construct that may be recorded where it begins: a token is taken there, and only flat
  parts are read, before any part that may be recorded as well. -/
  | record {r : Reach} {c c₁ c' : Cursor} {ns ms hs gs : List Node} {stop : Nat}
      {kind : NodeKind} :
      Reads .flat c ns hs c₁ → c₁.left < c.left → Reads r c₁ ms gs c' →
      kind.children = ns ++ ms → kind.isPlain r = true →
      stop = c'.lastStop ∨ stop = c.current.stop → kind.Headed c c.current.begin →
      Reads r c [.new c.current.begin stop kind] (hs ++ gs) c'
  /-- The name of an operator starts at its keyword and takes signs only. -/
  | operatorName {r : Reach} {c c' : Cursor} {hs : List Node} (text : String) :
      reservedWord? text = none → c.atEnd = false → c.kind.isContent = false →
      Reads r c.skip [] hs c' → Reads r c [.new c.current.begin c'.lastStop (.name text)] hs c'
  /-- A type carries the strings after its sign as the name of a file. -/
  | fileType {r : Reach} {c c₁ c₂ c' : Cursor} {ts us : List Token} {hs : List Node}
      (basic : BasicKind) :
      c.atEnd = false → c.kind.isContent = false → Reads r c.skip [] [] c₁ →
      c₁.Takes ts c₂ → (∀ t ∈ ts, t.kind = .string) →
      Reads r c₂ [] hs c' → c₂.Takes us c' → (∀ t ∈ us, t.kind ≠ .string) →
      Reads r c [.new c.current.begin c'.lastStop
        (.basicType basic (some (String.join (ts.map Token.text))))] hs c'

theorem NodeKind.isFlat_of_isLeaf {kind : NodeKind} (h : kind.isLeaf = true) :
    kind.isFlat = true := by
  cases kind <;> first | rfl | exact absurd h (by simp [isLeaf])

theorem NodeKind.isFlat_of_isPlain {kind : NodeKind} (h : kind.isPlain .flat = true) :
    kind.isFlat = true := by
  unfold isPlain at h
  split at h <;> first | exact h | exact absurd h Bool.false_ne_true

theorem NodeKind.isProper_of_isPlain {r : Reach} {kind : NodeKind} (hr : r ≠ .flat)
    (h : kind.isPlain r = true) : kind.isProper = true := by
  unfold isPlain at h
  cases r with
  | flat => exact absurd rfl hr
  | taken | ahead => split at h <;> exact h

namespace Reads

variable {r : Reach} {c c' c₁ : Cursor} {ns ms hs gs : List Node}

/-- A reading takes what stands ahead, in order, and nothing else. -/
theorem takes (h : Reads r c ns hs c') : ∃ ts, c.Takes ts c' := by
  induction h with
  | nil => exact ⟨[], .refl _⟩
  | append _ _ ih₁ ih₂ | settle _ _ _ ih₁ ih₂ | record _ _ _ _ _ _ _ ih₁ ih₂ =>
    obtain ⟨ts, h₁⟩ := ih₁
    obtain ⟨us, h₂⟩ := ih₂
    exact ⟨ts ++ us, h₁.trans h₂⟩
  | loosen _ ih | embed _ ih => exact ih
  | deeper _ ih =>
    obtain ⟨ts, h⟩ := ih
    exact ⟨ts, h.deeper⟩
  | word he _ => exact ⟨_, Cursor.takes_skip he⟩
  | leaf he _ => exact ⟨_, Cursor.takes_skip he⟩
  | missing => exact ⟨[], .refl _⟩
  | wrong _ he => exact ⟨_, Cursor.takes_skip he⟩
  | reorder _ _ _ ih => exact ih
  | aside _ _ ih => exact ih
  | combine _ _ ih => exact ih
  | construct _ _ _ _ _ _ ih => exact ih
  | operatorName _ _ he _ _ ih =>
    -- the keyword, and then the signs
    obtain ⟨ts, h⟩ := ih
    exact ⟨_, (Cursor.takes_skip he).trans h⟩
  | fileType _ he _ _ h₁ _ _ h₂ _ ih _ =>
    obtain ⟨ts, h⟩ := ih
    exact ⟨_, (((Cursor.takes_skip he).trans h).trans h₁).trans h₂⟩

theorem left_le (h : Reads r c ns hs c') : c'.left ≤ c.left := by
  obtain ⟨ts, h⟩ := h.takes
  have := h.left
  omega

/-- The constructs of two readings may be told apart from the holes of both. -/
theorem append_perm (ns ms hs gs : List Node) :
    ((ns ++ hs) ++ (ms ++ gs)).Perm ((ns ++ ms) ++ (hs ++ gs)) := by
  rw [List.append_assoc, List.append_assoc]
  exact (List.perm_append_comm_assoc hs ms gs).append_left ns

/-- What is read in the strictest sense is read in any. -/
theorem of_flat (h : Reads .flat c ns hs c') : Reads r c ns hs c' := by
  cases r with
  | flat => exact h
  | taken => exact h.embed
  | ahead => exact h.embed.loosen

theorem of_taken (h : Reads .taken c ns hs c') (hr : r ≠ .flat) : Reads r c ns hs c' := by
  cases r with
  | flat => exact absurd rfl hr
  | taken => exact h
  | ahead => exact h.loosen

/-- What is true of the tokens that a reading takes and of the nodes that it makes of them, since
it is of what each rule takes and makes, of two readings together, and in any order. -/
structure Kept (all : List Token) (X : List Token → List Node → Prop) : Prop where
  nil : X [] []
  append : ∀ {ts us : List Token} {ns ms : List Node}, X ts ns → X us ms → X (ts ++ us) (ns ++ ms)
  perm : ∀ {ts : List Token} {ns ms : List Node}, X ts ns → ns.Perm ms → X ts ms
  word : ∀ {c : Cursor}, c.In all → c.atEnd = false → c.kind.isContent = false → X [c.current] []
  leaf : ∀ {c : Cursor} {kind : NodeKind}, c.In all → c.atEnd = false →
    c.current.leaf? = some kind → X [c.current] [.new c.current.begin c.current.stop kind]
  missing : ∀ {c : Cursor} (expected : Expected), c.In all → X [] [.missing c.lastStop expected]
  wrong : ∀ {c : Cursor} (expected : Expected), c.In all → c.atEnd = false →
    X [c.current] [.wrong c.current expected]
  combine : ∀ {ts : List Token} {n : Node} {hs : List Node}, X ts (n :: hs) → X ts [n.combine hs]
  plain : ∀ {r : Reach} {ts : List Token} {hs : List Node} {begin stop : Nat} {kind : NodeKind},
    kind.isPlain r = true → X ts (kind.children ++ hs) → X ts (.new begin stop kind :: hs)
  operatorName : ∀ {c : Cursor} {text : String} {stop : Nat}, c.In all → c.atEnd = false →
    c.kind.isContent = false → reservedWord? text = none →
    X [c.current] [.new c.current.begin stop (.name text)]
  /-- Of what is read before the strings of the name of a file it is true as well. -/
  fileType : ∀ {r : Reach} {c c₁ c₂ c' : Cursor} {ts us vs : List Token} {basic : BasicKind},
    c.In all → c.atEnd = false → c.kind.isContent = false → Reads r c.skip [] [] c₁ →
    c.skip.Takes vs c₁ → X vs [] → c₁.Takes ts c₂ → (∀ t ∈ ts, t.kind = .string) →
    c₂.Takes us c' → (∀ t ∈ us, t.kind ≠ .string) →
    X ([c.current] ++ vs ++ ts) [.new c.current.begin c'.lastStop
      (.basicType basic (some (String.join (ts.map Token.text))))]

/-- **What every rule keeps is true of every reading**, of the tokens that it takes. -/
theorem Kept.reads {all : List Token} {X : List Token → List Node → Prop} (k : Kept all X)
    (h : Reads r c ns hs c') (hc : c.In all) : ∃ ts, c.Takes ts c' ∧ X ts (ns ++ hs) := by
  induction h with
  | nil => exact ⟨[], .refl _, k.nil⟩
  | append _ _ ih₁ ih₂ | settle _ _ _ ih₁ ih₂ =>
    obtain ⟨ts, h₁, hn₁⟩ := ih₁ hc
    obtain ⟨us, h₂, hn₂⟩ := ih₂ (hc.takes h₁)
    exact ⟨ts ++ us, h₁.trans h₂, k.perm (k.append hn₁ hn₂) (append_perm ..)⟩
  | loosen _ ih | embed _ ih | aside _ _ ih => exact ih hc
  | deeper _ ih =>
    obtain ⟨ts, h, hn⟩ := ih hc
    exact ⟨ts, h.deeper, hn⟩
  | word he hw => exact ⟨_, Cursor.takes_skip he, k.word hc he hw⟩
  | leaf he hl => exact ⟨_, Cursor.takes_skip he, k.leaf hc he hl⟩
  | missing e => exact ⟨[], .refl _, k.missing e hc⟩
  | wrong e he => exact ⟨_, Cursor.takes_skip he, k.wrong e hc he⟩
  | reorder _ hp _ ih =>
    obtain ⟨ts, h, hn⟩ := ih hc
    exact ⟨ts, h, k.perm hn (hp.append_right _)⟩
  | combine _ _ ih =>
    obtain ⟨ts, h, hn⟩ := ih hc
    exact ⟨ts, h, k.combine hn⟩
  | construct _ hp _ _ _ _ ih =>
    obtain ⟨ts, h, hn⟩ := ih hc
    exact ⟨ts, h, k.plain hp hn⟩
  | record _ _ _ hch hp _ _ ih₁ ih₂ =>
    obtain ⟨ts, h₁, hn₁⟩ := ih₁ hc
    obtain ⟨us, h₂, hn₂⟩ := ih₂ (hc.takes h₁)
    -- the parts are those of both readings, and so are the holes
    have hn := k.perm (k.append hn₁ hn₂) (append_perm ..)
    exact ⟨ts ++ us, h₁.trans h₂, k.plain hp (hch ▸ hn)⟩
  | operatorName text hnone he hw _ ih =>
    obtain ⟨ts, h, hn⟩ := ih (hc.takes (Cursor.takes_skip he))
    exact ⟨_, (Cursor.takes_skip he).trans h, k.append (k.operatorName hc he hw hnone) hn⟩
  | fileType basic he hw h₁ hts hstrings _ hus hno ih₁ ih₂ =>
    obtain ⟨vs, hvs, hn₁⟩ := ih₁ (hc.takes (Cursor.takes_skip he))
    have hpath := ((Cursor.takes_skip he).trans hvs).trans hts
    obtain ⟨us', hus', hn₂⟩ := ih₂ (hc.takes hpath)
    obtain rfl := hus.unique hus'
    exact ⟨_, hpath.trans hus,
      k.append (k.fileType hc he hw h₁ hvs hn₁ hts hstrings hus hno) hn₂⟩

/-- **A flat reading makes flat trees**: no scopes, no declarations, no names of files. -/
theorem isFlat (h : Reads .flat c ns hs c') : ∀ n ∈ ns ++ hs, n.isFlat = true := by
  generalize hr : Reach.flat = r at h
  induction h with
  | nil | word => simp
  | append _ _ ih₁ ih₂ =>
    intro n hn
    have := (append_perm ..).mem_iff.mpr hn
    exact (List.mem_append.mp this).elim (ih₁ hr n) (ih₂ hr n)
  | loosen | embed | settle =>
    -- these make readings that reach further
    exact absurd hr (by simp)
  | deeper _ ih => exact ih hr
  | leaf _ hk =>
    have hl := Token.isLeaf_of_leaf hk
    exact List.forall_mem_singleton.mpr (Node.isFlat_of_leaf (NodeKind.isFlat_of_isLeaf hl)
      (NodeKind.children_of_isLeaf hl))
  | missing | wrong => exact List.forall_mem_singleton.mpr (Node.isFlat_of_leaf rfl rfl)
  | reorder _ hp _ ih => exact fun n hn => ih hr n ((hp.append_right _).mem_iff.mpr hn)
  | aside _ _ ih => exact ih hr
  | @combine _ _ _ n hs _ _ ih =>
    have hall := ih hr
    rw [List.append_nil, List.forall_mem_singleton]
    unfold Node.combine
    split
    · exact hall n (by simp)
    · exact Node.isFlat_iff.mpr ⟨rfl, hall⟩
  | construct _ hk _ _ _ _ ih =>
    subst hr
    have hall := List.forall_mem_append.mp (ih rfl)
    refine List.forall_mem_append.mpr ⟨List.forall_mem_singleton.mpr ?_, hall.2⟩
    exact Node.isFlat_iff.mpr ⟨NodeKind.isFlat_of_isPlain hk, hall.1⟩
  | record _ _ _ hch hk _ _ ih₁ ih₂ =>
    subst hr
    have h₁ := List.forall_mem_append.mp (ih₁ rfl)
    have h₂ := List.forall_mem_append.mp (ih₂ rfl)
    refine List.forall_mem_append.mpr ⟨List.forall_mem_singleton.mpr ?_,
      List.forall_mem_append.mpr ⟨h₁.2, h₂.2⟩⟩
    refine Node.isFlat_iff.mpr ⟨NodeKind.isFlat_of_isPlain hk, ?_⟩
    show ∀ n ∈ NodeKind.children _, _
    exact hch ▸ List.forall_mem_append.mpr ⟨h₁.1, h₂.1⟩
  | operatorName _ _ _ _ _ ih =>
    exact List.forall_mem_cons.mpr ⟨Node.isFlat_of_leaf rfl rfl, ih hr⟩
  | fileType _ _ _ _ _ _ _ _ _ _ ih =>
    exact List.forall_mem_cons.mpr ⟨Node.isFlat_of_leaf rfl rfl, ih hr⟩

/-! ## Variables -/

theorem nameText?_of_isPlain {begin stop : Nat} {kind : NodeKind} (h : kind.isPlain r = true) :
    (Node.new begin stop kind).nameText? = none := by
  unfold Node.nameText? Node.new
  cases kind with
  | name | combination => exact absurd h (by simp [NodeKind.isPlain])
  | _ => rfl

/-- What is joined with holes in a flat reading has no braces. -/
theorem combineFlat {n : Node} (h : Reads .flat c [n] hs c') :
    Reads .flat c [n.combine hs] [] c' := by
  have hn := (Node.isFlat_iff.mp (h.isFlat n List.mem_cons_self)).1
  exact .combine h (.inl (NodeKind.hasBraces_of_isFlat hn))

/-- A name that is there was taken. -/
theorem left_lt_of_name (h : Reads r c ns hs c') (hn : ∃ n ∈ ns, n.nameText?.isSome = true) :
    c'.left < c.left := by
  induction h with
  | nil | word | aside => exact absurd hn (by simp)
  -- by the judgment: a name node was read somewhere, and that reading took its token
  | append h₁ h₂ ih₁ ih₂ | settle h₁ h₂ _ ih₁ ih₂ =>
    obtain ⟨n, hmem, hname⟩ := hn
    rcases List.mem_append.mp hmem with hmem | hmem
    · exact Nat.lt_of_le_of_lt h₂.left_le (ih₁ ⟨n, hmem, hname⟩)
    · exact Nat.lt_of_lt_of_le (ih₂ ⟨n, hmem, hname⟩) h₁.left_le
  | loosen _ ih | embed _ ih | deeper _ ih => exact ih hn
  | leaf he _ => exact Cursor.left_skip he
  | wrong _ he => exact Cursor.left_skip he
  | missing =>
    exact absurd hn (by simp [Node.nameText?, Node.missing, Node.primary, Node.kind])
  | reorder _ hp _ ih =>
    obtain ⟨n, hmem, hname⟩ := hn
    exact ih ⟨n, hp.mem_iff.mpr hmem, hname⟩
  | @combine _ _ _ n hs _ _ ih =>
    refine ih ⟨n, List.mem_cons_self, ?_⟩
    simpa [Node.nameText?, Node.primary_combine] using hn
  | construct _ hk => exact absurd hn (by simp [nameText?_of_isPlain hk])
  | record h₁ hl h₂ => exact Nat.lt_of_le_of_lt h₂.left_le hl
  | operatorName _ _ he _ h => exact Nat.lt_of_le_of_lt h.left_le (Cursor.left_skip he)
  | fileType _ he _ h₁ ht _ h₂ =>
    have := Cursor.left_skip he
    have := h₁.left_le
    have := ht.left
    have := h₂.left_le
    omega

/-- A construct whose parts are all flat, with a token taken. -/
theorem recordFlat {kind : NodeKind} (h : Reads .flat c kind.children hs c')
    (hl : c'.left < c.left) (hp : kind.isPlain r = true) (hh : kind.isHeaded = false) :
    Reads r c [.new c.current.begin c'.lastStop kind] hs c' := by
  have hrec := Reads.record (r := r) h hl .nil (List.append_nil _).symm hp (.inl rfl)
    (.of_not hh _ _)
  rwa [List.append_nil] at hrec

/-- A variable of flat parts. If it declares a name, then that was taken. -/
theorem variableDef {mods type value : Option Node} {title : Node} (hr : r ≠ .flat)
    (h : Reads .flat c (NodeKind.variableDef mods type title value).children hs c')
    (hl : r = .ahead ∨ c'.left < c.left) :
    Reads r c [.new c.current.begin c'.lastStop (.variableDef mods type title value)] hs c' := by
  have hflat : (NodeKind.variableDef mods type title value).isProper = true := by
    rw [NodeKind.isProper, List.all_eq_true]
    exact fun n hn => h.isFlat n (by simpa [NodeKind.children, or_assoc] using Or.inl hn)
  have hp : (NodeKind.variableDef mods type title value).isPlain r = true := by
    cases r with
    | flat => exact absurd rfl hr
    | taken | ahead => exact hflat
  -- a name was read, and with it a token; without one nothing has to be counted
  cases hn : title.nameText?.isSome with
  | true =>
    have hlt := h.left_lt_of_name ⟨title, by simp [NodeKind.children], hn⟩
    exact h.recordFlat hlt hp rfl
  | false => exact .construct h.of_flat hp (.inl ⟨rfl, hl⟩) (.inl (.inl rfl)) hn (.of_not rfl _ _)

/-! ## Words -/

section Words

variable {k : TokenKind} {kind : NodeKind} {stop : Nat}

theorem of_word (hk : k.leavesNoTrace = true) (h : c.kind = k) : Reads r c [] [] c.skip := by
  simp only [TokenKind.leavesNoTrace, Bool.and_eq_true, Bool.not_eq_true', bne_iff_ne] at hk
  exact .word (Cursor.atEnd_of_kind (h ▸ hk.2)) (h ▸ hk.1)

theorem atEnd_of_word (hk : k.leavesNoTrace = true) (h : c.kind = k) : c.atEnd = false := by
  simp only [TokenKind.leavesNoTrace, Bool.and_eq_true, bne_iff_ne] at hk
  exact Cursor.atEnd_of_kind (h ▸ hk.2)

/-- After a word taken, everything is beyond its beginning. -/
theorem left_lt_of_word (hk : k.leavesNoTrace = true) (h : c.kind = k)
    (hr : Reads r c.skip ns hs c') : c'.left < c.left :=
  Nat.lt_of_le_of_lt hr.left_le (Cursor.left_skip (atEnd_of_word hk h))

end Words

/-! ## Constructs that grow -/

section Grown

variable {target : Node} {kind : NodeKind} {stop : Nat}

/-- A construct with the one before as its first part, up to the last token taken. -/
theorem grown {c₀ : Cursor} (h : Reads .flat c₀ [target] [] c) (rest : Reads .flat c ns hs c')
    (hp : kind.isPlain .flat = true) (hk : kind.children = target :: ns)
    (hn : kind.isRecorded = false) :
    Reads .flat c₀ [.new target.begin c'.lastStop kind] hs c' :=
  .construct (hk ▸ h.append rest) hp
    (.inr ⟨target, hk ▸ List.mem_cons_self, rfl⟩) (.inl (.inl rfl)) hn
    (.of_not (NodeKind.isHeaded_of_isFlat (NodeKind.isFlat_of_isPlain hp)) _ _)

/-- A construct with the one before as its first part, up to the end of a part. -/
theorem grownUpTo {c₀ : Cursor} {last : Node} (h : Reads .flat c₀ [target] [] c)
    (rest : Reads .flat c ns hs c') (hp : kind.isPlain .flat = true)
    (hk : kind.children = target :: ns) (hl : last ∈ ns) (hn : kind.isRecorded = false) :
    Reads .flat c₀ [.new target.begin last.stop kind] hs c' :=
  .construct (hk ▸ h.append rest) hp
    (.inr ⟨target, hk ▸ List.mem_cons_self, rfl⟩)
    (.inr ⟨last, hk ▸ List.mem_cons_of_mem _ hl, .inr rfl⟩) hn
    (.of_not (NodeKind.isHeaded_of_isFlat (NodeKind.isFlat_of_isPlain hp)) _ _)

end Grown

end Reads

/-- What holds of the productions that nest, whatever cursor they are read at. -/
structure Nested.Sound (below : Nested) : Prop where
  statement : ∀ c, below.statement.Ensures c fun n c' => Reads .ahead c [n] [] c'
  member : ∀ c, below.member.Ensures c fun n c' => Reads .taken c [n] [] c'
  expression : ∀ c, below.expression.Ensures c fun n c' => Reads .flat c [n] [] c'
  alternative : ∀ c, below.alternative.Ensures c fun n c' => Reads .flat c [n] [] c'
  operand : ∀ loosest c, (below.operand loosest).Ensures c fun n c' => Reads .flat c [n] [] c'
  unary : ∀ c, below.unary.Ensures c fun n c' => Reads .flat c [n] [] c'
  type : ∀ c, below.type.Ensures c fun n c' => Reads .flat c [n] [] c'
  /-- A type that starts like one takes a token. -/
  type_takes : ∀ c, c.kind.isTypeWord = true ∨ c.kind = .sign .leftParen →
    below.type.Ensures c fun _ c' => c'.left < c.left

end MudEdit
