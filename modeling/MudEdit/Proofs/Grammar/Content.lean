import Mathlib.Data.List.Nodup
import MudEdit.Proofs.Grammar.Reads
import MudEdit.Proofs.Node.Span
import MudEdit.Proofs.Token.Order

/-!
# No content is lost or doubled

A token with content shows in the trees as a leaf, as a wrong hole, or, if it is a string,
in the span of a type that carries the name of a file. `represents` says which nodes show
a token, and the count of those in a reading is one for a token that was taken and zero
for any other. Counts add up over the rules, so the rules that make leaves, wrong holes
and such types are all there is to look at.
-/

namespace MudEdit

variable {all ts : List Token} {hi : Nat} {r : Reach} {c c' : Cursor} {ns hs : List Node}
  {t u : Token}

/-! ## Counting the nodes of trees

The count of a construct is that of its parts, and one more if it has the property itself, so
counts add up along the way a forest is put together. -/

namespace Node

variable {p : Node → Bool} {n : Node} {ns ms hs : List Node}

/-- How many nodes of the trees have the property. -/
def tally (p : Node → Bool) (ns : List Node) : Nat := (ns.flatMap subtrees).countP p

@[simp] theorem tally_nil : tally p [] = 0 := rfl

@[simp] theorem tally_append : tally p (ns ++ ms) = tally p ns + tally p ms := by
  rw [tally, List.flatMap_append, List.countP_append]; rfl

theorem tally_singleton (p : Node → Bool) (n : Node) :
    tally p [n] = tally p n.children + if p n then 1 else 0 := by
  rw [tally, List.flatMap_singleton, subtrees_eq, List.countP_cons]; rfl

theorem tally_cons : tally p (n :: ns) = tally p [n] + tally p ns := by
  rw [← tally_append]; rfl

/-- The order of the trees does not matter. -/
theorem tally_perm (h : ns.Perm ms) : tally p ns = tally p ms :=
  (h.flatMap_right _).countP_eq p

/-- A construct without the property counts as much as its parts. -/
theorem tally_new {begin stop : Nat} {kind : NodeKind} (h : p (new begin stop kind) = false) :
    tally p [new begin stop kind] = tally p kind.children := by
  rw [tally_singleton, h]; rfl

/-- A construct joined with holes counts as much as all of them. -/
theorem tally_combine (h : ∀ begin stop, p (new begin stop (.combination n hs)) = false) :
    tally p [n.combine hs] = tally p (n :: hs) := by
  unfold combine
  split
  · -- without holes nothing is joined
    rename_i he
    rw [List.isEmpty_iff.mp he]
  · exact tally_new (h _ _)

end Node

/-! ## What shows a token -/

/-- What a leaf shows of a token: the kind and what the token carries. -/
def NodeKind.content? : NodeKind → Option (TokenKind × Payload)
  | name s => some (.identifier, .text s)
  | int v => some (.int, .int v)
  | float v => some (.float, .float v)
  | string s => some (.string, .text s)
  | char v => some (.character, .char v)
  | symbol s => some (.symbol, .text s)
  | _ => none

namespace Node

/-- Whether the node has just the span of the token. -/
def isAt (n : Node) (t : Token) : Bool := n.begin == t.begin && n.stop == t.stop

/-- Whether the token lies in the span of the node. -/
def spans (n : Node) (t : Token) : Bool := n.begin ≤ t.begin && t.stop ≤ n.stop

/-- Whether the node shows what the token holds. -/
def represents (t : Token) (n : Node) : Bool :=
  match n.kind with
  | .wrong _ found => n.isAt t && found == t.kind
  | .basicType _ (some _) => t.kind == .string && n.spans t
  | kind => n.isAt t && kind.content?.any fun (k, p) => k == t.kind && t.payload == some p

theorem isAt_iff {n : Node} : n.isAt t = true ↔ n.begin = t.begin ∧ n.stop = t.stop := by
  simp [isAt]

theorem spans_iff {n : Node} : n.spans t = true ↔ n.begin ≤ t.begin ∧ t.stop ≤ n.stop := by
  simp [spans]

variable {begin stop : Nat} {kind : NodeKind}

theorem represents_plain (h : kind.isPlain r = true) (n : Node) (hn : n.kind = kind) :
    n.represents t = false := by
  unfold represents
  rw [hn]
  cases kind with
  | basicType _ file => cases file <;> simp_all [NodeKind.isPlain, NodeKind.content?]
  | _ => simp_all [NodeKind.isPlain, NodeKind.content?]

theorem represents_combination {p : Node} {gs : List Node} (begin stop : Nat) :
    (new begin stop (.combination p gs)).represents t = false := by
  simp [represents, new, NodeKind.content?]

end Node

/-- A leaf made of a token shows it. -/
theorem Token.content_of_leaf {kind : NodeKind} (h : t.leaf? = some kind)
    (hk : t.kind.isContent = true) (hf : Payload.Fits t.kind t.payload) :
    ∃ p, t.payload = some p ∧ kind.content? = some (t.kind, p) := by
  obtain ⟨p, hp, hcar⟩ := hf hk
  refine ⟨p, hp, ?_⟩
  obtain ⟨begin, stop, tk, payload⟩ := t
  subst hp
  -- of the kinds with content each has one sort of payload and one leaf
  cases tk <;> simp [TokenKind.isContent] at hk <;>
    cases p <;> simp [TokenKind.carries] at hcar <;>
    simp [Token.leaf?, Parse.literal?, Token.text, Token.text?] at h <;>
    subst h <;> rfl

/-- A leaf shows a token if it has its span and carries the same. -/
theorem Node.represents_leaf {kind : NodeKind} (h : kind.isLeaf = true) (n : Node)
    (hn : n.kind = kind) : n.represents t =
      (n.isAt t && kind.content?.any fun (k, p) => k == t.kind && t.payload == some p) := by
  unfold Node.represents
  rw [hn]
  cases kind <;> first | rfl | exact absurd h (by simp [NodeKind.isLeaf])

/-! ## Tokens and the span of what was taken -/

namespace Cursor

section Order

variable (ho : Token.InOrder 0 all hi) (hc : c.In all)

include ho hc

/-- The tokens taken end by the last stop. -/
theorem stop_le_lastStop (ht : t ∈ c.taken) : t.stop ≤ c.lastStop := by
  cases htaken : c.taken with
  | nil => rw [htaken] at ht; exact absurd ht (by simp)
  | cons u us =>
    have hl : c.lastStop = u.stop := by simp [lastStop, htaken]
    have ha : all = us.reverse ++ (u :: c.ahead) := by
      rw [← hc, htaken, List.reverse_cons, List.append_assoc]; rfl
    rw [hl]
    rw [htaken] at ht
    rcases List.mem_cons.mp ht with rfl | ht
    · exact Nat.le_refl _
    · have hu := (ho.within u (by simp [ha])).2.1
      have hle := (List.pairwise_append.mp (ha ▸ ho.apart)).2.2 t (by simpa using ht) u
        List.mem_cons_self
      omega

theorem lastStop_le_begin (ht : t ∈ c.ahead) : c.lastStop ≤ t.begin := by
  cases htaken : c.taken with
  | nil => simp [lastStop, htaken]
  | cons u us =>
    have hl : c.lastStop = u.stop := by simp [lastStop, htaken]
    rw [hl]
    exact (List.pairwise_append.mp (hc ▸ ho.apart)).2.2 u (by simp [htaken]) t ht

/-- The tokens ahead begin no earlier than the current one. -/
theorem current_le_begin (ht : t ∈ c.ahead) : c.current.begin ≤ t.begin := by
  cases ha : c.ahead with
  | nil => rw [ha] at ht; exact absurd ht (by simp)
  | cons u us =>
    rw [current_of_ahead ha]
    have hmem : u ∈ all := by rw [← hc, ha]; simp
    have hu := (ho.within u hmem).2.1
    rw [ha] at ht
    rcases List.mem_cons.mp ht with rfl | ht
    · exact Nat.le_refl _
    · have hp := (List.pairwise_append.mp (hc ▸ ho.apart)).2.1
      rw [ha] at hp
      have := (List.pairwise_cons.mp hp).1 t ht
      omega

/-- The span of what was taken holds the tokens taken and no others. -/
theorem spanned_iff (he : c.atEnd = false) (h : c.Takes ts c') (ht : t ∈ all) :
    c.current.begin ≤ t.begin ∧ t.stop ≤ max c.current.begin c'.lastStop ↔ t ∈ ts := by
  have hlt := (ho.within t ht).2.1
  constructor
  · intro hp
    obtain ⟨hb, hs⟩ := hp
    rw [hc.eq_append h, List.mem_append, List.mem_append, List.mem_reverse] at ht
    rcases ht with ht | ht | ht
    · -- before the current token
      have h₁ := stop_le_lastStop ho hc ht
      obtain ⟨us, ha⟩ := ahead_eq_cons he
      have h₂ := lastStop_le_begin ho hc (ha ▸ List.mem_cons_self : c.current ∈ c.ahead)
      omega
    · exact ht
    · -- after the last token taken
      have := lastStop_le_begin ho (hc.takes h) ht
      omega
  · intro hm
    have h₁ : t ∈ c.ahead := by rw [h.ahead]; exact List.mem_append_left _ hm
    have h₂ : t ∈ c'.taken := by rw [h.taken]; simp [hm]
    have := stop_le_lastStop ho (hc.takes h) h₂
    exact ⟨current_le_begin ho hc h₁, by omega⟩

/-- The strings in the span of what was taken are the strings that were taken. -/
theorem strings_spanned {vs us : List Token} {n : Node} (he : c.atEnd = false)
    (h : c.Takes (vs ++ (ts ++ us)) c') (hv : ∀ t ∈ vs, t.kind ≠ .string)
    (hts : ∀ t ∈ ts, t.kind = .string) (hu : ∀ t ∈ us, t.kind ≠ .string)
    (hb : n.begin = c.current.begin) (hs : n.stop = max c.current.begin c'.lastStop) :
    all.filter (fun t => t.kind == .string && n.spans t) = ts := by
  have hall := hc.eq_append h
  have hspan : ∀ t ∈ all, n.spans t = true ↔ t ∈ vs ++ (ts ++ us) := by
    intro t ht
    rw [Node.spans_iff, hb, hs]
    exact spanned_iff ho hc he h ht
  -- no token is both among those taken and elsewhere
  have hnodup := hall ▸ ho.nodup
  obtain ⟨-, hrest, hapart⟩ := List.nodup_append.mp hnodup
  obtain ⟨-, -, hapart'⟩ := List.nodup_append.mp hrest
  have hbefore : c.taken.reverse.filter (fun t => t.kind == .string && n.spans t) = [] := by
    rw [List.filter_eq_nil_iff]
    intro t ht hq
    have hm := (hspan t (by rw [hall]; exact List.mem_append_left _ ht)).mp (by simp_all)
    exact hapart t ht t (List.mem_append_left _ hm) rfl
  have hafter : c'.ahead.filter (fun t => t.kind == .string && n.spans t) = [] := by
    rw [List.filter_eq_nil_iff]
    intro t ht hq
    have hm := (hspan t (by rw [hall]; simp [ht])).mp (by simp_all)
    exact hapart' t hm t ht rfl
  have hself : ts.filter (fun t => t.kind == .string && n.spans t) = ts := by
    rw [List.filter_eq_self]
    intro t ht
    have hm := (hspan t (by rw [hall]; simp [ht])).mpr (by simp [ht])
    simp [hts t ht, hm]
  have hnone : ∀ ws : List Token, (∀ t ∈ ws, t.kind ≠ .string) →
      ws.filter (fun t => t.kind == .string && n.spans t) = [] := by
    intro ws hw
    rw [List.filter_eq_nil_iff]
    intro t ht
    simp [hw t ht]
  rw [hall]
  simp only [List.filter_append, hbefore, hafter, hself, hnone vs hv, hnone us hu,
    List.nil_append, List.append_nil]

end Order

end Cursor

/-! ## Counting what shows a token -/

/-- Of the tokens with content, the nodes show those in the list, as often as they are in it. -/
def Shows (all ts : List Token) (ns : List Node) : Prop :=
  ∀ t ∈ all, t.kind.isContent = true → Node.tally (Node.represents t) ns = ts.count t

namespace Shows

variable {us : List Token} {ms : List Node}

theorem append (h₁ : Shows all ts ns) (h₂ : Shows all us ms) :
    Shows all (ts ++ us) (ns ++ ms) := by
  intro t ht hk
  rw [Node.tally_append, List.count_append, h₁ t ht hk, h₂ t ht hk]

theorem congr (h : Shows all ts ns)
    (heq : ∀ t, Node.tally (Node.represents t) ms = Node.tally (Node.represents t) ns) :
    Shows all ts ms := by
  intro t ht hk
  rw [heq, h t ht hk]

theorem perm (h : Shows all ts ns) (hp : ns.Perm ms) : Shows all ts ms :=
  h.congr fun _ => Node.tally_perm hp.symm

/-- A word has nothing to show. -/
theorem word {u : Token} (hu : u.kind.isContent = false) : Shows all [u] [] := by
  intro t _ hk
  have hne : u ≠ t := by
    intro heq
    subst heq
    rw [hk] at hu
    exact absurd hu (by simp)
  simp [hne]

/-- Where nothing is shown, no token has content. -/
theorem bare (h : Shows all ts []) (hts : ∀ t ∈ ts, t ∈ all) :
    ∀ t ∈ ts, t.kind.isContent = false := by
  intro t ht
  cases hk : t.kind.isContent with
  | false => rfl
  | true =>
    have hc : ts.count t = 0 := (h t (hts t ht) hk).symm
    exact absurd ht (List.count_eq_zero.mp hc)

end Shows

section Count

variable (ho : Token.InOrder 0 all hi) (hf : ∀ u ∈ all, Payload.Fits u.kind u.payload)

include ho in
/-- A node that begins with another token does not have the span of this one. -/
theorem Node.isAt_of_ne {n : Node} (ht : t ∈ all) (hu : u ∈ all) (hne : u ≠ t)
    (hb : n.begin = u.begin) : n.isAt t = false := by
  cases ha : n.isAt t with
  | false => rfl
  | true => exact absurd (ho.eq_of_begin hu ht (hb.symm.trans (isAt_iff.mp ha).1)) hne

include ho hf in
theorem Shows.leaf {kind : NodeKind} (hu : u ∈ all) (h : u.leaf? = some kind) :
    Shows all [u] [.new u.begin u.stop kind] := by
  intro t ht hk
  have hleaf := Token.isLeaf_of_leaf h
  have hch := NodeKind.children_of_isLeaf hleaf
  have hcount : Node.tally (Node.represents t) (Node.new u.begin u.stop kind).children = 0 := by
    show Node.tally _ kind.children = 0
    rw [hch]; rfl
  rw [Node.tally_singleton, hcount, List.count_singleton, Node.represents_leaf hleaf _ rfl]
  -- the leaf shows its own token, and no other one begins there
  by_cases hut : u = t
  · subst hut
    obtain ⟨p, hp, hcont⟩ := Token.content_of_leaf h hk (hf u hu)
    have hlt := (ho.within u hu).2.1
    have hat : (Node.new u.begin u.stop kind).isAt u = true := by
      refine Node.isAt_iff.mpr ⟨?_, ?_⟩
      · simp [Node.new, hch]
      · simp [Node.new, hch]; omega
    simp [hat, hcont, hp]
  · rw [Node.isAt_of_ne ho ht hu hut (by simp [Node.new, hch])]
    simp [hut]

include ho in
theorem Shows.wrong (hu : u ∈ all) (e : Expected) : Shows all [u] [.wrong u e] := by
  intro t ht hk
  rw [Node.tally_singleton, List.count_singleton]
  show 0 + (if ((Node.wrong u e).isAt t && u.kind == t.kind) = true then 1 else 0) = _
  by_cases hut : u = t
  · subst hut
    simp [Node.isAt, Node.wrong]
  · rw [Node.isAt_of_ne ho ht hu hut rfl]
    simp [hut]

include ho in
/-- The name of an operator does not have the span of an identifier. -/
theorem Shows.operatorName {text : String} {begin stop : Nat} (hu : u ∈ all)
    (hk : u.kind.isContent = false) (hb : begin = u.begin) :
    Shows all [u] [.new begin stop (.name text)] := by
  intro t ht htk
  have hne : u ≠ t := by
    intro heq
    subst heq
    rw [hk] at htk
    exact absurd htk (by simp)
  have hno : (Node.new begin stop (.name text)).represents t = false := by
    -- an operator carries no content, so no content token stands at its place
    have hat : (Node.new begin stop (.name text)).isAt t = false :=
      Node.isAt_of_ne ho ht hu hne hb
    rw [Node.represents_leaf rfl _ rfl, hat, Bool.false_and]
  rw [Node.tally_new hno]
  simp [NodeKind.children, hne]

include ho in
/-- A type with the name of a file shows the strings in its span. -/
theorem Shows.fileType {n : Node} {basic : BasicKind} {file : String}
    (hn : n.kind = .basicType basic (some file)) :
    Shows all (all.filter fun t => t.kind == .string && n.spans t) [n] := by
  intro t ht hk
  have hch : n.children = [] := by rw [Node.children, hn]; rfl
  have hrep : n.represents t = (t.kind == .string && n.spans t) := by
    rw [Node.represents, hn]
  rw [Node.tally_singleton, hch, hrep]
  -- the file's strings are those the node spans, each once
  cases hq : (t.kind == .string && n.spans t) with
  | true =>
    rw [List.count_filter (by simpa using hq), List.nodup_iff_count_eq_one.mp ho.nodup t ht]
    rfl
  | false =>
    refine (List.count_eq_zero.mpr fun hm => ?_).symm
    have := (List.mem_filter.mp hm).2
    rw [hq] at this
    exact absurd this (by simp)

include ho in
/-- The strings in the span of such a type are those that it was made of. -/
theorem Shows.strings_spanned {c₁ c₂ : Cursor} {vs us : List Token} {n : Node}
    (h : Shows all vs []) (hc : c.In all) (he : c.atEnd = false)
    (hw : c.kind.isContent = false) (hv : c.skip.Takes vs c₁) (hts : c₁.Takes ts c₂)
    (hstrings : ∀ t ∈ ts, t.kind = .string) (hu : c₂.Takes us c')
    (hno : ∀ t ∈ us, t.kind ≠ .string) (hb : n.begin = c.current.begin)
    (hs : n.stop = max c.current.begin c'.lastStop) :
    all.filter (fun t => t.kind == .string && n.spans t) = ts := by
  have hfirst := Cursor.takes_skip he
  -- the words before the strings carry no content
  have hbare : ∀ v ∈ [c.current] ++ vs, v.kind.isContent = false := by
    refine List.forall_mem_append.mpr ⟨by simpa [← Cursor.kind_eq] using hw, ?_⟩
    exact h.bare ((hc.takes hfirst).mem_of_takes hv)
  refine Cursor.strings_spanned ho hc he ((hfirst.trans hv).trans (hts.trans hu)) ?_
    hstrings hno hb hs
  intro v hm hk
  have := hbare v hm
  rw [hk] at this
  exact absurd this (by simp [TokenKind.isContent])

include ho hf in
/-- What shows tokens are leaves, wrong holes and types with the name of a file. -/
theorem shows_kept : Reads.Kept all (Shows all) where
  nil _ _ _ := rfl
  append h₁ h₂ := h₁.append h₂
  perm h hp := h.perm hp
  word _ _ hw := .word hw
  leaf hc he hl := .leaf ho hf (hc.current_mem he) hl
  missing _ _ t _ _ := by
    simp [Node.tally_singleton, Node.represents, Node.missing, Node.children,
      NodeKind.children, NodeKind.content?]
  wrong e hc he := .wrong ho (hc.current_mem he) e
  combine h := h.congr fun t => Node.tally_combine Node.represents_combination
  plain {_ _ hs _ _ _} hp h := by
    -- a plain construct shows what its parts show
    refine h.congr fun t => ?_
    rw [Node.tally_cons, Node.tally_new (Node.represents_plain hp _ rfl), Node.tally_append]
  operatorName hc he hw _ := .operatorName ho (hc.current_mem he) hw rfl
  fileType {_ c c₁ c₂ c' ts us vs basic} hc he hw _ hvs hn hts hstrings hus hno := by
    -- the strings taken in between are just those in the span of the type
    have hfile : Shows all ts [.new c.current.begin c'.lastStop
        (.basicType basic (some (String.join (ts.map Token.text))))] := by
      have h := Shows.fileType ho (n := .new c.current.begin c'.lastStop
        (.basicType basic (some (String.join (ts.map Token.text))))) rfl
      rwa [hn.strings_spanned ho hc he hw hvs hts hstrings hus hno rfl rfl] at h
    exact ((Shows.word hw).append hn).append hfile

include ho hf in
/-- **A reading shows every token with content once** if it was taken, and else not at all. -/
theorem Reads.shows (h : Reads r c ns hs c') (hc : c.In all) :
    ∃ ts, c.Takes ts c' ∧ Shows all ts (ns ++ hs) :=
  (shows_kept ho hf).reads h hc

end Count

end MudEdit
