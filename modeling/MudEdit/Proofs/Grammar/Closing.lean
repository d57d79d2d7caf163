import MudEdit.Proofs.Grammar.Apart
import MudEdit.Proofs.Grammar.Recovery
import MudEdit.Proofs.Grammar.Tracked

/-!
# What a construct still needs

Where little is ahead of a first reading, a second one that goes on with other tokens may do
something else. But a construct often needs a token there that the first reading lacks, so that
it leaves a hole. `Closes φ s m clean p q` says that `q` does what `p` does if the result of `p`
is clean, since where the readings part it is not. `Keeps` is the half of this that remains for
what may as well be left out, and `Opens` what remains of it at a token that both readings see.
-/

namespace MudEdit

namespace Node

variable {n : Node} {hs : List Node}

/-- A construct without holes was joined with none. -/
theorem holesOf_eq_nil_of_combine (h : (n.combine hs).holes = []) : holesOf hs = [] := by
  cases hs with
  | nil => rfl
  | cons g gs =>
    have hparts := (holes_eq_nil.mp h).2
    exact List.flatMap_eq_nil_iff.mpr fun g hg => hparts g (List.mem_cons_of_mem _ hg)

/-- Nor had it any before it was joined. -/
theorem holes_eq_nil_of_combine (h : (n.combine hs).holes = []) : n.holes = [] := by
  cases hs with
  | nil => exact h
  | cons g gs => exact (holes_eq_nil.mp h).2 n List.mem_cons_self

theorem holes_eq_nil_of_mem {m : Node} (h : n.holes = []) (hm : m ∈ n.children) : m.holes = [] :=
  (holes_eq_nil.mp h).2 m hm

/-- A construct without holes has parts without holes. -/
theorem holes_eq_nil_of_new {begin stop : Nat} {kind : NodeKind} {m : Node}
    (h : (new begin stop kind).holes = []) (hm : m ∈ kind.children) : m.holes = [] :=
  holes_eq_nil_of_mem h hm

end Node

theorem holesOf_append (ns ms : List Node) : holesOf (ns ++ ms) = holesOf ns ++ holesOf ms :=
  List.flatMap_append

/-- Of several lists without holes the last one has none. -/
theorem holesOf_append_right {ns ms : List Node} (h : holesOf (ns ++ ms) = []) :
    holesOf ms = [] := (List.append_eq_nil_iff.mp (holesOf_append ns ms ▸ h)).2

/-- A hole is not without holes. -/
theorem holesOf_singleton {n : Node} (h : n.isHole = true) : holesOf [n] ≠ [] := by
  rw [holesOf, List.flatMap_singleton]
  exact Node.holes_ne_nil h

namespace Setting

variable {φ : Relocation} {s : Setting φ} {c c' : Cursor} {k : TokenKind}

/-- Both readings see the same token and are side by side behind it. -/
structure Together (s : Setting φ) (c c' : Cursor) : Prop where
  current : c'.current = c.current.relocate φ
  skip : s.Follows c.skip c'.skip

/-- So they see the same kind. -/
theorem Together.kind (h : s.Together c c') : c'.kind = c.kind := by
  rw [Cursor.kind_eq, h.current]
  rfl

/-- Unless too little is ahead, both readings see the same token. -/
theorem together (h : s.Follows c c') (hcut : ¬s.Cut c) : s.Together c c' :=
  ⟨(s.current h).resolve_left hcut, (s.skip h).resolve_left hcut⟩

/-- No token of the kind is current where too little is ahead. -/
def Bars (s : Setting φ) (k : TokenKind) : Prop := ∀ c, s.Cut c → c.kind ≠ k

/-- Both readings see a token of the kind or neither does. -/
def Clear (s : Setting φ) (k : TokenKind) : Prop :=
  ∀ c c', s.Follows c c' → s.Together c c' ∨ c.kind ≠ k ∧ c'.kind ≠ k

end Setting

namespace Parse

variable {α β : Type} {φ : Relocation} {s : Setting φ}

/-- The second production does the same, however little is ahead. -/
def Exact (φ : Relocation) (s : Setting φ) (m : α → α) (p q : Parse α) : Prop :=
  ∀ c c' : Cursor, s.Follows c c' → Same φ s m (p c) (q c')

/-- The second production does the same if the first one gives a clean result. -/
def Keeps (φ : Relocation) (s : Setting φ) (m : α → α) (clean : α → Prop) (p q : Parse α) : Prop :=
  ∀ c c' : Cursor, s.Follows c c' → clean (p c).1 → Same φ s m (p c) (q c')

/-- It does so at a token that both of them see. -/
def Opens (φ : Relocation) (s : Setting φ) (m : α → α) (clean : α → Prop) (p q : Parse α) : Prop :=
  ∀ c c' : Cursor, s.Follows c c' → s.Together c c' → clean (p c).1 → Same φ s m (p c) (q c')

/-- Where too little is ahead, the result is not clean. -/
def Ends (s : Setting φ) (clean : α → Prop) (p : Parse α) : Prop :=
  ∀ c : Cursor, s.Cut c → ¬clean (p c).1

/-- The second production does the same if the first one gives a clean result, which it does not
where too little is ahead. -/
structure Closes (φ : Relocation) (s : Setting φ) (m : α → α) (clean : α → Prop)
    (p q : Parse α) : Prop where
  ends : Ends s clean p
  follow : Keeps φ s m clean p q

/-! ## Ways to put productions together -/

section Rules

variable {m : α → α} {m' : β → β} {clean : α → Prop} {clean' : β → Prop} {p q p' q' : Parse α}
  {f g : α → Parse β}

namespace Exact

theorem bind (h : Exact φ s m p q) (k : ∀ a, Exact φ s m' (f a) (g (m a))) :
    Exact φ s m' (p >>= f) (q >>= g) := by
  intro c c' hc
  have hs := h c c' hc
  have hk := k (p c).1 _ _ hs.follows
  rw [← hs.result] at hk
  exact hk

theorem pure {a b : α} (h : b = m a) : Exact φ s m (Pure.pure a) (Pure.pure b) :=
  fun _ _ hc => ⟨h, hc⟩

theorem lastStop : Exact φ s φ.move lastStop lastStop := fun _ _ hc => ⟨s.lastStop hc, hc⟩

/-- What is the same in any case is the same if the result is clean. -/
theorem keeps (h : Exact φ s m p q) : Keeps φ s m clean p q := fun c c' hc _ => h c c' hc

/-- A production that does the same in any case may come first. -/
theorem andThen (h : Exact φ s m p q) (k : ∀ a, Keeps φ s m' clean' (f a) (g (m a))) :
    Keeps φ s m' clean' (p >>= f) (q >>= g) := by
  intro c c' hc hclean
  have hs := h c c' hc
  have hk := k (p c).1 _ _ hs.follows hclean
  rw [← hs.result] at hk
  exact hk

/-- What is looked up in any case may come first. -/
theorem look {p q : Parse α} (h : Exact φ s id p q)
    (k : ∀ a, Keeps φ s m' clean' (f a) (g a)) : Keeps φ s m' clean' (p >>= f) (q >>= g) :=
  h.andThen k

end Exact

namespace Keeps

/-- The first part of something clean has to be clean. -/
theorem bind (h : Keeps φ s m clean p q) (k : ∀ a, Keeps φ s m' clean' (f a) (g (m a)))
    (hclean : ∀ c, clean' (f (p c).1 (p c).2).1 → clean (p c).1) :
    Keeps φ s m' clean' (p >>= f) (q >>= g) := by
  intro c c' hc h'
  have hs := h c c' hc (hclean c h')
  have hk := k (p c).1 _ _ hs.follows h'
  rw [← hs.result] at hk
  exact hk

theorem pure {a b : α} (h : b = m a) : Keeps φ s m clean (Pure.pure a) (Pure.pure b) :=
  fun _ _ hc _ => ⟨h, hc⟩

theorem ite {b : Prop} [Decidable b] (h : Keeps φ s m clean p q) (h' : Keeps φ s m clean p' q') :
    Keeps φ s m clean (if b then p else p') (if b then q else q') := by
  split
  · exact h
  · exact h'

/-- What needs no common token may be read at one. -/
theorem opens (h : Keeps φ s m clean p q) : Opens φ s m clean p q :=
  fun c c' hc _ hclean => h c c' hc hclean

end Keeps

/-- The token that both readings see is taken. -/
theorem Opens.advance {f g : Token → Parse β}
    (k : ∀ t, Keeps φ s m' clean' (f t) (g (t.relocate φ))) :
    Opens φ s m' clean' (Parse.advance >>= f) (Parse.advance >>= g) := by
  intro c c' _ ht hclean
  have hk := k c.current _ _ ht.skip hclean
  rw [← ht.current] at hk
  exact hk

namespace Ends

/-- Where too little is ahead, it is so behind the first part. -/
theorem bind (h : Tracks φ s m p q) (k : ∀ a, Ends s clean' (f a)) : Ends s clean' (p >>= f) :=
  fun c hc => k _ _ (h.persist c hc)

/-- What is not clean does not become so later on. -/
theorem andThen (h : Ends s clean p) (hclean : ∀ c, clean' (f (p c).1 (p c).2).1 → clean (p c).1) :
    Ends s clean' (p >>= f) := fun c hc h' => h c hc (hclean c h')

end Ends

namespace Closes

/-- What follows cannot matter to what comes first if it would matter to what comes last. -/
theorem bind_of {P : α → Prop} (h : Tracks φ s m p q) (hp : ∀ c, P (p c).1)
    (k : ∀ a, P a → Closes φ s m' clean' (f a) (g (m a))) :
    Closes φ s m' clean' (p >>= f) (q >>= g) where
  ends c hc := (k _ (hp c)).ends _ (h.persist c hc)
  follow c c' hc hclean := by
    -- if the first part comes too close to the end, what follows is not clean
    rcases h.follow c c' hc with hcut | hs
    · exact absurd hclean ((k _ (hp c)).ends _ hcut)
    · have hk := (k _ (hp c)).follow _ _ hs.follows hclean
      rw [← hs.result] at hk
      exact hk

theorem bind (h : Tracks φ s m p q) (k : ∀ a, Closes φ s m' clean' (f a) (g (m a))) :
    Closes φ s m' clean' (p >>= f) (q >>= g) :=
  .bind_of (P := fun _ => True) h (fun _ => trivial) fun a _ => k a

theorem look {p q : Parse α} (h : Tracks φ s id p q)
    (k : ∀ a, Closes φ s m' clean' (f a) (g a)) :
    Closes φ s m' clean' (p >>= f) (q >>= g) := .bind h k

/-- What comes after a production that closes may be left out. -/
theorem andThen (h : Closes φ s m clean p q) (k : ∀ a, Keeps φ s m' clean' (f a) (g (m a)))
    (hclean : ∀ c, clean' (f (p c).1 (p c).2).1 → clean (p c).1) :
    Closes φ s m' clean' (p >>= f) (q >>= g) := ⟨h.ends.andThen hclean, h.follow.bind k hclean⟩

theorem ite {b : Prop} [Decidable b] (h : Closes φ s m clean p q)
    (h' : Closes φ s m clean p' q') :
    Closes φ s m clean (if b then p else p') (if b then q else q') := by
  split
  · exact h
  · exact h'

/-- What never gives a clean result has nothing to keep. -/
theorem never (h : ∀ c, ¬clean (p c).1) : Closes φ s m clean p q :=
  ⟨fun c _ => h c, fun c _ _ hclean => absurd hclean (h c)⟩

/-- The kind of the current token decides what is read. Where too little is ahead it may be
another one in the second reading. -/
theorem kind {f g : TokenKind → Parse β} (hends : Ends s clean' (Parse.kind >>= f))
    (k : ∀ kind, Opens φ s m' clean' (f kind) (g kind)) :
    Closes φ s m' clean' (Parse.kind >>= f) (Parse.kind >>= g) := by
  refine ⟨hends, fun c c' hc hclean => ?_⟩
  -- where the result is clean, enough is ahead
  have ht := Setting.together hc fun hcut => hends c hcut hclean
  show Same φ s m' (f c.kind c) (g c'.kind c')
  rw [ht.kind]
  exact k c.kind c c' hc ht hclean

end Closes

end Rules

/-- What is clean of a node is that it has no holes, and so with nodes that may be there. -/
abbrev ClosesNode (φ : Relocation) (s : Setting φ) (p q : Parse Node) : Prop :=
  Closes φ s (Node.relocate φ) (·.holes = []) p q

abbrev KeepsNode (φ : Relocation) (s : Setting φ) (p q : Parse Node) : Prop :=
  Keeps φ s (Node.relocate φ) (·.holes = []) p q

abbrev OpensNode (φ : Relocation) (s : Setting φ) (p q : Parse Node) : Prop :=
  Opens φ s (Node.relocate φ) (·.holes = []) p q

abbrev KeepsOption (φ : Relocation) (s : Setting φ) (p q : Parse (Option Node)) : Prop :=
  Keeps φ s (Option.map (Node.relocate φ)) (fun o => ∀ n ∈ o, n.holes = []) p q

/-! ## Tokens that may be there -/

/-- A token that is the same for both readings is taken by both or by neither. -/
theorem eat?_exact {k : TokenKind} (h : s.Clear k) :
    Exact φ s (Option.map (Token.relocate φ)) (eat? k) (eat? k) := by
  intro c c' hc
  by_cases hk : c.kind = k
  · have ht := (h c c' hc).resolve_right fun hne => hne.1 hk
    rw [Ensures.eat?_of_kind hk, Ensures.eat?_of_kind (ht.kind.trans hk)]
    exact ⟨congrArg some ht.current, ht.skip⟩
  · have hk' : c'.kind ≠ k := (h c c' hc).elim (fun ht => ht.kind ▸ hk) And.right
    rw [Ensures.eat?_of_ne hk, Ensures.eat?_of_ne hk']
    exact ⟨rfl, hc⟩

/-- The same if only its presence counts. -/
theorem eats_exact {k : TokenKind} (h : s.Clear k) : Exact φ s id (eats k) (eats k) :=
  (eat?_exact h).bind fun t => .pure (by cases t <;> rfl)

/-- The same if it is looked at and not taken. -/
theorem sees_exact {k : TokenKind} (h : s.Clear k) : Exact φ s id (sees k) (sees k) := by
  intro c c' hc
  refine ⟨?_, hc⟩
  show (c'.kind == k) = (c.kind == k)
  rcases h c c' hc with ht | hne
  · rw [ht.kind]
  · rw [beq_eq_false_iff_ne.mpr hne.1, beq_eq_false_iff_ne.mpr hne.2]

/-- A token that is not there where too little is ahead. -/
theorem Closes.eat? {k : TokenKind} {clean : β → Prop} {m : β → β} {f g : Option Token → Parse β}
    (hclear : s.Clear k) (hbars : s.Bars k)
    (yes : ∀ t, Keeps φ s m clean (f (some t)) (g (some (t.relocate φ))))
    (no : Closes φ s m clean (f none) (g none)) :
    Closes φ s m clean (Parse.eat? k >>= f) (Parse.eat? k >>= g) where
  ends c hc := by
    show ¬clean (f (Parse.eat? k c).1 (Parse.eat? k c).2).1
    rw [Ensures.eat?_of_ne (hbars c hc)]
    exact no.ends c hc
  follow := (eat?_exact hclear).andThen fun t => by
    cases t with
    | none => exact no.follow
    | some t => exact yes t

/-- Strings side by side end at the same place if the readings part at no string. -/
theorem strings_exact (h : s.Clear .string) : Exact φ s (Node.relocate φ) strings strings := by
  have hliterals : Exact φ s (List.map (Node.relocate φ))
      (manyUntil (· != .string) stringLiteral) (manyUntil (· != .string) stringLiteral) := by
    intro c c' hc
    -- while there are strings both readings take them, and then both stop
    induction hn : c.left using Nat.strongRecOn generalizing c c' with
    | ind n ih =>
      rw [manyUntil, manyUntil]
      by_cases hk : c.kind = .string
      · have ht := (h c c' hc).resolve_right fun hne => hne.1 hk
        have hk' := ht.kind.trans hk
        have he : c.atEnd = false := Cursor.atEnd_of_kind (by simp [hk])
        have he' : c'.atEnd = false := Cursor.atEnd_of_kind (by simp [hk'])
        have hs := ih _ (hn ▸ Cursor.left_skip he) _ _ ht.skip rfl
        rw [hk, hk', he, he']
        show Same φ s _ (if c.skip.left < c.left then _ else _)
          (if c'.skip.left < c'.left then _ else _)
        rw [if_pos (Cursor.left_skip he), if_pos (Cursor.left_skip he')]
        have hfirst : (stringLiteral c').1 = (stringLiteral c).1.relocate φ := by
          show Node.new c'.current.begin c'.current.stop (.string c'.current.text) =
            (Node.new c.current.begin c.current.stop (.string c.current.text)).relocate φ
          rw [ht.current]
          simp
        refine ⟨?_, hs.follows⟩
        show (stringLiteral c').1 :: _ = (stringLiteral c).1.relocate φ :: _
        rw [hfirst, hs.result]
      · have hk' : c'.kind ≠ .string := (h c c' hc).elim (fun ht => ht.kind ▸ hk) And.right
        rw [bne_iff_ne.mpr hk, bne_iff_ne.mpr hk']
        exact ⟨rfl, hc⟩
  refine .bind hliterals fun parts => ?_
  rcases parts with _ | ⟨first, _ | ⟨second, rest⟩⟩
  · exact .bind .lastStop fun _ => .pure (by simp)
  · exact .pure rfl
  · exact .bind .lastStop fun _ => .pure (by simp)

/-! ## Tokens that have to be there -/

/-- A hole is one. -/
theorem holes_hole (e : Expected) (c : Cursor) : (hole e c).1.holes ≠ [] :=
  Node.holes_ne_nil (hole_reads e).1

/-- So nothing clean is read where a hole is left. -/
theorem hole_closes (e : Expected) : ClosesNode φ s (hole e) (hole e) := .never (holes_hole e)

/-- What is refused is a hole. -/
theorem holes_refuse (e : Expected) (c : Cursor) : (refuse e c).1.holes ≠ [] := by
  refine Node.holes_ne_nil ?_
  have hrefuse : (refuse e).Ensures c fun n _ => n.isHole = true := by
    refine .atEnd ?_
    split
    · exact .lastStop (.pure rfl)
    · exact .advance (.pure rfl)
  exact hrefuse

/-- So nothing clean is read where all is refused. -/
theorem refuse_closes (e : Expected) : ClosesNode φ s (refuse e) (refuse e) :=
  .never (holes_refuse e)

/-- Both readings go one level deeper, or both leave a hole. -/
theorem Closes.nested {inner : Setting φ} {p q : Parse Node} (hs : s.Deepens inner) (e : Expected)
    (h : ClosesNode φ inner p q) : ClosesNode φ s (Parse.nested e p) (Parse.nested e q) := by
  refine ⟨fun c hc => ?_, fun c c' hc hclean => ?_⟩
  · by_cases hd : c.depth ≥ maxDepth
    · rw [nested_refused e hd]
      exact holes_refuse e c
    · rw [nested_read e hd]
      exact h.ends _ (hs.cut.mp hc)
  · by_cases hd : c.depth ≥ maxDepth
    · rw [nested_refused e hd] at hclean
      exact absurd hclean (holes_refuse e c)
    · rw [nested_read e hd] at hclean ⊢
      rw [nested_read e (mt (hs.allowed hc).mp hd)]
      have hsame := h.follow _ _ (hs.down hc) hclean
      exact ⟨hsame.result, hs.up hsame.follows⟩

/-- A token that is there is found. -/
theorem expect_of_kind {c : Cursor} {k : TokenKind} (e : Expected) (h : c.kind = k) :
    expect k e c = ((true, []), c.skip) := by
  have hexpect := expect_ensures (c := c) k e
  unfold Ensures at hexpect
  rcases hexpect with ⟨-, hp, hc⟩ | ⟨hk, -⟩ | ⟨hk, -⟩
  · exact Prod.ext hp hc
  · exact absurd h hk
  · exact absurd h hk

/-- A token that is there leaves no hole. -/
theorem needed_of_kind {c : Cursor} {k : TokenKind} (e : Expected) (h : c.kind = k) :
    (do return (← expect k e).2 : Parse (List Node)) c = ([], c.skip) := by
  show ((expect k e c).1.2, (expect k e c).2) = _
  rw [expect_of_kind _ h]

/-- A token that is not there leaves a hole. -/
theorem holesOf_expect {c : Cursor} {k : TokenKind} (e : Expected) (h : c.kind ≠ k) :
    holesOf (expect k e c).1.2 ≠ [] := by
  have hexpect := expect_ensures (c := c) k e
  unfold Ensures at hexpect
  rcases hexpect with ⟨hk, -⟩ | ⟨-, -, hp, -⟩ | ⟨-, -, hp, -⟩
  · exact absurd hk h
  · rw [hp]
    exact holesOf_singleton rfl
  · rw [hp]
    exact holesOf_singleton rfl

/-- A token that is not there where too little is ahead closes what needs it. -/
theorem expect_closes {k : TokenKind} (hk : s.Bars k) (e : Expected) :
    Closes φ s (Prod.map id (List.map (Node.relocate φ))) (holesOf ·.2 = []) (expect k e)
      (expect k e) where
  ends c hc := holesOf_expect e (hk c hc)
  follow c c' hc hclean := by
    have hck : c.kind = k := Classical.byContradiction fun h => holesOf_expect e h hclean
    have ht := Setting.together hc fun hcut => hk c hcut hck
    rw [expect_of_kind e hck, expect_of_kind e (ht.kind.trans hck)]
    exact ⟨rfl, ht.skip⟩

/-- One lemma for all the tokens that close a construct. -/
theorem needed_closes {k : TokenKind} (hk : s.Bars k) (e : Expected) :
    Closes φ s (List.map (Node.relocate φ)) (holesOf · = [])
      (do return (← expect k e).2) (do return (← expect k e).2) :=
  .andThen (expect_closes hk e) (fun _ => .pure rfl) fun _ h => h

/-- A construct that ends with a token it needs. -/
theorem ended_closes {k : TokenKind} (hk : s.Bars k) (e : Expected)
    {u v : Nat → Node} (huv : ∀ stop, v (φ.move stop) = (u stop).relocate φ) :
    ClosesNode φ s
      (do let holes ← (do return (← expect k e).2)
          return (u (← lastStop)).combine holes)
      (do let holes ← (do return (← expect k e).2)
          return (v (← lastStop)).combine holes) :=
  .andThen (needed_closes hk e) (fun _ => Exact.lastStop.andThen fun _ => .pure (by simp [huv]))
    fun _ => Node.holesOf_eq_nil_of_combine

/-- The same if another token was needed before. -/
theorem ended_closes_after {k : TokenKind} (hk : s.Bars k) (e : Expected) (hs : List Node)
    {u v : Nat → Node} (huv : ∀ stop, v (φ.move stop) = (u stop).relocate φ) :
    ClosesNode φ s
      (do let holes ← (do return (← expect k e).2)
          return (u (← lastStop)).combine (hs ++ holes))
      (do let holes ← (do return (← expect k e).2)
          return (v (← lastStop)).combine (hs.map (Node.relocate φ) ++ holes)) :=
  .andThen (needed_closes hk e) (fun _ => Exact.lastStop.andThen fun _ => .pure (by simp [huv]))
    fun _ hclean => holesOf_append_right (Node.holesOf_eq_nil_of_combine hclean)

/-- A path without holes is a string that both readings have. -/
theorem path_closes (hclear : s.Clear .string) (hbars : s.Bars .string) :
    ClosesNode φ s path path := by
  have hstring : ∀ c : Cursor, c.kind = .string → path c = strings c := fun c h =>
    congrFun (if_pos (beq_iff_eq.mpr h)) c
  have hother : ∀ c : Cursor, c.kind ≠ .string → path c = hole .string c := fun c h =>
    congrFun (if_neg (by simpa using h)) c
  -- without a string there is a hole
  have hread : ∀ c : Cursor, (path c).1.holes = [] → c.kind = .string := fun c hclean =>
    Classical.byContradiction fun hk => holes_hole _ c (hother c hk ▸ hclean)
  refine ⟨fun c hc hclean => hbars c hc (hread c hclean), fun c c' hc hclean => ?_⟩
  have hk := hread c hclean
  have ht := Setting.together hc fun hcut => hbars c hcut hk
  rw [hstring c hk, hstring c' (ht.kind.trans hk)]
  exact strings_exact hclear c c' hc

/-! ## Chains -/

/-- What grows is part of what it becomes. -/
def Wraps (grow : Node → Parse (Option Node)) : Prop :=
  ∀ n c, (grow n).Ensures c fun o _ => ∀ m ∈ o, m.holes = [] → n.holes = []

/-- What it becomes has it among its parts. -/
theorem wraps_new {n : Node} {begin stop : Nat} {kind : NodeKind} (hn : n ∈ kind.children) :
    ∀ m ∈ some (Node.new begin stop kind), m.holes = [] → n.holes = [] := by
  rintro _ ⟨⟩ hclean
  exact Node.holes_eq_nil_of_new hclean hn

/-- The same if holes are joined to it. -/
theorem wraps_combine {n : Node} {begin stop : Nat} {kind : NodeKind} {hs : List Node}
    (hn : n ∈ kind.children) :
    ∀ m ∈ some ((Node.new begin stop kind).combine hs), m.holes = [] → n.holes = [] := by
  rintro _ ⟨⟩ hclean
  exact Node.holes_eq_nil_of_new (Node.holes_eq_nil_of_combine hclean) hn

section Chains

variable {grow grow' : Node → Parse (Option Node)}

/-- What grows again and again keeps the holes it had. -/
theorem Wraps.chain (h : Wraps grow) {n : Node} {c : Cursor}
    (hclean : (chain grow n c).1.holes = []) : n.holes = [] := by
  have hchain : Ensures (Parse.chain grow n) c fun m _ => m.holes = [] → n.holes = [] := by
    refine Ensures.chain (I := fun m _ => m.holes = [] → n.holes = []) (fun m c' hm => ?_) n c id
    refine (h m c').mono fun o _ ho => ?_
    cases o with
    | none => exact hm
    | some b => exact fun hb => hm (ho b rfl hb)
  exact hchain hclean

/-- A chain goes on side by side if all ways to grow do. -/
theorem Keeps.chain (h : ∀ n, KeepsOption φ s (grow n) (grow' (n.relocate φ))) (hw : Wraps grow)
    (n : Node) : KeepsNode φ s (Parse.chain grow n) (Parse.chain grow' (n.relocate φ)) := by
  intro c c' hc hclean
  induction hn : c.left using Nat.strongRecOn generalizing n c c' with
  | ind k ih =>
    -- each turn is the same in both readings, and takes a token if there is another one
    have hturn := h n c c' hc
    rw [Parse.chain] at hclean ⊢
    rw [Parse.chain, s.left hc]
    generalize grow n c = turned, grow' (n.relocate φ) c' = turned' at hturn hclean ⊢
    obtain ⟨o, after⟩ := turned
    obtain ⟨o', after'⟩ := turned'
    cases o with
    | none =>
      obtain ⟨hr, hf⟩ := hturn (by simp)
      dsimp only at hr hf
      subst hr
      exact ⟨rfl, hf⟩
    | some b =>
      dsimp only at hclean hturn ⊢
      by_cases hl : after.left < c.left
      · -- what grows on keeps its holes, so there is none in what has grown so far
        rw [if_pos hl] at hclean ⊢
        obtain ⟨hr, hf⟩ := hturn fun m hm => Option.some.inj hm ▸ hw.chain hclean
        dsimp only at hr hf
        subst hr
        simp only [Option.map_some, s.left hf, Nat.add_lt_add_iff_right, if_pos hl]
        exact ih _ (hn ▸ hl) b after after' hf hclean rfl
      · rw [if_neg hl] at hclean ⊢
        obtain ⟨hr, hf⟩ := hturn fun m hm => Option.some.inj hm ▸ hclean
        dsimp only at hr hf
        subst hr
        simp only [Option.map_some, s.left hf, Nat.add_lt_add_iff_right, if_neg hl]
        exact ⟨rfl, hf⟩

end Chains

end Parse

end MudEdit
