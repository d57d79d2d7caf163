import MudEdit.Grammar.Levels
import MudEdit.Proofs.Grammar.Operand
import MudEdit.Proofs.Node.Height

/-!
# How tall what is read gets

A chain grows only a node that is less than `maxHeight` tall. Everything else is made of a
few constructs, one in the other, around what the productions of the level below have read.
So a level adds only so much to the greater of `maxHeight` and what the level below makes,
and no production adds more than a statement does: a `for` whose first part is a function
with a body adds seven.
-/

namespace MudEdit

open Node (Low low_nil low_cons low_append)

namespace Parse

variable {α β : Type} {p q : Parse α} {f : α → Parse β} {P Q : α → Prop} {R : β → Prop}

/-- Whatever the cursor, the production gives a result of this kind. -/
def Yields (p : Parse α) (P : α → Prop) : Prop := ∀ c, P (p c).1

namespace Yields

/-! ## Ways to put productions together -/

/-- What a production yields it yields in the weaker sense as well. -/
theorem mono (h : p.Yields P) (k : ∀ a, P a → Q a) : p.Yields Q := fun c => k _ (h c)

/-- The second production may rely on what the first one yields. -/
theorem bind (h : p.Yields P) (k : ∀ a, P a → (f a).Yields R) : Yields (p >>= f) R :=
  fun c => k _ (h c) _

/-- What comes after a production that may give anything. -/
theorem after (k : ∀ a, (f a).Yields R) : Yields (p >>= f) R := fun _ => k _ _

theorem pure {a : α} (h : P a) : Yields (Pure.pure a) P := fun _ => h

theorem map {u : α → β} (h : p.Yields fun a => R (u a)) : Yields (u <$> p) R := h

theorem ite {b : Prop} [Decidable b] (h : p.Yields P) (h' : q.Yields P) :
    Yields (if b then p else q) P := by
  split
  · exact h
  · exact h'

/-- Where a condition is tested, each branch may rely on what was found. -/
theorem cond {b : Prop} [Decidable b] (h : b → p.Yields P) (h' : ¬ b → q.Yields P) :
    Yields (if b then p else q) P := by
  split
  · rename_i hb; exact h hb
  · rename_i hb; exact h' hb

/-! ## Loops -/

/-- All turns of a loop yield the same kind. -/
theorem manyUntil {stops : TokenKind → Bool} (h : p.Yields P) :
    Yields (Parse.manyUntil stops p) fun as => ∀ a ∈ as, P a := by
  intro c
  induction hn : c.left using Nat.strongRecOn generalizing c with
  | ind n ih =>
    have hp := h c
    rw [Parse.manyUntil]
    split
    · simp
    -- what one turn gives, and the cursor behind it
    · generalize p c = turned at hp ⊢
      obtain ⟨a, after⟩ := turned
      dsimp only
      split
      -- the turn took a token, so there may be more turns
      · rename_i hl
        exact List.forall_mem_cons.mpr ⟨hp, ih _ (hn ▸ hl) after rfl⟩
      · exact List.forall_mem_singleton.mpr hp

/-- So do all items between separators. -/
theorem separated {closer : TokenKind} (h : p.Yields P) :
    Yields (Parse.separated closer p) fun as => ∀ a ∈ as, P a := by
  intro c
  induction hn : c.left using Nat.strongRecOn generalizing c with
  | ind n ih =>
    have hp := h c
    rw [Parse.separated]
    split
    · simp
    · generalize p c = turned at hp ⊢
      obtain ⟨a, after⟩ := turned
      dsimp only
      obtain ⟨comma, next⟩ := eats (.sign .comma) after
      dsimp only
      split
      · rename_i hl
        exact List.forall_mem_cons.mpr ⟨hp, ih _ (hn ▸ hl.2) next rfl⟩
      · exact List.forall_mem_singleton.mpr hp

/-- And so they do where an ellipsis may end the list. -/
theorem separatedOpen (h : p.Yields P) :
    Yields (Parse.separatedOpen p) fun as => ∀ a ∈ as.1, P a := by
  intro c
  induction hn : c.left using Nat.strongRecOn generalizing c with
  | ind n ih =>
    have hp := h c
    rw [Parse.separatedOpen]
    split
    · simp
    · split
      · simp
      · generalize p c = turned at hp ⊢
        obtain ⟨a, after⟩ := turned
        dsimp only
        split
        · exact List.forall_mem_singleton.mpr hp
        · rename_i after _
          obtain ⟨comma, next⟩ := eats (.sign .comma) after
          dsimp only
          split
          · rename_i hl
            exact List.forall_mem_cons.mpr ⟨hp, ih _ (hn ▸ hl.2) next rfl⟩
          · exact List.forall_mem_singleton.mpr hp

/-- What a chain starts with is of the kind, and whatever it grows to. -/
theorem chain {grow : α → Parse (Option α)}
    (h : ∀ a, (grow a).Yields fun b => ∀ x ∈ b.toList, P x) (a : α) (ha : P a) :
    Yields (Parse.chain grow a) P := by
  intro c
  induction hn : c.left using Nat.strongRecOn generalizing a c with
  | ind n ih =>
    have hg := h a c
    rw [Parse.chain]
    split
    · exact ha
    · rename_i b after heq
      rw [heq] at hg
      split
      · rename_i hl
        -- it grew and took a token, so it may grow again
        exact ih _ (hn ▸ hl) b (hg b (List.mem_singleton_self b)) after rfl
      · exact hg b (List.mem_singleton_self b)

end Yields

/-! ## Names, strings and holes -/

/-- A hole has no parts. -/
theorem hole_low (e : Expected) : (hole e).Yields fun n => n.height ≤ 1 :=
  .after fun _ =>
    .ite (.after fun _ => .pure (Nat.le_refl _)) (.after fun _ => .pure (Nat.le_refl _))

theorem wrongCurrent_low (e : Expected) : (wrongCurrent e).Yields fun n => n.height ≤ 1 :=
  .after fun _ => .pure (Nat.le_refl _)

theorem refuse_low (e : Expected) : (refuse e).Yields fun n => n.height ≤ 1 :=
  .after fun _ => .ite (.after fun _ => .pure (Nat.le_refl _)) (wrongCurrent_low e)

/-- A token that is lacking leaves at most a hole, which has no parts. -/
theorem expect_low (k : TokenKind) (e : Expected) : (expect k e).Yields fun p => Low 1 p.2 := by
  refine .after fun _ => .ite (.pure low_nil) (.bind (hole_low e) fun h hh => ?_)
  have hlow : Low 1 [h] := low_cons.mpr ⟨hh, low_nil⟩
  exact .ite (.pure hlow) (.after fun _ => .pure hlow)

/-- One lemma for all the tokens that constructs need. -/
theorem needed_low (k : TokenKind) (e : Expected) :
    Yields (do return (← expect k e).2) (Low 1) := expect_low k e

theorem name_low : name.Yields fun n => n.height ≤ 1 := by
  refine .after fun t => ?_
  split
  · exact .pure (Nat.le_refl _)
  · exact hole_low _

/-- Strings that stand side by side are parts of one construct. -/
theorem strings_low : strings.Yields fun n => n.height ≤ 2 := by
  have hpart : stringLiteral.Yields fun n => n.height ≤ 1 := .after fun _ => .pure (Nat.le_refl _)
  refine .bind (.manyUntil hpart) fun parts hparts => ?_
  split
  · exact .pure (Nat.le_succ_of_le (hparts _ List.mem_cons_self))
  · exact .after fun _ => .pure (Node.height_new_le hparts)

/-- A path is as tall as strings are, or a hole. -/
theorem path_low : path.Yields fun n => n.height ≤ 2 :=
  .after fun _ => .ite strings_low ((hole_low _).mono fun _ h => Nat.le_succ_of_le h)

/-- Of the file of a type only what is no text is kept, as a hole. -/
theorem typeFile_low (basic : BasicKind) : (typeFile basic).Yields fun p => Low 2 p.2 := by
  refine .ite (.pure low_nil) (.after fun _ => .ite (.pure low_nil) ?_)
  refine .bind path_low fun file hfile => .bind (expect_low _ _) fun closing hclosing => ?_
  have hholes : Low 2 closing.2 := hclosing.mono (by omega)
  dsimp only
  split
  · exact .pure hholes
  · exact .pure (low_cons.mpr ⟨hfile, hholes⟩)

/-- A link of a chain is one taller than what it continues, and has a name besides. -/
theorem scopeLink_low {scope : Option Node} {k : Nat} (hk : 1 ≤ k)
    (hs : Low k scope.toList) : (scopeLink scope).Yields fun n => n.height ≤ k + 1 := by
  refine .after fun _ => .bind name_low fun member hmember => .after fun _ => .pure ?_
  refine Node.height_new_le (low_append.mpr ⟨hs, low_cons.mpr ⟨?_, low_nil⟩⟩)
  exact Nat.le_trans hmember hk

/-- A literal has no parts. -/
theorem atom_low : atom.Yields fun n => n.height ≤ 1 := by
  refine .after fun t => ?_
  split
  · rename_i construct hliteral
    -- one token stands for the whole construct, so there is nothing below it
    have hleaf := NodeKind.children_of_isLeaf (Token.isLeaf_of_leaf (leaf_of_literal hliteral))
    exact .after fun t => .pure (Nat.le_of_eq (Node.height_new_leaf hleaf))
  · exact hole_low _

/-- The name of an operator may have a hole for its second sign. -/
theorem declaredName_low : declaredName.Yields fun n => n.height ≤ 2 := by
  have hcloser (kind : TokenKind) : (operatorCloser kind).Yields fun p => Low 1 p.2 := by
    unfold operatorCloser
    split
    · exact .bind (expect_low _ _) fun _ hh => .pure hh
    · exact .pure low_nil
  refine .after fun word => ?_
  split
  · exact name_low.mono fun _ hn => by omega
  · refine .after fun kind => .ite ((hole_low _).mono fun _ hn => by omega) (.after fun _ => ?_)
    refine .bind (hcloser kind) fun p hp => .after fun stop => .pure ?_
    exact Node.height_combine_le (Nat.le_of_eq (Node.height_new_leaf rfl)) hp

theorem emptyStatement_low : emptyStatement.Yields fun n => n.height ≤ 1 :=
  .after fun _ => .pure (Nat.le_of_eq (Node.height_new_leaf rfl))

theorem includeDirective_low : includeDirective.Yields fun n => n.height ≤ 3 :=
  .after fun _ => .bind path_low fun _ hf =>
    .pure (Node.height_new_le (low_cons.mpr ⟨hf, low_nil⟩))

/-- A directive has a path, and with a hole for its semicolon it is one taller. -/
theorem inheritance_low : inheritance.Yields fun n => n.height ≤ 4 := by
  refine .after fun _ => .bind path_low fun file hf => .bind (needed_low _ _) fun _ hh => ?_
  refine .after fun _ => .pure (Node.height_combine_le ?_ (hh.mono (by omega)))
  exact Node.height_new_le (low_cons.mpr ⟨hf, low_nil⟩)

/-- Modifiers are words, which are no nodes. -/
theorem modifiers_low : modifiers.Yields fun o => Low 1 o.toList := by
  refine .after fun _ => .after fun words => .ite (.pure low_nil) (.after fun _ => .pure ?_)
  exact low_cons.mpr ⟨Nat.le_of_eq (Node.height_new_leaf rfl), low_nil⟩

theorem wordStatement_low {construct : NodeKind} (hk : construct.children = []) :
    (wordStatement construct).Yields fun n => n.height ≤ 2 := by
  refine .after fun _ => .bind (needed_low _ _) fun _ hh => .after fun _ => .pure ?_
  exact Node.height_combine_le (Nat.le_of_eq (Node.height_new_leaf hk)) hh

end Parse

/-- The productions of a level make nodes that are at most so tall. -/
structure Nested.Low (below : Nested) (M : Nat) : Prop where
  statement : below.statement.Yields fun n => n.height ≤ M
  member : below.member.Yields fun n => n.height ≤ M
  expression : below.expression.Yields fun n => n.height ≤ M
  alternative : below.alternative.Yields fun n => n.height ≤ M
  operand : ∀ loosest, (below.operand loosest).Yields fun n => n.height ≤ M
  unary : below.unary.Yields fun n => n.height ≤ M
  type : below.type.Yields fun n => n.height ≤ M
  /-- A chain may grow up to the bound. -/
  maxHeight_le : maxHeight ≤ M

/-- The bound leaves room for a path and a name in a construct. -/
theorem Nested.Low.four_le {below : Nested} {M : Nat} (h : below.Low M) : 4 ≤ M :=
  Nat.le_trans (by decide) h.maxHeight_le

namespace Parse

variable {below : Nested} {M : Nat} {n : Node}

/-- A production that took no token gets a hole, which makes it one taller. -/
theorem guarded_low {p : Parse Node} {k : Nat} (hk : 1 ≤ k) (h : p.Yields fun n => n.height ≤ k) :
    (guarded p).Yields fun n => n.height ≤ k + 1 := by
  refine .after fun _ => .bind h fun n hn => .after fun _ => .after fun _ => ?_
  refine .ite (.pure (Nat.le_succ_of_le hn)) (.bind (wrongCurrent_low _) fun g hg => .pure ?_)
  exact Node.height_combine_le hn (low_cons.mpr ⟨Nat.le_trans hg hk, low_nil⟩)

variable (h : below.Low M)
include h

/-- What grows in a chain is no taller than the level below may make. -/
theorem height_le_of_canGrow (hn : n.canGrow = true) : n.height + 1 ≤ M := by
  have hlt : n.height < maxHeight := of_decide_eq_true hn
  exact Nat.le_trans hlt h.maxHeight_le

/-! ## Types -/

/-- A type in parentheses gets no taller but by a hole. -/
theorem typeAtom_low : (typeAtom below).Yields fun n => n.height ≤ M + 1 := by
  have hM := h.four_le
  refine .after fun kind => ?_
  split
  · refine .after fun _ => .bind h.type fun inner hinner => ?_
    refine .bind (needed_low _ _) fun _ hholes => ?_
    exact .pure (Node.height_combine_le hinner (hholes.mono (by omega)))
  · refine .after fun word => .bind (typeFile_low _) fun p hp => .after fun stop => .pure ?_
    refine Node.height_combine_le ?_ (hp.mono (by omega))
    rw [Node.height_new_leaf rfl]
    omega
  · exact (hole_low _).mono fun _ hn => by omega

/-- A function type has its result, which could still grow, and its parameters as parts. -/
theorem functionSuffix_low {returns : Node} (hr : returns.canGrow = true) :
    (functionSuffix below returns).Yields fun n => n.height ≤ M + 2 := by
  have hr' := height_le_of_canGrow h hr
  refine .after fun _ => .bind (.separatedOpen h.type) fun ps hps => ?_
  refine .bind (needed_low _ _) fun holes hholes => .after fun _ => .pure ?_
  refine Node.height_combine_le (Node.height_new_le (low_cons.mpr ⟨by omega, hps⟩)) ?_
  exact hholes.mono (by omega)

/-- A suffix is put only on what could still grow, so it stays within the bound. -/
theorem typeSuffix_low (type : Node) :
    (typeSuffix below type).Yields fun b => Low (M + 2) b.toList := by
  refine .cond (fun _ => .pure low_nil) fun hgrow => .after fun kind => .after fun next => ?_
  have hgrow' : type.canGrow = true := by simpa using hgrow
  -- both spellings of an array put one construct on the type
  have harray (stop : Nat) :
      Low (M + 2) (some (Node.new type.begin stop (.arrayType type))).toList := by
    have := height_le_of_canGrow h hgrow'
    refine low_cons.mpr ⟨Node.height_new_le (low_cons.mpr ⟨by omega, low_nil⟩), low_nil⟩
  split
  · exact .after fun _ => .after fun _ => .after fun _ => .pure (harray _)
  · exact .after fun _ => .after fun _ => .pure (harray _)
  · exact .bind (functionSuffix_low h hgrow') fun b hb => .pure (low_cons.mpr ⟨hb, low_nil⟩)
  · exact .pure low_nil

/-- A chain of suffixes is no taller than what it starts with or the last that was put on. -/
theorem suffixedType_low : (suffixedType below).Yields fun n => n.height ≤ M + 2 :=
  .bind (typeAtom_low h) fun n hn => .chain (typeSuffix_low h) n (Nat.le_succ_of_le hn)

/-- A bar joins what could still grow with one more type. -/
theorem typeAlternative_low (type : Node) :
    (typeAlternative below type).Yields fun b => Low (M + 3) b.toList := by
  refine .cond (fun _ => .pure low_nil) fun hgrow => .after fun _ => .ite ?_ (.pure low_nil)
  have := height_le_of_canGrow h (n := type) (by simpa using hgrow)
  refine .bind (suffixedType_low h) fun other hother => .pure (low_cons.mpr ⟨?_, low_nil⟩)
  exact Node.height_new_le (low_cons.mpr ⟨by omega, low_cons.mpr ⟨hother, low_nil⟩⟩)

theorem type_low : (type below).Yields fun n => n.height ≤ M + 3 :=
  .bind (suffixedType_low h) fun n hn => .chain (typeAlternative_low h) n (Nat.le_succ_of_le hn)

/-! ## Operands -/

theorem arguments_low (closer : Sign) : (arguments below closer).Yields (Low M) :=
  .separated h.expression

theorem optionalExpression_low (without : Sign) :
    (optionalExpression below without).Yields fun o => Low M o.toList :=
  .after fun _ => .ite (.pure low_nil)
    (.bind h.expression fun _ hn => .pure (low_cons.mpr ⟨hn, low_nil⟩))

/-- A chain of names only grows as far as any chain, so it stays within the bound. -/
theorem scopedName_low : scopedName.Yields fun n => n.height ≤ M := by
  have hM := h.four_le
  have hgrow (scope : Node) : (scopeSuffix scope).Yields fun b => Low M b.toList := by
    refine .after fun seen => .cond (fun hs => ?_) fun _ => .pure low_nil
    -- the chain could still grow, so the link is within the bound
    have := height_le_of_canGrow h (Bool.and_eq_true_iff.mp hs).1
    refine .bind (scopeLink_low (k := M - 1) (by omega) (low_cons.mpr ⟨by omega, low_nil⟩)) ?_
    exact fun n hn => .pure (low_cons.mpr ⟨by omega, low_nil⟩)
  refine .after fun t => ?_
  split
  · exact .chain hgrow _ (Nat.le_trans (Node.height_new_le (k := 0) low_nil) (by omega))
  · exact .bind (scopeLink_low (Nat.le_refl 1) low_nil) fun n hn => .chain hgrow n (by omega)

theorem parenthesized_low : (parenthesized below).Yields fun n => n.height ≤ M + 1 := by
  have hM := h.four_le
  refine .after fun _ => .bind h.expression fun _ hn => .bind (needed_low _ _) fun _ hh => ?_
  exact .pure (Node.height_combine_le hn (hh.mono (by omega)))

theorem arrayLiteral_low : (arrayLiteral below).Yields fun n => n.height ≤ M + 2 := by
  have hM := h.four_le
  refine .after fun _ => .bind (arguments_low h _) fun items hitems => ?_
  refine .bind (needed_low _ _) fun _ hh => .bind (needed_low _ _) fun _ hh' => .after fun _ => ?_
  refine .pure (Node.height_combine_le (Node.height_new_le hitems) (low_append.mpr ⟨?_, ?_⟩))
  · exact hh.mono (by omega)
  · exact hh'.mono (by omega)

/-- An entry has a key and a value, and a hole for its colon. -/
theorem mappingEntry_low : (mappingEntry below).Yields fun n => n.height ≤ M + 2 := by
  have hM := h.four_le
  refine .bind h.expression fun _ hkey => .bind (needed_low _ _) fun _ hh => ?_
  refine .bind h.expression fun _ hvalue => .pure (Node.height_combine_le ?_ (hh.mono (by omega)))
  exact Node.height_new_le (low_cons.mpr ⟨hkey, low_cons.mpr ⟨hvalue, low_nil⟩⟩)

theorem mappingLiteral_low : (mappingLiteral below).Yields fun n => n.height ≤ M + 4 := by
  refine .after fun _ => .bind (.separated (mappingEntry_low h)) fun entries hentries => ?_
  refine .bind (needed_low _ _) fun _ hh => .bind (needed_low _ _) fun _ hh' => .after fun _ => ?_
  refine .pure (Node.height_combine_le (Node.height_new_le hentries) (low_append.mpr ⟨?_, ?_⟩))
  · exact hh.mono (by omega)
  · exact hh'.mono (by omega)

/-- What is made and what it is made with come from the level below. -/
theorem newValue_low : (newValue below).Yields fun n => n.height ≤ M + 2 := by
  have hM := h.four_le
  -- the parts come from the level below
  have htarget : (newTarget below).Yields fun n => n.height ≤ M :=
    .after fun _ => .ite h.type h.expression
  have hargs : (newArguments below).Yields (Low M) :=
    .after fun _ => .ite (arguments_low h _) (.pure low_nil)
  refine .after fun _ => .bind (needed_low _ _) fun _ hh => .bind htarget fun target ht => ?_
  refine .bind hargs fun args ha => .bind (needed_low _ _) fun _ hh' => .after fun _ => .pure ?_
  refine Node.height_combine_le (Node.height_new_le (low_cons.mpr ⟨ht, ha⟩))
    (low_append.mpr ⟨?_, ?_⟩)
  · exact hh.mono (by omega)
  · exact hh'.mono (by omega)

/-- Of the values without operators a mapping is the tallest. -/
theorem primary_low : (primary below).Yields fun n => n.height ≤ M + 4 := by
  have hM := h.four_le
  refine .after fun kind => ?_
  split
  · exact (scopedName_low h).mono fun _ hn => by omega
  · exact (scopedName_low h).mono fun _ hn => by omega
  · exact strings_low.mono fun _ hn => by omega
  · exact (parenthesized_low h).mono fun _ hn => by omega
  · exact (arrayLiteral_low h).mono fun _ hn => by omega
  · exact mappingLiteral_low h
  · exact (newValue_low h).mono fun _ hn => by omega
  · exact atom_low.mono fun _ hn => by omega

/-- A call has its function, which could still grow, and its arguments. -/
theorem callSuffix_low (hn : n.canGrow = true) :
    (callSuffix below n).Yields fun n => n.height ≤ M + 3 := by
  have := height_le_of_canGrow h hn
  refine .after fun _ => .bind (arguments_low h _) fun args ha => ?_
  refine .bind (needed_low _ _) fun _ hh => .after fun _ => .pure (Nat.le_succ_of_le ?_)
  refine Node.height_combine_le (Node.height_new_le (low_cons.mpr ⟨by omega, ha⟩)) ?_
  exact hh.mono (by omega)

theorem subscriptIndex_low : (subscriptIndex below).Yields fun n => n.height ≤ M + 1 := by
  refine .after fun _ => .bind (optionalExpression_low h _) fun lower hlower => .after fun _ => ?_
  split
  · exact .pure (Nat.le_succ_of_le (low_cons.mp hlower).1)
  · refine .bind (optionalExpression_low h _) fun upper hupper => .after fun _ => .pure ?_
    exact Node.height_new_le (low_append.mpr ⟨hlower, hupper⟩)

/-- A subscript has its target, which could still grow, and what is in the brackets. -/
theorem subscriptSuffix_low (hn : n.canGrow = true) :
    (subscriptSuffix below n).Yields fun n => n.height ≤ M + 3 := by
  have := height_le_of_canGrow h hn
  refine .after fun _ => .bind (subscriptIndex_low h) fun index hi => ?_
  refine .bind (needed_low _ _) fun _ hh => .after fun _ => .pure ?_
  refine Node.height_combine_le (Node.height_new_le (low_cons.mpr ⟨by omega, ?_⟩)) ?_
  · exact low_cons.mpr ⟨hi, low_nil⟩
  · exact hh.mono (by omega)

/-- A suffix is put only on what could still grow, so it stays within the bound. -/
theorem suffix_low (target : Node) :
    (suffix below target).Yields fun b => Low (M + 3) b.toList := by
  refine .cond (fun _ => .pure low_nil) fun hgrow => .after fun kind => ?_
  have hgrow' : target.canGrow = true := by simpa using hgrow
  have htarget := height_le_of_canGrow h hgrow'
  have hsome {p : Parse Node} (hp : p.Yields fun n => n.height ≤ M + 3) :
      Yields (some <$> p) fun b => Low (M + 3) b.toList :=
    .map (hp.mono fun _ hn => low_cons.mpr ⟨hn, low_nil⟩)
  -- a member is two taller at most, its name counted
  have hmember (access : Access) :
      (memberSuffix access target).Yields fun n => n.height ≤ M + 3 := by
    refine .after fun _ => .bind name_low fun _ hn => .after fun _ => .pure (Node.height_new_le ?_)
    exact low_cons.mpr ⟨by omega, low_cons.mpr ⟨by omega, low_nil⟩⟩
  have hoperator (op : UnaryOp) :
      (trailingOperator op target).Yields fun n => n.height ≤ M + 3 :=
    .after fun _ => .pure (Node.height_new_le (low_cons.mpr ⟨by omega, low_nil⟩))
  split
  · exact hsome (callSuffix_low h hgrow')
  · exact hsome (subscriptSuffix_low h hgrow')
  · exact hsome (hmember _)
  · exact hsome (hmember _)
  · exact hsome (hoperator _)
  · exact hsome (hoperator _)
  · exact .pure low_nil

theorem castOperand_low : (castOperand below).Yields fun n => n.height ≤ M + 2 := by
  have hM := h.four_le
  refine .after fun _ => .bind h.type fun type ht => .bind (needed_low _ _) fun _ hh => ?_
  refine .bind h.unary fun value hv => .pure (Node.height_combine_le ?_ (hh.mono (by omega)))
  exact Node.height_new_le (low_cons.mpr ⟨ht, low_cons.mpr ⟨hv, low_nil⟩⟩)

/-- An operator adds one to its operand, and a chain of suffixes stays within the bound. -/
theorem unary_low : (unary below).Yields fun n => n.height ≤ M + 4 := by
  refine .after fun kind => ?_
  split
  · refine .after fun _ => .bind h.unary fun operand ho => .pure ?_
    exact Nat.le_trans (Node.height_new_le (low_cons.mpr ⟨ho, low_nil⟩)) (by omega)
  · refine .after fun _ => .ite ((castOperand_low h).mono fun _ hn => by omega) ?_
    refine .bind (primary_low h) fun n hn => .chain (fun target => ?_) n hn
    exact (suffix_low h target).mono fun _ hb => hb.mono (by omega)

/-! ## Expressions -/

theorem typeTestSuffix_low (value : Node) :
    (typeTestSuffix below value).Yields fun b => Low (M + 1) b.toList := by
  refine .cond (fun _ => .pure low_nil) fun hgrow => .after fun _ => .ite ?_ (.pure low_nil)
  have := height_le_of_canGrow h (n := value) (by simpa using hgrow)
  refine .bind h.type fun type ht => .pure (low_cons.mpr ⟨Node.height_new_le ?_, low_nil⟩)
  exact low_cons.mpr ⟨by omega, low_cons.mpr ⟨ht, low_nil⟩⟩

/-- An operator is put only behind what could still grow. -/
theorem operatorSuffix_low (loosest : Nat) (lhs : Node) :
    (operatorSuffix below loosest lhs).Yields fun b => Low (M + 1) b.toList := by
  refine .after fun kind => ?_
  split
  · refine .cond (fun hgrow => .after fun _ => ?_) fun _ => .pure low_nil
    have := height_le_of_canGrow h (Bool.and_eq_true_iff.mp hgrow).2
    refine .bind (h.operand _) fun rhs hr => .pure (low_cons.mpr ⟨Node.height_new_le ?_, low_nil⟩)
    exact low_cons.mpr ⟨by omega, low_cons.mpr ⟨hr, low_nil⟩⟩
  · exact .pure low_nil

theorem operand_low (loosest : Nat) : (operand below loosest).Yields fun n => n.height ≤ M + 1 := by
  have htest : (typeTest below).Yields fun n => n.height ≤ M + 1 :=
    .bind h.unary fun n hn => .chain (typeTestSuffix_low h) n (Nat.le_succ_of_le hn)
  exact .bind htest fun n hn => .chain (operatorSuffix_low h loosest) n hn

/-- A choice between two values has three parts, of which the condition may be the tallest. -/
theorem alternative_low : (alternative below).Yields fun n => n.height ≤ M + 3 := by
  refine .bind (operand_low h _) fun condition hc => .after fun _ => ?_
  refine .ite (.bind h.expression fun _ ht => .bind (needed_low _ _) fun _ hh => ?_)
    (.pure (by omega))
  refine .bind h.alternative fun _ he => .pure (Node.height_combine_le ?_ (hh.mono (by omega)))
  refine Node.height_new_le (low_cons.mpr ⟨hc, low_cons.mpr ⟨?_, low_cons.mpr ⟨?_, low_nil⟩⟩⟩)
  · omega
  · omega

/-- An assignment has a choice on its left. -/
theorem expression_low : (expression below).Yields fun n => n.height ≤ M + 4 := by
  refine .bind (alternative_low h) fun target ht => .after fun kind => ?_
  split
  · refine .ite (.after fun _ => .bind h.expression fun _ hv => .pure ?_) (.pure (by omega))
    exact Node.height_new_le (low_cons.mpr ⟨ht, low_cons.mpr ⟨by omega, low_nil⟩⟩)
  · exact .pure (by omega)

/-! ## Declarations -/

/-- The members of a class, and the holes of its braces. -/
theorem classBody_low :
    (classBody below).Yields fun p => Low (M + 1) p.1 ∧ Low 1 p.2 := by
  have hM := h.four_le
  refine .bind (expect_low _ _) fun opening ho => .ite (.pure ⟨low_nil, ho⟩) ?_
  refine .bind (.manyUntil (guarded_low (by omega) h.member)) fun members hm => ?_
  refine .bind (needed_low _ _) fun closing hc => .after fun _ => .pure ⟨hm, ?_⟩
  exact low_append.mpr ⟨ho, hc⟩

/-- A class has its members, or the strings that name a file. -/
theorem classDefinition_low : (classDefinition below).Yields fun n => n.height ≤ M + 3 := by
  have hM := h.four_le
  refine .after fun _ => .bind name_low fun title htitle => .after fun _ => .ite ?_ ?_
  · refine .bind strings_low fun file hf => .bind (needed_low _ _) fun _ hh => .after fun _ => ?_
    refine .pure (Node.height_combine_le (Node.height_new_le ?_) (hh.mono (by omega)))
    exact low_cons.mpr ⟨by omega, low_cons.mpr ⟨by omega, low_nil⟩⟩
  · refine .bind (classBody_low h) fun body hb => .after fun _ => .pure ?_
    refine Node.height_combine_le (Node.height_new_le ?_) (hb.2.mono (by omega))
    exact low_cons.mpr ⟨by omega, hb.1⟩

theorem initialValue_low : (initialValue below).Yields fun o => Low M o.toList :=
  .after fun _ => .ite (.bind h.expression fun _ hn => .pure (low_cons.mpr ⟨hn, low_nil⟩))
    (.pure low_nil)

theorem annotatedType_low (certain : Bool) :
    (annotatedType below certain).Yields fun o => Low M o.toList := by
  refine .after fun _ => .after fun _ => .ite (.after fun _ => ?_) (.pure low_nil)
  exact .bind h.type fun _ hn => .pure (low_cons.mpr ⟨hn, low_nil⟩)

/-- A variable of its parts. -/
theorem variableDef_low {begin stop : Nat} {mods type value : Option Node} {title : Node}
    {holes : List Node} (hmods : Low 1 mods.toList) (htype : Low M type.toList)
    (htitle : title.height ≤ 2) (hvalue : Low M value.toList)
    (hholes : Low 1 holes) :
    ((Node.new begin stop (.variableDef mods type title value)).combine holes).height ≤ M + 2 := by
  have hM := h.four_le
  refine Node.height_combine_le (Node.height_new_le ?_) (hholes.mono (by omega))
  simp only [NodeKind.children, low_append, low_cons]
  exact ⟨⟨⟨hmods.mono (by omega), htype⟩, by omega, low_nil⟩, hvalue⟩

theorem letDefinition_low (begin : Nat) {mods : Option Node} (hmods : Low 1 mods.toList) :
    (letDefinition below begin mods).Yields fun n => n.height ≤ M + 2 := by
  refine .after fun _ => .bind name_low fun title htitle => ?_
  refine .bind (annotatedType_low h _) fun type ht => .bind (initialValue_low h) fun value hv => ?_
  refine .bind (needed_low _ _) fun _ hh => .after fun _ => .pure ?_
  exact variableDef_low h hmods ht (by omega) hv hh

/-- A variable of a loop has a type and a name, and no value. -/
theorem bareVariable_low : (bareVariable below).Yields fun n => n.height ≤ M + 2 := by
  -- either way there is a title and at most one type
  have hvariable {begin stop : Nat} {type : Option Node} {title : Node}
      (ht : Low M type.toList) (htitle : title.height ≤ 1) :
      ((Node.new begin stop (.variableDef none type title none)).combine []).height ≤ M + 2 :=
    variableDef_low h low_nil ht (by omega) low_nil low_nil
  refine .after fun _ => .after fun _ => .ite ?_ ?_
  · refine .bind name_low fun _ hn => .bind (annotatedType_low h _) fun type ht => ?_
    exact .after fun _ => .pure (hvariable ht hn)
  · refine .bind h.type fun type ht => .bind name_low fun _ hn => .after fun _ => .pure ?_
    exact hvariable (low_cons.mpr ⟨ht, low_nil⟩) hn

/-- A parameter has a type and a name at most. -/
theorem parameter_low : (parameter below).Yields fun n => n.height ≤ M + 1 := by
  have hM := h.four_le
  refine .after fun _ => .after fun _ => .after fun _ => .ite ?_ ?_
  · exact (hole_low _).mono fun _ hn => by omega
  · refine .bind h.type fun type ht => .after fun title => .after fun _ => .pure ?_
    refine Node.height_new_le (low_cons.mpr ⟨ht, ?_⟩)
    cases title with
    | none => exact low_nil
    | some t =>
      refine low_cons.mpr ⟨?_, low_nil⟩
      rw [nameNode, Node.height_new_leaf rfl]
      omega

/-- A block has statements, each with a hole at most, and its own hole for the brace. -/
theorem block_low : (block below).Yields fun n => n.height ≤ M + 3 := by
  have hM := h.four_le
  refine .after fun _ => .bind (.manyUntil (guarded_low (by omega) h.statement)) fun _ hs => ?_
  refine .bind (needed_low _ _) fun _ hh => .after fun _ => .pure ?_
  exact Node.height_combine_le (Node.height_new_le hs) (hh.mono (by omega))

/-- A body is a block, or a semicolon that may be lacking. -/
theorem functionBody_low :
    (functionBody below).Yields fun p => Low (M + 3) p.1.toList ∧ Low 1 p.2 := by
  refine .after fun _ => .ite (.bind (block_low h) fun _ hb => .pure ⟨?_, low_nil⟩) ?_
  · exact low_cons.mpr ⟨hb, low_nil⟩
  · exact .bind (needed_low _ _) fun _ hh => .pure ⟨low_nil, hh⟩

/-- A function is two taller than its body: one for the function, one for its holes. -/
theorem functionRest_low (begin : Nat) {mods : Option Node} {returns title : Node}
    (hmods : Low 1 mods.toList) (hreturns : returns.height ≤ M) (htitle : title.height ≤ 2) :
    (functionRest below begin mods returns title).Yields fun n => n.height ≤ M + 5 := by
  have hM := h.four_le
  refine .after fun _ => .bind (.separatedOpen (parameter_low h)) fun ps hps => ?_
  refine .bind (needed_low _ _) fun _ hh => .bind (functionBody_low h) fun body hb => ?_
  refine .after fun _ => .pure (Node.height_combine_le (Node.height_new_le (k := M + 3) ?_) ?_)
  · simp only [NodeKind.children, low_append, low_cons]
    have hps' : Low (M + 1) ps.1 := hps
    exact ⟨⟨⟨hmods.mono (by omega), by omega, by omega, low_nil⟩, hps'.mono (by omega)⟩, hb.1⟩
  · exact low_append.mpr ⟨hh.mono (by omega), hb.2.mono (by omega)⟩

/-- A variable is two taller than its parts at most. -/
theorem variableRest_low (begin : Nat) {mods : Option Node} {type title : Node}
    (hmods : Low 1 mods.toList) (htype : type.height ≤ M) (htitle : title.height ≤ 2) :
    (variableRest below begin mods type title).Yields fun n => n.height ≤ M + 2 := by
  refine .bind (initialValue_low h) fun value hv => .bind (needed_low _ _) fun _ hh => ?_
  refine .after fun _ => .pure (variableDef_low h hmods ?_ htitle hv hh)
  exact low_cons.mpr ⟨htype, low_nil⟩

/-- A declaration makes the tallest nodes when it is a function with a body. -/
theorem declaration_low : (declaration below).Yields fun n => n.height ≤ M + 5 := by
  have hM := h.four_le
  refine .after fun _ => .after fun _ => .after fun _ => .ite ?_ ?_
  · exact (refuse_low _).mono fun _ hn => by omega
  · refine .bind modifiers_low fun mods hmods => .after fun _ => .ite ?_ ?_
    · exact (letDefinition_low h _ hmods).mono fun _ hn => by omega
    · refine .bind h.type fun type ht => .bind declaredName_low fun title htitle => ?_
      refine .after fun _ => .ite (functionRest_low h _ hmods ht htitle) ?_
      exact (variableRest_low h _ hmods ht htitle).mono fun _ hn => by omega

/-- Of the members a function is the tallest. -/
theorem member_low : (member below).Yields fun n => n.height ≤ M + 5 := by
  have hM := h.four_le
  refine .after fun kind => ?_
  split
  · exact includeDirective_low.mono fun _ hn => by omega
  · exact inheritance_low.mono fun _ hn => by omega
  · exact (classDefinition_low h).mono fun _ hn => by omega
  · exact emptyStatement_low.mono fun _ hn => by omega
  · exact declaration_low h

/-! ## Statements -/

/-- A semicolon that is lacking makes an expression one taller. -/
theorem expressionStatement_low : (expressionStatement below).Yields fun n => n.height ≤ M + 1 := by
  have hM := h.four_le
  refine .bind h.expression fun _ hn => .bind (needed_low _ _) fun _ hh => .pure ?_
  exact Node.height_combine_le hn (hh.mono (by omega))

theorem parenthesizedCondition_low :
    (parenthesizedCondition below).Yields fun p => p.1.height ≤ M ∧ Low 1 p.2 := by
  refine .bind (needed_low _ _) fun _ hh => .bind h.expression fun _ hn => ?_
  exact .bind (needed_low _ _) fun _ hh' => .pure ⟨hn, low_append.mpr ⟨hh, hh'⟩⟩

theorem otherwise_low : (otherwise below).Yields fun o => Low M o.toList :=
  .after fun _ => .ite (.bind h.statement fun _ hn => .pure (low_cons.mpr ⟨hn, low_nil⟩))
    (.pure low_nil)

/-- A statement of parts that the level below has read. -/
theorem composed_low {begin stop : Nat} {construct : NodeKind} {holes : List Node} {k : Nat}
    (hk : Low (M + k) construct.children) (hholes : Low 1 holes) :
    ((Node.new begin stop construct).combine holes).height ≤ M + k + 2 := by
  have hM := h.four_le
  exact Node.height_combine_le (Node.height_new_le hk) (hholes.mono (by omega))

/-- A condition and two branches come from the level below. -/
theorem ifStatement_low : (ifStatement below).Yields fun n => n.height ≤ M + 2 := by
  refine .after fun _ => .bind (parenthesizedCondition_low h) fun p hp => ?_
  refine .bind h.statement fun _ ht => .bind (otherwise_low h) fun _ he => .after fun _ => .pure ?_
  exact composed_low h (k := 0) (low_cons.mpr ⟨hp.1, low_cons.mpr ⟨ht, he⟩⟩) hp.2

theorem whileStatement_low : (whileStatement below).Yields fun n => n.height ≤ M + 2 := by
  refine .after fun _ => .bind (parenthesizedCondition_low h) fun p hp => ?_
  refine .bind h.statement fun _ hb => .after fun _ => .pure ?_
  exact composed_low h (k := 0) (low_cons.mpr ⟨hp.1, low_cons.mpr ⟨hb, low_nil⟩⟩) hp.2

theorem doStatement_low : (doStatement below).Yields fun n => n.height ≤ M + 2 := by
  refine .after fun _ => .bind h.statement fun _ hb => .bind (expect_low _ _) fun _ hh => ?_
  refine .bind (parenthesizedCondition_low h) fun p hp => .bind (needed_low _ _) fun _ hh' => ?_
  refine .after fun _ => .pure (composed_low h (k := 0) ?_ ?_)
  · exact low_cons.mpr ⟨hb, low_cons.mpr ⟨hp.1, low_nil⟩⟩
  · exact low_append.mpr ⟨low_append.mpr ⟨hh, hp.2⟩, hh'⟩

/-- The first part of a `for` may be a function with a body. -/
theorem forStart_low :
    (forStart below).Yields fun p => Low (M + 5) p.1.toList ∧ Low 1 p.2 := by
  refine .after fun _ => .ite (.pure ⟨low_nil, low_nil⟩) (.after fun _ => .ite ?_ ?_)
  · exact .bind (declaration_low h) fun _ hn => .pure ⟨low_cons.mpr ⟨hn, low_nil⟩, low_nil⟩
  · refine .bind h.expression fun _ hn => .bind (needed_low _ _) fun _ hh => .pure ⟨?_, hh⟩
    exact low_cons.mpr ⟨by omega, low_nil⟩

/-- A `for` is two taller than its first part, so it is the tallest of the statements. -/
theorem forStatement_low : (forStatement below).Yields fun n => n.height ≤ M + 7 := by
  refine .after fun _ => .bind (needed_low _ _) fun _ ho => ?_
  refine .bind (forStart_low h) fun start hs => ?_
  refine .bind (optionalExpression_low h _) fun _ hc => .bind (needed_low _ _) fun _ hb => ?_
  refine .bind (optionalExpression_low h _) fun _ hstep => .bind (needed_low _ _) fun _ hh => ?_
  refine .bind h.statement fun _ hbody => .after fun _ => .pure (composed_low h (k := 5) ?_ ?_)
  · simp only [NodeKind.children, low_append, low_cons]
    exact ⟨⟨⟨hs.1, hc.mono (by omega)⟩, hstep.mono (by omega)⟩, by omega, low_nil⟩
  · exact low_append.mpr ⟨low_append.mpr ⟨low_append.mpr ⟨ho, hs.2⟩, hb⟩, hh⟩

/-- A range is one taller than its bounds. -/
theorem spanned_low : (spanned below).Yields fun n => n.height ≤ M + 1 := by
  refine .bind h.expression fun _ hl => .after fun _ => .ite ?_ (.pure (by omega))
  refine .bind h.expression fun _ hu => .pure (Node.height_new_le ?_)
  exact low_cons.mpr ⟨hl, low_cons.mpr ⟨hu, low_nil⟩⟩

/-- The variable of the loop is the tallest part. -/
theorem foreachStatement_low : (foreachStatement below).Yields fun n => n.height ≤ M + 4 := by
  have hbinding : (foreachBinding below).Yields fun n => n.height ≤ M + 2 :=
    .after fun _ => .ite (bareVariable_low h) (h.expression.mono fun _ hn => by omega)
  refine .after fun _ => .bind (needed_low _ _) fun _ ho => .bind hbinding fun _ hv => ?_
  refine .bind (needed_low _ _) fun _ hb => .bind (spanned_low h) fun _ hi => ?_
  refine .bind (needed_low _ _) fun _ hh => .bind h.statement fun _ hbody => .after fun _ => ?_
  refine .pure (composed_low h (k := 2) ?_ (low_append.mpr ⟨low_append.mpr ⟨ho, hb⟩, hh⟩))
  refine low_cons.mpr ⟨hv, low_cons.mpr ⟨?_, low_cons.mpr ⟨?_, low_nil⟩⟩⟩ <;> omega

/-- Statements under a label may have a hole each. -/
theorem labelledCase_low : (labelledCase below).Yields fun n => n.height ≤ M + 3 := by
  have hM := h.four_le
  have hvalues (word : Token) :
      (caseValues below word).Yields fun o => Low (M + 1) o.toList :=
    .ite (.bind (spanned_low h) fun _ hn => .pure (low_cons.mpr ⟨hn, low_nil⟩)) (.pure low_nil)
  refine .after fun word => .bind (hvalues word) fun _ hl => .bind (needed_low _ _) fun _ hh => ?_
  refine .bind (.manyUntil (guarded_low (by omega) h.statement)) fun _ hs => .after fun _ => ?_
  exact .pure (composed_low h (k := 1) (low_append.mpr ⟨hl, hs⟩) hh)

/-- A switch is two taller than its cases. -/
theorem switchStatement_low : (switchStatement below).Yields fun n => n.height ≤ M + 5 := by
  have hcase : (switchCase below).Yields fun n => n.height ≤ M + 3 := by
    refine .after fun kind => ?_
    split
    · exact labelledCase_low h
    · exact labelledCase_low h
    · exact (wrongCurrent_low _).mono fun _ hn => by omega
  have hbody : (switchBody below).Yields fun p => Low (M + 3) p.1 ∧ Low 1 p.2 := by
    refine .bind (expect_low _ _) fun _ ho => .ite (.pure ⟨low_nil, ho⟩) ?_
    refine .bind (.manyUntil hcase) fun _ hc => .bind (needed_low _ _) fun _ hh => .pure ⟨hc, ?_⟩
    exact low_append.mpr ⟨ho, hh⟩
  refine .after fun _ => .bind (parenthesizedCondition_low h) fun p hp => ?_
  refine .bind hbody fun body hb => .after fun _ => .pure (composed_low h (k := 3) ?_ ?_)
  · exact low_cons.mpr ⟨by omega, hb.1⟩
  · exact low_append.mpr ⟨hp.2, hb.2⟩

/-- The variable of the handler is the tallest part. -/
theorem tryStatement_low : (tryStatement below).Yields fun n => n.height ≤ M + 4 := by
  -- the variable in parentheses, where one of these may be lacking
  have hhandler : (handlerVariable below).Yields fun p => Low (M + 2) p.1.toList ∧ Low 1 p.2 := by
    refine .after fun _ => .ite (.bind (bareVariable_low h) fun _ hn => ?_)
      (.pure ⟨low_nil, low_nil⟩)
    exact .bind (needed_low _ _) fun _ hh => .pure ⟨low_cons.mpr ⟨hn, low_nil⟩, hh⟩
  refine .after fun _ => .bind h.statement fun _ hbody => .after fun _ => .ite ?_ ?_
  · refine .bind hhandler fun p hp => .bind h.statement fun _ hn => .after fun _ => .pure ?_
    refine composed_low h (k := 2) ?_ hp.2
    simp only [NodeKind.children, low_append, low_cons]
    exact ⟨⟨⟨by omega, low_nil⟩, hp.1⟩, by omega, low_nil⟩
  · refine .bind (hole_low _) fun _ hn => .after fun _ => .pure ?_
    refine Node.height_new_le (low_cons.mpr ⟨by omega, ?_⟩)
    exact low_cons.mpr ⟨by omega, low_nil⟩

theorem returnStatement_low : (returnStatement below).Yields fun n => n.height ≤ M + 2 := by
  refine .after fun _ => .bind (optionalExpression_low h _) fun _ hv => ?_
  exact .bind (needed_low _ _) fun _ hh => .after fun _ => .pure (composed_low h (k := 0) hv hh)

/-- **A statement is at most seven taller** than what the level below reads. -/
theorem statement_low : (statement below).Yields fun n => n.height ≤ M + 7 := by
  refine .after fun kind => ?_
  split
  · exact (block_low h).mono fun _ hn => by omega
  · exact (ifStatement_low h).mono fun _ hn => by omega
  · exact (whileStatement_low h).mono fun _ hn => by omega
  · exact (doStatement_low h).mono fun _ hn => by omega
  · exact forStatement_low h
  · exact (foreachStatement_low h).mono fun _ hn => by omega
  · exact (switchStatement_low h).mono fun _ hn => by omega
  · exact (tryStatement_low h).mono fun _ hn => by omega
  · exact (returnStatement_low h).mono fun _ hn => by omega
  · exact (wordStatement_low rfl).mono fun _ hn => by omega
  · exact (wordStatement_low rfl).mono fun _ hn => by omega
  · exact emptyStatement_low.mono fun _ hn => by omega
  · exact (member_low h).mono fun _ hn => by omega
  · refine .ite ((declaration_low h).mono fun _ hn => by omega) ?_
    exact (expressionStatement_low h).mono fun _ hn => by omega

omit h in
/-- A level deeper, nothing is added but the hole of what is too deep. -/
theorem nested_low {p : Parse Node} {k : Nat} (e : Expected) (hk : 1 ≤ k)
    (h : p.Yields fun n => n.height ≤ k) : (nested e p).Yields fun n => n.height ≤ k := by
  refine .after fun _ => .ite ((refuse_low e).mono fun _ hn => Nat.le_trans hn hk) ?_
  exact .after fun _ => .bind h fun _ hn => .after fun _ => .after fun _ => .pure hn

end Parse

namespace Nested

variable {below : Nested} {M : Nat}

/-- Below the deepest level there are holes, which are within every bound. -/
theorem low_none : Nested.none.Low maxHeight := by
  have hrefuse (e : Expected) : (Parse.refuse e).Yields fun n => n.height ≤ maxHeight :=
    (Parse.refuse_low e).mono fun _ hn => Nat.le_trans hn (by decide)
  exact ⟨hrefuse _, hrefuse _, hrefuse _, hrefuse _, fun _ => hrefuse _, hrefuse _, hrefuse _,
    Nat.le_refl _⟩

/-- A level adds as much as a statement may: seven. -/
theorem Low.above (h : below.Low M) : below.above.Low (M + 7) := by
  -- every production of the level stays below what a statement may add
  have hnested {p : Parse Node} (e : Expected) {k : Nat} (hk : k ≤ M + 7)
      (hp : p.Yields fun n => n.height ≤ k) :
      (Parse.nested e p).Yields fun n => n.height ≤ M + 7 :=
    Parse.nested_low e (by omega) (hp.mono fun _ hn => Nat.le_trans hn hk)
  constructor
  case statement => exact hnested _ (Nat.le_refl _) (Parse.statement_low h)
  case member => exact hnested _ (by omega) (Parse.member_low h)
  case expression => exact hnested _ (by omega) (Parse.expression_low h)
  case alternative => exact hnested _ (by omega) (Parse.alternative_low h)
  case operand => exact fun loosest => hnested _ (by omega) (Parse.operand_low h loosest)
  case unary => exact hnested _ (by omega) (Parse.unary_low h)
  case type => exact hnested _ (by omega) (Parse.type_low h)
  case maxHeight_le => exact Nat.le_trans h.maxHeight_le (Nat.le_add_right _ _)

/-- With each level the bound is raised by seven. -/
theorem low_levels (n : Nat) : (levels n).Low (maxHeight + 7 * n) := by
  induction n with
  | zero => exact low_none
  | succ n ih => exact ih.above

end Nested

/-- The constructs of a file are at most so tall. -/
theorem Parse.members_low (until_ : TokenKind) :
    (members until_).Yields (Low (maxHeight + 7 * maxDepth + 6)) :=
  .manyUntil (guarded_low (by omega) (member_low (Nested.low_levels maxDepth)))

end MudEdit
