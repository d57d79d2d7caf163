import MudEdit.Proofs.Forest.Mode
import MudEdit.Proofs.Forest.Span
import MudEdit.Proofs.Grammar.Recursion
import MudEdit.Proofs.Grammar.Turns

/-!
# The run over a text

Reading a text takes each of its significant tokens once and in order, and stops at its
end with nothing left open. Along the way no recursion is cut short but by the depth, no
loop stalls, and no production takes the end of the text: all that a production does to
its cursor is to move it over tokens that stand ahead, and the end does not stand there.

Between two constructs of the file a reading may be stopped and taken up again. The loop at
the top level looks at nothing but its cursor, so the turns before a stop and those after it
are the turns of a loop that does not stop there.
-/

namespace MudEdit

variable {mode : Mode} {text : String} {c : Cursor}

/-- Wherever it is read, the production takes only tokens that stand ahead. -/
def Parse.TakesAhead {α : Type} (p : Parse α) : Prop :=
  ∀ c, p.Ensures c fun _ c' => ∃ ts, c.Takes ts c'

theorem Parse.takesAhead_of_reads {r : Reach} {p : Parse Node}
    (h : ∀ c, p.Ensures c fun n c' => Reads r c [n] [] c') : p.TakesAhead := by
  intro c
  exact (h c).mono fun _ _ h => h.takes

/-- The productions of a level. -/
inductive Nested.Has (level : Nested) : Parse Node → Prop where
  | statement : level.Has level.statement
  | member : level.Has level.member
  | expression : level.Has level.expression
  | alternative : level.Has level.alternative
  | operand (loosest : Nat) : level.Has (level.operand loosest)
  | unary : level.Has level.unary
  | type : level.Has level.type

theorem Nested.Sound.takesAhead {level : Nested} {p : Parse Node} (hl : level.Sound)
    (h : level.Has p) : p.TakesAhead := by
  cases h with
  | statement => exact Parse.takesAhead_of_reads hl.statement
  | member => exact Parse.takesAhead_of_reads hl.member
  | expression => exact Parse.takesAhead_of_reads hl.expression
  | alternative => exact Parse.takesAhead_of_reads hl.alternative
  | operand loosest => exact Parse.takesAhead_of_reads (hl.operand loosest)
  | unary => exact Parse.takesAhead_of_reads hl.unary
  | type => exact Parse.takesAhead_of_reads hl.type

/-- **Reading ends, and takes every token once.** The productions are those of the recursive
grammar; on any text and at any level of nesting each loop runs by turns that take tokens, and
no production takes the end of the text. The tokens taken in the end are those of the text in
order, comments and its end apart; the cursor then stands at the end, at the depth it started
from. -/
theorem parse_consumes (mode : Mode) (text : String) :
    (Nested.levels maxDepth).above = Nested.levels maxDepth ∧
    (∀ n, Parse.LoopsUnroll (Nested.levels n)) ∧
    (∀ n p, (Nested.levels n).Has p → p.TakesAhead) ∧
    (finalReading mode text).cursor.taken.reverse =
      (lex mode text).filter Token.isSignificant ∧
    (finalReading mode text).cursor.ahead = [] ∧
    (finalReading mode text).cursor.current = .eof text.utf8ByteSize ∧
    (finalReading mode text).cursor.depth = 0 := by
  obtain ⟨-, ht, hend⟩ := parse_reads mode text
  refine ⟨Nested.above_levels, fun n => ?_, fun n p hp => ?_, ?_, ?_, ?_, ht.depth⟩
  · exact Parse.loops_unroll (Nested.levels_sound n)
  · exact (Nested.levels_sound n).takesAhead hp
  · -- nothing had been taken at the start
    rw [ht.taken]
    exact (congrArg List.reverse (List.append_nil _)).trans (List.reverse_reverse _)
  · exact Cursor.ahead_eq_nil hend
  · rw [Cursor.current_of_atEnd hend, ht.textEnd]
    rfl

/-! ## Stopping on the way -/

/-- **A loop that is stopped and goes on** makes the turns of one that is not stopped, if no token
ahead stops the second one. -/
theorem Parse.Many.resume {α : Type} {stops stops' : TokenKind → Bool} {item : Parse α}
    {c mid : Cursor} {as : List α} (h : Many stops item c as mid)
    (hitem : ∀ c, c.atEnd = false → item.Ensures c fun _ c' => ∃ ts, c.Takes ts c')
    (hahead : ∀ t ∈ c.ahead, stops' t.kind = false) : manyUntil stops' item c =
      (as ++ (manyUntil stops' item mid).1, (manyUntil stops' item mid).2) := by
  induction h with
  | done => rfl
  | @turn c after mid a as _ he hi hl _ ih =>
    obtain ⟨us, hus⟩ := Cursor.ahead_eq_cons he
    obtain ⟨ts, hts⟩ : ∃ ts, c.Takes ts after := by
      have htakes := hitem c he
      unfold Ensures at htakes
      rwa [hi] at htakes
    have hgo : stops' c.kind = false := hahead c.current (by simp [hus])
    have hafter : ∀ t ∈ after.ahead, stops' t.kind = false :=
      fun t ht => hahead t (by rw [hts.ahead]; exact List.mem_append_right ts ht)
    rw [manyUntil, if_neg (by simp [hgo, he]), hi]
    dsimp only
    rw [if_pos hl, ih hafter]
    rfl

namespace Window

theorem advanceBy_add (m n : Nat) (w : Window) :
    w.advanceBy (m + n) = (w.advanceBy m).advanceBy n := by
  induction m generalizing w with
  | zero => rw [Nat.zero_add]; rfl
  | succ m ih => rw [Nat.succ_add]; exact ih w.advance

end Window

namespace Reading

variable {r : Reading}

/-- The end of the text does not stand ahead. -/
def Proper (r : Reading) : Prop := ∀ t ∈ r.cursor.ahead, t.kind ≠ .eof

theorem start_proper (mode : Mode) (text : String) : (start mode text).Proper :=
  fun t ht => ((significant_spec mode text).2 t ht).kind_ne

/-- What is read up to a token has been taken from what stood ahead. -/
theorem readUntil_takes (r : Reading) (kind : TokenKind) :
    ∃ ts, r.cursor.Takes ts (r.readUntil kind).2.cursor :=
  (Parse.members_reads (c := r.cursor) kind).1.takes

theorem Proper.readUntil (h : r.Proper) (kind : TokenKind) : (r.readUntil kind).2.Proper := by
  obtain ⟨ts, ht⟩ := r.readUntil_takes kind
  exact fun t hm => h t (by rw [ht.ahead]; exact List.mem_append_right ts hm)

/-- **A stop changes nothing**: what is read up to it and what is read from there on is what is
read without it, and so is the reading that is left. -/
theorem Proper.resume (h : r.Proper) (kind : TokenKind) : r.readUntil .eof =
    ((r.readUntil kind).1 ++ ((r.readUntil kind).2.readUntil .eof).1,
      ((r.readUntil kind).2.readUntil .eof).2) := by
  have hmany := (Parse.loops_unroll (Nested.levels_sound maxDepth)).topLevel kind r.cursor
  have hitem (c : Cursor) (he : c.atEnd = false) :
      (Parse.guarded (Parse.member (.levels maxDepth))).Ensures c
        fun _ c' => ∃ ts, c.Takes ts c' := by
    have hmember : (Parse.member (.levels maxDepth)).Ensures c _ :=
      Parse.member_reads (Nested.levels_sound maxDepth)
    exact (Parse.guarded_reads he hmember).mono fun _ _ hr => hr.1.takes
  have hmembers : Parse.members .eof r.cursor =
      ((r.readUntil kind).1 ++ ((r.readUntil kind).2.readUntil .eof).1,
        ((r.readUntil kind).2.readUntil .eof).2.cursor) :=
    hmany.resume hitem fun t ht => beq_eq_false_iff_ne.mpr (h t ht)
  obtain ⟨hnodes, hcursor⟩ := Prod.ext_iff.mp hmembers
  have hwindow : r.window.advanceBy (r.cursor.left - (Parse.members .eof r.cursor).2.left) =
      ((r.readUntil kind).2.readUntil .eof).2.window := by
    obtain ⟨ts, hts⟩ := r.readUntil_takes kind
    obtain ⟨us, hus⟩ := (r.readUntil kind).2.readUntil_takes .eof
    have hleft := hts.left
    have hleft' := hus.left
    -- the window makes the steps of both parts
    have hsteps : r.cursor.left - ((r.readUntil kind).2.readUntil .eof).2.cursor.left =
        (r.cursor.left - (r.readUntil kind).2.cursor.left) +
          ((r.readUntil kind).2.cursor.left -
            ((r.readUntil kind).2.readUntil .eof).2.cursor.left) := by
      omega
    rw [hcursor, hsteps, Window.advanceBy_add]
    rfl
  exact Prod.ext hnodes (congrArg₂ Reading.mk hcursor hwindow)

/-- The constructs up to a token of each of the kinds in turn, each group with the reading that it
ends at. -/
def readInTurn : List TokenKind → Reading → List (List Node × Reading)
  | [], _ => []
  | kind :: kinds, r => r.readUntil kind :: readInTurn kinds (r.readUntil kind).2

/-- The groups up to the end of the text are the parts of what is read without a stop. -/
theorem Proper.readInTurn (h : r.Proper) (kinds : List TokenKind) :
    ((r.readInTurn (kinds ++ [.eof])).map Prod.fst).flatten = (r.readUntil .eof).1 ∧
      ((r.readInTurn (kinds ++ [.eof])).map Prod.snd).getLast? = some (r.readUntil .eof).2 := by
  induction kinds generalizing r with
  | nil => exact ⟨List.append_nil _, rfl⟩
  | cons kind kinds ih =>
    obtain ⟨hnodes, hlast⟩ := ih (h.readUntil kind)
    rw [h.resume kind, List.cons_append, Reading.readInTurn, List.map_cons, List.flatten_cons,
      hnodes, List.map_cons, List.getLast?_cons, hlast]
    exact ⟨rfl, rfl⟩

/-- The reading stands on a token of the kind or on the end of the text, and so does its window. -/
def StandsOn (kind : TokenKind) (r : Reading) : Prop :=
  r.window.current.kind = r.cursor.kind ∧ (r.cursor.kind = kind ∨ r.cursor.kind = .eof)

/-- The window shows the token that the grammar has come to. -/
theorem Aligned.current_kind {mode : Mode} {text : String} (h : r.Aligned mode text) :
    r.window.current.kind = r.cursor.kind := by
  rw [h.shows.current, Cursor.kind, Cursor.current]
  cases r.cursor.ahead <;> rfl

/-- Each group ends at a token of its kind or at the end. -/
theorem Aligned.readInTurn {mode : Mode} {text : String} (h : r.Aligned mode text)
    (kinds : List TokenKind) :
    List.Forall₂ (fun kind stop => stop.2.StandsOn kind) kinds (r.readInTurn kinds) := by
  induction kinds generalizing r with
  | nil => exact .nil
  | cons kind kinds ih =>
    have hnext := readUntil_aligned h kind
    have hstop := (Parse.members_reads (c := r.cursor) kind).2
    exact .cons ⟨hnext.current_kind, hstop.imp_right Cursor.kind_of_atEnd⟩ (ih hnext)

end Reading

/-- **Reading can be stopped anywhere and taken up again.** Read up to a token of each of the kinds
in turn and then to its end, a text gives its constructs in groups. In the end the reading is the
one that there is without a stop, with the same comments and keywords, and each group ends where
the reading stands on a token of its kind or on the end of the text. -/
theorem parse_resumes (mode : Mode) (text : String) (kinds : List TokenKind) :
    let run := (Reading.start mode text).readInTurn (kinds ++ [.eof])
    (run.map Prod.snd).getLast? = some (finalReading mode text) ∧
    (finalReading mode text).finish (run.map Prod.fst).flatten = .parse mode text ∧
    List.Forall₂ (fun kind stop => stop.2.StandsOn kind) (kinds ++ [.eof]) run := by
  obtain ⟨hnodes, hlast⟩ := (Reading.start_proper mode text).readInTurn kinds
  refine ⟨hlast, ?_, (start_aligned mode text).readInTurn _⟩
  rw [hnodes]
  rfl

/-- A kind that the reading stands on already gives no constructs. -/
example : ((Reading.start .editor "int x; class a \x7b \x7d").readInTurn
    [.keyword .classWord, .keyword .classWord, .eof]).map (·.1.length) = [1, 0, 1] := by
  decide +kernel

end MudEdit
