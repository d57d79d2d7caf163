import MudEdit.Grammar.Levels
import MudEdit.Proofs.Grammar.Control

/-!
# The whole grammar is read by the rules

Level by level: below the deepest there are only holes, and a level is sound if the one
below it is. So a file is a reading of its tokens, and one that goes on to the token or
the end that stops it.
-/

namespace MudEdit

variable {r : Reach} {c : Cursor}

theorem Cursor.atEnd_of_type (h : c.kind.isTypeWord = true ∨ c.kind = .sign .leftParen) :
    c.atEnd = false := by
  refine atEnd_of_kind fun hn => ?_
  rw [hn] at h
  exact absurd h (by simp [TokenKind.isTypeWord])

namespace Parse

variable {production : Parse Node}

theorem nested_reads (e : Expected)
    (h : ∀ c, production.Ensures c fun n c' => Reads r c [n] [] c') :
    (nested e production).Ensures c fun n c' => Reads r c [n] [] c' := by
  unfold nested
  refine .depth ?_
  split
  · exact (refuse_reads e).mono fun _ _ h => .of_flat h.1
  · exact .setDepth ((h _).bind fun n c' hr => .depth (.setDepth (.pure (.deeper hr))))

theorem nested_takes (e : Expected) (he : c.atEnd = false)
    (h : ∀ depth, production.Ensures { c with depth } fun _ c' => c'.left < c.left) :
    (nested e production).Ensures c fun _ c' => c'.left < c.left := by
  unfold nested
  refine .depth ?_
  split
  · exact (refuse_reads e).mono fun _ _ h => h.2 he
  · exact .setDepth ((h _).bind fun n c' hl => .depth (.setDepth (.pure hl)))

end Parse

namespace Nested

theorem none_sound : Nested.none.Sound := by
  have h : ∀ r e c, (Parse.refuse e).Ensures c fun n c' => Reads r c [n] [] c' :=
    fun r e c => (Parse.refuse_reads e).mono fun _ _ h => h.1.of_flat
  refine ⟨h _ _, h _ _, h _ _, h _ _, fun _ => h _ _, h _ _, h _ _, ?_⟩
  exact fun c hk => (Parse.refuse_reads _).mono fun _ _ h => h.2 (Cursor.atEnd_of_type hk)

open Parse in
theorem above_sound {below : Nested} (hb : below.Sound) : below.above.Sound where
  statement _ := nested_reads _ fun _ => statement_reads hb
  member _ := nested_reads _ fun _ => member_reads hb
  expression _ := nested_reads _ fun _ => expression_reads hb
  alternative _ := nested_reads _ fun _ => alternative_reads hb
  operand loosest _ := nested_reads _ fun _ => operand_reads hb loosest
  unary _ := nested_reads _ fun _ => unary_reads hb
  type _ := nested_reads _ fun _ => (type_reads hb).mono fun _ _ h => h.1
  type_takes _ hk := nested_takes _ (Cursor.atEnd_of_type hk) fun _ =>
    (type_reads hb).mono fun _ _ h => h.2 hk

theorem levels_sound : ∀ n, (levels n).Sound
  | 0 => none_sound
  | n + 1 => above_sound (levels_sound n)

end Nested

/-- **A file is read construct by construct**, up to a token that stops it or up to its end. -/
theorem Parse.members_ensures {I : List Node → Cursor → Prop} {until_ : TokenKind}
    (turn : ∀ ns c n c', I ns c → c.atEnd = false → Reads .taken c [n] [] c' → I (ns ++ [n]) c')
    (h : I [] c) : (members until_).Ensures c fun ns c' =>
      I ns c' ∧ (c'.kind = until_ ∨ c'.atEnd = true) := by
  refine (Ensures.manyUntil (I := I) ?_ [] c h).mono ?_
  · intro ns c₁ hi _ he
    refine (guarded_reads he (member_reads (Nested.levels_sound _))).mono ?_
    intro n c₂ hp
    obtain ⟨hr, hl⟩ := hp
    exact ⟨turn ns c₁ n c₂ hi he hr, hl⟩
  · intro ns c' hp
    obtain ⟨hi, hs⟩ := hp
    exact ⟨hi, hs.imp_left beq_iff_eq.mp⟩

/-- So all of it is one reading. -/
theorem Parse.members_reads (until_ : TokenKind) :
    (members until_).Ensures c fun ns c' =>
      Reads .taken c ns [] c' ∧ (c'.kind = until_ ∨ c'.atEnd = true) := by
  -- what has been read so far is one reading, and every turn adds to it
  refine members_ensures (I := fun ns c' => Reads .taken c ns [] c') ?_ .nil
  intro ns c₁ n c₂ h _ hr
  simpa using h.append hr

end MudEdit
