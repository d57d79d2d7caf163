import Mathlib.Data.List.Find
import Mathlib.Data.List.TakeWhile
import MudEdit.Proofs.Text.Stream

/-!
# Runs, prefixes and occurrences

How far a run goes and where a literal occurs depends on no more of the text than what is taken,
and on the character that ends it.
-/

namespace MudEdit

variable {c sep : Char} {cs rest lit : List Char} {p : Char → Bool}

/-! ## Runs and prefixes -/

/-- A run ends at a character without the property. -/
theorem takeWhile_append_stop (hsep : p sep = false) (cs rest : List Char) :
    (cs ++ sep :: rest).takeWhile p = cs.takeWhile p := by
  induction cs with
  | nil => simp [hsep]
  | cons c cs ih => rw [List.cons_append, List.takeWhile_cons, List.takeWhile_cons, ih]

theorem dropWhile_append_stop (hsep : p sep = false) (cs rest : List Char) :
    (cs ++ sep :: rest).dropWhile p = cs.dropWhile p ++ sep :: rest := by
  induction cs with
  | nil => simp [hsep]
  | cons c cs ih =>
    rw [List.cons_append, List.dropWhile_cons, List.dropWhile_cons, ih]
    split <;> rfl

theorem take_length_takeWhile (p : Char → Bool) (cs : List Char) :
    cs.take (cs.takeWhile p).length = cs.takeWhile p :=
  (List.prefix_iff_eq_take.mp (List.takeWhile_prefix p)).symm

/-- More than a run does not change it. -/
theorem takeWhile_take {n : Nat} (hn : (cs.takeWhile p).length ≤ n) :
    (cs.take n).takeWhile p = cs.takeWhile p := by
  rw [← List.take_takeWhile, List.take_of_length_le hn]

theorem drop_length_takeWhile (p : Char → Bool) (cs : List Char) :
    cs.drop (cs.takeWhile p).length = cs.dropWhile p := by
  have hsplit := List.take_append_drop (cs.takeWhile p).length cs
  rw [take_length_takeWhile] at hsplit
  exact List.append_cancel_left (hsplit.trans List.takeWhile_append_dropWhile.symm)

theorem head?_dropWhile {x : Char} (h : x ∈ (cs.dropWhile p).head?) : p x = false := by
  have hnot := List.head?_dropWhile_not p cs
  rwa [Option.mem_def.mp h] at hnot

theorem head?_of_take {x : Char} {n : Nat} (h : x ∈ (cs.take n).head?) : x ∈ cs.head? := by
  rw [List.head?_take] at h
  split at h
  · exact absurd h (by simp)
  · exact h

/-- A run is where characters with the property end before one without it. -/
theorem run_append {run : List Char} (hrun : ∀ c ∈ run, p c = true)
    (hrest : ∀ c ∈ rest.head?, p c = false) :
    (run ++ rest).takeWhile p = run ∧ (run ++ rest).dropWhile p = rest := by
  rw [List.takeWhile_append_of_pos hrun, List.dropWhile_append_of_pos hrun]
  cases rest with
  | nil => exact ⟨List.append_nil run, rfl⟩
  | cons c cs =>
    have hc : ¬p c = true := by simp [hrest c rfl]
    rw [List.takeWhile_cons_of_neg hc, List.dropWhile_cons_of_neg hc]
    exact ⟨List.append_nil run, rfl⟩

/-- A character of two texts together is in the first or in the second one. -/
theorem split_append {xs ys before after : List Char} (h : xs ++ ys = before ++ c :: after) :
    (∃ more, xs = before ++ c :: more) ∨ ∃ more, before = xs ++ more ∧ ys = more ++ c :: after := by
  rcases List.append_eq_append_iff.mp h with ⟨more, hbefore, hys⟩ | ⟨more, hxs, hafter⟩
  · exact .inr ⟨more, hbefore, hys⟩
  · cases more with
    | nil => exact .inr ⟨[], by simpa using hxs.symm, hafter.symm⟩
    | cons d more =>
      obtain ⟨rfl, -⟩ := List.cons.inj hafter
      exact .inl ⟨more, hxs⟩

/-- A literal is not continued by a character that it does not have. -/
theorem isPrefixOf_append_stop (hsep : sep ∉ lit) (cs rest : List Char) :
    lit.isPrefixOf (cs ++ sep :: rest) = lit.isPrefixOf cs := by
  induction lit generalizing cs with
  | nil => simp
  | cons a lit ih =>
    rw [List.mem_cons, not_or] at hsep
    cases cs with
    | nil => simp [List.isPrefixOf, Ne.symm hsep.1]
    | cons c cs => rw [List.cons_append, List.isPrefixOf, List.isPrefixOf, ih hsep.2]

theorem isPrefixOf_take {n : Nat} (h : lit.isPrefixOf cs = true) (hn : lit.length ≤ n) :
    lit.isPrefixOf (cs.take n) = true := by
  obtain ⟨rest, rfl⟩ := List.isPrefixOf_iff_prefix.mp h
  rw [List.take_append, List.take_of_length_le hn]
  exact List.isPrefixOf_iff_prefix.mpr (List.prefix_append ..)

theorem isPrefixOf_of_take {n : Nat} (h : lit.isPrefixOf (cs.take n) = true) :
    lit.isPrefixOf cs = true := by
  rw [List.isPrefixOf_iff_prefix] at h ⊢
  exact h.trans (List.take_prefix ..)

namespace Text

/-- Where a literal first occurs it ends, and what follows does not matter. -/
theorem occurrence?_take {n : Nat} (h : occurrence? lit cs = some n) :
    occurrence? lit (cs.take (n + lit.length)) = some n ∧ n + lit.length ≤ cs.length := by
  induction cs generalizing n with
  | nil =>
    unfold occurrence? at h
    split at h
    · rename_i hlit
      obtain rfl := Option.some.inj h
      rw [List.isEmpty_iff.mp hlit]
      exact ⟨rfl, Nat.le_refl _⟩
    · exact absurd h (by simp)
  | cons c cs ih =>
    rw [occurrence?] at h
    split at h
    · rename_i hpre
      obtain rfl := Option.some.inj h
      have hle := (List.isPrefixOf_iff_prefix.mp hpre).length_le
      rw [Nat.zero_add]
      refine ⟨?_, hle⟩
      have htake := isPrefixOf_take hpre (Nat.le_refl _)
      cases hlit : (c :: cs).take lit.length with
      | nil =>
        rw [hlit] at htake
        have hnil : lit = [] := by simpa using htake
        simp [hnil, occurrence?]
      | cons d ds =>
        rw [hlit] at htake
        rw [occurrence?, if_pos htake]
    · -- it does not start here, and less of the text does not make it start here
      rename_i hpre
      obtain ⟨m, hm, rfl⟩ := Option.map_eq_some_iff.mp h
      obtain ⟨ih, hle⟩ := ih hm
      rw [Nat.add_right_comm, List.take_succ_cons, occurrence?, ih, if_neg]
      · exact ⟨rfl, Nat.succ_le_succ hle⟩
      · intro hpre'
        rw [← List.take_succ_cons] at hpre'
        exact hpre (isPrefixOf_of_take hpre')

theorem occurrence?_append {n : Nat} (h : occurrence? lit cs = some n) (rest : List Char) :
    occurrence? lit (cs ++ rest) = some n := by
  induction cs generalizing n with
  | nil =>
    unfold occurrence? at h
    split at h
    · rename_i hlit
      obtain rfl := Option.some.inj h
      rw [List.isEmpty_iff.mp hlit]
      cases rest <;> rfl
    · exact absurd h (by simp)
  | cons c cs ih =>
    have hle := (occurrence?_take h).2
    rw [occurrence?] at h
    rw [List.cons_append, occurrence?]
    split at h
    · rename_i hpre
      rw [List.isPrefixOf_iff_prefix] at hpre
      have hpre' : lit <+: c :: (cs ++ rest) := hpre.trans (List.prefix_append (c :: cs) rest)
      rw [if_pos (List.isPrefixOf_iff_prefix.mpr hpre')]
      exact h
    · rename_i hpre
      obtain ⟨m, hm, rfl⟩ := Option.map_eq_some_iff.mp h
      rw [ih hm, if_neg]
      · rfl
      · -- the literal fits in before the rest
        intro hpre'
        rw [List.isPrefixOf_iff_prefix] at hpre hpre'
        exact hpre (List.prefix_of_prefix_length_le hpre' (List.prefix_append (c :: cs) rest)
          (by omega))

/-- What is taken may go on behind the literal. -/
theorem occurrence?_take_of_le {k n : Nat} (h : occurrence? lit cs = some k)
    (hn : k + lit.length ≤ n) : occurrence? lit (cs.take n) = some k := by
  have hsplit := List.take_append_drop (k + lit.length) (cs.take n)
  rw [List.take_take, Nat.min_eq_left hn] at hsplit
  rw [← hsplit]
  exact occurrence?_append (occurrence?_take h).1 _

theorem splitBytes?_append (cs rest : List Char) :
    splitBytes? (byteSize cs) (cs ++ rest) = some (cs, rest) := by
  induction cs with
  | nil => cases rest <;> simp [splitBytes?]
  | cons c cs ih =>
    obtain ⟨n, hn⟩ := Nat.exists_eq_succ_of_ne_zero (Nat.ne_of_gt c.utf8Size_pos)
    have hsize : byteSize (c :: cs) = (n + byteSize cs) + 1 := by
      rw [byteSize_cons, hn]
      omega
    have hrest : n + byteSize cs + 1 - c.utf8Size = byteSize cs := by omega
    rw [hsize, List.cons_append, splitBytes?, if_pos (by omega), hrest, ih]
    rfl

/-- A text is cut only where a character ends. -/
theorem of_splitBytes? {n : Nat} {cs head tail : List Char}
    (h : splitBytes? n cs = some (head, tail)) : cs = head ++ tail ∧ byteSize head = n := by
  induction cs generalizing n head with
  | nil =>
    cases n with
    | zero =>
      obtain ⟨rfl, rfl⟩ := Prod.mk.inj (Option.some.inj h)
      exact ⟨rfl, rfl⟩
    | succ n => cases h
  | cons c cs ih =>
    cases n with
    | zero =>
      obtain ⟨rfl, rfl⟩ := Prod.mk.inj (Option.some.inj h)
      exact ⟨rfl, rfl⟩
    | succ n =>
      rw [splitBytes?] at h
      split at h
      -- the character fits into the count, so it stands at the head of the first part
      · obtain ⟨⟨front, back⟩, hsplit, heq⟩ := Option.map_eq_some_iff.mp h
        obtain ⟨rfl, rfl⟩ := Prod.mk.inj heq
        obtain ⟨rfl, hsize⟩ := ih hsplit
        refine ⟨rfl, ?_⟩
        rw [byteSize_cons, hsize]
        omega
      · cases h

/-- What stands between two offsets of a text. -/
theorem slice_append {s : Stream} {before word after : List Char}
    (h : s.chars = before ++ (word ++ after)) :
    s.slice (byteSize before) (byteSize before + byteSize word) = word := by
  have hsize : s.size = byteSize before + byteSize word + byteSize after := by
    rw [Stream.size_eq, h, byteSize_append, byteSize_append, Nat.add_assoc]
  have hstop : splitBytes? (byteSize before + byteSize word) s.chars =
      some (before ++ word, after) := by
    rw [h, ← byteSize_append, ← List.append_assoc, splitBytes?_append]
  rw [Stream.slice, Nat.min_eq_left (by omega), Nat.min_eq_left (by omega), slice?, hstop]
  simp only [Option.bind_eq_bind, Option.bind_some, splitBytes?_append]
  rfl

end Text

end MudEdit
