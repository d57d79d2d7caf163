import MudEdit.Program.Lookup

/-!
# Instructions in source order

The instructions of a scope stay in source order, whatever order they are recorded in, and
a declaration is found where it begins. So what is declared before an offset is a first part
of the scope.
-/

namespace MudEdit

namespace Scope

variable {s : Scope} {offset : Nat} {i : Instruction} {x : Nat × Instruction}
  {xs : List (Nat × Instruction)}

/-- The instructions are in source order, and declarations stand where they begin. -/
structure Ordered (s : Scope) : Prop where
  sorted : s.instructions.Pairwise (·.1 < ·.1)
  place : ∀ at_ d, (at_, .define d) ∈ s.instructions → d.begin = at_

/-- A scope without anything in it is in order. -/
theorem ordered_fresh (begin stop : Nat) (parent : Option Nat) :
    (fresh begin stop parent).Ordered := ⟨.nil, fun _ _ h => absurd h (by simp [fresh])⟩

theorem Ordered.of_eq {s' : Scope} (h : s.Ordered) (heq : s'.instructions = s.instructions) :
    s'.Ordered := by
  obtain ⟨hsorted, hplace⟩ := h
  rw [← heq] at hsorted hplace
  exact ⟨hsorted, hplace⟩

/-- Nothing else comes in than what is inserted. -/
theorem mem_insertAt (h : x ∈ insertAt offset i xs) : x = (offset, i) ∨ x ∈ xs := by
  fun_induction insertAt offset i xs with
  | case1 => exact .inl (List.mem_singleton.mp h)
  | case2 => exact List.mem_cons.mp h
  | case3 => exact .inr h
  | case4 at_ j rest _ _ ih =>
    rcases List.mem_cons.mp h with h | h
    · exact .inr (h ▸ List.mem_cons_self)
    · exact (ih h).imp_right (List.mem_cons_of_mem _)

/-- Nothing gets lost. -/
theorem subset_insertAt (offset : Nat) (i : Instruction) (xs : List (Nat × Instruction)) :
    xs ⊆ insertAt offset i xs := by
  fun_induction insertAt offset i xs with
  | case1 | case3 => simp
  | case2 => exact List.subset_cons_self ..
  | case4 _ _ _ _ _ ih => exact List.cons_subset_cons _ ih

/-- An instruction is recorded at an offset where there is none. -/
theorem mem_insertAt_self (h : ∀ x ∈ xs, x.1 ≠ offset) : (offset, i) ∈ insertAt offset i xs := by
  fun_induction insertAt offset i xs with
  | case1 | case2 => simp
  | case3 => exact absurd rfl (h _ List.mem_cons_self)
  | case4 _ _ _ _ _ ih =>
    exact List.mem_cons_of_mem _ (ih fun x hx => h x (List.mem_cons_of_mem _ hx))

/-- What is inserted comes to its place. -/
theorem sorted_insertAt (h : xs.Pairwise (·.1 < ·.1)) :
    (insertAt offset i xs).Pairwise (·.1 < ·.1) := by
  fun_induction insertAt offset i xs with
  | case1 => exact List.pairwise_singleton ..
  | case2 at_ j rest hlt =>
    refine List.pairwise_cons.mpr ⟨List.forall_mem_cons.mpr ⟨hlt, fun y hy => ?_⟩, h⟩
    exact Nat.lt_trans hlt ((List.pairwise_cons.mp h).1 y hy)
  | case3 => exact h
  | case4 at_ j rest hlt hne ih =>
    obtain ⟨hall, hrest⟩ := List.pairwise_cons.mp h
    refine List.pairwise_cons.mpr ⟨fun y hy => ?_, ih hrest⟩
    rcases mem_insertAt hy with rfl | hy
    · show at_ < offset
      omega
    · exact hall y hy

/-- A scope stays in order, as a definition is recorded where it begins. -/
theorem Ordered.record (h : s.Ordered) (hi : ∀ d, i = .define d → d.begin = offset) :
    (s.record offset i).Ordered where
  sorted := sorted_insertAt h.sorted
  place at_ d hd := by
    rcases mem_insertAt hd with heq | hd
    · obtain ⟨rfl, hi'⟩ := Prod.mk.inj heq
      exact hi d hi'.symm
    · exact h.place at_ d hd

/-- In order, what comes before a place is all that begins before it. -/
theorem takeWhile_eq_filter (h : xs.Pairwise (·.1 < ·.1)) :
    xs.takeWhile (·.1 < offset) = xs.filter (·.1 < offset) := by
  induction xs with
  | nil => rfl
  | cons x xs ih =>
    obtain ⟨hall, hrest⟩ := List.pairwise_cons.mp h
    by_cases hx : x.1 < offset
    · rw [List.takeWhile_cons_of_pos (by simpa using hx),
        List.filter_cons_of_pos (by simpa using hx), ih hrest]
    · rw [List.takeWhile_cons_of_neg (by simpa using hx),
        List.filter_cons_of_neg (by simpa using hx)]
      -- all that follows begins later still
      refine (List.filter_eq_nil_iff.mpr fun y hy => ?_).symm
      have := hall y hy
      simp only [decide_eq_true_eq]
      omega

/-- With instructions recorded one after the other. -/
def insertAll (qs xs : List (Nat × Instruction)) : List (Nat × Instruction) :=
  qs.foldl (fun xs q => insertAt q.1 q.2 xs) xs

theorem definitionsBefore_subset (s : Scope) (offset : Nat) :
    s.definitionsBefore offset ⊆ s.definitions :=
  ((List.takeWhile_sublist _).filterMap _).subset

/-- What is declared before an offset. -/
theorem mem_definitionsBefore (h : s.Ordered) {d : Definition} :
    d ∈ s.definitionsBefore offset ↔ d ∈ s.definitions ∧ d.begin < offset := by
  rw [definitionsBefore, takeWhile_eq_filter h.sorted, definitions]
  simp only [List.mem_filterMap, List.mem_filter, decide_eq_true_eq]
  -- a definition stands where it begins
  have hdef : ∀ {at_ : Nat} {j : Instruction}, (at_, j) ∈ s.instructions →
      j.definition? = some d → d.begin = at_ := by
    intro at_ j hj hd
    cases j with
    | define d' =>
      obtain rfl : d' = d := Option.some.inj hd
      exact h.place at_ d' hj
    | includeFile | inheritFile => exact absurd hd (by simp [Instruction.definition?])
  constructor
  · rintro ⟨⟨at_, j⟩, ⟨hj, hlt⟩, hd⟩
    exact ⟨⟨_, hj, hd⟩, hdef hj hd ▸ hlt⟩
  · rintro ⟨⟨⟨at_, j⟩, hj, hd⟩, hlt⟩
    exact ⟨_, ⟨hj, hdef hj hd ▸ hlt⟩, hd⟩

end Scope

namespace Program

theorem scope_modifyScope (p : Program) (id j : Nat) (f : Scope → Scope) :
    (p.modifyScope id f).scope j =
      if id = j ∧ j < p.scopes.size then f (p.scope j) else p.scope j := by
  obtain ⟨stamp, fileName, scopes, included, inherited⟩ := p
  simp only [modifyScope, scope, Program.scopes, Array.getD_eq_getD_getElem?, Array.getElem?_modify]
  by_cases hj : j < scopes.size
  · by_cases hid : id = j <;> simp [hj, hid]
  · simp [hj]

theorem scope_of_size_le {p : Program} {i : Nat} (h : p.scopes.size ≤ i) :
    p.scope i = default := by
  rw [scope, Array.getD_eq_getD_getElem?, Array.getElem?_eq_none h]
  rfl

theorem scope_openScope (p : Program) (parent begin stop j : Nat) :
    (p.openScope parent begin stop).scope j =
      if j = p.scopes.size then .fresh begin stop (some parent)
      else if parent = j ∧ j < p.scopes.size then
        { p.scope j with children := (p.scope j).children ++ [p.scopes.size] }
      else p.scope j := by
  obtain ⟨stamp, fileName, scopes, included, inherited⟩ := p
  simp only [openScope, scope, Program.scopes, Array.getD_eq_getD_getElem?, Array.getElem?_push,
    Array.size_modify, Array.getElem?_modify]
  rcases Nat.lt_trichotomy j scopes.size with hj | rfl | hj
  · by_cases hparent : parent = j <;> simp [hj, Nat.ne_of_lt hj, hparent]
  · simp
  · simp [Nat.ne_of_gt hj, Nat.not_lt_of_gt hj]

/-- A scope that is opened is empty, and nothing else is recorded. -/
theorem instructions_openScope (p : Program) (parent begin stop j : Nat) :
    ((p.openScope parent begin stop).scope j).instructions = (p.scope j).instructions := by
  rw [scope_openScope]
  split
  · rename_i hj
    rw [scope_of_size_le (Nat.le_of_eq hj.symm)]
    rfl
  · split <;> rfl

@[simp] theorem size_modifyScope (p : Program) (id : Nat) (f : Scope → Scope) :
    (p.modifyScope id f).scopes.size = p.scopes.size := by
  cases p; simp [modifyScope, scopes]

@[simp] theorem size_openScope (p : Program) (parent begin stop : Nat) :
    (p.openScope parent begin stop).scopes.size = p.scopes.size + 1 := by
  cases p; simp [openScope, scopes]

/-! ## Programs with the same scopes -/

variable {p q : Program}

theorem scopesFrom_congr (h : ∀ id, q.scope id = p.scope id) (id : Nat) :
    q.scopesFrom id = p.scopesFrom id := by
  induction id using Nat.strongRecOn with
  | ind id ih =>
    rw [scopesFrom, scopesFrom.eq_def p, h]
    split
    · split
      · rw [ih _ ‹_›]
      · rfl
    · rfl

theorem ownNamed_congr (h : ∀ id, q.scope id = p.scope id) (name : String) (offset : Nat) :
    q.ownNamed name offset = p.ownNamed name offset := by
  funext id
  rw [ownNamed, h, ownNamed]

end Program

end MudEdit
