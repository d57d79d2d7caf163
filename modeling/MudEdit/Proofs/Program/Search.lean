import MudEdit.Proofs.Program.Nesting

/-!
# Searching nested scopes

The search for a place goes down from the file's scope, each time into the last scope that
contains the place. Where scopes nest and are apart there is only one to go into, so the
search ends in the innermost scope around the place. A name is then looked for from there
outwards, and no scope around the place is passed over.
-/

namespace MudEdit

variable {p : Program} {tried : Nat → Nat → Prop} {offset fuel id q a b c : Nat}

theorem Scope.contains_iff {s : Scope} :
    s.contains offset = true ↔ s.begin < offset ∧ offset < s.stop := by
  simp [contains]

namespace Program

/-- The search goes into one of the scopes in a scope, which contains the offset. -/
theorem mem_of_find (hc : (p.scope q).children.reverse.find?
    (fun c => (p.scope c).contains offset) = some c) :
    c ∈ (p.scope q).children ∧ (p.scope c).contains offset = true :=
  ⟨List.mem_reverse.mp (List.mem_of_find?_eq_some hc), (List.find?_eq_some_iff_append.mp hc).1⟩

/-- The search ends where it starts or in a scope that contains the offset. -/
theorem descend_contains (p : Program) (offset fuel id : Nat) :
    p.descend offset fuel id = id ∨
      (p.scope (p.descend offset fuel id)).contains offset = true := by
  fun_induction Program.descend p offset fuel id with
  | case1 => exact .inl rfl
  | case2 fuel id c hc ih =>
    refine .inr (ih.elim (fun heq => ?_) fun hcon => hcon)
    rw [heq]
    exact (mem_of_find hc).2
  | case3 => exact .inl rfl

end Program

namespace Outline.Rooted

variable (h : p.outline.Rooted)
include h

theorem pos_scopes : 0 < p.scopes.size := by simpa using h.pos

theorem child (hc : c ∈ (p.scope q).children) :
    q < c ∧ c < p.scopes.size ∧ (p.scope c).parent = some q := by
  obtain ⟨hlt, hsize, hparent⟩ := h.children q c (by rw [Program.frame_outline]; exact hc)
  rw [Program.size_outline] at hsize
  rw [Program.frame_outline] at hparent
  exact ⟨hlt, hsize, hparent⟩

/-! ### The scopes around a scope -/

theorem scopesFrom_root : p.scopesFrom 0 = [0] := by
  have hroot := h.root
  rw [Program.frame_outline] at hroot
  have hp : (p.scope 0).parent = none := hroot
  rw [Program.scopesFrom, hp]

theorem scopesFrom_child (hc : c ∈ (p.scope q).children) :
    p.scopesFrom c = c :: p.scopesFrom q := by
  obtain ⟨hlt, -, hp⟩ := h.child hc
  rw [Program.scopesFrom, hp]
  exact if_pos hlt

theorem exists_parent (hpos : 0 < id) (hid : id < p.scopes.size) :
    ∃ q, id ∈ (p.scope q).children := by
  obtain ⟨q, -, hq⟩ := h.parent id hpos (by simpa using hid)
  rw [Program.frame_outline] at hq
  exact ⟨q, hq⟩

/-- What holds of the file's scope, and of a scope when it holds of the one around it, holds of
every scope. -/
theorem induct {motive : (id : Nat) → id < p.scopes.size → Prop} (root : motive 0 h.pos_scopes)
    (step : ∀ q c (hc : c ∈ (p.scope q).children) (hq : q < p.scopes.size),
      motive q hq → motive c (h.child hc).2.1) (id : Nat) (hid : id < p.scopes.size) :
    motive id hid := by
  induction id using Nat.strongRecOn with
  | ind id ih =>
    rcases Nat.eq_zero_or_pos id with rfl | hpos
    · exact root
    · obtain ⟨q, hq⟩ := h.exists_parent hpos hid
      have hlt := (h.child hq).1
      exact step q id hq (Nat.lt_trans hlt hid) (ih q hlt (Nat.lt_trans hlt hid))

theorem mem_scopesFrom_self (hid : id < p.scopes.size) : id ∈ p.scopesFrom id := by
  induction id, hid using h.induct with
  | root => simp [h.scopesFrom_root]
  | step q c hc => simp [h.scopesFrom_child hc]

theorem root_mem_scopesFrom (hid : id < p.scopes.size) : 0 ∈ p.scopesFrom id := by
  induction id, hid using h.induct with
  | root => simp [h.scopesFrom_root]
  | step q c hc _ ih =>
    rw [h.scopesFrom_child hc]
    exact List.mem_cons_of_mem _ ih

theorem scopesFrom_trans (hb : b ∈ p.scopesFrom c) (ha : a ∈ p.scopesFrom b)
    (hid : c < p.scopes.size) : a ∈ p.scopesFrom c := by
  induction c, hid using h.induct with
  | root =>
    rw [h.scopesFrom_root, List.mem_singleton] at hb
    rwa [hb] at ha
  | step q c hc _ ih =>
    rw [h.scopesFrom_child hc] at hb ⊢
    rcases List.mem_cons.mp hb with rfl | hb
    · rwa [h.scopesFrom_child hc] at ha
    · exact List.mem_cons_of_mem _ (ih hb)

/-- On the way out of a scope one comes to a scope from one of those in it. -/
theorem exists_child_mem (ha : a ∈ p.scopesFrom id) (hne : a ≠ id) (hid : id < p.scopes.size) :
    ∃ c ∈ (p.scope a).children, c ∈ p.scopesFrom id := by
  induction id, hid using h.induct with
  | root =>
    rw [h.scopesFrom_root, List.mem_singleton] at ha
    exact absurd ha hne
  | step q c hc _ ih =>
    rw [h.scopesFrom_child hc] at ha ⊢
    have ha := (List.mem_cons.mp ha).resolve_left hne
    by_cases haq : a = q
    · exact ⟨c, haq ▸ hc, List.mem_cons_self⟩
    · obtain ⟨k, hk, hmem⟩ := ih ha haq
      exact ⟨k, hk, List.mem_cons_of_mem _ hmem⟩

/-! ### The search -/

theorem descend_lt (hid : id < p.scopes.size) : p.descend offset fuel id < p.scopes.size := by
  fun_induction Program.descend p offset fuel id with
  | case1 => exact hid
  | case2 fuel id c hc ih => exact ih (h.child (Program.mem_of_find hc).1).2.1
  | case3 => exact hid

/-- The search goes from a scope to those in it. -/
theorem mem_scopesFrom_descend (hid : id < p.scopes.size) :
    id ∈ p.scopesFrom (p.descend offset fuel id) := by
  fun_induction Program.descend p offset fuel id with
  | case1 => exact h.mem_scopesFrom_self hid
  | case2 fuel id c hc ih =>
    have hmem := (Program.mem_of_find hc).1
    have hlt := (h.child hmem).2.1
    refine h.scopesFrom_trans (ih hlt) ?_ (h.descend_lt hlt)
    rw [h.scopesFrom_child hmem]
    exact List.mem_cons_of_mem _ (h.mem_scopesFrom_self hid)
  | case3 => exact h.mem_scopesFrom_self hid

/-- If at every scope around another one the search goes on to the next of them, it comes to
that other one. -/
theorem mem_scopesFrom_descend_of_next (hid : id < p.scopes.size)
    (hnext : ∀ a, ∀ c ∈ (p.scope a).children, c ∈ p.scopesFrom id →
      (p.scope a).children.reverse.find? (fun c => (p.scope c).contains offset) = some c)
    (hq : q ∈ p.scopesFrom id) (hsize : q < p.scopes.size) (hfuel : p.scopes.size ≤ fuel + q) :
    id ∈ p.scopesFrom (p.descend offset fuel q) := by
  induction fuel generalizing q with
  | zero => omega
  | succ fuel ih =>
    by_cases hne : q = id
    · subst hne
      exact h.mem_scopesFrom_descend hsize
    -- the child the search enters is the one `id` lies in
    · obtain ⟨c, hc, hmem⟩ := h.exists_child_mem hq hne hid
      obtain ⟨hlt, hcsize, -⟩ := h.child hc
      rw [Program.descend, hnext q c hc hmem]
      exact ih hmem hcsize (by omega)

theorem scopeAt_lt : p.scopeAt offset < p.scopes.size := h.descend_lt h.pos_scopes

/-! ### Names -/

/-- From a scope outwards, the first one that has the name is no further out than any other. -/
theorem firstFound_scopesFrom {name : String} (hmem : id ∈ p.scopesFrom a)
    (hown : p.ownNamed name offset id ≠ []) (ha : a < p.scopes.size) :
    ∃ s ∈ p.scopesFrom a, id ∈ p.scopesFrom s ∧ p.ownNamed name offset s ≠ [] ∧
      firstFound ((p.scopesFrom a).map (p.ownNamed name offset)) = p.ownNamed name offset s := by
  induction a, ha using h.induct with
  | root =>
    rw [h.scopesFrom_root] at hmem ⊢
    obtain rfl := List.mem_singleton.mp hmem
    refine ⟨0, by simp, by simp [h.scopesFrom_root], hown, ?_⟩
    simp [firstFound, hown]
  | step q c hc _ ih =>
    -- the innermost scope with a declaration of the name ends the search
    by_cases hown' : p.ownNamed name offset c = []
    · rw [h.scopesFrom_child hc] at hmem ⊢
      rcases List.mem_cons.mp hmem with rfl | hmem
      · exact absurd hown' hown
      · obtain ⟨s, hs, hin, hne, heq⟩ := ih hmem
        refine ⟨s, List.mem_cons_of_mem _ hs, hin, hne, ?_⟩
        rw [List.map_cons, firstFound, hown', ← heq]
        rfl
    · refine ⟨c, h.mem_scopesFrom_self (h.child hc).2.1, hmem, hown', ?_⟩
      rw [h.scopesFrom_child hc, List.map_cons, firstFound, if_neg (by simpa using hown')]

end Outline.Rooted

/-! ### The innermost scope -/

namespace Outline.Nested

variable (h : p.outline.Nested tried)
include h

/-- A scope lies in those around it, but for the file's. -/
theorem inside_of_mem (ha : a ∈ p.scopesFrom id) (hpos : 0 < a) (hid : id < p.scopes.size) :
    (p.scope a).begin ≤ (p.scope id).begin ∧ (p.scope id).stop ≤ (p.scope a).stop := by
  induction id, hid using h.induct with
  | root =>
    rw [h.scopesFrom_root, List.mem_singleton] at ha
    exact absurd ha (Nat.ne_of_gt hpos)
  | step q c hc _ ih =>
    rw [h.scopesFrom_child hc] at ha
    rcases List.mem_cons.mp ha with rfl | ha
    · exact ⟨Nat.le_refl _, Nat.le_refl _⟩
    -- outside of the parent only the root is left, which the hypothesis excludes
    · obtain ⟨hlt, hsize, hparent⟩ := h.child hc
      obtain ⟨hb, he⟩ := ih ha
      rcases Nat.eq_zero_or_pos q with rfl | hq
      · rw [h.scopesFrom_root, List.mem_singleton] at ha
        exact absurd ha (Nat.ne_of_gt hpos)
      · have hin := h.inside c q (by simpa using hsize)
          (by rw [Program.frame_outline]; exact hparent) hq
        simp only [Program.frame_outline] at hin
        exact ⟨Nat.le_trans hb hin.1, Nat.le_trans hin.2 he⟩

/-- Of the scopes in a scope that contain the offset, one is gone into; another one is tried. -/
theorem find_child (hk : (p.scope q).children.reverse.find?
      (fun c => (p.scope c).contains offset) = some b) (hc : c ∈ (p.scope q).children)
    (hcon : (p.scope c).contains offset = true) :
    c = b ∨ tried (p.scope c).begin (p.scope c).stop := by
  obtain ⟨hb, as, bs, hsplit, hnone⟩ := List.find?_eq_some_iff_append.mp hk
  have hlist : (p.scope q).children = bs.reverse ++ b :: as.reverse := by
    rw [← List.reverse_reverse (p.scope q).children, hsplit]
    simp
  have hap := h.apart q
  rw [Program.frame_outline] at hap
  change (p.scope q).children.Pairwise _ at hap
  rw [hlist] at hap hc
  rcases List.mem_append.mp hc with hc | hc
  · have hcb := (List.pairwise_append.mp hap).2.2 c hc b List.mem_cons_self
    simp only [Program.frame_outline] at hcb
    refine hcb.elim (fun hcb => absurd hcb ?_) .inr
    -- both contain the offset
    simp only [Scope.contains_iff] at hb hcon
    simp only [Frame.Apart, Scope.frame]
    omega
  · rcases List.mem_cons.mp hc with rfl | hc
    · exact .inl rfl
    · have := hnone c (List.mem_reverse.mp hc)
      simp [hcon] at this

/-- **The scope at an offset is the innermost one**: one that contains the offset is that scope
or around it, unless it is tried. -/
theorem scopeAt_innermost (hmono : ∀ b e b' e', tried b e → b ≤ b' → e' ≤ e → tried b' e')
    (hid : id < p.scopes.size) (hcon : (p.scope id).contains offset = true) :
    id ∈ p.scopesFrom (p.scopeAt offset) ∨ tried (p.scope id).begin (p.scope id).stop := by
  by_cases htried : tried (p.scope id).begin (p.scope id).stop
  · exact .inr htried
  · refine .inl (h.mem_scopesFrom_descend_of_next hid (fun a c hc hmem => ?_)
      (h.root_mem_scopesFrom hid) h.pos_scopes (Nat.le_refl _))
    -- the next scope on the way contains the offset, since it lies around
    obtain ⟨hb, he⟩ := h.inside_of_mem hmem (by have := (h.child hc).1; omega) hid
    have hccon : (p.scope c).contains offset = true := by
      simp only [Scope.contains_iff] at hcon ⊢
      omega
    cases hk : (p.scope a).children.reverse.find? fun c => (p.scope c).contains offset with
    | none =>
      have hnone := List.find?_eq_none.mp hk c (List.mem_reverse.mpr hc)
      exact absurd hccon hnone
    | some k =>
      obtain rfl := (h.find_child hk hc hccon).resolve_right fun ht =>
        htried (hmono _ _ _ _ ht hb he)
      rfl

end Outline.Nested

end MudEdit
