import MudEdit.Proofs.Path.Segments

/-!
# Where a path leads

The place that a path leads to, by its text alone: each `..` takes back the name before it,
there is nothing above the root, and a relative path may lead above where it starts. A
path that never does leads to the same names below any directory that it is taken from
(`walk_under`). One that does leads out of some directory, as the name of the directory is
taken back and never comes again (`notMem_walk_of_ups`).
-/

namespace MudEdit.Path

/-- Where a path leads. -/
structure Place where
  isAbsolute : Bool
  /-- How many directories above the start of a relative path that is. -/
  ups : Nat
  /-- The names from there, the innermost first. -/
  names : List String
  deriving DecidableEq, Repr

namespace Place

variable {p base rel : Place} {segment name : String} {segments : List String}

/-- One segment further. -/
def step (p : Place) (segment : String) : Place :=
  if segment = "" ∨ segment = "." then p
  else if segment = ".." then
    match p.names with
    | _ :: names => { p with names }
    | [] => if p.isAbsolute then p else { p with ups := p.ups + 1 }
  else { p with names := segment :: p.names }

/-- Along some segments. -/
def walk (p : Place) (segments : List String) : Place := segments.foldl step p

/-- At a directory or somewhere in it. -/
def Below (base p : Place) : Prop :=
  p.isAbsolute = base.isAbsolute ∧ p.ups = base.ups ∧ base.names <:+ p.names

instance (base p : Place) : Decidable (base.Below p) := inferInstanceAs (Decidable (_ ∧ _ ∧ _))

/-- The place that the names of a relative one lead to from a directory. -/
def under (base rel : Place) : Place := { base with names := rel.names ++ base.names }

theorem below_under : base.Below (base.under rel) := ⟨rfl, rfl, List.suffix_append _ _⟩

/-! ## One segment -/

/-- What a segment does, case by case. -/
theorem step_silent (h : segment = "" ∨ segment = ".") : p.step segment = p := by
  rw [step, if_pos h]

theorem step_name (h : ¬ (segment = "" ∨ segment = ".")) (hdots : segment ≠ "..") :
    p.step segment = { p with names := segment :: p.names } := by
  rw [step, if_neg h, if_neg hdots]

theorem step_back {names : List String} (h : p.names = name :: names) :
    p.step ".." = { p with names } := by
  simp [step, h]

theorem step_top (h : p.names = []) (habsolute : p.isAbsolute = true) : p.step ".." = p := by
  simp [step, h, habsolute]

theorem step_up (h : p.names = []) (hrelative : p.isAbsolute = false) :
    p.step ".." = { p with ups := p.ups + 1 } := by
  simp [step, h, hrelative]

/-- A segment leads to other names below the same place, or it is `..` where a relative path
has no name to take back. -/
theorem step_cases (p : Place) (segment : String) :
    (∃ names, p.step segment = { p with names } ∧ names ⊆ segment :: p.names) ∨
      segment = ".." ∧ p.names = [] ∧ p.isAbsolute = false ∧
        p.step segment = { p with ups := p.ups + 1 } := by
  -- a silent segment, a step up or a name
  by_cases hsilent : segment = "" ∨ segment = "."
  · exact .inl ⟨p.names, step_silent hsilent, List.subset_cons_self segment p.names⟩
  by_cases hdots : segment = ".."
  · subst hdots
    by_cases hnames : p.names = []
    · by_cases habsolute : p.isAbsolute = true
      · exact .inl ⟨p.names, step_top hnames habsolute, List.subset_cons_self _ p.names⟩
      · have hrelative := Bool.eq_false_iff.mpr habsolute
        exact .inr ⟨rfl, hnames, hrelative, step_up hnames hrelative⟩
    · obtain ⟨n, names, hcons⟩ := List.exists_cons_of_ne_nil hnames
      exact .inl ⟨names, step_back hcons, fun m hm => by simp [hcons, hm]⟩
  · exact .inl ⟨segment :: p.names, step_name hsilent hdots, List.Subset.refl _⟩

@[simp] theorem isAbsolute_step : (p.step segment).isAbsolute = p.isAbsolute := by
  rcases p.step_cases segment with ⟨names, h, -⟩ | ⟨-, -, -, h⟩ <;> rw [h]

theorem ups_le_step : p.ups ≤ (p.step segment).ups := by
  rcases p.step_cases segment with ⟨names, h, -⟩ | ⟨-, -, -, h⟩
  · rw [h]
  · rw [h]
    exact Nat.le_succ p.ups

theorem mem_names_step (h : name ∈ (p.step segment).names) : name = segment ∨ name ∈ p.names := by
  rcases p.step_cases segment with ⟨names, hstep, hsub⟩ | ⟨-, -, -, hstep⟩
  · rw [hstep] at h
    exact List.mem_cons.mp (hsub h)
  · rw [hstep] at h
    exact .inr h

/-- A segment that does not lead above the start does the same below a directory. -/
theorem step_under (hrelative : rel.isAbsolute = false)
    (h : (rel.step segment).ups = rel.ups) :
    (base.under rel).step segment = base.under (rel.step segment) := by
  by_cases hsilent : segment = "" ∨ segment = "."
  · rw [step_silent hsilent, step_silent hsilent]
  by_cases hdots : segment = ".."
  · subst hdots
    by_cases hnames : rel.names = []
    -- a step up above the base is what the hypothesis excludes
    · rw [step_up hnames hrelative] at h
      exact absurd h (Nat.succ_ne_self rel.ups)
    · obtain ⟨n, names, hcons⟩ := List.exists_cons_of_ne_nil hnames
      have hunder : (base.under rel).names = n :: (names ++ base.names) := by
        simp [under, hcons]
      rw [step_back hcons, step_back hunder]
      rfl
  · rw [step_name hsilent hdots, step_name hsilent hdots]
    rfl

/-! ## Many segments -/

@[simp] theorem walk_nil : p.walk [] = p := rfl

@[simp] theorem walk_cons : p.walk (segment :: segments) = (p.step segment).walk segments := rfl

theorem walk_append (first second : List String) :
    p.walk (first ++ second) = (p.walk first).walk second := List.foldl_append

theorem ups_le_walk : p.ups ≤ (p.walk segments).ups := by
  induction segments generalizing p with
  | nil => exact Nat.le_refl _
  | cons s segments ih => exact Nat.le_trans ups_le_step ih

theorem mem_names_walk (h : name ∈ (p.walk segments).names) :
    name ∈ p.names ∨ name ∈ segments := by
  induction segments generalizing p with
  | nil => exact .inl h
  | cons s segments ih =>
    rcases ih h with h | h
    · rcases mem_names_step h with rfl | h
      · exact .inr List.mem_cons_self
      · exact .inl h
    · exact .inr (List.mem_cons_of_mem s h)

theorem ups_step_of_walk (h : (p.walk (segment :: segments)).ups = p.ups) :
    (p.step segment).ups = p.ups :=
  Nat.le_antisymm (h ▸ ups_le_walk) ups_le_step

/-- A path that never leads above its start leads to the same names below a directory. -/
theorem walk_under (base : Place) (hrelative : rel.isAbsolute = false)
    (h : (rel.walk segments).ups = rel.ups) :
    (base.under rel).walk segments = base.under (rel.walk segments) := by
  induction segments generalizing rel with
  | nil => rfl
  | cons s segments ih =>
    have hstep := ups_step_of_walk h
    rw [walk_cons, step_under hrelative hstep, walk_cons]
    exact ih (by rw [isAbsolute_step, hrelative]) (by rw [← walk_cons, h, hstep])

/-- A path that leads above its start takes back the name of the directory, which it does
not say again. -/
theorem notMem_walk_of_ups (hrelative : rel.isAbsolute = false)
    (h : (rel.walk segments).ups ≠ rel.ups) (hname : name ∉ segments) :
    name ∉ ((under ⟨true, 0, [name]⟩ rel).walk segments).names := by
  induction segments generalizing rel with
  | nil => exact absurd rfl h
  | cons s segments ih =>
    have hrest : name ∉ segments := fun hmem => hname (List.mem_cons_of_mem s hmem)
    rcases rel.step_cases s with ⟨names, hstep, -⟩ | ⟨rfl, hnames, -, -⟩
    · have hkept : (rel.step s).ups = rel.ups := by rw [hstep]
      rw [walk_cons, step_under hrelative hkept]
      exact ih (by rw [isAbsolute_step, hrelative]) (by rwa [hkept, ← walk_cons]) hrest
    · -- here the directory's own name is taken back
      have htop : (under ⟨true, 0, [name]⟩ rel).step ".." = ⟨true, 0, []⟩ := by
        have hunder : (under ⟨true, 0, [name]⟩ rel).names = [name] := by simp [under, hnames]
        rw [step_back hunder]
        rfl
      rw [walk_cons, htop]
      exact fun hmem => (mem_names_walk hmem).elim nofun hrest

end Place

/-! ## The place of a path -/

variable {directory path : String}

/-- The place that a path leads to. -/
def place (path : String) : Place := Place.walk ⟨isAbsolute path, 0, []⟩ (segments path)

/-- A relative path goes on from the place of the directory. -/
theorem place_join (hrelative : isAbsolute path = false) :
    place (join directory path) = (place directory).walk (segments path) := by
  by_cases hne : directory = ""
  · subst hne
    rw [join_empty, place, hrelative]
    rfl
  obtain ⟨above, -, hdirectory, hjoin⟩ := segments_join hrelative hne
  rw [place, hjoin, isAbsolute_join hrelative hne, Place.walk_append, place]
  rcases hdirectory with h | h
  · rw [h]
  · rw [h, Place.walk_append, Place.walk_cons, Place.step_silent (.inl rfl), Place.walk_nil]

end MudEdit.Path
