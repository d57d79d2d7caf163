import Mathlib.Data.List.Forall2
import MudEdit.Proofs.Ty.Grouping

/-!
# Which types accept which

Whether a type accepts another is asked of the members of choices: one type accepts another if
some member of it accepts some member of the other. `Accepts` says so by rules, one for each
way in which a member accepts another. How the members of a choice are grouped or ordered, or
that one is there twice, makes no difference, however deep in a type the choice stands.
-/

namespace MudEdit

namespace Ty

variable {s t u m g lhs rhs element element' returns returns' : Ty}
  {ts us vs parameters parameters' : List Ty} {file : Option String} {isOpen isOpen' : Bool}

/-- What a type is a choice between; a type that is no choice is its only member. -/
def members : Ty → List Ty
  | or lhs rhs => members lhs ++ members rhs
  | t => [t]

mutual

/-- Some member of the wanted type accepts some member of the given one. -/
inductive Accepts : Ty → Ty → Prop
  | member {wanted given m g : Ty} : m ∈ wanted.members → g ∈ given.members →
      MemberAccepts m g → Accepts wanted given

/-- A member of a type accepts a member of another one. -/
inductive MemberAccepts : Ty → Ty → Prop
  | wantsAny {wanted given : Ty} : wanted.isAny = true → MemberAccepts wanted given
  | givenAny {wanted given : Ty} : given.isAny = true → MemberAccepts wanted given
  /-- An object of no certain program may be one of any. -/
  | basic {kind : BasicKind} {file file' : Option String} : file = none ∨ file = file' →
      MemberAccepts (basic kind file) (basic kind file')
  | array {element element' : Ty} : Accepts element element' →
      MemberAccepts (array element) (array element')
  | reference {file : Option String} {returns : Ty} {parameters : List Ty} {isOpen : Bool} :
      MemberAccepts (basic .function file) (function returns parameters isOpen)
  /-- The parameters go the other way than the results. -/
  | function {returns returns' : Ty} {parameters parameters' : List Ty} :
      parameters.length = parameters'.length →
      (∀ p ∈ parameters'.zip parameters, Accepts p.1 p.2) → Accepts returns returns' →
      MemberAccepts (function returns parameters false) (function returns' parameters' false)
  /-- A function with open parameters stands for one with more of them, open or not. -/
  | openFunction {returns returns' : Ty} {parameters parameters' : List Ty} {isOpen : Bool} :
      parameters'.length ≤ parameters.length →
      (∀ p ∈ parameters'.zip parameters, Accepts p.1 p.2) → Accepts returns returns' →
      MemberAccepts (function returns parameters isOpen) (function returns' parameters' true)

end

/-! ## Choices -/

theorem accepts_of_isAny (h : m.isAny = true ∨ g.isAny = true) : accepts m g = true := by
  rw [accepts.eq_def, if_pos (by simpa using h)]

/-- A choice accepts what one of the two accepts. -/
theorem accepts_or_left (lhs rhs g : Ty) :
    accepts (or lhs rhs) g = (accepts lhs g || accepts rhs g) := by
  cases hg : g.isAny with
  | true => rw [accepts_of_isAny (.inr hg), accepts_of_isAny (.inr hg), Bool.true_or]
  | false =>
    have hneither : ¬((or lhs rhs).isAny || g.isAny) = true := by rw [hg]; exact Bool.false_ne_true
    rw [accepts.eq_def, if_neg hneither]

/-- A choice is accepted where one of the two is. -/
theorem accepts_or_right (m lhs rhs : Ty) :
    accepts m (or lhs rhs) = (accepts m lhs || accepts m rhs) := by
  induction m using induct with
  | step m ih =>
    -- a wanted `any` takes all of the three types; what remains splits by constructor
    cases hm : m.isAny with
    | true => rw [accepts_of_isAny (.inl hm), accepts_of_isAny (.inl hm), Bool.true_or]
    | false =>
      cases m with
      | or a b =>
        have ha := ih a List.mem_cons_self
        have hb := ih b (List.mem_cons_of_mem _ List.mem_cons_self)
        rw [accepts_or_left, accepts_or_left, accepts_or_left, ha, hb, Bool.or_assoc, Bool.or_assoc,
          Bool.or_left_comm (accepts a rhs)]
      -- a wanted type that is no union asks the members given one by one
      | basic | array | function | this =>
        rw [accepts.eq_def, if_neg (by rw [hm]; exact Bool.false_ne_true)]

/-- What is not changed by taking a choice apart is decided by the members. -/
theorem accepts_iff_members : accepts s t = true ↔
    ∃ m ∈ s.members, ∃ g ∈ t.members, accepts m g = true := by
  -- first the union given, then the union wanted, each by recursion on it
  have hgiven (m t : Ty) : accepts m t = true ↔ ∃ g ∈ t.members, accepts m g = true := by
    induction t using induct with
    | step t ih =>
      cases t with
      | or lhs rhs =>
        rw [accepts_or_right, Bool.or_eq_true, ih lhs List.mem_cons_self,
          ih rhs (List.mem_cons_of_mem _ List.mem_cons_self), members]
        simp only [List.mem_append, or_and_right, exists_or]
      | basic | array | function | this => simp [members]
  induction s using induct with
  | step s ih =>
    cases s with
    | or lhs rhs =>
      have hlhs : accepts lhs t = true ↔ _ := ih lhs List.mem_cons_self
      have hrhs : accepts rhs t = true ↔ _ :=
        ih rhs (List.mem_cons_of_mem _ List.mem_cons_self)
      rw [accepts_or_left, Bool.or_eq_true, hlhs, hrhs, members]
      simp only [List.mem_append, or_and_right, exists_or]
    | basic | array | function | this => simp [members, ← hgiven]

theorem isOr_of_mem_members (h : m ∈ t.members) : m.isOr = false := by
  induction t using induct with
  | step t ih =>
    cases t with
    | or lhs rhs =>
      rcases List.mem_append.mp h with h | h
      · exact ih lhs List.mem_cons_self h
      · exact ih rhs (List.mem_cons_of_mem _ List.mem_cons_self) h
    | basic | array | function | this => rw [List.mem_singleton.mp h]; rfl

theorem sizeOf_le_of_mem_members (h : m ∈ t.members) : sizeOf m ≤ sizeOf t := by
  induction t using induct with
  | step t ih =>
    cases t with
    | or lhs rhs =>
      rw [or.sizeOf_spec]
      rcases List.mem_append.mp h with h | h
      · have := ih lhs List.mem_cons_self h
        omega
      · have := ih rhs (List.mem_cons_of_mem _ List.mem_cons_self) h
        omega
    | basic | array | function | this => exact Nat.le_of_eq (by rw [List.mem_singleton.mp h])

/-! ## The rules -/

theorem acceptEach_iff : acceptEach ts us = true ↔ ∀ p ∈ ts.zip us, accepts p.1 p.2 = true := by
  induction ts generalizing us with
  | nil => simp [acceptEach]
  | cons t ts ih =>
    cases us with
    | nil => simp [acceptEach]
    | cons u us =>
      rw [acceptEach, Bool.and_eq_true, ih, List.zip_cons_cons, List.forall_mem_cons]

theorem accepts_basic {kind : BasicKind} {file file' : Option String}
    (h : file = none ∨ file = file') : accepts (basic kind file) (basic kind file') = true := by
  rw [accepts.eq_def]
  rcases h with rfl | rfl <;> simp

theorem accepts_array : accepts (array element) (array element') = accepts element element' := by
  rw [accepts.eq_def]
  rfl

theorem accepts_reference :
    accepts (basic .function file) (function returns parameters isOpen) = true := by
  rw [accepts.eq_def]
  rfl

theorem accepts_function : accepts (function returns parameters isOpen)
    (function returns' parameters' isOpen') =
      (arityFits parameters parameters' isOpen isOpen' && acceptEach parameters' parameters &&
        accepts returns returns') := by
  rw [accepts.eq_def]
  rfl

/-- What is left to show of two functions whose arities fit. -/
theorem accepts_function_of (harity : arityFits parameters parameters' isOpen isOpen' = true)
    (heach : ∀ p ∈ parameters'.zip parameters, accepts p.1 p.2 = true)
    (hreturns : accepts returns returns' = true) :
    accepts (function returns parameters isOpen)
      (function returns' parameters' isOpen') = true := by
  rw [accepts_function, harity, acceptEach_iff.mpr heach, hreturns]
  rfl

mutual

theorem Accepts.sound : ∀ {wanted given : Ty}, Accepts wanted given → accepts wanted given = true
  | _, _, .member hm hg h => accepts_iff_members.mpr ⟨_, hm, _, hg, h.sound⟩

theorem MemberAccepts.sound : ∀ {wanted given : Ty}, MemberAccepts wanted given →
    accepts wanted given = true
  | _, _, .wantsAny h => accepts_of_isAny (.inl h)
  | _, _, .givenAny h => accepts_of_isAny (.inr h)
  | _, _, .basic h => accepts_basic h
  | _, _, .array h => accepts_array.trans h.sound
  | _, _, .reference => accepts_reference
  | _, _, .function hlength heach h => accepts_function_of (by simp [arityFits, hlength])
      (fun p hp => (heach p hp).sound) h.sound
  | _, _, .openFunction hlength heach h => accepts_function_of (by simp [arityFits, hlength])
      (fun p hp => (heach p hp).sound) h.sound

end

/-- A member that accepts another does so by one of the rules, if all that is smaller does. -/
theorem MemberAccepts.of_accepts (hm : m.isOr = false) (hg : g.isOr = false)
    (ih : ∀ s t, sizeOf s + sizeOf t < sizeOf m + sizeOf g → accepts s t = true → Accepts s t)
    (h : accepts m g = true) : MemberAccepts m g := by
  rw [accepts.eq_def] at h
  split at h
  · rename_i hany
    exact (Bool.or_eq_true_iff.mp hany).elim .wantsAny .givenAny
  · split at h
    · exact Bool.noConfusion hm
    · exact Bool.noConfusion hg
    · rename_i kind file kind' file' _
      obtain ⟨hkind, hfile⟩ := Bool.and_eq_true_iff.mp h
      obtain rfl : kind = kind' := beq_iff_eq.mp hkind
      exact .basic (by simpa using hfile)
    · refine .array (ih _ _ ?_ h)
      simp only [array.sizeOf_spec]
      omega
    · exact .reference
    · rename_i returns parameters isOpen returns' parameters' isOpen' _
      obtain ⟨hparameters, hreturns⟩ := Bool.and_eq_true_iff.mp h
      obtain ⟨harity, heach⟩ := Bool.and_eq_true_iff.mp hparameters
      -- results and parameters are smaller than the types of the functions
      simp only [function.sizeOf_spec] at ih
      have hresult : Accepts returns returns' := ih _ _ (by omega) hreturns
      have heach : ∀ p ∈ parameters'.zip parameters, Accepts p.1 p.2 := by
        intro p hp
        obtain ⟨hgiven, hwanted⟩ := List.of_mem_zip hp
        have := List.sizeOf_lt_of_mem hgiven
        have := List.sizeOf_lt_of_mem hwanted
        exact ih _ _ (by omega) (acceptEach_iff.mp heach p hp)
      cases isOpen' with
      | true => exact .openFunction (by simpa [arityFits] using harity) heach hresult
      | false =>
        obtain ⟨hlength, rfl⟩ : parameters.length = parameters'.length ∧ isOpen = false := by
          simpa [arityFits] using harity
        exact .function hlength heach hresult
    · exact Bool.noConfusion h

/-- **A type accepts another if some member accepts some member** by one of the rules. -/
theorem accepts_iff : accepts s t = true ↔ Accepts s t := by
  refine ⟨fun h => ?_, Accepts.sound⟩
  induction hsize : sizeOf s + sizeOf t using Nat.strongRecOn generalizing s t with
  | ind size ih =>
    subst hsize
    obtain ⟨m, hm, g, hg, hmember⟩ := accepts_iff_members.mp h
    refine .member hm hg (.of_accepts (isOr_of_mem_members hm) (isOr_of_mem_members hg) ?_ hmember)
    have := sizeOf_le_of_mem_members hm
    have := sizeOf_le_of_mem_members hg
    exact fun s t hlt h => ih _ (by omega) h rfl

/-! ## Every type accepts itself -/

theorem resolveThisList_eq (ts : List Ty) :
    resolveThisList file ts = ts.map (resolveThis file) := by
  induction ts with
  | nil => rfl
  | cons t ts ih => rw [resolveThisList, ih]; rfl

/-- Where `this` is known, a type accepts itself. -/
theorem accepts_self (file : Option String) (t : Ty) :
    accepts (t.resolveThis file) (t.resolveThis file) = true := by
  induction t using induct with
  | step t ih =>
    cases t with
    | basic kind file' => exact accepts_basic (.inr rfl)
    | this => exact accepts_basic (.inr rfl)
    | array element => exact accepts_array.trans (ih element List.mem_cons_self)
    | or lhs rhs =>
      rw [resolveThis, accepts_or_left, accepts_or_right, ih lhs List.mem_cons_self, Bool.true_or,
        Bool.true_or]
    | function returns parameters isOpen =>
      -- the parameters are compared place by place, each with itself
      refine accepts_function_of ?_ (fun p hp => ?_) (ih returns List.mem_cons_self)
      · cases isOpen <;> simp [arityFits]
      · rw [resolveThisList_eq, List.zip_map', List.mem_map] at hp
        obtain ⟨t, ht, rfl⟩ := hp
        exact ih t (List.mem_cons_of_mem _ ht)

/-! ## Choices that are rearranged -/

/-- From one type to another, choices are regrouped and reordered, and members of them are
doubled or left out where they are there twice. -/
inductive Rearranges : Ty → Ty → Prop
  | refl (t : Ty) : Rearranges t t
  | symm {s t : Ty} : Rearranges s t → Rearranges t s
  | trans {s t u : Ty} : Rearranges s t → Rearranges t u → Rearranges s u
  | rotate (lhs mid rhs : Ty) : Rearranges (or lhs (or mid rhs)) (or (or lhs mid) rhs)
  | swap (lhs rhs : Ty) : Rearranges (or lhs rhs) (or rhs lhs)
  | double (t : Ty) : Rearranges t (or t t)
  | array {s t : Ty} : Rearranges s t → Rearranges (array s) (array t)
  | left {s t : Ty} (rhs : Ty) : Rearranges s t → Rearranges (or s rhs) (or t rhs)
  | returns {s t : Ty} (parameters : List Ty) (isOpen : Bool) : Rearranges s t →
      Rearranges (function s parameters isOpen) (function t parameters isOpen)
  | parameter {s t : Ty} (returns : Ty) (before after : List Ty) (isOpen : Bool) :
      Rearranges s t → Rearranges (function returns (before ++ s :: after) isOpen)
        (function returns (before ++ t :: after) isOpen)

/-- A rearrangement stays one when `this` is given its program. -/
theorem Rearranges.resolveThis (file : Option String) (h : Rearranges s t) :
    Rearranges (s.resolveThis file) (t.resolveThis file) := by
  induction h with
  | refl => exact refl _
  | symm _ ih => exact ih.symm
  | trans _ _ ih₁ ih₂ => exact ih₁.trans ih₂
  | rotate => exact rotate ..
  | swap => exact swap ..
  | double => exact double _
  | array _ ih => exact array ih
  | left _ _ ih => exact left _ ih
  | returns _ _ _ ih => exact returns _ _ ih
  | parameter _ _ _ _ _ ih =>
    simp only [Ty.resolveThis, resolveThisList_eq, List.map_append, List.map_cons]
    exact parameter _ _ _ _ ih

/-- The types accept the same, and are accepted by the same. -/
structure Alike (s t : Ty) : Prop where
  accepting : ∀ u, accepts s u = accepts t u
  accepted : ∀ u, accepts u s = accepts u t

namespace Alike

/-- What accepts and is accepted alike as far as members go does so everywhere. -/
theorem of_members (haccepting : ∀ u, u.isOr = false → accepts s u = accepts t u)
    (haccepted : ∀ u, u.isOr = false → accepts u s = accepts u t) : Alike s t := by
  constructor
  -- a union on the other side falls apart into its members, which are no unions
  · intro u
    induction u using induct with
    | step u ih =>
      cases u with
      | or lhs rhs =>
        have hlhs := ih lhs List.mem_cons_self
        have hrhs := ih rhs (List.mem_cons_of_mem _ List.mem_cons_self)
        rw [accepts_or_right, accepts_or_right, hlhs, hrhs]
      | basic | array | function | this => exact haccepting _ rfl
  · intro u
    induction u using induct with
    | step u ih =>
      cases u with
      | or lhs rhs =>
        have hlhs := ih lhs List.mem_cons_self
        have hrhs := ih rhs (List.mem_cons_of_mem _ List.mem_cons_self)
        rw [accepts_or_left, accepts_or_left, hlhs, hrhs]
      | basic | array | function | this => exact haccepted _ rfl

theorem array (h : Alike s t) : Alike (array s) (array t) := by
  refine of_members (fun u hu => ?_) fun u hu => ?_
  · cases u with
    | array => rw [accepts_array, accepts_array, h.accepting]
    | or => exact Bool.noConfusion hu
    | _ => rw [accepts.eq_def, accepts.eq_def]; rfl
  · cases u with
    | array => rw [accepts_array, accepts_array, h.accepted]
    | or => exact Bool.noConfusion hu
    | _ => rw [accepts.eq_def, accepts.eq_def]; rfl

/-- Lists of types that are alike one by one accept the same. -/
theorem acceptEach (h : List.Forall₂ Alike ts us) (vs : List Ty) :
    Ty.acceptEach ts vs = Ty.acceptEach us vs ∧ Ty.acceptEach vs ts = Ty.acceptEach vs us := by
  induction h generalizing vs with
  | nil => exact ⟨rfl, rfl⟩
  | cons h _ ih =>
    cases vs with
    | nil => simp only [Ty.acceptEach, and_self]
    | cons v vs =>
      simp only [Ty.acceptEach, h.accepting, h.accepted, ih vs, and_self]

/-- Functions of alike results and alike parameters are alike. -/
theorem function (hreturns : Alike s t) (h : List.Forall₂ Alike ts us) (isOpen : Bool) :
    Alike (function s ts isOpen) (function t us isOpen) := by
  have hlength := h.length_eq
  -- against anything but a function both sides are compared by constructor alone
  refine of_members (fun u hu => ?_) fun u hu => ?_
  · cases u with
    | function returns vs isOpen' =>
      rw [accepts_function, accepts_function, hreturns.accepting, (acceptEach h vs).2]
      simp only [arityFits, hlength]
    | or => exact Bool.noConfusion hu
    | _ => rw [accepts.eq_def, accepts.eq_def]; rfl
  · cases u with
    | function returns vs isOpen' =>
      rw [accepts_function, accepts_function, hreturns.accepted, (acceptEach h vs).1]
      simp only [arityFits, hlength]
    | or => exact Bool.noConfusion hu
    | basic kind => cases kind <;> rw [accepts.eq_def, accepts.eq_def] <;> rfl
    | _ => rw [accepts.eq_def, accepts.eq_def]; rfl

theorem refl (t : Ty) : Alike t t := ⟨fun _ => rfl, fun _ => rfl⟩

end Alike

/-- **How choices are arranged makes no difference** to what a type accepts and is accepted by. -/
theorem Rearranges.alike (h : Rearranges s t) : Alike s t := by
  induction h with
  | refl t => exact .refl t
  | symm _ ih => exact ⟨fun u => (ih.accepting u).symm, fun u => (ih.accepted u).symm⟩
  | trans _ _ ih₁ ih₂ =>
    exact ⟨fun u => (ih₁.accepting u).trans (ih₂.accepting u),
      fun u => (ih₁.accepted u).trans (ih₂.accepted u)⟩
  | rotate lhs mid rhs =>
    exact ⟨fun u => by simp only [accepts_or_left, Bool.or_assoc],
      fun u => by simp only [accepts_or_right, Bool.or_assoc]⟩
  | swap lhs rhs =>
    exact ⟨fun u => by rw [accepts_or_left, accepts_or_left, Bool.or_comm],
      fun u => by rw [accepts_or_right, accepts_or_right, Bool.or_comm]⟩
  | double t =>
    exact ⟨fun u => by rw [accepts_or_left, Bool.or_self],
      fun u => by rw [accepts_or_right, Bool.or_self]⟩
  | array _ ih => exact .array ih
  | left _ _ ih =>
    exact ⟨fun u => by rw [accepts_or_left, accepts_or_left, ih.accepting],
      fun u => by rw [accepts_or_right, accepts_or_right, ih.accepted]⟩
  | returns parameters isOpen _ ih =>
    exact .function ih (List.forall₂_same.mpr fun t _ => .refl t) isOpen
  | parameter returns before after isOpen _ ih =>
    have hbefore : List.Forall₂ Alike before before := List.forall₂_same.mpr fun t _ => .refl t
    have hafter : List.Forall₂ Alike after after := List.forall₂_same.mpr fun t _ => .refl t
    exact .function (.refl returns) (List.rel_append hbefore (.cons ih hafter)) isOpen

/--
**Assignability is an algebra of members.** A type may be stored where another is expected if a
member of the one accepts a member of the other, `this` being the objects of the file. So every
type may be stored as itself, and how choices are arranged in types makes no difference.
-/
theorem acceptsIn_members (file : Option String) :
    (∀ wanted given : Ty, acceptsIn file wanted given = true ↔
      Accepts (wanted.resolveThis file) (given.resolveThis file)) ∧
    (∀ t : Ty, acceptsIn file t t = true) ∧
    ∀ wanted wanted' given given' : Ty, Rearranges wanted wanted' → Rearranges given given' →
      acceptsIn file wanted given = acceptsIn file wanted' given' := by
  refine ⟨fun _ _ => accepts_iff, accepts_self file, fun wanted wanted' given given' h h' => ?_⟩
  unfold acceptsIn
  rw [(h.resolveThis file).alike.accepting, (h'.resolveThis file).alike.accepted]

/-- A function that takes items of one type or another, written in two ways. -/
theorem acceptsIn_members_callback :
    let items := or (plain .int) (or this (plain .string))
    let items' := or (or (plain .string) this) (or (plain .int) (plain .int))
    let wanted := function void [array items] false
    let given := function void [array items'] false
    (Rearranges wanted given ∧ Rearranges given given) ∧
      acceptsIn (some "/std/room") wanted given = acceptsIn (some "/std/room") given given ∧
        acceptsIn (some "/std/room") given given = true := by
  intro items items' wanted given
  have hitems : Rearranges items items' :=
    ((Rearranges.left _ (.double _)).trans (.swap ..)).trans (.left _ (.swap ..))
  have hwanted : Rearranges wanted given := .parameter void [] [] false (.array hitems)
  obtain ⟨-, hself, hrearranged⟩ := acceptsIn_members (some "/std/room")
  exact ⟨⟨hwanted, .refl _⟩, hrearranged _ _ _ _ hwanted (.refl _), hself given⟩

end Ty

end MudEdit
