import MudEdit.Token.Basic

/-!
# Moving tokens to other offsets

Two texts may have the same tokens in different places. A `Relocation` says where the
offsets of the one are in the other: it keeps their order, but it may put all of them in the
same place, and so forget them.
-/

namespace MudEdit

/-- Where offsets go, which does not change their order. -/
structure Relocation where
  move : Nat → Nat
  mono : ∀ {a b}, a ≤ b → move a ≤ move b

namespace Relocation

/-- All offsets are forgotten. -/
def forget : Relocation := ⟨fun _ => 0, fun _ => Nat.le_refl 0⟩

/-- More bytes come before. -/
def shift (k : Nat) : Relocation := ⟨(· + k), fun h => Nat.add_le_add_right h k⟩

/-- All offsets stay. -/
def stay : Relocation := ⟨id, id⟩

variable (φ : Relocation) {a b : Nat}

theorem move_min (a b : Nat) : φ.move (min a b) = min (φ.move a) (φ.move b) := by
  rcases Nat.le_total a b with h | h
  · rw [Nat.min_eq_left h, Nat.min_eq_left (φ.mono h)]
  · rw [Nat.min_eq_right h, Nat.min_eq_right (φ.mono h)]

theorem move_max (a b : Nat) : φ.move (max a b) = max (φ.move a) (φ.move b) := by
  rcases Nat.le_total a b with h | h
  · rw [Nat.max_eq_right h, Nat.max_eq_right (φ.mono h)]
  · rw [Nat.max_eq_left h, Nat.max_eq_left (φ.mono h)]

end Relocation

namespace Token

/-- The token at its new place. -/
def relocate (φ : Relocation) (t : Token) : Token :=
  { t with begin := φ.move t.begin, stop := φ.move t.stop }

variable (φ : Relocation) (t : Token)

@[simp] theorem begin_relocate : (t.relocate φ).begin = φ.move t.begin := rfl

@[simp] theorem stop_relocate : (t.relocate φ).stop = φ.move t.stop := rfl

@[simp] theorem kind_relocate : (t.relocate φ).kind = t.kind := rfl

@[simp] theorem text_relocate : (t.relocate φ).text = t.text := rfl

end Token

end MudEdit
