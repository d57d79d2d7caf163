/-!
# Tables

Values by name. A name has at most one value: putting in another one replaces it.
-/

namespace MudEdit

/-- Values by name, the last put in first. -/
abbrev Table (α : Type) := List (String × α)

namespace Table

variable {α : Type}

/-- The value of a name. -/
def find? (t : Table α) (name : String) : Option α := t.lookup name

def contains (t : Table α) (name : String) : Bool := (t.find? name).isSome

/-- The table without the name. -/
def remove (t : Table α) (name : String) : Table α := t.filter (·.1 != name)

/-- The table with one value for the name. -/
def put (t : Table α) (name : String) (value : α) : Table α := (name, value) :: t.remove name

def names (t : Table α) : List String := t.map (·.1)

@[simp] theorem find?_nil (name : String) : find? ([] : Table α) name = none := rfl

theorem find?_cons (t : Table α) (entry : String × α) (name : String) :
    find? (entry :: t) name = if name = entry.1 then some entry.2 else find? t name := by
  obtain ⟨key, value⟩ := entry
  unfold find?
  by_cases h : name = key
  · simp [h]
  · simp [List.lookup_cons, h, beq_eq_false_iff_ne.2 h]

theorem mem_names_of_find? {t : Table α} {name : String} {value : α}
    (found : t.find? name = some value) : name ∈ t.names := by
  induction t with
  | nil => simp at found
  | cons entry t ih =>
    rw [find?_cons] at found
    by_cases h : name = entry.1
    · simp [names, h]
    · exact List.mem_cons_of_mem _ (ih (by simpa [h] using found))

theorem find?_remove (t : Table α) (removed name : String) :
    (t.remove removed).find? name = if name = removed then none else t.find? name := by
  induction t with
  | nil => simp [remove]
  | cons entry t ih =>
    by_cases h : entry.1 = removed
    · have : remove (entry :: t) removed = remove t removed := by simp [remove, h]
      rw [this, ih, find?_cons]
      by_cases hn : name = removed <;> simp [hn, h]
    · have : remove (entry :: t) removed = entry :: remove t removed := by simp [remove, h]
      rw [this, find?_cons, find?_cons, ih]
      by_cases hn : name = removed
      · simp [hn, Ne.symm h]
      · simp [hn]

theorem find?_put (t : Table α) (name other : String) (value : α) :
    (t.put name value).find? other = if other = name then some value else t.find? other := by
  rw [put, find?_cons, find?_remove]
  by_cases h : other = name <;> simp [h]

end Table

end MudEdit
