/-!
# Bindings

- `Bindings α` maps names to values, the names in the order in which they were first bound.
- `get?_insert` says what each name denotes after a name is bound.
-/

namespace Lox

/-- Names with a value each. -/
structure Bindings (α : Type) where
  entries : List (String × α)

namespace Bindings

variable {α : Type}

/-- No bindings. -/
def empty : Bindings α := ⟨[]⟩

instance : EmptyCollection (Bindings α) := ⟨empty⟩

instance : Inhabited (Bindings α) := ⟨empty⟩

/-- The value of the first entry with this name. -/
def find? (name : String) : List (String × α) → Option α
  | [] => none
  | (k, v) :: rest => if k = name then some v else find? name rest

/-- Replaces the first entry with this name, or adds one at the end. -/
def replace (name : String) (value : α) : List (String × α) → List (String × α)
  | [] => [(name, value)]
  | (k, v) :: rest => if k = name then (k, value) :: rest else (k, v) :: replace name value rest

/-- The value of a name. -/
def get? (b : Bindings α) (name : String) : Option α := find? name b.entries

/-- Binds a name to a value, in the place of its earlier value if it has one. -/
def insert (b : Bindings α) (name : String) (value : α) : Bindings α :=
  ⟨replace name value b.entries⟩

/-- Whether a name is bound. -/
def contains (b : Bindings α) (name : String) : Bool := (b.get? name).isSome

/-- Bindings made in turn. -/
def ofList (entries : List (String × α)) : Bindings α :=
  entries.foldl (fun b (name, value) => b.insert name value) ∅

@[simp] theorem get?_empty (name : String) : (∅ : Bindings α).get? name = none := rfl

theorem find?_replace (name other : String) (value : α) (entries : List (String × α)) :
    find? other (replace name value entries) =
      if name = other then some value else find? other entries := by
  induction entries with
  | nil => rfl
  | cons e rest ih =>
    obtain ⟨k, v⟩ := e
    by_cases hk : k = name
    · subst hk
      simp only [replace, if_true, find?]
      split <;> rfl
    · simp only [replace, hk, if_false, find?, ih]
      by_cases ho : name = other
      · subst ho
        simp [hk]
      · simp [ho]

theorem get?_insert (b : Bindings α) (name other : String) (value : α) :
    (b.insert name value).get? other = if name = other then some value else b.get? other :=
  find?_replace name other value b.entries

@[simp] theorem get?_insert_self (b : Bindings α) (name : String) (value : α) :
    (b.insert name value).get? name = some value := by
  simp [get?_insert]

theorem get?_insert_of_ne (b : Bindings α) {name other : String} (value : α) (h : name ≠ other) :
    (b.insert name value).get? other = b.get? other := by
  simp [get?_insert, h]

end Bindings

end Lox
