/-!
Maps from names that remember the order in which their keys first appeared.
-/

set_option autoImplicit false

namespace Nodecraft.Sandbox

/-- Entries in order of insertion, each key once. -/
abbrev Fields (α : Type) := List (String × α)

namespace Fields

variable {α : Type}

def get? (fields : Fields α) (key : String) : Option α := fields.lookup key

def has (fields : Fields α) (key : String) : Bool := (fields.lookup key).isSome

/-- A known key keeps its place; a new one goes to the end. -/
def insert : Fields α → String → α → Fields α
  | [], key, value => [(key, value)]
  | (k, v) :: rest, key, value =>
    if k == key then (k, value) :: rest else (k, v) :: insert rest key value

def erase : Fields α → String → Fields α
  | [], _ => []
  | (k, v) :: rest, key => if k == key then rest else (k, v) :: erase rest key

def keys (fields : Fields α) : List String := fields.map Prod.fst

def ofList (entries : List (String × α)) : Fields α :=
  entries.foldl (fun fields (k, v) => fields.insert k v) []

@[simp] theorem get?_insert_self (fields : Fields α) (key : String) (value : α) :
    (fields.insert key value).get? key = some value := by
  induction fields with
  | nil => simp [insert, get?]
  | cons entry rest ih =>
    obtain ⟨k, v⟩ := entry
    by_cases h : k = key
    · simp [insert, get?, h]
    · have hk : (key == k) = false := by simpa using Ne.symm h
      simpa [insert, get?, h, List.lookup_cons, hk] using ih

theorem get?_insert_of_ne (fields : Fields α) {key k : String} (value : α) (h : k ≠ key) :
    (fields.insert key value).get? k = fields.get? k := by
  induction fields with
  | nil => simp [insert, get?, h]
  | cons entry rest ih =>
    obtain ⟨k', v⟩ := entry
    by_cases hk : k' = key
    · simp [insert, get?, hk, List.lookup_cons, beq_false_of_ne h]
    · simp only [get?] at ih
      simp [insert, get?, hk, List.lookup_cons, ih]

theorem get?_erase_of_ne (fields : Fields α) {key k : String} (h : k ≠ key) :
    (fields.erase key).get? k = fields.get? k := by
  induction fields with
  | nil => rfl
  | cons entry rest ih =>
    obtain ⟨k', v⟩ := entry
    by_cases hk : k' = key
    · simp [erase, get?, hk, List.lookup_cons, beq_false_of_ne h]
    · simp only [get?] at ih
      simp [erase, get?, hk, List.lookup_cons, ih]

/-- An entry that is kept is still found. -/
theorem get?_filter_of_pos {fields : Fields α} {key : String} {value : α} {p : String × α → Bool}
    (h : fields.get? key = some value) (hp : p (key, value) = true) :
    Fields.get? (fields.filter p) key = some value := by
  induction fields with
  | nil => cases h
  | cons entry rest ih =>
    obtain ⟨k, v⟩ := entry
    unfold get? at h ih ⊢
    rw [List.lookup_cons] at h
    by_cases hk : key = k
    · subst hk
      rw [beq_self_eq_true] at h
      obtain rfl := Option.some.inj h
      rw [List.filter_cons_of_pos hp, List.lookup_cons, beq_self_eq_true]
    · rw [beq_false_of_ne hk] at h
      rw [List.filter_cons]
      split
      · rw [List.lookup_cons, beq_false_of_ne hk]
        exact ih h
      · exact ih h

end Fields

end Nodecraft.Sandbox
