import Mathlib
import Rusternetes.Framework.Assoc

/-! # JSON Values

    Values as a decoder builds them, and how they are read: by key, as a string,
    as an array.
-/

namespace Framework

/-- A JSON value. Of a number only its text matters here. -/
inductive Json where
  | null
  | bool (b : Bool)
  | number (literal : String)
  | string (s : String)
  | array (items : List Json)
  | object (fields : List (String × Json))

namespace Json

/-! ### Equality -/

mutual

def same : Json → Json → Bool
  | .null, .null => true
  | .bool b, .bool b' => b == b'
  | .number n, .number n' => n == n'
  | .string s, .string s' => s == s'
  | .array items, .array items' => same_items items items'
  | .object fields, .object fields' => same_fields fields fields'
  | _, _ => false

def same_items : List Json → List Json → Bool
  | [], [] => true
  | v :: vs, w :: ws => same v w && same_items vs ws
  | _, _ => false

def same_fields : List (String × Json) → List (String × Json) → Bool
  | [], [] => true
  | (k, v) :: vs, (k', w) :: ws => k == k' && same v w && same_fields vs ws
  | _, _ => false

end

mutual

theorem same_iff : ∀ v w : Json, same v w = true ↔ v = w
  | .null, w => by cases w <;> simp [same]
  | .bool b, w => by cases w <;> simp [same]
  | .number n, w => by cases w <;> simp [same]
  | .string s, w => by cases w <;> simp [same]
  | .array items, w => by
    cases w with
    | array items' => simp [same, same_items_iff items items']
    | _ => simp [same]
  | .object fields, w => by
    cases w with
    | object fields' => simp [same, same_fields_iff fields fields']
    | _ => simp [same]

theorem same_items_iff : ∀ vs ws : List Json, same_items vs ws = true ↔ vs = ws
  | [], ws => by cases ws <;> simp [same_items]
  | v :: vs, ws => by
    cases ws with
    | nil => simp [same_items]
    | cons w ws => simp [same_items, same_iff v w, same_items_iff vs ws]

theorem same_fields_iff : ∀ vs ws : List (String × Json), same_fields vs ws = true ↔ vs = ws
  | [], ws => by cases ws <;> simp [same_fields]
  | (k, v) :: vs, ws => by
    cases ws with
    | nil => simp [same_fields]
    | cons f ws =>
      obtain ⟨k', w⟩ := f
      simp [same_fields, same_iff v w, same_fields_iff vs ws]

end

instance : DecidableEq Json := fun v w => decidable_of_iff _ (same_iff v w)

/-! ### Reading -/

def get (v : Json) (key : String) : Option Json :=
  match v with
  | .object fields => fields.lookup key
  | _ => none

def as_str : Json → Option String
  | .string s => some s
  | _ => none

def as_array : Json → Option (List Json)
  | .array items => some items
  | _ => none

def is_null : Json → Bool
  | .null => true
  | _ => false

/-! ### Members

    The members of an object are kept in the order of their keys. -/

/-- Set a member. -/
def insert_field : List (String × Json) → String → Json → List (String × Json)
  | [], key, v => [(key, v)]
  | (k, w) :: rest, key, v =>
    if k = key then (key, v) :: rest
    else if key < k then (key, v) :: (k, w) :: rest
    else (k, w) :: insert_field rest key v

/-- Take a member out. -/
def remove_field (fields : List (String × Json)) (key : String) : List (String × Json) :=
  fields.filter fun f => f.1 ≠ key

theorem insert_field_eq_set (fields : List (String × Json)) (key : String) (v : Json) :
    insert_field fields key v = Assoc.set fields key v := by
  induction fields with
  | nil => rfl
  | cons f rest ih => simp only [insert_field, Assoc.set, ih]

theorem lookup_insert_field (fields : List (String × Json)) (key : String) (v : Json) (k : String) :
    (insert_field fields key v).lookup k = if k = key then some v else fields.lookup k := by
  rw [insert_field_eq_set]
  exact Assoc.lookup_set fields key v k

theorem lookup_remove_field (fields : List (String × Json)) (key k : String) :
    (remove_field fields key).lookup k = if k = key then none else fields.lookup k := by
  unfold remove_field
  induction fields with
  | nil => simp
  | cons f rest ih =>
    obtain ⟨k', w⟩ := f
    by_cases hk' : k' = key
    · rw [List.filter_cons_of_neg (by simpa using hk'), ih, Assoc.lookup_cons]
      grind
    · rw [List.filter_cons_of_pos (by simpa using hk'), Assoc.lookup_cons, Assoc.lookup_cons, ih]
      grind

end Json

end Framework
