import Rusternetes.Framework.Json

/-! # A Text Form of JSON Values

    A text for every value, and a reader that gets the value back: a tag for the
    kind of value, texts character by character up to a mark, lists item by item up
    to a mark. Developments that take some text form as given are run with this one.
-/

namespace Framework

namespace JsonText

/-! ### Writing -/

def write_text (s : String) : List Char := s.toList.flatMap (fun c => ['.', c]) ++ ['!']

mutual

def write : Json → List Char
  | .null => ['n']
  | .bool b => [if b then 't' else 'f']
  | .number n => '#' :: write_text n
  | .string s => '$' :: write_text s
  | .array items => '[' :: write_items items
  | .object fields => '(' :: write_fields fields

def write_items : List Json → List Char
  | [] => [']']
  | v :: rest => ',' :: (write v ++ write_items rest)

def write_fields : List (String × Json) → List Char
  | [] => [')']
  | (k, v) :: rest => ',' :: (write_text k ++ (write v ++ write_fields rest))

end

/-! ### Reading -/

def read_chars : List Char → Option (List Char × List Char)
  | '.' :: c :: rest => (read_chars rest).map fun r => (c :: r.1, r.2)
  | '!' :: rest => some ([], rest)
  | _ => none

def read_text (cs : List Char) : Option (String × List Char) :=
  (read_chars cs).map fun r => (String.ofList r.1, r.2)

mutual

/-- One value and what follows it. The fuel bounds the number of tags read. -/
def read : Nat → List Char → Option (Json × List Char)
  | n + 1, c :: cs =>
    match c with
    | 'n' => some (.null, cs)
    | 't' => some (.bool true, cs)
    | 'f' => some (.bool false, cs)
    | '#' => (read_text cs).map fun r => (.number r.1, r.2)
    | '$' => (read_text cs).map fun r => (.string r.1, r.2)
    | '[' => (read_items n cs).map fun r => (.array r.1, r.2)
    | '(' => (read_fields n cs).map fun r => (.object r.1, r.2)
    | _ => none
  | _, _ => none

def read_items : Nat → List Char → Option (List Json × List Char)
  | n + 1, ',' :: cs => do
    let (v, cs) ← read n cs
    let (rest, cs) ← read_items n cs
    return (v :: rest, cs)
  | _ + 1, ']' :: cs => some ([], cs)
  | _, _ => none

def read_fields : Nat → List Char → Option (List (String × Json) × List Char)
  | n + 1, ',' :: cs => do
    let (k, cs) ← read_text cs
    let (v, cs) ← read n cs
    let (rest, cs) ← read_fields n cs
    return ((k, v) :: rest, cs)
  | _ + 1, ')' :: cs => some ([], cs)
  | _, _ => none

end

/-! ### Round trip -/

theorem read_text_write_text (s : String) (rest : List Char) :
    read_text (write_text s ++ rest) = some (s, rest) := by
  have hchars : ∀ cs : List Char,
      read_chars (cs.flatMap (fun c => ['.', c]) ++ ['!'] ++ rest) = some (cs, rest) := by
    intro cs
    induction cs with
    | nil => rfl
    | cons c cs ih =>
      show (read_chars (cs.flatMap (fun c => ['.', c]) ++ ['!'] ++ rest)).map _ = _
      rw [ih]
      rfl
  rw [read_text, write_text, hchars, Option.map_some, String.ofList_toList]

mutual

/-- **What is written is read back**, with what follows it. -/
theorem read_write : ∀ (v : Json) (n : Nat) (rest : List Char), (write v).length ≤ n →
    read n (write v ++ rest) = some (v, rest)
  | v, 0, rest, h => by
    cases v <;> simp [write] at h
  | .null, n + 1, rest, _ => rfl
  | .bool b, n + 1, rest, _ => by cases b <;> rfl
  | .number s, n + 1, rest, _ | .string s, n + 1, rest, _ => by
    show (read_text (write_text s ++ rest)).map _ = _
    rw [read_text_write_text]
    rfl
  | .array items, n + 1, rest, h => by
    have hle : (write_items items).length ≤ n := by
      rw [write, List.length_cons] at h
      omega
    show (read_items n (write_items items ++ rest)).map _ = _
    rw [read_items_write_items items n rest hle]
    rfl
  | .object fields, n + 1, rest, h => by
    have hle : (write_fields fields).length ≤ n := by
      rw [write, List.length_cons] at h
      omega
    show (read_fields n (write_fields fields ++ rest)).map _ = _
    rw [read_fields_write_fields fields n rest hle]
    rfl

theorem read_items_write_items : ∀ (vs : List Json) (n : Nat) (rest : List Char),
    (write_items vs).length ≤ n → read_items n (write_items vs ++ rest) = some (vs, rest)
  | vs, 0, rest, h => by
    cases vs <;> simp [write_items] at h
  | [], n + 1, rest, _ => rfl
  | v :: vs, n + 1, rest, h => by
    rw [write_items, List.length_cons, List.length_append] at h
    have hv := read_write v n (write_items vs ++ rest) (by omega)
    have hvs := read_items_write_items vs n rest (by omega)
    rw [write_items, List.cons_append, List.append_assoc]
    show (read n (write v ++ (write_items vs ++ rest)) >>= _) = _
    rw [hv]
    show (read_items n (write_items vs ++ rest) >>= _) = _
    rw [hvs]
    rfl

theorem read_fields_write_fields : ∀ (fs : List (String × Json)) (n : Nat) (rest : List Char),
    (write_fields fs).length ≤ n → read_fields n (write_fields fs ++ rest) = some (fs, rest)
  | fs, 0, rest, h => by
    cases fs <;> simp [write_fields] at h
  | [], n + 1, rest, _ => rfl
  | (k, v) :: fs, n + 1, rest, h => by
    rw [write_fields, List.length_cons, List.length_append, List.length_append] at h
    have hk := read_text_write_text k (write v ++ (write_fields fs ++ rest))
    have hv := read_write v n (write_fields fs ++ rest) (by omega)
    have hfs := read_fields_write_fields fs n rest (by omega)
    rw [write_fields, List.cons_append, List.append_assoc, List.append_assoc]
    show (read_text (write_text k ++ (write v ++ (write_fields fs ++ rest))) >>= _) = _
    rw [hk]
    show (read n (write v ++ (write_fields fs ++ rest)) >>= _) = _
    rw [hv]
    show (read_fields n (write_fields fs ++ rest) >>= _) = _
    rw [hfs]
    rfl

end

/-! ### Texts -/

def to_string (v : Json) : String := String.ofList (write v)

def from_str (s : String) : Option Json :=
  match read s.toList.length s.toList with
  | some (v, []) => some v
  | _ => none

theorem from_to_string (v : Json) : from_str (to_string v) = some v := by
  have hread := read_write v (write v).length [] le_rfl
  rw [List.append_nil] at hread
  rw [from_str, to_string, String.toList_ofList, hread]

def format_time (t : Int) : String :=
  String.ofList ((if t < 0 then '-' else '+') :: List.replicate t.natAbs '|')

def parse_time (s : String) : Option Int :=
  match s.toList with
  | '+' :: tally => some tally.length
  | '-' :: tally => some (-tally.length)
  | _ => none

theorem parse_format_time (t : Int) : parse_time (format_time t) = some t := by
  rw [parse_time, format_time, String.toList_ofList]
  split_ifs with h
  · simp only [List.length_replicate, Option.some.injEq]
    omega
  · simp only [List.length_replicate, Option.some.injEq]
    omega

end JsonText

end Framework
