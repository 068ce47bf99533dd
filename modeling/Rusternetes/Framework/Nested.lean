import Rusternetes.Framework.Json
import Rusternetes.Framework.Trie

/-! # Tries as Nested Objects

    A trie of texts written as JSON: an object with one member for every element
    that goes on, down to empty objects. The marks are not written, so the form
    says which paths are in the set only where no path of the set goes on from
    another.
-/

namespace Framework

namespace Trie

/-- The members of the object that a trie is written as. -/
def nested : Trie String → List (String × Json)
  | .node _ cs => nested_children cs
where
  nested_children : List (String × Trie String) → List (String × Json)
    | [] => []
    | (k, c) :: rest => (k, .object (nested c)) :: nested_children rest

theorem nested_node (m : Bool) (cs : List (String × Trie String)) :
    (Trie.node m cs).nested = nested.nested_children cs := by
  rw [nested]

theorem nested_children_set (cs : List (String × Trie String)) (k : String) (c : Trie String) :
    nested.nested_children (Assoc.set cs k c) =
      Json.insert_field (nested.nested_children cs) k (.object c.nested) := by
  induction cs with
  | nil => simp [Assoc.set, nested.nested_children, Json.insert_field]
  | cons d rest ih =>
    obtain ⟨k', d⟩ := d
    rw [Assoc.set, nested.nested_children, Json.insert_field]
    split_ifs with hk hlt
    · rw [nested.nested_children]
    · rw [nested.nested_children, nested.nested_children]
    · rw [nested.nested_children, ih]

variable (t : Trie String)

theorem lookup_nested (k : String) :
    t.nested.lookup k = (t.child k).map fun c => .object c.nested := by
  obtain ⟨m, cs⟩ := t
  rw [nested_node, child, children]
  induction cs with
  | nil => rfl
  | cons d rest ih =>
    obtain ⟨k', d⟩ := d
    rw [nested.nested_children, Assoc.lookup_cons, Assoc.lookup_cons, ih]
    split_ifs <;> rfl

/-- The child under an element, empty when there is none. -/
def at_child (t : Trie String) (e : String) : Trie String := (t.child e).getD empty

theorem lookup_nested_getD (k : String) :
    (t.nested.lookup k).getD (.object []) = .object (t.at_child k).nested := by
  rw [lookup_nested, at_child]
  cases t.child k with
  | none => rfl
  | some c => rfl

theorem nested_insert_nil : (t.insert []).nested = t.nested := by
  obtain ⟨m, cs⟩ := t
  rw [insert, nested_node, nested_node, children]

theorem nested_insert_cons (e : String) (p : List String) :
    (t.insert (e :: p)).nested =
      Json.insert_field t.nested e (.object ((t.at_child e).insert p).nested) := by
  obtain ⟨m, cs⟩ := t
  rw [insert, nested_node, nested_children_set, nested_node, children, at_child]

theorem has_at_child (e : String) (p : List String) : (t.at_child e).has p = t.has (e :: p) := by
  rw [has_cons, at_child]
  cases t.child e with
  | none => simp
  | some c => rfl

theorem Proper.at_child {t : Trie String} (h : t.Proper) (e : String) : (t.at_child e).Proper :=
  h.child_getD e

/-- Where no path goes on there is nothing to write. -/
theorem Proper.nested_eq_nil {t : Trie String} (h : t.Proper)
    (hstop : ∀ p, t.has p = true → p = []) : t.nested = [] := by
  cases h with
  | @node m cs sorted kept below =>
    cases cs with
    | nil => rfl
    | cons c rest =>
      obtain ⟨p, hp⟩ := (below c (.head _)).exists_has (kept c (.head _))
      have hhas : (Trie.node m (c :: rest)).has (c.1 :: p) = true :=
        (has_cons_of_mem p sorted (.head _)).trans hp
      exact absurd (hstop _ hhas) (List.cons_ne_nil _ _)

/-- Where nothing is written no path goes on. -/
theorem eq_nil_of_has {t : Trie String} (h : t.nested = []) {p : List String}
    (hp : t.has p = true) : p = [] := by
  cases p with
  | nil => rfl
  | cons e p =>
    have hlook := lookup_nested t e
    rw [h] at hlook
    rw [has_cons, Option.map_eq_none_iff.mp hlook.symm] at hp
    cases hp

/-- No path of the set goes on from another. -/
def Unextended (t : Trie String) : Prop :=
  ∀ p q, t.has p = true → t.has (p ++ q) = true → q = []

theorem Unextended.child {m : Bool} {cs : List (String × Trie String)}
    (h : (Trie.node m cs).Unextended) (sorted : Assoc.Sorted cs) {c : String × Trie String}
    (hc : c ∈ cs) : c.2.Unextended := by
  intro p q hp hq
  refine h (c.1 :: p) q ?_ ?_
  · exact (has_cons_of_mem p sorted hc).trans hp
  · exact (has_cons_of_mem (p ++ q) sorted hc).trans hq

end Trie

end Framework
