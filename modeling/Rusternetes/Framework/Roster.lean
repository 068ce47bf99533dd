import Mathlib

/-! # Rosters

    Lists of things with distinct names, as a store lists them. Nothing is changed but
    by its name.
-/

open List

namespace Framework

/-- Things with distinct names. -/
structure Roster (α : Type) (name : α → String) where
  items : List α
  nodup : (items.map name).Nodup

namespace Roster

variable {α : Type} {name : α → String}

def find (r : Roster α name) (n : String) : Option α := r.items.find? fun a => name a = n

def change (r : Roster α name) (f : α → α) (hf : ∀ a, name (f a) = name a) : Roster α name where
  items := r.items.map f
  nodup := by
    have hnames : (r.items.map f).map name = r.items.map name := by
      rw [List.map_map]
      exact List.map_congr_left fun a _ => hf a
    rw [hnames]
    exact r.nodup

/-- Put a thing in the place of the one of its name. -/
def set (r : Roster α name) (a : α) : Roster α name :=
  r.change (fun b => if name b = name a then a else b) (by
    intro b
    split_ifs with h
    · exact h.symm
    · rfl)

/-- Add a thing, unless its name is taken. -/
def create (r : Roster α name) (a : α) : Roster α name :=
  if h : name a ∈ r.items.map name then r
  else
    { items := r.items ++ [a]
      nodup := by
        rw [List.map_append, List.nodup_append]
        refine ⟨r.nodup, List.nodup_singleton _, ?_⟩
        intro x hx y hy heq
        rw [List.map_singleton, List.mem_singleton] at hy
        exact h (hy ▸ heq ▸ hx) }

/-- The things that meet a condition. -/
def keep (r : Roster α name) (p : α → Bool) : Roster α name where
  items := r.items.filter p
  nodup := r.nodup.sublist (List.Sublist.map name List.filter_sublist)

variable (r : Roster α name)

theorem eq_of_name {a b : α} (ha : a ∈ r.items) (hb : b ∈ r.items) (h : name a = name b) : a = b :=
  inj_on_of_nodup_map r.nodup ha hb h

theorem find_eq_some {r : Roster α name} {n : String} {a : α} :
    r.find n = some a ↔ a ∈ r.items ∧ name a = n := by
  have hfound : ∀ {b : α}, r.find n = some b → b ∈ r.items ∧ name b = n := by
    intro b h
    have hname := find?_some (p := fun a => decide (name a = n)) h
    exact ⟨mem_of_find?_eq_some h, of_decide_eq_true hname⟩
  constructor
  · exact hfound
  · intro ⟨ha, hname⟩
    cases hfind : r.find n with
    | none =>
      have hnot := find?_eq_none.mp hfind a ha
      exact absurd (decide_eq_true hname) hnot
    | some b =>
      obtain ⟨hb, hname'⟩ := hfound hfind
      rw [r.eq_of_name hb ha (hname'.trans hname.symm)]

theorem find_eq_none {r : Roster α name} {n : String} :
    r.find n = none ↔ ∀ a ∈ r.items, name a ≠ n := by
  unfold find
  simp

end Roster

end Framework
