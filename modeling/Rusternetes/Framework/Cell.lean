import Mathlib

/-! # A Versioned Cell

    One key of a storage with revisions. Every write and every removal takes a new
    revision, so a revision names one value for ever: a value read earlier is the
    current one exactly when its revision is the current one. This is what a
    compare-and-swap on revisions rests on.
-/

namespace Framework

structure Versioned (α : Type) where
  value : α
  revision : Nat

/-- What is stored, and the last revision taken. -/
structure Cell (α : Type) where
  content : Option (Versioned α)
  last : Nat
  bound : ∀ x, content = some x → x.revision ≤ last

namespace Cell

variable {α : Type}

/-- Write a value under a new revision. -/
def put (c : Cell α) (a : α) : Cell α where
  content := some ⟨a, c.last + 1⟩
  last := c.last + 1
  bound := by
    intro x hx
    cases hx
    exact Nat.le_refl _

/-- Remove the value. -/
def clear (c : Cell α) : Cell α where
  content := none
  last := c.last + 1
  bound := by simp

/-- A revision is taken by another key. -/
def pass (c : Cell α) : Cell α where
  content := c.content
  last := c.last + 1
  bound := fun x hx => Nat.le_succ_of_le (c.bound x hx)

/-- One operation on the cell, or none. -/
inductive Next (c : Cell α) : Cell α → Prop where
  | same : Next c c
  | put (a : α) : Next c (c.put a)
  | clear : Next c c.clear
  | pass : Next c c.pass

/-- `x` was in the cell at some time. -/
structure Recorded (c : Cell α) (x : Versioned α) : Prop where
  le_last : x.revision ≤ c.last
  le_content : ∀ y, c.content = some y → x.revision ≤ y.revision
  content_eq : ∀ y, c.content = some y → y.revision = x.revision → y = x

variable {c : Cell α} {x : Versioned α}

theorem recorded_of_content (h : c.content = some x) : c.Recorded x := by
  refine ⟨c.bound x h, ?_, ?_⟩
  · intro y hy
    rw [h] at hy
    cases hy
    exact Nat.le_refl _
  · intro y hy _
    rw [h] at hy
    exact (Option.some.inj hy).symm

theorem Recorded.next {c' : Cell α} (h : c.Recorded x) (hn : Next c c') :
    c'.Recorded x := by
  cases hn with
  | same => exact h
  | put a =>
    have hlt : x.revision < c.last + 1 := Nat.lt_succ_of_le h.le_last
    refine ⟨Nat.le_of_lt hlt, ?_, ?_⟩
    · intro y hy
      cases hy
      exact Nat.le_of_lt hlt
    · intro y hy heq
      cases hy
      exact absurd heq (Nat.ne_of_gt hlt)
  | clear =>
    exact ⟨Nat.le_succ_of_le h.le_last, nofun,
      nofun⟩
  | pass => exact ⟨Nat.le_succ_of_le h.le_last, h.le_content, h.content_eq⟩

theorem Recorded.eq_of_revision_eq {y : Versioned α} (h : c.Recorded x) (hy : c.content = some y)
    (heq : x.revision = y.revision) : x = y :=
  (h.content_eq y hy heq.symm).symm

end Cell

end Framework
