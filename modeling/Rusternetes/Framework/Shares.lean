import Mathlib

/-! # Shared Ownership

    Several managers declare, each for itself, which paths they want; a path may be
    wanted by more than one. A declaration replaces the manager's earlier one, and
    a forced declaration takes its paths away from everyone else. The wanted paths
    are those of every manager's latest declaration, without what was taken from it.

    A keeper of such a ledger who does not let a manager go from a path that others
    own too keeps a different ledger. The two agree exactly as long as nobody leaves
    out a path that is shared.
-/

namespace Framework

/-- What a manager declares. -/
structure Claim (M P : Type*) where
  manager : M
  paths : Set P
  force : Bool

namespace Claim

variable {M P : Type*} [DecidableEq M]

/-- The paths a declaration takes from the other managers. -/
def taken (c : Claim M P) : Set P := {p | c.force = true ∧ p ∈ c.paths}

/-- The owners after a declaration: its manager owns what it declares. -/
def settle (c : Claim M P) (own : M → Set P) : M → Set P := fun m =>
  if m = c.manager then c.paths else own m \ c.taken

/-- The owners when a path that someone else owns too is never given up. -/
def cling (c : Claim M P) (own : M → Set P) : M → Set P := fun m =>
  if m = c.manager then c.paths ∪ {p | p ∈ own m ∧ ∃ m', m' ≠ m ∧ p ∈ own m'}
  else own m \ c.taken

/-- The declaration leaves out nothing that its manager shares. -/
def KeepsShared (c : Claim M P) (own : M → Set P) : Prop :=
  ∀ p ∈ own c.manager, p ∉ c.paths → ∀ m, m ≠ c.manager → p ∉ own m

/-- What every manager wants after a history, the latest declaration first. -/
def intents : List (Claim M P) → M → Set P
  | [] => fun _ => ∅
  | c :: earlier => c.settle (intents earlier)

variable (c : Claim M P) (own : M → Set P)

theorem settle_manager : c.settle own c.manager = c.paths :=
  if_pos rfl

theorem settle_of_ne {m : M} (hm : m ≠ c.manager) : c.settle own m = own m \ c.taken :=
  if_neg hm

theorem cling_manager :
    c.cling own c.manager =
      c.paths ∪ {p | p ∈ own c.manager ∧ ∃ m, m ≠ c.manager ∧ p ∈ own m} :=
  if_pos rfl

theorem cling_of_ne {m : M} (hm : m ≠ c.manager) : c.cling own m = own m \ c.taken :=
  if_neg hm

/-- **One declaration**: the two ledgers stay the same exactly when nothing shared is
    left out. -/
theorem cling_eq_settle_iff : c.cling own = c.settle own ↔ c.KeepsShared own := by
  constructor
  · intro heq p hp hout m hm hpm
    -- the manager would still be on record for the path
    have hcling : p ∈ c.cling own c.manager := by
      rw [cling_manager]
      exact .inr ⟨hp, m, hm, hpm⟩
    rw [heq, settle_manager] at hcling
    exact hout hcling
  · intro hkeeps
    funext m
    by_cases hm : m = c.manager
    · subst hm
      rw [cling_manager, settle_manager]
      apply Set.union_eq_left.mpr
      intro p ⟨hp, m, hm, hpm⟩
      by_contra hout
      exact hkeeps p hp hout m hm hpm
    · rw [cling_of_ne c own hm, settle_of_ne c own hm]

/-- What is owned at all when owners cling: the declared paths, and the owned ones that
    the manager does not leave out as their only owner. -/
theorem exists_mem_cling_iff (p : P) :
    (∃ m, p ∈ c.cling own m) ↔
      p ∈ c.paths ∨ ((∃ m, p ∈ own m) ∧
        ¬(p ∈ own c.manager ∧ ∀ m, m ≠ c.manager → p ∉ own m)) := by
  constructor
  · intro ⟨m, hp⟩
    by_cases hm : m = c.manager
    · subst hm
      rw [cling_manager] at hp
      rcases hp with hp | ⟨hp, m, hm, hpm⟩
      · exact .inl hp
      · exact .inr ⟨⟨_, hp⟩, fun hsole => hsole.2 m hm hpm⟩
    · rw [cling_of_ne c own hm] at hp
      exact .inr ⟨⟨m, hp.1⟩, fun hsole => hsole.2 m hm hp.1⟩
  · intro h
    by_cases hin : p ∈ c.paths
    · refine ⟨c.manager, ?_⟩
      rw [cling_manager]
      exact .inl hin
    · obtain ⟨⟨m, hp⟩, hsole⟩ := h.resolve_left hin
      -- someone else owns it, and keeps it: a path outside the declaration is not taken
      have hother : ∃ m, m ≠ c.manager ∧ p ∈ own m := by
        by_contra hnone
        have halone : ∀ m, m ≠ c.manager → p ∉ own m := fun m hm hpm => hnone ⟨m, hm, hpm⟩
        by_cases hm : m = c.manager
        · exact hsole ⟨hm ▸ hp, halone⟩
        · exact halone m hm hp
      obtain ⟨m', hm', hp'⟩ := hother
      refine ⟨m', ?_⟩
      rw [cling_of_ne c own hm']
      exact ⟨hp', fun htaken => hin htaken.2⟩

end Claim

end Framework
