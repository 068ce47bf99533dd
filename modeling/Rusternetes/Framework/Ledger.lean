import Mathlib

/-! # Ledgers of Grants

    A ledger lists, newest first, events that grant things and events that clear
    them. It is exclusive when nothing is granted twice without being cleared in
    between; it stays so as long as only what nobody holds is granted.
-/

namespace Framework.Ledger

variable {ε α : Type} (grants clears : ε → α → Prop)

/-- `a` was granted and not cleared since. -/
def Holds : List ε → α → Prop
  | [], _ => False
  | e :: log, a => grants e a ∨ (Holds log a ∧ ¬clears e a)

def Exclusive (log : List ε) : Prop :=
  ∀ later second between first earlier a,
    log = later ++ second :: (between ++ first :: earlier) → grants second a → grants first a →
      ∃ e ∈ between, clears e a

variable {grants clears}

theorem cleared_of_not_holds {between earlier : List ε} {first : ε} {a : α}
    (h : ¬Holds grants clears (between ++ first :: earlier) a) (hfirst : grants first a) :
    ∃ e ∈ between, clears e a := by
  induction between with
  | nil => exact absurd (Or.inl hfirst) h
  | cons e between ih =>
    by_cases hclear : clears e a
    · exact ⟨e, .head _, hclear⟩
    · -- nothing is cleared here, so `a` was not held before either
      have hbefore : ¬Holds grants clears (between ++ first :: earlier) a :=
        fun hheld => h (.inr ⟨hheld, hclear⟩)
      obtain ⟨e', he', hclear'⟩ := ih hbefore
      exact ⟨e', .tail _ he', hclear'⟩

theorem exclusive_nil : Exclusive grants clears [] := by
  intro later second between first earlier a h
  simp at h

theorem Exclusive.cons {log : List ε} (h : Exclusive grants clears log) {e : ε}
    (hfree : ∀ a, grants e a → ¬Holds grants clears log a) : Exclusive grants clears (e :: log) := by
  intro later second between first earlier a hlog hsecond hfirst
  cases later with
  | nil =>
    cases hlog
    exact cleared_of_not_holds (hfree a hsecond) hfirst
  | cons e' later =>
    obtain ⟨_, hlog⟩ : e = e' ∧ log = later ++ second :: (between ++ first :: earlier) := by
      simpa using hlog
    exact h later second between first earlier a hlog hsecond hfirst

end Framework.Ledger
