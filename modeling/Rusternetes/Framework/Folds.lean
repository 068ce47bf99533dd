import Mathlib

/-! # Loops That May Stop

    Rules for a loop over a list whose body may give up: what the body keeps, what it
    does for each item, and when the loop does not give up.
-/

namespace Framework.Folds

theorem bind_eq_ok {ε α β : Type} {x : Except ε α} {f : α → Except ε β} {b : β} :
    x.bind f = .ok b ↔ ∃ a, x = .ok a ∧ f a = .ok b := by
  cases x <;> simp [Except.bind]

theorem map_eq_ok {ε α β : Type} {f : α → β} {x : Except ε α} {b : β} :
    x.map f = .ok b ↔ ∃ a, x = .ok a ∧ f a = b := by
  cases x <;> simp [Except.map]

theorem mapError_eq_ok {ε ε' α : Type} {f : ε → ε'} {x : Except ε α} {a : α} :
    x.mapError f = .ok a ↔ x = .ok a := by
  cases x <;> simp [Except.mapError]

variable {σ α : Type} {f : σ → α → Option σ} {l : List α} {s s' : σ}

theorem foldlM_cons_eq_some {a : α} :
    (a :: l).foldlM f s = some s' ↔ ∃ t, f s a = some t ∧ l.foldlM f t = some s' := by
  exact Option.bind_eq_some_iff

variable {P : σ → Prop}

/-- **For-each rule**: what the body keeps, the loop keeps, and what the body does for an item
    and every later state keeps, the loop does for all items. -/
theorem foldlM_forall {R : σ → σ → Prop} {H : σ → α → Prop} (hrefl : ∀ s, R s s)
    (htrans : ∀ s t u, R s t → R t u → R s u) (hkeep : ∀ s t a, R s t → H s a → H t a)
    (hstep : ∀ s a s', a ∈ l → P s → f s a = some s' → P s' ∧ R s s' ∧ H s' a) (hs : P s)
    (h : l.foldlM f s = some s') : P s' ∧ R s s' ∧ ∀ a ∈ l, H s' a := by
  induction l generalizing s with
  | nil =>
    obtain rfl := Option.some.inj h
    exact ⟨hs, hrefl s, fun a ha => absurd ha List.not_mem_nil⟩
  | cons a l ih =>
    obtain ⟨t, ht, hrest⟩ := foldlM_cons_eq_some.mp h
    obtain ⟨hP, hR, hH⟩ := hstep s a t (.head _) hs ht
    obtain ⟨hP', hR', hH'⟩ := ih (fun s b s' hb => hstep s b s' (.tail _ hb)) hP hrest
    exact ⟨hP', htrans s t s' hR hR', List.forall_mem_cons.mpr ⟨hkeep t s' a hR' hH, hH'⟩⟩

/-- **Invariant rule**: what the body keeps, the loop keeps. -/
theorem foldlM_invariant (hstep : ∀ s a s', a ∈ l → P s → f s a = some s' → P s') (hs : P s)
    (h : l.foldlM f s = some s') : P s' :=
  (foldlM_forall (R := fun _ _ => True) (H := fun _ _ => True) (fun _ => trivial)
    (fun _ _ _ _ _ => trivial) (fun _ _ _ _ _ => trivial)
    (fun s a s' ha hP hf => ⟨hstep s a s' ha hP hf, trivial, trivial⟩) hs h).1

/-- **Totality rule**: a loop whose body never gives up in the states it keeps to. -/
theorem foldlM_total (hstep : ∀ s a, a ∈ l → P s → ∃ s', f s a = some s' ∧ P s') (hs : P s) :
    ∃ s', l.foldlM f s = some s' ∧ P s' := by
  induction l generalizing s with
  | nil => exact ⟨s, rfl, hs⟩
  | cons a l ih =>
    obtain ⟨t, ht, hP⟩ := hstep s a (.head _) hs
    obtain ⟨s', hs', hP'⟩ := ih (fun s b hb => hstep s b (.tail _ hb)) hP
    exact ⟨s', foldlM_cons_eq_some.mpr ⟨t, ht, hs'⟩, hP'⟩

end Framework.Folds
