import Mathlib

/-! # Greedy Thinning

    A set that suffices is thinned along a list: each item is dropped if the rest still
    suffices. Where more always suffices if less does, what is left is minimal.
-/

open Finset

namespace Framework.Greedy

variable {α : Type} [DecidableEq α] {fits : Finset α → Prop}

/-- `Thins fits l R R'`: dropping along `l` what is not needed leads from `R` to `R'`. -/
inductive Thins (fits : Finset α → Prop) : List α → Finset α → Finset α → Prop where
  | nil (R : Finset α) : Thins fits [] R R
  | drop {a : α} {l : List α} {R R' : Finset α} :
      fits (R.erase a) → Thins fits l (R.erase a) R' → Thins fits (a :: l) R R'
  | keep {a : α} {l : List α} {R R' : Finset α} :
      ¬fits (R.erase a) → Thins fits l R R' → Thins fits (a :: l) R R'

variable {R : Finset α} {l : List α}

theorem Thins.append {l' : List α} {S T : Finset α} (h : Thins fits l R S) (h' : Thins fits l' S T) :
    Thins fits (l ++ l') R T := by
  induction h with
  | nil => exact h'
  | drop hfits _ ih => exact .drop hfits (ih h')
  | keep hfits _ ih => exact .keep hfits (ih h')

theorem Thins.split {l' : List α} {T : Finset α} (h : Thins fits (l ++ l') R T) :
    ∃ S, Thins fits l R S ∧ Thins fits l' S T := by
  induction l generalizing R with
  | nil => exact ⟨R, .nil R, h⟩
  | cons a l ih =>
    cases h with
    | drop hfits h =>
      obtain ⟨S, hS, hT⟩ := ih h
      exact ⟨S, .drop hfits hS, hT⟩
    | keep hfits h =>
      obtain ⟨S, hS, hT⟩ := ih h
      exact ⟨S, .keep hfits hS, hT⟩

variable {R' : Finset α}

theorem Thins.subset (h : Thins fits l R R') : R' ⊆ R := by
  induction h with
  | nil R => exact Subset.refl R
  | drop _ _ ih => exact ih.trans (erase_subset _ _)
  | keep _ _ ih => exact ih

/-- Only what is on the list is dropped. -/
theorem Thins.mem_of_notMem (h : Thins fits l R R') {x : α} (hx : x ∈ R) (hl : x ∉ l) : x ∈ R' := by
  induction h with
  | nil => exact hx
  | drop _ _ ih =>
    rw [List.mem_cons, not_or] at hl
    exact ih (mem_erase.mpr ⟨hl.1, hx⟩) hl.2
  | keep _ _ ih => exact ih hx fun hmem => hl (.tail _ hmem)

theorem Thins.enough (h : Thins fits l R R') (hR : fits R) : fits R' := by
  induction h with
  | nil => exact hR
  | drop hfits _ ih => exact ih hfits
  | keep _ _ ih => exact ih hR

/-- **What stays was needed** beside everything that had not been dropped before it. -/
theorem Thins.needed {pre post : List α} {a : α} (h : Thins fits (pre ++ a :: post) R R')
    (hnodup : (pre ++ a :: post).Nodup) (ha : a ∈ R') :
    ¬fits ((R \ (pre.toFinset \ R')).erase a) := by
  obtain ⟨S, hpre, hpost⟩ := h.split
  -- what was left when `a` had its turn
  have hS : S = R \ (pre.toFinset \ R') := by
    ext x
    rw [mem_sdiff, mem_sdiff, List.mem_toFinset]
    constructor
    · intro hx
      refine ⟨hpre.subset hx, fun hdropped => hdropped.2 ?_⟩
      exact hpost.mem_of_notMem hx fun hmem =>
        List.disjoint_of_nodup_append hnodup hdropped.1 hmem
    · intro ⟨hx, hnot⟩
      by_cases hmem : x ∈ pre
      · exact hpost.subset (not_not.mp fun hout => hnot ⟨hmem, hout⟩)
      · exact hpre.mem_of_notMem hx hmem
  rw [← hS]
  cases hpost with
  | drop _ h => exact absurd (h.subset ha) (notMem_erase a S)
  | keep hfits _ => exact hfits

/-- Where more suffices if less does, nothing on the list can be dropped from what stays. -/
theorem Thins.blocked {U : Finset α} (h : Thins fits l R R') (hU : R ⊆ U)
    (hmono : ∀ S T, S ⊆ T → T ⊆ U → fits S → fits T) {a : α} (hl : a ∈ l) (ha : a ∈ R') :
    ¬fits (R'.erase a) := by
  induction h with
  | nil => nomatch hl
  | @drop b l R R' _ h ih =>
    rcases List.mem_cons.mp hl with rfl | hl
    · exact absurd (h.subset ha) (notMem_erase a R)
    · exact ih (Subset.trans (erase_subset _ _) hU) hl ha
  | @keep b l R R' hfits h ih =>
    rcases List.mem_cons.mp hl with rfl | hl
    · intro hless
      refine hfits (hmono _ _ (erase_subset_erase a h.subset) ?_ hless)
      exact Subset.trans (erase_subset _ _) hU
    · exact ih hU hl ha

/-- **Minimality**: thinned along all its items, a set has no proper part that suffices. -/
theorem Thins.minimal (h : Thins fits l R R') (hall : ∀ a ∈ R, a ∈ l)
    (hmono : ∀ S T, S ⊆ T → T ⊆ R → fits S → fits T) {S : Finset α} (hS : S ⊂ R') : ¬fits S := by
  have hsub := hS.subset
  obtain ⟨a, ha, hout⟩ := exists_of_ssubset hS
  intro hfits
  refine h.blocked (Subset.refl R) hmono (hall a (h.subset ha)) ha ?_
  refine hmono S _ ?_ (Subset.trans (erase_subset _ _) h.subset) hfits
  exact fun x hx => mem_erase.mpr ⟨fun heq => hout (heq ▸ hx), hsub hx⟩

end Framework.Greedy
