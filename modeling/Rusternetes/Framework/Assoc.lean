import Rusternetes.Framework.Table

/-! # Sorted Association Lists

    Maps as lists of entries whose keys increase, as a tree of nested values
    carries them.
-/

open List

namespace Framework

namespace Assoc

variable {K V : Type} [LinearOrder K]

def set : List (K × V) → K → V → List (K × V)
  | [], key, v => [(key, v)]
  | (k, w) :: rest, key, v =>
    if k = key then (key, v) :: rest
    else if key < k then (key, v) :: (k, w) :: rest
    else (k, w) :: set rest key v

/-- The keys increase. -/
def Sorted (l : List (K × V)) : Prop := l.Pairwise fun a b => a.1 < b.1

theorem lookup_cons (k k' : K) (w : V) (rest : List (K × V)) :
    ((k', w) :: rest).lookup k = if k = k' then some w else rest.lookup k := by
  by_cases hk : k = k'
  · rw [if_pos hk, List.lookup_cons, beq_iff_eq.mpr hk]
  · rw [if_neg hk, List.lookup_cons, beq_eq_false_iff_ne.mpr hk]

theorem lookup_set (l : List (K × V)) (key : K) (v : V) (k : K) :
    (set l key v).lookup k = if k = key then some v else l.lookup k := by
  induction l with
  | nil => exact lookup_cons k key v []
  | cons e rest ih =>
    obtain ⟨k', w⟩ := e
    unfold set
    split
    · next hk' =>
      rw [lookup_cons, lookup_cons, hk']
      split_ifs <;> rfl
    · next hk' =>
      split
      · rw [lookup_cons]
      · rw [lookup_cons, lookup_cons, ih]
        split_ifs with hk hkey
        · exact absurd (hk.symm.trans hkey) hk'
        all_goals rfl

variable {l : List (K × V)} {v : V}

theorem mem_of_mem_set {key : K} {e : K × V} (h : e ∈ set l key v) : e = (key, v) ∨ e ∈ l := by
  induction l with
  | nil => exact .inl (mem_singleton.mp h)
  | cons f rest ih =>
    obtain ⟨k, w⟩ := f
    unfold set at h
    split_ifs at h with hk hlt
    · exact (mem_cons.mp h).imp_right (.tail _)
    · exact mem_cons.mp h
    · rcases mem_cons.mp h with h | h
      · exact .inr (h ▸ .head _)
      · exact (ih h).imp_right (.tail _)

theorem Sorted.set (h : Sorted l) (key : K) (v : V) : Sorted (Assoc.set l key v) := by
  induction l with
  | nil => exact pairwise_singleton _ _
  | cons e rest ih =>
    obtain ⟨k, w⟩ := e
    obtain ⟨hhead, hrest⟩ := pairwise_cons.mp h
    unfold Assoc.set
    split_ifs with hk hlt
    · subst hk
      exact pairwise_cons.mpr ⟨hhead, hrest⟩
    · refine pairwise_cons.mpr ⟨?_, h⟩
      exact forall_mem_cons.mpr ⟨hlt, fun f hf => lt_trans hlt (hhead f hf)⟩
    · have hgt : k < key := lt_of_le_of_ne (not_lt.mp hlt) hk
      refine pairwise_cons.mpr ⟨?_, ih hrest⟩
      intro f hf
      rcases mem_of_mem_set hf with rfl | hf
      · exact hgt
      · exact hhead f hf

theorem mem_of_lookup {k : K} (h : l.lookup k = some v) : (k, v) ∈ l := by
  obtain ⟨l₁, l₂, rfl, -⟩ := lookup_eq_some_iff.mp h
  simp

theorem lookup_eq_none {k : K} (h : k ∉ l.map Prod.fst) : l.lookup k = none := by
  rw [lookup_eq_none_iff]
  intro e he
  rw [bne_iff_ne]
  rintro rfl
  exact h (mem_map_of_mem he)

end Assoc

end Framework
