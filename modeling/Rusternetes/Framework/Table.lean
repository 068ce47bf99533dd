import Mathlib

/-! # Tables

    Finite maps, with their entries listed in key order. A listing depends only on
    what the lookups answer.
-/

open scoped List

namespace Framework

/-- A finite map. -/
abbrev Table (K V : Type) := AList (fun _ : K => V)

namespace Table

variable {K V : Type}

def set [DecidableEq K] (m : Table K V) (k : K) (v : Option V) : Table K V :=
  match v with
  | some v => m.insert k v
  | none => m.erase k

variable (p : K → Bool) (m : Table K V) (k : K)

theorem lookup_insert_ite [DecidableEq K] (v : V) (k' : K) :
    (m.insert k v).lookup k' = if k' = k then some v else m.lookup k' := by
  split_ifs with h
  · exact h ▸ AList.lookup_insert m
  · exact AList.lookup_insert_ne h

theorem lookup_erase_ite [DecidableEq K] (k' : K) :
    (m.erase k).lookup k' = if k' = k then none else m.lookup k' := by
  split_ifs with h
  · exact h ▸ AList.lookup_erase k' m
  · exact AList.lookup_erase_ne h

theorem lookup_insert_eq_some [DecidableEq K] {m : Table K V} {k k' : K} {v v' : V} :
    (m.insert k v).lookup k' = some v' ↔ k' = k ∧ v = v' ∨ k' ≠ k ∧ m.lookup k' = some v' := by
  rw [lookup_insert_ite]
  split_ifs with h <;> simp [h]

theorem lookup_erase_eq_some [DecidableEq K] {m : Table K V} {k k' : K} {v : V} :
    (m.erase k).lookup k' = some v ↔ k' ≠ k ∧ m.lookup k' = some v := by
  rw [lookup_erase_ite]
  split_ifs with h <;> simp [h]

theorem lookup_set [DecidableEq K] (v : Option V) (k' : K) :
    (m.set k v).lookup k' = Function.update (fun k => m.lookup k) k v k' := by
  rw [Function.update_apply]
  cases v with
  | none => exact m.lookup_erase_ite k k'
  | some v => exact m.lookup_insert_ite k v k'

/-- The entries whose keys meet `p`. -/
def filter (p : K → Bool) (m : Table K V) : Table K V :=
  ⟨m.entries.filter fun e => p e.1, m.nodupKeys.sublist List.filter_sublist⟩

/-- The entries that meet `p`. -/
def retain (p : K → V → Bool) (m : Table K V) : Table K V :=
  ⟨m.entries.filter fun e => p e.1 e.2, m.nodupKeys.sublist List.filter_sublist⟩

theorem lookup_retain [DecidableEq K] (p : K → V → Bool) (m : Table K V) (k : K) :
    (m.retain p).lookup k = (m.lookup k).filter fun v => p k v := by
  apply Option.ext
  intro v
  rw [← Option.mem_def, AList.mem_lookup_iff, Option.filter_eq_some_iff]
  show (⟨k, v⟩ : Sigma fun _ => V) ∈ m.entries.filter (fun e => p e.1 e.2) ↔ _
  rw [List.mem_filter, ← AList.mem_lookup_iff, Option.mem_def]

theorem lookup_filter [DecidableEq K] :
    (m.filter p).lookup k = if p k then m.lookup k else none := by
  refine (lookup_retain (fun k _ => p k) m k).trans ?_
  cases p k <;> cases m.lookup k <;> rfl

variable [LinearOrder K]

/-- The entries whose keys meet `p`, in key order. -/
def listing (p : K → Bool) (m : Table K V) : List (K × V) :=
  ((m.entries.map fun e => (e.1, e.2)).filter fun e => p e.1).insertionSort fun a b => a.1 ≤ b.1

theorem mem_listing {p : K → Bool} {m : Table K V} {k : K} {v : V} :
    (k, v) ∈ m.listing p ↔ p k = true ∧ m.lookup k = some v := by
  unfold listing
  rw [List.mem_insertionSort, List.mem_filter, List.mem_map]
  constructor
  · rintro ⟨⟨⟨k', v'⟩, he, heq⟩, hp⟩
    cases heq
    exact ⟨hp, AList.mem_lookup_iff.mpr he⟩
  · rintro ⟨hp, hv⟩
    exact ⟨⟨⟨k, v⟩, AList.mem_lookup_iff.mp hv, rfl⟩, hp⟩

instance : Std.Total fun a b : K × V => a.1 ≤ b.1 := ⟨fun a b => le_total a.1 b.1⟩

instance : IsTrans (K × V) fun a b => a.1 ≤ b.1 := ⟨fun _ _ _ h h' => le_trans h h'⟩

instance : Std.Antisymm fun a b : K × V => a.1 < b.1 := ⟨fun _ _ h h' => absurd h' (lt_asymm h)⟩

instance : Std.Irrefl fun a b : K × V => a.1 < b.1 := ⟨fun a => lt_irrefl a.1⟩

theorem sorted_insertionSort {l : List (K × V)} (h : l.Pairwise fun a b => a.1 ≠ b.1) :
    (l.insertionSort fun a b => a.1 ≤ b.1).Pairwise fun a b => a.1 < b.1 := by
  have hne : (l.insertionSort fun a b => a.1 ≤ b.1).Pairwise fun a b => a.1 ≠ b.1 :=
    ((List.perm_insertionSort _ l).pairwise_iff fun {a b} (h : a.1 ≠ b.1) => h.symm).mpr h
  exact (List.pairwise_insertionSort _ l).imp₂ (fun a b h h' => lt_of_le_of_ne h h') hne

theorem listing_sorted : (m.listing p).Pairwise fun a b => a.1 < b.1 := by
  refine sorted_insertionSort (List.Pairwise.filter _ (List.pairwise_map.mpr ?_))
  exact List.nodupKeys_iff_pairwise.mp m.nodupKeys

theorem lookup_of_sorted {l : List (K × V)} (h : l.Pairwise fun a b => a.1 < b.1) (k : K) (v : V) :
    l.lookup k = some v ↔ (k, v) ∈ l := by
  induction l with
  | nil => simp
  | cons e l ih =>
    obtain ⟨he, hl⟩ := List.pairwise_cons.mp h
    obtain ⟨k', v'⟩ := e
    rw [List.lookup_cons, List.mem_cons, Prod.mk.injEq]
    by_cases hk : k = k'
    · have hnot : (k, v) ∉ l := fun hmem => lt_irrefl k (hk ▸ he _ hmem)
      simp [hk ▸ hnot, hk, eq_comm]
    · rw [beq_eq_false_iff_ne.mpr hk]
      simp [hk, ih hl]

theorem lookup_listing : (m.listing p).lookup k = if p k then m.lookup k else none := by
  apply Option.ext
  intro v
  rw [lookup_of_sorted (listing_sorted p m), mem_listing]
  by_cases hp : p k = true
  · simp [hp]
  · simp [hp]

theorem listing_ext {p p' : K → Bool} {m m' : Table K V}
    (h : ∀ k v, (p k = true ∧ m.lookup k = some v) ↔ (p' k = true ∧ m'.lookup k = some v)) :
    m.listing p = m'.listing p' := by
  apply (listing_sorted p m).eq_of_mem_iff (listing_sorted p' m')
  intro e
  rw [mem_listing, mem_listing]
  exact h e.1 e.2

end Table

end Framework
