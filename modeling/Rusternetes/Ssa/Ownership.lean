import Rusternetes.Ssa.Apply
import Rusternetes.Ssa.Paths

/-! # What an Apply Does to the Owners

    Each function of an apply by what it does to two things: which keys the maps of
    the object have, and which pointers the managers have on record. Values only
    decide whether the apply is accepted.
-/

open List

namespace Ssa

open Framework
open ManagedFields (Serde ManagedFieldsEntry)

/-! ### Keys -/

def HasKey (map : Map) (key : String) : Prop := key ∈ map.map Prod.fst

theorem lookup_isSome_iff {V : Type} (map : List (String × V)) (key : String) :
    (map.lookup key).isSome = true ↔ key ∈ map.map Prod.fst := by
  rw [List.lookup_isSome_iff, List.mem_map]
  exact exists_congr fun e => and_congr_right fun _ => by rw [beq_iff_eq, eq_comm]

theorem hasKey_insert_field (map : Map) (key : String) (v : Json) (k : String) :
    HasKey (Json.insert_field map key v) k ↔ k = key ∨ HasKey map k := by
  rw [HasKey, ← lookup_isSome_iff, Json.lookup_insert_field, HasKey, ← lookup_isSome_iff]
  split_ifs with hk
  · exact iff_of_true rfl (.inl hk)
  · exact (or_iff_right hk).symm

theorem hasKey_remove_field (map : Map) (key k : String) :
    HasKey (Json.remove_field map key) k ↔ k ≠ key ∧ HasKey map k := by
  rw [HasKey, ← lookup_isSome_iff, Json.lookup_remove_field, HasKey, ← lookup_isSome_iff]
  split_ifs with hk
  · exact iff_of_false Bool.false_ne_true fun h => h.1 hk
  · exact (and_iff_right hk).symm

/-! ### One string map -/

section Group

variable (group : LeafGroup) (current desired_map : Map) (applier : String)
  (other_owners : Owners) (previously_owned_by_applier : OwnedPaths) (force : Bool)

/-- The merge goes through. -/
def Clear (force : Bool) (conflicts : List PathConflict) : Prop := force = true ∨ conflicts = []

theorem claim_key_spec (acc : Map × GroupMergeOutcome) (field : String × Json) :
    let r := claim_key group current applier other_owners force acc field
    r.2.released = acc.2.released ∧ (r.2.conflicts = [] → acc.2.conflicts = []) ∧
      (Clear force r.2.conflicts → r.1 = Json.insert_field acc.1 field.1 field.2 ∧
        r.2.claimed = acc.2.claimed.insert (group.pointer field.1)) := by
  obtain ⟨merged, outcome⟩ := acc
  simp only [claim_key]
  cases other_owners.lookup (group.pointer field.1) with
  | none => exact ⟨rfl, id, fun _ => ⟨rfl, rfl⟩⟩
  | some owner =>
    split_ifs with hsame hforce
    · exact ⟨rfl, fun h => absurd h (by simp), fun _ => ⟨rfl, rfl⟩⟩
    · refine ⟨rfl, fun h => absurd h (by simp), ?_⟩
      intro hclear
      rcases hclear with h | h
      · exact absurd h hforce
      · simp at h
    · exact ⟨rfl, id, fun _ => ⟨rfl, rfl⟩⟩

theorem claim_keys_spec (fields : Map) (acc : Map × GroupMergeOutcome) :
    let r := fields.foldl (claim_key group current applier other_owners force) acc
    r.2.released = acc.2.released ∧ (r.2.conflicts = [] → acc.2.conflicts = []) ∧
      (Clear force r.2.conflicts →
        (∀ p, p ∈ r.2.claimed ↔ p ∈ acc.2.claimed ∨ ∃ k, HasKey fields k ∧ p = group.pointer k) ∧
        ∀ k, HasKey r.1 k ↔ HasKey acc.1 k ∨ HasKey fields k) := by
  induction fields generalizing acc with
  | nil =>
    refine ⟨rfl, id, fun _ => ⟨?_, ?_⟩⟩
    · intro p
      simp [HasKey]
    · intro k
      simp [HasKey]
  | cons f rest ih =>
    obtain ⟨hrel, hconf, htake⟩ :=
      claim_key_spec group current applier other_owners force acc f
    obtain ⟨hrel', hconf', htake'⟩ :=
      ih (claim_key group current applier other_owners force acc f)
    refine ⟨hrel'.trans hrel, fun h => hconf (hconf' h), ?_⟩
    intro hclear
    obtain ⟨hclaimed', hkeys'⟩ := htake' hclear
    -- what is clear at the end was clear after the first key
    obtain ⟨hmap, hclaimed⟩ := htake (hclear.imp_right hconf')
    constructor
    · intro p
      rw [foldl_cons, hclaimed', hclaimed, OwnedPaths.mem_insert]
      simp only [HasKey, map_cons, mem_cons, or_and_right, exists_or, exists_eq_left]
      tauto
    · intro k
      rw [foldl_cons, hkeys', hmap, hasKey_insert_field]
      simp only [HasKey, map_cons, mem_cons]
      tauto

/-- A key the applier gives up: left out, owned by the applier and by nobody else. -/
def GivenUp (key : String) : Prop :=
  ¬ HasKey desired_map key ∧ group.pointer key ∈ previously_owned_by_applier ∧
    (other_owners.lookup (group.pointer key)).isSome = false

theorem release_key_of_givenUp {acc : Map × GroupMergeOutcome} {key : String}
    (h : GivenUp group desired_map other_owners previously_owned_by_applier key) :
    release_key group desired_map other_owners previously_owned_by_applier acc key =
      (Json.remove_field acc.1 key,
        { acc.2 with released := acc.2.released.insert (group.pointer key) }) := by
  obtain ⟨hout, hmine, hfree⟩ := h
  have hnot : (desired_map.lookup key).isSome = false :=
    Bool.eq_false_iff.mpr fun h => hout ((lookup_isSome_iff _ _).mp h)
  simp [release_key, hnot, OwnedPaths.contains_iff.mpr hmine, hfree]

theorem release_key_of_not {acc : Map × GroupMergeOutcome} {key : String}
    (h : ¬ GivenUp group desired_map other_owners previously_owned_by_applier key) :
    release_key group desired_map other_owners previously_owned_by_applier acc key = acc := by
  simp only [release_key]
  split_ifs with hin hmine
  · rfl
  · exfalso
    apply h
    obtain ⟨hmine, hfree⟩ := Bool.and_eq_true_iff.mp hmine
    refine ⟨?_, OwnedPaths.contains_iff.mp hmine, by simpa using hfree⟩
    intro hkey
    exact hin ((lookup_isSome_iff _ _).mpr hkey)
  · rfl

theorem release_keys_spec (keys : List String) (acc : Map × GroupMergeOutcome) :
    let r := keys.foldl (release_key group desired_map other_owners previously_owned_by_applier) acc
    let gone := GivenUp group desired_map other_owners previously_owned_by_applier
    r.2.claimed = acc.2.claimed ∧ r.2.conflicts = acc.2.conflicts ∧
      (∀ p, p ∈ r.2.released ↔ p ∈ acc.2.released ∨ ∃ k ∈ keys, gone k ∧ p = group.pointer k) ∧
      ∀ k, HasKey r.1 k ↔ HasKey acc.1 k ∧ ¬(k ∈ keys ∧ gone k) := by
  induction keys generalizing acc with
  | nil => exact ⟨rfl, rfl, fun p => by simp, fun k => by simp⟩
  | cons key rest ih =>
    by_cases hgone : GivenUp group desired_map other_owners previously_owned_by_applier key
    · obtain ⟨hclaimed, hconf, hrel, hkeys⟩ := ih (Json.remove_field acc.1 key,
        { acc.2 with released := acc.2.released.insert (group.pointer key) })
      rw [foldl_cons, release_key_of_givenUp _ _ _ _ hgone]
      refine ⟨hclaimed, hconf, ?_, ?_⟩
      · intro p
        rw [hrel, OwnedPaths.mem_insert]
        simp only [exists_mem_cons_iff]
        tauto
      · intro k
        rw [hkeys, hasKey_remove_field]
        simp only [mem_cons]
        constructor
        · intro ⟨⟨hne, hkey⟩, hnot⟩
          refine ⟨hkey, fun h => ?_⟩
          exact hnot ⟨h.1.resolve_left hne, h.2⟩
        · intro ⟨hkey, hnot⟩
          refine ⟨⟨?_, hkey⟩, fun h => hnot ⟨.inr h.1, h.2⟩⟩
          intro hk
          exact hnot ⟨.inl hk, hk ▸ hgone⟩
    · obtain ⟨hclaimed, hconf, hrel, hkeys⟩ := ih acc
      rw [foldl_cons, release_key_of_not _ _ _ _ hgone]
      refine ⟨hclaimed, hconf, ?_, ?_⟩
      · intro p
        rw [hrel]
        simp [hgone]
      · intro k
        rw [hkeys]
        simp only [mem_cons]
        constructor
        · intro ⟨hkey, hnot⟩
          refine ⟨hkey, fun h => hnot ⟨?_, h.2⟩⟩
          exact h.1.resolve_left fun hk => hgone (hk ▸ h.2)
        · intro ⟨hkey, hnot⟩
          exact ⟨hkey, fun h => hnot ⟨.inr h.1, h.2⟩⟩

/-- **One string map**, when the merge goes through. -/
theorem merge_string_map_group_spec :
    let r := merge_string_map_group group current desired_map applier other_owners
      previously_owned_by_applier force
    let gone := GivenUp group desired_map other_owners previously_owned_by_applier
    (∀ p, p ∈ r.2.released ↔ ∃ k, HasKey current k ∧ gone k ∧ p = group.pointer k) ∧
      (Clear force r.2.conflicts →
        (∀ p, p ∈ r.2.claimed ↔ ∃ k, HasKey desired_map k ∧ p = group.pointer k) ∧
        ∀ k, HasKey r.1 k ↔
          (HasKey current k ∨ HasKey desired_map k) ∧ ¬(HasKey current k ∧ gone k)) := by
  obtain ⟨hrel, _, htake⟩ := claim_keys_spec group current applier other_owners force
    desired_map (current, {})
  obtain ⟨hclaimed', hconf', hrel', hkeys'⟩ := release_keys_spec group desired_map other_owners
    previously_owned_by_applier (current.map Prod.fst) (desired_map.foldl
      (claim_key group current applier other_owners force) (current, {}))
  constructor
  · intro p
    rw [merge_string_map_group, hrel', hrel]
    simp [OwnedPaths.not_mem_empty, HasKey]
  · intro hclear
    rw [merge_string_map_group, hconf'] at hclear
    obtain ⟨hclaimed, hkeys⟩ := htake hclear
    constructor
    · intro p
      rw [merge_string_map_group, hclaimed', hclaimed]
      simp
    · intro k
      rw [merge_string_map_group, hkeys', hkeys]
      rfl

end Group

/-! ### One scalar leaf -/

theorem merge_atomic_leaf_spec (leaf : String) (current_value desired_value : Option Json)
    (applier : String) (other_owners : Owners) (previously_owned_by_applier : OwnedPaths)
    (force : Bool) :
    let r := merge_atomic_leaf leaf current_value desired_value applier other_owners
      previously_owned_by_applier force
    (∀ p, p ∈ r.released ↔ p = leaf ∧ desired_value.isSome = false ∧
        leaf ∈ previously_owned_by_applier ∧ (other_owners.lookup leaf).isSome = false) ∧
      (Clear force r.conflicts → ∀ p, p ∈ r.claimed ↔ p = leaf ∧ desired_value.isSome = true) := by
  cases desired_value with
  | none =>
    simp only [merge_atomic_leaf]
    split_ifs with hmine
    · obtain ⟨hmine, hfree⟩ := Bool.and_eq_true_iff.mp hmine
      have hfree : (other_owners.lookup leaf).isSome = false := by simpa using hfree
      refine ⟨fun p => ?_, fun _ p => ?_⟩
      · simp only [OwnedPaths.mem_insert, OwnedPaths.not_mem_empty, or_false]
        exact ⟨fun h => ⟨h, rfl, OwnedPaths.contains_iff.mp hmine, hfree⟩, fun h => h.1⟩
      · simp
    · refine ⟨fun p => ?_, fun _ p => ?_⟩
      · refine iff_of_false (OwnedPaths.not_mem_empty p) ?_
        rintro ⟨_, _, hprev, hfree⟩
        exact hmine (by simp [OwnedPaths.contains_iff.mpr hprev, hfree])
      · simp
  | some dv =>
    simp only [merge_atomic_leaf]
    cases other_owners.lookup leaf with
    | none => exact ⟨fun p => by simp, fun _ p => by simp⟩
    | some owner =>
      split_ifs with hsame hforce
      · exact ⟨fun p => by simp, fun _ p => by simp⟩
      · refine ⟨fun p => by simp, fun hclear p => ?_⟩
        rcases hclear with h | h
        · exact absurd h hforce
        · cases h
      · exact ⟨fun p => by simp, fun _ p => by simp⟩

/-! ### The record -/

def on_record (entries : List ManagedFieldsEntry) (manager : String) : Set String :=
  {p | ∃ entry ∈ entries, entry_manager entry = manager ∧ p ∈ entry_paths entry}

theorem lookup_record_owner (manager : String) (paths : List String) (owners : Owners) (p : String) :
    ((paths.foldl (fun owners p =>
        if (owners.lookup p).isSome then owners else Assoc.set owners p manager) owners).lookup
          p).isSome = true ↔ (owners.lookup p).isSome = true ∨ p ∈ paths := by
  induction paths generalizing owners with
  | nil => simp
  | cons q rest ih =>
    rw [foldl_cons, ih, mem_cons]
    split_ifs with hq
    · constructor
      · intro h
        exact h.imp_right .inr
      · intro h
        rcases h with h | rfl | h
        · exact .inl h
        · exact .inl hq
        · exact .inr h
    · rw [Assoc.lookup_set]
      split_ifs with hpq
      · simp [hpq]
      · simp [hpq]

/-- **The owners before the apply**: the applier's paths, and whether anyone else owns a
    path. -/
theorem index_owners_spec (field_manager : String) (entries : List ManagedFieldsEntry) (p : String) :
    (p ∈ (index_owners field_manager entries).2 ↔ p ∈ on_record entries field_manager) ∧
      (((index_owners field_manager entries).1.lookup p).isSome = true ↔
        ∃ m, m ≠ field_manager ∧ p ∈ on_record entries m) := by
  -- the loop, from any start
  have hloop : ∀ acc : Owners × OwnedPaths,
      let r := entries.foldl (fun acc entry =>
        if entry_manager entry = field_manager then (acc.1, acc.2.insert_all (entry_paths entry).paths)
        else ((entry_paths entry).paths.foldl (fun owners p =>
          if (owners.lookup p).isSome then owners
          else Assoc.set owners p (entry_manager entry)) acc.1, acc.2)) acc
      (p ∈ r.2 ↔ p ∈ acc.2 ∨ p ∈ on_record entries field_manager) ∧
        ((r.1.lookup p).isSome = true ↔ (acc.1.lookup p).isSome = true ∨
          ∃ m, m ≠ field_manager ∧ p ∈ on_record entries m) := by
    induction entries with
    | nil =>
      intro acc
      simp [on_record]
    | cons entry rest ih =>
      intro acc
      have hcons : ∀ m, p ∈ on_record (entry :: rest) m ↔
          (entry_manager entry = m ∧ p ∈ entry_paths entry) ∨ p ∈ on_record rest m := by
        intro m
        simp only [on_record, Set.mem_ofPred_eq, exists_mem_cons_iff]
      simp only [foldl_cons, hcons]
      split_ifs with hm
      · obtain ⟨hmine, hothers⟩ := ih (acc.1, acc.2.insert_all (entry_paths entry).paths)
        rw [hmine, hothers]
        constructor
        · rw [OwnedPaths.mem_insert_all, ← OwnedPaths.mem_def]
          tauto
        · refine or_congr_right ?_
          constructor
          · intro ⟨m, hne, hp⟩
            exact ⟨m, hne, .inr hp⟩
          · intro ⟨m, hne, hp⟩
            exact ⟨m, hne, hp.resolve_left fun h => hne (h.1.symm.trans hm)⟩
      · obtain ⟨hmine, hothers⟩ := ih ((entry_paths entry).paths.foldl (fun owners p =>
          if (owners.lookup p).isSome then owners
          else Assoc.set owners p (entry_manager entry)) acc.1, acc.2)
        rw [hmine, hothers, lookup_record_owner]
        constructor
        · simp [hm]
        · constructor
          · intro h
            rcases h with (h | h) | ⟨m, hne, hp⟩
            · exact .inl h
            · exact .inr ⟨entry_manager entry, hm, .inl ⟨rfl, h⟩⟩
            · exact .inr ⟨m, hne, .inr hp⟩
          · intro h
            rcases h with h | ⟨m, hne, ⟨_, hp⟩ | hp⟩
            · exact .inl (.inl h)
            · exact .inl (.inr hp)
            · exact .inr ⟨m, hne, hp⟩
  obtain ⟨hmine, hothers⟩ := hloop ([], {})
  constructor
  · rw [index_owners, hmine]
    simp
  · rw [index_owners, hothers]
    simp

/-! ### All the leaves -/

theorem mem_config_leaves {schema : ResourceLeafSchema} {desired : Json} {p : String} :
    p ∈ config_leaves schema desired ↔
      (∃ group ∈ schema.string_map_groups, ∃ k, HasKey (group.extract_map desired) k ∧
        p = group.pointer k) ∨ (p ∈ schema.atomic_leaves ∧ (desired.get p).isSome = true) := by
  simp only [config_leaves, OwnedPaths.mem_insert_all, OwnedPaths.not_mem_empty, or_false,
    mem_filter, mem_flatMap, mem_map, HasKey]
  constructor
  · intro h
    rcases h with h | ⟨group, hg, f, hf, rfl⟩
    · exact .inr h
    · exact .inl ⟨group, hg, f.1, ⟨f, hf, rfl⟩, rfl⟩
  · intro h
    rcases h with ⟨group, hg, k, ⟨f, hf, rfl⟩, rfl⟩ | h
    · exact .inr ⟨group, hg, f, hf, rfl⟩
    · exact .inl h

theorem config_leaves_pointers (schema : ResourceLeafSchema) (desired : Json) {p : String}
    (h : p ∈ config_leaves schema desired) : p ∈ schema.pointers := by
  rcases mem_config_leaves.mp h with ⟨group, hg, k, _, rfl⟩ | ⟨h, _⟩
  · exact .inl ⟨group, hg, k, rfl⟩
  · exact .inr h

section Leaves

variable (schema : ResourceLeafSchema) (working desired : Json) (opts : ApplyOptions)
  (other_owners : Owners) (previously_owned_by_applier : OwnedPaths)

variable {schema working desired opts other_owners previously_owned_by_applier} in
theorem Clear.parts (h : Clear opts.force (merge_leaves schema working desired opts other_owners
      previously_owned_by_applier).conflicts) :
    (∀ group ∈ schema.string_map_groups, Clear opts.force (merge_string_map_group group
      (group.extract_map working) (group.extract_map desired) opts.field_manager other_owners
      previously_owned_by_applier opts.force).2.conflicts) ∧
    ∀ leaf ∈ schema.atomic_leaves, Clear opts.force (merge_atomic_leaf leaf (working.get leaf)
      (desired.get leaf) opts.field_manager other_owners previously_owned_by_applier
      opts.force).conflicts := by
  rcases h with hforce | hnil
  · exact ⟨fun _ _ => .inl hforce, fun _ _ => .inl hforce⟩
  · simp only [merge_leaves, append_eq_nil_iff, flatMap_eq_nil_iff, mem_map,
      forall_exists_index, and_imp, forall_apply_eq_imp_iff₂] at hnil
    exact ⟨fun group hg => .inr (hnil.1 group hg), fun leaf hl => .inr (hnil.2 leaf hl)⟩

theorem mem_merge_leaves_claimed
    (hclear : Clear opts.force (merge_leaves schema working desired opts other_owners
      previously_owned_by_applier).conflicts) (p : String) :
    p ∈ (merge_leaves schema working desired opts other_owners previously_owned_by_applier).claimed ↔
      p ∈ config_leaves schema desired := by
  rw [mem_config_leaves]
  obtain ⟨hgroup, hatomic⟩ := hclear.parts
  have hclaimed := fun group hg => ((merge_string_map_group_spec group (group.extract_map working)
    (group.extract_map desired) opts.field_manager other_owners previously_owned_by_applier
    opts.force).2 (hgroup group hg)).1
  have hclaimed' := fun leaf hl => (merge_atomic_leaf_spec leaf (working.get leaf) (desired.get leaf)
    opts.field_manager other_owners previously_owned_by_applier opts.force).2 (hatomic leaf hl)
  simp only [merge_leaves, OwnedPaths.mem_insert_all, OwnedPaths.not_mem_empty, or_false,
    mem_append, mem_flatMap, mem_map, exists_exists_and_eq_and]
  refine or_congr (exists_congr fun group => and_congr_right fun hg => hclaimed group hg p) ?_
  constructor
  · rintro ⟨leaf, hl, hp⟩
    obtain ⟨rfl, hsome⟩ := (hclaimed' leaf hl p).mp hp
    exact ⟨hl, hsome⟩
  · rintro ⟨hl, hsome⟩
    exact ⟨p, hl, (hclaimed' p hl p).mpr ⟨rfl, hsome⟩⟩

theorem mem_merge_leaves_released (p : String) :
    p ∈ (merge_leaves schema working desired opts other_owners previously_owned_by_applier).released ↔
      (∃ group ∈ schema.string_map_groups, ∃ k, HasKey (group.extract_map working) k ∧
        GivenUp group (group.extract_map desired) other_owners previously_owned_by_applier k ∧
        p = group.pointer k) ∨
      (p ∈ schema.atomic_leaves ∧ (desired.get p).isSome = false ∧
        p ∈ previously_owned_by_applier ∧ (other_owners.lookup p).isSome = false) := by
  have hreleased := fun group : LeafGroup => (merge_string_map_group_spec group
    (group.extract_map working) (group.extract_map desired) opts.field_manager other_owners
    previously_owned_by_applier opts.force).1
  have hreleased' := fun leaf : String => (merge_atomic_leaf_spec leaf (working.get leaf)
    (desired.get leaf) opts.field_manager other_owners previously_owned_by_applier opts.force).1
  simp only [merge_leaves, OwnedPaths.mem_insert_all, OwnedPaths.not_mem_empty, or_false,
    mem_append, mem_flatMap, mem_map, exists_exists_and_eq_and]
  refine or_congr (exists_congr fun group => and_congr_right fun _ => hreleased group p) ?_
  constructor
  · rintro ⟨leaf, hl, hp⟩
    obtain ⟨rfl, hrest⟩ := (hreleased' leaf p).mp hp
    exact ⟨hl, hrest⟩
  · rintro ⟨hl, hrest⟩
    exact ⟨p, hl, (hreleased' p p).mpr ⟨rfl, hrest⟩⟩

end Leaves

end Ssa
