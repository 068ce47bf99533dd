import Rusternetes.Framework.Shares
import Rusternetes.Ssa.Ownership

/-! # The Object After an Apply

    How the record and the maps of the object come out: the record follows the
    ledger in which a shared path is never given up, and the maps have the keys
    that someone has on record.
-/

open List

namespace Ssa

open Framework
open ManagedFields (Serde ManagedFieldsEntry)

/-! ### The rewritten record -/

section Rewrite

variable {U : Set String} {p : String} {existing : List ManagedFieldsEntry} {applying_manager : String} {now : Int}
  {claimed released previous : OwnedPaths} {force : Bool}

def next_paths (newly_claimed released previously_owned_by_applier : OwnedPaths) : OwnedPaths :=
  (({} : OwnedPaths).insert_all
    (previously_owned_by_applier.paths.filter fun p => !released.contains p)).insert_all
      newly_claimed.paths

theorem mem_next_paths :
    p ∈ next_paths claimed released previous ↔
      p ∈ claimed ∨ (p ∈ previous ∧ p ∉ released) := by
  rw [next_paths, OwnedPaths.mem_insert_all, OwnedPaths.mem_insert_all, mem_filter,
    Bool.not_eq_true', ← Bool.not_eq_true, OwnedPaths.contains_iff, ← OwnedPaths.mem_def,
    ← OwnedPaths.mem_def]
  simp

theorem kept_entry {entry : ManagedFieldsEntry} {left : OwnedPaths}
    (h : ∀ p, p ∈ entry_paths entry ↔ p ∈ left) (m p : String) :
    (∃ entry' ∈ (if left.is_empty then none else some entry),
        entry_manager entry' = m ∧ p ∈ entry_paths entry') ↔
      entry_manager entry = m ∧ p ∈ left := by
  split_ifs with hempty
  · refine iff_of_false ?_ fun hp => OwnedPaths.is_empty_iff.mp hempty p hp.2
    rintro ⟨_, ⟨⟩, _⟩
  · simp [h]

theorem mem_on_record_filterMap (f : ManagedFieldsEntry → Option ManagedFieldsEntry)
    (entries : List ManagedFieldsEntry) (m p : String) :
    p ∈ on_record (entries.filterMap f) m ↔
      ∃ entry ∈ entries, ∃ entry' ∈ f entry, entry_manager entry' = m ∧ p ∈ entry_paths entry' := by
  constructor
  · intro ⟨entry', hmem, h⟩
    obtain ⟨entry, he, hf⟩ := mem_filterMap.mp hmem
    exact ⟨entry, he, entry', hf, h⟩
  · intro ⟨entry, he, entry', hf, h⟩
    exact ⟨entry', mem_filterMap.mpr ⟨entry, he, hf⟩, h⟩

variable (hU : Separated U)
include hU

theorem mem_entry_paths_applied (entry : ManagedFieldsEntry) (manager : String) (now : Int)
    {paths : OwnedPaths} (h : ∀ p ∈ paths, p ∈ U) :
    p ∈ entry_paths (applied_entry entry manager now paths.to_fields_v1) ↔ p ∈ paths :=
  hU.mem_from_to_fields_v1 h

variable (hown : ∀ m, on_record existing m ⊆ U) (hclaimed : ∀ p ∈ claimed, p ∈ U)
  (hprev : ∀ p ∈ previous, p ∈ U)
include hclaimed hprev

/-- **An entry, rewritten**: the applier has what it claims and what it keeps, another
    manager loses what is claimed by force. -/
theorem rewrite_entry_spec {entry : ManagedFieldsEntry} (hown : ∀ p ∈ entry_paths entry, p ∈ U)
    (m p : String) :
    (∃ entry' ∈ rewrite_entry applying_manager now claimed released previous force entry,
        entry_manager entry' = m ∧ p ∈ entry_paths entry') ↔
      entry_manager entry = m ∧ if m = applying_manager
        then p ∈ claimed ∨ (p ∈ previous ∧ p ∉ released)
        else p ∈ entry_paths entry ∧ ¬(force = true ∧ p ∈ claimed) := by
  rw [rewrite_entry]
  split
  · rename_i hm
    have hnext : ∀ p ∈ next_paths claimed released previous, p ∈ U := by
      intro p hp
      rcases mem_next_paths.mp hp with hp | ⟨hp, _⟩
      · exact hclaimed p hp
      · exact hprev p hp
    refine (kept_entry (fun p => mem_entry_paths_applied hU entry _ now hnext) m p).trans ?_
    rw [hm, mem_next_paths]
    refine and_congr_right fun (h : applying_manager = m) => ?_
    rw [if_pos h.symm]
  · rename_i hm
    -- what the manager is left with
    let left : OwnedPaths :=
      if force then ⟨(entry_paths entry).paths.filter fun p => !claimed.contains p⟩
      else entry_paths entry
    have hleft : ∀ p, p ∈ left ↔ p ∈ entry_paths entry ∧ ¬(force = true ∧ p ∈ claimed) := by
      intro p
      simp only [left]
      split_ifs with hforce
      · rw [OwnedPaths.mem_def, mem_filter, Bool.not_eq_true', ← Bool.not_eq_true,
          OwnedPaths.contains_iff, ← OwnedPaths.mem_def]
        simp [hforce]
      · simp [hforce]
    have hin : ∀ p ∈ left, p ∈ U := fun p hp => hown p ((hleft p).mp hp).1
    refine (kept_entry (fun p => hU.mem_from_to_fields_v1 hin) m p).trans ?_
    rw [hleft]
    refine and_congr_right fun (h : entry_manager entry = m) => ?_
    rw [if_neg (h ▸ hm)]

include hown

theorem mem_on_record_rewritten (m p : String) :
    p ∈ on_record (existing.filterMap (rewrite_entry applying_manager now claimed released
        previous force)) m ↔
      ∃ entry ∈ existing, entry_manager entry = m ∧ if m = applying_manager
        then p ∈ claimed ∨ (p ∈ previous ∧ p ∉ released)
        else p ∈ entry_paths entry ∧ ¬(force = true ∧ p ∈ claimed) := by
  rw [mem_on_record_filterMap]
  exact exists_congr fun entry => and_congr_right fun he =>
    rewrite_entry_spec hU hclaimed hprev (fun p hp => hown _ ⟨entry, he, rfl, hp⟩) m p

/-- **The record after an apply**, of the other managers: they lose what was claimed by
    force. -/
theorem on_record_rewrite_other {m : String} (hm : m ≠ applying_manager) (p : String) :
    p ∈ on_record (rewrite_managed_fields existing applying_manager now claimed released
        previous force) m ↔
      p ∈ on_record existing m ∧ ¬(force = true ∧ p ∈ claimed) := by
  have hout : p ∈ on_record (existing.filterMap (rewrite_entry applying_manager now claimed
      released previous force)) m ↔
      p ∈ on_record existing m ∧ ¬(force = true ∧ p ∈ claimed) := by
    simp only [mem_on_record_rewritten hU hown hclaimed hprev, if_neg hm]
    constructor
    · intro ⟨entry, he, hem, hp, hnot⟩
      exact ⟨⟨entry, he, hem, hp⟩, hnot⟩
    · intro ⟨⟨entry, he, hem, hp⟩, hnot⟩
      exact ⟨entry, he, hem, hp, hnot⟩
  rw [← hout]
  simp only [rewrite_managed_fields]
  split_ifs with hnew
  · -- the appended entry is the applier's
    constructor
    · intro ⟨entry, he, hem, hp⟩
      rcases mem_append.mp he with he | he
      · exact ⟨entry, he, hem, hp⟩
      · rw [mem_singleton.mp he] at hem
        exact absurd hem.symm hm
    · intro ⟨entry, he, h⟩
      exact ⟨entry, mem_append_left _ he, h⟩
  · rfl

omit hprev in
/-- **The record after an apply**, of the applier. -/
theorem on_record_rewrite_applier
    (hprev : ∀ p, p ∈ previous ↔ p ∈ on_record existing applying_manager) (p : String) :
    p ∈ on_record (rewrite_managed_fields existing applying_manager now claimed released
        previous force) applying_manager ↔
      p ∈ claimed ∨ (p ∈ on_record existing applying_manager ∧ p ∉ released) := by
  have hprevU : ∀ p ∈ previous, p ∈ U := fun p hp => hown _ ((hprev p).mp hp)
  rw [← hprev]
  by_cases hseen : ∃ entry ∈ existing, entry_manager entry = applying_manager
  · -- an entry of the applier is there, and is the one rewritten
    have hany : existing.any (fun entry => entry_manager entry = applying_manager) = true := by
      simpa using hseen
    simp only [rewrite_managed_fields, hany, Bool.not_true, Bool.false_and, Bool.false_eq_true, if_false]
    simp only [mem_on_record_rewritten hU hown hclaimed hprevU, if_true]
    constructor
    · intro ⟨_, _, _, h⟩
      exact h
    · intro h
      obtain ⟨entry, he, hmine⟩ := hseen
      exact ⟨entry, he, hmine, h⟩
  · have hany : existing.any (fun entry => entry_manager entry = applying_manager) = false := by
      simpa using hseen
    have hnone : ∀ q, q ∉ previous := by
      intro q hq
      obtain ⟨entry, he, hmine, _⟩ := (hprev q).mp hq
      exact hseen ⟨entry, he, hmine⟩
    have hold : p ∉ on_record (existing.filterMap (rewrite_entry applying_manager now claimed
        released previous force)) applying_manager := by
      intro h
      obtain ⟨entry, he, hmine, -⟩ := (mem_on_record_rewritten hU hown hclaimed hprevU _ p).mp h
      exact hseen ⟨entry, he, hmine⟩
    simp only [hnone p, false_and, or_false]
    simp only [rewrite_managed_fields, hany, Bool.not_false, Bool.true_and]
    split_ifs with hnew
    · constructor
      · intro ⟨entry, he, hem, hp⟩
        rcases mem_append.mp he with he | he
        · exact absurd ⟨entry, he, hem, hp⟩ hold
        · rw [mem_singleton.mp he, new_entry] at hp
          exact (mem_entry_paths_applied hU _ _ _ hclaimed).mp hp
      · intro hp
        refine ⟨_, mem_append_right _ (mem_singleton_self _), rfl, ?_⟩
        exact (mem_entry_paths_applied hU _ _ _ hclaimed).mpr hp
    · refine iff_of_false hold fun hp => ?_
      exact OwnedPaths.is_empty_iff.mp (by simpa using hnew) p hp

end Rewrite

/-! ### Entries in the object -/

/-- The members that are there, of a list of members that may be missing. -/
theorem lookup_filterMap_some {l : List (String × Option Json)} (h : (l.map Prod.fst).Nodup)
    (k : String) :
    (l.filterMap fun f => f.2.map fun v => (f.1, v)).lookup k = (l.lookup k).join := by
  induction l with
  | nil => rfl
  | cons f rest ih =>
    obtain ⟨k', o⟩ := f
    obtain ⟨hout, hrest⟩ := nodup_cons.mp h
    have ih := ih hrest
    rw [Assoc.lookup_cons]
    cases o with
    | none =>
      rw [filterMap_cons_none rfl, ih]
      split_ifs with hk
      · -- a key does not come twice
        have hnone : rest.lookup k = none := by
          rw [← Option.not_isSome_iff_eq_none, lookup_isSome_iff, hk]
          exact hout
        rw [hnone]
        rfl
      · rfl
    | some v =>
      show ((k', v) :: rest.filterMap fun f => f.2.map fun v => (f.1, v)).lookup k = _
      rw [Assoc.lookup_cons, ih]
      split_ifs with hk
      · rfl
      · rfl

theorem optional_string_map (o : Option String) :
    ManagedFieldsEntry.optional_string (o.map Json.string) = some o := by
  cases o with
  | none => rfl
  | some s => rfl

theorem optional_time_map (serde : Serde) (o : Option Int) :
    ManagedFieldsEntry.optional_time serde (o.map fun t => Json.string (serde.format_time t)) =
      some o := by
  cases o with
  | none => rfl
  | some t =>
    show (serde.parse_time (serde.format_time t)).map some = some (some t)
    rw [serde.parse_format_time]
    rfl

theorem from_value_to_value (serde : Serde) {entry : ManagedFieldsEntry}
    (h : ∀ v, entry.fields_v1 = some v → v.is_null = false) :
    ManagedFieldsEntry.from_value serde (entry.to_value serde) = some entry := by
  have hfields : (entry.fields_v1.filter fun v => !v.is_null) = entry.fields_v1 := by
    cases hf : entry.fields_v1 with
    | none => rfl
    | some v => simp [Option.filter, h v hf]
  rw [ManagedFieldsEntry.to_value, ManagedFieldsEntry.from_value]
  simp only [lookup_filterMap_some (by simp : ([("apiVersion", entry.api_version.map Json.string),
    ("fieldsType", entry.fields_type.map Json.string), ("fieldsV1", entry.fields_v1),
    ("manager", entry.manager.map Json.string), ("operation", entry.operation.map Json.string),
    ("subresource", entry.subresource.map Json.string),
    ("time", entry.time.map fun t => Json.string (serde.format_time t))].map Prod.fst).Nodup)]
  simp [lookup, optional_string_map, optional_time_map, hfields]

/-! ### The shape of the object -/

def Shaped (w : Json) : Prop :=
  ∃ obj, w = .object obj ∧ ∀ x, obj.lookup "metadata" = some x → ∃ fields, x = .object fields

theorem Shaped.metadata {obj : Map}
    (h : ∀ x, obj.lookup "metadata" = some x → ∃ fields, x = .object fields) :
    ∃ fields, (obj.lookup "metadata").getD (.object []) = .object fields ∧
      ∀ k, (obj.lookup "metadata").bind (·.get k) = fields.lookup k := by
  cases hx : obj.lookup "metadata" with
  | none => exact ⟨[], rfl, fun k => rfl⟩
  | some x =>
    obtain ⟨fields, rfl⟩ := h x hx
    exact ⟨fields, rfl, fun k => rfl⟩

theorem walk_root (obj : Map) (k : String) : LeafGroup.walk (.object obj) [k] = obj.lookup k := by
  show ((obj.lookup k).bind some) = _
  exact Option.bind_fun_some _

theorem walk_metadata (obj : Map) (k : String) :
    LeafGroup.walk (.object obj) ["metadata", k] = (obj.lookup "metadata").bind (·.get k) := by
  show ((obj.lookup "metadata").bind fun x => (x.get k).bind some) = _
  simp

theorem LeafGroup.path_cases (group : LeafGroup) :
    (∃ k, group.path = [k] ∧ k ∈ ["data", "binaryData", "stringData"]) ∨
      ∃ k, group.path = ["metadata", k] ∧ k ∈ ["labels", "annotations"] := by
  cases group with
  | data => exact .inl ⟨"data", rfl, by decide⟩
  | binaryData => exact .inl ⟨"binaryData", rfl, by decide⟩
  | stringData => exact .inl ⟨"stringData", rfl, by decide⟩
  | labels => exact .inr ⟨"labels", rfl, by decide⟩
  | annotations => exact .inr ⟨"annotations", rfl, by decide⟩

theorem LeafGroup.path_injective {group group' : LeafGroup} (h : group.path = group'.path) :
    group = group' := by
  cases group <;> cases group' <;> first | rfl | nomatch h

variable {w : Json}

theorem extract_map_congr {group : LeafGroup} {w' : Json}
    (h : LeafGroup.walk w' group.path = LeafGroup.walk w group.path) :
    group.extract_map w' = group.extract_map w := by
  rw [LeafGroup.extract_map, LeafGroup.extract_map, h]

theorem lookup_set_at (root map : Map) (k x : String) :
    (LeafGroup.set_at root map [k]).lookup x =
      if x = k then (if map.isEmpty then none else some (.object map)) else root.lookup x := by
  rw [LeafGroup.set_at]
  by_cases hempty : map.isEmpty = true
  · rw [if_pos hempty, if_pos hempty, Json.lookup_remove_field]
  · rw [if_neg hempty, if_neg hempty, Json.lookup_insert_field]

theorem walk_set_map (hw : Shaped w) (group group' : LeafGroup) (map : Map) :
    Shaped (group.set_map w map) ∧ LeafGroup.walk (group.set_map w map) group'.path =
      if group' = group then (if map.isEmpty then none else some (.object map))
      else LeafGroup.walk w group'.path := by
  obtain ⟨obj, rfl, hmeta⟩ := hw
  -- groups are told apart by their paths
  have hsame : group' = group ↔ group'.path = group.path :=
    ⟨fun h => h ▸ rfl, LeafGroup.path_injective⟩
  simp only [hsame]
  rcases group.path_cases with ⟨k, hpath, hk⟩ | ⟨k, hpath, hk⟩
  · have hne : "metadata" ≠ k := (ne_of_mem_of_not_mem hk (by decide)).symm
    rw [LeafGroup.set_map, hpath]
    refine ⟨⟨_, rfl, ?_⟩, ?_⟩
    · intro x hx
      rw [lookup_set_at, if_neg hne] at hx
      exact hmeta x hx
    · rcases group'.path_cases with ⟨k', hpath', _⟩ | ⟨k', hpath', _⟩
      · rw [hpath', walk_root, walk_root, lookup_set_at]
        simp
      · rw [hpath', walk_metadata, walk_metadata, lookup_set_at, if_neg hne]
        simp
  · obtain ⟨fields, hgetD, hbind⟩ := Shaped.metadata hmeta
    have hset : LeafGroup.set_at obj map ["metadata", k] =
        Json.insert_field obj "metadata" (.object (LeafGroup.set_at fields map [k])) := by
      simp only [LeafGroup.set_at, hgetD]
    rw [LeafGroup.set_map, hpath]
    simp only [hset]
    refine ⟨⟨_, rfl, ?_⟩, ?_⟩
    · intro x hx
      rw [Json.lookup_insert_field, if_pos rfl] at hx
      exact ⟨_, (Option.some.inj hx).symm⟩
    · rcases group'.path_cases with ⟨k', hpath', hk'⟩ | ⟨k', hpath', _⟩
      · have hne : k' ≠ "metadata" := ne_of_mem_of_not_mem hk' (by decide)
        rw [hpath', walk_root, walk_root, Json.lookup_insert_field, if_neg hne]
        simp
      · rw [hpath', walk_metadata, walk_metadata, Json.lookup_insert_field, if_pos rfl, hbind,
          Option.bind_some, Json.get, lookup_set_at]
        simp

theorem extract_map_set_maps (merged : LeafGroup → Map) (groups : List LeafGroup) (hw : Shaped w) :
    let w' := (groups.map fun g => (g, merged g)).foldl (fun w m => m.1.set_map w m.2) w
    Shaped w' ∧ ∀ group, group ∈ groups ∨ group.extract_map w = merged group →
      group.extract_map w' = merged group := by
  induction groups generalizing w with
  | nil => exact ⟨hw, fun group h => h.resolve_left not_mem_nil⟩
  | cons g rest ih =>
    obtain ⟨hshaped, hrest⟩ := ih (walk_set_map hw g g (merged g)).1
    refine ⟨hshaped, ?_⟩
    intro group h
    apply hrest
    by_cases hg : group = g
    · refine .inr ?_
      have hwalk := (walk_set_map hw g group (merged g)).2
      rw [if_pos hg] at hwalk
      rw [LeafGroup.extract_map, hwalk, hg]
      split_ifs with hempty
      · exact (isEmpty_iff.mp hempty).symm
      · rfl
    · have hwalk := (walk_set_map hw g group (merged g)).2
      rw [if_neg hg] at hwalk
      rcases h with h | h
      · exact .inl ((mem_cons.mp h).resolve_left hg)
      · exact .inr ((extract_map_congr hwalk).trans h)

theorem walk_override (hw : Shaped w) {override : String × Option Json}
    (hleaf : override.1 ∉ ["data", "binaryData", "stringData", "metadata"]) (group : LeafGroup) :
    Shaped (override_atomic w override) ∧
      LeafGroup.walk (override_atomic w override) group.path = LeafGroup.walk w group.path := by
  obtain ⟨obj, rfl, hmeta⟩ := hw
  obtain ⟨leaf, v⟩ := override
  have hlook : ∃ obj', override_atomic (.object obj) (leaf, v) = .object obj' ∧
      ∀ x, x ∈ ["data", "binaryData", "stringData", "metadata"] → obj'.lookup x = obj.lookup x := by
    have hne : ∀ x, x ∈ ["data", "binaryData", "stringData", "metadata"] → x ≠ leaf := by
      rintro x hx rfl
      exact hleaf hx
    cases v with
    | none =>
      refine ⟨_, rfl, fun x hx => ?_⟩
      rw [Json.lookup_remove_field, if_neg (hne x hx)]
    | some v =>
      refine ⟨_, rfl, fun x hx => ?_⟩
      rw [Json.lookup_insert_field, if_neg (hne x hx)]
  obtain ⟨obj', heq, hlook⟩ := hlook
  rw [heq]
  have hlookmeta := hlook "metadata" (by decide)
  refine ⟨⟨obj', rfl, fun x hx => hmeta x (hlookmeta ▸ hx)⟩, ?_⟩
  rcases group.path_cases with ⟨k, hpath, hk⟩ | ⟨k, hpath, _⟩
  · rw [hpath, walk_root, walk_root, hlook k]
    simp only [mem_cons] at hk ⊢
    tauto
  · rw [hpath, walk_metadata, walk_metadata, hlookmeta]

theorem extract_map_overrides {overrides : List (String × Option Json)} (hw : Shaped w)
    (hleaf : ∀ o ∈ overrides, o.1 ∉ ["data", "binaryData", "stringData", "metadata"])
    (group : LeafGroup) :
    Shaped (overrides.foldl override_atomic w) ∧
      group.extract_map (overrides.foldl override_atomic w) = group.extract_map w := by
  induction overrides generalizing w with
  | nil => exact ⟨hw, rfl⟩
  | cons o rest ih =>
    obtain ⟨hshaped, hwalk⟩ := walk_override hw (hleaf o (.head _)) group
    obtain ⟨hshaped', hrest⟩ := ih hshaped fun o ho => hleaf o (.tail _ ho)
    exact ⟨hshaped', hrest.trans (extract_map_congr hwalk)⟩

/-! ### The record in the object -/

theorem set_managed_fields_object (serde : Serde) {obj : Map}
    (hmeta : ∀ x, obj.lookup "metadata" = some x → ∃ fields, x = .object fields)
    (entries : List ManagedFieldsEntry) :
    ∃ fields, (∀ k, k ≠ "managedFields" →
        fields.lookup k = (obj.lookup "metadata").bind (·.get k)) ∧
      fields.lookup "managedFields" = (if entries.isEmpty then none
        else some (.array (entries.map (ManagedFieldsEntry.to_value serde)))) ∧
      set_managed_fields serde (.object obj) entries =
        .object (Json.insert_field obj "metadata" (.object fields)) := by
  obtain ⟨fields, hgetD, hbind⟩ := Shaped.metadata hmeta
  rw [set_managed_fields, hgetD]
  simp only [hbind]
  split_ifs with hempty
  · refine ⟨_, fun k hk => ?_, ?_, rfl⟩
    · rw [Json.lookup_remove_field, if_neg hk]
    · rw [Json.lookup_remove_field, if_pos rfl]
  · refine ⟨_, fun k hk => ?_, ?_, rfl⟩
    · rw [Json.lookup_insert_field, if_neg hk]
    · rw [Json.lookup_insert_field, if_pos rfl]

theorem extract_map_set_managed_fields (serde : Serde) (hw : Shaped w)
    (entries : List ManagedFieldsEntry) (group : LeafGroup) :
    group.extract_map (set_managed_fields serde w entries) = group.extract_map w := by
  obtain ⟨obj, rfl, hmeta⟩ := hw
  obtain ⟨fields, hfields, _, heq⟩ := set_managed_fields_object serde hmeta entries
  rw [heq]
  apply extract_map_congr
  rcases group.path_cases with ⟨k, hpath, hk⟩ | ⟨k, hpath, hk⟩
  · have hne : k ≠ "metadata" := ne_of_mem_of_not_mem hk (by decide)
    rw [hpath, walk_root, walk_root, Json.lookup_insert_field, if_neg hne]
  · have hne : k ≠ "managedFields" := ne_of_mem_of_not_mem hk (by decide)
    rw [hpath, walk_metadata, walk_metadata, Json.lookup_insert_field, if_pos rfl, Option.bind_some,
      Json.get, hfields k hne]

theorem extract_set_managed_fields (serde : Serde) (hw : Shaped w)
    {entries : List ManagedFieldsEntry}
    (h : ∀ entry ∈ entries, ∀ v, entry.fields_v1 = some v → v.is_null = false) :
    extract_managed_fields serde (set_managed_fields serde w entries) = entries := by
  obtain ⟨obj, rfl, hmeta⟩ := hw
  obtain ⟨fields, _, hmanaged, heq⟩ := set_managed_fields_object serde hmeta entries
  have hget : (Json.get (.object (Json.insert_field obj "metadata" (.object fields))) "metadata").bind
      (fun metadata => metadata.get "managedFields") = fields.lookup "managedFields" := by
    rw [Json.get, Json.lookup_insert_field, if_pos rfl]
    rfl
  rw [heq, extract_managed_fields, hget, hmanaged]
  split_ifs with hempty
  · exact (isEmpty_iff.mp hempty).symm
  · have hmapM : (entries.map (ManagedFieldsEntry.to_value serde)).mapM
        (ManagedFieldsEntry.from_value serde) = some entries := by
      clear hempty hmanaged heq
      induction entries with
      | nil => rfl
      | cons e rest ih =>
        rw [map_cons, mapM_cons, from_value_to_value serde (h e (.head _)),
          ih fun entry he => h entry (.tail _ he)]
        rfl
    show (Option.getD _ _) = _
    rw [hmapM, Option.getD_some]

end Ssa
