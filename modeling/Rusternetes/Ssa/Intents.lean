import Rusternetes.Framework.Folds
import Rusternetes.Ssa.Rewrite

/-! # The Union of Intents

    Managers apply their configurations to one ConfigMap or Secret, in any order,
    forced or not. What the object should come to: each manager has on record the
    leaves of its latest accepted configuration, without those taken from it by
    force, and the maps have the keys that someone has on record.

    The record that is kept is the one that clings to shared paths, so it is right
    exactly as long as nobody leaves out a leaf that another manager has on record
    too. After that the manager that left it out stays on record, and the key stays
    in the object when everyone has dropped it.
-/

open List Set

namespace Ssa

open Framework
open ManagedFields (Serde ManagedFieldsEntry)

section

variable {T : Type} (serde : Serde) (resource : Resource T) (schema : ResourceLeafSchema)

/-! ### Runs -/

/-- The JSON form of what is stored. -/
def object_value (object : Option T) : Json :=
  match object with
  | none => .null
  | some obj =>
    match resource.to_value obj with
    | .ok w => w
    | .error _ => .null

def recorded (object : Option T) (manager : String) : Set String :=
  on_record (extract_managed_fields serde (object_value resource object)) manager

def present (object : Option T) (group : LeafGroup) : Set String :=
  {key | HasKey (group.extract_map (object_value resource object)) key}

structure Request where
  desired : Json
  opts : ApplyOptions
  now : Int

def Request.claim (r : Request) : Claim String String where
  manager := r.opts.field_manager
  paths := {p | p ∈ config_leaves schema r.desired}
  force := r.opts.force

/-- The object, and what was accepted so far, the latest first. -/
structure State (T : Type) where
  object : Option T := none
  accepted : List (Claim String String) := []

def Accepted (s : State T) (r : Request) : Prop :=
  ∃ object, apply_via_schema serde resource schema s.object r.desired r.opts r.now =
    .ok (.applied object)

/-- Serve a request: conflicts and errors leave the object as it is. -/
def serve (s : State T) (r : Request) : State T :=
  match apply_via_schema serde resource schema s.object r.desired r.opts r.now with
  | .ok (.applied object) => ⟨some object, r.claim schema :: s.accepted⟩
  | _ => s

def serve_all (requests : List Request) : State T :=
  requests.foldl (serve serde resource schema) {}

/-- The maps and the record are those of the managers' intents. -/
structure UnionOfIntents (s : State T) : Prop where
  keys : ∀ group ∈ schema.string_map_groups, present resource s.object group =
    {key | ∃ manager, group.pointer key ∈ Claim.intents s.accepted manager}
  owners : ∀ manager, recorded serde resource s.object manager = Claim.intents s.accepted manager

/-- What the JSON form of the type keeps. What was decoded is encoded as an object with an
    object as metadata, with the same keys in the maps of the schema, and with the managed
    fields that were set. -/
structure Lawful : Prop where
  encodes : ∀ {v object}, resource.from_value v = .ok object →
    ∃ w, resource.to_value object = .ok w ∧ Shaped w
  keys : ∀ {v object w}, Shaped v → resource.from_value v = .ok object →
    resource.to_value object = .ok w → ∀ group ∈ schema.string_map_groups, ∀ key,
      HasKey (group.extract_map w) key ↔ HasKey (group.extract_map v) key
  managed : ∀ {v entries object w}, Shaped v →
    resource.from_value (set_managed_fields serde v entries) = .ok object →
    resource.to_value object = .ok w →
    extract_managed_fields serde w =
      extract_managed_fields serde (set_managed_fields serde v entries)

end

/-! ### One apply -/

section Apply

variable {T : Type} {serde : Serde} {resource : Resource T} {schema : ResourceLeafSchema}
  {object : T} {now : Int}

theorem object_value_of_ok {w : Json} (h : resource.to_value object = .ok w) :
    object_value resource (some object) = w := by
  rw [object_value, h]

theorem apply_via_schema_applied {current : Option T} {desired : Json} {opts : ApplyOptions}
    (h : apply_via_schema serde resource schema current desired opts now = .ok (.applied object)) :
    (∃ obj, current = none ∧ desired = .object obj ∧
      resource.from_value (set_managed_fields serde
        (.object (strip_managed_fields (ensure_apiversion_kind schema obj)))
        [new_entry opts.field_manager now (config_leaves schema desired)]) = .ok object) ∨
    (∃ c w, current = some c ∧ resource.to_value c = .ok w ∧
      let entries := extract_managed_fields serde w
      let owners := index_owners opts.field_manager entries
      let merged := merge_leaves schema w desired opts owners.1 owners.2
      Clear opts.force merged.conflicts ∧
        resource.from_value (set_managed_fields serde (commit_leaves w merged)
          (rewrite_managed_fields entries opts.field_manager now merged.claimed merged.released
            owners.2 opts.force)) = .ok object) := by
  cases desired with
  | object obj =>
    simp only [apply_via_schema] at h
    split_ifs at h with hempty
    cases current with
    | none =>
      obtain ⟨object', hdecode, heq⟩ := Folds.bind_eq_ok.mp h
      obtain rfl : object' = object := by simpa [pure, Except.pure] using heq
      exact .inl ⟨obj, rfl, rfl, Folds.mapError_eq_ok.mp hdecode⟩
    | some c =>
      obtain ⟨w, hencode, h⟩ := Folds.bind_eq_ok.mp h
      refine .inr ⟨c, w, rfl, Folds.mapError_eq_ok.mp hencode, ?_⟩
      -- it is past the check for conflicts
      split_ifs at h with hconf
      · cases h
      · obtain ⟨object', hdecode, heq⟩ := Folds.bind_eq_ok.mp h
        obtain rfl : object' = object := by simpa [pure, Except.pure] using heq
        refine ⟨?_, Folds.mapError_eq_ok.mp hdecode⟩
        by_cases hforce : opts.force = true
        · exact .inl hforce
        · refine .inr (isEmpty_iff.mp ?_)
          simpa [hforce] using hconf
  | _ => cases h

theorem pointer_mem_config_leaves (hplain : schema.Plain) {group : LeafGroup}
    (hg : group ∈ schema.string_map_groups) (desired : Json) (key : String) :
    group.pointer key ∈ config_leaves schema desired ↔ HasKey (group.extract_map desired) key := by
  rw [mem_config_leaves]
  constructor
  · intro h
    rcases h with ⟨group', _, key', hkey, heq⟩ | ⟨hleaf, _⟩
    · obtain ⟨rfl, rfl⟩ := LeafGroup.pointer_injective heq
      exact hkey
    · exact absurd rfl (hplain.leaf_ne_pointer hleaf group)
  · intro hkey
    exact .inl ⟨group, hg, key, hkey, rfl⟩

theorem extract_map_commit_leaves (hplain : schema.Plain) {w : Json} (hw : Shaped w)
    (desired : Json) (opts : ApplyOptions) (owners : Owners) (prev : OwnedPaths) :
    let w' := commit_leaves w (merge_leaves schema w desired opts owners prev)
    Shaped w' ∧ ∀ group ∈ schema.string_map_groups, group.extract_map w' =
      (merge_string_map_group group (group.extract_map w) (group.extract_map desired)
        opts.field_manager owners prev opts.force).1 := by
  obtain ⟨hshaped, hmaps⟩ := extract_map_set_maps (fun group => (merge_string_map_group group
    (group.extract_map w) (group.extract_map desired) opts.field_manager owners prev opts.force).1)
    schema.string_map_groups hw
  have hleaf : ∀ o ∈ (merge_leaves schema w desired opts owners prev).atomic_overrides,
      o.1 ∉ ["data", "binaryData", "stringData", "metadata"] := by
    intro o ho
    simp only [merge_leaves, mem_filterMap, mem_map] at ho
    obtain ⟨_, ⟨leaf, hl, rfl⟩, hv⟩ := ho
    obtain ⟨v, _, rfl⟩ := Option.map_eq_some_iff.mp hv
    exact (hplain leaf hl).2.2
  have hnew : (merge_leaves schema w desired opts owners prev).new_maps =
      schema.string_map_groups.map fun group => (group, (merge_string_map_group group
        (group.extract_map w) (group.extract_map desired) opts.field_manager owners prev
        opts.force).1) := by
    simp only [merge_leaves, map_map]
    rfl
  rw [← hnew] at hshaped hmaps
  refine ⟨(extract_map_overrides hshaped hleaf .data).1, ?_⟩
  intro group hg
  exact (extract_map_overrides hshaped hleaf group).2.trans (hmaps group (.inl hg))

/-- What holds of the object at every moment. -/
structure Tracked (serde : Serde) (resource : Resource T) (schema : ResourceLeafSchema)
    (object : Option T) : Prop where
  shaped : ∀ c, object = some c → ∃ w, resource.to_value c = .ok w ∧ Shaped w
  within : ∀ manager, recorded serde resource object manager ⊆ schema.pointers
  keys : ∀ group ∈ schema.string_map_groups, ∀ key, key ∈ present resource object group ↔
    ∃ manager, group.pointer key ∈ recorded serde resource object manager

theorem recorded_none (manager : String) :
    recorded serde resource (none : Option T) manager = ∅ := by
  apply eq_empty_of_forall_notMem
  intro p ⟨entry, he, _⟩
  nomatch he

theorem Tracked.none : Tracked serde resource schema (none : Option T) where
  shaped := by
    intro c h
    cases h
  within := by
    intro manager p hp
    rw [recorded_none] at hp
    exact absurd hp (notMem_empty p)
  keys := by
    intro group hg key
    simp only [recorded_none, mem_empty_iff_false, exists_false, iff_false]
    intro h
    have hnil : group.extract_map (.null) = [] := by cases group <;> rfl
    rw [present, object_value] at h
    simp only [hnil] at h
    nomatch h

section Lawful

variable (hlaw : Lawful serde resource schema)

include hlaw in
theorem Lawful.stored {v : Json} (hv : Shaped v) {entries : List ManagedFieldsEntry}
    (hentries : ∀ entry ∈ entries, ∀ f, entry.fields_v1 = some f → f.is_null = false) {object : T}
    (h : resource.from_value (set_managed_fields serde v entries) = .ok object) :
    (∃ w, resource.to_value object = .ok w ∧ Shaped w) ∧
      (∀ manager, recorded serde resource (some object) manager = on_record entries manager) ∧
      ∀ group ∈ schema.string_map_groups, ∀ key,
        key ∈ present resource (some object) group ↔ HasKey (group.extract_map v) key := by
  obtain ⟨w, hencode, hw⟩ := hlaw.encodes h
  have hvalue := object_value_of_ok hencode
  refine ⟨⟨w, hencode, hw⟩, ?_, ?_⟩
  · intro manager
    rw [recorded, hvalue, hlaw.managed hv h hencode, extract_set_managed_fields serde hv hentries]
  · intro group hg key
    have hshaped : Shaped (set_managed_fields serde v entries) := by
      obtain ⟨obj, rfl, hmeta⟩ := hv
      obtain ⟨fields, _, _, heq⟩ := set_managed_fields_object serde hmeta entries
      rw [heq]
      refine ⟨_, rfl, fun x hx => ?_⟩
      rw [Json.lookup_insert_field, if_pos rfl] at hx
      exact ⟨fields, (Option.some.inj hx).symm⟩
    show HasKey (group.extract_map (object_value resource (some object))) key ↔ _
    rw [hvalue, hlaw.keys hshaped h hencode group hg, extract_map_set_managed_fields serde hv]

theorem extract_map_initial (schema : ResourceLeafSchema) {obj : Map} (hobj : Shaped (.object obj)) :
    let v := Json.object (strip_managed_fields (ensure_apiversion_kind schema obj))
    Shaped v ∧ ∀ group : LeafGroup, group.extract_map v = group.extract_map (.object obj) := by
  obtain ⟨obj', heq, hmeta⟩ := hobj
  cases heq
  have hensure : ∀ k, k ≠ "apiVersion" → k ≠ "kind" →
      (ensure_apiversion_kind schema obj).lookup k = obj.lookup k := by
    intro k hapi hkind
    have hset : ∀ (m : Map) (key value : String), k ≠ key →
        (if (m.lookup key).isSome then m else Json.insert_field m key (.string value)).lookup k =
          m.lookup k := by
      intro m key value hk
      split_ifs
      · rfl
      · rw [Json.lookup_insert_field, if_neg hk]
    rw [ensure_apiversion_kind]
    rw [hset _ _ _ hkind, hset _ _ _ hapi]
  have hmeta' : (ensure_apiversion_kind schema obj).lookup "metadata" = obj.lookup "metadata" :=
    hensure "metadata" (by decide) (by decide)
  -- taking the managed fields out of the metadata
  have hstrip : (∀ k, k ≠ "metadata" → (strip_managed_fields (ensure_apiversion_kind schema obj)).lookup k
      = (ensure_apiversion_kind schema obj).lookup k) ∧
      (∀ x, (strip_managed_fields (ensure_apiversion_kind schema obj)).lookup "metadata" = some x →
        ∃ fields, x = .object fields) ∧
      ∀ k, k ≠ "managedFields" →
        ((strip_managed_fields (ensure_apiversion_kind schema obj)).lookup "metadata").bind (·.get k) =
          (obj.lookup "metadata").bind (·.get k) := by
    rw [strip_managed_fields, hmeta']
    cases hx : obj.lookup "metadata" with
    | none =>
      simp only [hmeta', hx]
      exact ⟨fun k _ => trivial, by simp, fun k _ => trivial⟩
    | some x =>
      obtain ⟨fields, rfl⟩ := hmeta x hx
      refine ⟨fun k hk => ?_, fun x hx => ?_, fun k hk => ?_⟩
      · rw [Json.lookup_insert_field, if_neg hk]
      · rw [Json.lookup_insert_field, if_pos rfl] at hx
        exact ⟨_, (Option.some.inj hx).symm⟩
      · rw [Json.lookup_insert_field, if_pos rfl, Option.bind_some, Option.bind_some, Json.get,
          Json.lookup_remove_field, if_neg hk, Json.get]
  refine ⟨⟨_, rfl, hstrip.2.1⟩, ?_⟩
  intro group
  apply extract_map_congr
  rcases group.path_cases with ⟨k, hpath, hk⟩ | ⟨k, hpath, hk⟩
  · have hne : k ≠ "metadata" ∧ k ≠ "apiVersion" ∧ k ≠ "kind" := by
      refine ⟨?_, ?_, ?_⟩ <;>
      · rintro rfl
        exact absurd hk (by decide)
    rw [hpath, walk_root, walk_root, hstrip.1 k hne.1, hensure k hne.2.1 hne.2.2]
  · have hne : k ≠ "managedFields" := ne_of_mem_of_not_mem hk (by decide)
    rw [hpath, walk_metadata, walk_metadata, hstrip.2.2 k hne]

theorem fields_v1_new_entry {manager : String} {paths : OwnedPaths} {f : Json}
    (h : (new_entry manager now paths).fields_v1 = some f) : f.is_null = false := by
  cases h
  rfl

/-- A rewritten record has nested forms that are objects. -/
theorem fields_v1_rewrite {existing : List ManagedFieldsEntry} {applier : String}
    {claimed released prev : OwnedPaths} {force : Bool} {entry : ManagedFieldsEntry}
    (h : entry ∈ rewrite_managed_fields existing applier now claimed released prev force)
    {f : Json} (hf : entry.fields_v1 = some f) : f.is_null = false := by
  have hold : ∀ e, entry ∈ rewrite_entry applier now claimed released prev force e →
      f.is_null = false := by
    intro e he
    rw [Option.mem_def, rewrite_entry] at he
    split_ifs at he
    all_goals
      obtain ⟨_, heq⟩ := Option.ite_none_left_eq_some.mp he
      cases heq
      cases hf
      rfl
  simp only [rewrite_managed_fields] at h
  split_ifs at h with hnew
  · rcases mem_append.mp h with h | h
    · obtain ⟨e, _, he⟩ := mem_filterMap.mp h
      exact hold e he
    · rw [mem_singleton.mp h] at hf
      exact fields_v1_new_entry hf
  · obtain ⟨e, _, he⟩ := mem_filterMap.mp h
    exact hold e he

variable (hplain : schema.Plain)

include hlaw hplain in
/-- **Creation**: the applier is on record for the leaves of its configuration. -/
theorem recorded_create {obj : Map} {opts : ApplyOptions} (hobj : Shaped (.object obj))
    (h : resource.from_value (set_managed_fields serde
      (.object (strip_managed_fields (ensure_apiversion_kind schema obj)))
      [new_entry opts.field_manager now (config_leaves schema (.object obj))]) = .ok object) :
    (∃ w, resource.to_value object = .ok w ∧ Shaped w) ∧
      (∀ manager p, p ∈ recorded serde resource (some object) manager ↔
        manager = opts.field_manager ∧ p ∈ config_leaves schema (.object obj)) ∧
      ∀ group ∈ schema.string_map_groups, ∀ key, key ∈ present resource (some object) group ↔
        group.pointer key ∈ config_leaves schema (.object obj) := by
  obtain ⟨hshaped, hmaps⟩ := extract_map_initial schema hobj
  have hentries : ∀ entry ∈ [new_entry opts.field_manager now (config_leaves schema (.object obj))],
      ∀ f, entry.fields_v1 = some f → f.is_null = false := by
    intro entry he f hf
    rw [mem_singleton.mp he] at hf
    exact fields_v1_new_entry hf
  obtain ⟨hencode, hrecord, hpresent⟩ := hlaw.stored hshaped hentries h
  refine ⟨hencode, ?_, ?_⟩
  · intro manager p
    have hpaths : p ∈ entry_paths (new_entry opts.field_manager now
        (config_leaves schema (.object obj))) ↔ p ∈ config_leaves schema (.object obj) :=
      mem_entry_paths_applied hplain.separated _ _ _ fun p hp => config_leaves_pointers _ _ hp
    rw [hrecord]
    constructor
    · intro ⟨entry, he, hm, hp⟩
      rw [mem_singleton.mp he] at hm hp
      exact ⟨hm.symm, hpaths.mp hp⟩
    · intro ⟨hm, hp⟩
      exact ⟨_, mem_singleton_self _, hm.symm, hpaths.mpr hp⟩
  · intro group hg key
    rw [hpresent group hg, hmaps, pointer_mem_config_leaves hplain hg]

def Sole (entries : List ManagedFieldsEntry) (manager p : String) : Prop :=
  p ∈ on_record entries manager ∧ ∀ m, m ≠ manager → p ∉ on_record entries m

section Update

variable {c object : T} {w desired : Json} {opts : ApplyOptions} {now : Int}
  {entries : List ManagedFieldsEntry} {owners : Owners} {prev : OwnedPaths} {merged : Merged}

section owners

variable (howners : index_owners opts.field_manager entries = (owners, prev))

include howners

theorem not_foreign_iff (p : String) : (owners.lookup p).isSome = false ↔
      ∀ m, m ≠ opts.field_manager → p ∉ on_record entries m := by
  have hindex := (index_owners_spec opts.field_manager entries p).2
  rw [howners] at hindex
  rw [← Bool.not_eq_true, hindex]
  simp only [not_exists, not_and]

theorem mem_prev_iff (p : String) : p ∈ prev ↔ p ∈ on_record entries opts.field_manager := by
  have hindex := (index_owners_spec opts.field_manager entries p).1
  rw [howners] at hindex
  exact hindex

include hplain in
theorem givenUp_iff {group : LeafGroup} (hg : group ∈ schema.string_map_groups) (key : String) :
    GivenUp group (group.extract_map desired) owners prev key ↔
      group.pointer key ∉ config_leaves schema desired ∧
        Sole entries opts.field_manager (group.pointer key) := by
  rw [GivenUp, Sole, not_foreign_iff howners, mem_prev_iff howners,
    pointer_mem_config_leaves hplain hg]

include hplain in
theorem mem_released_iff (hmerged : merge_leaves schema w desired opts owners prev = merged)
    (hwithin : ∀ m, on_record entries m ⊆ schema.pointers)
    (hkeys : ∀ group ∈ schema.string_map_groups, ∀ key m,
      group.pointer key ∈ on_record entries m → HasKey (group.extract_map w) key) (p : String) :
    p ∈ merged.released ↔
      p ∉ config_leaves schema desired ∧ Sole entries opts.field_manager p := by
  rw [← hmerged, mem_merge_leaves_released]
  constructor
  · intro h
    rcases h with ⟨group, hg, key, _, hgone, rfl⟩ | ⟨hleaf, hout, hmine, hfree⟩
    · exact (givenUp_iff hplain howners hg key).mp hgone
    · refine ⟨?_, (mem_prev_iff howners p).mp hmine, (not_foreign_iff howners p).mp hfree⟩
      intro hin
      rcases mem_config_leaves.mp hin with ⟨group, hg, key, hkey, rfl⟩ | ⟨_, hsome⟩
      · exact hplain.leaf_ne_pointer hleaf group rfl
      · rw [hout] at hsome
        exact Bool.false_ne_true hsome
  · intro ⟨hout, hsole⟩
    rcases hwithin _ hsole.1 with ⟨group, hg, key, rfl⟩ | hleaf
    · refine .inl ⟨group, hg, key, hkeys group hg key _ hsole.1, ?_, rfl⟩
      exact (givenUp_iff hplain howners hg key).mpr ⟨hout, hsole⟩
    · refine .inr ⟨hleaf, ?_, (mem_prev_iff howners p).mpr hsole.1,
        (not_foreign_iff howners p).mpr hsole.2⟩
      apply Bool.eq_false_iff.mpr
      intro hsome
      exact hout (mem_config_leaves.mpr (.inr ⟨hleaf, hsome⟩))

end owners

include hlaw hplain in
/-- **A later apply** follows the ledger that clings to shared paths. -/
theorem recorded_update (htrack : Tracked serde resource schema (some c))
    (hencode : resource.to_value c = .ok w) (hentries : extract_managed_fields serde w = entries)
    (howners : index_owners opts.field_manager entries = (owners, prev))
    (hmerged : merge_leaves schema w desired opts owners prev = merged)
    (hclear : Clear opts.force merged.conflicts)
    (h : resource.from_value (set_managed_fields serde (commit_leaves w merged)
      (rewrite_managed_fields entries opts.field_manager now merged.claimed merged.released prev
        opts.force)) = .ok object) :
    (∃ w, resource.to_value object = .ok w ∧ Shaped w) ∧
      recorded serde resource (some object) = (Request.claim schema ⟨desired, opts, now⟩).cling
        (recorded serde resource (some c)) ∧
      ∀ group ∈ schema.string_map_groups, ∀ key, key ∈ present resource (some object) group ↔
        ∃ m, group.pointer key ∈ recorded serde resource (some object) m := by
  have hvalue := object_value_of_ok hencode
  obtain ⟨w', hencode', hw⟩ := htrack.shaped c rfl
  obtain rfl : w' = w := Except.ok.inj (hencode'.symm.trans hencode)
  -- what was on record, and what was there
  have hrecord : recorded serde resource (some c) = on_record entries := by
    funext m
    rw [recorded, hvalue, hentries]
  have hwithin : ∀ m, on_record entries m ⊆ schema.pointers := by
    intro m
    rw [← hrecord]
    exact htrack.within m
  have hkeys : ∀ group ∈ schema.string_map_groups, ∀ key,
      HasKey (group.extract_map w') key ↔ ∃ m, group.pointer key ∈ on_record entries m := by
    intro group hg key
    have hkey := htrack.keys group hg key
    rw [hrecord, present, hvalue] at hkey
    exact hkey
  have hclaimed : ∀ p, p ∈ merged.claimed ↔ p ∈ config_leaves schema desired := by
    rw [← hmerged] at hclear ⊢
    exact mem_merge_leaves_claimed schema w' desired opts owners prev hclear
  have hreleased := mem_released_iff hplain howners hmerged hwithin
    fun group hg key m hm => (hkeys group hg key).mpr ⟨m, hm⟩
  obtain ⟨hshaped, hmaps⟩ := extract_map_commit_leaves hplain hw desired opts owners prev
  rw [hmerged] at hshaped hmaps
  obtain ⟨hencode'', hrecord', hpresent⟩ := hlaw.stored hshaped
    (fun entry he f hf => fields_v1_rewrite he hf) h
  have hclaimedU : ∀ p ∈ merged.claimed, p ∈ schema.pointers :=
    fun p hp => config_leaves_pointers schema desired ((hclaimed p).mp hp)
  have hcling : recorded serde resource (some object) =
      (Request.claim schema ⟨desired, opts, now⟩).cling (on_record entries) := by
    funext m
    ext p
    rw [hrecord' m]
    by_cases hm : m = opts.field_manager
    · subst hm
      rw [on_record_rewrite_applier hplain.separated hwithin hclaimedU (mem_prev_iff howners),
        hclaimed, hreleased]
      show _ ↔ p ∈ (Request.claim schema ⟨desired, opts, now⟩).cling (on_record entries)
        (Request.claim schema ⟨desired, opts, now⟩).manager
      rw [Claim.cling_manager]
      show _ ↔ p ∈ config_leaves schema desired ∨ (p ∈ on_record entries opts.field_manager ∧
        ∃ m, m ≠ opts.field_manager ∧ p ∈ on_record entries m)
      constructor
      · intro h
        rcases h with h | ⟨hmine, hkept⟩
        · exact .inl h
        · by_cases hin : p ∈ config_leaves schema desired
          · exact .inl hin
          · refine .inr ⟨hmine, ?_⟩
            by_contra hnone
            exact hkept ⟨hin, hmine, fun m hm hp => hnone ⟨m, hm, hp⟩⟩
      · intro h
        rcases h with h | ⟨hmine, m, hm, hp⟩
        · exact .inl h
        · exact .inr ⟨hmine, fun hsole => hsole.2.2 m hm hp⟩
    · rw [on_record_rewrite_other hplain.separated hwithin hclaimedU
        (fun p hp => hwithin _ ((mem_prev_iff howners p).mp hp)) hm, hclaimed,
        Claim.cling_of_ne _ _ hm]
      rfl
  refine ⟨hencode'', hrecord ▸ hcling, ?_⟩
  intro group hg key
  rw [← hmerged] at hclear
  have hmap := ((merge_string_map_group_spec group (group.extract_map w') (group.extract_map desired)
    opts.field_manager owners prev opts.force).2 (hclear.parts.1 group hg)).2 key
  rw [hpresent group hg, hmaps group hg, hmap, hkeys group hg, givenUp_iff hplain howners hg,
    ← pointer_mem_config_leaves hplain hg, hcling, Claim.exists_mem_cling_iff]
  show _ ↔ group.pointer key ∈ config_leaves schema desired ∨
    ((∃ m, group.pointer key ∈ on_record entries m) ∧
      ¬ Sole entries opts.field_manager (group.pointer key))
  tauto

end Update

include hlaw hplain in
/-- **One accepted apply**: the object stays tracked, and the record follows the ledger that
    clings to shared paths. -/
theorem Tracked.accept {current : Option T} {r : Request} {object : T}
    (htrack : Tracked serde resource schema current) (hbody : Shaped r.desired)
    (h : apply_via_schema serde resource schema current r.desired r.opts r.now =
      .ok (.applied object)) :
    Tracked serde resource schema (some object) ∧ recorded serde resource (some object) =
      (r.claim schema).cling (recorded serde resource current) := by
  obtain ⟨hencode, hcling, hkeys⟩ :
      (∃ w, resource.to_value object = .ok w ∧ Shaped w) ∧
      recorded serde resource (some object) =
        (r.claim schema).cling (recorded serde resource current) ∧
      ∀ group ∈ schema.string_map_groups, ∀ key, key ∈ present resource (some object) group ↔
        ∃ m, group.pointer key ∈ recorded serde resource (some object) m := by
    rcases apply_via_schema_applied h with ⟨obj, rfl, hobj, hdecode⟩ | ⟨c, w, rfl, hencode, hrest⟩
    · rw [hobj] at hdecode hbody
      obtain ⟨hencode, hrecord, hpresent⟩ := recorded_create hlaw hplain hbody hdecode
      rw [← hobj] at hrecord hpresent
      refine ⟨hencode, ?_, ?_⟩
      · -- nobody was on record before
        funext m
        ext p
        rw [hrecord]
        by_cases hm : m = r.opts.field_manager
        · subst hm
          show _ ↔ p ∈ (r.claim schema).cling _ (r.claim schema).manager
          rw [Claim.cling_manager]
          simp only [recorded_none, mem_empty_iff_false, false_and, ofPred_false,
            union_empty, true_and]
          rfl
        · rw [Claim.cling_of_ne _ _ hm, recorded_none, empty_sdiff]
          simp [hm]
      · intro group hg key
        rw [hpresent group hg]
        simp only [hrecord, exists_eq_left]
    · exact recorded_update hlaw hplain htrack hencode rfl rfl rfl hrest.1 hrest.2
  refine ⟨⟨?_, ?_, hkeys⟩, hcling⟩
  · intro c hc
    cases hc
    exact hencode
  · intro m p hp
    rw [hcling] at hp
    by_cases hm : m = (r.claim schema).manager
    · subst hm
      rw [Claim.cling_manager] at hp
      rcases hp with hp | hp
      · exact config_leaves_pointers schema r.desired hp
      · exact htrack.within _ hp.1
    · rw [Claim.cling_of_ne _ _ hm] at hp
      exact htrack.within _ hp.1

end Lawful

end Apply

end Ssa
