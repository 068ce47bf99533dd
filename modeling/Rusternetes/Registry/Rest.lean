import Mathlib
import Rusternetes.Registry.Object

/-! # The Generic Registry: Strategies

    `BeforeCreate`, `BeforeUpdate` and `BeforeDelete`: what the store does around
    the strategies of a resource. What strategies, hooks and validators answer is
    not fixed; a request may get other answers each time it asks.
-/

open Common

namespace Registry

variable {B : Type}

/-! ### What is not fixed -/

/-- The answers of strategies, hooks and validators, the clock, and whether the
    storage fails, while a request goes on. -/
structure Answers (B : Type) where
  /-- The time, in whole seconds. -/
  now : Int
  /-- A new uuid. -/
  uuid : String
  /-- `UpdatedObjectInfo::updated_object`, with the transformers. -/
  updated_object : Option (Obj B) → Except Error (Obj B)
  /-- `BeginCreate::begin_create`, which may change the object. -/
  begin_create : Option (Obj B → Except Error (Obj B))
  /-- `BeginUpdate::begin_update`, which may change the object and its copy of the
      old one. -/
  begin_update : Option (Obj B → Obj B → Except Error (Obj B × Obj B))
  generate_name : String → String
  prepare_for_create : Obj B → Obj B
  /-- `validate_async` and `validate`. -/
  validate : Obj B → List String
  validate_object_meta : ObjectMeta → List String
  canonicalize_create : Obj B → Obj B
  prepare_for_update : Obj B → Obj B → Obj B
  validate_common_fields : ObjectMeta → ObjectMeta → List String
  /-- `validate_update_async` and `validate_update`. -/
  validate_update : Obj B → Obj B → List String
  canonicalize_update : Obj B → Obj B
  create_validation : Obj B → Except Error Unit
  update_validation : Obj B → Obj B → Except Error Unit
  delete_validation : Obj B → Except Error Unit
  decorate : Obj B → Obj B
  /-- An error of the storage other than what the operation itself answers. -/
  fault : Option Error

/-- `RestDeleteStrategy`. -/
structure DeleteStrategy (B : Type) where
  default_garbage_collection_policy : Option GarbageCollectionPolicy
  /-- `check_graceful_delete`, if the strategy is graceful. It may change the
      options. -/
  graceful : Option (Obj B → DeleteOptions → Bool × DeleteOptions)

/-! ### Metadata -/

def fill_object_meta_system_fields (ans : Answers B) (m : ObjectMeta) : ObjectMeta :=
  { m with creation_timestamp := some ans.now, uid := ans.uuid }

def needs_name (m : ObjectMeta) : Bool := m.generate_name.any (· ≠ "") && m.name = ""

/-- `ensure_object_namespace_matches_request_namespace`, for the namespace that is
    expected for the scope. -/
def ensure_object_namespace (namespace_scoped : Bool) (request_namespace : Option String)
    (m : ObjectMeta) : Except Error ObjectMeta :=
  let request := (if namespace_scoped then request_namespace else none).getD ""
  let object := m.ns.getD ""
  if object = request then .ok m
  else if object = "" then .ok { m with ns := some request }
  else if request = "" then .ok { m with ns := none }
  else .error (.BadRequest
    "the namespace of the provided object does not match the namespace sent on the request")

/-! ### Before a create and an update -/

def before_create (ans : Answers B) (namespace_scoped : Bool) (ns : Option String) (obj : Obj B) :
    Except (Error × Obj B) (Obj B) :=
  if obj.metadata.uid = "" ∨ obj.metadata.creation_timestamp = none then
    .error (internal_error "system metadata was not initialized", obj)
  else if needs_name obj.metadata then
    .error (internal_error "metadata.name was not generated", obj)
  else
    match ensure_object_namespace namespace_scoped ns obj.metadata with
    | .error e => .error (e, obj)
    | .ok m =>
      let obj := ans.prepare_for_create { obj with metadata := m }
      if ans.validate obj ≠ [] then .error (.Invalid (ans.validate obj), obj)
      else if ans.validate_object_meta obj.metadata ≠ [] then
        .error (.Invalid (ans.validate_object_meta obj.metadata), obj)
      else .ok (ans.canonicalize_create obj)

/-- The fields that an update cannot change. -/
def keep_system_fields (m old : ObjectMeta) : ObjectMeta :=
  { m with
    uid := if m.uid = "" then old.uid else m.uid
    creation_timestamp := if old.creation_timestamp.isSome then old.creation_timestamp
      else m.creation_timestamp
    deletion_timestamp := if old.deletion_timestamp.isSome then old.deletion_timestamp
      else m.deletion_timestamp
    deletion_grace_period_seconds :=
      if old.deletion_grace_period_seconds.isSome ∧ m.deletion_grace_period_seconds.isNone then
        old.deletion_grace_period_seconds
      else m.deletion_grace_period_seconds }

def before_update (ans : Answers B) (namespace_scoped : Bool) (ns : Option String)
    (obj old : Obj B) : Except (Error × Obj B) (Obj B) :=
  match ensure_object_namespace namespace_scoped ns obj.metadata with
  | .error e => .error (e, obj)
  | .ok m =>
    let obj := ans.prepare_for_update
      { obj with metadata := { m with generation := old.metadata.generation } } old
    let obj := { obj with metadata := keep_system_fields obj.metadata old.metadata }
    let errs := ans.validate_common_fields obj.metadata old.metadata ++ ans.validate_update obj old
    if errs ≠ [] then .error (.Invalid errs, obj) else .ok (ans.canonicalize_update obj)

/-- `with_group_kind`. `kind` is the object's own kind, if it has one. -/
def with_group_kind (kind : Obj B → Option String) (group : String) : Error × Obj B → Error
  | (.Invalid errs, obj) =>
    match (kind obj).filter (· ≠ "") with
    | some k => new_invalid group k obj.metadata.name errs
    | none => .Invalid errs
  | (e, _) => e

def check_generated_name_error (resource : GroupResource) (err : Error) (obj : Obj B) : Error :=
  match err with
  | .AlreadyExists _ =>
    if obj.metadata.generate_name.getD "" = "" then err
    else .AlreadyExists (resource.to_string ++ " \"" ++ obj.metadata.name ++
      "\" already exists, the server was not able to generate a unique name for the object")
  | _ => err

/-! ### Before a delete -/

structure DeleteDecision where
  graceful : Bool
  graceful_pending : Bool
  deriving DecidableEq, Repr

/-- The early check of the preconditions in `before_delete`. -/
def check_early (resource : GroupResource) (preconditions : Option Preconditions)
    (m : ObjectMeta) : Except Error Unit :=
  match preconditions with
  | none => .ok ()
  | some p =>
    if p.uid.any (· ≠ m.uid) then
      .error (conflict resource m.name ("the UID in the precondition (" ++ p.uid.getD "" ++
        ") does not match the UID in record (" ++ m.uid ++
        "). The object might have been deleted and then recreated"))
    else if p.resource_version.any (· ≠ m.resource_version.getD "") then
      .error (conflict resource m.name ("the ResourceVersion in the precondition (" ++
        p.resource_version.getD "" ++ ") does not match the ResourceVersion in record (" ++
        m.resource_version.getD "" ++ "). The object might have been modified"))
    else .ok ()

structure Meets (preconditions : Option Preconditions) (m : ObjectMeta) : Prop where
  uid : ∀ p u, preconditions = some p → p.uid = some u → m.uid = u
  version : ∀ p v, preconditions = some p → p.resource_version = some v →
    m.resource_version.getD "" = v

theorem eq_of_any_ne {given : Option String} {actual v : String}
    (h : given.any (· ≠ actual) = false) (hv : given = some v) : actual = v := by
  rw [hv] at h
  simp only [Option.any_some, ne_eq, decide_not, Bool.not_eq_false', decide_eq_true_eq] at h
  exact h.symm

variable {m : ObjectMeta}

theorem meets_of_any {preconditions : Option Preconditions}
    (h : ∀ p, preconditions = some p → p.uid.any (· ≠ m.uid) = false ∧
      p.resource_version.any (· ≠ m.resource_version.getD "") = false) : Meets preconditions m :=
  ⟨fun p _ hp hu => eq_of_any_ne (h p hp).1 hu, fun p _ hp hv => eq_of_any_ne (h p hp).2 hv⟩

variable {resource : GroupResource}

/-- A negative period counts as one second. -/
def at_least_one (period : Option Int) : Option Int :=
  period.map fun g => if g < 0 then 1 else g

/-- A period that is being shortened: the new time of deletion and the period. -/
def shorten (now deletion_timestamp existing_period period : Int) : Int × Int :=
  let moved := deletion_timestamp - existing_period + period
  if moved < now then (now, if period ≠ 0 then 1 else period) else (moved, period)

def Obj.with_period (obj : Obj B) : Obj B :=
  { obj with
    metadata := { obj.metadata with
      deletion_grace_period_seconds := at_least_one obj.metadata.deletion_grace_period_seconds } }

def DeleteOptions.with_period (options : DeleteOptions) : DeleteOptions :=
  { options with grace_period_seconds := at_least_one options.grace_period_seconds }

/-- The part of `before_delete` for an object that is being deleted: its grace
    period may only be shortened. -/
def delete_terminating (now deletion_timestamp : Int) (obj : Obj B) (options : DeleteOptions) :
    DeleteDecision × Obj B × DeleteOptions :=
  match obj.metadata.deletion_grace_period_seconds with
  -- an earlier delete marked the object but did not remove it
  | none | some 0 => (⟨false, false⟩, obj, options)
  | some existing_period =>
    match options.grace_period_seconds with
    | some period =>
      if period ≥ existing_period then (⟨false, true⟩, obj, options)
      else
        let moved := shorten now deletion_timestamp existing_period period
        (⟨true, false⟩, { obj with
          metadata := { obj.metadata with
            deletion_timestamp := some moved.1
            deletion_grace_period_seconds := some moved.2 } }, options)
    | none => (⟨false, true⟩, obj, { options with grace_period_seconds := some existing_period })

/-- The part of `before_delete` for an object that is not being deleted yet. -/
def delete_live (check_graceful_delete : Obj B → DeleteOptions → Bool × DeleteOptions) (now : Int)
    (obj : Obj B) (options : DeleteOptions) :
    Except Error (DeleteDecision × Obj B × DeleteOptions) :=
  let checked := check_graceful_delete obj options
  if !checked.1 then .ok (⟨false, false⟩, obj, checked.2)
  else
    match checked.2.grace_period_seconds with
    | none => .error (internal_error "options.GracePeriodSeconds should not be nil")
    | some period =>
      .ok (⟨true, false⟩, { obj with
        metadata := { obj.metadata with
          deletion_timestamp := some (now + period)
          deletion_grace_period_seconds := some period
          generation := obj.metadata.generation.map fun g => if g > 0 then g + 1 else g } },
        checked.2)

/-- `before_delete`: the decision, the object and the options. -/
def before_delete (strategy : DeleteStrategy B) (validate : DeleteOptions → List String)
    (resource : GroupResource) (now : Int) (obj : Obj B) (options : DeleteOptions) :
    Except Error (DeleteDecision × Obj B × DeleteOptions) :=
  if validate options ≠ [] then
    .error (new_invalid "meta.k8s.io" "DeleteOptions" "" (validate options))
  else
    match check_early resource options.preconditions obj.metadata with
    | .error e => .error e
    | .ok () =>
      match strategy.graceful, obj.metadata.deletion_timestamp with
      | none, _ => .ok (⟨false, false⟩, obj.with_period, options.with_period)
      | some _, some timestamp =>
        .ok (delete_terminating now timestamp obj.with_period options.with_period)
      | some check_graceful_delete, none =>
        delete_live check_graceful_delete now obj.with_period options.with_period

/-! ### What a delete decides -/

def NoGraceLeft (m : ObjectMeta) : Prop :=
  m.deletion_timestamp.isSome = true ∧ ∀ p, m.deletion_grace_period_seconds = some p → p ≤ 0

/-- Under the options the strategy does not delete the object gracefully, or
    nothing is left of its grace period. -/
def NotGraceful (strategy : DeleteStrategy B) (obj : Obj B) (options : DeleteOptions) : Prop :=
  strategy.graceful = none ∨ NoGraceLeft obj.metadata ∨
    ∃ check, strategy.graceful = some check ∧ obj.metadata.deletion_timestamp = none ∧
      (check obj.with_period options.with_period).1 = false

/-- What a decision stands for: a graceful one has put a period on the object that
    is over when that of the options is. -/
structure Decided (strategy : DeleteStrategy B) (obj : Obj B) (options : DeleteOptions)
    (d : DeleteDecision) (obj' : Obj B) (options' : DeleteOptions) : Prop where
  finalizers : obj'.metadata.finalizers = obj.metadata.finalizers
  version : obj'.metadata.resource_version = obj.metadata.resource_version
  graceful : d.graceful = true → obj'.metadata.deletion_timestamp.isSome = true ∧
    ∃ p q, obj'.metadata.deletion_grace_period_seconds = some p ∧
      options'.grace_period_seconds = some q ∧ (q ≤ 0 → p ≤ 0)
  not_graceful : d.graceful = false → d.graceful_pending = false →
    NotGraceful strategy obj options

theorem at_least_one_nonneg {period : Option Int} {q : Int} (h : at_least_one period = some q) :
    0 ≤ q := by
  obtain ⟨g, _, rfl⟩ := Option.map_eq_some_iff.mp h
  split_ifs <;> omega

variable {now : Int}

theorem shorten_nonpos {timestamp existing period : Int} (h0 : 0 ≤ period) (h : period ≤ 0) :
    (shorten now timestamp existing period).2 ≤ 0 := by
  have hzero : period = 0 := le_antisymm h h0
  unfold shorten
  by_cases hpast : timestamp - existing + period < now
  · rw [if_pos hpast]
    simp [hzero]
  · rw [if_neg hpast]
    exact h

variable {strategy : DeleteStrategy B} {d : DeleteDecision} {obj obj' : Obj B}
  {options options' : DeleteOptions}

theorem delete_terminating_decided {timestamp : Int}
    (ht : obj.metadata.deletion_timestamp = some timestamp)
    (h : delete_terminating now timestamp obj.with_period options.with_period = (d, obj', options')) :
    Decided strategy obj options d obj' options' := by
  have hleft : at_least_one obj.metadata.deletion_grace_period_seconds = none ∨
      at_least_one obj.metadata.deletion_grace_period_seconds = some 0 → NoGraceLeft obj.metadata := by
    intro hgrace
    refine ⟨by rw [ht]; rfl, fun p hp => ?_⟩
    rw [hp] at hgrace
    simp only [at_least_one, Option.map_some, reduceCtorEq, Option.some.injEq, false_or] at hgrace
    split_ifs at hgrace <;> omega
  unfold delete_terminating at h
  split at h
  · rename_i hgrace
    cases h
    exact ⟨rfl, rfl, nofun, fun _ _ => .inr (.inl (hleft (.inl hgrace)))⟩
  · rename_i hgrace
    cases h
    exact ⟨rfl, rfl, nofun, fun _ _ => .inr (.inl (hleft (.inr hgrace)))⟩
  · split at h
    · rename_i existing _ _ period hperiod
      split_ifs at h with hlonger
      · cases h
        exact ⟨rfl, rfl, nofun, nofun⟩
      · cases h
        refine ⟨rfl, rfl, fun _ => ⟨rfl, _, period, rfl, hperiod, ?_⟩, nofun⟩
        exact shorten_nonpos (at_least_one_nonneg hperiod)
    · cases h
      exact ⟨rfl, rfl, nofun, nofun⟩

theorem delete_live_decided {check : Obj B → DeleteOptions → Bool × DeleteOptions}
    (hcheck : strategy.graceful = some check) (ht : obj.metadata.deletion_timestamp = none)
    (h : delete_live check now obj.with_period options.with_period = .ok (d, obj', options')) :
    Decided strategy obj options d obj' options' := by
  simp only [delete_live] at h
  split_ifs at h with hdeclined
  · cases h
    refine ⟨rfl, rfl, nofun, fun _ _ => .inr (.inr ⟨check, hcheck, ht, ?_⟩)⟩
    simpa using hdeclined
  · split at h
    · cases h
    · rename_i period hperiod
      cases h
      exact ⟨rfl, rfl, fun _ => ⟨rfl, period, period, rfl, hperiod, fun hp => hp⟩,
        nofun⟩

/-- `before_delete` touches no more than the deletion of the object. -/
theorem before_delete_decided {validate : DeleteOptions → List String}
    (h : before_delete strategy validate resource now obj options = .ok (d, obj', options')) :
    Decided strategy obj options d obj' options' := by
  unfold before_delete at h
  split_ifs at h with hvalid
  split at h
  · cases h
  · split at h
    · rename_i hnone
      cases h
      exact ⟨rfl, rfl, nofun, fun _ _ => .inl hnone⟩
    · rename_i hcheck ht
      exact delete_terminating_decided ht (Except.ok.inj h)
    · rename_i check hcheck ht
      exact delete_live_decided hcheck ht h

theorem before_delete_meets {validate : DeleteOptions → List String}
    {out : DeleteDecision × Obj B × DeleteOptions}
    (h : before_delete strategy validate resource now obj options = .ok out) :
    Meets options.preconditions obj.metadata := by
  unfold before_delete at h
  split_ifs at h with hvalid
  split at h
  · cases h
  · rename_i hearly
    apply meets_of_any
    rintro p hp
    simp only [hp, check_early] at hearly
    split_ifs at hearly with huid hrv
    exact ⟨by simpa using huid, by simpa using hrv⟩

def NoGraceDue (strategy : DeleteStrategy B) (obj : Obj B) (options : DeleteOptions) : Prop :=
  NotGraceful strategy obj options ∨
    ∃ validate resource now d obj' options',
      before_delete strategy validate resource now obj options = .ok (d, obj', options') ∧
        NoGraceLeft obj'.metadata

/-! ### Garbage collection -/

def finalizer_orphan_dependents : String := "orphan"

def finalizer_delete_dependents : String := "foregroundDeletion"

def should_orphan_dependents (policy : Option GarbageCollectionPolicy) (finalizers : List String)
    (options : DeleteOptions) : Bool :=
  if policy = some .Unsupported then false
  else
    match options.orphan_dependents, options.propagation_policy with
    | some orphan, _ => orphan
    | none, some .Orphan => true
    | none, some _ => false
    | none, none =>
      -- the first finalizer of the two decides
      match finalizers.find? fun f =>
        f = finalizer_orphan_dependents ∨ f = finalizer_delete_dependents with
      | some f => f = finalizer_orphan_dependents
      | none => policy = some .OrphanDependents

def should_delete_dependents (policy : Option GarbageCollectionPolicy) (finalizers : List String)
    (options : DeleteOptions) : Bool :=
  if policy = some .Unsupported then false
  else if options.orphan_dependents.isSome then false
  else
    match options.propagation_policy with
    | some .Foreground => true
    | some _ => false
    | none =>
      match finalizers.find? fun f =>
        f = finalizer_orphan_dependents ∨ f = finalizer_delete_dependents with
      | some f => f = finalizer_delete_dependents
      | none => false

def new_finalizers (policy : Option GarbageCollectionPolicy) (existing : List String)
    (options : DeleteOptions) : List String :=
  existing.filter (fun f => f ≠ finalizer_orphan_dependents ∧ f ≠ finalizer_delete_dependents) ++
    (if should_orphan_dependents policy existing options then [finalizer_orphan_dependents]
      else []) ++
    (if should_delete_dependents policy existing options then [finalizer_delete_dependents] else [])

/-- `deletion_finalizers_for_garbage_collection`: whether the finalizers change,
    and to what. -/
def deletion_finalizers_for_garbage_collection (enabled : Bool)
    (policy : Option GarbageCollectionPolicy) (m : ObjectMeta) (options : DeleteOptions) :
    Bool × List String :=
  let existing := m.finalizer_list
  let new := new_finalizers policy existing options
  if !enabled then (false, [])
  else if existing.toFinset = new.toFinset then (false, existing)
  else (true, new)

def collect_finalizers (enabled : Bool) (policy : Option GarbageCollectionPolicy) (m : ObjectMeta)
    (options : DeleteOptions) : ObjectMeta :=
  let changed := deletion_finalizers_for_garbage_collection enabled policy m options
  if changed.1 then { m with finalizers := if changed.2.isEmpty then none else some changed.2 } else m

theorem collect_finalizers_empty {enabled : Bool} {policy : Option GarbageCollectionPolicy}
    (h : (collect_finalizers enabled policy m options).has_finalizers = false) :
    ∀ f ∈ m.finalizer_list, f = finalizer_orphan_dependents ∨ f = finalizer_delete_dependents := by
  intro f hf
  by_cases hchanged : (deletion_finalizers_for_garbage_collection enabled policy m options).1 = true
  · -- the list was emptied
    have hnew : (deletion_finalizers_for_garbage_collection enabled policy m options).2 =
        new_finalizers policy m.finalizer_list options := by
      simp only [deletion_finalizers_for_garbage_collection] at hchanged ⊢
      split_ifs at hchanged ⊢
      rfl
    simp only [collect_finalizers, hchanged, if_true, hnew] at h
    by_cases hempty : (new_finalizers policy m.finalizer_list options).isEmpty = true
    · rw [List.isEmpty_iff] at hempty
      simp only [new_finalizers, List.append_eq_nil_iff, List.filter_eq_nil_iff] at hempty
      have hout := hempty.1.1 f hf
      simp only [decide_eq_true_eq, not_and_or, not_not] at hout
      exact hout
    · simp [ObjectMeta.has_finalizers, hempty] at h
  · simp only [collect_finalizers, hchanged, Bool.false_eq_true, if_false] at h
    rw [ObjectMeta.has_finalizers_eq_false] at h
    rw [h] at hf
    cases hf

end Registry
