import Rusternetes.Registry.Steps

/-! # The Generic Registry: What Protects an Object

    Finalizers, grace periods and preconditions stand against the removal of an
    object. A removal is decided at one storage operation, checked at a second one
    and made at a third; what stood against it at the first two stands against the
    object removed if it is still the same one.
-/

open Common Framework LTS

namespace Registry

variable {B : Type} {store : Store B}

theorem Pc.Holds.lawful {db : Storage B} {effects : List (Effect B)} {pc : Pc B}
    (h : pc.Holds store db effects) {e : Effect B} (he : e ∈ effects) :
    ∃ req, pc.request = some req ∧ Lawful store effects req e := by
  have hnothing : effects ≠ [] := List.ne_nil_of_mem he
  cases pc with
  | finished req => exact ⟨req, rfl, h.1 e he⟩
  | deleting d => exact ⟨.delete d, rfl, h.2.1 e he⟩
  | updating u loop | emptied u obj ground removal | marking d input dry_run loop =>
    exact absurd h.1 hnothing
  | _ => exact absurd h hnothing

theorem removal_recorded {R : Type} [DecidableEq R] [DecidableEq B] {s s' : State R B}
    {lbl : Label R B} {old : Versioned (Obj B)} (h : Inv store s)
    (hstep : (registry store).step s lbl s') (hold : s.db.content = some old)
    (hgone : s'.db.content = none) :
    ∃ r ans ground checked, lbl = .step r ans ∧
      s'.effects r = .removed ground checked old :: s.effects r := by
  match lbl with
  | .start r req ans =>
    obtain ⟨_, rfl⟩ := hstep
    nomatch hold.symm.trans hgone
  | .elsewhere =>
    obtain rfl := hstep
    nomatch hold.symm.trans hgone
  | .step r ans =>
    obtain rfl := hstep
    have hexp := (advance_kept ans (h r)).2
    refine ⟨r, ans, ?_⟩
    simp only [Function.update_self]
    revert hexp hgone
    generalize advance store (s.pc r) ans s.db = out
    obtain ⟨pc, db', effects⟩ := out
    intro hgone hexp
    cases hexp with
    | none | kept _ | gone => nomatch hold.symm.trans hgone
    | created _ | wrote _ => cases hgone
    | @removed ground checked old' hold' =>
      rw [hold] at hold'
      cases hold'
      exact ⟨ground, checked, trivial, rfl⟩

/-- Every step, in any interleaving of requests, that takes an object out of the
    storage is the removal of an update or a delete. Nothing stood against it when it
    was decided: for a delete, the object had no finalizers but those of the garbage
    collector and its grace was over or none was due; for an update, the update left
    it without finalizers when its deletion was due. The object checked last satisfied
    the preconditions of the request. Where no write came in between, both are the
    object that is removed. -/
theorem removal_is_warranted {R : Type} [DecidableEq R] [DecidableEq B] {s s' : State R B}
    {lbl : Label R B} {old : Versioned (Obj B)} (h : Reachable (registry store) s)
    (hstep : (registry store).step s lbl s') (hold : s.db.content = some old)
    (hgone : s'.db.content = none) :
    ∃ r ans req ground checked, lbl = .step r ans ∧ (s'.pc r).request = some req ∧
      s'.effects r = .removed ground checked old :: s.effects r ∧
      (∃ x, ground.seen = some x ∧ Warranted store req ground.warrant x ∧
        (x.revision = old.revision → x = old)) ∧
      ∃ y, checked = some y ∧ Satisfies req.preconditions (s'.effects r) y ∧
        (y.revision = old.revision → y = old) := by
  have hinv := reachable_inv h
  obtain ⟨r, ans, ground, checked, hlbl, heff⟩ := removal_recorded hinv hstep hold hgone
  have hmem : .removed ground checked old ∈ s'.effects r := by
    rw [heff]
    exact .head _
  obtain ⟨req, hreq, hlaw⟩ := (inv_step hinv hstep r).lawful hmem
  cases hlaw with
  | removed _ hseen hwarrant hx hchecked hsat hy =>
    exact ⟨r, ans, req, ground, checked, hlbl, hreq, heff, ⟨_, hseen, hwarrant, hx⟩,
      ⟨_, hchecked, hsat, hy⟩⟩

/-! ### An update that empties the finalizers -/

section Runs

variable {R : Type} [DecidableEq R] [DecidableEq B]

def State.start (store : Store B) (s : State R B) (r : R) (req : Request B) (ans : Answers B) :
    State R B :=
  { s with pc := Function.update s.pc r (begin_request store req ans) }

def State.after (store : Store B) (s : State R B) (r : R) (ans : Answers B) : State R B :=
  let op := advance store (s.pc r) ans s.db
  ⟨op.2.1, Function.update s.pc r op.1, Function.update s.effects r (op.2.2 ++ s.effects r)⟩

theorem reachable_start {s : State R B} (h : Reachable (registry store) s) {r : R}
    (hidle : s.pc r = .idle) (req : Request B) (ans : Answers B) :
    Reachable (registry store) (s.start store r req ans) := by
  obtain ⟨tr, hex⟩ := h
  exact ⟨.start r req ans :: tr, hex.step ⟨hidle, rfl⟩⟩

theorem reachable_after {s : State R B} (h : Reachable (registry store) s) (r : R)
    (ans : Answers B) : Reachable (registry store) (s.after store r ans) := by
  obtain ⟨tr, hex⟩ := h
  exact ⟨.step r ans :: tr, hex.step rfl⟩

end Runs

def config_maps : Store Unit where
  key := "/registry/configmaps/default/a"
  qualified_resource := ⟨"", "configmaps"⟩
  namespace_scoped := true
  allow_create_on_update := false
  allow_unconditional_update := true
  enable_garbage_collection := true
  return_deleted_object := false
  should_delete_during_update := none
  decode := id
  decode_metadata := fun _ => rfl
  ttl_func := none
  kind := fun _ => some "ConfigMap"
  validate_delete_options := fun _ => []
  debug := id

/-- Strategies and hooks that let everything pass; an update is by `change`. -/
def agreeable (change : Obj Unit → Obj Unit) : Answers Unit where
  now := 100
  uuid := "u"
  updated_object := fun o => match o with
    | some o => .ok (change o)
    | none => .error (.NotFound "")
  begin_create := none
  begin_update := none
  generate_name := id
  prepare_for_create := id
  validate := fun _ => []
  validate_object_meta := fun _ => []
  canonicalize_create := id
  prepare_for_update := fun o _ => o
  validate_common_fields := fun _ _ => []
  validate_update := fun _ _ => []
  canonicalize_update := id
  create_validation := fun _ => .ok ()
  update_validation := fun _ _ => .ok ()
  delete_validation := fun _ => .ok ()
  decorate := id
  fault := none

/-- One stored object, and no requests. -/
def holding (m : ObjectMeta) : State Unit Unit where
  db := ⟨some ⟨⟨m, ()⟩, 1⟩, 1, by simp⟩
  pc := fun _ => .idle
  effects := fun _ => []

theorem reachable_holding (m : ObjectMeta) : Reachable (registry config_maps) (holding m) :=
  ⟨[], .init ⟨fun _ => rfl, fun _ => rfl⟩⟩

/-- An object whose deletion waits for a finalizer. -/
def held_back : ObjectMeta :=
  ⟨"a", none, some "default", "u1", none, none, some 0, some 50, some 0, some ["example.com/hold"]⟩

def plain_update : UpdateArgs := ⟨"a", some "default", false, false, none⟩

def without_finalizers (o : Obj Unit) : Obj Unit :=
  ⟨{ o.metadata with finalizers := none, resource_version := none }, o.body⟩

/-- The update before it deletes the object. -/
def emptying : State Unit Unit :=
  (((holding held_back).start config_maps () (.update plain_update)
    (agreeable without_finalizers)).after config_maps () (agreeable without_finalizers)).after
      config_maps () (agreeable without_finalizers)

theorem reachable_emptying : Reachable (registry config_maps) emptying :=
  reachable_after (reachable_after (reachable_start (reachable_holding held_back) rfl _ _) () _) () _

/-- An update that takes the finalizers away removes the object with its finalizers
    still stored. -/
theorem emptying_update_removes_finalizers :
    ∃ (s s' : State Unit Unit) (lbl : Label Unit Unit) (old : Versioned (Obj Unit)),
      Reachable (registry config_maps) s ∧ (registry config_maps).step s lbl s' ∧
        s.db.content = some old ∧ s'.db.content = none ∧
        old.value.metadata.finalizer_list = ["example.com/hold"] :=
  ⟨emptying, emptying.after config_maps () (agreeable without_finalizers),
    .step () (agreeable without_finalizers), ⟨⟨held_back, ()⟩, 1⟩, reachable_emptying, rfl, rfl, rfl,
    rfl⟩

/-- That removal is warranted: the update left no finalizers. -/
theorem removal_is_warranted_emptying :
    ∃ r ans req ground checked, Label.step () (agreeable without_finalizers) = .step r ans ∧
      ((emptying.after config_maps () (agreeable without_finalizers)).pc r).request = some req ∧
      (emptying.after config_maps () (agreeable without_finalizers)).effects r =
        .removed ground checked ⟨⟨held_back, ()⟩, 1⟩ :: emptying.effects r ∧
      (∃ x, ground.seen = some x ∧ Warranted config_maps req ground.warrant x ∧
        (x.revision = 1 → x = ⟨⟨held_back, ()⟩, 1⟩)) ∧
      ∃ y, checked = some y ∧
        Satisfies req.preconditions
          ((emptying.after config_maps () (agreeable without_finalizers)).effects r) y ∧
        (y.revision = 1 → y = ⟨⟨held_back, ()⟩, 1⟩) :=
  removal_is_warranted reachable_emptying rfl rfl rfl

end Registry
