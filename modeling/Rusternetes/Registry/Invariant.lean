import Rusternetes.Registry.Callbacks
import Rusternetes.Registry.GuaranteedUpdate

/-! # The Generic Registry: What Holds of a Request

    The invariant of one request, by where it stands. What a request does to the
    key is explained by what it read before, and what was read is recorded for ever,
    so the invariant survives whatever other requests do in between.
-/

open Common Framework LTS

namespace Registry

variable {B : Type}

/-! ### What a step does to the key -/

/-- The effects of a step are what happened to the key. -/
inductive Explained (db : Storage B) : Storage B → List (Effect B) → Prop where
  | none : Explained db db []
  | created {ans new} (h : db.content = none) :
      Explained db (db.put new) [.created ans ⟨new, db.last + 1⟩]
  | wrote {ans old new} (h : db.content = some old) :
      Explained db (db.put new) [.wrote ans old ⟨new, db.last + 1⟩]
  | kept {ans x} (h : db.content = some x) : Explained db db [.kept ans x]
  | gone {ground} : Explained db db [.gone ground]
  | removed {ground checked old} (h : db.content = some old) :
      Explained db db.clear [.removed ground checked old]

theorem Explained.next {db db' : Storage B} {effects : List (Effect B)}
    (h : Explained db db' effects) : Cell.Next db db' := by
  cases h with
  | created _ | wrote _ => exact .put _
  | removed _ => exact .clear
  | _ => exact .same

theorem LoopStep.explained {σ : Type} {store : Store B} {g : Guarded σ B} {I : σ → Prop}
    {ans : Answers B} {db db' : Storage B} {loop : Loop σ B} {next : Next σ B}
    {effects : List (Effect B)} (h : LoopStep store g I ans db loop next db' effects) :
    Explained db db' effects := by
  cases h with
  | kept _ hx _ => exact .kept hx
  | created _ hnone _ => exact .created hnone
  | wrote _ hold _ _ => exact .wrote hold
  | _ => exact .none

/-! ### What warrants an effect -/

def Request.preconditions : Request B → Option Preconditions
  | .create _ => none
  | .update u => u.preconditions
  | .delete d => d.options.preconditions

/-- The warrant for a removal holds of the stored object. -/
inductive Warranted (store : Store B) : Request B → Warrant B → Versioned (Obj B) → Prop where
  | emptied {u ans obj x} (hfrom : UpdatedFrom store u ans x (.error (.EmptiedFinalizers obj)))
      (hempty : Emptied ans (store.decode (stamped x)) obj) :
      Warranted store (.update u) (.emptied ans obj) x
  | unmarked {d options existing x}
      (hx : existing = stamped x ∨ existing = store.decode (stamped x))
      (hasked : Asked store d options) (hfin : GcOnly x.value.metadata)
      (hgrace : NoGraceDue d.strategy existing options) :
      Warranted store (.delete d) (.unmarked options) x
  | marked {d x} (hfin : x.value.metadata.has_finalizers = false)
      (hgrace : NoGraceLeft x.value.metadata) : Warranted store (.delete d) .marked x

/-- The stored object satisfies the preconditions. The version named may be the one
    that the request itself wrote this object over. -/
structure Satisfies (preconditions : Option Preconditions) (effects : List (Effect B))
    (y : Versioned (Obj B)) : Prop where
  uid : ∀ p u, preconditions = some p → p.uid = some u → y.value.metadata.uid = u
  version : ∀ p v, preconditions = some p → p.resource_version = some v →
    toString y.revision = v ∨
      ∃ ans old, .wrote ans old y ∈ effects ∧ toString old.revision = v

/-- What a request may do, given all that it did. -/
inductive Lawful (store : Store B) (effects : List (Effect B)) : Request B → Effect B → Prop where
  | create {c ans new} : Lawful store effects (.create c) (.created ans new)
  | created {u ans st st' new} (hdry : u.dry_run = false)
      (h : store.try_update u ans st none = (st', .ok new.value)) :
      Lawful store effects (.update u) (.created ans new)
  | wrote {u ans old new obj} (hdry : u.dry_run = false)
      (hfrom : UpdatedFrom store u ans old (.ok obj))
      (hnew : new.value = obj.with_version (some (toString old.revision)))
      (hne : new.value ≠ store.decode (stamped old)) :
      Lawful store effects (.update u) (.wrote ans old new)
  | kept {u ans x obj} (hdry : u.dry_run = false) (hfrom : UpdatedFrom store u ans x (.ok obj))
      (hsame : obj.with_version (some (toString x.revision)) = store.decode (stamped x)) :
      Lawful store effects (.update u) (.kept ans x)
  | mark {d ans st st' old new obj}
      (h : store.try_mark d ans st (store.decode (stamped old)) = (st', .ok obj))
      (hnew : new.value = obj.with_version (some (toString old.revision))) :
      Lawful store effects (.delete d) (.wrote ans old new)
  | keep_mark {d ans x} : Lawful store effects (.delete d) (.kept ans x)
  | gone {u ground x} (hdry : u.dry_run = false) (hseen : ground.seen = some x)
      (h : Warranted store (.update u) ground.warrant x) :
      Lawful store effects (.update u) (.gone ground)
  | removed {req ground checked old x y} (hdry : ∀ u, req = .update u → u.dry_run = false)
      (hseen : ground.seen = some x) (h : Warranted store req ground.warrant x)
      (hx : x.revision = old.revision → x = old) (hchecked : checked = some y)
      (hsat : Satisfies req.preconditions effects y) (hy : y.revision = old.revision → y = old) :
      Lawful store effects req (.removed ground checked old)

/-! ### The invariant -/

/-- A removal has a ground that held of what was stored. -/
def Grounded (store : Store B) (db : Storage B) (req : Request B) (ground : Ground B)
    (x : Versioned (Obj B)) : Prop :=
  ground.seen = some x ∧ db.Recorded x ∧ Warranted store req ground.warrant x

/-- What the check of `storage_delete` found, if it was made. -/
def Checked (db : Storage B) (preconditions : Option Preconditions) (effects : List (Effect B)) :
    Removal B → Prop
  | .check => True
  | .delete checked _ => ∃ y, checked = some y ∧ db.Recorded y ∧ Satisfies preconditions effects y

/-- An object that passes a check of `enforced` satisfies the preconditions. -/
def Enforces (preconditions : Option Preconditions) (effects : List (Effect B))
    (x : Versioned (Obj B)) (enforced : Option Preconditions) : Prop :=
  ∀ y, Meets enforced (stamped y).metadata → (y.revision = x.revision → y = x) →
    Satisfies preconditions effects y

/-- The effects of a delete before it removes anything. -/
def MarkedOnly (effects : List (Effect B)) : Prop :=
  effects = [] ∨ (∃ ans x, effects = [.kept ans x]) ∨ ∃ ans old new, effects = [.wrote ans old new]

/-- The version that the first read of a delete found is the one asked for. -/
def InputOk (d : DeleteArgs B) (input : Obj B) : Prop :=
  ∀ p v, d.options.preconditions = some p → p.resource_version = some v →
    input.metadata.resource_version = some v

/-- How much a request has done when it is over: nothing if it failed, a mark at
    most if it was a delete; one thing if it was an update and no dry run. -/
def Shape : Request B → Except Error (Response B) → List (Effect B) → Prop
  | .delete _, .ok _, effects => MarkedOnly effects ∨
      ∃ ground checked old earlier,
        effects = .removed ground checked old :: earlier ∧ MarkedOnly earlier
  | .delete _, .error _, effects => MarkedOnly effects
  | .update u, .ok _, effects =>
    if u.dry_run then effects = [] else ∃ e, effects = [e]
  | .create _, .ok _, effects => effects.length ≤ 1
  | _, .error _, effects => effects = []

/-- The invariant of a request. -/
def Pc.Holds (store : Store B) (db : Storage B) (effects : List (Effect B)) : Pc B → Prop
  | .idle | .creating _ _ | .taken _ _ | .reading _ => effects = []
  | .updating u loop =>
    effects = [] ∧ Held store (store.update_loop u) (fun _ => True) db loop
  | .emptied u _ ground removal =>
    effects = [] ∧ (∃ x, Grounded store db (.update u) ground x) ∧
      Checked db u.preconditions effects removal ∧ (u.dry_run = true → removal = .check)
  | .marking d input dry_run loop =>
    effects = [] ∧ InputOk d input ∧
      Held store (store.mark_loop d dry_run) (fun st => Asked store d st.options) db loop
  | .deleting d vars ground removal =>
    MarkedOnly effects ∧ (∀ e ∈ effects, Lawful store effects (.delete d) e) ∧
      (∃ x, Grounded store db (.delete d) ground x ∧
        Enforces d.options.preconditions effects x vars.preconditions) ∧
      Checked db d.options.preconditions effects removal
  | .finished req result =>
    (∀ e ∈ effects, Lawful store effects req e) ∧ Shape req result effects

end Registry
