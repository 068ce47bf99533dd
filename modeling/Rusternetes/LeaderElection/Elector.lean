import Rusternetes.Framework.Cell
import Rusternetes.Framework.LTS

/-! # Leader Election

    Electors that share one Lease. An elector keeps the record it last observed with
    the time it did, and its lock keeps the Lease it last saw, whose version guards the
    next write. A step is one access to the storage, together with what the elector
    computes until its next access; in between the others act.

    * An access may fail, and a write may take effect although it is reported to fail.
    * An elector may be cancelled wherever it waits.
    * Each elector has a clock of its own, whose readings do not decrease.
-/

open Framework LTS

namespace LeaderElection

/-! ### Records and Leases -/

/-- A time, in nanoseconds since the Unix epoch. -/
abbrev Time := Int

def unix_epoch : Time := 0

def second : Int := 1000000000

structure LeaderElectionRecord where
  holder_identity : String := ""
  lease_duration_seconds : Int32 := 0
  acquire_time : Time := unix_epoch
  renew_time : Time := unix_epoch
  leader_transitions : Int32 := 0
  preferred_holder : String := ""
  strategy : String := ""
  deriving DecidableEq

structure LeaseSpec where
  holder_identity : Option String := none
  lease_duration_seconds : Option Int32 := none
  acquire_time : Option Time := none
  renew_time : Option Time := none
  lease_transitions : Option Int32 := none
  preferred_holder : Option String := none
  strategy : Option String := none
  deriving DecidableEq

def lease_spec_to_record (spec : LeaseSpec) : LeaderElectionRecord where
  holder_identity := spec.holder_identity.getD ""
  lease_duration_seconds := spec.lease_duration_seconds.getD 0
  acquire_time := spec.acquire_time.getD unix_epoch
  renew_time := spec.renew_time.getD unix_epoch
  leader_transitions := spec.lease_transitions.getD 0
  preferred_holder := spec.preferred_holder.getD ""
  strategy := spec.strategy.getD ""

def record_to_lease_spec (r : LeaderElectionRecord) : LeaseSpec where
  holder_identity := some r.holder_identity
  lease_duration_seconds := some r.lease_duration_seconds
  acquire_time := some r.acquire_time
  renew_time := some r.renew_time
  lease_transitions := some r.leader_transitions
  preferred_holder := if r.preferred_holder = "" then none else some r.preferred_holder
  strategy := if r.strategy = "" then none else some r.strategy

/-- A time as it is stored, with six fractional digits. -/
def micro_time (t : Time) : Time := t / 1000 * 1000

def LeaseSpec.stored (spec : LeaseSpec) : LeaseSpec :=
  { spec with
    acquire_time := spec.acquire_time.map micro_time
    renew_time := spec.renew_time.map micro_time }

/-- A Lease as the storage returns it: its spec, if it has one, under its version. -/
abbrev Lease := Versioned (Option LeaseSpec)

def record_of (lease : Lease) : LeaderElectionRecord :=
  lease_spec_to_record (lease.value.getD {})

/-! ### An elector -/

structure Config where
  identity : String
  /-- `lease_duration.as_secs()`. -/
  lease_duration : UInt64

structure Observed where
  record : LeaderElectionRecord := {}
  time : Time := unix_epoch

/-- Where an elector waits. -/
inductive Phase where
  | idle
  /-- For the optimistic update of `try_acquire_or_renew`. -/
  | renewing (now : Time) (record : LeaderElectionRecord)
  /-- For the get of `try_acquire_or_renew`. -/
  | getting (now : Time) (record : LeaderElectionRecord)
  | creating (record : LeaderElectionRecord)
  /-- For the update of `try_acquire_or_renew` after its get. -/
  | updating (now : Time) (record : LeaderElectionRecord)
  /-- For the get of `release`. -/
  | release_getting
  /-- For the update of `release`. -/
  | releasing (record : LeaderElectionRecord)

structure Elector where
  observed : Observed := {}
  /-- The Lease last returned to the lock. -/
  lease : Option Lease := none
  phase : Phase := .idle
  /-- The last reading of the clock. -/
  clock : Time
  /-- What the elector read so far and when: only statements look at it. -/
  seen : List (LeaderElectionRecord × Time) := []

namespace Elector

def is_leader (cfg : Config) (e : Elector) : Bool :=
  e.observed.record.holder_identity == cfg.identity

def is_lease_valid (e : Elector) (now : Time) : Bool :=
  e.observed.time + e.observed.record.lease_duration_seconds.toInt * second > now

def set_observed (e : Elector) (record : LeaderElectionRecord) (clock : Time) : Elector :=
  { e with observed := { record := record, time := clock } }

/-- The record an elector would write now. -/
def fresh_record (cfg : Config) (now : Time) : LeaderElectionRecord where
  holder_identity := cfg.identity
  lease_duration_seconds := cfg.lease_duration.toUInt32.toInt32
  renew_time := now
  acquire_time := now

def renewed (record old : LeaderElectionRecord) : LeaderElectionRecord :=
  { record with acquire_time := old.acquire_time, leader_transitions := old.leader_transitions }

def try_acquire_or_renew (cfg : Config) (e : Elector) (now : Time) : Elector :=
  let record := fresh_record cfg now
  if e.is_leader cfg && e.is_lease_valid now then
    { e with phase := .renewing now (renewed record e.observed.record) }
  else { e with phase := .getting now record }

/-- Keep the record that was got, and when, unless it is the one known. -/
def observe (e : Elector) (old : LeaderElectionRecord) (clock : Time) : Elector :=
  if e.observed.record ≠ old then e.set_observed old clock else e

/-- `try_acquire_or_renew` after its get returned a Lease. -/
def got (cfg : Config) (e : Elector) (now : Time) (record : LeaderElectionRecord) (lease : Lease)
    (clock : Time) : Elector :=
  let old := record_of lease
  let e := { e with lease := some lease, seen := (old, clock) :: e.seen }.observe old clock
  if old.holder_identity ≠ "" && e.is_lease_valid now && !e.is_leader cfg then
    { e with phase := .idle }
  else if e.is_leader cfg then { e with phase := .updating now (renewed record old) }
  else
    let record := { record with leader_transitions := old.leader_transitions + 1 }
    { e with phase := .updating now record }

/-- `release` after its get returned a Lease. -/
def release_got (cfg : Config) (e : Elector) (lease : Lease) (clock : Time) : Elector :=
  let old := record_of lease
  let e := { e with lease := some lease, seen := (old, clock) :: e.seen }
  if !e.is_leader cfg then { e with phase := .idle }
  else
    let record := { leader_transitions := old.leader_transitions, lease_duration_seconds := 1,
                    renew_time := clock, acquire_time := clock }
    { e with phase := .releasing record }

/-- A write of a record has succeeded. -/
def written (e : Elector) (record : LeaderElectionRecord) (lease : Lease) (clock : Time) : Elector :=
  { (e.set_observed record clock) with lease := some lease, phase := .idle }

def pending (e : Elector) : Option LeaderElectionRecord :=
  match e.phase with
  | .renewing _ record => some record
  | .updating _ record => some record
  | .releasing record => some record
  | _ => none

/-- An update has failed: the optimistic one is followed by a get. -/
def update_failed (e : Elector) : Elector :=
  match e.phase with
  -- the record has been corrected for a leader that stays
  | .renewing now record => { e with phase := .getting now record }
  | _ => { e with phase := .idle }

end Elector

/-! ### The election -/

/-- What becomes of an access to the storage. -/
inductive Answer where
  | arrives
  /-- It takes effect and is reported to fail. -/
  | lost
  | fails
  deriving DecidableEq

structure State (ι : Type) where
  lease : Cell (Option LeaseSpec)
  elector : ι → Elector

/-- The steps, with the reading of the elector's clock. -/
inductive Label (ι : Type) where
  | try_acquire_or_renew (i : ι) (clock : Time)
  | release (i : ι)
  | get (i : ι) (clock : Time) (answer : Answer)
  | create (i : ι) (clock : Time) (answer : Answer)
  | update (i : ι) (clock : Time) (answer : Answer)
  | cancel (i : ι)

/-- Whose step it is. -/
def Label.elector {ι : Type} : Label ι → ι
  | .try_acquire_or_renew i _ => i
  | .release i => i
  | .get i _ _ => i
  | .create i _ _ => i
  | .update i _ _ => i
  | .cancel i => i

/-- The Lease as the storage returns it after a write. -/
def put_record (c : Cell (Option LeaseSpec)) (record : LeaderElectionRecord) : Lease :=
  ⟨some (record_to_lease_spec record).stored, c.last + 1⟩

def Elector.get_answered (cfg : Config) (e : Elector) (content : Option Lease) (clock : Time)
    (answer : Answer) : Option Elector :=
  match e.phase with
  | .getting now record =>
    if answer = .arrives then
      match content with
      | some lease => some (e.got cfg now record lease clock)
      | none => some { e with phase := .creating record }
    else some { e with phase := .idle }
  | .release_getting =>
    if answer = .arrives then
      match content with
      | some lease => some (e.release_got cfg lease clock)
      | none => some { e with phase := .idle }
    else some { e with phase := .idle }
  | _ => none

/-- A create of a record: the Lease and the elector after it. -/
def create_answered (c : Cell (Option LeaseSpec)) (e : Elector) (record : LeaderElectionRecord)
    (clock : Time) (answer : Answer) : Cell (Option LeaseSpec) × Elector :=
  if c.content.isNone && answer ≠ .fails then
    (c.put (put_record c record).value,
      if answer = .arrives then e.written record (put_record c record) clock
      else { e with phase := .idle })
  else (c, { e with phase := .idle })

/-- An update to a record, if the Lease is still the one the lock saw last. -/
def update_answered (c : Cell (Option LeaseSpec)) (e : Elector) (record : LeaderElectionRecord)
    (clock : Time) (answer : Answer) : Cell (Option LeaseSpec) × Elector :=
  match e.lease with
  | none => (c, e.update_failed)
  | some lease =>
    if c.content.map Versioned.revision = some lease.revision && answer ≠ .fails then
      (c.put (put_record c record).value,
        if answer = .arrives then e.written record (put_record c record) clock
        else e.update_failed)
    else (c, e.update_failed)

section election

variable {ι : Type} [DecidableEq ι] (cfg : ι → Config)

def State.go (s : State ι) (i : ι) (e : Elector) : State ι :=
  { s with elector := Function.update s.elector i e }

def Elector.tick (e : Elector) (clock : Time) : Option Elector :=
  if e.clock ≤ clock then some { e with clock := clock } else none

def Elector.free (e : Elector) : Option Elector :=
  match e.phase with
  | .idle => some e
  | _ => none

/-- What a step leads to, if it can be taken. -/
def next (s : State ι) : Label ι → Option (State ι)
  | .try_acquire_or_renew i clock => do
    let e ← (s.elector i).free
    let e ← e.tick clock
    some (s.go i (e.try_acquire_or_renew (cfg i) clock))
  | .release i => do
    let e ← (s.elector i).free
    some (s.go i { e with phase := .release_getting })
  | .get i clock answer => do
    let e ← (s.elector i).tick clock
    let e ← e.get_answered (cfg i) s.lease.content clock answer
    some (s.go i e)
  | .create i clock answer => do
    let e ← (s.elector i).tick clock
    match e.phase with
    | .creating record =>
      let r := create_answered s.lease e record clock answer
      some { s.go i r.2 with lease := r.1 }
    | _ => none
  | .update i clock answer => do
    let e ← (s.elector i).tick clock
    let record ← e.pending
    let r := update_answered s.lease e record clock answer
    some { s.go i r.2 with lease := r.1 }
  | .cancel i => some (s.go i { s.elector i with phase := .idle })

def Elector.new (clock : Time) : Elector := { clock := clock }

/-- Electors over one Lease, whatever is stored in the beginning. -/
def election : System (State ι) (Label ι) where
  init := fun s => ∀ i, ∃ clock, s.elector i = Elector.new clock
  step := fun s l s' => next cfg s l = some s'

end election

end LeaderElection
