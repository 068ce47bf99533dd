import Rusternetes.Deployments.Surge
import Rusternetes.Framework.LTS

/-! # The Recreate Strategy

    With Recreate the pods of the old template should be gone before the new ReplicaSet
    gets any. The controller looks for old pods in one place only: when the new
    ReplicaSet does not exist and an old one still has replicas to lose.
-/

open List

namespace Deployments

open Framework LTS

/-! ### The count under a name -/

def World.tally (w : World) (name : String) : Option Int32 :=
  (w.replicasets.find name).map ReplicaSet.replicas

section tally

variable {d : Deployment} {w : World}

theorem Annotated.tally {w' : World} (h : Annotated w w') (name : String) :
    w'.tally name = w.tally name := by
  have hcore : ∀ w : World, w.tally name =
      ((w.replicasets.items.map ReplicaSet.core).find? fun c => c.1 = name).map fun c => c.2.1 := by
    intro w
    rw [find?_map, Option.map_map]
    rfl
  rw [hcore, hcore, h.core]

variable {name : String}

end tally

/-! ### When a reconcile raises the new ReplicaSet -/

def others (d : Deployment) (w : World) : List ReplicaSet :=
  match active_rs d (claimed d w) with
  | some active => old_of (claimed d w) active.name
  | none => claimed d w

section recreate

variable {p : Platform} {d : Deployment} {w : World} {owned : List ReplicaSet} {active : ReplicaSet}

variable (hrecreate : d.is_rolling_update = false)
include hrecreate

variable (hlive : d.deletion_timestamp = none) (hpaused : d.paused.getD false = false)
include hlive hpaused

end recreate

/-! ### Runs -/

/-- A Deployment and its namespace. -/
structure State where
  deployment : Deployment
  world : World

/-- What happens: reconciles, template changes, and the ReplicaSet controller at work. -/
inductive Label where
  | reconcile (p : Platform)
  | edit (template : Json)
  | create_pod (rs pod : String)
  | terminate_pod (pod : String) (time : Int)
  | remove_pod (pod : String)

def pods_of (w : World) (rs : ReplicaSet) : List Pod := w.pods.filter (remains [rs])

/-- Pods are created and terminated to match the counts; a terminating pod goes. -/
def enabled (s : State) : Label → Bool
  | .reconcile _ => true
  | .edit _ => true
  | .create_pod rs pod =>
    (s.world.replicasets.find rs).any fun rs =>
      decide (((pods_of s.world rs).length : Int) < rs.replicas.toInt) &&
        s.world.pods.all fun other => other.name ≠ pod
  | .terminate_pod pod _ =>
    s.world.replicasets.items.any fun rs =>
      decide (rs.replicas.toInt < ((pods_of s.world rs).length : Int)) &&
        (pods_of s.world rs).any fun other => other.name = pod
  | .remove_pod pod =>
    s.world.pods.any fun other => decide (other.name = pod) && other.deletion_timestamp.isSome

def next (s : State) : Label → State
  | .reconcile p => { s with world := reconcile_deployment p s.deployment s.world }
  | .edit template => { s with deployment := { s.deployment with template } }
  | .create_pod rs pod =>
    match s.world.replicasets.find rs with
    | some rs =>
      let owner : OwnerReference :=
        { kind := "ReplicaSet", name := rs.name, uid := rs.uid, controller := some true }
      let pods := s.world.pods ++ [{ name := pod, owner_references := [owner] }]
      { s with world := { s.world with pods } }
    | none => s
  | .terminate_pod pod time =>
    let pods := s.world.pods.map fun other =>
      if other.name = pod then { other with deletion_timestamp := some time } else other
    { s with world := { s.world with pods } }
  | .remove_pod pod =>
    let pods := s.world.pods.filter fun other => other.name ≠ pod
    { s with world := { s.world with pods } }

namespace Sample

def recreate : DeploymentStrategy := { strategy_type := "Recreate" }

def later : Platform := { platform with now := 200, new_uid := "u-200" }

/-- A Deployment before its first reconcile. -/
def fresh : State where
  deployment := deployment "1" 1 recreate
  world := { replicasets := ⟨[], by decide⟩, pods := [] }

/-- A rollout and a change of template, up to the second reconcile after it. -/
def changed : List Label :=
  [.reconcile platform, .create_pod "web-1" "a", .edit (template "2"), .reconcile later]

/-- The same with the old pod terminated and gone before that reconcile. -/
def emptied : List Label :=
  changed ++ [.terminate_pod "a" 150, .remove_pod "a"]

end Sample

end Deployments
