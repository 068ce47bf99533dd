import Rusternetes.Registry.Protection

/-! # The Generic Registry: Updates Lose Nothing

    An update does one thing to the key, at its last step: it replaces the object
    that it was computed from, finds that nothing is to be changed, stores a new
    object or, when the deletion of the object is due, removes it. A request that
    fails does nothing, but for the mark of a delete.
-/

open Common Framework LTS

namespace Registry

variable {B : Type} {store : Store B}

structure UpdateOutcome (store : Store B) (u : UpdateArgs) (pc : Pc B)
    (effects : List (Effect B)) : Prop where
  running : (∀ result, pc ≠ .finished (.update u) result) → effects = []
  failed : ∀ e, pc = .finished (.update u) (.error e) → effects = []
  dry_run : u.dry_run = true → effects = []
  /-- One lawful thing: see `Lawful`. -/
  done : u.dry_run = false → ∀ response, pc = .finished (.update u) (.ok response) →
    ∃ e, effects = [e] ∧ Lawful store [e] (.update u) e

theorem Pc.Holds.update_outcome {db : Storage B} {effects : List (Effect B)} {pc : Pc B}
    {u : UpdateArgs} (h : pc.Holds store db effects) (hreq : pc.request = some (.update u)) :
    UpdateOutcome store u pc effects := by
  have hnothing : effects = [] → (∀ result, pc ≠ .finished (.update u) result) →
      UpdateOutcome store u pc effects := by
    intro hnone hrunning
    exact ⟨fun _ => hnone, fun e he => absurd he (hrunning _), fun _ => hnone,
      fun _ response hok => absurd hok (hrunning _)⟩
  cases pc with
  | updating u' loop | emptied u' obj ground removal => exact hnothing h.1 (by simp)
  | finished req result =>
    cases hreq
    obtain ⟨hlaw, hshape⟩ := h
    cases result with
    | error e =>
      have hnone : effects = [] := hshape
      exact ⟨fun _ => hnone, fun _ _ => hnone, fun _ => hnone, fun _ _ hok => nomatch hok⟩
    | ok =>
      refine ⟨fun hne => absurd rfl (hne _), nofun, ?_, ?_⟩
      · intro hdry
        simpa only [Shape, hdry, if_true] using hshape
      · intro hdry _ _
        simp only [Shape, hdry, Bool.false_eq_true, if_false] at hshape
        obtain ⟨e, rfl⟩ := hshape
        exact ⟨e, rfl, hlaw e (List.mem_singleton.mpr rfl)⟩
  | _ => cases hreq

/-- In any interleaving of requests: what requests do is all that happens to the key.
    An update that is over and was no dry run did one thing. What it stored was
    computed by its `UpdatedObjectInfo` from nothing, where nothing was stored, or
    from the very object that it replaced, and differs from it; if the updated object
    names a version, it is that of the object replaced. An update that changes
    nothing left the object, unless its deletion was due, and then it was removed. A
    dry run and a failed create or update did nothing; a failed delete removed
    nothing, and wrote its own mark at most. -/
theorem updates_lose_nothing {R : Type} [DecidableEq R] [DecidableEq B] {s : State R B}
    (h : Reachable (registry store) s) (r : R) :
    (∀ ans, Explained s.db (advance store (s.pc r) ans s.db).2.1
      (advance store (s.pc r) ans s.db).2.2) ∧
    (∀ u, (s.pc r).request = some (.update u) →
      UpdateOutcome store u (s.pc r) (s.effects r)) ∧
    (∀ c e, s.pc r = .finished (.create c) (.error e) → s.effects r = []) ∧
    (∀ d e, s.pc r = .finished (.delete d) (.error e) →
      MarkedOnly (s.effects r) ∧
        ∀ e ∈ s.effects r, Lawful store (s.effects r) (.delete d) e) := by
  have hr := reachable_inv h r
  refine ⟨fun ans => (advance_kept ans hr).2, fun u hu => hr.update_outcome hu, ?_, ?_⟩
  · intro c e hpc
    rw [hpc] at hr
    exact hr.2
  · intro d e hpc
    rw [hpc] at hr
    exact ⟨hr.2, hr.1⟩

/-! ### Where more happens than was asked for -/

def due : ObjectMeta :=
  ⟨"a", none, some "default", "u1", none, none, some 0, some 50, some 0, none⟩

/-- An update that hands back the object it is given. -/
def touching : State Unit Unit :=
  (((holding due).start config_maps () (.update plain_update) (agreeable id)).after config_maps ()
    (agreeable id)).after config_maps () (agreeable id)

def graceful_delete : DeleteArgs Unit where
  name := "a"
  options := ⟨none, some 0, none, none, none, none⟩
  strategy := ⟨none, some fun _ options => (true, options)⟩

def live : ObjectMeta :=
  ⟨"a", none, some "default", "u1", none, none, some 0, none, none, none⟩

def out_of_reach : Answers Unit := { agreeable id with fault := some (.Internal "unavailable") }

/-- A delete that marks the object; then the storage is out of reach. -/
def marking : State Unit Unit :=
  (((((holding live).start config_maps () (.delete graceful_delete) (agreeable id)).after
    config_maps () (agreeable id)).after config_maps () (agreeable id)).after config_maps ()
      (agreeable id)).after config_maps () out_of_reach

theorem reachable_marking : Reachable (registry config_maps) marking :=
  reachable_after (reachable_after (reachable_after (reachable_after
    (reachable_start (reachable_holding live) rfl _ _) () _) () _) () _) () _

/-- An update that changes nothing removes an object whose deletion is due, and a
    delete that fails has written its mark. -/
theorem touch_removes_and_failed_delete_writes :
    (Reachable (registry config_maps) (touching.after config_maps () (agreeable id)) ∧
      touching.db.content = some ⟨⟨due, ()⟩, 1⟩ ∧
      (touching.after config_maps () (agreeable id)).db.content = none) ∧
    Reachable (registry config_maps) marking ∧
      marking.pc () = .finished (.delete graceful_delete) (.error (.Internal "unavailable")) ∧
      ∃ ans old new, marking.effects () = [.wrote ans old new] :=
  ⟨⟨reachable_after (reachable_after (reachable_after
      (reachable_start (reachable_holding due) rfl _ _) () _) () _) () _, rfl, rfl⟩,
    reachable_marking, rfl, _, _, _, rfl⟩

/-- Add a finalizer. -/
def held (o : Obj Unit) : Obj Unit :=
  ⟨{ o.metadata with finalizers := some ["example.com/hold"], resource_version := none }, o.body⟩

/-- An update that adds a finalizer to a live object, up to its write. -/
def guarding : State Unit Unit :=
  (((holding live).start config_maps () (.update plain_update) (agreeable held)).after config_maps
    () (agreeable held)).after config_maps () (agreeable held)

theorem reachable_guarding : Reachable (registry config_maps) guarding :=
  reachable_after (reachable_after (reachable_start (reachable_holding live) rfl _ _) () _) () _

/-- The update that is committed did one lawful thing, and the failed delete no more than its
    mark. -/
theorem updates_lose_nothing_marking :
    (∃ e, guarding.effects () = [e] ∧ Lawful config_maps [e] (.update plain_update) e) ∧
      MarkedOnly (marking.effects ()) :=
  ⟨((updates_lose_nothing reachable_guarding ()).2.1 plain_update rfl).done rfl _ rfl,
    ((updates_lose_nothing reachable_marking ()).2.2.2 graceful_delete (.Internal "unavailable")
      rfl).1⟩

end Registry
