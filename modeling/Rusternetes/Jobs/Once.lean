import Mathlib
import Rusternetes.Jobs.Steps

/-! # Each Pod Is Counted Once

    The stored Job is in balance at every moment of a careful run, and its counters do not
    fall.
-/

open Finset LTS List

namespace Jobs

variable {ρ : Type}

/-! ### Runs -/

section runs

variable [DecidableEq ρ] {only_replace_failed_pods : Bool} {s s' : State ρ} {l : Label ρ}

theorem Sound.created {pod : Pod} (h : Sound only_replace_failed_pods s)
    (hnext : next only_replace_failed_pods s (.create pod) = some s') :
    Sound only_replace_failed_pods s' := by
  dsimp only [next] at hnext
  split_ifs at hnext with hnew
  cases hnext
  rw [not_or] at hnew
  have hev : Evolves s.used s.revision s.pods
      (s.pods ++ [{ pod with version := s.revision + 1 }]) :=
    h.shelf.create hnew.1 hnew.2 rfl
  refine h.put (subset_insert _ _) (forall_mem_append.mpr ⟨?_, ?_⟩) hev
  · exact fun p hp => mem_insert_of_mem (h.shelf.used p hp)
  · exact forall_mem_singleton.mpr (mem_insert_self _ _)

theorem Sound.checked {fails : Bool} (h : Sound only_replace_failed_pods s)
    (hnext : next only_replace_failed_pods s (.check fails) = some s') :
    Sound only_replace_failed_pods s' := by
  dsimp only [next] at hnext
  split at hnext
  · next job to_release hstage =>
    obtain ⟨hcopy, hreleases⟩ := h.at_stage hstage
    split_ifs at hnext
    · cases hnext
      exact h.go_on hstage rfl (Ready.written hcopy hreleases)
    · cases hnext
      exact h.go_on hstage rfl ⟨hcopy.clamp, hreleases⟩
    · cases hnext
      exact h.go_on hstage rfl (Ready.written hcopy.clamp hreleases)
  · cases hnext

theorem Sound.wrote {outcome : Outcome} (h : Sound only_replace_failed_pods s)
    (hnext : next only_replace_failed_pods s (.write outcome) = some s') :
    Sound only_replace_failed_pods s' := by
  dsimp only [next] at hnext
  split at hnext
  · next job to_release hstage =>
    obtain ⟨hcopy, hreleases⟩ := h.at_stage hstage
    split_ifs at hnext with hversion
    · cases hnext
      exact h.go_on hstage rfl trivial
    obtain ⟨hgood, -⟩ := hcopy.current (not_not.mp hversion)
    split at hnext
    · cases hnext
      refine h.write hstage rfl hgood (Ready.written ⟨le_rfl, ?_⟩ hreleases)
      exact fun _ => ⟨hgood, le_rfl, le_rfl⟩
    · cases hnext
      exact h.write hstage rfl hgood trivial
    · cases hnext
      exact h.go_on hstage rfl trivial
  · cases hnext

theorem Sound.got {fails : Bool} (h : Sound only_replace_failed_pods s)
    (hcareful : Careful only_replace_failed_pods s (.get fails))
    (hnext : next only_replace_failed_pods s (.get fails) = some s') :
    Sound only_replace_failed_pods s' := by
  dsimp only [next] at hnext
  split at hnext
  · next job pod pods released hstage =>
    have hnone : (if fails = true then none else s.pods.find? fun p => p.name = pod.name) = none →
        settled s.pods pod.uid := by
      intro hfound
      cases fails with
      | true => exact hcareful job pod pods released hstage
      | false =>
        -- a pod of this UID would have this name
        intro p hp huid
        have hname := ((h.at_stage hstage).2.1 pod (.head _)).2 p hp huid
        have hnot := find?_eq_none.mp hfound p hp
        exact absurd (decide_eq_true hname) hnot
    have hsome : ∀ fresh,
        (if fails = true then none else s.pods.find? fun p => p.name = pod.name) = some fresh →
        fresh ∈ s.pods ∧ fresh.name = pod.name := by
      intro fresh hfound
      cases fails with
      | true => cases hfound
      | false =>
        have hname := find?_some hfound
        exact ⟨mem_of_find?_eq_some hfound, of_decide_eq_true hname⟩
    obtain ⟨hgone, hfresh⟩ := h.get hstage hnone hsome
    split at hnext
    · next hfound =>
      cases hnext
      exact hgone hfound
    · next fresh hfound =>
      split_ifs at hnext with hremoved
      · cases hnext
        exact (hfresh fresh hfound).1 hremoved
      · cases hnext
        exact (hfresh fresh hfound).2 (by simpa using hremoved)
  · cases hnext

theorem Sound.updated {outcome : Outcome} (h : Sound only_replace_failed_pods s)
    (hnext : next only_replace_failed_pods s (.update outcome) = some s') :
    Sound only_replace_failed_pods s' := by
  dsimp only [next] at hnext
  split at hnext
  · next job fresh uid pods released hstage =>
    obtain ⟨hfailed, hok⟩ := h.update hstage
    split_ifs at hnext with hcurrent
    · cases hnext
      obtain ⟨p, hp, hmatch⟩ := any_eq_true.mp hcurrent.2
      obtain ⟨hname, hversion⟩ := Bool.and_eq_true_iff.mp hmatch
      exact hok ⟨p, hp, of_decide_eq_true hname, of_decide_eq_true hversion⟩
    · cases hnext
      exact hfailed _ (.inl rfl)
    · cases hnext
      exact hfailed _ (.inr rfl)
  · cases hnext

/-- **Every step** that the code guards keeps the balance. -/
theorem Sound.step (h : Sound only_replace_failed_pods s) (hallowed : l.allowed s)
    (hcareful : Careful only_replace_failed_pods s l)
    (hnext : next only_replace_failed_pods s l = some s') : Sound only_replace_failed_pods s' := by
  cases l with
  | create pod => exact h.created hnext
  | change =>
    cases hnext
    exact h.put_old (h.shelf.change fun _ _ _ => ⟨rfl, rfl, .inl rfl, id⟩)
  | delete name =>
    cases hnext
    exact h.put_old (h.shelf.delete name)
  | strip name =>
    cases hnext
    exact h.put_old (h.shelf.change fun p _ _ => follows_remove_tracking_finalizer _ p)
  | touch =>
    cases hnext
    exact { h with
      shelf := h.shelf.later
      version_le := le_rfl
      ready := h.ready.store rfl h.version_le }
  | sync =>
    dsimp only [next] at hnext
    split at hnext
    · next hstage =>
      cases hnext
      exact h.go_on hstage rfl ⟨le_rfl, fun _ => ⟨h.good, le_rfl, le_rfl⟩⟩
    · cases hnext
  | list _ _ rest =>
    dsimp only [next] at hnext
    split at hnext
    · next job hstage =>
      cases hnext
      exact h.list hstage hallowed rfl (hcareful job hstage) rest
    · cases hnext
  | check fails => exact h.checked hnext
  | write => exact h.wrote hnext
  | get fails => exact h.got hcareful hnext
  | update => exact h.updated hnext
  | fold =>
    dsimp only [next] at hnext
    split at hnext
    · next job released hstage =>
      cases hnext
      obtain ⟨hcopy, -, hreleased⟩ := h.at_stage hstage
      exact h.go_on hstage rfl (Ready.folded hcopy hreleased)
    · cases hnext
  | observe uid =>
    cases hnext
    exact { h with expected := fun u hu => h.expected u (mem_of_mem_erase hu) }
  | give_up =>
    dsimp only [next] at hnext
    split at hnext
    · next job hstage =>
      cases hnext
      exact h.go_on hstage rfl trivial
    · next job pods hstage =>
      cases hnext
      exact h.go_on hstage rfl trivial
    · cases hnext
  | restart =>
    cases hnext
    exact h.go (fun uid huid => absurd huid (notMem_empty uid)) trivial

theorem sound_init (h : (job_tracking ρ only_replace_failed_pods).init s) :
    Sound only_replace_failed_pods s := by
  obtain ⟨hnames, huids, hused, hversions, hversion, hsucceeded, hfailed, hparked, htally,
    hterminated, hstage, hexpected⟩ := h
  have haccounted : accounted s.job.tally s.job.parked = [] := by
    rw [accounted, htally, hparked]
    rfl
  refine ⟨⟨hnames, huids, hused, hversions⟩, hversion, ?_, ?_, ⟨?_, ?_, ?_, ?_, ?_⟩, ?_, ?_⟩
  · intro p hp hverdict
    rw [hterminated]
    exact mem_toFinset.mpr (mem_map_of_mem (mem_filter.mpr ⟨hp, hverdict⟩))
  · intro uid huid
    rw [hterminated] at huid
    obtain ⟨p, hp, rfl⟩ := mem_map.mp (mem_toFinset.mp huid)
    exact hused p (mem_filter.mp hp).1
  · rw [hsucceeded, htally]
    rfl
  · rw [hfailed, htally]
    rfl
  · rw [haccounted]
    exact nodup_nil
  · rw [haccounted]
    simp
  · rw [htally]
    simp
  · rw [hexpected]
    exact fun uid huid => absurd huid (notMem_empty uid)
  · rw [hstage]
    exact trivial

/-- **Along every careful run** the accounting is in balance. -/
theorem sound_of_exec {tr : List (Label ρ)} (h : ExecWhen (job_tracking ρ only_replace_failed_pods)
      (fun _ s l => Careful only_replace_failed_pods s l) tr s) :
    Sound only_replace_failed_pods s := by
  refine ExecWhen.invariant (J := fun _ _ => True)
    (I := fun _ s => Sound only_replace_failed_pods s) (fun _ _ _ => trivial) ?_ ?_ h
  · intro s hinit
    exact sound_init hinit
  · intro tr s l s' _ hsound hcareful hstep
    exact hsound.step hstep.1 hcareful hstep.2

theorem Sound.counters_mono (h : Sound only_replace_failed_pods s)
    (hnext : next only_replace_failed_pods s l = some s') :
    s.job.succeeded ≤ s'.job.succeeded ∧ s.job.failed ≤ s'.job.failed := by
  have hsame : s'.job = s.job → s.job.succeeded ≤ s'.job.succeeded ∧ s.job.failed ≤ s'.job.failed :=
    fun heq => heq ▸ ⟨le_rfl, le_rfl⟩
  cases l with
  | write =>
    dsimp only [next] at hnext
    split at hnext
    · next job to_release hstage =>
      split_ifs at hnext with hversion
      · cases hnext
        exact hsame rfl
      obtain ⟨-, hle⟩ := (h.at_stage hstage).1.current (not_not.mp hversion)
      split at hnext
      · cases hnext
        exact hle
      · cases hnext
        exact hle
      · cases hnext
        exact hsame rfl
    · cases hnext
  | touch =>
    cases hnext
    exact ⟨le_rfl, le_rfl⟩
  | _ =>
    dsimp only [next] at hnext
    repeat' split at hnext
    all_goals first
      | exact (Option.some_ne_none _ hnext.symm).elim
      | (obtain rfl := Option.some.inj hnext; exact hsame rfl)

/-- **A Job counts each pod at most once**: at every moment of a careful run the counters
    are those of the tally, no pod stands in it or is parked twice, they do not exceed the
    pods that have finished, and no step makes a counter fall. -/
theorem pods_counted_once {tr : List (Label ρ)}
    (h : ExecWhen (job_tracking ρ only_replace_failed_pods)
      (fun _ s l => Careful only_replace_failed_pods s l) tr s) :
    s.job.succeeded = s.job.tally.succeeded.length ∧ s.job.failed = s.job.tally.failed.length ∧
    (s.job.tally.succeeded ++ s.job.tally.failed ++ s.job.parked.parked).Nodup ∧
    s.job.succeeded + s.job.failed + s.job.parked.parked.length ≤ s.terminated.card ∧
    ∀ l s', (job_tracking ρ only_replace_failed_pods).step s l s' →
      s.job.succeeded ≤ s'.job.succeeded ∧ s.job.failed ≤ s'.job.failed := by
  have hsound := sound_of_exec h
  have hgood := hsound.good
  refine ⟨hgood.succeeded_eq, hgood.failed_eq, hgood.nodup, ?_, ?_⟩
  · have hcard : (accounted s.job.tally s.job.parked).toFinset.card ≤ s.terminated.card := by
      refine card_le_card ?_
      intro uid huid
      exact hgood.terminated uid (mem_toFinset.mp huid)
    rw [toFinset_card_of_nodup hgood.nodup] at hcard
    rw [hgood.succeeded_eq, hgood.failed_eq]
    unfold accounted at hcard
    rw [length_append, length_append] at hcard
    omega
  · intro l s' hstep
    exact hsound.counters_mono hstep.2

end runs

namespace Sample

def pod : Pod where
  name := "p"
  uid := "u"
  version := 1
  phase := some .Succeeded
  finalizers := some [JOB_TRACKING_FINALIZER]

def start : State Unit where
  pods := [pod]
  job := { version := 1, status := none, tally := {} }
  revision := 1
  used := {"u"}
  terminated := {"u"}
  stage := .idle
  expected := ∅

theorem init_start : (job_tracking Unit false).init start := by
  refine ⟨by decide, by decide, by decide, by decide, le_rfl, rfl, rfl, rfl, rfl, ?_, rfl, rfl⟩
  decide

/-- Pods are listed as they are stored, when nothing is parked; and whether gets fail. -/
def fits (fails : Bool) (s : State Unit) : Label Unit → Bool
  | .list pods _ _ => pods = s.pods && match s.stage with
    | .listing job => job.parked.parked.isEmpty
    | _ => true
  | .get failed => !failed || fails
  | _ => true

def take (fails : Bool) (s : State Unit) (l : Label Unit) : Option (State Unit) :=
  if fits fails s l then next false s l else none

theorem allowed_of_fits {fails : Bool} {s : State Unit} {l : Label Unit}
    (h : fits fails s l = true) : l.allowed s := by
  cases l with
  | list =>
    exact Perm.of_eq (of_decide_eq_true (Bool.and_eq_true_iff.mp h).1)
  | _ => exact trivial

theorem careful_of_fits {s : State Unit} {l : Label Unit} (h : fits false s l = true) :
    Careful false s l := by
  cases l with
  | list =>
    intro job hstage pod _ _
    have hparked := (Bool.and_eq_true_iff.mp h).2
    rw [hstage] at hparked
    obtain ⟨hsucceeded, hfailed⟩ := append_eq_nil_iff.mp (isEmpty_iff.mp hparked)
    refine ⟨fun _ => ?_, fun _ _ => ?_⟩
    · rw [hfailed]
      exact not_mem_nil
    · rw [hsucceeded]
      exact not_mem_nil
  | get failed =>
    cases failed with
    | true => nomatch h
    | false => exact trivial
  | _ => exact trivial

/-- **A run that is computed** is one of the controller. -/
theorem exists_exec (fails : Bool) (ok : List (Label Unit) → State Unit → Label Unit → Prop)
    (hok : ∀ tr s l, fits fails s l = true → ok tr s l) (ls : List (Label Unit))
    {p : State Unit → Bool} (h : ((ls.foldlM (take fails) start).any p) = true) :
    ∃ s, ExecWhen (job_tracking Unit false) ok (ls.reverse ++ []) s ∧ p s = true := by
  obtain ⟨s, hs, hp⟩ := (Option.any_eq_true _ _).mp h
  refine ⟨s, ExecWhen.run (take fails) ?_ (.init init_start) ls hs, hp⟩
  intro tr s l s' hnext
  unfold take at hnext
  split_ifs at hnext with hfits
  exact ⟨hok tr s l hfits, allowed_of_fits hfits, hnext⟩

def claims : List (Label Unit) := [.sync, .list [pod] ∅ (), .check false, .write .ok]

/-- The get of the release fails, and the pod is folded all the same; the next sync claims
    it again. -/
def failed_get : List (Label Unit) :=
  claims ++ [.get true, .fold, .check false, .write .ok] ++ claims

end Sample

/-- A get that fails in the release is taken for a pod that is gone: the pod is counted, it
    still has the finalizer, and it is parked again. -/
theorem failed_get_counts_twice :
    ∃ tr s, Exec (job_tracking Unit false) tr s ∧ s.terminated.card = 1 ∧
      s.job.succeeded = 1 ∧ s.job.parked.succeeded = some ["u"] ∧
      s.job.succeeded + s.job.failed + s.job.parked.parked.length > s.terminated.card := by
  obtain ⟨s, hexec, hs⟩ := Sample.exists_exec true (fun _ _ _ => True) (fun _ _ _ _ => trivial)
    Sample.failed_get (p := fun s => s.terminated.card = 1 ∧ s.job.succeeded = 1 ∧
      s.job.parked.succeeded = some ["u"] ∧
      s.job.succeeded + s.job.failed + s.job.parked.parked.length > s.terminated.card)
    (by decide +kernel)
  exact ⟨_, s, hexec.exec, of_decide_eq_true hs⟩

/-- A sync that succeeds counts the pod. -/
theorem sync_counts_pod :
    ∃ tr s, ExecWhen (job_tracking Unit false) (fun _ s l => Careful false s l) tr s ∧
      s.job.succeeded = 1 ∧ s.job.tally.succeeded.length = 1 ∧
      s.job.succeeded + s.job.failed + s.job.parked.parked.length ≤ s.terminated.card := by
  obtain ⟨s, hexec, hs⟩ := Sample.exists_exec false (fun _ s l => Careful false s l)
    (fun _ _ _ hfits => Sample.careful_of_fits hfits)
    (Sample.claims ++ [.get false, .update .ok, .fold, .check false, .write .ok])
    (p := fun s => s.job.succeeded = 1) (by decide +kernel)
  have hcount := of_decide_eq_true hs
  obtain ⟨hsucceeded, -, -, hle, -⟩ := pods_counted_once hexec
  refine ⟨_, s, hexec, hcount, ?_, hle⟩
  omega

end Jobs
