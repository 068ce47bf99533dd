import Rusternetes.LeaderElection.Stealing

/-! # The Books of the Leadership

    A renewal keeps the transitions and the acquisition the elector observed, a takeover
    counts one more than it read, a release copies what it read. Written over the record
    they come from, these keep the books; what an elector observed is that record unless
    the get of a `release` came in between, so the writer has to be *abreast*.
-/

open Framework LTS

namespace LeaderElection

def LeaderElectionRecord.stored (r : LeaderElectionRecord) : LeaderElectionRecord :=
  { r with acquire_time := micro_time r.acquire_time, renew_time := micro_time r.renew_time }

/-- The elector does not take itself for the leader, or its lock saw what it observed. -/
def Abreast (cfg : Config) (e : Elector) : Prop :=
  e.is_leader cfg = true → ∀ lease, e.lease = some lease →
    record_of lease = e.observed.record.stored

/-- What a write of `me` may do to the books. -/
inductive Booked (me : String) (old new : LeaderElectionRecord) : Prop
  | renews (hold : old.holder_identity = me) (hnew : new.holder_identity = me)
      (htransitions : new.leader_transitions = old.leader_transitions)
      (hacquired : new.acquire_time = old.acquire_time)
  | takes (hold : old.holder_identity ≠ me) (hnew : new.holder_identity = me)
      (htransitions : new.leader_transitions = old.leader_transitions + 1)
  | releases (hold : old.holder_identity = me) (hnew : new.holder_identity = "")
      (htransitions : new.leader_transitions = old.leader_transitions)

def Books (cfg : Config) (e : Elector) : Prop :=
  match e.phase with
  | .getting _ record | .creating record => record.holder_identity = cfg.identity
  | .renewing _ record =>
    record.holder_identity = cfg.identity ∧ record = Elector.renewed record e.observed.record
  | .updating _ record => record.holder_identity = cfg.identity ∧
      if e.observed.record.holder_identity = cfg.identity then
        record = Elector.renewed record e.observed.record
      else record.leader_transitions = e.observed.record.leader_transitions + 1
  | .releasing record => record.holder_identity = "" ∧ ∀ lease, e.lease = some lease →
      record.leader_transitions = (record_of lease).leader_transitions
  | .idle | .release_getting => True

section turns

variable {ι : Type} {cfg : Config} {i : ι} {c c' : Cell (Option LeaseSpec)} {e e' : Elector}
  {l : Label ι} {record : LeaderElectionRecord}

theorem record_of_put : record_of (put_record c record) = record.stored := by
  simp only [record_of, put_record, record_to_lease_spec, LeaseSpec.stored, lease_spec_to_record]
  congr 1 <;> dsimp only [Option.getD_some] <;> split_ifs <;> simp_all

theorem Books.waiting (h : Books cfg e) {phase : Phase} (hphase : e.phase = phase) :
    Books cfg { e with phase := phase } := by
  subst hphase
  exact h

theorem Books.update_failed (h : Books cfg e) : Books cfg e.update_failed := by
  unfold Elector.update_failed
  split
  · next hphase => exact (h.waiting hphase).1
  · exact trivial

theorem Turn.books (ht : Turn cfg i c e l c' e') (h : Books cfg e) : Books cfg e' := by
  cases ht with
  | tries clock =>
    unfold Elector.try_acquire_or_renew
    split_ifs
    · exact ⟨rfl, rfl⟩
    · exact (rfl : (Elector.fresh_record cfg clock).holder_identity = cfg.identity)
  | @got now record lease clock hclock hphase hlease =>
    have hrecord : record.holder_identity = cfg.identity := h.waiting hphase
    unfold Elector.got
    dsimp only
    split_ifs with hheld hleader
    · exact trivial
    · have hmine : (record_of lease).holder_identity = cfg.identity := by
        simpa [Elector.is_leader] using hleader
      exact ⟨hrecord, by simp [hmine, Elector.renewed]⟩
    · have hmine : (record_of lease).holder_identity ≠ cfg.identity := by
        simpa [Elector.is_leader] using hleader
      exact ⟨hrecord, by simp [hmine]⟩
  | missing _ _ hphase => exact h.waiting hphase
  | release_got _ _ _ hlease =>
    unfold Elector.release_got
    dsimp only
    split_ifs
    · exact trivial
    · refine ⟨rfl, fun lease hlease => ?_⟩
      cases hlease
      rfl
  | failed clock answer hclock | update_lost clock hclock hpending hlease hcurrent =>
    exact Books.update_failed (e := { e with clock := clock }) h
  | _ => exact trivial

/-- **A write keeps the books** if its elector is abreast. -/
theorem Consistent.booked {lease : Lease} (h : Consistent cfg c e) (hbooks : Books cfg e)
    (habreast : Abreast cfg e) (hpending : e.pending = some record)
    (hlease : e.lease = some lease) : Booked cfg.identity (record_of lease) record.stored := by
  have hleads : e.is_leader cfg = true → (record_of lease).holder_identity = cfg.identity := by
    intro hleader
    rw [habreast hleader lease hlease]
    exact beq_iff_eq.mp hleader
  -- a leader renews with what it observed
  have hrenews : e.is_leader cfg = true → record.holder_identity = cfg.identity →
      record = Elector.renewed record e.observed.record →
      Booked cfg.identity (record_of lease) record.stored := by
    intro hleader hholder hrecord
    refine .renews (hleads hleader) hholder ?_ ?_ <;>
      rw [habreast hleader lease hlease, hrecord] <;> rfl
  rcases pending_cases hpending with ⟨now, hphase⟩ | ⟨now, hphase⟩ | hphase
  · obtain ⟨hholder, hrecord⟩ := hbooks.waiting hphase
    exact hrenews (h.waiting hphase).2.2 hholder hrecord
  · obtain ⟨hholder, hrecord⟩ := hbooks.waiting hphase
    obtain ⟨-, -, ⟨lease', hlease', hsame⟩, -⟩ := h.waiting hphase
    cases hlease.symm.trans hlease'
    split_ifs at hrecord with hmine
    · exact hrenews (beq_iff_eq.mpr hmine) hholder hrecord
    · rw [hsame]
      exact .takes hmine hholder hrecord
  · obtain ⟨hholder, hrecord⟩ := hbooks.waiting hphase
    exact .releases (hleads (h.waiting hphase).2) hholder (hrecord lease hlease)

end turns

theorem Booked.transitions_le {me : String} {old new : LeaderElectionRecord} (h : Booked me old new)
    (hmax : old.leader_transitions ≠ Int32.maxValue) :
    old.leader_transitions ≤ new.leader_transitions := by
  cases h with
  | renews _ _ h | releases _ _ h =>
    rw [h]
    exact Int32.le_refl _
  | takes _ _ h =>
    have hlt := Int32.toInt_lt old.leader_transitions
    have hge := Int32.le_toInt old.leader_transitions
    have hne : old.leader_transitions.toInt ≠ 2147483647 := fun heq => hmax (Int32.toInt_inj.mp heq)
    rw [h, Int32.le_iff_toInt_le, Int32.toInt_add, show (1 : Int32).toInt = 1 from rfl,
      Int.bmod_eq_of_le] <;> omega

section runs

variable {ι : Type} [DecidableEq ι] {cfg : ι → Config} {s s' : State ι} {l : Label ι}

theorem books_of_reachable (h : Reachable (election cfg) s) (i : ι) : Books (cfg i) (s.elector i) :=
  electors_invariant (I := fun cfg _ e => Books cfg e) (fun _ _ _ => trivial)
    (fun ht => ht.books) (fun _ h => h) h i

/-- **The books of the leadership.** Every write over a Lease by an elector that is abreast
    renews, takes or releases the lease and keeps the books; and an elector that is told
    that its write succeeded has observed what it stored. -/
theorem abreast_keeps_books (hs : Reachable (election cfg) s) (hstep : (election cfg).step s l s')
    {lease' : Lease} (hlease' : s'.lease.content = some lease')
    (hwrite : s.lease.content ≠ some lease') :
    (∀ lease, s.lease.content = some lease → Abreast (cfg l.elector) (s.elector l.elector) →
      Booked (cfg l.elector).identity (record_of lease) (record_of lease') ∧
      ((record_of lease).leader_transitions ≠ Int32.maxValue →
        (record_of lease).leader_transitions ≤ (record_of lease').leader_transitions)) ∧
    ∀ i clock, l = .create i clock .arrives ∨ l = .update i clock .arrives →
      record_of lease' = (s'.elector i).observed.record.stored := by
  obtain ⟨e', hupdate, hturn⟩ := turn_of_next hstep
  constructor
  · intro lease hlease habreast
    have hinv := consistent_of_reachable hs l.elector
    obtain ⟨hcached, record, hpending, hput⟩ := hturn.overwrites hinv hlease fun hsame =>
      hwrite (hlease.trans (hsame.symm.trans hlease'))
    cases hput.symm.trans hlease'
    have hbooked := hinv.booked (books_of_reachable hs _) habreast hpending hcached
    rw [record_of_put]
    exact ⟨hbooked, hbooked.transitions_le⟩
  · intro i clock hl
    obtain rfl : l.elector = i := by rcases hl with rfl | rfl <;> rfl
    rw [hupdate, Function.update_self]
    generalize s'.lease = c', l.elector = i at hturn hl hlease'
    cases hturn with
    | created | updated =>
      cases hlease'
      exact record_of_put
    | create_lost | update_lost => simp at hl
    | _ => exact absurd hlease' hwrite

end runs

def State.books {ι : Type} (s : State ι) : Option (String × Int32) :=
  s.lease.content.map fun lease =>
    ((record_of lease).holder_identity, (record_of lease).leader_transitions)

/-- After the takeover the first candidate asks for the Lease to release it, is cancelled
    and renews by its own clock: it takes the lease of another and counts backwards. -/
theorem renewal_counts_backwards :
    ∃ s s' : State Sample.Candidate, Reachable (election Sample.config) s ∧
      (election Sample.config).step s (.update .a (2 * second) .arrives) s' ∧
      s.books = some ("b", 1) ∧ s'.books = some ("a", 0) := by
  obtain ⟨t, t', hreach, hstep, hcheck⟩ := Sample.exists_step
    (Sample.expiry ++ [.update .b (20 * second) .arrives, .release .a,
      .get .a (1 * second) .arrives, .cancel .a, .try_acquire_or_renew .a (2 * second)])
    (.update .a (2 * second) .arrives)
    (p := fun p => decide (p.1.books = some ("b", 1) ∧ p.2.books = some ("a", 0)))
    (by decide +kernel)
  exact ⟨t, t', hreach, hstep, of_decide_eq_true hcheck⟩

/-- The takeover of an expired lease keeps the books. -/
theorem abreast_keeps_books_takeover :
    ∃ (s s' : State Sample.Candidate) (lease lease' : Lease),
      s.lease.content = some lease ∧ s'.lease.content = some lease' ∧
      Booked "b" (record_of lease) (record_of lease') := by
  obtain ⟨t, t', hreach, hstep, hcheck⟩ := Sample.exists_step Sample.expiry
    (.update .b (20 * second) .arrives) (p := fun p => decide (p.1.books = some ("a", 0) ∧
      p.2.books = some ("b", 1) ∧ (p.1.elector .b).is_leader (Sample.config .b) = false))
    (by decide +kernel)
  obtain ⟨hold, hnew, hleader⟩ := of_decide_eq_true hcheck
  obtain ⟨lease, hlease, -⟩ := Option.map_eq_some_iff.mp hold
  obtain ⟨lease', hlease', -⟩ := Option.map_eq_some_iff.mp hnew
  refine ⟨t, t', lease, lease', hlease, hlease', ?_⟩
  refine ((abreast_keeps_books hreach hstep hlease' ?_).1 lease hlease ?_).1
  · intro hsame
    rw [State.books, hsame, ← hlease'] at hold
    exact absurd (hold.symm.trans hnew) (by decide)
  · exact fun h => nomatch hleader.symm.trans h

end LeaderElection
