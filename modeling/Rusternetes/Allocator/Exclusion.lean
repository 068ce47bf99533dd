import Rusternetes.Allocator.Etcd
import Rusternetes.Framework.Ledger

/-! # No Offset Is Granted Twice

    The copy of an instance that believes itself in sync has all the items that are
    taken in the storage. So an offset that is free in the copy is free in the
    storage, and the storage takes the write only if it is still at that version.

    One thing breaks this: a release whose write fails for another reason than a
    conflict leaves the copy without the item and in sync with a storage that has it.
-/

open Common Framework Function LTS Registry

namespace Allocator

open AllocationBitmap (taken taken_snapshot restore_bit bit_release allocate_granted
  allocate_next_granted)

variable {ι : Type}

/-! ### Grants and what clears them -/

def Event.grants : Event ι → Nat → Prop
  | .granted _ offset _, x => offset = x
  | _, _ => False

def Event.clears : Event ι → Nat → Prop
  | .released _ offset, x => offset = x
  | .replaced _ data, x => taken data x = false
  | .granted _ _ _, _ => False

def AllSet (log : List (Event ι)) : Prop :=
  ∀ i x stored, .granted i x stored ∈ log → ∃ v, stored = some v ∧ taken v.value.body.data x = true

/-- The offsets that are held are taken in the storage. -/
def Backed (db : Storage RangeData) (log : List (Event ι)) : Prop :=
  ∀ x, Ledger.Holds Event.grants Event.clears log x →
    ∃ v, db.content = some v ∧ taken v.value.body.data x = true

/-- The log is as it should be. -/
structure Kept (db : Storage RangeData) (log : List (Event ι)) : Prop where
  exclusive : Ledger.Exclusive Event.grants Event.clears log
  all_set : AllSet log
  backed : Backed db log

/-! ### Copies -/

/-- A version that the storage gave out. -/
def GivenOut (db : Storage RangeData) (last : String) : Prop :=
  last = "" ∨ ∃ n ≤ db.last, last = toString n

/-- If the copy is in sync, it has all items that are taken. -/
def Covers (db : Storage RangeData) (inst : Instance) : Prop :=
  ∀ v, db.content = some v → inst.last = toString v.revision →
    ∀ j, taken v.value.body.data j = true → inst.alloc.bit j = true

/-- The copy is the stored bitmap with the change made, or has more items. -/
def Change.Made (change : Change) (granted : Option Nat) (data : List Byte)
    (alloc : AllocationBitmap) : Prop :=
  match change with
  | .release x => ∀ j ≠ x, taken data j = true → alloc.bit j = true
  | _ => ∃ x, granted = some x ∧ taken data x = false ∧ alloc.bit x = true ∧
      ∀ j, taken data j = true → alloc.bit j = true

def Pc.Holds (db : Storage RangeData) (inst : Instance) : Pc → Prop
  | .writing change updated granted =>
    ∃ v, db.Recorded v ∧ updated.metadata.resource_version = some (toString v.revision) ∧
      inst.last = toString v.revision ∧ updated.body.data = inst.alloc.snapshot.2 ∧
      change.Made granted v.value.body.data inst.alloc
  | .replacing snapshot => Covers db inst ∧
      ∃ n ≤ db.last, snapshot.metadata.resource_version = some (toString n)
  | _ => Covers db inst

/-! ### Others -/

variable {db' : Storage RangeData}

theorem last_le_of_next {db : Storage RangeData} (hn : Cell.Next db db') : db.last ≤ db'.last := by
  cases hn with
  | same => exact le_rfl
  | put _ | clear | pass => exact Nat.le_succ _

theorem GivenOut.next {db : Storage RangeData} {last : String} (h : GivenOut db last)
    (hn : Cell.Next db db') : GivenOut db' last := by
  rcases h with h | ⟨n, hle, h⟩
  · exact .inl h
  · exact .inr ⟨n, hle.trans (last_le_of_next hn), h⟩

variable {db : Storage RangeData} {inst : Instance} {change : Change} {ans : Answers}
  {granted : Option Nat}

theorem GivenOut.ne_next {last : String} (h : GivenOut db last) :
    last ≠ toString (db.last + 1) := by
  intro heq
  rcases h with h | ⟨n, hle, h⟩
  · rw [h] at heq
    simp at heq
  · rw [h] at heq
    have := Text.toString_inj heq
    omega

/-- No copy is in sync with a write that was just made. -/
theorem covers_put (h : GivenOut db inst.last)
    (obj : RangeAllocation) : Covers (db.put obj) inst := by
  intro v hv hlast
  cases hv
  exact absurd hlast h.ne_next

theorem Covers.next {db : Storage RangeData} (h : Covers db inst) (hgiven : GivenOut db inst.last)
    (hn : Cell.Next db db') : Covers db' inst := by
  cases hn with
  | same => exact h
  | put obj => exact covers_put hgiven obj
  | clear =>
    intro v hv
    cases hv
  | pass => exact h

variable {pc : Pc}

theorem Pc.Holds.next {db : Storage RangeData} (h : pc.Holds db inst)
    (hgiven : GivenOut db inst.last) (hn : Cell.Next db db') :
    pc.Holds db' inst := by
  cases pc with
  | writing =>
    obtain ⟨v, hrec, hrest⟩ := h
    exact ⟨v, hrec.next hn, hrest⟩
  | replacing =>
    obtain ⟨hcov, n, hle, hrv⟩ := h
    exact ⟨hcov.next hgiven hn, n, hle.trans (last_le_of_next hn), hrv⟩
  | _ => exact Covers.next h hgiven hn

/-! ### The steps of an instance -/

variable {alloc : AllocationBitmap}

theorem Change.apply_made {alloc' : AllocationBitmap} {data : List Byte}
    (hcov : ∀ j, taken data j = true → alloc.bit j = true)
    (h : change.apply ans alloc = .ok (granted, alloc')) : change.Made granted data alloc' := by
  have hgrant : ∀ {x}, alloc.Granted x alloc' → granted = some x →
      Change.allocate_next.Made granted data alloc' := by
    intro x ⟨hfree, hbits⟩ hx
    refine ⟨x, hx, ?_, by rw [hbits, if_pos rfl], fun j hj => ?_⟩
    · by_contra hne
      rw [hcov x (by simpa using hne)] at hfree
      cases hfree
    · rw [hbits]
      split_ifs
      · rfl
      · exact hcov j hj
  cases change with
  | allocate offset =>
    simp only [Change.apply] at h
    split at h
    · cases h
    · rename_i b hb
      obtain ⟨hx, rfl⟩ : some offset = granted ∧ b = alloc' := by simpa using h
      exact hgrant (allocate_granted hb) hx.symm
    · cases h
  | allocate_next =>
    simp only [Change.apply] at h
    split at h
    · cases h
    · rename_i x b hb
      obtain ⟨hx, rfl⟩ : some x = granted ∧ b = alloc' := by simpa using h
      exact hgrant (allocate_next_granted hb) hx.symm
    · cases h
  | release offset =>
    obtain ⟨_, rfl⟩ : none = granted ∧ alloc.release offset = alloc' := by
      simpa [Change.apply] using h
    intro j hj htaken
    rw [bit_release, if_neg hj]
    exact hcov j htaken

variable {v : Versioned RangeAllocation}

/-- The copy that `try_update` works on has all items that are taken. -/
theorem synced_covers (hcov : Covers db inst) (hv : db.content = some v)
    (h : inst.synced (toString v.revision) (stamped v) = .ok alloc) :
    (∀ j, taken v.value.body.data j = true → alloc.bit j = true) ∧
      Covers db { inst with alloc := alloc } := by
  unfold Instance.synced at h
  split_ifs at h with hrv
  · constructor
    · intro j hj
      rw [restore_bit h j]
      exact hj
    · -- the copy is not marked as in sync until the change is made
      intro v' hv' hlast
      rw [hv] at hv'
      cases hv'
      exact absurd hlast.symm hrv
  · cases h
    have hsync : inst.last = toString v.revision := (not_not.mp hrv).symm
    exact ⟨hcov v hv hsync, hcov⟩

variable {obj : RangeAllocation}

theorem faulty_get (h : (faulty ans db (Storage.get inst.key db, db)).1 = .ok obj) :
    ∃ v, db.content = some v ∧ obj = stamped v := by
  unfold faulty at h
  split at h
  · cases h
  · simp only [Storage.get] at h
    split at h
    · rename_i v hv
      exact ⟨v, hv, (Except.ok.inj h).symm⟩
    · cases h

theorem after_read_holds (change : Change) (ans : Answers)
    (hcov : Covers db inst) (hgiven : GivenOut db inst.last) :
    let next := after_read inst change ans (faulty ans db (Storage.get inst.key db, db)).1
    next.2.Holds db next.1 ∧ GivenOut db next.1.last := by
  intro next
  cases hgot : (faulty ans db (Storage.get inst.key db, db)).1 with
  | error e =>
    have hfail : next.1 = inst ∧ ∃ reply, next.2 = .returned reply := by
      simp only [next, hgot, after_read]
      split
      · exact ⟨rfl, _, rfl⟩
      · exact ⟨rfl, _, rfl⟩
      · rename_i hok
        cases hok
    obtain ⟨hinst, reply, hpc⟩ := hfail
    rw [hinst, hpc]
    exact ⟨hcov, hgiven⟩
  | ok obj =>
    obtain ⟨v, hv, rfl⟩ := faulty_get hgot
    simp only [next, hgot, after_read, stamped_version]
    cases hsync : inst.synced (toString v.revision) (stamped v) with
    | error e => exact ⟨hcov, hgiven⟩
    | ok alloc =>
      obtain ⟨hall, hcov'⟩ := synced_covers hcov hv hsync
      dsimp only
      cases happly : change.apply ans alloc with
      | error e => exact ⟨hcov', hgiven⟩
      | ok out =>
        obtain ⟨granted, alloc'⟩ := out
        refine ⟨⟨v, Cell.recorded_of_content hv, stamped_version v, rfl, rfl, ?_⟩, ?_⟩
        · exact Change.apply_made hall happly
        · exact .inr ⟨v.revision, db.bound v hv, rfl⟩

variable {i : ι} {log : List (Event ι)}

/-- A write keeps the log as it should be if it grants what is free, and what is held
    then is set in it. -/
theorem Kept.put {e : Event ι} (h : Kept db log)
    (hfree : ∀ x, e.grants x → ¬Ledger.Holds Event.grants Event.clears log x)
    (hstored : ∀ j x stored, .granted j x stored = e → stored = (db.put obj).content)
    (hset : ∀ x, Ledger.Holds Event.grants Event.clears (e :: log) x →
      taken obj.body.data x = true) :
    Kept (db.put obj) (e :: log) := by
  refine ⟨h.exclusive.cons hfree, ?_, fun x hx => ⟨_, rfl, hset x hx⟩⟩
  intro j x stored hmem
  rcases List.mem_cons.mp hmem with heq | hmem
  · rw [hstored j x stored heq]
    subst heq
    exact ⟨_, rfl, hset x (.inl rfl)⟩
  · exact h.all_set j x stored hmem

theorem commit_kept {updated : RangeAllocation} (h : Kept db log) (hv : db.content = some v)
    (hmade : change.Made granted v.value.body.data alloc)
    (hdata : updated.body.data = alloc.snapshot.2) :
    Kept (db.put updated) (change.events i granted (db.put updated).content ++ log) := by
  have hbits : ∀ j, alloc.bit j = true → taken updated.body.data j = true := by
    intro j hj
    rw [hdata, taken_snapshot, hj]
  have hheld : ∀ y, Ledger.Holds Event.grants Event.clears log y →
      taken v.value.body.data y = true := by
    intro y hy
    obtain ⟨v', hv', ht⟩ := h.backed y hy
    rw [hv] at hv'
    cases hv'
    exact ht
  have hgrant : Change.allocate_next.Made granted v.value.body.data alloc →
      change.events i granted (db.put updated).content =
        (granted.map fun x => Event.granted i x (db.put updated).content).toList →
      Kept (db.put updated) (change.events i granted (db.put updated).content ++ log) := by
    rintro ⟨x, rfl, hfree, hx, hall⟩ hevents
    rw [hevents]
    refine h.put ?_ ?_ ?_
    · rintro y rfl hy
      rw [hheld x hy] at hfree
      cases hfree
    · rintro _ _ _ ⟨⟩
      rfl
    · rintro y (rfl | ⟨hy, _⟩)
      · exact hbits x hx
      · exact hbits y (hall y (hheld y hy))
  cases change with
  | allocate offset | allocate_next =>
    refine hgrant hmade ?_
    obtain ⟨x, rfl, _⟩ := hmade
    rfl
  | release =>
    refine h.put (fun _ hfalse => hfalse.elim) (by rintro _ _ _ ⟨⟩) ?_
    rintro y (hfalse | ⟨hy, hclear⟩)
    · exact hfalse.elim
    · exact hbits y (hmade y (fun heq => hclear heq.symm) (hheld y hy))

theorem replace_kept {data : List Byte} (h : Kept db log) (hdata : obj.body.data = data) :
    Kept (db.put obj) (.replaced i data :: log) := by
  refine h.put (fun _ hfalse => hfalse.elim) (by rintro _ _ _ ⟨⟩) ?_
  rintro y (hfalse | ⟨_, hclear⟩)
  · exact hfalse.elim
  · rw [hdata]
    by_contra hne
    exact hclear (by simpa [Event.clears] using hne)

/-- A change that is made and not stored leaves a copy with all items that are taken,
    unless it is a release. -/
theorem Change.Made.covers (hmade : change.Made granted v.value.body.data inst.alloc)
    (hrec : db.Recorded v) (hlast : inst.last = toString v.revision)
    (hchange : ∀ x, change ≠ .release x) :
    Covers db inst := by
  intro v' hv' hlast'
  have hrev : v.revision = v'.revision := Text.toString_inj (hlast.symm.trans hlast')
  obtain rfl := hrec.eq_of_revision_eq hv' hrev
  cases change with
  | allocate offset | allocate_next => exact hmade.choose_spec.2.2.2
  | release offset => exact absurd rfl (hchange offset)

/-- A step of an instance keeps what holds of it, and the log as it should be. -/
structure Good (db : Storage RangeData) (log : List (Event ι))
    (out : Instance × Pc × Storage RangeData × List (Event ι)) : Prop where
  next : Cell.Next db out.2.2.1
  given : GivenOut out.2.2.1 out.1.last
  holds : out.2.1.Holds out.2.2.1 out.1
  kept : Kept out.2.2.1 (out.2.2.2 ++ log)

/-- A release whose write the storage takes or refuses for its version, and a new
    bitmap under no version or one that was given out. -/
def Steady (pc : Pc) (ans : Answers) (db : Storage RangeData) : Prop :=
  match pc with
  | .writing (.release _) _ _ => ans.fault = none
  | .creating snapshot => GivenOut db (version snapshot)
  | _ => True

theorem after_write_error (change : Change) (granted : Option Nat) {e : Error}
    (h : ∀ msg, e ≠ .Conflict msg) :
    ∃ reply, after_write change granted (.error e) = .returned reply := by
  unfold after_write
  split
  · rename_i hok
    cases hok
  · rename_i msg hmsg
    exact absurd (Except.error.inj hmsg) (h msg)
  · exact ⟨_, rfl⟩

theorem writing_good {updated : RangeAllocation} (hgiven : GivenOut db inst.last)
    (h : (Pc.writing change updated granted).Holds db inst) (hkept : Kept db log)
    (hfault : ∀ msg, ans.fault ≠ some (.Conflict msg))
    (hsteady : Steady (.writing change updated granted) ans db) :
    Good db log (advance i inst (.writing change updated granted) ans db) := by
  obtain ⟨v, hrec, hversion, hlast, hdata, hmade⟩ := h
  simp only [advance]
  cases hans : ans.fault with
  | some e =>
    -- nothing is stored, and it is no release
    have hchange : ∀ x, change ≠ .release x := by
      rintro x rfl
      nomatch hans.symm.trans hsteady
    have hne : ∀ msg, e ≠ .Conflict msg := fun msg heq => hfault msg (by rw [hans, heq])
    obtain ⟨reply, hpc⟩ := after_write_error change granted hne
    simp only [faulty, hans, committed, hpc]
    exact ⟨.same, hgiven, hmade.covers hrec hlast hchange, hkept⟩
  | none =>
    simp only [faulty, hans]
    rcases Storage.update_cases inst.key db hversion with
      ⟨hnone, hop⟩ | ⟨x, msg, hx, hne, hop⟩ | ⟨x, hx, hrev, hop⟩
    · simp only [hop, after_write, committed]
      refine ⟨.same, hgiven, ?_, hkept⟩
      intro v' hv'
      nomatch hnone.symm.trans hv'
    · simp only [hop, after_write, committed]
      refine ⟨.same, hgiven, ?_, hkept⟩
      intro v' hv' hlast'
      rw [hx] at hv'
      cases hv'
      exact absurd (Text.toString_inj (hlast'.symm.trans hlast)) hne
    · obtain rfl := hrec.eq_of_revision_eq hx hrev.symm
      simp only [hop, after_write, committed]
      exact ⟨.put _, hgiven.next (.put updated), covers_put hgiven updated,
        commit_kept hkept hx hmade hdata⟩

/-- What follows a write of a snapshot, which fails or is made. -/
theorem after_replace_good {snapshot : RangeAllocation}
    {op : Except Error RangeAllocation × Storage RangeData} (hgiven : GivenOut db inst.last)
    (hcov : Covers db inst) (hversion : GivenOut db (version snapshot)) (hkept : Kept db log)
    (hop : (∃ e, op = (.error e, db)) ∨
      ∃ stored obj, op = (.ok stored, db.put obj) ∧ obj.body = snapshot.body) :
    let next := after_replace inst snapshot op.1
    Good db log (next.1, next.2, op.2, committed op.1 [.replaced i snapshot.body.data]) := by
  rcases hop with ⟨e, rfl⟩ | ⟨stored, obj, rfl, hbody⟩
  · exact ⟨.same, hgiven, hcov, hkept⟩
  have hlog : Kept (db.put obj) (.replaced i snapshot.body.data :: log) :=
    replace_kept hkept (by rw [hbody])
  unfold after_replace
  cases inst.alloc.restore snapshot.body.range snapshot.body.data with
  | error e => exact ⟨.put _, hgiven.next (.put obj), covers_put hgiven obj, hlog⟩
  | ok alloc =>
    have hcov : Covers (db.put obj) { inst with alloc := alloc, last := version snapshot } :=
      covers_put hversion obj
    exact ⟨.put _, hversion.next (.put obj), hcov, hlog⟩

theorem advance_good (hgiven : GivenOut db inst.last) (h : pc.Holds db inst) (hkept : Kept db log)
    (hfault : ∀ msg, ans.fault ≠ some (.Conflict msg)) (hsteady : Steady pc ans db) :
    Good db log (advance i inst pc ans db) := by
  cases pc with
  | idle | returned reply => exact ⟨.same, hgiven, h, hkept⟩
  | reading change =>
    obtain ⟨hholds, hlast⟩ := after_read_holds change ans h hgiven
    exact ⟨.same, hlast, hholds, hkept⟩
  | writing => exact writing_good hgiven h hkept hfault hsteady
  | checking snapshot =>
    refine ⟨.same, hgiven, ?_, hkept⟩
    simp only [advance]
    cases hgot : (faulty ans db (Storage.get inst.key db, db)).1 with
    | error e =>
      unfold after_check
      split
      · exact h
      · exact h
      · rename_i hok
        cases hok
    | ok obj =>
      obtain ⟨v, hv, rfl⟩ := faulty_get hgot
      have hstored : version (stamped v) = toString v.revision := rfl
      simp only [after_check, hstored]
      split_ifs with hboth hne hhave
      · exact h
      · -- the snapshot names the version that is stored
        refine ⟨h, v.revision, db.bound v hv, ?_⟩
        have hsame : version snapshot = toString v.revision := by simpa using hne
        unfold version at hsame
        cases hrv : snapshot.metadata.resource_version with
        | none =>
          rw [hrv] at hsame
          simp at hsame
        | some rv =>
          rw [hrv] at hsame
          exact congrArg some hsame
      · exact h
      · simp at hhave
  | replacing snapshot =>
    obtain ⟨hcov, n, hle, hrv⟩ := h
    have hversion : GivenOut db (version snapshot) := by
      refine .inr ⟨n, hle, ?_⟩
      rw [version, hrv]
      rfl
    refine after_replace_good hgiven hcov hversion hkept ?_
    unfold faulty
    cases ans.fault with
    | some e => exact .inl ⟨e, rfl⟩
    | none =>
      rcases Storage.update_cases inst.key db hrv with
        ⟨_, hop⟩ | ⟨_, _, _, _, hop⟩ | ⟨_, _, _, hop⟩
      · exact .inl ⟨_, hop⟩
      · exact .inl ⟨_, hop⟩
      · exact .inr ⟨_, _, hop, rfl⟩
  | creating snapshot =>
    refine after_replace_good hgiven h hsteady hkept ?_
    unfold faulty
    cases ans.fault with
    | some e => exact .inl ⟨e, rfl⟩
    | none =>
      rcases Storage.create_cases inst.key db (snapshot.with_version none) with
        ⟨_, hop⟩ | ⟨_, hop⟩
      · exact .inl ⟨_, hop⟩
      · exact .inr ⟨_, _, hop, rfl⟩

/-! ### Runs -/

structure Inv (s : State ι) : Prop where
  given : ∀ i, GivenOut s.db (s.inst i).last
  holds : ∀ i, (s.pc i).Holds s.db (s.inst i)
  kept : Kept s.db s.log

def SteadyStep (_ : List (Label ι)) (s : State ι) : Label ι → Prop
  | .step i ans => Steady (s.pc i) ans s.db
  | _ => True

theorem inv_init {s : State ι} (hlast : ∀ i, (s.inst i).last = "") (hpc : ∀ i, s.pc i = .idle)
    (hlog : s.log = []) : Inv s := by
  constructor
  · intro i
    exact .inl (hlast i)
  · intro i
    rw [hpc i]
    intro v _ heq
    rw [hlast i] at heq
    simp at heq
  · rw [hlog]
    refine ⟨Ledger.exclusive_nil, ?_, ?_⟩
    · intro i x stored hmem
      cases hmem
    · intro x hheld
      exact hheld.elim

theorem begins_holds (hfree : pc.free) (h : pc.Holds db inst) (call : Call) :
    call.begins.Holds db inst := by
  have hcov : Covers db inst := by
    cases pc with
    | idle | returned _ => exact h
    | _ => cases hfree
  cases call with
  | try_update change | create_or_update snapshot => exact hcov

theorem inv_step [DecidableEq ι] {tr : List (Label ι)} {s s' : State ι} {lbl : Label ι}
    (h : Inv s) (hsteady : SteadyStep tr s lbl) (hstep : (shared_allocator ι).step s lbl s') :
    Inv s' := by
  cases lbl with
  | call i call =>
    obtain ⟨hfree, rfl⟩ := hstep
    refine ⟨h.given, ?_, h.kept⟩
    intro j
    simp only [update_apply]
    split_ifs with hj
    · subst hj
      exact begins_holds hfree (h.holds j) call
    · exact h.holds j
  | step i ans =>
    obtain ⟨hfault, rfl⟩ := hstep
    have hgood := advance_good (i := i) (h.given i) (h.holds i) h.kept hfault hsteady
    -- the others keep their copies, and the storage only goes on
    refine ⟨?_, ?_, hgood.kept⟩
    · intro j
      simp only [State.after]
      rw [update_apply]
      split_ifs with hj
      · exact hgood.given
      · exact (h.given j).next hgood.next
    · intro j
      simp only [State.after]
      simp only [update_apply]
      split_ifs with hj
      · exact hgood.holds
      · exact (h.holds j).next (h.given j) hgood.next
  | elsewhere =>
    obtain rfl := hstep
    have hn : Cell.Next s.db s.db.pass := .pass
    refine ⟨fun i => (h.given i).next hn, fun i => (h.holds i).next (h.given i) hn, ?_⟩
    exact ⟨h.kept.exclusive, h.kept.all_set, h.kept.backed⟩

/-- In every run in which no release fails at its write other than by a conflict, and
    no bitmap is created under a version of the future, an offset is granted again only
    after it was freed, and each is set in what is stored when it is granted. -/
theorem allocations_exclude_each_other [DecidableEq ι] {tr : List (Label ι)} {s : State ι}
    (h : ExecWhen (shared_allocator ι) SteadyStep tr s) :
    Ledger.Exclusive Event.grants Event.clears s.log ∧ AllSet s.log := by
  have hinv : Inv s := by
    refine h.invariant (I := fun _ s => Inv s) (J := fun _ _ => True) (fun _ _ _ => trivial) ?_ ?_
    · rintro s ⟨hlast, hpc, hlog⟩
      exact inv_init hlast hpc hlog
    · intro tr s lbl s' _ hI hok hstep
      exact inv_step hI hok hstep
  exact ⟨hinv.kept.exclusive, hinv.kept.all_set⟩

/-! ### One offset, two grants -/

/-- A range of eight items, none of them taken, and one instance. -/
def fresh : State Unit where
  db := ⟨some ⟨⟨⟨"", none, none, "", some "1", none, none, none, none, none⟩, "range", []⟩, 1⟩, 1,
    by simp⟩
  inst := fun _ => ⟨.new 8 "range", "", "/registry/ranges/items", "items"⟩
  pc := fun _ => .idle
  log := []

def State.during (s : State Unit) (change : Change) (answers : List Answers) : State Unit :=
  answers.foldl (fun s ans => s.after () ans)
    { s with pc := Function.update s.pc () (Call.begins (.try_update change)) }

def answered : Answers := ⟨0, 0, none⟩

/-- The storage does not answer. -/
def unanswered : Answers := ⟨0, 0, some (.Internal "unavailable")⟩

/-- The steps of a call are steps of a run. -/
theorem reachable_during {s : State Unit} (h : Reachable (shared_allocator Unit) s)
    (hfree : (s.pc ()).free) (change : Change) (answers : List Answers)
    (hans : ∀ ans ∈ answers, ∀ msg, ans.fault ≠ some (.Conflict msg)) :
    Reachable (shared_allocator Unit) (s.during change answers) := by
  obtain ⟨tr, hexec⟩ := h
  have hcall : Reachable (shared_allocator Unit)
      { s with pc := update s.pc () (Call.begins (.try_update change)) } :=
    ⟨.call () (.try_update change) :: tr, .step hexec ⟨hfree, rfl⟩⟩
  unfold State.during
  generalize State.mk _ _ _ _ = s₁ at hcall
  -- one answer after the other
  induction answers generalizing s₁ with
  | nil => exact hcall
  | cons ans answers ih =>
    obtain ⟨tr₁, hexec₁⟩ := hcall
    have hnext : Reachable (shared_allocator Unit) (s₁.after () ans) :=
      ⟨.step () ans :: tr₁, .step hexec₁ ⟨hans ans (.head _), rfl⟩⟩
    exact ih (fun a ha => hans a (.tail _ ha)) _ hnext

/-- An offset is granted, its release fails, and it is granted again. -/
def granted_twice : State Unit :=
  ((fresh.during (.allocate 5) [answered, answered]).during (.release 5)
    [answered, unanswered]).during (.allocate 5) [answered, answered]

/-- The release returned an error and nothing was cleared, yet the offset is granted a
    second time. -/
theorem failed_release_frees_the_copy :
    Reachable (shared_allocator Unit) granted_twice ∧
      ¬Ledger.Exclusive Event.grants Event.clears granted_twice.log := by
  constructor
  · have hfresh : Reachable (shared_allocator Unit) fresh :=
      ⟨[], .init ⟨fun _ => rfl, fun _ => rfl, rfl⟩⟩
    have h₁ := reachable_during hfresh trivial (.allocate 5) [answered, answered]
      (by simp [answered])
    have h₂ := reachable_during h₁ trivial (.release 5) [answered, unanswered]
      (by simp [answered, unanswered])
    exact reachable_during h₂ trivial (.allocate 5) [answered, answered] (by simp [answered])
  · intro h
    obtain ⟨e, he, _⟩ := h [] _ [] _ [] 5 rfl rfl rfl
    cases he

/-- A call that the storage answers, in a run as the instances need it. -/
theorem steady_during {tr : List (Label Unit)} {s : State Unit}
    (h : ExecWhen (shared_allocator Unit) SteadyStep tr s) (hfree : (s.pc ()).free)
    (change : Change)
    (hsteady : Steady ((s.during change [answered]).pc ()) answered (s.during change [answered]).db) :
    ∃ tr', ExecWhen (shared_allocator Unit) SteadyStep tr'
      (s.during change [answered, answered]) := by
  have hans : ∀ msg, answered.fault ≠ some (.Conflict msg) := by simp [answered]
  exact ⟨.step () answered :: .step () answered :: .call () (.try_update change) :: tr,
    .step (.step (.step h trivial ⟨hfree, rfl⟩) trivial ⟨hans, rfl⟩) hsteady ⟨hans, rfl⟩⟩

def granted_again : State Unit :=
  ((fresh.during (.allocate 5) [answered, answered]).during (.release 5)
    [answered, answered]).during (.allocate 5) [answered, answered]

theorem allocations_exclude_each_other_again :
    Ledger.Exclusive Event.grants Event.clears granted_again.log ∧ AllSet granted_again.log := by
  have hfresh : ExecWhen (shared_allocator Unit) SteadyStep [] fresh :=
    .init ⟨fun _ => rfl, fun _ => rfl, rfl⟩
  obtain ⟨tr₁, h₁⟩ := steady_during hfresh trivial (.allocate 5) trivial
  obtain ⟨tr₂, h₂⟩ := steady_during h₁ trivial (.release 5) rfl
  obtain ⟨tr₃, h₃⟩ := steady_during h₂ trivial (.allocate 5) trivial
  exact allocations_exclude_each_other h₃

end Allocator
