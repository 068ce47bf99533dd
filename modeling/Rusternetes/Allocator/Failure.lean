import Rusternetes.Allocator.Exclusion

/-! # Writes That Fail

    `try_update` changes its copy and notes the version it read before it writes.
    When the write fails the copy stays changed, and the next call starts from it
    if it reads that version again. A call that reads another version restores the
    copy, and nothing of the failed one is left.

    Two runs are compared, one with the failed calls of an instance and one without
    them. They go on in lockstep: what is stored, what the other instances do and
    what the instance answers is the same, and its copy is the same from the first
    restore on.
-/

open Common Framework LTS Registry

namespace Allocator

open AllocationBitmap Function

/-! ### What an instance reads and writes -/

section step

variable (inst : Instance) (ans : Answers) (db : Storage RangeData)

/-- What the next step reads, in `try_update`. -/
def Pc.reads : Pc → Option RangeAllocation
  | .reading _ => (faulty ans db (Storage.get inst.key db, db)).1.toOption
  | _ => none

/-- What the storage answers to the write of the next step. -/
def Pc.writes : Pc → Option (Except Error RangeAllocation)
  | .writing _ obj _ | .replacing obj =>
    some (faulty ans db (Storage.update inst.key db obj)).1
  | .creating obj =>
    some (faulty ans db (Storage.create inst.key db (obj.with_version none))).1
  | _ => none

/-- The bitmap can be restored from an object. -/
def Instance.fits (obj : RangeAllocation) : Bool :=
  (inst.alloc.restore obj.body.range obj.body.data).isOk

/-- Whether the next step replaces the copy, by what is stored or by a snapshot. -/
def Pc.restores (pc : Pc) : Bool :=
  ((pc.reads inst ans db).any fun obj =>
      obj.metadata.resource_version.isSome && inst.fits obj) ||
    (pc.writes inst ans db).any fun got => got.isOk &&
      match pc with
      | .replacing obj | .creating obj => inst.fits obj
      | _ => false

end step

/-! ### Copies -/

def Instance.with_copy (inst : Instance) (words : List Word) (count : Nat) (last : String) :
    Instance :=
  { inst with alloc := { inst.alloc with words, count }, last }

theorem Change.apply_copy {change : Change} {ans : Answers} {alloc alloc' : AllocationBitmap}
    {granted : Option Nat} (h : change.apply ans alloc = .ok (granted, alloc')) :
    ∃ words count, alloc' = { alloc with words, count } := by
  cases change with
  | allocate offset =>
    simp only [Change.apply, AllocationBitmap.allocate] at h
    split_ifs at h
    cases h
    exact ⟨_, _, rfl⟩
  | allocate_next =>
    simp only [Change.apply] at h
    split at h <;> cases h
    rename_i hnext
    exact ⟨_, _, (allocate_next_spec hnext).2⟩
  | release offset =>
    cases h
    unfold AllocationBitmap.release
    split_ifs
    · exact ⟨_, _, rfl⟩
    · exact ⟨_, _, rfl⟩

variable {inst : Instance}

theorem synced_copy {rv : String} {obj : RangeAllocation} {alloc : AllocationBitmap}
    (h : inst.synced rv obj = .ok alloc) :
    ∃ words count, alloc = { inst.alloc with words, count } := by
  unfold Instance.synced AllocationBitmap.restore at h
  split_ifs at h
  · cases h
    exact ⟨_, _, rfl⟩
  · cases h
    exact ⟨_, _, rfl⟩

theorem after_read_copy (inst : Instance) (change : Change) (ans : Answers)
    (got : Except Error RangeAllocation) :
    ∃ words count last, (after_read inst change ans got).1 = inst.with_copy words count last := by
  unfold after_read
  split
  · exact ⟨_, _, _, rfl⟩
  · exact ⟨_, _, _, rfl⟩
  split
  · exact ⟨_, _, _, rfl⟩
  split
  · exact ⟨_, _, _, rfl⟩
  rename_i hsync
  obtain ⟨words, count, rfl⟩ := synced_copy hsync
  split
  · exact ⟨_, _, _, rfl⟩
  · rename_i happly
    obtain ⟨words, count, rfl⟩ := Change.apply_copy happly
    exact ⟨_, _, _, rfl⟩

/-- Two instances that are the same, or differ in copies that are out of date: one notes
    `last`, the other `noted`. `same` tells that the copies have the same bits. -/
def Apart (last noted : String) (same : Prop) (c f : Instance) : Prop :=
  f = c ∨ c.last = last ∧ (∃ words count, f = c.with_copy words count noted) ∧
    (same → f.alloc = c.alloc)

section apart

variable {last noted : String} {same : Prop} {c f : Instance}

theorem Apart.imp {same' : Prop} (h : Apart last noted same c f) (himp : same' → same) :
    Apart last noted same' c f :=
  h.imp_right fun h => ⟨h.1, h.2.1, fun hsame => h.2.2 (himp hsame)⟩

/-- Copies that are out of date are both restored and written, or the call returns and
    leaves them apart. -/
theorem after_read_apart (ans : Answers) (got : Except Error RangeAllocation)
    (h : Apart last noted same c f) (change : Change)
    (hnew : ∀ obj, got = .ok obj → obj.metadata.resource_version ≠ some last ∧
      obj.metadata.resource_version ≠ some noted) :
    (after_read f change ans got).2 = (after_read c change ans got).2 ∧
      Apart last noted (same ∨ ∃ obj, got = .ok obj ∧
          obj.metadata.resource_version.isSome = true ∧ c.fits obj = true)
        (after_read c change ans got).1 (after_read f change ans got).1 := by
  rcases h with rfl | ⟨rfl, ⟨words, count, rfl⟩, hsame⟩
  · exact ⟨rfl, .inl rfl⟩
  cases got with
  | error e =>
    have hstill : Apart c.last noted (same ∨ ∃ obj, Except.error e = .ok obj ∧
        obj.metadata.resource_version.isSome = true ∧ c.fits obj = true) c
        (c.with_copy words count noted) :=
      .inr ⟨rfl, ⟨words, count, rfl⟩, fun h => hsame (h.resolve_right (by simp))⟩
    cases e <;> exact ⟨rfl, hstill⟩
  | ok obj =>
    obtain ⟨hlast, hnoted⟩ := hnew obj rfl
    simp only [after_read]
    cases hrv : obj.metadata.resource_version with
    | none =>
      refine ⟨rfl, .inr ⟨rfl, ⟨words, count, rfl⟩, fun h => hsame (h.resolve_right ?_)⟩⟩
      simp [hrv]
    | some rv =>
      have hsync : c.synced rv obj = c.alloc.restore obj.body.range obj.body.data :=
        if_pos fun heq => hlast (hrv.trans (congrArg some heq))
      have hsync' : (c.with_copy words count noted).synced rv obj =
          c.alloc.restore obj.body.range obj.body.data :=
        if_pos fun heq => hnoted (hrv.trans (congrArg some heq))
      simp only [hsync, hsync']
      cases hrestore : c.alloc.restore obj.body.range obj.body.data with
      | error e =>
        refine ⟨rfl, .inr ⟨rfl, ⟨words, count, rfl⟩, fun h => hsame (h.resolve_right ?_)⟩⟩
        simp [Instance.fits, hrestore, Except.isOk, Except.toBool]
      | ok alloc =>
        cases happly : change.apply ans alloc with
        | error e =>
          -- the copies are the same now, the versions they note are not
          simp only [happly]
          exact ⟨trivial, .inr ⟨rfl, ⟨alloc.words, alloc.count, rfl⟩, fun _ => rfl⟩⟩
        | ok out =>
          simp only [happly]
          exact ⟨trivial, .inl rfl⟩

theorem after_replace_apart (got : Except Error RangeAllocation)
    (h : Apart last noted same c f) (snapshot : RangeAllocation) :
    (after_replace f snapshot got).2 = (after_replace c snapshot got).2 ∧
      Apart last noted (same ∨ got.isOk = true ∧ c.fits snapshot = true)
        (after_replace c snapshot got).1 (after_replace f snapshot got).1 := by
  rcases h with rfl | ⟨rfl, ⟨words, count, rfl⟩, hsame⟩
  · exact ⟨rfl, .inl rfl⟩
  cases got with
  | error e =>
    exact ⟨rfl, .inr ⟨rfl, ⟨words, count, rfl⟩, fun h => hsame (h.resolve_right (by
      simp [Except.isOk, Except.toBool]))⟩⟩
  | ok obj =>
    have hcopy : (c.with_copy words count noted).alloc.restore snapshot.body.range
        snapshot.body.data = c.alloc.restore snapshot.body.range snapshot.body.data := rfl
    simp only [after_replace, hcopy]
    cases hrestore : c.alloc.restore snapshot.body.range snapshot.body.data with
    | error e =>
      refine ⟨rfl, .inr ⟨rfl, ⟨words, count, rfl⟩, fun h => hsame (h.resolve_right ?_)⟩⟩
      simp [Instance.fits, hrestore, Except.isOk, Except.toBool]
    | ok alloc => exact ⟨rfl, .inl rfl⟩

/-- **One step of instances whose copies differ**, which reads none of the two versions: the
    same is stored and answered. -/
theorem advance_apart {ι : Type} (i : ι) (h : Apart last noted same c f) (pc : Pc)
    (ans : Answers) (db : Storage RangeData)
    (hnew : ∀ obj ∈ pc.reads c ans db, obj.metadata.resource_version ≠ some last ∧
      obj.metadata.resource_version ≠ some noted) :
    (advance i f pc ans db).2 = (advance i c pc ans db).2 ∧
      Apart last noted (same ∨ pc.restores c ans db = true) (advance i c pc ans db).1
        (advance i f pc ans db).1 := by
  have hstatic : f.key = c.key ∧ f.resource = c.resource := by
    rcases h with rfl | ⟨-, ⟨words, count, rfl⟩, -⟩
    · exact ⟨rfl, rfl⟩
    · exact ⟨rfl, rfl⟩
  obtain ⟨hkey, hresource⟩ := hstatic
  cases pc with
  | idle => exact ⟨rfl, h.imp (by simp [Pc.restores, Pc.reads, Pc.writes])⟩
  | returned => exact ⟨rfl, h.imp (by simp [Pc.restores, Pc.reads, Pc.writes])⟩
  | writing change updated granted =>
    refine ⟨?_, h.imp (by simp [Pc.restores, Pc.reads, Pc.writes])⟩
    simp only [advance, hkey]
  | checking snapshot =>
    refine ⟨?_, h.imp (by simp [Pc.restores, Pc.reads, Pc.writes])⟩
    simp only [advance, after_check, conflict_error, hkey, hresource]
  | reading change =>
    simp only [advance, hkey]
    generalize hgot : (faulty ans db (Storage.get c.key db, db)).1 = got
    simp only [Pc.restores, Pc.reads, Pc.writes, hgot] at hnew ⊢
    obtain ⟨hsame, hapart⟩ := after_read_apart ans got h change (by
      rintro obj rfl
      exact hnew obj rfl)
    refine ⟨by rw [hsame], hapart.imp (Or.imp_right fun hres => ?_)⟩
    cases got with
    | error e => simp [Except.toOption] at hres
    | ok obj =>
      obtain ⟨hsome, hfits⟩ : obj.metadata.resource_version.isSome = true ∧ c.fits obj = true := by
        simpa [Except.toOption] using hres
      exact ⟨obj, rfl, hsome, hfits⟩
  | replacing snapshot =>
    simp only [advance, hkey]
    obtain ⟨hsame, hapart⟩ := after_replace_apart
      (faulty ans db (Storage.update c.key db snapshot)).1 h snapshot
    refine ⟨by rw [hsame], hapart.imp (Or.imp_right fun hres => ?_)⟩
    simpa [Pc.restores, Pc.reads, Pc.writes] using hres
  | creating snapshot =>
    simp only [advance, hkey]
    obtain ⟨hsame, hapart⟩ := after_replace_apart
      (faulty ans db (Storage.create c.key db (snapshot.with_version none))).1 h snapshot
    refine ⟨by rw [hsame], hapart.imp (Or.imp_right fun hres => ?_)⟩
    simpa [Pc.restores, Pc.reads, Pc.writes] using hres

end apart

/-! ### Runs -/

section runs

variable {ι : Type} [DecidableEq ι]

def State.next (s : State ι) : Label ι → State ι
  | .call i call => { s with pc := update s.pc i call.begins }
  | .step i ans => s.after i ans
  | .elsewhere => { s with db := s.db.pass }

def State.run (s : State ι) (tr : List (Label ι)) : State ι := tr.foldl State.next s

theorem next_of_step {s s' : State ι} {lbl : Label ι} (h : (shared_allocator ι).step s lbl s') :
    s' = s.next lbl := by
  cases lbl with
  | call => exact h.2
  | step => exact h.2
  | elsewhere => exact h

/-- A condition on every step of a run. -/
def along (ok : State ι → Label ι → Bool) : State ι → List (Label ι) → Bool
  | _, [] => true
  | s, lbl :: tr => ok s lbl && along ok (s.next lbl) tr

/-- A condition on some step of a run. -/
def sometime (p : State ι → Label ι → Bool) (s : State ι) (tr : List (Label ι)) : Bool :=
  !along (fun s lbl => !p s lbl) s tr

def Label.of (i : ι) : Label ι → Bool
  | .call j _ | .step j _ => j = i
  | .elsewhere => false

/-- Whether the instance stores nothing at a label. -/
def futile (i : ι) (s : State ι) : Label ι → Bool
  | .step j ans => j ≠ i || ((s.pc i).writes (s.inst i) ans s.db).all fun got => !got.isOk
  | _ => true

/-- Whether the instance reads none of two versions at a label. -/
def unread (i : ι) (last noted : String) (s : State ι) : Label ι → Bool
  | .step j ans => j ≠ i || ((s.pc i).reads (s.inst i) ans s.db).all fun obj =>
    obj.metadata.resource_version ≠ some last ∧ obj.metadata.resource_version ≠ some noted
  | _ => true

/-- Whether the instance's copy is replaced at a label. -/
def restores (i : ι) (s : State ι) : Label ι → Bool
  | .step j ans => j = i && (s.pc i).restores (s.inst i) ans s.db
  | _ => false

/-- Two states that differ in one instance at most. -/
structure Beside (i : ι) (c f : State ι) : Prop where
  db : f.db = c.db
  log : f.log = c.log
  inst : ∀ j, j ≠ i → f.inst j = c.inst j
  pc : ∀ j, j ≠ i → f.pc j = c.pc j

variable {i : ι} {c f s : State ι} {lbl : Label ι}

omit [DecidableEq ι] in
theorem Beside.refl (s : State ι) : Beside i s s := ⟨rfl, rfl, fun _ _ => rfl, fun _ _ => rfl⟩

theorem update_congr {β : Type} {g h : ι → β} {j k : ι} {v : β} (heq : g k = h k) :
    update g j v k = update h j v k := by
  rcases eq_or_ne k j with rfl | hne
  · rw [update_self, update_self]
  · rw [update_of_ne hne, update_of_ne hne, heq]

theorem update_off {β : Type} {g h : ι → β} {v w : β} (heq : ∀ k, k ≠ i → g k = h k) (k : ι)
    (hk : k ≠ i) : update g i v k = update h i w k := by
  rw [update_of_ne hk, update_of_ne hk, heq k hk]

theorem Beside.other (h : Beside i c f) (hlbl : lbl.of i = false) :
    Beside i (c.next lbl) (f.next lbl) := by
  cases lbl with
  | call j call => exact ⟨h.db, h.log, h.inst, fun k hk => update_congr (h.pc k hk)⟩
  | step j ans =>
    have hne : j ≠ i := of_decide_eq_false hlbl
    have heq : advance j (f.inst j) (f.pc j) ans f.db = advance j (c.inst j) (c.pc j) ans c.db := by
      rw [h.inst j hne, h.pc j hne, h.db]
    simp only [State.next, State.after]
    rw [heq]
    exact ⟨rfl, congrArg (_ ++ ·) h.log, fun k hk => update_congr (h.inst k hk),
      fun k hk => update_congr (h.pc k hk)⟩
  | elsewhere => exact ⟨congrArg Cell.pass h.db, h.log, h.inst, h.pc⟩

/-- The others do nothing to the instance. -/
theorem own_of_other (hlbl : lbl.of i = false) :
    (s.next lbl).inst i = s.inst i ∧ (s.next lbl).pc i = s.pc i := by
  cases lbl with
  | call j call =>
    have hne : j ≠ i := of_decide_eq_false hlbl
    exact ⟨rfl, update_of_ne hne.symm _ _⟩
  | step j ans =>
    have hne : j ≠ i := of_decide_eq_false hlbl
    exact ⟨update_of_ne hne.symm _ _, update_of_ne hne.symm _ _⟩
  | elsewhere => exact ⟨rfl, rfl⟩

/-! ### Calls that fail -/

theorem faulty_failed {ans : Answers} {db : Storage RangeData}
    {op : Except Error RangeAllocation × Storage RangeData}
    (hop : ∀ e, op.1 = .error e → op.2 = db) (h : (faulty ans db op).1.isOk = false) :
    ∃ e, faulty ans db op = (.error e, db) := by
  unfold faulty at h ⊢
  cases hfault : ans.fault with
  | some e => exact ⟨e, rfl⟩
  | none =>
    simp only [hfault] at h ⊢
    cases hgot : op.1 with
    | error e => exact ⟨e, Prod.ext hgot (hop e hgot)⟩
    | ok obj =>
      rw [hgot] at h
      cases h

theorem update_failed {key : String} {db : Storage RangeData} {obj : RangeAllocation} (e : Error)
    (h : (Storage.update key db obj).1 = .error e) : (Storage.update key db obj).2 = db := by
  revert h
  unfold Storage.update
  split
  · exact fun _ => rfl
  split
  · split_ifs
    · exact fun h => by cases h
    · exact fun _ => rfl
  · exact fun h => by cases h

theorem create_failed {key : String} {db : Storage RangeData} {obj : RangeAllocation} (e : Error)
    (h : (Storage.create key db obj).1 = .error e) : (Storage.create key db obj).2 = db := by
  revert h
  unfold Storage.create
  split
  · exact fun _ => rfl
  · exact fun h => by cases h

omit [DecidableEq ι] in
/-- A step that stores nothing changes the copy and the version it notes at most. -/
theorem advance_futile (i : ι) (inst : Instance) (pc : Pc) {ans : Answers} {db : Storage RangeData}
    (h : (pc.writes inst ans db).all (fun got => !got.isOk) = true) :
    ∃ words count last pc', advance i inst pc ans db =
      (inst.with_copy words count last, pc', db, []) := by
  cases pc with
  | idle | returned | checking => exact ⟨_, _, _, _, rfl⟩
  | reading change =>
    obtain ⟨words, count, last, heq⟩ := after_read_copy inst change ans
      (faulty ans db (Storage.get inst.key db, db)).1
    exact ⟨words, count, last, _, by rw [advance, heq]⟩
  | writing change obj granted =>
    obtain ⟨e, he⟩ := faulty_failed update_failed (by simpa [Pc.writes] using h)
    exact ⟨inst.alloc.words, inst.alloc.count, inst.last, _, by rw [advance, he]; rfl⟩
  | replacing obj =>
    obtain ⟨e, he⟩ := faulty_failed update_failed (by simpa [Pc.writes] using h)
    exact ⟨inst.alloc.words, inst.alloc.count, inst.last, _, by rw [advance, he]; rfl⟩
  | creating obj =>
    obtain ⟨e, he⟩ := faulty_failed create_failed (by simpa [Pc.writes] using h)
    exact ⟨inst.alloc.words, inst.alloc.count, inst.last, _, by rw [advance, he]; rfl⟩

theorem Beside.futile (h : Beside i c f) (hlbl : lbl.of i = true)
    (hfutile : Allocator.futile i f lbl = true) :
    Beside i c (f.next lbl) ∧
      ∃ words count last, (f.next lbl).inst i = (f.inst i).with_copy words count last := by
  cases lbl with
  | elsewhere => cases hlbl
  | call j call =>
    obtain rfl : j = i := of_decide_eq_true hlbl
    refine ⟨⟨h.db, h.log, h.inst, fun k hk => ?_⟩, _, _, _, rfl⟩
    exact (update_of_ne hk _ _).trans (h.pc k hk)
  | step j ans =>
    obtain rfl : j = i := of_decide_eq_true hlbl
    obtain ⟨words, count, last, pc, heq⟩ := advance_futile j (f.inst j) (f.pc j)
      (by simpa [Allocator.futile] using hfutile)
    simp only [State.next, State.after]
    rw [heq]
    exact ⟨⟨h.db, h.log, fun k hk => (update_of_ne hk _ _).trans (h.inst k hk),
      fun k hk => (update_of_ne hk _ _).trans (h.pc k hk)⟩, words, count, last, update_self ..⟩

/-- **Calls that store nothing leave a copy**, in the run with them and the one without. -/
theorem beside_run {failed : List (Label ι)} (h : Beside i c f)
    (hcopy : ∃ words count last, f.inst i = (c.inst i).with_copy words count last)
    (hfailed : along (Allocator.futile i) f failed = true) :
    Beside i (c.run (failed.filter fun lbl => !lbl.of i)) (f.run failed) ∧
      (∃ words count last, (f.run failed).inst i = (c.inst i).with_copy words count last) ∧
      (c.run (failed.filter fun lbl => !lbl.of i)).inst i = c.inst i ∧
      (c.run (failed.filter fun lbl => !lbl.of i)).pc i = c.pc i := by
  induction failed generalizing c f with
  | nil => exact ⟨h, hcopy, rfl, rfl⟩
  | cons lbl failed ih =>
    obtain ⟨hfutile, hrest⟩ := Bool.and_eq_true_iff.mp hfailed
    obtain ⟨words, count, last, hf⟩ := hcopy
    cases hlbl : lbl.of i with
    | true =>
      obtain ⟨hbeside, words', count', last', hf'⟩ := h.futile hlbl hfutile
      rw [List.filter_cons_of_neg (by simp [hlbl])]
      exact ih hbeside ⟨words', count', last', by rw [hf', hf]; rfl⟩ hrest
    | false =>
      obtain ⟨hinst, hpc⟩ := own_of_other (s := c) hlbl
      obtain ⟨hinstf, -⟩ := own_of_other (s := f) hlbl
      rw [List.filter_cons_of_pos (by simp [hlbl])]
      obtain ⟨hbeside, hcopy, hinst', hpc'⟩ :=
        ih (h.other hlbl) ⟨words, count, last, by rw [hinstf, hinst, hf]⟩ hrest
      rw [hinst] at hcopy
      exact ⟨hbeside, hcopy, hinst'.trans hinst, hpc'.trans hpc⟩

/-! ### In lockstep -/

/-- Two runs after the failed calls of an instance, which noted `last` before them and
    `noted` in them. `same` tells that its copy was restored since, `called` that a call
    was made. -/
structure Lockstep (i : ι) (last noted : String) (same called : Prop) (c f : State ι) : Prop
    extends Beside i c f where
  own : Apart last noted same (c.inst i) (f.inst i)
  stands : f.pc i = c.pc i ∨ ¬called ∧ (f.pc i).free ∧ (c.pc i).free

variable {last noted : String} {same called : Prop}

omit [DecidableEq ι] in
theorem advance_free {i : ι} {inst : Instance} {pc : Pc} (hfree : pc.free) (ans : Answers)
    (db : Storage RangeData) : advance i inst pc ans db = (inst, pc, db, []) := by
  cases pc with
  | idle | returned => rfl
  | reading | writing | checking | replacing | creating => exact hfree.elim

omit [DecidableEq ι] in
theorem Pc.restores_free {pc : Pc} (hfree : pc.free) {inst : Instance} {ans : Answers}
    {db : Storage RangeData} : pc.restores inst ans db = false := by
  cases pc with
  | idle | returned => rfl
  | reading | writing | checking | replacing | creating => exact hfree.elim

theorem Lockstep.own_step (h : Lockstep i last noted same called c f) {ans : Answers}
    (hunread : unread i last noted c (.step i ans) = true) :
    Lockstep i last noted (same ∨ restores i c (.step i ans) = true) called
      (c.next (.step i ans)) (f.next (.step i ans)) := by
  have hrestores : (same ∨ restores i c (.step i ans) = true) →
      same ∨ (c.pc i).restores (c.inst i) ans c.db = true := by
    simp [restores]
  simp only [State.next, State.after]
  rcases h.stands with hpc | ⟨hcalled, hff, hfc⟩
  · obtain ⟨hout, hapart⟩ := advance_apart i h.own (c.pc i) ans c.db (by
      simpa [unread, Option.all_eq_true] using hunread)
    rw [hpc, h.db]
    refine ⟨⟨?_, ?_, update_off h.inst, update_off h.pc⟩, ?_, .inl ?_⟩
    · rw [hout]
    · rw [hout, h.log]
    · simp only [update_self]
      exact hapart.imp hrestores
    · simp only [update_self]
      rw [hout]
  · rw [advance_free hff, advance_free hfc]
    refine ⟨⟨h.db, ?_, update_off h.inst, update_off h.pc⟩, ?_, .inr ?_⟩
    · rw [List.nil_append, List.nil_append, h.log]
    · simp only [update_self]
      refine h.own.imp fun hsame => (hrestores hsame).resolve_right ?_
      simp [Pc.restores_free hfc]
    · simp only [update_self]
      exact ⟨hcalled, hff, hfc⟩

/-- **One label in both runs**, at which none of the two versions is read. -/
theorem Lockstep.next (h : Lockstep i last noted same called c f)
    (hunread : unread i last noted c lbl = true) :
    Lockstep i last noted (same ∨ restores i c lbl = true) (called ∨ ∃ call, lbl = .call i call)
      (c.next lbl) (f.next lbl) := by
  cases hlbl : lbl.of i with
  | false =>
    obtain ⟨hc, hcpc⟩ := own_of_other (s := c) hlbl
    obtain ⟨hf, hfpc⟩ := own_of_other (s := f) hlbl
    have hquiet : restores i c lbl = false := by
      cases lbl <;> simp_all [Label.of, restores]
    have hno : ¬∃ call, lbl = .call i call := by
      rintro ⟨call, rfl⟩
      simp [Label.of] at hlbl
    refine { h.toBeside.other hlbl with own := ?_, stands := ?_ }
    · rw [hc, hf]
      exact h.own.imp (by simp [hquiet])
    · rw [hcpc, hfpc]
      simpa only [or_iff_left hno] using h.stands
  | true =>
    cases lbl with
    | elsewhere => cases hlbl
    | call j call =>
      obtain rfl : j = i := of_decide_eq_true hlbl
      refine ⟨⟨h.db, h.log, h.inst, fun k hk => update_congr (h.pc k hk)⟩, ?_, .inl ?_⟩
      · exact h.own.imp (by simp [restores])
      · show update f.pc j _ j = update c.pc j _ j
        rw [update_self, update_self]
    | step j ans =>
      obtain rfl : j = i := of_decide_eq_true hlbl
      have hstep := h.own_step hunread
      exact { hstep with stands := hstep.stands.imp_right fun h => ⟨by simpa using h.1, h.2⟩ }

theorem Lockstep.run {tr : List (Label ι)} (h : Lockstep i last noted same called c f)
    (hunread : along (unread i last noted) c tr = true) :
    Lockstep i last noted (same ∨ sometime (restores i) c tr = true)
      (called ∨ ∃ call, .call i call ∈ tr) (c.run tr) (f.run tr) := by
  induction tr generalizing same called c f with
  | nil => simpa [sometime, along, State.run] using h
  | cons lbl tr ih =>
    obtain ⟨hlbl, hrest⟩ := Bool.and_eq_true_iff.mp hunread
    have hsame : (same ∨ restores i c lbl = true) ∨ sometime (restores i) (c.next lbl) tr = true ↔
        same ∨ sometime (restores i) c (lbl :: tr) = true := by
      simp [sometime, along, or_assoc]
    have hcalled : (called ∨ ∃ call, lbl = .call i call) ∨ (∃ call, .call i call ∈ tr) ↔
        called ∨ ∃ call, .call i call ∈ lbl :: tr := by
      simp only [or_assoc, List.mem_cons, exists_or, eq_comm]
    rw [← hsame, ← hcalled]
    exact ih (h.next hlbl) hrest

/-- **A failed write is forgotten.** Calls of an instance that store nothing are left out of
    a run. If the versions that the instance noted before them and in them are not read
    again by it, the rest of the run stores and commits the same, the other instances are
    the same, and so is what the instance answers once it is called; and once its copy is
    restored, so is the copy, and what `has` and `free` tell of it. -/
theorem failed_write_forgotten (s : State ι) (i : ι) (failed rest : List (Label ι))
    (hfree : (s.pc i).free) (hfailed : along (futile i) s failed = true)
    (hdone : ((s.run failed).pc i).free)
    (hunread : along (unread i (s.inst i).last ((s.run failed).inst i).last)
      (s.run (failed.filter fun lbl => !lbl.of i)) rest = true) :
    let without := s.run (failed.filter fun lbl => !lbl.of i)
    ((s.run failed).run rest).db = (without.run rest).db ∧
      ((s.run failed).run rest).log = (without.run rest).log ∧
      (∀ j, j ≠ i → ((s.run failed).run rest).inst j = (without.run rest).inst j ∧
        ((s.run failed).run rest).pc j = (without.run rest).pc j) ∧
      ((∃ call, .call i call ∈ rest) →
        ((s.run failed).run rest).pc i = (without.run rest).pc i) ∧
      (sometime (restores i) without rest = true →
        (((s.run failed).run rest).inst i).alloc = ((without.run rest).inst i).alloc) := by
  obtain ⟨hbeside, ⟨words, count, last, hcopy⟩, hinst, hpc⟩ :=
    beside_run (Beside.refl s) ⟨_, _, _, rfl⟩ hfailed
  have hstart : Lockstep i (s.inst i).last ((s.run failed).inst i).last False False
      (s.run (failed.filter fun lbl => !lbl.of i)) (s.run failed) := by
    refine ⟨hbeside, .inr ⟨?_, ⟨words, count, ?_⟩, False.elim⟩,
      .inr ⟨not_false, hdone, hpc ▸ hfree⟩⟩
    · rw [hinst]
    · rw [hinst, hcopy]
      rfl
  have hend := hstart.run hunread
  refine ⟨hend.db, hend.log, fun j hj => ⟨hend.inst j hj, hend.pc j hj⟩, fun hcall => ?_,
    fun hrestored => ?_⟩
  · exact hend.stands.resolve_right fun h => h.1 (.inr hcall)
  · rcases hend.own with heq | ⟨-, -, hsame⟩
    · rw [heq]
    · exact hsame (.inr hrestored)

end runs

/-! ### An allocation that failed -/

/-- Two instances over the range of eight items. -/
def pair : State Bool := ⟨fresh.db, fun _ => fresh.inst (), fun _ => .idle, []⟩

def allocates (i : Bool) (offset : Nat) : List (Label Bool) :=
  [.call i (.try_update (.allocate offset)), .step i answered, .step i answered]

def fails_to_allocate (i : Bool) (offset : Nat) : List (Label Bool) :=
  [.call i (.try_update (.allocate offset)), .step i answered, .step i unanswered]

-- the other instance writes before the next call, which then restores the copy
theorem failed_write_forgotten_next :
    let with_failure :=
      (pair.run (fails_to_allocate true 5)).run (allocates false 3 ++ allocates true 6)
    let without := pair.run (allocates false 3 ++ allocates true 6)
    with_failure.db = without.db ∧ with_failure.pc true = .returned (.allocate (.ok true)) ∧
      (with_failure.inst true).alloc = (without.inst true).alloc ∧
      (without.inst true).alloc.bit 5 = false := by
  have h := failed_write_forgotten pair true (fails_to_allocate true 5)
    (allocates false 3 ++ allocates true 6) trivial (by decide +kernel) trivial (by decide +kernel)
  exact ⟨h.1, (h.2.2.2.1 ⟨.try_update (.allocate 6), by simp [allocates]⟩).trans rfl, h.2.2.2.2 (by decide +kernel),
    by decide +kernel⟩

/-- An allocation is made in the copy and not stored. -/
def failed_once : State Unit := fresh.during (.allocate 5) [answered, unanswered]

/-- The allocation returned an error, yet its copy has the item, and the next
    allocation stores it. -/
theorem failed_allocation_is_stored :
    Reachable (shared_allocator Unit) failed_once ∧
      failed_once.pc () = .returned (.allocate (.error (.Internal "unavailable"))) ∧
      (failed_once.inst ()).alloc.bit 5 = true ∧
      (failed_once.during (.allocate 6) [answered, answered]).db.content.any
        (fun v => taken v.value.body.data 5) = true ∧
      (fresh.during (.allocate 6) [answered, answered]).db.content.any
        (fun v => taken v.value.body.data 5) = false :=
  ⟨reachable_during (s := fresh) ⟨[], .init ⟨fun _ => rfl, fun _ => rfl, rfl⟩⟩ trivial _ _
    (by simp [answered, unanswered]), rfl, by decide +kernel, by decide +kernel, by decide +kernel⟩

end Allocator
