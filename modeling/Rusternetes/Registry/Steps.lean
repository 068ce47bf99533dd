import Rusternetes.Registry.Invariant

/-! # The Generic Registry: Every Step Keeps the Invariant

    One lemma for each place a request can stand at, and from them that the
    invariant of every request holds in every state that is reached.
-/

open Common Framework Function LTS List

namespace Registry

variable {B : Type} {store : Store B} {db : Storage B} {effects : List (Effect B)}

/-- A step of a request with these effects keeps its invariant. -/
def Kept (store : Store B) (db : Storage B) (effects : List (Effect B))
    (out : Pc B × Storage B × List (Effect B)) : Prop :=
  out.1.Holds store out.2.1 (out.2.2 ++ effects) ∧ Explained db out.2.1 out.2.2

/-! ### Others -/

variable {u : UpdateArgs} {ans : Answers B} {preconditions : Option Preconditions} {req : Request B}
  {ground : Ground B} {db' : Storage B} {x : Versioned (Obj B)}

theorem Grounded.next (h : Grounded store db req ground x) (hn : Cell.Next db db') :
    Grounded store db' req ground x :=
  ⟨h.1, h.2.1.next hn, h.2.2⟩

theorem Checked.next {removal : Removal B} (h : Checked db preconditions effects removal)
    (hn : Cell.Next db db') :
    Checked db' preconditions effects removal := by
  cases removal with
  | check => exact h
  | delete =>
    obtain ⟨y, hy, hrec, hsat⟩ := h
    exact ⟨y, hy, hrec.next hn, hsat⟩

variable {pc : Pc B}

theorem Pc.Holds.next (h : pc.Holds store db effects) (hn : Cell.Next db db') :
    pc.Holds store db' effects := by
  cases pc with
  | updating => exact ⟨h.1, h.2.next hn⟩
  | marking => exact ⟨h.1, h.2.1, h.2.2.next hn⟩
  | emptied =>
    obtain ⟨heff, ⟨x, hx⟩, hchecked, hdry⟩ := h
    exact ⟨heff, ⟨x, hx.next hn⟩, hchecked.next hn, hdry⟩
  | deleting =>
    obtain ⟨hmark, hlaw, ⟨x, hx, henf⟩, hchecked⟩ := h
    exact ⟨hmark, hlaw, ⟨x, hx.next hn, henf⟩, hchecked.next hn⟩
  | _ => exact h

/-! ### Failing and finishing -/

variable {result : Except Error (Response B)}

theorem finished_nothing (h : Shape req result []) : (Pc.finished req result).Holds store db [] :=
  ⟨fun _ he => absurd he not_mem_nil, h⟩

theorem create_finished {c : CreateArgs B} :
    (Pc.finished (.create c) result).Holds store db [] := by
  apply finished_nothing
  cases result <;> simp [Shape]

theorem update_failed {e : Error} : (Pc.finished (.update u) (.error e)).Holds store db [] :=
  finished_nothing rfl

theorem update_dry {response : Response B} (h : u.dry_run = true) :
    (Pc.finished (.update u) (.ok response)).Holds store db [] := by
  apply finished_nothing
  simp [Shape, h]

theorem delete_finished {d : DeleteArgs B} :
    (Pc.finished (.delete d) result).Holds store db [] := by
  apply finished_nothing
  cases result with
  | error e => exact .inl rfl
  | ok => exact .inl (.inl rfl)

theorem kept_same (h : pc.Holds store db effects) : Kept store db effects (pc, db, []) :=
  ⟨h, .none⟩

/-! ### Create -/

theorem begin_create_holds (c : CreateArgs B) (ans : Answers B) :
    (begin_create store c ans).Holds store db [] := by
  simp only [begin_create]
  split
  · exact create_finished
  · split
    · exact create_finished
    · split
      · exact create_finished
      · split
        · exact create_finished
        · rfl

theorem create_operation_cases (store : Store B) (c : CreateArgs B) (obj : Obj B)
    (ans : Answers B) (db : Storage B) : (∃ got, create_operation store c obj ans db = (got, db)) ∨
      db.content = none ∧ ∃ out, create_operation store c obj ans db = (.ok out, db.put obj) := by
  unfold create_operation
  split_ifs
  · split <;> exact .inl ⟨_, rfl⟩
  · rcases create_cases store.key ans db obj with ⟨e, h⟩ | ⟨hnone, h⟩
    · rw [h]
      exact .inl ⟨_, rfl⟩
    · rw [h]
      exact .inr ⟨hnone, _, rfl⟩

theorem create_step_kept (c : CreateArgs B) (obj : Obj B) (ans : Answers B) :
    Kept store db [] (create_step store c obj ans db) := by
  unfold create_step
  rcases create_operation_cases store c obj ans db with ⟨got, h⟩ | ⟨hnone, out, h⟩
  · simp only [h, create_effect_same]
    apply kept_same
    unfold finish_create
    split
    · exact create_finished
    · split
      · rfl
      · exact create_finished
  · have heff : create_effect ans db (db.put obj) = [.created ans ⟨obj, db.last + 1⟩] := by
      simp [create_effect, hnone, Cell.put]
    simp only [h, heff]
    exact ⟨⟨forall_mem_singleton.mpr .create, Nat.le_refl 1⟩, .created hnone⟩

/-! ### Updates -/

variable {st : UpdateAttempt B} {old : Versioned (Obj B)}

/-- An outcome of the loop that changes nothing. -/
theorem finish_update_error {e : Error} :
    (finish_update store u ans db st (.error (.Api e))).Holds store db [] :=
  update_failed

theorem finished_one {response : Response B} {e : Effect B}
    (hdry : u.dry_run = false) (h : Lawful store [e] (.update u) e) :
    (Pc.finished (.update u) (.ok response)).Holds store db [e] := by
  refine ⟨forall_mem_singleton.mpr h, ?_⟩
  simp only [Shape, hdry, Bool.false_eq_true, if_false]
  exact ⟨e, rfl⟩

theorem Attempted.updated_from {I : UpdateAttempt B → Prop} {updated : Obj B}
    (h : Attempted store (store.update_loop u) I ans x st updated) :
    ∃ obj, UpdatedFrom store u ans x (.ok obj) ∧
      updated = obj.with_version (some (toString x.revision)) := by
  obtain ⟨_, obj, _, htry, hupdated⟩ := h.computed
  rcases try_update_some htry with ⟨e, he⟩ | hfrom
  · cases he
  · exact ⟨obj, hfrom, hupdated⟩

/-- An update is given up with an error, or goes on to remove the object that it
    was made on. -/
theorem finish_update_abort {st₀ : UpdateAttempt B} {abort : Abort B} (hx : db.content = some x)
    (h : store.try_update u ans st₀ (some (store.decode (stamped x))) = (st, .error abort)) :
    (finish_update store u ans db st (.error abort)).Holds store db [] := by
  rcases try_update_some h with ⟨e, he⟩ | hfrom
  · cases he
    exact finish_update_error
  · have hres := hfrom
    obtain ⟨_, _, _, _, _, _, _, htry⟩ := hres
    rcases try_existing_error htry with ⟨e, rfl⟩ | ⟨obj, rfl, hempty⟩
    · exact finish_update_error
    · exact ⟨rfl, ⟨x, hx, Cell.recorded_of_content hx, .emptied hfrom hempty⟩, trivial,
        fun _ => rfl⟩

theorem update_step_kept [DecidableEq B] {loop : Loop (UpdateAttempt B) B}
    (h : (Pc.updating u loop).Holds store db effects) :
    Kept store db effects (update_step store u loop ans db) := by
  obtain ⟨rfl, hheld⟩ := h
  have hstep := loop_step_spec (fun _ _ _ _ => trivial) ans hheld
  simp only [update_step, Kept, append_nil]
  refine ⟨?_, hstep.explained⟩
  revert hstep
  generalize loop_step store (store.update_loop u) ans db loop = out
  obtain ⟨next, db', effects⟩ := out
  intro hstep
  cases hstep with
  | go_on h => exact ⟨rfl, h⟩
  | failed => exact finish_update_error
  | aborted _ hx _ htry => exact finish_update_abort hx htry
  | aborted_none _ htry =>
    obtain ⟨e, rfl⟩ := try_update_none htry
    exact finish_update_error
  | dry hdry | dry_none hdry => exact update_dry hdry
  | kept hdry hx hatt =>
    obtain ⟨obj, hfrom, hsame⟩ := hatt.updated_from
    exact finished_one hdry (.kept hdry hfrom hsame.symm)
  | created hdry hnone htry =>
    obtain ⟨st₀, _, htry⟩ := htry
    exact finished_one hdry (.created hdry htry)
  | wrote hdry hold hatt hne =>
    obtain ⟨obj, hfrom, hnew⟩ := hatt.updated_from
    exact finished_one hdry (.wrote hdry hfrom hnew hne)

/-! ### Removals -/

/-- `storage_delete` goes on to delete when the object it read meets the
    preconditions, and not in a dry run. -/
theorem storage_delete_read_inr {name : String}
    {validate : Obj B → Except Error Unit} {dry_run : Bool} {current : Obj B}
    (h : storage_delete_read store name preconditions validate dry_run (fetch store ans db) =
      .inr current) :
    dry_run = false ∧ ∃ y, db.content = some y ∧ Meets preconditions (stamped y).metadata := by
  unfold storage_delete_read at h
  split at h
  · cases h
  · rename_i obj hgot
    obtain ⟨y, hy, rfl⟩ := fetch_ok hgot
    simp only at h
    split at h
    · cases h
    · rename_i hpass
      have hmeets := meets_of_check hpass
      rw [store.decode_metadata] at hmeets
      split at h
      · cases h
      · split_ifs at h with hdry
        exact ⟨by simpa using hdry, y, hy, hmeets⟩

theorem satisfies_of_meets {y : Versioned (Obj B)}
    (h : Meets preconditions (stamped y).metadata) : Satisfies preconditions effects y :=
  ⟨fun p u hp hu => h.uid p u hp hu, fun p v hp hv => .inl (h.version p v hp hv)⟩

theorem Satisfies.cons {y : Versioned (Obj B)}
    (h : Satisfies preconditions effects y) (e : Effect B) :
    Satisfies preconditions (e :: effects) y := by
  refine ⟨h.uid, fun p v hp hv => ?_⟩
  rcases h.version p v hp hv with hv | ⟨ans, old, hmem, hv⟩
  · exact .inl hv
  · exact .inr ⟨ans, old, .tail _ hmem, hv⟩

theorem Lawful.cons {e : Effect B} (h : Lawful store effects req e)
    (e' : Effect B) : Lawful store (e' :: effects) req e := by
  cases h with
  | create => exact .create
  | created hdry h => exact .created hdry h
  | wrote hdry hfrom hnew hne => exact .wrote hdry hfrom hnew hne
  | kept hdry hfrom hsame => exact .kept hdry hfrom hsame
  | mark h hnew => exact .mark h hnew
  | keep_mark => exact .keep_mark
  | gone hdry hseen h => exact .gone hdry hseen h
  | removed hdry hseen h hx hchecked hsat hy =>
    exact .removed hdry hseen h hx hchecked (hsat.cons e') hy

theorem lawful_removed {checked : Option (Versioned (Obj B))}
    {current : Obj B} (hx : Grounded store db req ground x)
    (hchecked : Checked db req.preconditions effects (.delete checked current))
    (hold : db.content = some old) (hdry : ∀ u, req = .update u → u.dry_run = false) :
    Lawful store (.removed ground checked old :: effects) req (.removed ground checked old) := by
  obtain ⟨hseen, hrec, hwarrant⟩ := hx
  obtain ⟨y, hy, hyrec, hsat⟩ := hchecked
  exact .removed hdry hseen hwarrant (hrec.eq_of_revision_eq hold) hy (hsat.cons _)
    (hyrec.eq_of_revision_eq hold)

theorem remove_effect_same (ground : Ground B) (checked : Option (Versioned (Obj B)))
    (db : Storage B) : remove_effect ground checked db db = [] := by
  unfold remove_effect
  cases db.content <;> rfl

theorem remove_effect_clear (ground : Ground B) (checked : Option (Versioned (Obj B)))
    (hold : db.content = some old) :
    remove_effect ground checked db db.clear = [.removed ground checked old] := by
  simp [remove_effect, hold, Cell.clear]

variable {obj : Obj B}

/-- An update that was about to remove an object, and removed nothing. -/
theorem finish_emptied_kept {result : Except Error Unit}
    (hx : Grounded store db (.update u) ground x) (hdry : result = .ok () → u.dry_run = true) :
    Kept store db [] (finish_emptied store u obj result, db, gone_effect ground u.dry_run result) := by
  cases result with
  | ok _ => exact kept_same (update_dry (hdry rfl))
  | error e =>
    cases e with
    | NotFound msg =>
      by_cases hd : u.dry_run = true
      · simp only [gone_effect, hd, if_true]
        exact kept_same (update_dry hd)
      · have hlive : u.dry_run = false := by simpa using hd
        simp only [gone_effect, hlive, Bool.false_eq_true, if_false]
        exact ⟨finished_one hlive (.gone hlive hx.1 hx.2.2), .gone⟩
    | _ => exact kept_same update_failed

/-- Where `storage_delete` ends at its read without an error, it is a dry run. -/
theorem storage_delete_read_ok {name : String} {validate : Obj B → Except Error Unit}
    {dry_run : Bool} {got : Except Error (Obj B)}
    (h : storage_delete_read store name preconditions validate dry_run got = .inl (.ok obj)) :
    dry_run = true := by
  unfold storage_delete_read at h
  split at h
  · cases h
  · simp only at h
    split at h
    · cases h
    · split at h
      · cases h
      · split_ifs at h with hdry
        exact hdry

theorem emptied_step_kept {removal : Removal B}
    (h : (Pc.emptied u obj ground removal).Holds store db effects) :
    Kept store db effects (emptied_step store u obj ground removal ans db) := by
  obtain ⟨rfl, ⟨x, hx⟩, hchecked, hdry⟩ := h
  cases removal with
  | check =>
    simp only [emptied_step]
    split
    · rename_i result hread
      refine finish_emptied_kept hx fun hok => ?_
      cases result with
      | error e => cases hok
      | ok => exact storage_delete_read_ok hread
    · rename_i current hread
      obtain ⟨hlive, y, hy, hmeets⟩ := storage_delete_read_inr hread
      refine kept_same ⟨rfl, ⟨x, hx⟩, ?_, fun hd => absurd hd (by simp [hlive])⟩
      exact ⟨y, hy, Cell.recorded_of_content hy, satisfies_of_meets hmeets⟩
  | delete checked =>
    simp only [emptied_step]
    have hlive : u.dry_run = false := by
      by_contra hd
      nomatch hdry (by simpa using hd)
    rcases delete_cases store.key ans db with ⟨e, hop⟩ | ⟨old, hold, hop⟩
    · simp only [hop, remove_effect_same, nil_append]
      exact finish_emptied_kept hx nofun
    · simp only [hop, remove_effect_clear ground checked hold]
      refine ⟨finished_one hlive ?_, .removed hold⟩
      refine lawful_removed hx hchecked hold fun u' hu => ?_
      cases hu
      exact hlive

/-! ### Deletes -/

section Deletes

variable {d : DeleteArgs B} {x : Versioned (Obj B)}

variable {m : ObjectMeta} {out : Obj B}

/-- Preconditions that were told the version of `out` still ask for the UID. -/
theorem refer_to_uid (h : Meets (refer_to preconditions out) m) (p : Preconditions) (u : String)
    (hp : preconditions = some p) (hu : p.uid = some u) : m.uid = u := by
  subst hp
  refine h.uid _ u rfl ?_
  dsimp only
  split_ifs <;> exact hu

/-- And for the version of `out`. -/
theorem refer_to_version
    (h : Meets (refer_to preconditions out) m) {p : Preconditions} {v w : String}
    (hp : preconditions = some p) (hv : p.resource_version = some v)
    (hw : out.metadata.resource_version = some w) : m.resource_version.getD "" = w := by
  subst hp
  refine h.version _ w rfl ?_
  simp only [hv, Option.isSome_some, if_true]
  exact hw

/-- The version of `out` is the one asked for. -/
theorem enforces_named (hout : InputOk d out) :
    Enforces d.options.preconditions effects x (refer_to d.options.preconditions out) := by
  intro y hmeets _
  refine ⟨fun p u hp hu => refer_to_uid hmeets p u hp hu, fun p v hp hv => .inl ?_⟩
  exact refer_to_version hmeets hp hv (hout p v hp hv)

variable {ans : Answers B} {dry_run : Bool}

/-- The object `x` was written by the request over one that met the preconditions. -/
theorem enforces_written (hout : out.metadata.resource_version = some (toString x.revision))
    (hwrote : .wrote ans old x ∈ effects)
    (hold : Meets d.options.preconditions (stamped old).metadata) :
    Enforces d.options.preconditions effects x (refer_to d.options.preconditions out) := by
  intro y hmeets hyx
  refine ⟨fun p u hp hu => refer_to_uid hmeets p u hp hu, fun p v hp hv => .inr ?_⟩
  have hrev : (toString y.revision : String) = toString x.revision :=
    refer_to_version hmeets hp hv hout
  obtain rfl := hyx (Text.toString_inj hrev)
  exact ⟨ans, old, hwrote, hold.version p v hp hv⟩

theorem input_ok_of_meets (h : Meets d.options.preconditions (stamped x).metadata)
    (hout : out.metadata.resource_version = some (toString x.revision)) : InputOk d out := by
  intro p v hp hv
  rw [hout]
  exact congrArg some (h.version p v hp hv)

variable (hmark : MarkedOnly effects) (hlaw : ∀ e ∈ effects, Lawful store effects (.delete d) e)
include hmark hlaw

theorem finished_marked : (Pc.finished (.delete d) result).Holds store db effects := by
  refine ⟨hlaw, ?_⟩
  cases result with
  | error e => exact hmark
  | ok => exact .inl hmark

theorem finish_delete_marked {vars : Deleting B} {result : Except Error (Obj B)} :
    (finish_delete store d vars ans result).Holds store db effects := by
  unfold finish_delete
  split <;> exact finished_marked hmark hlaw

variable {st : GracefulAttempt B} (hx : db.content = some x)
include hx

theorem go_remove_holds {ignore_not_found : Bool} {warrant : Warrant B}
    (hwarrant : Warranted store (.delete d) warrant x)
    (henf : Enforces d.options.preconditions effects x (refer_to d.options.preconditions out)) :
    (go_remove d db st out ignore_not_found warrant).Holds store db effects := by
  unfold go_remove
  split_ifs
  · exact finished_marked hmark hlaw
  · exact ⟨hmark, hlaw, ⟨x, ⟨hx, Cell.recorded_of_content hx, hwarrant⟩, henf⟩, trivial⟩

variable {input : Obj B}

/-- `delete` after a mark: the object stays, or can go. -/
theorem finish_mark_ok {options : DeleteOptions}
    (hwarrant : st.pending_finalizers = false → st.last_graceful ≤ 0 →
      Warranted store (.delete d) (if dry_run then .unmarked options else .marked) x)
    (henf : Enforces d.options.preconditions effects x (refer_to d.options.preconditions out)) :
    (finish_mark store d input dry_run options ans db st (.ok out)).Holds store db effects := by
  simp only [finish_mark, Bool.or_eq_true, decide_eq_true_eq]
  split
  · exact finished_marked hmark hlaw
  · rename_i hstay
    rw [not_or, Bool.not_eq_true, not_lt] at hstay
    exact go_remove_holds hmark hlaw hx (hwarrant hstay.1 hstay.2) henf

omit hmark hlaw hx

theorem gc_only_of_none (h : m.has_finalizers = false) : GcOnly m := by
  intro f hf
  rw [ObjectMeta.has_finalizers_eq_false.mp h] at hf
  nomatch hf

theorem reading_step_holds (ans : Answers B) : (reading_step store d ans db).Holds store db [] := by
  unfold reading_step
  cases hgot : fetch store ans db with
  | error e => exact delete_finished
  | ok obj =>
    obtain ⟨x, hx, rfl⟩ := fetch_ok hgot
    dsimp only
    cases hbefore : store.before_delete d ans (stamped x) d.options with
    | error e => exact delete_finished
    | ok decided =>
      obtain ⟨decision, obj, options⟩ := decided
      have hd : Decided d.strategy (stamped x) d.options decision obj options :=
        before_delete_decided hbefore
      dsimp only
      split_ifs with hpending hmark
      · exact delete_finished
      · -- the object is marked before it can go
        have hinput : InputOk d obj :=
          input_ok_of_meets (before_delete_meets hbefore) (hd.version.trans (stamped_version x))
        exact ⟨rfl, hinput, .decided .given hbefore⟩
      · simp only [Bool.or_eq_true, not_or, Bool.not_eq_true] at hmark
        obtain ⟨⟨hgraceful, hfin⟩, _⟩ := hmark
        have hlist : GcOnly x.value.metadata := by
          apply gc_only_of_none
          rw [← hfin]
          simp only [ObjectMeta.has_finalizers, hd.finalizers]
          rfl
        have hgrace := hd.not_graceful hgraceful (by simpa using hpending)
        exact ⟨.inl rfl, fun e he => absurd he not_mem_nil,
          ⟨x, ⟨hx, Cell.recorded_of_content hx, .unmarked (.inl rfl) .given hlist (.inl hgrace)⟩,
            fun _ hmeets _ => satisfies_of_meets hmeets⟩, trivial⟩

/-- What a mark comes to is computed from the object it was made on, and can go when
    neither finalizers nor grace are left. -/
theorem Attempted.marked {I : GracefulAttempt B → Prop} {updated : Obj B}
    (h : Attempted store (store.mark_loop d dry_run) I ans x st updated) :
    (∃ st₀ obj, store.try_mark d ans st₀ (store.decode (stamped x)) = (st, .ok obj) ∧
      updated = obj.with_version (some (toString x.revision))) ∧
    (st.pending_finalizers = false → st.last_graceful ≤ 0 →
      updated.metadata.has_finalizers = false ∧ NoGraceLeft updated.metadata) := by
  obtain ⟨st₀, obj, _, htry, hupdated⟩ := h.computed
  refine ⟨⟨st₀, obj, htry, hupdated⟩, fun hfin hgrace => ?_⟩
  have hspec := try_mark_spec store d ans st₀ (store.decode (stamped x))
  rw [show store.try_mark d ans st₀ (store.decode (stamped x)) = (st, .ok obj) from htry] at hspec
  obtain ⟨hnone, hleft, _⟩ := hspec.marked obj rfl hfin hgrace
  rw [hupdated]
  exact ⟨hnone, hleft⟩

theorem finish_mark_abort {st₀ : GracefulAttempt B} {abort : Abort B} (hinput : InputOk d input)
    (hasked : Asked store d st₀.options) (hx : db.content = some x)
    (h : store.try_mark d ans st₀ (store.decode (stamped x)) = (st, .error abort)) :
    (finish_mark store d input dry_run st₀.options ans db st (.error abort)).Holds store db [] := by
  have hspec := try_mark_spec store d ans st₀ (store.decode (stamped x))
  rw [h] at hspec
  cases abort with
  | Api e | EmptiedFinalizers obj | AlreadyDeleting => exact delete_finished
  | DeleteNow =>
    obtain ⟨hgc, hgrace⟩ := hspec.delete_now rfl
    rw [store.decode_metadata] at hgc
    exact go_remove_holds (.inl rfl) (fun e he => nomatch he) hx
      (.unmarked (.inr rfl) hasked hgc (.inl hgrace)) (enforces_named hinput)

theorem mark_step_kept [DecidableEq B] {loop : Loop (GracefulAttempt B) B}
    (h : (Pc.marking d input dry_run loop).Holds store db effects) :
    Kept store db effects (mark_step store d input dry_run loop ans db) := by
  obtain ⟨rfl, hinput, hheld⟩ := h
  have hasked : ∀ ans st current, Asked store d st.options →
      Asked store d ((store.mark_loop d dry_run).try_update ans st current).1.options := by
    intro ans st current hst
    cases current with
    | none => exact hst
    | some existing => exact (try_mark_spec store d ans st existing).asked hst
  have hstep := loop_step_spec hasked ans hheld
  simp only [mark_step, Kept, append_nil]
  refine ⟨?_, hstep.explained⟩
  revert hstep
  generalize loop_step store (store.mark_loop d dry_run) ans db loop = out
  obtain ⟨next, db', effects⟩ := out
  intro hstep
  cases hstep with
  | go_on h => exact ⟨rfl, hinput, h⟩
  | failed => exact delete_finished
  | aborted hst hx _ htry => exact finish_mark_abort hinput hst hx htry
  | aborted_none hnone | dry_none _ hnone => cases hnone
  | @dry st₀ st x obj hdry hst hx hm htry =>
    -- nothing is marked, but the strategy may have taken the dry run off the options
    have hspec := try_mark_spec store d ans st₀ (store.decode (stamped x))
    rw [show store.try_mark d ans st₀ (store.decode (stamped x)) = (st, .ok obj) from htry] at hspec
    have hversion := (hspec.version obj rfl).trans (store.decode_version x)
    refine finish_mark_ok (.inl rfl) (fun e he => nomatch he) hx ?_
      (enforces_named (input_ok_of_meets hm hversion))
    intro hfin hgrace
    obtain ⟨_, _, hgc, hdue⟩ := hspec.marked obj rfl hfin hgrace
    rw [store.decode_metadata] at hgc
    rw [if_pos (show dry_run = true from hdry)]
    exact .unmarked (.inr rfl) hst hgc hdue
  | @kept st₀ st x hdry hx hatt =>
    have hmark := hatt.marked
    refine finish_mark_ok (.inr (.inl ⟨_, _, rfl⟩)) (forall_mem_singleton.mpr .keep_mark) hx ?_
      (enforces_named (input_ok_of_meets hatt.meets (store.decode_version x)))
    intro hfin hgrace
    obtain ⟨hnone, hleft⟩ := hmark.2 hfin hgrace
    rw [store.decode_metadata] at hnone hleft
    rw [if_neg (Bool.eq_false_iff.mp (show dry_run = false from hdry))]
    exact .marked hnone hleft
  | created _ _ htry =>
    obtain ⟨_, _, htry⟩ := htry
    exact absurd (Prod.mk.inj htry).2 (by simp)
  | @wrote st a old updated current hdry hold hatt hne =>
    obtain ⟨⟨st₀, obj, htry, hupdated⟩, hgo⟩ := hatt.marked
    refine finish_mark_ok (.inr (.inr ⟨_, _, _, rfl⟩))
      (forall_mem_singleton.mpr (.mark htry hupdated)) rfl ?_
      (enforces_written (store.decode_version _) (mem_singleton.mpr rfl) hatt.meets)
    intro hfin hgrace
    obtain ⟨hnone, hleft⟩ := hgo hfin hgrace
    rw [if_neg (Bool.eq_false_iff.mp (show dry_run = false from hdry))]
    exact .marked hnone hleft

theorem deleting_step_kept {vars : Deleting B} {removal : Removal B}
    (h : (Pc.deleting d vars ground removal).Holds store db effects) :
    Kept store db effects (deleting_step store d vars ground removal ans db) := by
  obtain ⟨hmark, hlaw, ⟨x, hx, henf⟩, hchecked⟩ := h
  cases removal with
  | check =>
    simp only [deleting_step]
    split
    · exact kept_same (finish_delete_marked hmark hlaw)
    · rename_i current hread
      obtain ⟨_, y, hy, hmeets⟩ := storage_delete_read_inr hread
      have hsame : y.revision = x.revision → y = x :=
        fun heq => (hx.2.1.eq_of_revision_eq hy heq.symm).symm
      refine kept_same ⟨hmark, hlaw, ⟨x, hx, henf⟩, ?_⟩
      exact ⟨y, hy, Cell.recorded_of_content hy, henf y hmeets hsame⟩
  | delete checked =>
    simp only [deleting_step]
    rcases delete_cases store.key ans db with ⟨e, hop⟩ | ⟨old, hold, hop⟩
    · simp only [hop, remove_effect_same]
      exact kept_same (finish_delete_marked hmark hlaw)
    · simp only [hop, remove_effect_clear ground checked hold]
      refine ⟨⟨?_, .inr ⟨_, _, _, _, rfl, hmark⟩⟩, .removed hold⟩
      refine forall_mem_cons.mpr ⟨?_, fun e he => (hlaw e he).cons _⟩
      exact lawful_removed hx hchecked hold nofun

end Deletes

/-! ### Steps and runs -/

/-- A step of a request keeps its invariant. -/
theorem advance_kept [DecidableEq B] (ans : Answers B) (h : pc.Holds store db effects) :
    Kept store db effects (advance store pc ans db) := by
  cases pc with
  | idle | finished => exact kept_same h
  | creating c obj =>
    obtain rfl := h
    exact create_step_kept c obj ans
  | taken c msg =>
    obtain rfl := h
    exact kept_same create_finished
  | updating => exact update_step_kept h
  | emptied => exact emptied_step_kept h
  | reading d =>
    obtain rfl := h
    exact kept_same (reading_step_holds ans)
  | marking => exact mark_step_kept h
  | deleting => exact deleting_step_kept h

theorem begin_request_holds (req : Request B) (ans : Answers B) :
    (begin_request store req ans).Holds store db [] := by
  cases req with
  | create c => exact begin_create_holds c ans
  | update u => exact ⟨rfl, trivial⟩
  | delete d => rfl

/-- The invariant of all requests. -/
def Inv {R : Type} (store : Store B) (s : State R B) : Prop :=
  ∀ r, (s.pc r).Holds store s.db (s.effects r)

theorem inv_step {R : Type} [DecidableEq R] [DecidableEq B] {s s' : State R B} {lbl : Label R B}
    (h : Inv store s) (hstep : (registry store).step s lbl s') : Inv store s' := by
  intro q
  match lbl with
  | .start r req ans =>
    obtain ⟨hidle, rfl⟩ := hstep
    by_cases hq : q = r
    · subst hq
      have hnone : s.effects q = [] := by
        have hq := h q
        rw [hidle] at hq
        exact hq
      simp only [update_self, hnone]
      exact begin_request_holds req ans
    · simp only [update_of_ne hq]
      exact h q
  | .step r ans =>
    obtain rfl := hstep
    have hkept := advance_kept ans (h r)
    by_cases hq : q = r
    · subst hq
      simp only [update_self]
      exact hkept.1
    · -- the others only see the key change
      simp only [update_of_ne hq]
      exact (h q).next hkept.2.next
  | .elsewhere =>
    obtain rfl := hstep
    exact (h q).next .pass

/-- In every state reached, the invariant holds of every request. -/
theorem reachable_inv {R : Type} [DecidableEq R] [DecidableEq B] {s : State R B}
    (h : Reachable (registry store) s) : Inv store s := by
  refine h.invariant ?_ fun _ _ _ hinv hstep => inv_step hinv hstep
  rintro s ⟨hidle, hnone⟩ r
  rw [hidle, hnone]
  rfl

end Registry
