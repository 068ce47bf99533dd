import Rusternetes.Framework.Folds
import Rusternetes.Registry.Store

/-! # The Generic Registry: What the Callbacks Promise

    The callback of an update hands on the object it is given to the update's
    `UpdatedObjectInfo` and checks the version the answer names. It asks for a
    removal only when no finalizer is left on an object whose deletion is due. The
    callback of a delete asks for a removal only when no finalizer and no grace
    stand against it.
-/

open Common Framework

namespace Registry

variable {B : Type} (store : Store B)

/-! ### Updates -/

section Updates

variable (u : UpdateArgs)

/-- The old object as a `BeginUpdate` hook leaves its copy of it, if there is one. -/
def Presented (ans : Answers B) (existing old : Obj B) : Prop :=
  (ans.begin_update = none ∧ old = existing) ∨
    ∃ hook obj obj', ans.begin_update = some hook ∧ hook obj existing = .ok (obj', old)

/-- The update leaves `obj`, without finalizers, of an object whose deletion is due. -/
def Emptied (ans : Answers B) (existing obj : Obj B) : Prop :=
  obj.metadata.has_finalizers = false ∧
    ∃ old, Presented ans existing old ∧ old.metadata.deletion_timestamp.isSome = true ∧
      (old.metadata.deletion_grace_period_seconds = none ∨
        old.metadata.deletion_grace_period_seconds = some 0)

/-- The update, answered by `ans`, comes to `res` from the stored object `x`: the
    `UpdatedObjectInfo` is given `x`, and what it answers names no version or that of
    `x`. -/
def UpdatedFrom (ans : Answers B) (x : Versioned (Obj B)) (res : Except (Abort B) (Obj B)) : Prop :=
  ∃ given versioned v, ans.updated_object (some (store.decode (stamped x))) = .ok given ∧
    parse_resource_version store.debug given.metadata = .ok v ∧ (v = 0 ∨ v = x.revision) ∧
    (versioned = given ∨ versioned = given.with_version (some (toString x.revision))) ∧
    store.try_existing u ans versioned (store.decode (stamped x)) = res

variable {store u}

variable {obj : Obj B}

theorem check_version_ok {obj' : Obj B} {x : Versioned (Obj B)}
    (h : store.check_version u obj (store.decode (stamped x)) = .ok obj') :
    ∃ v, parse_resource_version store.debug obj.metadata = .ok v ∧ (v = 0 ∨ v = x.revision) ∧
      (obj' = obj ∨ obj' = obj.with_version (some (toString x.revision))) := by
  obtain ⟨v, hv, h⟩ := Folds.bind_eq_ok.mp h
  rw [Store.decode_version] at h
  split_ifs at h with hfree hzero
  · exact ⟨v, hv, .inl hfree.1, .inr (Except.ok.inj h).symm⟩
  · obtain ⟨w, hx, h⟩ := Folds.bind_eq_ok.mp h
    have hw : w = x.revision := by
      rw [parse_resource_version, Store.decode_version] at hx
      exact parse_revision (Folds.mapError_eq_ok.mp hx)
    split_ifs at h with hsame
    exact ⟨v, hv, .inr (hsame.trans hw), .inl (Except.ok.inj h).symm⟩

variable {ans : Answers B} {abort : Abort B}

theorem update_existing_error {old : Obj B} (h : store.update_existing u ans obj old = .error abort) :
    (∃ e, abort = .Api e) ∨ ∃ obj', abort = .EmptiedFinalizers obj' ∧
      should_delete_during_update obj' old = true := by
  unfold Store.update_existing at h
  split at h
  · exact .inl ⟨_, (Except.error.inj h).symm⟩
  · split at h
    · exact .inl ⟨_, (Except.error.inj h).symm⟩
    · split_ifs at h with hdelete
      simp only [Bool.and_eq_true] at hdelete
      exact .inr ⟨_, (Except.error.inj h).symm, hdelete.1⟩

theorem emptied_of_should_delete {existing old : Obj B} (hp : Presented ans existing old)
    (h : should_delete_during_update obj old = true) : Emptied ans existing obj := by
  simp only [should_delete_during_update, Bool.and_eq_true, Bool.not_eq_true', decide_eq_true_eq]
    at h
  exact ⟨h.1.1, old, hp, h.1.2, h.2⟩

theorem try_existing_error {existing : Obj B}
    (h : store.try_existing u ans obj existing = .error abort) :
    (∃ e, abort = .Api e) ∨ ∃ obj', abort = .EmptiedFinalizers obj' ∧ Emptied ans existing obj' := by
  unfold Store.try_existing at h
  split at h
  · rename_i hnone
    rcases update_existing_error h with hapi | ⟨obj', rfl, hdelete⟩
    · exact .inl hapi
    · exact .inr ⟨obj', rfl, emptied_of_should_delete (.inl ⟨hnone, rfl⟩) hdelete⟩
  · rename_i hook hhook
    split at h
    · exact .inl ⟨_, (Except.error.inj h).symm⟩
    · rename_i obj₁ old hcall
      rcases update_existing_error h with hapi | ⟨obj', rfl, hdelete⟩
      · exact .inl hapi
      · exact .inr ⟨obj', rfl,
          emptied_of_should_delete (.inr ⟨hook, obj, obj₁, hhook, hcall⟩) hdelete⟩

theorem try_update_some {st st' : UpdateAttempt B} {x : Versioned (Obj B)}
    {res : Except (Abort B) (Obj B)}
    (h : store.try_update u ans st (some (store.decode (stamped x))) = (st', res)) :
    (∃ e, res = .error (.Api e)) ∨ UpdatedFrom store u ans x res := by
  simp only [Store.try_update, Option.isNone_some, Bool.false_eq_true, false_and, if_false] at h
  split at h
  · exact .inl ⟨_, (Prod.mk.inj h).2.symm⟩
  · rename_i given hgiven
    split at h
    · exact .inl ⟨_, (Prod.mk.inj h).2.symm⟩
    · split at h
      · exact .inl ⟨_, (Prod.mk.inj h).2.symm⟩
      · rename_i versioned hcheck
        obtain ⟨v, hv, hcurrent, hversioned⟩ := check_version_ok hcheck
        exact .inr ⟨given, versioned, v, hgiven, hv, hcurrent, hversioned, (Prod.mk.inj h).2⟩

theorem create_on_update_error (h : store.create_on_update u ans obj = .error abort) :
    ∃ e, abort = .Api e := by
  unfold Store.create_on_update at h
  split at h
  · exact ⟨_, (Except.error.inj h).symm⟩
  · split at h
    · exact ⟨_, (Except.error.inj h).symm⟩
    · nomatch h

theorem try_update_none {st st' : UpdateAttempt B}
    (h : store.try_update u ans st none = (st', .error abort)) : ∃ e, abort = .Api e := by
  have hfail : ∀ {s : UpdateAttempt B} {e : Error}, (s, .error (.Api e)) =
      (st', (.error abort : Except (Abort B) (Obj B))) → ∃ e, abort = .Api e := by
    intro s e he
    exact ⟨e, (Except.error.inj (Prod.mk.inj he).2).symm⟩
  simp only [Store.try_update, Store.try_create] at h
  split_ifs at h with hallow
  · exact hfail h
  · split at h
    · exact hfail h
    · split at h
      · exact hfail h
      · split at h
        · exact create_on_update_error (Prod.mk.inj h).2
        · split at h
          · exact hfail h
          · exact create_on_update_error (Prod.mk.inj h).2

end Updates

/-! ### Deletes -/

section Deletes

variable (d : DeleteArgs B)

/-- All finalizers are those of the garbage collector. -/
def GcOnly (m : ObjectMeta) : Prop :=
  ∀ f ∈ m.finalizer_list, f = finalizer_orphan_dependents ∨ f = finalizer_delete_dependents

/-- The options of the request, as `before_delete` has changed them so far. -/
inductive Asked : DeleteOptions → Prop where
  | given : Asked d.options
  | decided {ans obj options decision obj' options'} (h : Asked options)
      (hd : store.before_delete d ans obj options = .ok (decision, obj', options')) : Asked options'

/-- What the callback of a delete promises. -/
structure MarkSpec (st st' : GracefulAttempt B) (existing : Obj B)
    (res : Except (Abort B) (Obj B)) : Prop where
  asked : Asked store d st.options → Asked store d st'.options
  /-- It asks for the removal of an object that nothing protects. -/
  delete_now : res = .error .DeleteNow →
    GcOnly existing.metadata ∧ NotGraceful d.strategy existing st.options
  /-- An object it leaves without finalizers and grace can go. -/
  marked : ∀ out, res = .ok out → st'.pending_finalizers = false → st'.last_graceful ≤ 0 →
    out.metadata.has_finalizers = false ∧ NoGraceLeft out.metadata ∧ GcOnly existing.metadata ∧
      NoGraceDue d.strategy existing st.options
  version : ∀ out, res = .ok out →
    out.metadata.resource_version = existing.metadata.resource_version
  not_emptied : ∀ obj, res ≠ .error (.EmptiedFinalizers obj)

variable {store d}

theorem collect_other (m : ObjectMeta) (options : DeleteOptions) :
    (store.collect d m options).deletion_timestamp = m.deletion_timestamp ∧
      (store.collect d m options).deletion_grace_period_seconds =
        m.deletion_grace_period_seconds ∧
      (store.collect d m options).resource_version = m.resource_version := by
  simp only [Store.collect, collect_finalizers]
  split_ifs <;> exact ⟨rfl, rfl, rfl⟩

theorem gc_only_of_collect {obj obj' : Obj B} {options options' : DeleteOptions}
    {decision : DeleteDecision} (hd : Decided d.strategy obj options decision obj' options')
    (h : (store.collect d obj'.metadata options').has_finalizers = false) : GcOnly obj.metadata := by
  have hgc := collect_finalizers_empty h
  have hlist : obj'.metadata.finalizer_list = obj.metadata.finalizer_list := by
    simp [ObjectMeta.finalizer_list, hd.finalizers]
  intro f hf
  exact hgc f (hlist ▸ hf)

theorem MarkSpec.of_error {st st' : GracefulAttempt B} {existing : Obj B} {abort : Abort B}
    (hasked : Asked store d st.options → Asked store d st'.options)
    (hnow : abort ≠ .DeleteNow) (hempty : ∀ obj, abort ≠ .EmptiedFinalizers obj) :
    MarkSpec store d st st' existing (.error abort) :=
  ⟨hasked, fun h => absurd (Except.error.inj h) hnow, fun _ h => absurd h (by simp),
    fun _ h => absurd h (by simp), fun obj h => hempty obj (Except.error.inj h)⟩

theorem try_mark_spec (store : Store B) (d : DeleteArgs B) (ans : Answers B)
    (st : GracefulAttempt B) (existing : Obj B) :
    MarkSpec store d st (store.try_mark d ans st existing).1 existing
      (store.try_mark d ans st existing).2 := by
  unfold Store.try_mark
  cases ans.delete_validation existing with
  | error e => exact .of_error id (by simp) (by simp)
  | ok _ =>
    cases hbefore : store.before_delete d ans existing st.options with
    | error e => exact .of_error id (by simp) (by simp)
    | ok decided =>
      obtain ⟨decision, obj, options⟩ := decided
      have hd : Decided d.strategy existing st.options decision obj options :=
        before_delete_decided hbefore
      have hasked : Asked store d st.options → Asked store d options := fun h => .decided h hbefore
      by_cases hpending : decision.graceful_pending = true
      · simp only [hpending, if_true]
        exact .of_error hasked (by simp) (by simp)
      · simp only [hpending, Bool.false_eq_true, if_false]
        by_cases hgraceful : decision.graceful = true
        · simp only [hgraceful, Bool.not_true, Bool.false_eq_true, if_false]
          refine ⟨hasked, by simp, ?_, ?_, by simp⟩
          case refine_2 =>
            rintro out hout
            cases hout
            exact (collect_other _ _).2.2.trans hd.version
          rintro out hout hfin hgrace
          cases hout
          have hleft : NoGraceLeft obj.metadata := by
            obtain ⟨hterm, p, q, hp, hq, hle⟩ := hd.graceful hgraceful
            refine ⟨hterm, fun p' hp' => ?_⟩
            rw [hp] at hp'
            cases hp'
            rw [hq] at hgrace
            exact hle hgrace
          refine ⟨hfin, ?_, gc_only_of_collect hd hfin, ?_⟩
          · simp only [NoGraceLeft, collect_other]
            exact hleft
          · exact .inr ⟨_, _, _, _, _, _, hbefore, hleft⟩
        · simp only [hgraceful, Bool.not_false, if_true]
          by_cases hfin : (store.collect d obj.metadata options).has_finalizers = true
          · simp only [hfin, if_true]
            refine ⟨hasked, by simp, fun _ _ h => absurd h (by simp), ?_, by simp⟩
            rintro out hout
            cases hout
            exact (collect_other _ _).2.2.trans hd.version
          · simp only [hfin, Bool.false_eq_true, if_false]
            refine ⟨hasked, fun _ => ⟨gc_only_of_collect hd (by simpa using hfin), ?_⟩,
              fun _ h => absurd h (by simp), fun _ h => absurd h (by simp), by simp⟩
            exact hd.not_graceful (by simpa using hgraceful) (by simpa using hpending)

end Deletes

end Registry
