import Rusternetes.Registry.Requests

/-! # The Generic Registry: What the Retry Loop Does

    `LoopStep` lists what one storage operation of `guaranteed_update` can do. A
    write of the loop lands on the object that its callback was given, since the
    storage compares revisions and a revision names one object for ever.
-/

open Common Framework LTS

namespace Registry

variable {B : Type}

/-! ### Reads and writes of the storage -/

theorem fetch_ok {store : Store B} {ans : Answers B} {db : Storage B} {obj : Obj B}
    (h : fetch store ans db = .ok obj) : ∃ x, db.content = some x ∧ obj = stamped x := by
  simp only [fetch, faulty, Storage.get] at h
  split at h
  · cases h
  · split at h
    · rename_i x hx
      exact ⟨x, hx, (Except.ok.inj h).symm⟩
    · cases h

variable (key : String) (ans : Answers B) (db : Storage B)

theorem faulty_cases {α : Type} (op : Except Error α × Storage B) :
    (∃ e, faulty ans db op = (.error e, db)) ∨ faulty ans db op = op := by
  unfold faulty
  cases ans.fault with
  | none => exact .inr rfl
  | some e => exact .inl ⟨e, rfl⟩

theorem create_cases (obj : Obj B) :
    (∃ e, faulty ans db (Storage.create key db obj) = (.error e, db)) ∨
      db.content = none ∧
        faulty ans db (Storage.create key db obj) = (.ok (db.written obj), db.put obj) := by
  rcases faulty_cases ans db (Storage.create key db obj) with h | h
  · exact .inl h
  · rw [h]
    exact Storage.create_cases key db obj

/-- A write of an object that names a version fails without effect, or replaces the
    object of that version. -/
theorem update_cases {obj : Obj B} {n : Nat}
    (hv : obj.metadata.resource_version = some (toString n)) :
    (∃ e, faulty ans db (Storage.update key db obj) = (.error e, db)) ∨
      ∃ x, db.content = some x ∧ x.revision = n ∧
        faulty ans db (Storage.update key db obj) = (.ok (db.written obj), db.put obj) := by
  rcases faulty_cases ans db (Storage.update key db obj) with h | h
  · exact .inl h
  · rw [h]
    rcases Storage.update_cases key db hv with ⟨_, hop⟩ | ⟨_, _, _, _, hop⟩ | hop
    · exact .inl ⟨_, hop⟩
    · exact .inl ⟨_, hop⟩
    · exact .inr hop

theorem delete_cases :
    (∃ e, faulty ans db (Storage.delete key db) = (.error e, db)) ∨
      ∃ x, db.content = some x ∧ faulty ans db (Storage.delete key db) = (.ok (), db.clear) := by
  rcases faulty_cases ans db (Storage.delete key db) with h | h
  · exact .inl h
  · rw [h]
    unfold Storage.delete
    cases hc : db.content with
    | none => exact .inl ⟨_, rfl⟩
    | some x => exact .inr ⟨x, rfl, rfl⟩

/-! ### Attempts -/

section Loops

variable {σ : Type} (store : Store B) (g : Guarded σ B) (I : σ → Prop)

/-- An attempt on the stored object `x`, answered by `ans`, that comes to `updated`.
    `I` holds of the state of the callback. -/
structure Attempted (ans : Answers B) (x : Versioned (Obj B)) (st : σ) (updated : Obj B) :
    Prop where
  meets : Meets g.preconditions (stamped x).metadata
  computed : ∃ st₀ obj, I st₀ ∧
    g.try_update ans st₀ (some (store.decode (stamped x))) = (st, .ok obj) ∧
      updated = obj.with_version (some (toString x.revision))

/-- What holds of a loop between two storage operations. -/
def Held (db : Storage B) : Loop σ B → Prop
  | .read st => I st
  | .create st ans updated => I st ∧ g.dry_run = false ∧
      ∃ st₀, I st₀ ∧ g.try_update ans st₀ none = (st, .ok updated)
  | .write st ans updated current => I st ∧ g.dry_run = false ∧
      ∃ x, db.Recorded x ∧ Attempted store g I ans x st updated ∧
        current = store.decode (stamped x) ∧ updated ≠ current

/-- What a storage operation of the loop can do: the loop, what follows, the storage
    and the effect. -/
inductive LoopStep (ans : Answers B) (db : Storage B) :
    Loop σ B → Next σ B → Storage B → List (Effect B) → Prop where
  | go_on {loop loop'} (h : Held store g I db loop') : LoopStep ans db loop (.again loop') db []
  | failed {loop st e} : LoopStep ans db loop (.out st (.error (.Api e))) db []
  | aborted {st₀ st x abort} (hI : I st₀) (hx : db.content = some x)
      (hm : Meets g.preconditions (stamped x).metadata)
      (h : g.try_update ans st₀ (some (store.decode (stamped x))) = (st, .error abort)) :
      LoopStep ans db (.read st₀) (.out st (.error abort)) db []
  | aborted_none {st₀ st abort} (hnone : g.ignore_not_found = true)
      (h : g.try_update ans st₀ none = (st, .error abort)) :
      LoopStep ans db (.read st₀) (.out st (.error abort)) db []
  | dry {st₀ st x obj} (hdry : g.dry_run = true) (hI : I st₀) (hx : db.content = some x)
      (hm : Meets g.preconditions (stamped x).metadata)
      (h : g.try_update ans st₀ (some (store.decode (stamped x))) = (st, .ok obj)) :
      LoopStep ans db (.read st₀) (.out st (.ok obj)) db []
  | dry_none {st₀ st obj} (hdry : g.dry_run = true) (hnone : g.ignore_not_found = true) :
      LoopStep ans db (.read st₀) (.out st (.ok obj)) db []
  | kept {st₀ st x} (hdry : g.dry_run = false) (hx : db.content = some x)
      (h : Attempted store g I ans x st (store.decode (stamped x))) :
      LoopStep ans db (.read st₀) (.out st (.ok (store.decode (stamped x)))) db [.kept ans x]
  | created {st a new} (hdry : g.dry_run = false) (hnone : db.content = none)
      (h : ∃ st₀, I st₀ ∧ g.try_update a st₀ none = (st, .ok new)) :
      LoopStep ans db (.create st a new)
        (.out st (.ok (store.decode (stamped ⟨new, db.last + 1⟩)))) (db.put new)
        [.created a ⟨new, db.last + 1⟩]
  | wrote {st a old updated current} (hdry : g.dry_run = false) (hold : db.content = some old)
      (h : Attempted store g I a old st updated)
      (hne : updated ≠ store.decode (stamped old)) :
      LoopStep ans db (.write st a updated current)
        (.out st (.ok (store.decode (stamped ⟨updated, db.last + 1⟩)))) (db.put updated)
        [.wrote a old ⟨updated, db.last + 1⟩]

variable {store g I}
variable (hI : ∀ ans st current, I st → I (g.try_update ans st current).1) {db : Storage B}
  {ans : Answers B} {loop : Loop σ B} {st₀ : σ}

include hI in
theorem attempt_step [DecidableEq B] {x : Versioned (Obj B)}
    (hst : I st₀) (hx : db.content = some x) :
    LoopStep store g I ans db (.read st₀) (attempt store g ans st₀ (some (store.decode (stamped x))))
      db (read_effect ans g.dry_run db
        (attempt store g ans st₀ (some (store.decode (stamped x))))) := by
  unfold attempt
  cases hc : check_preconditions g.preconditions (some (store.decode (stamped x))) with
  | some => exact .failed
  | none =>
    have hm : Meets g.preconditions (stamped x).metadata := by
      have := meets_of_check hc
      rwa [store.decode_metadata] at this
    have hnext := hI ans st₀ (some (store.decode (stamped x))) hst
    rcases htry : g.try_update ans st₀ (some (store.decode (stamped x))) with ⟨st, res⟩
    rw [htry] at hnext
    cases res with
    | error abort => exact .aborted hst hx hm htry
    | ok obj =>
      by_cases hdry : g.dry_run = true
      · simp only [hdry, if_true, read_effect]
        exact .dry hdry hst hx hm htry
      · have hdry' : g.dry_run = false := by simpa using hdry
        have hatt : Attempted store g I ans x st
            (obj.with_version (some (toString x.revision))) :=
          ⟨hm, st₀, obj, hst, htry, rfl⟩
        simp only [hdry', Store.decode_version]
        by_cases hsame : obj.with_version (some (toString x.revision)) = store.decode (stamped x)
        · rw [hsame] at hatt
          simp only [hsame, if_true, read_effect, hx, Bool.false_eq_true, if_false,
            Option.map_some, Option.toList_some]
          exact .kept hdry' hx hatt
        · simp only [hsame, if_false, Bool.false_eq_true]
          cases store.calculate_ttl (obj.with_version (some (toString x.revision))) 0 true with
          | error e => exact .failed
          | ok ttl =>
            exact .go_on ⟨hnext, hdry', x, Cell.recorded_of_content hx, hatt, rfl, hsame⟩

include hI in
theorem attempt_none_step [DecidableEq B] (hst : I st₀) (hnone : g.ignore_not_found = true) :
    LoopStep store g I ans db (.read st₀) (attempt store g ans st₀ none) db
      (read_effect ans g.dry_run db (attempt store g ans st₀ none)) := by
  unfold attempt
  cases check_preconditions g.preconditions (none : Option (Obj B)) with
  | some => exact .failed
  | none =>
    have hnext := hI ans st₀ none hst
    rcases htry : g.try_update ans st₀ none with ⟨st, res⟩
    rw [htry] at hnext
    cases res with
    | error abort => exact .aborted_none hnone htry
    | ok obj =>
      by_cases hdry : g.dry_run = true
      · simp only [hdry, if_true, read_effect]
        exact .dry_none hdry hnone
      · have hdry' : g.dry_run = false := by simpa using hdry
        simp only [hdry', Bool.false_eq_true, if_false]
        cases store.calculate_ttl obj 0 false with
        | error e => exact .failed
        | ok ttl => exact .go_on ⟨hnext, hdry', st₀, hst, htry⟩

include hI in
theorem after_read_step [DecidableEq B] (hst : I st₀) :
    LoopStep store g I ans db (.read st₀) (after_read store g ans st₀ (fetch store ans db)) db
      (read_effect ans g.dry_run db (after_read store g ans st₀ (fetch store ans db))) := by
  cases hgot : fetch store ans db with
  | ok obj =>
    obtain ⟨x, hx, rfl⟩ := fetch_ok hgot
    exact attempt_step hI hst hx
  | error e =>
    cases e with
    | NotFound msg =>
      unfold after_read
      split_ifs with hnone
      · exact attempt_none_step hI hst hnone
      · exact .failed
    | _ => exact .failed

theorem Attempted.version {x : Versioned (Obj B)} {st : σ} {updated : Obj B}
    (h : Attempted store g I ans x st updated) :
    updated.metadata.resource_version = some (toString x.revision) := by
  obtain ⟨_, _, _, _, rfl⟩ := h.computed
  rfl

theorem create_effect_same (ans : Answers B) (db : Storage B) : create_effect ans db db = [] := by
  unfold create_effect
  cases db.content <;> rfl

theorem write_effect_same (ans : Answers B) (db : Storage B) : write_effect ans db db = [] := by
  unfold write_effect
  cases db.content <;> simp

theorem write_effect_put (ans : Answers B) {old : Versioned (Obj B)} (obj : Obj B)
    (hold : db.content = some old) :
    write_effect ans db (db.put obj) = [.wrote ans old ⟨obj, db.last + 1⟩] := by
  have hlt : old.revision ≠ db.last + 1 := Nat.ne_of_lt (Nat.lt_succ_of_le (db.bound old hold))
  simp [write_effect, hold, Cell.put, if_neg hlt]

include hI in
theorem loop_step_spec [DecidableEq B] (ans : Answers B) (h : Held store g I db loop) :
    LoopStep store g I ans db loop (loop_step store g ans db loop).1
      (loop_step store g ans db loop).2.1 (loop_step store g ans db loop).2.2 := by
  cases loop with
  | read st => exact after_read_step hI h
  | create st a updated =>
    obtain ⟨hst, hdry, htry⟩ := h
    simp only [loop_step]
    rcases create_cases store.key ans db updated with ⟨e, hop⟩ | ⟨hnone, hop⟩
    · simp only [hop, create_effect_same]
      -- a storage operation that failed is retried or reported
      cases e with
      | AlreadyExists msg => exact .go_on hst
      | _ => exact .failed
    · have heff : create_effect a db (db.put updated) = [.created a ⟨updated, db.last + 1⟩] := by
        simp [create_effect, hnone, Cell.put]
      simp only [hop, heff]
      exact .created hdry hnone htry
  | write _ a updated =>
    obtain ⟨hst, hdry, x, hrec, hatt, rfl, hne⟩ := h
    simp only [loop_step]
    rcases update_cases store.key ans db hatt.version with ⟨e, hop⟩ | ⟨old, hold, hrev, hop⟩
    · simp only [hop, write_effect_same]
      cases e with
      | Conflict msg | NotFound msg => exact .go_on hst
      | _ => exact .failed
    · -- the compare-and-swap went through, so the object read is still there
      obtain rfl := hrec.eq_of_revision_eq hold hrev.symm
      simp only [hop, write_effect_put a updated hold]
      exact .wrote hdry hold hatt hne

/-- What holds of a loop holds after an operation of others. -/
theorem Held.next {db db' : Storage B} (h : Held store g I db loop)
    (hn : Cell.Next db db') : Held store g I db' loop := by
  cases loop with
  | read st | create st a updated => exact h
  | write =>
    obtain ⟨hst, hdry, x, hrec, hrest⟩ := h
    exact ⟨hst, hdry, x, hrec.next hn, hrest⟩

end Loops

end Registry
