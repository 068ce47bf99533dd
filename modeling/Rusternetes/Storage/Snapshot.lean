import Rusternetes.Storage.Memory

/-! # Earlier States of the In-Memory Storage

    Between writes that are run through, the storage is a journal: its data is what
    the writes that were sent on the bus add up to, and its history is the newest
    part of them, with what each replaced. So undoing the retained writes after a
    revision gives back what was stored at that revision.
-/

open Framework Common Function List Nat Journal

namespace Storage

/-! ### Runs of whole operations -/

/-- An operation, run through. -/
inductive Op where
  | call (req : Request)
  | compact_to (revision : Int)
  | inject_conflicts (n : Nat)

def Op.run (s : MemoryStorage) : Op → MemoryStorage
  | .call req => (complete s req).1
  | .compact_to revision => s.compact_to revision
  | .inject_conflicts n => s.inject_conflicts n

/-- The operations, one after the other. -/
def run (s : MemoryStorage) (ops : List Op) : MemoryStorage := ops.foldl Op.run s

/-- The state after the last of the operations whose revision is at most `r`. -/
def as_of (r : Int) (s : MemoryStorage) : List Op → MemoryStorage
  | [] => s
  | op :: ops => if r < (op.run s).revision then s else as_of r (op.run s) ops

/-! ### One operation -/

/-- A write that was recorded without another coming between. -/
def MemoryStorage.record (s : MemoryStorage) (event : WatchEvent) : MemoryStorage :=
  MemoryStorage.emit
    { s with revision := s.revision + 1, data := s.data.set event.key event.value }
    (s.revision + 1) event (s.data.lookup event.key)

/-- The same data, under the same revision, with the same history. -/
structure Unchanged (s s' : MemoryStorage) : Prop where
  data : s'.data = s.data
  revision : s'.revision = s.revision
  bus : s'.bus = s.bus
  history : s'.history = s.history

theorem Unchanged.refl (s : MemoryStorage) : Unchanged s s := ⟨rfl, rfl, rfl, rfl⟩

theorem advance_returned (n : Nat) (s : MemoryStorage) (answer : Except Error (Option Json)) :
    advance^[n] (s, .returned answer) = (s, .returned answer) := by
  induction n with
  | zero => rfl
  | succ n ih => exact ih

/-- Once the data is written under a new revision, the write is recorded. -/
theorem advance_commit (n : Nat) (s : MemoryStorage) (event : WatchEvent) (answer : Option Json) :
    advance^[n + 1]
      (commit { s with revision := s.revision + 1 } (s.revision + 1) event answer) =
      (s.record event, .returned (.ok answer)) := by
  exact advance_returned n _ _

/-- A call that is run through records one write, or changes nothing. -/
theorem complete_cases (s : MemoryStorage) (req : Request) :
    (∃ event, (complete s req).1 = s.record event) ∨ Unchanged s (complete s req).1 := by
  unfold complete
  rw [iterate_succ_apply]
  cases req with
  | create key value uid now =>
    by_cases hkey : (s.data.lookup key).isSome
    · have hstep : advance (s, .entered (.create key value uid now)) =
          (s, .returned (.error (.AlreadyExists key))) := if_pos hkey
      rw [hstep, advance_returned]
      exact .inr (.refl s)
    · -- the check passes, a revision is drawn, and the second check passes too
      have hstep : advance (advance (advance (s, .entered (.create key value uid now)))) =
          commit { s with revision := s.revision + 1 } (s.revision + 1)
            (.Added key (stamp (s.revision + 1) (fill_metadata value uid now)))
            (some (stamp (s.revision + 1) (fill_metadata value uid now))) := by
        simp [advance, Call.step, hkey]
      rw [iterate_succ_apply, iterate_succ_apply, hstep, advance_commit]
      exact .inl ⟨_, rfl⟩
  | update key value =>
    by_cases hcount : 0 < s.conflict_update_count
    · have hstep : advance (s, .entered (.update key value)) =
          ({ s with conflict_update_count := s.conflict_update_count - 1 },
            .returned (.error (.Conflict "injected conflict for test"))) := if_pos hcount
      rw [hstep, advance_returned]
      exact .inr ⟨rfl, rfl, rfl, rfl⟩
    · have hstep : advance (advance (s, .entered (.update key value))) =
          update_inner s key value := by
        simp [advance, Call.step, hcount]
      rw [iterate_succ_apply, hstep]
      rcases update_inner_cases s key value with ⟨e, he⟩ | ⟨stored, _, _, hwrite⟩
      · rw [he, advance_returned]
        exact .inr (.refl s)
      · rw [hwrite, advance_commit]
        exact .inl ⟨_, rfl⟩
  | update_raw key value =>
    by_cases hkey : (s.data.lookup key).isNone
    · have hstep : advance (s, .entered (.update_raw key value)) =
          (s, .returned (.error (.NotFound key))) := if_pos hkey
      rw [hstep, advance_returned]
      exact .inr (.refl s)
    · have hstep : advance (advance (advance (s, .entered (.update_raw key value)))) =
          commit { s with revision := s.revision + 1 } (s.revision + 1)
            (.Modified key (stamp (s.revision + 1) value)) none := by
        simp [advance, Call.step, hkey]
      rw [iterate_succ_apply, iterate_succ_apply, hstep, advance_commit]
      exact .inl ⟨_, rfl⟩
  | delete key preconditions =>
    have hstep : advance (s, .entered (.delete key preconditions)) =
        delete_inner s key preconditions := rfl
    rw [hstep]
    rcases delete_inner_cases s key preconditions with ⟨e, he⟩ | ⟨current, _, hwrite⟩
    · rw [he, advance_returned]
      exact .inr (.refl s)
    · rw [hwrite, advance_commit]
      exact .inl ⟨_, rfl⟩

/-- An operation records one write, or changes nothing. -/
theorem Op.run_cases (s : MemoryStorage) (op : Op) :
    (∃ event, op.run s = s.record event) ∨ Unchanged s (op.run s) := by
  cases op with
  | call req => exact complete_cases s req
  | compact_to revision | inject_conflicts n => exact .inr ⟨rfl, rfl, rfl, rfl⟩

/-! ### The journal -/

def write_of (e : Nat × WatchEvent) : Write String Json := ⟨e.1, e.2.key, e.2.value⟩

/-- The writes that were sent on the bus, newest first. -/
def MemoryStorage.journal (s : MemoryStorage) : List (Write String Json) :=
  (s.bus.map write_of).reverse

/-- All but the first `m` of the events sent are retained, each with what it replaced, and
    the floor is the highest revision of those. -/
structure Retains (h : History) (bus : List (Nat × WatchEvent)) (undo : List (Write String Json))
    (m : Nat) : Prop where
  le : m ≤ bus.length
  events : h.events = bus.drop m
  undo : h.undo = undo.drop m
  floor_le : ∀ e ∈ bus.take m, e.1 ≤ h.evicted_floor
  floor_mem : h.evicted_floor = 0 ∨ ∃ e ∈ bus.take m, e.1 = h.evicted_floor

section Retained

variable {h : History} {bus : List (Nat × WatchEvent)} {undo : List (Write String Json)}

theorem Retains.evict {m : Nat} (hr : Retains h bus undo m) (hlen : undo.length = bus.length) :
    ∃ m', Retains h.evict bus undo m' := by
  unfold History.evict
  split
  · next hnil =>
    -- nothing is retained, so there is nothing to drop
    have hle : bus.length ≤ m := by
      have := hr.events ▸ hnil
      exact drop_eq_nil_iff.mp this
    have hundo : h.undo = [] := by
      rw [hr.undo, drop_eq_nil_iff, hlen]
      exact hle
    exact ⟨m, hr.le, hr.events, by rw [hundo, ← hr.undo, hundo]; rfl, hr.floor_le, hr.floor_mem⟩
  · next rev event events hcons =>
    have hdrop : bus.drop m = (rev, event) :: events := by rw [← hr.events, hcons]
    have hlt : m < bus.length := by
      by_contra hge
      rw [drop_eq_nil_of_le (not_lt.mp hge)] at hdrop
      exact absurd hdrop (cons_ne_nil _ _).symm
    have htake : bus.take (m + 1) = bus.take m ++ [(rev, event)] := by
      rw [take_add_one, ← head?_drop, hdrop]
      rfl
    refine ⟨m + 1, hlt, ?_, ?_, ?_, ?_⟩
    · show events = bus.drop (m + 1)
      rw [← tail_drop, hdrop]
      rfl
    · show h.undo.drop 1 = undo.drop (m + 1)
      rw [hr.undo, drop_drop]
    · intro e he
      show e.1 ≤ max h.evicted_floor rev
      rw [htake, mem_append, mem_singleton] at he
      rcases he with he | rfl
      · exact le_trans (hr.floor_le e he) (le_max_left _ _)
      · exact le_max_right _ _
    · show max h.evicted_floor rev = 0 ∨ ∃ e ∈ bus.take (m + 1), e.1 = max h.evicted_floor rev
      rw [htake]
      -- the new floor is the old one or the revision that is dropped
      rcases le_total rev h.evicted_floor with hle | hle
      · rw [max_eq_left hle]
        exact hr.floor_mem.imp id fun ⟨e, he, heq⟩ => ⟨e, mem_append_left _ he, heq⟩
      · rw [max_eq_right hle]
        exact .inr ⟨(rev, event), mem_append_right _ (.head _), rfl⟩

theorem Retains.push {m : Nat} (hr : Retains h bus undo m) (hlen : undo.length = bus.length)
    (revision : Nat) (event : WatchEvent) (previous : Option Json) :
    ∃ m', Retains (h.push revision event previous) (bus ++ [(revision, event)])
      (undo ++ [⟨revision, event.key, previous⟩]) m' := by
  have hroom : ∃ m', Retains (if h.capacity ≤ h.events.length then h.evict else h) bus undo m' := by
    split
    · exact hr.evict hlen
    · exact ⟨m, hr⟩
  obtain ⟨m', hr'⟩ := hroom
  have htake : (bus ++ [(revision, event)]).take m' = bus.take m' :=
    take_append_of_le_length hr'.le
  refine ⟨m', ?_, ?_, ?_, ?_, ?_⟩
  · exact hr'.le.trans (by simp)
  · rw [drop_append_of_le_length hr'.le, ← hr'.events]
    rfl
  · rw [drop_append_of_le_length (hlen ▸ hr'.le), ← hr'.undo]
    rfl
  · rw [htake]
    exact hr'.floor_le
  · rw [htake]
    exact hr'.floor_mem

end Retained

/-- What holds between operations that are run through. -/
structure Coherent (s : MemoryStorage) : Prop where
  ordered : Journal.Ordered s.journal
  bounded : ∀ w ∈ s.journal, w.revision ≤ s.revision
  data : ∀ k, s.data.lookup k = Journal.state s.journal k
  retained : ∃ m, Retains s.history s.bus (Journal.undo s.journal).reverse m

theorem coherent_init (capacity : Nat) :
    Coherent (MemoryStorage.with_history_capacity capacity) where
  ordered := .nil
  bounded := nofun
  data := fun k => AList.lookup_empty k
  retained := ⟨0, Nat.le_refl 0, rfl, rfl, fun _ he => absurd he List.not_mem_nil, .inl rfl⟩

variable {s : MemoryStorage}

theorem Coherent.increasing (hs : Coherent s) :
    s.bus.Pairwise fun a b => a.1 < b.1 := by
  have h := hs.ordered
  unfold Ordered MemoryStorage.journal at h
  rw [pairwise_reverse, pairwise_map] at h
  exact h

theorem journal_record (s : MemoryStorage) (event : WatchEvent) :
    (s.record event).journal = ⟨s.revision + 1, event.key, event.value⟩ :: s.journal := by
  simp [MemoryStorage.journal, MemoryStorage.record, MemoryStorage.emit, write_of]

theorem Coherent.record (hs : Coherent s) (event : WatchEvent) :
    Coherent (s.record event) where
  ordered := by
    rw [journal_record]
    exact pairwise_cons.mpr ⟨fun w hw => lt_succ_of_le (hs.bounded w hw), hs.ordered⟩
  bounded := by
    rw [journal_record]
    exact forall_mem_cons.mpr ⟨le_rfl, fun w hw => le_succ_of_le (hs.bounded w hw)⟩
  data := by
    intro k
    have hdata : (fun k => s.data.lookup k) = state s.journal := funext hs.data
    rw [journal_record, state, ← hdata]
    exact Table.lookup_set s.data event.key event.value k
  retained := by
    obtain ⟨m, hr⟩ := hs.retained
    have hlen : (undo s.journal).reverse.length = s.bus.length := by
      simp [length_undo, MemoryStorage.journal]
    have hundo : (undo (s.record event).journal).reverse =
        (undo s.journal).reverse ++
          [⟨s.revision + 1, event.key, s.data.lookup event.key⟩] := by
      rw [journal_record, undo, reverse_cons, hs.data event.key]
    rw [hundo]
    exact hr.push hlen (s.revision + 1) event (s.data.lookup event.key)

theorem Unchanged.journal {s' : MemoryStorage} (h : Unchanged s s') : s'.journal = s.journal :=
  congrArg (fun b => (b.map write_of).reverse) h.bus

theorem Coherent.unchanged {s s' : MemoryStorage} (hs : Coherent s) (h : Unchanged s s') :
    Coherent s' := by
  constructor <;> rw [h.journal]
  · exact hs.ordered
  · rw [h.revision]
    exact hs.bounded
  · rw [h.data]
    exact hs.data
  · rw [h.bus, h.history]
    exact hs.retained

theorem Coherent.step (hs : Coherent s) (op : Op) : Coherent (op.run s) := by
  rcases op.run_cases s with ⟨event, he⟩ | hsame
  · rw [he]
    exact hs.record event
  · exact hs.unchanged hsame

theorem Coherent.run (hs : Coherent s) (ops : List Op) :
    Coherent (run s ops) := by
  induction ops generalizing s with
  | nil => exact hs
  | cons op ops ih => exact ih (hs.step op)

/-! ### The journal up to a revision -/

theorem revision_step (s : MemoryStorage) (op : Op) :
    (op.run s).revision = s.revision ∨ (op.run s).revision = s.revision + 1 := by
  rcases op.run_cases s with ⟨event, he⟩ | hsame
  · right
    rw [he]
    rfl
  · exact .inl hsame.revision

theorem run_append (s : MemoryStorage) (ops later : List Op) :
    run s (ops ++ later) = run (run s ops) later := List.foldl_append

theorem le_revision_run (s : MemoryStorage) (ops : List Op) :
    s.revision ≤ (run s ops).revision := by
  induction ops generalizing s with
  | nil => exact le_rfl
  | cons op ops ih =>
    have hnext := ih (op.run s)
    show s.revision ≤ (run (op.run s) ops).revision
    rcases revision_step s op with h | h <;> omega

theorem journal_run (s : MemoryStorage) (ops : List Op) :
    ∃ later, (run s ops).journal = later ++ s.journal ∧ ∀ w ∈ later, s.revision < w.revision := by
  induction ops generalizing s with
  | nil => exact ⟨[], rfl, nofun⟩
  | cons op ops ih =>
    obtain ⟨later, hlater, hlt⟩ := ih (op.run s)
    rcases op.run_cases s with ⟨event, he⟩ | hsame
    · rw [he] at hlater hlt
      refine ⟨later ++ [⟨s.revision + 1, event.key, event.value⟩], ?_, ?_⟩
      · show (Storage.run (op.run s) ops).journal = _
        rw [he, hlater, journal_record, append_assoc]
        rfl
      · exact forall_mem_append.mpr ⟨fun w hw => lt_of_succ_lt (hlt w hw),
          forall_mem_singleton.mpr (lt_succ_self _)⟩
    · exact ⟨later, hsame.journal ▸ hlater, hsame.revision ▸ hlt⟩

variable {r : Nat}

theorem upto_journal (hs : Coherent s) (hr : s.revision ≤ r) :
    Journal.upto r s.journal = s.journal :=
  upto_of_forall_le fun w hw => le_trans (hs.bounded w hw) hr

/-- Later operations do not change the journal up to a revision that was reached. -/
theorem upto_run (s : MemoryStorage) (hr : r ≤ s.revision) (ops : List Op) :
    Journal.upto r (run s ops).journal = Journal.upto r s.journal := by
  obtain ⟨later, hlater, hafter⟩ := journal_run s ops
  rw [hlater]
  apply dropWhile_append_of_pos
  intro w hw
  have hlt := hafter w hw
  simp only [decide_eq_true_eq]
  omega

/-- The journal up to `r` is that of the state as of `r`. -/
theorem upto_journal_run (hs : Coherent s) (hr : s.revision ≤ r) (ops : List Op) :
    Journal.upto r (run s ops).journal = (as_of r s ops).journal := by
  induction ops generalizing s with
  | nil => exact upto_journal hs hr
  | cons op ops ih =>
    unfold as_of
    split
    · next hlt =>
      -- this operation and all that follow are after `r`
      have hle : r ≤ s.revision := by
        rcases revision_step s op with h | h <;> omega
      rw [upto_run s hle, upto_journal hs hr]
    · next hle =>
      exact ih (hs.step op) (by exact_mod_cast Int.not_lt.mp hle)

/-! ### Lists at a revision -/

section Unwind

variable {pre k : String} {r : Nat}

/-- Under the prefix the loop undoes the writes after the revision. -/
theorem lookup_unwind (hk : Text.starts_with k pre = true) (us : List (Write String Json))
    (t : Table String Json) (f : String → Option Json) (hf : t.lookup k = f k) :
    (unwind pre r us t).lookup k = Journal.rewind r us f k := by
  induction us generalizing t f with
  | nil => exact hf
  | cons u us ih =>
    unfold unwind rewind
    by_cases hr : r < u.revision
    · rw [if_pos hr]
      by_cases hu : Text.starts_with u.key pre = true
      · rw [if_neg (by simp [hu]; omega)]
        apply ih
        rw [Table.lookup_set]
        by_cases hku : k = u.key
        · rw [hku, update_self, update_self]
        · rw [update_of_ne hku, update_of_ne hku, hf]
      · -- an entry outside the prefix is not about this key
        have hku : k ≠ u.key := by
          rintro rfl
          exact hu hk
        rw [if_pos (.inr (by simpa using hu))]
        apply ih
        rw [update_of_ne hku, hf]
    · rw [if_pos (.inl (by omega)), if_neg hr]
      exact ih t f hf

theorem lookup_unwind_outside (hk : Text.starts_with k pre = false)
    (us : List (Write String Json)) (t : Table String Json) (ht : t.lookup k = none) :
    (unwind pre r us t).lookup k = none := by
  induction us generalizing t with
  | nil => exact ht
  | cons u us ih =>
    unfold unwind
    split
    · exact ih t ht
    · next hu =>
      have hku : k ≠ u.key := by
        rintro rfl
        exact hu (.inr hk)
      apply ih
      rw [Table.lookup_set, update_of_ne hku, ht]

end Unwind

/-- If every write that is no longer retained is up to `r`, unwinding the retained ones
    gives what was stored as of `r`. -/
theorem rewind_history (hs : Coherent s) (hfloor : s.history.evicted_floor ≤ r) :
    Journal.rewind r s.history.undo.reverse (Journal.state s.journal) =
      Journal.state (Journal.upto r s.journal) := by
  obtain ⟨m, hr⟩ := hs.retained
  have hlen : (undo s.journal).length = s.bus.length := by
    simp [length_undo, MemoryStorage.journal]
  have hundo : s.history.undo.reverse = (undo s.journal).take (s.bus.length - m) := by
    rw [hr.undo, reverse_drop, reverse_reverse, length_reverse, hlen]
  rw [hundo]
  apply rewind_undo hs.ordered
  intro w hw
  have hdropped : s.journal.drop (s.bus.length - m) = ((s.bus.take m).map write_of).reverse := by
    rw [MemoryStorage.journal, drop_reverse, length_map, ← map_take,
      Nat.sub_sub_self hr.le]
  rw [hdropped, mem_reverse, mem_map] at hw
  obtain ⟨e, he, rfl⟩ := hw
  exact le_trans (hr.floor_le e he) hfloor

/-- The entries at a revision the history still covers. -/
theorem listing_unwind (hs : Coherent s) {t : MemoryStorage} (ht : Coherent t)
    (hfloor : s.history.evicted_floor ≤ r) (hupto : Journal.upto r s.journal = t.journal)
    (pre : String) :
    ((unwind pre r s.history.undo.reverse
      (s.data.filter fun key => Text.starts_with key pre)).listing fun _ => true) =
      t.matched pre := by
  apply Table.listing_ext
  intro k v
  cases hk : Text.starts_with k pre with
  | false =>
    have hnone : (unwind pre r s.history.undo.reverse
        (s.data.filter fun key => Text.starts_with key pre)).lookup k = none := by
      apply lookup_unwind_outside hk
      rw [Table.lookup_filter, hk]
      rfl
    simp [hnone]
  | true =>
    have hstart : (s.data.filter fun key => Text.starts_with key pre).lookup k =
        state s.journal k := by
      rw [Table.lookup_filter, if_pos hk, hs.data]
    rw [lookup_unwind hk _ _ _ hstart, rewind_history hs hfloor, hupto, ht.data]

theorem matched_congr {t : MemoryStorage} (hs : Coherent s) (ht : Coherent t)
    (h : s.journal = t.journal) (pre : String) : s.matched pre = t.matched pre := by
  apply Table.listing_ext
  intro k v
  rw [hs.data, ht.data, h]

/-- A floor above `r` is the revision of a write that was dropped from the history. -/
theorem exists_evicted (hs : Coherent s) (hfloor : r < s.history.evicted_floor) :
    ∃ e ∈ s.bus, r < e.1 ∧ e ∉ s.history.events := by
  obtain ⟨m, hr⟩ := hs.retained
  rcases hr.floor_mem with h0 | ⟨e, he, heq⟩
  · omega
  · have hsplit := hs.increasing
    rw [← take_append_drop m s.bus, pairwise_append] at hsplit
    refine ⟨e, mem_of_mem_take he, heq ▸ hfloor, ?_⟩
    rw [hr.events]
    intro hmem
    exact lt_irrefl _ (hsplit.2.2 e he e hmem)

theorem as_of_coherent (hs : Coherent s) (r : Int) (ops : List Op) : Coherent (as_of r s ops) := by
  induction ops generalizing s with
  | nil => exact hs
  | cons op ops ih =>
    unfold as_of
    split
    · exact hs
    · exact ih (hs.step op)

theorem matched_at_revision_cases (capacity : Nat) (ops : List Op) (pre : String) (hr : 1 ≤ r) :
    let init := MemoryStorage.with_history_capacity capacity
    let s := run init ops
    s.matched_at_revision pre r = .ok ((as_of r init ops).matched pre) ∨
    (∃ m, s.matched_at_revision pre r = .error (.Gone m)) ∧
      (r < s.history.evicted_floor ∨
        (0 < s.compacted_revision ∧ (r : Int) ≤ s.compacted_revision)) := by
  intro init s
  have hinit : Coherent init := coherent_init capacity
  have hs : Coherent s := hinit.run ops
  have ht : Coherent (as_of r init ops) := as_of_coherent hinit r ops
  have hupto : upto r s.journal = (as_of r init ops).journal :=
    upto_journal_run hinit hr ops
  unfold MemoryStorage.matched_at_revision
  split_ifs with hlive hgone
  · -- nothing was written after `r`
    left
    have hle : s.revision ≤ r := by omega
    rw [upto_journal hs hle] at hupto
    rw [matched_congr hs ht hupto]
  · exact .inr ⟨⟨_, rfl⟩, by exact_mod_cast hgone⟩
  · left
    push Not at hgone
    have hfloor : s.history.evicted_floor ≤ r := by exact_mod_cast hgone.1
    exact congrArg Except.ok (listing_unwind hs ht hfloor hupto pre)

/-- **A list at a revision is a snapshot**: it is what the list was after the last write up
    to the revision, or it is `Gone`; and it is `Gone` only if a later write was dropped from
    the history, or the revision is compacted. -/
theorem list_at_revision_is_snapshot (capacity : Nat) (ops : List Op) (pre : String) (r : Int)
    (hr : 1 ≤ r) :
    let init := MemoryStorage.with_history_capacity capacity
    let s := run init ops
    s.list_at_revision pre r = .ok ((as_of r init ops).list pre) ∨
    (∃ m, s.list_at_revision pre r = .error (.Gone m)) ∧
      ((∃ e ∈ s.bus, r < e.1 ∧ e ∉ s.history.events) ∨
        (0 < s.compacted_revision ∧ r ≤ s.compacted_revision)) := by
  intro init s
  obtain ⟨r, rfl⟩ := Int.eq_ofNat_of_zero_le (Int.one_nonneg.trans hr)
  have hs : Coherent s := (coherent_init capacity).run ops
  rcases matched_at_revision_cases capacity ops pre (by exact_mod_cast hr) with
    hok | ⟨⟨m, hm⟩, hwhy⟩
  · left
    show (s.matched_at_revision pre r).map _ = _
    rw [hok]
    rfl
  · right
    constructor
    · exact ⟨m, by show (s.matched_at_revision pre r).map _ = _; rw [hm]; rfl⟩
    · rcases hwhy with hfloor | hcompacted
      · obtain ⟨e, he, hlt, hnot⟩ := exists_evicted hs hfloor
        exact .inl ⟨e, he, by exact_mod_cast hlt, hnot⟩
      · exact .inr hcompacted

/-- An object whose history is one write long is created, replaced and deleted: before the
    delete it is as the update left it. -/
theorem list_at_revision_before_delete :
    let obj := fun n => Json.object [("metadata", .object [("name", .string n)])]
    let ops : List Op :=
      [.call (.create "/pods/a" (obj "a") "u" "t"), .call (.update "/pods/a" (obj "b")),
        .call (.delete "/pods/a" none)]
    1 ≤ (3 : Int) ∧
    (run (.with_history_capacity 1) ops).list_at_revision "/pods/" 3 =
      .ok ((as_of 3 (.with_history_capacity 1) ops).list "/pods/") := by
  intro obj ops
  refine ⟨by decide, ?_⟩
  rcases list_at_revision_is_snapshot 1 ops "/pods/" 3 (by decide) with h | ⟨⟨m, hm⟩, _⟩
  · exact h
  · have hok : ((run (.with_history_capacity 1) ops).list_at_revision "/pods/" 3).isOk = true := by
      decide +kernel
    rw [hm] at hok
    nomatch hok

end Storage
