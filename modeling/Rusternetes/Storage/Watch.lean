import Rusternetes.Storage.Snapshot

/-! # Watches of the In-Memory Storage

    A watch from a revision replays the retained events and goes on with what is sent
    on the bus from then on. A reader of the stream owes its consumer at every moment
    the events after the revision that it has not delivered: what is left to replay,
    and what is on the bus beyond its place there.
-/

open Framework Common List Journal

namespace Storage

/-! ### Streams -/

def DEFAULT_CAPACITY : Nat := 1000

/-- The slots of the broadcast channel, which are a power of two. -/
def ring : Nat := DEFAULT_CAPACITY.nextPowerOfTwo

/-- A watch: what it has yet to replay, the keys it is for, and how much of the bus it has
    received. -/
structure WatchStream where
  replay : List WatchEvent
  pre : String
  next : Nat
  deriving DecidableEq

def subscribe (s : MemoryStorage) (pre : String) : WatchStream :=
  { replay := [], pre, next := s.bus.length }

def MemoryStorage.watch (s : MemoryStorage) (pre : String) : WatchStream := subscribe s pre

def MemoryStorage.watch_from_revision (s : MemoryStorage) (pre : String) (revision : Int) :
    Except Error WatchStream :=
  if revision ≤ 0 then .ok (s.watch pre)
  else if revision ≤ s.history.evicted_floor ∨
      (0 < s.compacted_revision ∧ revision ≤ s.compacted_revision) then
    .error (.Gone ("too old resource version: " ++ toString revision ++ " (" ++
      toString (max (s.history.evicted_floor : Int) s.compacted_revision + 1) ++ ")"))
  else
    let live := subscribe s pre
    let replay := s.history.events.filter fun e =>
      decide (revision ≤ e.1) && Text.starts_with e.2.key pre
    .ok { live with replay := replay.map Prod.snd }

def lagged (missed : Nat) : Error :=
  .Storage ("watch event bus lagged by " ++ toString missed ++ " events; relist required")

/-- One round of the stream's loop: an item of the replay, or what the bus has next. A
    receiver that is a ring behind is told how much it missed. -/
def WatchStream.turn (w : WatchStream) (s : MemoryStorage) :
    WatchStream × Option (Except Error WatchEvent) :=
  match w.replay with
  | event :: replay => ({ w with replay }, some (.ok event))
  | [] =>
    match s.bus[w.next]? with
    | none => (w, none)
    | some (_, event) =>
      if w.next + ring < s.bus.length then
        ({ w with next := s.bus.length - ring },
          some (.error (lagged (s.bus.length - ring - w.next))))
      else
        ({ w with next := w.next + 1 },
          if Text.starts_with event.key w.pre then some (.ok event) else none)

structure Session where
  storage : MemoryStorage
  stream : WatchStream
  received : List (Except Error WatchEvent)

/-- What can happen next. -/
inductive Activity where
  | op (op : Op)
  | turn

def Session.step (c : Session) : Activity → Session
  | .op op => { c with storage := op.run c.storage }
  | .turn =>
    { c with
      stream := (c.stream.turn c.storage).1
      received := c.received ++ (c.stream.turn c.storage).2.toList }

def Session.run (c : Session) (acts : List Activity) : Session := acts.foldl Session.step c

/-- The watch has nothing more to yield. -/
def Session.Drained (c : Session) : Prop :=
  c.stream.replay = [] ∧ c.storage.bus.length ≤ c.stream.next

instance (c : Session) : Decidable c.Drained := inferInstanceAs (Decidable (_ ∧ _))

/-- Apply events in turn: `Added` and `Modified` set the key, `Deleted` removes it. -/
def apply_events (events : List WatchEvent) (contents : String → Option Json) :
    String → Option Json :=
  events.foldl (fun contents event => Function.update contents event.key event.value) contents

/-! ### What a watch owes -/

/-- The event is after the revision and under the prefix. -/
def wanted (r : Nat) (pre : String) (e : Nat × WatchEvent) : Bool :=
  decide (r < e.1) && Text.starts_with e.2.key pre

/-- What was yielded and what is owed are the wanted events, in order. -/
structure Owes (r : Nat) (pre : String) (c : Session) (seen : List WatchEvent) : Prop where
  received : c.received = seen.map .ok
  under : c.stream.pre = pre
  next_le : c.stream.next ≤ c.storage.bus.length
  /-- All that the watch has not received is after the revision. -/
  after : ∀ e ∈ c.storage.bus.drop c.stream.next, r < e.1
  events : seen ++ c.stream.replay ++
      ((c.storage.bus.drop c.stream.next).filter (wanted r pre)).map Prod.snd =
    (c.storage.bus.filter (wanted r pre)).map Prod.snd

section Owed

variable {r : Nat} {pre : String} {c : Session} {seen : List WatchEvent}

theorem owes_init {s : MemoryStorage} (hs : Coherent s) {stream : WatchStream}
    (h : s.watch_from_revision pre (r + 1) = .ok stream) : Owes r pre ⟨s, stream, []⟩ [] := by
  unfold MemoryStorage.watch_from_revision at h
  rw [if_neg (by omega)] at h
  split at h
  · cases h
  · next hgone =>
    have heq := Except.ok.inj h
    subst heq
    refine ⟨rfl, rfl, le_rfl, ?_, ?_⟩
    · show ∀ e ∈ s.bus.drop s.bus.length, r < e.1
      simp
    · obtain ⟨m, hr⟩ := hs.retained
      -- no event that was dropped from the history is wanted
      have hdropped : (s.bus.take m).filter (wanted r pre) = [] := by
        rw [filter_eq_nil_iff]
        intro e he hwanted
        have hle := hr.floor_le e he
        simp only [wanted, Bool.and_eq_true, decide_eq_true_eq] at hwanted
        omega
      have hsplit : s.bus.filter (wanted r pre) = s.history.events.filter (wanted r pre) := by
        rw [hr.events]
        conv => lhs; rw [← take_append_drop m s.bus]
        rw [filter_append, hdropped, nil_append]
      have hsame : (fun e : Nat × WatchEvent =>
          decide ((r : Int) + 1 ≤ e.1) && Text.starts_with e.2.key pre) = wanted r pre := by
        funext e
        congr 1
        simp only [decide_eq_decide]
        omega
      simp only [subscribe, hsame]
      rw [hsplit]
      simp

theorem Owes.op (h : Owes r pre c seen) (hr : r ≤ c.storage.revision)
    (op : Op) : Owes r pre (c.step (.op op)) seen := by
  rcases op.run_cases c.storage with ⟨event, he⟩ | hsame
  · -- the new event comes after all others, and after the revision
    have hbus : (op.run c.storage).bus = c.storage.bus ++ [(c.storage.revision + 1, event)] := by
      rw [he]
      rfl
    have hdrop : (op.run c.storage).bus.drop c.stream.next =
        c.storage.bus.drop c.stream.next ++ [(c.storage.revision + 1, event)] := by
      rw [hbus, drop_append_of_le_length h.next_le]
    refine ⟨h.received, h.under, ?_, ?_, ?_⟩
    · show c.stream.next ≤ (op.run c.storage).bus.length
      rw [hbus, length_append]
      exact Nat.le_add_right_of_le h.next_le
    · show ∀ e ∈ (op.run c.storage).bus.drop c.stream.next, r < e.1
      rw [hdrop]
      exact forall_mem_append.mpr
        ⟨h.after, forall_mem_singleton.mpr (Nat.lt_succ_of_le hr)⟩
    · show seen ++ c.stream.replay ++
        (((op.run c.storage).bus.drop c.stream.next).filter (wanted r pre)).map Prod.snd =
        ((op.run c.storage).bus.filter (wanted r pre)).map Prod.snd
      rw [hdrop, hbus, filter_append, filter_append, map_append, map_append,
        ← h.events, append_assoc]
      simp [append_assoc]
  · have hbus : (op.run c.storage).bus = c.storage.bus := hsame.bus
    refine ⟨h.received, h.under, ?_, ?_, ?_⟩
    · exact hbus.symm ▸ h.next_le
    · exact hbus.symm ▸ h.after
    · exact hbus.symm ▸ h.events

theorem step_turn {w : WatchStream} {item : Option (Except Error WatchEvent)}
    (h : c.stream.turn c.storage = (w, item)) :
    c.step .turn = ⟨c.storage, w, c.received ++ item.toList⟩ := by
  unfold Session.step
  rw [h]

theorem Owes.turn (h : Owes r pre c seen) :
    (∃ e, .error e ∈ (c.step .turn).received) ∨ ∃ seen', Owes r pre (c.step .turn) seen' := by
  cases hreplay : c.stream.replay with
  | cons event replay =>
    have hturn : c.stream.turn c.storage = ({ c.stream with replay }, some (.ok event)) := by
      simp [WatchStream.turn, hreplay]
    rw [step_turn hturn]
    right
    refine ⟨seen ++ [event], ?_, h.under, h.next_le, h.after, ?_⟩
    · simp [h.received]
    · rw [← h.events, hreplay]
      simp
  | nil =>
    cases hnext : c.storage.bus[c.stream.next]? with
    | none =>
      -- it waits
      have hturn : c.stream.turn c.storage = (c.stream, none) := by
        simp [WatchStream.turn, hreplay, hnext]
      rw [step_turn hturn]
      right
      exact ⟨seen, by simp [h.received], h.under, h.next_le, h.after, h.events⟩
    | some e =>
      by_cases hlag : c.stream.next + ring < c.storage.bus.length
      · left
        refine ⟨lagged (c.storage.bus.length - ring - c.stream.next), ?_⟩
        simp only [Session.step, WatchStream.turn, hreplay, hnext, if_pos hlag]
        exact mem_append_right _ (.head _)
      · right
        have hturn : c.stream.turn c.storage = ({ c.stream with next := c.stream.next + 1 },
            if Text.starts_with e.2.key c.stream.pre then some (.ok e.2) else none) := by
          simp only [WatchStream.turn, hreplay, hnext, if_neg hlag]
        rw [step_turn hturn]
        have hlt : c.stream.next < c.storage.bus.length := (List.getElem?_eq_some_iff.mp hnext).1
        have hdrop : c.storage.bus.drop c.stream.next =
            e :: c.storage.bus.drop (c.stream.next + 1) := by
          rw [List.drop_eq_getElem_cons hlt, (List.getElem?_eq_some_iff.mp hnext).2]
        have hafter : r < e.1 := h.after e (by rw [hdrop]; exact .head _)
        have hrest : ∀ e ∈ c.storage.bus.drop (c.stream.next + 1), r < e.1 := fun e he =>
          h.after e (by rw [hdrop]; exact .tail _ he)
        have hevents := h.events
        rw [hdrop, hreplay, append_nil] at hevents
        by_cases hpre : Text.starts_with e.2.key pre = true
        · refine ⟨seen ++ [e.2], ?_, h.under, hlt, hrest, ?_⟩
          · simp [h.received, h.under, hpre]
          · rw [← hevents, filter_cons_of_pos (by simp [wanted, hafter, hpre])]
            simp [hreplay]
        · refine ⟨seen, ?_, h.under, hlt, hrest, ?_⟩
          · simp [h.received, h.under, hpre]
          · rw [← hevents, filter_cons_of_neg (by simp [wanted, hpre])]
            simp [hreplay]

theorem received_step (c : Session) (act : Activity) {x : Except Error WatchEvent}
    (hx : x ∈ c.received) : x ∈ (c.step act).received := by
  cases act with
  | op op => exact hx
  | turn => exact mem_append_left _ hx

theorem received_run (c : Session) (acts : List Activity) {x : Except Error WatchEvent}
    (hx : x ∈ c.received) : x ∈ (c.run acts).received := by
  induction acts generalizing c with
  | nil => exact hx
  | cons act acts ih => exact ih (c.step act) (received_step c act hx)

/-- As long as no error is yielded, what was yielded and what is owed are the wanted events. -/
theorem Owes.run (h : Owes r pre c seen) (hr : r ≤ c.storage.revision) (acts : List Activity)
    (hok : ∀ x ∈ (c.run acts).received, x.isOk = true) :
    ∃ seen', Owes r pre (c.run acts) seen' := by
  induction acts generalizing c seen with
  | nil => exact ⟨seen, h⟩
  | cons act acts ih =>
    cases act with
    | op op =>
      have hr' : r ≤ (op.run c.storage).revision := by
        rcases revision_step c.storage op with heq | heq <;> omega
      exact ih (h.op hr op) hr' hok
    | turn =>
      rcases h.turn with ⟨e, he⟩ | ⟨seen', h'⟩
      · nomatch hok _ (received_run _ acts he)
      · exact ih h' hr hok

end Owed

/-! ### List, then watch -/

theorem apply_events_eq_replay (es : List (Nat × WatchEvent)) (f : String → Option Json) :
    apply_events (es.map Prod.snd) f = Journal.replay (es.map write_of) f := by
  induction es generalizing f with
  | nil => rfl
  | cons e es ih => exact ih _

theorem session_storage (c : Session) (acts : List Activity) :
    ∃ ops, (c.run acts).storage = run c.storage ops := by
  induction acts generalizing c with
  | nil => exact ⟨[], rfl⟩
  | cons act acts ih =>
    obtain ⟨ops, hops⟩ := ih (c.step act)
    cases act with
    | op op => exact ⟨op :: ops, hops⟩
    | turn => exact ⟨ops, hops⟩

theorem map_wanted {s : MemoryStorage} (hs : Coherent s) (r : Nat) (pre : String) :
    (s.bus.filter (wanted r pre)).map write_of =
      (Journal.since r s.journal).reverse.filter fun w => Text.starts_with w.key pre := by
  rw [since_eq_filter hs.ordered, MemoryStorage.journal, filter_reverse,
    filter_reverse, filter_reverse, reverse_reverse, filter_map,
    filter_map, filter_filter]
  congr 2
  funext e
  exact Bool.and_comm _ _

/-- The wanted events lead from what was stored at the revision to what is stored, also if
    some keys that they are about were written before. -/
theorem apply_wanted {s t : MemoryStorage} (hs : Coherent s) (ht : Coherent t) {r : Nat}
    (hstart : ∀ k, Journal.state t.journal k = Journal.state (Journal.upto r s.journal) k ∨
      ∃ w ∈ Journal.since r s.journal, w.key = k) (pre : String) :
    apply_events ((s.bus.filter (wanted r pre)).map Prod.snd) (fun k => (t.matched pre).lookup k) =
      fun k => if Text.starts_with k pre then s.data.lookup k else none := by
  rw [apply_events_eq_replay, map_wanted hs]
  funext k
  have hlookup : (t.matched pre).lookup k =
      if Text.starts_with k pre then t.data.lookup k else none := Table.lookup_listing _ _ _
  split_ifs at hlookup ⊢ with hk
  · rw [replay_filter (p := fun k => Text.starts_with k pre) hk, hs.data,
      ← replay_since r s.journal]
    rcases hstart k with hsame | ⟨w, hw, hwk⟩
    · apply replay_congr
      rw [hlookup, ht.data, hsame]
    · exact replay_of_mem ⟨w, mem_reverse.mpr hw, hwk⟩ _ _
  · rw [replay_of_not_mem, hlookup]
    intro w hw hwk
    have hpre := (mem_filter.mp hw).2
    rw [hwk] at hpre
    exact hk hpre

/-- At revision zero the list is the live one, and the events are all there ever were: a key
    that none of them is about was never written. -/
theorem live_start (capacity : Nat) (ops later : List Op) (k : String) :
    let t := run (.with_history_capacity capacity) ops
    let s := run (.with_history_capacity capacity) (ops ++ later)
    Journal.state t.journal k = Journal.state (Journal.upto 0 s.journal) k ∨
      ∃ w ∈ Journal.since 0 s.journal, w.key = k := by
  intro t s
  have hpos : ∀ w ∈ s.journal, decide (0 < w.revision) = true := by
    intro w hw
    -- all that was ever written has a revision above one
    obtain ⟨new, hnew, habove⟩ := journal_run (.with_history_capacity capacity) (ops ++ later)
    rw [show s.journal = new ++ [] from hnew, append_nil] at hw
    have hlt := habove w hw
    simp only [decide_eq_true_eq]
    omega
  have hsince : since 0 s.journal = s.journal := takeWhile_eq_self_iff.mpr hpos
  have hupto : upto 0 s.journal = [] := dropWhile_eq_nil_iff.mpr hpos
  by_cases hk : ∃ w ∈ s.journal, w.key = k
  · right
    rw [hsince]
    exact hk
  · left
    push Not at hk
    obtain ⟨new, hnew, _⟩ := journal_run t later
    have hs : s.journal = new ++ t.journal := by
      show (run _ (ops ++ later)).journal = _
      rw [run_append, hnew]
    rw [hupto, state_of_not_mem]
    · rfl
    · intro w hw
      exact hk w (by rw [hs]; exact mem_append_right _ hw)

theorem list_start (capacity : Nat) (ops later : List Op) (pre : String) {r : Nat}
    {entries : List (String × Json)}
    (hreached : r ≤ (run (.with_history_capacity capacity) ops).revision)
    (hlist : (run (.with_history_capacity capacity) ops).matched_at_revision pre r = .ok entries) :
    ∃ t, Coherent t ∧ entries = t.matched pre ∧
      ∀ k, Journal.state t.journal k =
          Journal.state (Journal.upto r
            (run (.with_history_capacity capacity) (ops ++ later)).journal) k ∨
        ∃ w ∈ Journal.since r (run (.with_history_capacity capacity) (ops ++ later)).journal,
          w.key = k := by
  have hinit := coherent_init capacity
  rcases Nat.eq_zero_or_pos r with rfl | hpos
  · refine ⟨run (.with_history_capacity capacity) ops, hinit.run ops, ?_,
      live_start capacity ops later⟩
    unfold MemoryStorage.matched_at_revision at hlist
    exact (Except.ok.inj hlist).symm
  · refine ⟨as_of r (.with_history_capacity capacity) ops, as_of_coherent hinit r ops, ?_, ?_⟩
    · rcases matched_at_revision_cases capacity ops pre hpos with hok | ⟨⟨m, hm⟩, _⟩
      · exact Except.ok.inj (hlist.symm.trans hok)
      · nomatch hlist.symm.trans hm
    · intro k
      left
      rw [run_append, upto_run _ hreached, upto_journal_run hinit hpos]

/-- **List, then watch**: take the list at a revision that was reached, then watch from the
    next revision. When the watch has nothing more to yield, and has not yielded an error, it
    has yielded the events under the prefix after the revision, each once and in order, and
    applying them to the list gives what is stored under the prefix. -/
theorem list_then_watch (capacity : Nat) (ops later : List Op) (acts : List Activity)
    (pre : String) (r : Int) (entries : List (String × Json)) (stream : WatchStream)
    (hr : 0 ≤ r) (hreached : r ≤ (run (.with_history_capacity capacity) ops).revision)
    (hlist : (run (.with_history_capacity capacity) ops).matched_at_revision pre r = .ok entries)
    (hwatch : (run (.with_history_capacity capacity) (ops ++ later)).watch_from_revision pre
      (r + 1) = .ok stream)
    (hdrained : Session.Drained (Session.run
      ⟨run (.with_history_capacity capacity) (ops ++ later), stream, []⟩ acts))
    (hok : ∀ x ∈ (Session.run
      ⟨run (.with_history_capacity capacity) (ops ++ later), stream, []⟩ acts).received,
      x.isOk = true) :
    let c := Session.run ⟨run (.with_history_capacity capacity) (ops ++ later), stream, []⟩ acts
    let events := (c.storage.bus.filter fun e =>
      decide (r < e.1) && Text.starts_with e.2.key pre).map Prod.snd
    c.received = events.map .ok ∧
    apply_events events (fun k => entries.lookup k) =
      fun k => if Text.starts_with k pre then c.storage.data.lookup k else none := by
  intro c events
  obtain ⟨r, rfl⟩ := Int.eq_ofNat_of_zero_le hr
  have hs : Coherent (run (.with_history_capacity capacity) (ops ++ later)) :=
    (coherent_init capacity).run _
  have hle : r ≤ (run (.with_history_capacity capacity) (ops ++ later)).revision := by
    rw [run_append]
    exact Nat.le_trans (by exact_mod_cast hreached) (le_revision_run _ later)
  -- what the watch has yielded
  obtain ⟨seen, howes⟩ := (owes_init hs hwatch).run hle acts hok
  have hevents : events = (c.storage.bus.filter (wanted r pre)).map Prod.snd := by
    show (c.storage.bus.filter _).map Prod.snd = _
    congr 2
    funext e
    simp [wanted]
  have hseen : seen = events := by
    have h := howes.events
    rw [hdrained.1, drop_eq_nil_of_le hdrained.2] at h
    rw [hevents, ← h]
    simp
  constructor
  · rw [howes.received, hseen]
  · -- what the list started from
    obtain ⟨all, hall⟩ := session_storage
      ⟨run (.with_history_capacity capacity) (ops ++ later), stream, []⟩ acts
    have hstorage : c.storage = run (.with_history_capacity capacity) (ops ++ (later ++ all)) := by
      rw [← append_assoc, run_append]
      exact hall
    obtain ⟨t, ht, rfl, hstart⟩ := list_start capacity ops (later ++ all) pre
      (by exact_mod_cast hreached) hlist
    rw [← hstorage] at hstart
    rw [hevents]
    exact apply_wanted (hstorage ▸ (coherent_init capacity).run _) ht hstart pre

/-- The list of two keys at revision three, one of them since replaced and the other
    deleted. -/
theorem list_then_watch_two_keys :
    let obj := fun n => Json.object [("metadata", .object [("name", .string n)])]
    let ops : List Op :=
      [.call (.create "/pods/a" (obj "a") "u" "t"), .call (.create "/pods/b" (obj "b") "u" "t"),
        .call (.update "/pods/a" (obj "c"))]
    let s := run (.with_history_capacity 2) ops
    ∃ entries stream, s.matched_at_revision "/pods/" 3 = .ok entries ∧
      s.watch_from_revision "/pods/" (3 + 1) = .ok stream ∧
      let c := Session.run ⟨s, stream, []⟩ [.turn, .op (.call (.delete "/pods/b" none)), .turn]
      apply_events ((c.storage.bus.filter fun e =>
          decide ((3 : Int) < e.1) && Text.starts_with e.2.key "/pods/").map Prod.snd)
          (fun k => entries.lookup k) =
        fun k => if Text.starts_with k "/pods/" then c.storage.data.lookup k else none := by
  intro obj ops s
  let named := fun n rv => Json.object [("metadata", .object
    [("creationTimestamp", .string "t"), ("name", .string n), ("resourceVersion", .string rv),
      ("uid", .string "u")])]
  refine ⟨[("/pods/a", named "a" "2"), ("/pods/b", named "b" "3")],
    ⟨[.Modified "/pods/a" (.object [("metadata", .object
      [("name", .string "c"), ("resourceVersion", .string "4")])])], "/pods/", 3⟩, ?_, ?_, ?_⟩
  · decide +kernel
  · decide +kernel
  · exact (list_then_watch 2 ops [] [.turn, .op (.call (.delete "/pods/b" none)), .turn] "/pods/" 3
      _ _ (by decide) (by decide +kernel) (by decide +kernel) (by decide +kernel)
      (by decide +kernel) (by decide +kernel)).2

theorem length_bus_replicate {s : MemoryStorage} {key : String} (value : Json)
    (h : (s.data.lookup key).isSome = true) (n : Nat) :
    (run s (replicate n (.call (.update_raw key value)))).bus.length = s.bus.length + n := by
  induction n generalizing s with
  | zero => rfl
  | succ n ih =>
    have hnone : (s.data.lookup key).isNone = false := by
      rw [← Option.not_isSome, h]
      rfl
    have hstep : Op.run s (.call (.update_raw key value)) =
        s.record (.Modified key (stamp (s.revision + 1) value)) := by
      simp [Op.run, complete, advance, Call.step, hnone, commit, MemoryStorage.record,
        WatchEvent.key, WatchEvent.value]
    rw [replicate_succ, run, foldl_cons, ← run, hstep, ih]
    · simp [MemoryStorage.record, MemoryStorage.emit]
      omega
    · simp [MemoryStorage.record, MemoryStorage.emit, WatchEvent.key, WatchEvent.value,
        Table.lookup_set]

/-- A receiver that the ring has overtaken is told so. -/
theorem turn_lagged {s : MemoryStorage} {pre : String} {next : Nat}
    (hlag : next + ring < s.bus.length) :
    ((⟨[], pre, next⟩ : WatchStream).turn s).2 =
      some (.error (lagged (s.bus.length - ring - next))) := by
  have hlt : next < s.bus.length := by omega
  simp [WatchStream.turn, hlt, hlag]

theorem lagged_of_updates {s : MemoryStorage} (key : String) (value : Json)
    (h : (s.data.lookup key).isSome = true) (pre : String) :
    ((⟨[], pre, s.bus.length⟩ : WatchStream).turn
      (run s (replicate (ring + 1) (.call (.update_raw key value))))).2 =
      some (.error (lagged 1)) := by
  have hlength := length_bus_replicate value h (ring + 1)
  rw [turn_lagged (by omega), hlength]
  congr 3
  omega

/-- A watch from below the first revision is a watch from now: it never yields the write
    that was made before, whose revision is greater than the one it was to follow. A watch from
    a revision to come yields a write below it, and one that is a ring behind an error. -/
theorem watch_from_now_skips_a_write :
    let created : Op := .call (.create "/pods/a"
      (.object [("metadata", .object [("name", .string "a")])]) "u" "t")
    let s := run (.with_history_capacity 1) [created]
    ((s.list_at_revision "/pods/" (-1)).isOk = true ∧
      s.watch_from_revision "/pods/" (-1 + 1) = .ok ⟨[], "/pods/", 1⟩ ∧
      Session.Drained ⟨s, ⟨[], "/pods/", 1⟩, []⟩ ∧
      ∃ e ∈ s.bus, (-1 : Int) < e.1 ∧ Text.starts_with e.2.key "/pods/" = true) ∧
    (let empty := MemoryStorage.with_history_capacity 1
     (empty.list_at_revision "/pods/" 5).isOk = true ∧
      empty.watch_from_revision "/pods/" (5 + 1) = .ok ⟨[], "/pods/", 0⟩ ∧
      ∃ e ∈ s.bus, (Session.run ⟨empty, ⟨[], "/pods/", 0⟩, []⟩ [.op created, .turn]).received =
        [.ok e.2] ∧ (e.1 : Int) ≤ 5) ∧
    ∃ writes : List Op, s.watch_from_revision "/pods/" (2 + 1) = .ok ⟨[], "/pods/", 1⟩ ∧
      ((⟨[], "/pods/", 1⟩ : WatchStream).turn (run s writes)).2 = some (.error (lagged 1)) := by
  intro created s
  refine ⟨⟨by decide +kernel, by decide +kernel, by decide +kernel, by decide +kernel⟩,
    ⟨by decide +kernel, by decide +kernel, by decide +kernel⟩,
    _, by decide +kernel,
    lagged_of_updates (s := s) "/pods/a" .null (by decide +kernel) "/pods/"⟩

end Storage
