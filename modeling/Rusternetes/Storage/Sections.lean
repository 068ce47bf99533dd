import Rusternetes.Framework.LTS
import Rusternetes.Storage.Watch

/-! # Concurrent Writers of the In-Memory Storage

    Any number of writing calls in flight, their sections interleaved in any way. The
    sections in which the data is written make up a log, in which each commit stands
    with what it replaced.

    Whatever the interleaving, the data is what the log adds up to, and no two commits
    have one revision. That the commits to a key are in the order of their revisions,
    and that their events are sent in the order of the commits, is only so if no two
    calls for the key overlap.
-/

open Framework Common LTS Function List

namespace Storage

/-! ### State and steps -/

/-- A section in which the data was written: whose it was, under which revision, what it
    wrote and what it replaced. -/
structure Commit (ι : Type) where
  caller : ι
  revision : Nat
  event : WatchEvent
  previous : Option Json

def Commit.write {ι : Type} (c : Commit ι) : Write String Json :=
  ⟨c.revision, c.event.key, c.event.value⟩

/-- The storage and the callers. -/
structure Writers (ι : Type) where
  storage : MemoryStorage
  /-- Where each caller's last call stands. -/
  calls : ι → Call
  /-- The commits, oldest first. -/
  log : List (Commit ι)

/-- What can happen. -/
inductive Label (ι : Type) where
  | start (i : ι) (req : Request)
  | advance (i : ι)
  | compact_to (revision : Int)
  | inject_conflicts (n : Nat)

def Call.finished : Call → Bool
  | .returned _ => true
  | _ => false

def Call.committed {ι : Type} (i : ι) : Call → List (Commit ι)
  | .emitting revision event previous _ => [⟨i, revision, event, previous⟩]
  | _ => []

section System

variable {ι : Type} [DecidableEq ι]

def Writers.start (s : Writers ι) (i : ι) (req : Request) : Writers ι :=
  { s with calls := Function.update s.calls i (.entered req) }

/-- The next section of the call of `i`. -/
def Writers.advance (s : Writers ι) (i : ι) : Writers ι where
  storage := ((s.calls i).step s.storage).1
  calls := Function.update s.calls i ((s.calls i).step s.storage).2
  log := s.log ++ ((s.calls i).step s.storage).2.committed i

theorem Writers.start_calls_self (s : Writers ι) (i : ι) (req : Request) :
    (s.start i req).calls i = .entered req := update_self ..

theorem Writers.start_calls_ne (s : Writers ι) {i i' : ι} (req : Request) (h : i' ≠ i) :
    (s.start i req).calls i' = s.calls i' := update_of_ne h ..

theorem Writers.advance_calls_self (s : Writers ι) (i : ι) :
    (s.advance i).calls i = ((s.calls i).step s.storage).2 := update_self ..

theorem Writers.advance_calls_ne (s : Writers ι) {i i' : ι} (h : i' ≠ i) :
    (s.advance i).calls i' = s.calls i' := update_of_ne h ..

/-- No call has been made, and nothing is stored. -/
def Writers.empty (ι : Type) (capacity : Nat) : Writers ι where
  storage := .with_history_capacity capacity
  calls := fun _ => .returned (.ok none)
  log := []

/-- Whether it can happen. -/
def Writers.enabled (s : Writers ι) : Label ι → Bool
  | .start i _ => (s.calls i).finished
  | .advance i => !(s.calls i).finished
  | .compact_to _ | .inject_conflicts _ => true

theorem not_finished_of_enabled {ι : Type} {s : Writers ι} {i : ι} (h : s.enabled (.advance i) = true) :
    (s.calls i).finished = false := by
  simpa [Writers.enabled] using h

/-- What it leads to. -/
def Writers.next (s : Writers ι) : Label ι → Writers ι
  | .start i req => s.start i req
  | .advance i => s.advance i
  | .compact_to revision => { s with storage := s.storage.compact_to revision }
  | .inject_conflicts n => { s with storage := s.storage.inject_conflicts n }

/-- The callers' sections, one at a time, in any order. -/
def writers (ι : Type) [DecidableEq ι] (capacity : Nat) : Machine (Writers ι) (Label ι) where
  start := .empty ι capacity
  enabled := Writers.enabled
  next := Writers.next

end System

/-! ### What a section does -/

def Call.key : Call → Option String
  | .entered req => some req.key
  | .creating key _ | .replacing key _ | .updating key _ => some key
  | .inserting key _ _ | .overwriting key _ _ => some key
  | .emitting _ event _ _ => some event.key
  | .returned _ => none

def Call.drawn : Call → Option (Write String Json)
  | .inserting key value revision | .overwriting key value revision =>
    some ⟨revision, key, some value⟩
  | _ => none

def Call.pending : Call → Option (Nat × WatchEvent)
  | .emitting revision event _ _ => some (revision, event)
  | _ => none

/-- What is written is an object under its revision, or nothing. -/
def Stamped (w : Write String Json) : Prop := ∀ v, w.value = some v → ∃ obj, v = stamp w.revision obj

/-- What a section can do. -/
inductive Effect (s : MemoryStorage) : Call → MemoryStorage → Call → Prop where
  /-- A check: nothing is written and no revision is drawn. -/
  | check {c c' : Call} {s' : MemoryStorage} (hsame : Unchanged s s')
      (hkey : c'.key = none ∨ c'.key = c.key) (hc : c.pending = none)
      (hdrawn : c'.drawn = none) (hpending : c'.pending = none) : Effect s c s' c'
  /-- A revision is drawn. -/
  | draw {c c' : Call} {key : String} {value : Json} (hkey : c.key = some key)
      (hc : c.pending = none) (hkey' : c'.key = some key)
      (hdrawn : c'.drawn = some ⟨s.revision + 1, key, some (stamp (s.revision + 1) value)⟩)
      (hpending : c'.pending = none) :
      Effect s c { s with revision := s.revision + 1 } c'
  /-- The data is written under the revision that was drawn. -/
  | commit_drawn {c : Call} {revision : Nat} {event : WatchEvent} {answer : Option Json}
      (hdrawn : c.drawn = some ⟨revision, event.key, event.value⟩) :
      Effect s c (commit s revision event answer).1 (commit s revision event answer).2
  /-- The data is written under a revision that is drawn in the same section. -/
  | commit_fresh {c : Call} {event : WatchEvent} {answer : Option Json}
      (hkey : c.key = some event.key) (hdrawn : c.drawn = none) (hc : c.pending = none)
      (hstamped : Stamped ⟨s.revision + 1, event.key, event.value⟩) :
      Effect s c
        (commit { s with revision := s.revision + 1 } (s.revision + 1) event answer).1
        (commit { s with revision := s.revision + 1 } (s.revision + 1) event answer).2
  /-- The event is sent. -/
  | emit {revision : Nat} {event : WatchEvent} {previous answer : Option Json} :
      Effect s (.emitting revision event previous answer) (s.emit revision event previous)
        (.returned (.ok answer))

theorem Effect.failed {s : MemoryStorage} {c : Call} (hc : c.pending = none) (e : Error) :
    Effect s c s (.returned (.error e)) :=
  .check (.refl s) (.inl rfl) hc rfl rfl

theorem Call.step_effect (s : MemoryStorage) (c : Call) (h : c.finished = false) :
    Effect s c (c.step s).1 (c.step s).2 := by
  cases c with
  | entered req =>
    cases req with
    | create | update_raw =>
      simp only [Call.step]
      split
      · exact .failed rfl _
      · exact .check (.refl s) (.inr rfl) rfl rfl rfl
    | update =>
      simp only [Call.step]
      split
      · exact .check ⟨rfl, rfl, rfl, rfl⟩ (.inl rfl) rfl rfl rfl
      · exact .check (.refl s) (.inr rfl) rfl rfl rfl
    | delete key preconditions =>
      simp only [Call.step]
      rcases delete_inner_cases s key preconditions with ⟨e, he⟩ | ⟨current, _, hwrite⟩
      · rw [he]
        exact .failed rfl e
      · rw [hwrite]
        refine .commit_fresh rfl rfl rfl ?_
        intro v hv
        cases hv
  | creating key value | replacing key value => exact .draw rfl rfl rfl rfl rfl
  | updating key value =>
    simp only [Call.step]
    rcases update_inner_cases s key value with ⟨e, he⟩ | ⟨stored, _, _, hwrite⟩
    · rw [he]
      exact .failed rfl e
    · rw [hwrite]
      refine .commit_fresh rfl rfl rfl ?_
      intro v hv
      exact ⟨value, (Option.some.inj hv).symm⟩
  | inserting key value revision | overwriting key value revision =>
    simp only [Call.step]
    split
    · exact .failed rfl _
    · exact .commit_drawn rfl
  | emitting => exact .emit
  | returned => cases h

/-! ### Whatever the interleaving -/

section Invariants

variable {ι : Type} {s : Writers ι}

def Writers.journal {ι : Type} (s : Writers ι) : List (Write String Json) :=
  (s.log.map Commit.write).reverse

structure Fresh {ι : Type} (s : Writers ι) : Prop where
  log_le : ∀ c ∈ s.log, c.revision ≤ s.storage.revision
  distinct : s.log.Pairwise fun a b => a.revision ≠ b.revision
  drawn_le : ∀ i w, (s.calls i).drawn = some w → w.revision ≤ s.storage.revision
  drawn_new : ∀ i w, (s.calls i).drawn = some w → ∀ c ∈ s.log, c.revision ≠ w.revision
  drawn_apart : ∀ i j w w', (s.calls i).drawn = some w → (s.calls j).drawn = some w' →
    i ≠ j → w.revision ≠ w'.revision
  log_stamped : ∀ c ∈ s.log, Stamped c.write
  drawn_stamped : ∀ i w, (s.calls i).drawn = some w → Stamped w
  data : ∀ k, s.storage.data.lookup k = Journal.state s.journal k
  /-- A commit replaces what those before it add up to. -/
  replaced : ∀ before c after, s.log = before ++ c :: after →
    c.previous = Journal.state (before.map Commit.write).reverse c.event.key

theorem fresh_empty (capacity : Nat) : Fresh (Writers.empty ι capacity) where
  log_le := nofun
  distinct := .nil
  drawn_le := nofun
  drawn_new := nofun
  drawn_apart := nofun
  log_stamped := nofun
  drawn_stamped := nofun
  data := fun k => AList.lookup_empty k
  replaced := by
    intro before c after h
    simp [Writers.empty] at h

/-- A step that writes nothing and draws nothing keeps it. -/
theorem Fresh.same {s' : Writers ι} (h : Fresh s) (hlog : s'.log = s.log)
    (hdata : s'.storage.data = s.storage.data)
    (hrev : s'.storage.revision = s.storage.revision)
    (hdrawn : ∀ j w, (s'.calls j).drawn = some w → (s.calls j).drawn = some w) : Fresh s' where
  log_le := by
    rw [hlog, hrev]
    exact h.log_le
  distinct := by
    rw [hlog]
    exact h.distinct
  drawn_le := by
    intro j w hw
    rw [hrev]
    exact h.drawn_le j w (hdrawn j w hw)
  drawn_new := by
    intro j w hw
    rw [hlog]
    exact h.drawn_new j w (hdrawn j w hw)
  drawn_apart := by
    intro j j' w w' hw hw' hne
    exact h.drawn_apart j j' w w' (hdrawn j w hw) (hdrawn j' w' hw') hne
  log_stamped := by
    rw [hlog]
    exact h.log_stamped
  drawn_stamped := by
    intro j w hw
    exact h.drawn_stamped j w (hdrawn j w hw)
  data := by
    intro k
    rw [hdata, Writers.journal, hlog]
    exact h.data k
  replaced := by
    rw [hlog]
    exact h.replaced

variable {c : Call} {i : ι}

theorem committed_eq_nil (h : c.pending = none) : c.committed i = [] := by
  cases c with
  | emitting => cases h
  | _ => rfl

variable [DecidableEq ι]

/-- What is read off a call after that of `i` was set to `c`. -/
theorem call_update {α : Type} {f : Call → Option α} {calls : ι → Call} {j : ι} {a : α}
    (h : f (Function.update calls i c j) = some a) :
    j = i ∧ f c = some a ∨ j ≠ i ∧ f (calls j) = some a := by
  by_cases hj : j = i
  · subst hj
    rw [update_self] at h
    exact .inl ⟨rfl, h⟩
  · rw [update_of_ne hj] at h
    exact .inr ⟨hj, h⟩

theorem drawn_update_none {calls : ι → Call} {j : ι} {w : Write String Json} (hc : c.drawn = none)
    (h : (Function.update calls i c j).drawn = some w) : j ≠ i ∧ (calls j).drawn = some w := by
  rcases call_update h with ⟨_, hw⟩ | hw
  · rw [hc] at hw
    nomatch hw
  · exact hw

theorem Fresh.draw (h : Fresh s) {key : String} {value : Json}
    (hc : c.drawn = some ⟨s.storage.revision + 1, key,
      some (stamp (s.storage.revision + 1) value)⟩) :
    Fresh { s with
      storage := { s.storage with revision := s.storage.revision + 1 }
      calls := Function.update s.calls i c } where
  log_le := fun c hc => Nat.le_succ_of_le (h.log_le c hc)
  distinct := h.distinct
  drawn_le := by
    intro j w hw
    rcases call_update hw with ⟨_, hw⟩ | ⟨_, hw⟩
    · rw [hc] at hw
      rw [← Option.some.inj hw]
    · exact Nat.le_succ_of_le (h.drawn_le j w hw)
  drawn_new := by
    intro j w hw c' hc'
    rcases call_update hw with ⟨_, hw⟩ | ⟨_, hw⟩
    · rw [hc] at hw
      rw [← Option.some.inj hw]
      exact Nat.ne_of_lt (Nat.lt_succ_of_le (h.log_le c' hc'))
    · exact h.drawn_new j w hw c' hc'
  drawn_apart := by
    intro j j' w w' hw hw' hne
    -- the new revision is above all that were drawn before
    rcases call_update hw with ⟨hj, hw⟩ | ⟨_, hw⟩
    · rcases call_update hw' with ⟨hj', _⟩ | ⟨_, hw'⟩
      · exact absurd (hj.trans hj'.symm) hne
      · have hle := h.drawn_le j' w' hw'
        rw [hc] at hw
        rw [← Option.some.inj hw]
        show s.storage.revision + 1 ≠ w'.revision
        omega
    · rcases call_update hw' with ⟨_, hw'⟩ | ⟨_, hw'⟩
      · have hle := h.drawn_le j w hw
        rw [hc] at hw'
        rw [← Option.some.inj hw']
        show w.revision ≠ s.storage.revision + 1
        omega
      · exact h.drawn_apart j j' w w' hw hw' hne
  log_stamped := h.log_stamped
  drawn_stamped := by
    intro j w hw
    rcases call_update hw with ⟨_, hw⟩ | ⟨_, hw⟩
    · rw [hc] at hw
      rw [← Option.some.inj hw]
      intro v hv
      exact ⟨value, (Option.some.inj hv).symm⟩
    · exact h.drawn_stamped j w hw
  data := h.data
  replaced := h.replaced

theorem Fresh.commit (h : Fresh s) {n revision : Nat} {event : WatchEvent} {answer : Option Json}
    (hrev : s.storage.revision ≤ revision) (hn : n ≤ revision) (hnew : ∀ c ∈ s.log, c.revision ≠ n)
    (hothers : ∀ j w, j ≠ i → (s.calls j).drawn = some w → w.revision ≠ n)
    (hstamped : Stamped ⟨n, event.key, event.value⟩) :
    Fresh (Writers.mk
      (commit { s.storage with revision } n event answer).1
      (Function.update s.calls i (commit { s.storage with revision } n event answer).2)
      (s.log ++ [⟨i, n, event, s.storage.data.lookup event.key⟩])) where
  log_le := by
    exact forall_mem_append.mpr
      ⟨fun c hc => Nat.le_trans (h.log_le c hc) hrev, forall_mem_singleton.mpr hn⟩
  distinct := by
    rw [pairwise_append]
    refine ⟨h.distinct, pairwise_singleton _ _, ?_⟩
    intro a ha b hb
    rw [mem_singleton.mp hb]
    exact hnew a ha
  drawn_le := by
    intro j w hw
    exact Nat.le_trans (h.drawn_le j w (drawn_update_none rfl hw).2) hrev
  drawn_new := by
    intro j w hw
    obtain ⟨hj, hw⟩ := drawn_update_none rfl hw
    exact forall_mem_append.mpr
      ⟨h.drawn_new j w hw, forall_mem_singleton.mpr (hothers j w hj hw).symm⟩
  drawn_apart := by
    intro j j' w w' hw hw' hne
    exact h.drawn_apart j j' w w' (drawn_update_none rfl hw).2 (drawn_update_none rfl hw').2 hne
  log_stamped := by
    exact forall_mem_append.mpr ⟨h.log_stamped, forall_mem_singleton.mpr hstamped⟩
  drawn_stamped := by
    intro j w hw
    exact h.drawn_stamped j w (drawn_update_none rfl hw).2
  data := by
    intro k
    have hdata : (fun k => s.storage.data.lookup k) = Journal.state s.journal := funext h.data
    rw [Writers.journal, map_append, reverse_append]
    show (s.storage.data.set event.key event.value).lookup k =
      Function.update (Journal.state s.journal) event.key event.value k
    rw [Table.lookup_set, hdata]
  replaced := by
    intro before c after hsplit
    rcases eq_nil_or_concat after with rfl | ⟨rest, last, rfl⟩
    · -- it is the new one
      obtain ⟨rfl, hc⟩ := append_inj' hsplit rfl
      rw [← head_eq_of_cons_eq hc]
      exact h.data event.key
    · have hassoc : before ++ c :: rest.concat last = (before ++ c :: rest) ++ [last] := by simp
      rw [hassoc] at hsplit
      exact h.replaced before c rest (append_inj' hsplit rfl).1

theorem Fresh.advance (h : Fresh s) (i : ι) (hi : (s.calls i).finished = false) :
    Fresh (s.advance i) := by
  have heffect := (s.calls i).step_effect s.storage hi
  unfold Writers.advance
  generalize ((s.calls i).step s.storage).1 = storage' at heffect ⊢
  generalize ((s.calls i).step s.storage).2 = c' at heffect ⊢
  generalize hcall : s.calls i = c at heffect
  cases heffect with
  | check hsame hkey hc hdrawn hpending =>
    rw [committed_eq_nil hpending, append_nil]
    exact h.same rfl hsame.data hsame.revision fun j w hw => (drawn_update_none hdrawn hw).2
  | draw _ _ _ hdrawn hpending =>
    rw [committed_eq_nil hpending, append_nil]
    exact h.draw hdrawn
  | commit_drawn hdrawn =>
    rw [← hcall] at hdrawn
    apply h.commit le_rfl (h.drawn_le i _ hdrawn) (h.drawn_new i _ hdrawn)
    · intro j w hj hw
      exact h.drawn_apart j i w _ hw hdrawn hj
    · exact h.drawn_stamped i _ hdrawn
  | commit_fresh _ _ hc hstamped =>
    apply h.commit (Nat.le_succ _) le_rfl ?_ ?_ hstamped
    · intro c hc
      exact Nat.ne_of_lt (Nat.lt_succ_of_le (h.log_le c hc))
    · intro j w _ hw
      exact Nat.ne_of_lt (Nat.lt_succ_of_le (h.drawn_le j w hw))
  | emit =>
    rw [committed_eq_nil rfl, append_nil]
    exact h.same rfl rfl rfl fun j w hw => (drawn_update_none rfl hw).2

theorem Fresh.step {capacity : Nat} {lbl : Label ι} {s' : Writers ι} (h : Fresh s)
    (hstep : (writers ι capacity).system.step s lbl s') : Fresh s' := by
  obtain ⟨henabled, rfl⟩ := hstep
  cases lbl with
  | start i req => exact h.same rfl rfl rfl fun j w hw => (drawn_update_none rfl hw).2
  | advance i => exact h.advance i (not_finished_of_enabled henabled)
  | compact_to revision | inject_conflicts n => exact h.same rfl rfl rfl fun _ _ hw => hw

theorem fresh_of_exec {capacity : Nat} {tr : List (Label ι)}
    (h : Exec (writers ι capacity).system tr s) : Fresh s := by
  refine h.invariant (I := fun _ s => Fresh s) ?_ ?_
  · intro s hs
    rw [hs]
    exact fresh_empty capacity
  · intro tr s l s' hs hstep
    exact hs.step hstep

/-- **A version names one write.** However calls cross, no two objects ever written, under
    whatever keys, have the same version. -/
theorem versions_nodup {capacity : Nat} {tr : List (Label ι)}
    (h : Exec (writers ι capacity).system tr s) :
    (s.log.filterMap fun c => c.event.value.bind extract_resource_version).Nodup := by
  have hfresh := fresh_of_exec h
  have hversion : ∀ c ∈ s.log, ∀ rv, c.event.value.bind extract_resource_version = some rv →
      rv = toString c.revision := by
    intro c hc rv hrv
    obtain ⟨v, hv, hrv⟩ := Option.bind_eq_some_iff.mp hrv
    obtain ⟨obj, rfl⟩ := hfresh.log_stamped c hc v hv
    rw [extract_stamp, Option.ite_none_right_eq_some] at hrv
    exact (Option.some.inj hrv.2).symm
  rw [Nodup, pairwise_filterMap]
  refine hfresh.distinct.imp_of_mem ?_
  rintro a b ha hb hne rv hrv _ hrv' rfl
  exact hne (Text.toString_inj ((hversion a ha rv hrv).symm.trans (hversion b hb rv hrv')))

/-- Objects under two keys. -/
theorem versions_nodup_two_keys :
    ∃ tr s, Exec (writers Unit 1).system tr s ∧ s.log.length = 2 ∧
      (s.log.filterMap fun c => c.event.value.bind extract_resource_version).Nodup := by
  obtain ⟨s, hexec, hlog⟩ : ∃ s, Exec (writers Unit 1).system (["/a", "/b"].flatMap fun k =>
      .start () (.create k (.object [("metadata", .object [])]) "u" "t") ::
        replicate 4 (.advance ())).reverse s ∧ s.log.length = 2 :=
    (writers Unit 1).exec_of_trace (by decide +kernel)
  exact ⟨_, s, hexec, hlog, versions_nodup hexec⟩

end Invariants

end Storage
