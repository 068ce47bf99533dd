import Rusternetes.Storage.KeyOrder

/-! # Status Writes

    `update_status` reads the object, grafts the caller's status onto it and writes it
    back through `update`, which compares versions under the data lock; on a conflict it
    starts over, up to eight times. `update_status_cas` does it once, if the object read
    has the version the caller names.

    Since no two commits have one version, an object that still has the version that was
    read is the object that was read. So what is committed differs from what it replaces
    in nothing but the status and the version.
-/

open Framework Common LTS List

namespace Storage

/-! ### The calls -/

/-- Replace the status, or take it away if there is none. -/
def graft (current : Json) (status : Option Json) : Json :=
  match current with
  | .object fields =>
    match status with
    | some status => .object (Json.insert_field fields "status" status)
    | none => .object (Json.remove_field fields "status")
  | _ => current

/-- What stands at `/metadata/resourceVersion`, if it is a text. -/
def resource_version_at (value : Json) : Option String :=
  ((value.get "metadata").bind fun m => m.get "resourceVersion").bind Json.as_str

/-- `update_status`'s bound. -/
def MAX_ATTEMPTS : Nat := 8

/-- Where a status call stands. -/
inductive Stage where
  /-- There is no call. -/
  | idle
  /-- It is about to read the object. -/
  | reading (attempt : Nat)
  /-- Its update is under way. -/
  | writing (attempt : Nat)
  | returned (answer : Except Error Json)

/-- A call of `update_status`, or of `update_status_cas`. -/
structure StatusCall where
  key : String
  incoming : Json
  cas : Bool
  stage : Stage
  /-- How many commits there were when it was made. -/
  began : Nat

namespace StatusCall

def status (c : StatusCall) : Option Json := c.incoming.get "status"

/-- The version the write is to be on top of. A compare-and-set call that names none is a
    plain one. -/
def expected_rv (c : StatusCall) : Option String :=
  if c.cas then extract_resource_version c.incoming else none

/-- The error of a compare-and-set call that finds another version. -/
def modified (c : StatusCall) (expected : String) (current : Option String) : Error :=
  .Conflict ("Operation cannot be fulfilled on " ++ c.key ++
    ": the object has been modified; please apply your changes to the latest version and try again " ++
    "(expected resourceVersion " ++ expected ++ ", current " ++ current.getD "unknown" ++ ")")

/-- Read the object: what to update it to, or the answer. -/
def read (c : StatusCall) (s : MemoryStorage) : Except Error Json :=
  match s.get c.key with
  | .error e => .error e
  | .ok current =>
    match c.expected_rv with
    | none => .ok (graft current c.status)
    | some expected =>
      if resource_version_at current ≠ some expected then
        .error (c.modified expected (resource_version_at current))
      else .ok (graft current c.status)

/-- What becomes of the call when its update has answered. -/
def resume (c : StatusCall) (attempt : Nat) : Except Error (Option Json) → Stage
  | .ok updated => .returned (.ok (updated.getD .null))
  | .error (.Conflict message) =>
    if c.expected_rv = none ∧ attempt + 1 < MAX_ATTEMPTS then .reading (attempt + 1)
    else .returned (.error (.Conflict message))
  | .error e => .returned (.error e)

end StatusCall

/-! ### The system -/

/-- Status callers among other writers. -/
structure Clients (ι κ : Type) where
  writers : Writers (ι ⊕ κ)
  status : κ → StatusCall

inductive ClientLabel (ι κ : Type) where
  /-- Another caller, or the environment. -/
  | other (lbl : Label ι)
  | call (j : κ) (key : String) (incoming : Json) (cas : Bool)
  /-- The next step of the status call of `j`. -/
  | step (j : κ)

/-- Another caller is a caller. -/
def Label.inl {ι κ : Type} : Label ι → Label (ι ⊕ κ)
  | .start i req => .start (.inl i) req
  | .advance i => .advance (.inl i)
  | .compact_to revision => .compact_to revision
  | .inject_conflicts n => .inject_conflicts n

def Stage.finished : Stage → Bool
  | .idle | .returned _ => true
  | .reading _ | .writing _ => false

variable {ι κ : Type}

namespace Clients

/-- No call has been made, and nothing is stored. -/
def empty (ι κ : Type) (capacity : Nat) : Clients ι κ where
  writers := .empty (ι ⊕ κ) capacity
  status := fun _ => ⟨"", .null, false, .idle, 0⟩

def set_stage [DecidableEq κ] (s : Clients ι κ) (j : κ) (stage : Stage) : κ → StatusCall :=
  Function.update s.status j { s.status j with stage }

variable [DecidableEq ι] [DecidableEq κ]

/-- A status call's step: read and start the update, a section of the update, or what comes
    after it. -/
def status_step (s : Clients ι κ) (j : κ) : Clients ι κ :=
  match (s.status j).stage with
  | .reading attempt =>
    match (s.status j).read s.writers.storage with
    | .error e => { s with status := s.set_stage j (.returned (.error e)) }
    | .ok value =>
      { writers := s.writers.start (.inr j) (.update (s.status j).key value)
        status := s.set_stage j (.writing attempt) }
  | .writing attempt =>
    match s.writers.calls (.inr j) with
    | .returned answer => { s with status := s.set_stage j ((s.status j).resume attempt answer) }
    | _ => { s with writers := s.writers.advance (.inr j) }
  | .idle | .returned _ => s

def enabled (s : Clients ι κ) : ClientLabel ι κ → Bool
  | .other lbl => s.writers.enabled lbl.inl
  | .call j _ _ _ => (s.status j).stage.finished
  | .step j => !(s.status j).stage.finished

def next (s : Clients ι κ) : ClientLabel ι κ → Clients ι κ
  | .other lbl => { s with writers := s.writers.next lbl.inl }
  | .call j key incoming cas =>
    { s with
      status := Function.update s.status j
        ⟨key, incoming, cas, .reading 0, s.writers.log.length⟩ }
  | .step j => s.status_step j

end Clients

/-- Status callers and other writers, one step at a time, in any order. -/
def clients (ι κ : Type) [DecidableEq ι] [DecidableEq κ] (capacity : Nat) :
    Machine (Clients ι κ) (ClientLabel ι κ) where
  start := .empty ι κ capacity
  enabled := Clients.enabled
  next := Clients.next

def Request.value : Request → Option Json
  | .create _ value _ _ | .update _ value | .update_raw _ value => some value
  | .delete _ _ => none

def ObjectsCarryMetadata (_tr : List (ClientLabel ι κ)) (_s : Clients ι κ) :
    ClientLabel ι κ → Prop
  | .other (.start _ req) => ∀ value, req.value = some value → carries_metadata value = true
  | _ => True

/-! ### Objects -/

theorem get_map_metadata (value : Json) (f : List (String × Json) → List (String × Json))
    {field : String} (h : field ≠ "metadata") : (map_metadata value f).get field = value.get field := by
  unfold map_metadata
  split
  · split
    · simp [Json.get, Json.lookup_insert_field, h]
    · rfl
  · rfl

def metadata_get (value : Json) (field : String) : Option Json :=
  (value.get "metadata").bind fun m => m.get field

theorem metadata_get_stamp (n : Nat) (value : Json) {field : String}
    (h : field ≠ "resourceVersion") : metadata_get (stamp n value) field = metadata_get value field := by
  unfold metadata_get stamp map_metadata
  split
  · next fields =>
    split
    · next m hm => simp [Json.get, Json.lookup_insert_field, hm, h]
    · rfl
  · rfl

theorem carries_map_metadata (value : Json) (f : List (String × Json) → List (String × Json)) :
    carries_metadata (map_metadata value f) = carries_metadata value := by
  unfold map_metadata
  split
  · next fields =>
    split
    · next m hm => simp [carries_metadata, Json.get, Json.lookup_insert_field, hm]
    · rfl
  · rfl

section graft

variable {value : Json} (h : carries_metadata value = true) (status : Option Json)

include h

theorem get_graft (field : String) :
    (graft value status).get field = if field = "status" then status else value.get field := by
  cases value with
  | object =>
    cases status with
    | some => simp [graft, Json.get, Json.lookup_insert_field]
    | none => simp [graft, Json.get, Json.lookup_remove_field]
  | _ => cases h

theorem metadata_graft : (graft value status).get "metadata" = value.get "metadata" := by
  rw [get_graft h, if_neg (by decide)]

theorem carries_graft : carries_metadata (graft value status) = true := by
  unfold carries_metadata at h ⊢
  rw [metadata_graft h]
  exact h

theorem extract_graft :
    extract_resource_version (graft value status) = extract_resource_version value := by
  unfold extract_resource_version
  rw [metadata_graft h]

end graft

def Call.value : Call → Option Json
  | .entered req => req.value
  | .creating _ value | .replacing _ value | .updating _ value => some value
  | .inserting _ value _ | .overwriting _ value _ => some value
  | .emitting _ event _ _ => event.value
  | .returned _ => none

def Carries (value : Option Json) : Prop := ∀ v, value = some v → carries_metadata v = true

theorem carries_step (s : MemoryStorage) (c : Call) (h : Carries c.value) :
    Carries (c.step s).2.value := by
  have hnone : Carries none := fun v hv => absurd hv (Option.some_ne_none v).symm
  have hstamp : ∀ n value, c.value = some value → Carries (some (stamp n value)) := by
    intro n value hvalue v hv
    rw [← Option.some.inj hv, stamp, carries_map_metadata]
    exact h value hvalue
  cases c with
  | entered req =>
    cases req with
    | create _ value =>
      simp only [Call.step]
      split
      · exact hnone
      · intro v hv
        rw [← Option.some.inj hv, fill_metadata, carries_map_metadata]
        exact h value rfl
    | update key value | update_raw key value =>
      simp only [Call.step]
      split
      · exact hnone
      · exact h
    | delete key preconditions =>
      simp only [Call.step]
      rcases delete_inner_cases s key preconditions with ⟨e, he⟩ | ⟨current, _, hwrite⟩
      · rw [he]
        exact hnone
      · rw [hwrite]
        exact hnone
  | creating key value | replacing key value => exact hstamp _ value rfl
  | updating key value =>
    simp only [Call.step]
    rcases update_inner_cases s key value with ⟨e, he⟩ | ⟨stored, _, _, hwrite⟩
    · rw [he]
      exact hnone
    · rw [hwrite]
      exact hstamp _ value rfl
  | inserting key value revision | overwriting key value revision =>
    simp only [Call.step]
    split
    · exact hnone
    · exact h
  | emitting => exact hnone
  | returned => exact h

theorem value_of_committed {i : ι} {c : Call} {d : Commit ι} (h : d ∈ c.committed i) :
    d.event.value = c.value := by
  cases c with
  | emitting => rw [mem_singleton.mp h]; rfl
  | _ => nomatch h

/-! ### Objects and their versions -/

variable {s : Writers ι}

theorem Fresh.eq_of_revision_eq (h : Fresh s) {d d' : Commit ι} (hd : d ∈ s.log) (hd' : d' ∈ s.log)
    (hrev : d.revision = d'.revision) : d = d' := by
  have hnodup : (s.log.map Commit.revision).Nodup := pairwise_map.mpr h.distinct
  exact inj_on_of_nodup_map hnodup hd hd' hrev

variable {v : Json}

theorem Fresh.exists_commit (h : Fresh s) {key : String} (hv : s.storage.data.lookup key = some v) :
    ∃ d ∈ s.log, d.event.key = key ∧ d.event.value = some v := by
  rw [h.data key] at hv
  obtain ⟨w, hw, hkey, hvalue⟩ := Journal.exists_write hv
  obtain ⟨d, hd, rfl⟩ := mem_map.mp (mem_reverse.mp hw)
  exact ⟨d, hd, hkey, hvalue⟩

theorem Fresh.version (h : Fresh s) {d : Commit ι} (hd : d ∈ s.log) (hv : d.event.value = some v)
    (hcarries : carries_metadata v = true) :
    extract_resource_version v = some (mod_revision_to_resource_version d.revision) := by
  obtain ⟨obj, rfl⟩ := h.log_stamped d hd v hv
  rw [stamp, carries_map_metadata] at hcarries
  rw [extract_stamp, if_pos hcarries]
  rfl

theorem extract_of_version_at {rv : String} (h : resource_version_at v = some rv) (hne : rv ≠ "") :
    extract_resource_version v = some rv := by
  unfold resource_version_at at h
  unfold extract_resource_version
  cases hm : v.get "metadata" with
  | none =>
    rw [hm] at h
    nomatch h
  | some m =>
    rw [hm] at h
    have h : (m.get "resourceVersion").bind Json.as_str = some rv := h
    rw [Option.getD_some, h]
    simp [Option.filter, hne]

variable {c : StatusCall}

theorem expected_ne_empty {rv : String} (h : c.expected_rv = some rv) : rv ≠ "" := by
  unfold StatusCall.expected_rv at h
  split at h
  · have hfilter := (Option.filter_eq_some_iff.mp h).2
    simpa using hfilter
  · nomatch h

/-! ### What a status call has done -/

/-- The call has committed `v`, which is the object that was stored with the call's status
    and a new version, and the version that was stored is the one it named. -/
def Committed (log : List (Commit (ι ⊕ κ))) (j : κ) (c : StatusCall) (v : Json) : Prop :=
  ∃ before d after stored, log = before ++ d :: after ∧ c.began ≤ before.length ∧
    d.caller = .inr j ∧ d.event = .Modified c.key v ∧ d.previous = some stored ∧
    carries_metadata stored = true ∧ v = stamp d.revision (graft stored c.status) ∧
    ∀ rv, c.expected_rv = some rv → extract_resource_version stored = some rv

/-- The call has read an object that was stored, and is to write `v` in its place. -/
def HasRead (log : List (Commit (ι ⊕ κ))) (c : StatusCall) (v : Json) : Prop :=
  ∃ d ∈ log, ∃ current, d.event.key = c.key ∧ d.event.value = some current ∧
    v = graft current c.status ∧
    ∀ rv, c.expected_rv = some rv → extract_resource_version current = some rv

inductive Underway (log : List (Commit (ι ⊕ κ))) (j : κ) (c : StatusCall) : Call → Prop where
  | entered {v : Json} : HasRead log c v → Underway log j c (.entered (.update c.key v))
  | updating {v : Json} : HasRead log c v → Underway log j c (.updating c.key v)
  | emitting {revision : Nat} {event : WatchEvent} {previous : Option Json} {v : Json} :
      Committed log j c v → Underway log j c (.emitting revision event previous (some v))
  | returned {v : Json} : Committed log j c v → Underway log j c (.returned (.ok (some v)))
  | failed {e : Error} : Underway log j c (.returned (.error e))

structure Standing (log : List (Commit (ι ⊕ κ))) (j : κ) (c : StatusCall) (update : Call) :
    Prop where
  began : c.began ≤ log.length
  writing : ∀ attempt, c.stage = .writing attempt → Underway log j c update
  returned : ∀ v, c.stage = .returned (.ok v) → Committed log j c v

variable {j : κ} {log : List (Commit (ι ⊕ κ))} (more : List (Commit (ι ⊕ κ)))

theorem Committed.append (h : Committed log j c v) : Committed (log ++ more) j c v := by
  obtain ⟨before, d, after, stored, hlog, hrest⟩ := h
  exact ⟨before, d, after ++ more, stored, by rw [hlog]; simp, hrest⟩

theorem HasRead.append (h : HasRead log c v) : HasRead (log ++ more) c v := by
  obtain ⟨d, hd, hrest⟩ := h
  exact ⟨d, mem_append_left _ hd, hrest⟩

theorem Underway.append {update : Call} (h : Underway log j c update) :
    Underway (log ++ more) j c update := by
  cases h with
  | entered h => exact .entered (h.append more)
  | updating h => exact .updating (h.append more)
  | emitting h => exact .emitting (h.append more)
  | returned h => exact .returned (h.append more)
  | failed => exact .failed

theorem Standing.append {update : Call} (h : Standing log j c update) :
    Standing (log ++ more) j c update where
  began := by
    rw [length_append]
    exact Nat.le_add_right_of_le h.began
  writing := fun attempt ha => (h.writing attempt ha).append more
  returned := fun v hv => (h.returned v hv).append more

/-- What holds in every run. -/
structure Sound (s : Clients ι κ) : Prop where
  fresh : Fresh s.writers
  stored : ∀ d ∈ s.writers.log, ∀ v, d.event.value = some v → carries_metadata v = true
  flying : ∀ i v, (s.writers.calls i).value = some v → carries_metadata v = true
  standing : ∀ j, Standing s.writers.log j (s.status j) (s.writers.calls (.inr j))

theorem committed_of_updating {w : Writers (ι ⊕ κ)} (hfresh : Fresh w)
    (hstored : ∀ d ∈ w.log, Carries d.event.value) (hbegan : c.began ≤ w.log.length) {stored : Json} (hread : HasRead w.log c v)
    (hlookup : w.storage.data.lookup c.key = some stored)
    (hsame : ∀ incoming_rv stored_rv, extract_resource_version v = some incoming_rv →
      extract_resource_version stored = some stored_rv → stored_rv = incoming_rv) (n : Nat) :
    Committed (w.log ++ [⟨.inr j, n, .Modified c.key (stamp n v), some stored⟩]) j c (stamp n v) := by
  obtain ⟨d, hd, current, _, hvalue, rfl, hexpected⟩ := hread
  obtain ⟨d', hd', _, hvalue'⟩ := hfresh.exists_commit hlookup
  have hcurrent := hstored d hd current hvalue
  have hcarries := hstored d' hd' stored hvalue'
  -- both have the version of their revision, so it is one revision
  have hversion := hfresh.version hd hvalue hcurrent
  have hversion' := hfresh.version hd' hvalue' hcarries
  have heq := hsame _ _ (by rw [extract_graft hcurrent, hversion]) hversion'
  obtain rfl := hfresh.eq_of_revision_eq hd' hd (Text.toString_inj heq)
  cases hvalue'.symm.trans hvalue
  exact ⟨w.log, _, [], stored, rfl, hbegan, rfl, rfl, rfl, hcarries, rfl, hexpected⟩

theorem read_ok {s : MemoryStorage} (h : c.read s = .ok v) :
    ∃ current, s.data.lookup c.key = some current ∧ v = graft current c.status ∧
      ∀ rv, c.expected_rv = some rv → extract_resource_version current = some rv := by
  unfold StatusCall.read MemoryStorage.get at h
  cases hlookup : s.data.lookup c.key with
  | none =>
    rw [hlookup] at h
    cases h
  | some current =>
    rw [hlookup] at h
    refine ⟨current, rfl, ?_⟩
    cases hexpected : c.expected_rv with
    | none =>
      rw [hexpected] at h
      exact ⟨(Except.ok.inj h).symm, nofun⟩
    | some expected =>
      rw [hexpected] at h
      have hne : expected ≠ "" := expected_ne_empty hexpected
      by_cases hversion : resource_version_at current = some expected
      · have hgraft : graft current c.status = v := by simpa [hversion] using h
        refine ⟨hgraft.symm, ?_⟩
        rintro rv ⟨⟩
        exact extract_of_version_at hversion hne
      · simp [hversion] at h

section Steps

theorem sound_empty (capacity : Nat) : Sound (Clients.empty ι κ capacity) where
  fresh := fresh_empty capacity
  stored := nofun
  flying := fun _ v hv => absurd hv (Option.some_ne_none v).symm
  standing := by
    intro j
    refine ⟨le_rfl, ?_, ?_⟩
    · intro _ hwriting
      cases hwriting
    · intro v hv
      cases hv

variable [DecidableEq κ] {s : Clients ι κ}

/-- Where the calls stand when that of `j` is set to `c`. -/
theorem standing_update (h : Sound s) (j : κ) (c : StatusCall) (calls : ι ⊕ κ → Call)
    (hcalls : ∀ j', j' ≠ j → calls (.inr j') = s.writers.calls (.inr j'))
    (hj : Standing s.writers.log j c (calls (.inr j))) :
    ∀ j', Standing s.writers.log j' (Function.update s.status j c j') (calls (.inr j')) := by
  intro j'
  by_cases hj' : j' = j
  · subst hj'
    rw [Function.update_self]
    exact hj
  · rw [Function.update_of_ne hj', hcalls j' hj']
    exact h.standing j'

variable {j : κ}

theorem Sound.set_stage (h : Sound s) (hj : Standing s.writers.log j c (s.writers.calls (.inr j))) :
    Sound { s with status := Function.update s.status j c } :=
  { h with standing := standing_update h j c s.writers.calls (fun _ _ => rfl) hj }

variable {attempt : Nat}

theorem Sound.resume (h : Sound s) {answer : Except Error (Option Json)}
    (hstage : (s.status j).stage = .writing attempt)
    (hcall : s.writers.calls (.inr j) = .returned answer) :
    Sound { s with status := s.set_stage j ((s.status j).resume attempt answer) } := by
  have hunder := (h.standing j).writing attempt hstage
  have hbegan := (h.standing j).began
  rw [hcall] at hunder
  apply h.set_stage
  rw [hcall]
  cases hunder with
  | @returned v hcommitted =>
    refine ⟨hbegan, ?_, ?_⟩
    · intro _ hwriting
      cases hwriting
    · intro v' hv'
      have heq : v = v' := by simpa [StatusCall.resume] using hv'
      subst heq
      exact hcommitted
  | @failed e =>
    refine ⟨hbegan, fun _ _ => .failed, ?_⟩
    intro v hv
    unfold StatusCall.resume at hv
    split at hv
    · next heq => cases heq
    · split at hv
      · cases hv
      · cases hv
    · cases hv

variable [DecidableEq ι]

/-- The objects of a writer that takes a section carry metadata, also if it commits. -/
theorem carries_advance {w : Writers ι} (hstored : ∀ d ∈ w.log, Carries d.event.value)
    (hflying : ∀ i, Carries (w.calls i).value) (i : ι) :
    (∀ d ∈ (w.advance i).log, Carries d.event.value) ∧
    ∀ i', Carries ((w.advance i).calls i').value := by
  have hnew := carries_step w.storage (w.calls i) (hflying i)
  constructor
  · intro d hd v hv
    rcases mem_append.mp hd with hd | hd
    · exact hstored d hd v hv
    · rw [value_of_committed hd] at hv
      exact hnew v hv
  · intro i' v hv
    rcases call_update hv with ⟨_, hv⟩ | ⟨_, hv⟩
    · exact hnew v hv
    · exact hflying i' v hv

theorem carries_start {w : Writers ι} (hflying : ∀ i, Carries (w.calls i).value) {i : ι}
    {req : Request} (hreq : Carries req.value) :
    ∀ i', Carries ((w.start i req).calls i').value := by
  intro i' v hv
  rcases call_update hv with ⟨_, hv⟩ | ⟨_, hv⟩
  · exact hreq v hv
  · exact hflying i' v hv

theorem Sound.other (h : Sound s) {lbl : Label ι} (henabled : s.writers.enabled lbl.inl = true)
    (hreq : ∀ i req, lbl = .start i req → Carries req.value) :
    Sound { s with writers := s.writers.next lbl.inl } := by
  have hstep : (Storage.writers (ι ⊕ κ) 0).system.step s.writers lbl.inl (s.writers.next lbl.inl) :=
    ⟨henabled, rfl⟩
  have hfresh : Fresh (s.writers.next lbl.inl) := h.fresh.step hstep
  cases lbl with
  | start i req =>
    refine ⟨hfresh, h.stored, carries_start h.flying (hreq i req rfl), ?_⟩
    intro j
    show Standing s.writers.log j (s.status j) ((s.writers.start (.inl i) req).calls (.inr j))
    rw [Writers.start_calls_ne _ _ Sum.inr_ne_inl]
    exact h.standing j
  | advance i =>
    obtain ⟨hstored, hflying⟩ := carries_advance h.stored h.flying (.inl i)
    refine ⟨hfresh, hstored, hflying, ?_⟩
    intro j
    show Standing (s.writers.advance (.inl i)).log j (s.status j)
      ((s.writers.advance (.inl i)).calls (.inr j))
    rw [Writers.advance_calls_ne _ Sum.inr_ne_inl]
    exact (h.standing j).append _
  | compact_to revision | inject_conflicts n => exact { h with fresh := hfresh }

theorem Sound.start (h : Sound s) {v : Json} (hread : (s.status j).read s.writers.storage = .ok v) :
    Sound { writers := s.writers.start (.inr j) (.update (s.status j).key v)
            status := s.set_stage j (.writing attempt) } := by
  obtain ⟨current, hlookup, rfl, hexpected⟩ := read_ok hread
  obtain ⟨d, hd, hkey, hvalue⟩ := h.fresh.exists_commit hlookup
  have hcarries := h.stored d hd current hvalue
  have hhas : HasRead s.writers.log (s.status j) (graft current (s.status j).status) :=
    ⟨d, hd, current, hkey, hvalue, rfl, hexpected⟩
  refine ⟨?_, h.stored, ?_, ?_⟩
  · exact h.fresh.same rfl rfl rfl fun _ _ hw => (drawn_update_none rfl hw).2
  · apply carries_start h.flying
    intro v hv
    rw [← Option.some.inj hv]
    exact carries_graft hcarries _
  · have hj : Standing s.writers.log j { s.status j with stage := .writing attempt }
        (.entered (.update (s.status j).key (graft current (s.status j).status))) := by
      refine ⟨(h.standing j).began, ?_, ?_⟩
      · intro _ _
        exact .entered hhas
      · intro v hv
        cases hv
    exact standing_update h j _ _
      (fun j' hj' => Writers.start_calls_ne _ _ fun heq => hj' (Sum.inr.inj heq))
      (by rwa [Writers.start_calls_self])

theorem Sound.advance (h : Sound s) (hstage : (s.status j).stage = .writing attempt)
    (hcall : (s.writers.calls (.inr j)).finished = false) :
    Sound { s with writers := s.writers.advance (.inr j) } := by
  obtain ⟨hstored, hflying⟩ := carries_advance h.stored h.flying (.inr j)
  refine ⟨h.fresh.advance _ hcall, hstored, hflying, ?_⟩
  have hbegan := (h.standing j).began
  -- where the update stands after the section
  have hunder : Underway (s.writers.advance (.inr j)).log j (s.status j)
      ((s.writers.advance (.inr j)).calls (.inr j)) := by
    rw [Writers.advance_calls_self]
    have hbefore := (h.standing j).writing attempt hstage
    unfold Writers.advance
    generalize hc : s.writers.calls (.inr j) = c at hbefore hcall
    cases hbefore with
    | @entered v hread =>
      simp only [Call.step]
      split
      · exact .failed
      · exact .updating (hread.append _)
    | @updating v hread =>
      simp only [Call.step]
      rcases update_inner_cases s.writers.storage (s.status j).key v with
        ⟨e, he⟩ | ⟨stored, hlookup, hsame, hwrite⟩
      · rw [he]
        exact .failed
      · rw [hwrite]
        apply Underway.emitting
        have hprevious : s.writers.storage.data.lookup (s.status j).key = some stored := hlookup
        have hcommit := committed_of_updating h.fresh h.stored (j := j) hbegan hread hlookup hsame
          (s.writers.storage.revision + 1)
        rw [← hprevious] at hcommit
        exact hcommit
    | emitting hcommitted => exact .returned (hcommitted.append _)
    | returned hcommitted | failed => cases hcall
  intro j'
  by_cases hj' : j' = j
  · subst hj'
    refine ⟨?_, fun _ _ => hunder, ?_⟩
    · exact ((h.standing j').append _).began
    · intro v hv
      rw [hstage] at hv
      cases hv
  · show Standing (s.writers.advance (.inr j)).log j' (s.status j')
      ((s.writers.advance (.inr j)).calls (.inr j'))
    rw [Writers.advance_calls_ne _ fun heq => hj' (Sum.inr.inj heq)]
    exact (h.standing j').append _

theorem Sound.status_step (h : Sound s) (j : κ) : Sound (s.status_step j) := by
  unfold Clients.status_step
  split
  · next attempt hstage =>
    split
    · next e hread =>
      apply h.set_stage
      refine ⟨(h.standing j).began, ?_, ?_⟩
      · intro _ hwriting
        cases hwriting
      · intro v hv
        cases hv
    · next v hread => exact h.start hread
  · next attempt hstage =>
    split
    · next answer hcall => exact h.resume hstage hcall
    · next hcall =>
      apply h.advance hstage
      cases hc : s.writers.calls (.inr j) with
      | returned answer => exact absurd hc (hcall answer)
      | _ => rfl
  · exact h
  · exact h

theorem Sound.step {capacity : Nat} {tr : List (ClientLabel ι κ)} {lbl : ClientLabel ι κ}
    {s' : Clients ι κ} (h : Sound s) (hok : ObjectsCarryMetadata tr s lbl)
    (hstep : (clients ι κ capacity).system.step s lbl s') : Sound s' := by
  obtain ⟨henabled, rfl⟩ := hstep
  cases lbl with
  | other lbl =>
    apply h.other henabled
    rintro i req rfl
    exact hok
  | call =>
    apply h.set_stage
    refine ⟨le_rfl, ?_, ?_⟩
    · intro _ hwriting
      cases hwriting
    · intro v hv
      cases hv
  | step j => exact h.status_step j

theorem sound_of_exec {capacity : Nat} {tr : List (ClientLabel ι κ)}
    (h : ExecWhen (clients ι κ capacity).system ObjectsCarryMetadata tr s) : Sound s := by
  refine h.invariant (I := fun _ s => Sound s) (J := fun _ _ => True) ?_ ?_ ?_
  · intro _ _ _
    trivial
  · intro s hs
    rw [hs]
    exact sound_empty capacity
  · intro tr s l s' _ hsound hok hstep
    exact hsound.step hok hstep

/-- **A status write changes nothing else**: a status call that returns `Ok` has made a commit.
    What it committed is, but for the status and the version, the object that the commits
    before it had left under the key; its status is the caller's; and if the call names a
    version, that is the version of the object it replaced. -/
theorem status_write_changes_only_the_status {capacity : Nat} {tr : List (ClientLabel ι κ)}
    (h : ExecWhen (clients ι κ capacity).system ObjectsCarryMetadata tr s) (j : κ) (v : Json)
    (hv : (s.status j).stage = .returned (.ok v)) :
    ∃ before d after stored, s.writers.log = before ++ d :: after ∧
      (s.status j).began ≤ before.length ∧ d.caller = .inr j ∧
      d.event = .Modified (s.status j).key v ∧
      Journal.state (before.map Commit.write).reverse (s.status j).key = some stored ∧
      (∀ field, field ≠ "status" → field ≠ "metadata" → v.get field = stored.get field) ∧
      (∀ field, field ≠ "resourceVersion" → metadata_get v field = metadata_get stored field) ∧
      v.get "status" = (s.status j).incoming.get "status" ∧
      ((s.status j).cas = true → ∀ rv, extract_resource_version (s.status j).incoming = some rv →
        extract_resource_version stored = some rv) := by
  have hsound : Sound s := sound_of_exec h
  obtain ⟨before, d, after, stored, hlog, hbegan, hcaller, hevent, hprevious, hcarries, rfl,
    hexpected⟩ := (hsound.standing j).returned v hv
  have hreplaced := hsound.fresh.replaced before d after hlog
  rw [hprevious, hevent] at hreplaced
  have hget : ∀ field, field ≠ "metadata" →
      (stamp d.revision (graft stored (s.status j).status)).get field =
        if field = "status" then (s.status j).status else stored.get field := by
    intro field hfield
    rw [stamp, get_map_metadata _ _ hfield, get_graft hcarries]
  refine ⟨before, d, after, stored, hlog, hbegan, hcaller, hevent, hreplaced.symm, ?_, ?_, ?_, ?_⟩
  · intro field hstatus hmetadata
    rw [hget field hmetadata, if_neg hstatus]
  · intro field hfield
    rw [metadata_get_stamp _ _ hfield, metadata_get, metadata_get, metadata_graft hcarries]
  · exact (hget "status" (by decide)).trans (if_pos rfl)
  · intro hcas rv hrv
    apply hexpected
    rw [StatusCall.expected_rv, if_pos hcas]
    exact hrv

end Steps

/-- What a call that succeeded answered. -/
def Stage.answer : Stage → Option Json
  | .returned (.ok v) => some v
  | _ => none

theorem Stage.answer_eq_some {stage : Stage} {v : Json} (h : stage.answer = some v) :
    stage = .returned (.ok v) := by
  cases stage with
  | returned answer =>
    cases answer with
    | ok w =>
      cases h
      rfl
    | error e => cases h
  | _ => cases h

def carrying (_ : Clients (Fin 1) (Fin 1)) : ClientLabel (Fin 1) (Fin 1) → Bool
  | .other (.start _ req) => req.value.all carries_metadata
  | _ => true

/-- A status write whose first try meets an update that came between its read and its write:
    it goes onto the object of the update. -/
theorem status_write_changes_only_the_status_on_retry :
    let pod := fun n => Json.object
      [("metadata", .object [("name", .string "a")]), ("spec", .string n)]
    let lbls : List (ClientLabel (Fin 1) (Fin 1)) :=
      [.other (.start 0 (.create "/pods/a" (pod "old") "u" "t")), .other (.advance 0),
        .other (.advance 0), .other (.advance 0), .other (.advance 0),
        .call 0 "/pods/a" (.object [("status", .string "ready")]) false, .step 0,
        .other (.start 0 (.update "/pods/a" (pod "new"))), .other (.advance 0),
        .other (.advance 0), .other (.advance 0),
        .step 0, .step 0, .step 0, .step 0, .step 0, .step 0, .step 0, .step 0]
    ∃ s v, ∃ stored : Json, ExecWhen (clients (Fin 1) (Fin 1) 10).system ObjectsCarryMetadata lbls.reverse s ∧
      (s.status 0).stage = .returned (.ok v) ∧ v.get "status" = some (.string "ready") ∧
      v.get "spec" = stored.get "spec" ∧ v.get "spec" = some (.string "new") := by
  intro pod lbls
  have hcheck : ∀ tr s lbl, carrying s lbl = true → ObjectsCarryMetadata tr s lbl := by
    intro tr s lbl h
    cases lbl with
    | other lbl =>
      cases lbl with
      | start i req =>
        intro value hvalue
        have h : req.value.all carries_metadata = true := h
        rw [hvalue] at h
        exact h
      | _ => trivial
    | _ => trivial
  have hrun : ((clients (Fin 1) (Fin 1) 10).trace carrying (.empty (Fin 1) (Fin 1) 10) lbls).any
      (fun s => (s.status 0).stage.answer.any fun v => decide (v.get "spec" = some (.string "new") ∧
        (s.status 0).incoming = .object [("status", .string "ready")])) = true := by decide +kernel
  obtain ⟨s, hexec, hfacts⟩ :=
    (clients (Fin 1) (Fin 1) 10).exists_exec ObjectsCarryMetadata hcheck hrun
  obtain ⟨v, hv, hfacts⟩ := (Option.any_eq_true _ _).mp hfacts
  obtain ⟨hspec, hincoming⟩ := of_decide_eq_true hfacts
  have hv := Stage.answer_eq_some hv
  obtain ⟨_, _, _, stored, _, _, _, _, _, hrest, _, hstatus, _⟩ :=
    status_write_changes_only_the_status hexec 0 v hv
  refine ⟨s, v, stored, hexec, hv, ?_, hrest "spec" (by decide) (by decide), hspec⟩
  rw [hstatus, hincoming]
  rfl

end Storage
