import Rusternetes.Framework.LTS
import Rusternetes.Framework.Table

/-! # Image Garbage Collection

    The collector keeps a record of every image the runtime lists. A run refreshes the
    records, takes those that are neither in use nor pinned in the order of their last use,
    and removes them: every one that has not been used for `max_age`, and then as many as
    the disk needs.

    A record is found under the image's id or, where the runtime tells images apart by
    their handler, under id and handler in one text. What is removed is read back from
    such a key.
-/

open List

namespace ImageGc

open LTS Framework

/-! ### Data -/

structure ImageSpec where
  image : String
  runtime_handler : String
  deriving DecidableEq

structure Image where
  id : String
  size : Int64
  runtime_handler : String
  pinned : Bool

structure GcContainer where
  id : String
  image_id : String
  image_runtime_handler : String

structure GcPod where
  id : String
  containers : List GcContainer

structure FsStats where
  capacity_bytes : Option UInt64
  available_bytes : Option UInt64

/-- Nanoseconds from the epoch to the ends of the calendar, the years ±262144. -/
def calendar : Int := 262144 * 366 * 86400 * 10 ^ 9

/-- An instant, in nanoseconds since the epoch. -/
structure DateTime where
  nanos : Int
  range : -calendar ≤ nanos ∧ nanos ≤ calendar

/-- 0001-01-01T00:00:00Z -/
def zero_time : DateTime := ⟨-62135596800 * 10 ^ 9, by decide⟩

/-- A duration in nanoseconds, saturated at the greatest `chrono` holds. -/
def to_chrono (d : Nat) : Int := min d ((2 ^ 63 - 1) * 10 ^ 6)

structure ImageGcPolicy where
  high_threshold_percent : Int32
  low_threshold_percent : Int32
  min_age : Nat
  max_age : Nat

structure ImageRecord where
  runtime_handler_used_to_pull_image : String
  first_detected : DateTime
  last_used : DateTime
  size : Int64
  pinned : Bool

structure EvictionInfo where
  id : String
  record : ImageRecord

/-- What is removed for it. -/
def EvictionInfo.spec (info : EvictionInfo) : ImageSpec :=
  ⟨info.id, info.record.runtime_handler_used_to_pull_image⟩

abbrev Records := Table String ImageRecord

structure Features where
  runtime_class_in_image_cri_api : Bool
  image_volume : Bool

inductive Reason where
  | age
  | space
  deriving DecidableEq

/-- A call of `remove_image`, with the path it is made on. -/
abbrev Call := ImageSpec × Reason

/-- What a run meets: the runtime, the clock and the disk. -/
structure World where
  list_images : Except String (List Image)
  get_pods : Except String (List GcPod)
  container_image_mounts : String → String → Except String (List String)
  /-- The runtime's answer, after the calls made so far. -/
  remove_image : List Call → ImageSpec → Except String Unit
  image_fs_stats : Except String FsStats
  free_time : DateTime
  now : DateTime
  /-- The order in which the map of the records is walked. -/
  walk : List ((_ : String) × ImageRecord) → List ((_ : String) × ImageRecord)
  walk_perm : ∀ l, (walk l).Perm l
  format_size : Int64 → String
  format_duration : Nat → String

structure Run where
  records : Records
  calls : List Call := []
  /-- The warnings recorded, each with its reason. -/
  warnings : List (String × String) := []

/-! ### Keys -/

def get_image_tuple (image_id runtime_handler : String) : String :=
  if runtime_handler = "" then image_id else image_id ++ "," ++ runtime_handler

/-- What stands before the first separator. -/
def get_image_id_from_tuple (image : String) : String :=
  String.ofList (image.toList.takeWhile (· != ','))

section

variable (f : Features)

def image_key (id runtime_handler : String) : String :=
  if f.runtime_class_in_image_cri_api then get_image_tuple id runtime_handler else id

def ImageSpec.key (spec : ImageSpec) : String := image_key f spec.image spec.runtime_handler

/-! ### Detection -/

variable (w : World)

def handle_image_volumes (images_in_use : List String) (container : GcContainer) (pod : GcPod)
    (images : List Image) : Except String (List String) :=
  if f.image_volume then
    match w.container_image_mounts pod.id container.id with
    | .error e => .error ("get container status: " ++ e)
    | .ok mounts => .ok ((mounts.flatMap fun mount_image =>
        (images.filter (mount_image = ·.id)).map (·.id)) ++ images_in_use)
  else .ok images_in_use

/-- The loop over the containers of all pods. -/
def collect_in_use (images : List Image) :
    List (GcPod × GcContainer) → List String → Except String (List String)
  | [], images_in_use => .ok images_in_use
  | (pod, container) :: rest, images_in_use =>
    match handle_image_volumes f w images_in_use container pod images with
    | .error e => .error e
    | .ok images_in_use => collect_in_use images rest
        (image_key f container.image_id container.image_runtime_handler :: images_in_use)

def containers (pods : List GcPod) : List (GcPod × GcContainer) :=
  pods.flatMap fun pod => pod.containers.map fun container => (pod, container)

def note (images_in_use : List String) (records : Records) (image : Image) : Records :=
  let key := image_key f image.id image.runtime_handler
  let record := (records.lookup key).getD
    { runtime_handler_used_to_pull_image := image.runtime_handler
      first_detected := w.free_time
      last_used := zero_time
      size := 0
      pinned := false }
  let last_used := if key ∈ images_in_use then w.now else record.last_used
  records.insert key
    { record with
      last_used := last_used
      size := image.size
      pinned := image.pinned }

def detect_images (records : Records) : Except String (List String × Records) :=
  match w.list_images, w.get_pods with
  | .error e, _ => .error e
  | .ok _, .error e => .error e
  | .ok images, .ok pods =>
    match collect_in_use f w images (containers pods) [] with
    | .error e => .error e
    | .ok images_in_use =>
      let current_images := images.map fun image => image_key f image.id image.runtime_handler
      .ok (images_in_use, (images.foldl (note f w images_in_use) records).filter (· ∈ current_images))

def evictable (images_in_use : List String) (entry : (_ : String) × ImageRecord) :
    Option EvictionInfo :=
  if entry.1 ∈ images_in_use then none
  else if entry.2.pinned then none
  else if f.runtime_class_in_image_cri_api then
    let image_id := get_image_id_from_tuple entry.1
    if image_id = "" then none else some ⟨image_id, entry.2⟩
  else some ⟨entry.1, entry.2⟩

/-- The warning about a record whose key holds no image id. -/
def invalid_image_id (images_in_use : List String) (entry : (_ : String) × ImageRecord) :
    Option (String × String) :=
  if entry.1 ∈ images_in_use ∨ entry.2.pinned = true ∨ f.runtime_class_in_image_cri_api = false ∨
      get_image_id_from_tuple entry.1 ≠ "" then none
  else some ("InvalidImageID", "ImageID is not valid, skipping, image: " ++ entry.1)

/-- Whether `a` is not used later than `b`, nor detected later in a tie. -/
def by_last_used_and_detected (a b : EvictionInfo) : Bool :=
  a.record.last_used.nanos < b.record.last_used.nanos ||
    (a.record.last_used.nanos == b.record.last_used.nanos &&
      decide (a.record.first_detected.nanos ≤ b.record.first_detected.nanos))

def images_in_eviction_order (s : Run) : Except String (List EvictionInfo) × Run :=
  match detect_images f w s.records with
  | .error e => (.error e, s)
  | .ok (images_in_use, records) =>
    let entries := w.walk records.entries
    (.ok ((entries.filterMap (evictable f images_in_use)).mergeSort by_last_used_and_detected),
      { s with
        records := records
        warnings := s.warnings ++ entries.filterMap (invalid_image_id f images_in_use) })

/-! ### Removal -/

def free_image (s : Run) (image : EvictionInfo) (reason : Reason) : Except String Unit × Run :=
  let spec := image.spec
  let called := { s with calls := s.calls ++ [(spec, reason)] }
  match w.remove_image s.calls spec with
  | .error e => (.error e, called)
  | .ok () => (.ok (),
      { called with
        records := s.records.erase (image.spec.key f) })

/-- A single error prints bare. -/
def aggregate : List String → String
  | [e] => e
  | errs => "[" ++ ", ".intercalate errs ++ "]"

variable (policy : ImageGcPolicy)

/-- The loop of `free_old_images`. -/
def free_old_loop : List EvictionInfo → List String → List EvictionInfo → Run →
    List String × List EvictionInfo × Run
  | [], errors, remaining, s => (errors, remaining, s)
  | image :: images, errors, remaining, s =>
    if to_chrono policy.max_age < w.free_time.nanos - image.record.last_used.nanos then
      match free_image f w s image .age with
      | (.error e, s) => free_old_loop images (errors ++ [e]) (remaining ++ [image]) s
      | (.ok (), s) => free_old_loop images errors remaining s
    else free_old_loop images errors (remaining ++ [image]) s

def free_old_images (images : List EvictionInfo) (began_gc : DateTime) (s : Run) :
    Except String (List EvictionInfo) × Run :=
  if policy.max_age = 0 then (.ok images, s)
  -- images in use before the kubelet started would look unused
  else if w.free_time.nanos - began_gc.nanos ≤ to_chrono policy.max_age then (.ok images, s)
  else
    match free_old_loop f w policy images [] [] s with
    | ([], remaining, s) => (.ok remaining, s)
    | (errors, _, s) => (.error ("wanted to free images older than " ++
        w.format_duration policy.max_age ++ ", encountered errors in image deletion: " ++
        aggregate errors), s)

/-- The loop of `free_space`: the errors, the images left and the bytes freed. -/
def free_space_loop (bytes_to_free : Int64) : List EvictionInfo → List String → List String →
    Int64 → Run → List String × List String × Int64 × Run
  | [], errors, left, freed, s => (errors, left, freed, s)
  | image :: images, errors, left, freed, s =>
    if w.free_time.nanos ≤ image.record.last_used.nanos ∨
        w.free_time.nanos - image.record.first_detected.nanos < to_chrono policy.min_age then
      free_space_loop bytes_to_free images errors (left ++ [image.id]) freed s
    else
      match free_image f w s image .space with
      | (.error e, s) =>
        free_space_loop bytes_to_free images (errors ++ [e]) (left ++ [image.id]) freed s
      | (.ok (), s) =>
        if bytes_to_free ≤ freed + image.record.size then
          (errors, left, freed + image.record.size, s)
        else free_space_loop bytes_to_free images errors left (freed + image.record.size) s

def free_space (bytes_to_free : Int64) (images : List EvictionInfo) (s : Run) :
    Except (Int64 × String) (List String × Int64) × Run :=
  match free_space_loop f w policy bytes_to_free images [] [] 0 s with
  | ([], left, freed, s) => (.ok (left, freed), s)
  | (errors, _, freed, s) => (.error (freed, "wanted to free " ++ toString bytes_to_free ++
      " bytes, but freed " ++ toString freed ++ " bytes space with errors in image deletion: " ++
      aggregate errors), s)

def warned (s : Run) (reason message : String) : Except String Unit × Run :=
  (.error message, { s with warnings := s.warnings ++ [(reason, message)] })

/-- The part of `garbage_collect` that looks at the disk. -/
def collect_for_space (images : List EvictionInfo) (s : Run) : Except String Unit × Run :=
  match w.image_fs_stats with
  | .error e => (.error e, s)
  | .ok fs_stats =>
    let capacity := (fs_stats.capacity_bytes.getD 0).toInt64
    let available := min (fs_stats.available_bytes.getD 0).toInt64 capacity
    if capacity = 0 then warned s "InvalidDiskCapacity" "invalid capacity 0 on image filesystem"
    else
      let usage_percent := 100 - (available * 100 / capacity).toInt32
      if policy.high_threshold_percent ≤ usage_percent then
        let amount_to_free :=
          capacity * (100 - policy.low_threshold_percent).toInt64 / 100 - available
        match free_space f w policy amount_to_free images s with
        | (.error (_, e), s) => (.error e, s)
        | (.ok (_, freed), s) =>
          if freed < amount_to_free then
            warned s "FreeDiskSpaceFailed" ("Insufficient free disk space on the node's image " ++
              "filesystem (" ++ toString usage_percent ++ "% of " ++ w.format_size capacity ++
              " used). Failed to free sufficient space by deleting unused images (freed " ++
              toString freed ++ " bytes). Investigate disk usage, as it could be used by active " ++
              "images, logs, volumes, or other data.")
          else (.ok (), s)
      else (.ok (), s)

def garbage_collect (began_gc : DateTime) (s : Run) : Except String Unit × Run :=
  match images_in_eviction_order f w s with
  | (.error e, s) => (.error e, s)
  | (.ok images, s) =>
    match free_old_images f w policy images began_gc s with
    | (.error e, s) => (.error e, s)
    | (.ok images, s) => collect_for_space f w policy images s

def delete_unused_images (s : Run) : Except String Unit × Run :=
  match images_in_eviction_order f w s with
  | (.error e, s) => (.error e, s)
  | (.ok images, s) =>
    match free_space f w policy Int64.maxValue images s with
    | (.error (_, e), s) => (.error e, s)
    | (.ok _, s) => (.ok (), s)

/-- How a run is started. -/
inductive Entry where
  | garbage_collect (began_gc : DateTime)
  | delete_unused_images

def run (records : Records) : Entry → Run
  | .garbage_collect began_gc => (garbage_collect f w policy began_gc { records }).2
  | .delete_unused_images => (delete_unused_images f w policy { records }).2

end

/-! ### What must stay -/

def Image.spec (image : Image) : ImageSpec := ⟨image.id, image.runtime_handler⟩

/-- When the image of a key was first detected: in this run, if there is no record of it. -/
def first_detected (w : World) (records : Records) (k : String) : DateTime :=
  ((records.lookup k).map (·.first_detected)).getD w.free_time

section

variable (f : Features) (w : World) (records : Records) (images : List Image) (pods : List GcPod)
  (k : String)

/-- The listed images of the key; of those that share it the last decides whether it is pinned. -/
def under (image : Image) : Bool := image_key f image.id image.runtime_handler = k

def offered : List EvictionInfo :=
  match (images_in_eviction_order f w { records }).1 with
  | .ok images => images
  | .error _ => []

end

section

variable {f : Features} {w : World} {records records' : Records} {images : List Image}
  {pods : List GcPod} {in_use : List String} {k : String}

/-! ### Images in use -/

/-- From `s` to `s'` only calls that meet `P` are made. -/
def Only (P : Call → Prop) (s s' : Run) : Prop := ∀ c ∈ s'.calls, c ∈ s.calls ∨ P c

theorem Only.refl (P : Call → Prop) (s : Run) : Only P s s := fun _ => .inl

theorem Only.trans {P : Call → Prop} {s t u : Run} (h : Only P s t) (h' : Only P t u) :
    Only P s u :=
  fun c hc => (h' c hc).elim (h c) .inr

theorem Only.free_image {P : Call → Prop} {image : EvictionInfo} {reason : Reason}
    (hP : P (image.spec, reason)) (s : Run) : Only P s (free_image f w s image reason).2 := by
  have hcalls : ∀ c ∈ s.calls ++ [(image.spec, reason)], c ∈ s.calls ∨ P c :=
    forall_mem_append.mpr ⟨fun _ => .inl, forall_mem_singleton.mpr (.inr hP)⟩
  simp only [ImageGc.free_image]
  cases w.remove_image s.calls image.spec with
  | error e => exact hcalls
  | ok _ => exact hcalls

variable {policy : ImageGcPolicy}

variable {all images : List EvictionInfo}

end

namespace Sample

def policy : ImageGcPolicy := ⟨85, 80, 0, 0⟩

def clock : DateTime := ⟨0, by decide⟩

/-- A runtime with the images, and one container that mounts `mounted`. -/
def world (images : List Image) (mounted : List String) : World where
  list_images := .ok images
  get_pods := .ok [⟨"pod", [⟨"c", "base", ""⟩]⟩]
  container_image_mounts _ _ := .ok mounted
  remove_image _ _ := .ok ()
  image_fs_stats := .error "no stats"
  free_time := clock
  now := clock
  walk := id
  walk_perm l := .refl l
  format_size _ := ""
  format_duration _ := ""

end Sample

section

variable (w : World) (policy : ImageGcPolicy) (bytes_to_free freed : Int64)

/-- It was neither used too recently nor detected too late to be removed for space. -/
def eligible (image : EvictionInfo) : Bool :=
  !decide (w.free_time.nanos ≤ image.record.last_used.nanos ∨
    w.free_time.nanos - image.record.first_detected.nanos < to_chrono policy.min_age)

def eligible_bytes (images : List EvictionInfo) : Int64 :=
  ((images.filter (eligible w policy)).map (·.record.size)).sum

/-- The shortest beginning of which the eligible images free enough, or the whole. -/
structure Shortest (shortest rest : List EvictionInfo) : Prop where
  ends : rest = [] ∨ bytes_to_free ≤ eligible_bytes w policy shortest
  goes_on : ∀ n < shortest.length, eligible_bytes w policy (shortest.take n) < bytes_to_free

/-- No eligible image of these brings what is freed to `bytes_to_free`. -/
def FreeLess (images : List EvictionInfo) : Prop :=
  ∀ n ≤ images.length, (images.take n).any (eligible w policy) = true →
    freed + eligible_bytes w policy (images.take n) < bytes_to_free

/-- No eligible image before it brings the sum to `bytes_to_free`. -/
def Considered (images : List EvictionInfo) (c : EvictionInfo) : Prop :=
  ∃ before after, images = before ++ c :: after ∧ FreeLess w policy bytes_to_free 0 before

/-- What the loop goes through: it ends after an eligible image with which enough is freed, or
    with the last one. -/
structure Walk (reached rest : List EvictionInfo) : Prop where
  ends : rest = [] ∨ reached.any (eligible w policy) = true ∧
    bytes_to_free ≤ freed + eligible_bytes w policy reached
  goes_on : ∀ before c after, reached = before ++ c :: after →
    FreeLess w policy bytes_to_free freed before

end

section

variable {f : Features} {w : World} {policy : ImageGcPolicy} {bytes_to_free freed : Int64}
  {reached rest images : List EvictionInfo} {image : EvictionInfo} {left : List String}
  {s s' : Run}

theorem eligible_bytes_cons (image : EvictionInfo) (images : List EvictionInfo) :
    eligible_bytes w policy (image :: images) =
      eligible_bytes w policy [image] + eligible_bytes w policy images := by
  unfold eligible_bytes
  rw [filter_cons, filter_cons]
  split_ifs <;> simp

theorem eligible_bytes_of_none (h : images.any (eligible w policy) = false) :
    eligible_bytes w policy images = 0 := by
  have hnone : images.filter (eligible w policy) = [] := by simpa using h
  rw [eligible_bytes, hnone]
  rfl

theorem FreeLess.cons (h : FreeLess w policy bytes_to_free
      (freed + eligible_bytes w policy [image]) images)
    (hless : eligible w policy image = true →
      freed + eligible_bytes w policy [image] < bytes_to_free) :
    FreeLess w policy bytes_to_free freed (image :: images) := by
  intro n hn hany
  cases n with
  | zero => cases hany
  | succ n =>
    rw [take_succ_cons, eligible_bytes_cons, ← Int64.add_assoc]
    cases hrest : (images.take n).any (eligible w policy) with
    | true => exact h n (Nat.le_of_succ_le_succ hn) hrest
    | false =>
      rw [eligible_bytes_of_none hrest, Int64.add_zero]
      exact hless (by simpa [hrest] using hany)

theorem Walk.cons
    (h : Walk w policy bytes_to_free (freed + eligible_bytes w policy [image]) reached rest)
    (hless : eligible w policy image = true →
      freed + eligible_bytes w policy [image] < bytes_to_free) :
    Walk w policy bytes_to_free freed (image :: reached) rest where
  ends := by
    rw [eligible_bytes_cons, ← Int64.add_assoc, any_cons]
    exact h.ends.imp_right fun h => ⟨by simp [h.1], h.2⟩
  goes_on := by
    intro before c after heq
    cases before with
    | nil =>
      intro n hn hany
      rw [take_nil] at hany
      cases hany
    | cons b before =>
      obtain ⟨rfl, htail⟩ := cons.inj heq
      exact (h.goes_on before c after htail).cons hless

/-- **A loop that ends without an error** has walked through a beginning of its images. -/
theorem free_space_loop_walk {errors left' : List String} {freed' : Int64}
    (h : free_space_loop f w policy bytes_to_free images errors left freed s =
      ([], left', freed', s')) :
    errors = [] ∧ ∃ reached rest, images = reached ++ rest ∧
      Walk w policy bytes_to_free freed reached rest ∧
      s'.calls = s.calls ++ (reached.filter (eligible w policy)).map (fun i => (i.spec, .space)) ∧
      left' = left ++ (reached.filter (!eligible w policy ·)).map (·.id) ∧
      freed' = freed + eligible_bytes w policy reached := by
  induction images generalizing errors left freed s with
  | nil =>
    cases h
    refine ⟨rfl, [], [], rfl, ⟨.inl rfl, ?_⟩, by simp, by simp, by simp [eligible_bytes]⟩
    intro before c after heq
    simp at heq
  | cons image images ih =>
    have hone : eligible_bytes w policy [image] =
        if eligible w policy image then image.record.size else 0 := by
      unfold eligible_bytes
      rw [filter_cons]
      split_ifs <;> simp
    unfold free_space_loop at h
    split at h
    · next hskip =>
      have hnot : eligible w policy image = false := by simp [eligible, hskip]
      rw [hnot, if_neg Bool.false_ne_true] at hone
      obtain ⟨herr, reached, rest, rfl, hwalk, hcalls, hleft, hfreed⟩ := ih h
      refine ⟨herr, image :: reached, rest, rfl, .cons ?_ (by simp [hnot]), ?_, ?_, ?_⟩
      · rwa [hone, Int64.add_zero]
      · simpa [hnot] using hcalls
      · simpa [hnot] using hleft
      · rwa [eligible_bytes_cons, hone, Int64.zero_add]
    · next htake =>
      have hel : eligible w policy image = true := by simpa [eligible] using htake
      rw [if_pos hel] at hone
      unfold free_image at h
      cases hremove : w.remove_image s.calls image.spec with
      | error e =>
        simp only [hremove] at h
        exact absurd (ih h).1 (by simp)
      | ok =>
        simp only [hremove] at h
        rw [← hone] at h
        split at h
        · next henough =>
          cases h
          refine ⟨rfl, [image], images, rfl, ⟨.inr ⟨by simp [hel], henough⟩, ?_⟩, by simp [hel],
            by simp [hel], rfl⟩
          intro before c after heq n hn hany
          obtain rfl : before = [] := by
            cases before with
            | nil => rfl
            | cons => simp at heq
          simp at hany
        · next hmore =>
          obtain ⟨herr, reached, rest, rfl, hwalk, hcalls, hleft, hfreed⟩ := ih h
          refine ⟨herr, image :: reached, rest, rfl, hwalk.cons fun _ => Int64.not_le.mp hmore,
            ?_, ?_, ?_⟩
          · simpa [hel] using hcalls
          · simpa [hel] using hleft
          · rwa [eligible_bytes_cons, ← Int64.add_assoc]

/-- What the loop goes through is what it has to consider. -/
theorem Walk.considered_iff (h : Walk w policy bytes_to_free 0 reached rest) {c : EvictionInfo} :
    Considered w policy bytes_to_free (reached ++ rest) c ↔ c ∈ reached := by
  constructor
  · rintro ⟨before, after, heq, hless⟩
    -- it does not stand behind the end of the walk
    have hwithin : ∀ more, before = reached ++ more → rest ≠ [] → False := by
      rintro more rfl hrest
      obtain ⟨hany, henough⟩ := h.ends.resolve_left hrest
      have hlt := hless reached.length (by simp) (by simpa using hany)
      rw [take_left] at hlt
      exact absurd henough (Int64.not_le.mpr hlt)
    rcases append_eq_append_iff.mp heq with ⟨more, hbefore, rfl⟩ | ⟨more, hreached, hafter⟩
    · exact (hwithin more hbefore (by simp)).elim
    · cases more with
      | nil =>
        refine (hwithin [] (by simp [hreached]) fun hrest => ?_).elim
        rw [hrest] at hafter
        cases hafter
      | cons d more =>
        obtain ⟨rfl, -⟩ := cons.inj hafter
        simp [hreached]
  · intro hc
    obtain ⟨before, after, rfl⟩ := append_of_mem hc
    exact ⟨before, after ++ rest, by simp, h.goes_on before c after rfl⟩

/-- The walk removes what the shortest beginning has, if and only if there is something to free
    or nothing that may go: the amount is looked at after a removal. -/
theorem Walk.shortest (h : Walk w policy bytes_to_free 0 reached rest) :
    ∃ shortest rest', reached ++ rest = shortest ++ rest' ∧
      Shortest w policy bytes_to_free shortest rest' ∧
      ((0 < bytes_to_free ∨ ∀ image ∈ reached ++ rest, eligible w policy image = false) ∧
          shortest.filter (eligible w policy) = reached.filter (eligible w policy) ∨
        ¬(0 < bytes_to_free ∨ ∀ image ∈ reached ++ rest, eligible w policy image = false) ∧
          shortest = [] ∧ reached.filter (eligible w policy) ≠ []) := by
  by_cases hpos : 0 < bytes_to_free
  · refine ⟨reached, rest, rfl, ⟨?_, fun n hn => ?_⟩, .inl ⟨.inl hpos, rfl⟩⟩
    · exact h.ends.imp_right fun hends => by simpa using hends.2
    · cases hany : (reached.take n).any (eligible w policy) with
      | false => rwa [eligible_bytes_of_none hany]
      | true =>
        have hsplit : reached = reached.take n ++ reached[n] :: reached.drop (n + 1) := by simp
        have hless := h.goes_on _ _ _ hsplit n (by simp; omega)
        rw [take_take, min_self, Int64.zero_add] at hless
        exact hless hany
  · refine ⟨[], reached ++ rest, rfl, ⟨.inr (Int64.not_lt.mp hpos), by simp⟩, ?_⟩
    by_cases hnone : ∀ image ∈ reached ++ rest, eligible w policy image = false
    · refine .inl ⟨.inr hnone, ?_⟩
      symm
      simpa using fun image himage => hnone image (mem_append_left _ himage)
    · refine .inr ⟨not_or.mpr ⟨hpos, hnone⟩, rfl, ?_⟩
      rcases h.ends with rfl | ⟨hany, -⟩
      · simpa using hnone
      · simpa using hany

/-- Every listed image that stays is reported exactly if each has a candidate of its id that is
    not removed as another image. -/
theorem kept_reported_iff {listed : List Image} :
    (∀ image ∈ listed, image.spec ∉ (reached.filter (eligible w policy)).map (·.spec) →
        image.id ∈ (reached.filter (!eligible w policy ·)).map (·.id)) ↔
      ∀ image ∈ listed, ∃ c, c ∈ reached ∧ c.id = image.id ∧
        (eligible w policy c = true → c.spec = image.spec) := by
  refine forall₂_congr fun image _ => ?_
  constructor
  · intro hleft
    by_cases hremoved : image.spec ∈ (reached.filter (eligible w policy)).map (·.spec)
    · obtain ⟨c, hc, hspec⟩ := mem_map.mp hremoved
      exact ⟨c, (mem_filter.mp hc).1, congrArg ImageSpec.image hspec, fun _ => hspec⟩
    · obtain ⟨c, hc, hid⟩ := mem_map.mp (hleft hremoved)
      obtain ⟨hc, hnot⟩ := mem_filter.mp hc
      exact ⟨c, hc, hid, fun hel => by simp [hel] at hnot⟩
  · rintro ⟨c, hc, hid, hspec⟩ hkept
    refine mem_map.mpr ⟨c, mem_filter.mpr ⟨hc, ?_⟩, hid⟩
    cases hel : eligible w policy c with
    | false => rfl
    | true => exact absurd (mem_map.mpr ⟨c, mem_filter.mpr ⟨hc, hel⟩, hspec hel⟩) hkept

theorem removed_not_reported_iff :
    (∀ c ∈ reached.filter (eligible w policy),
        c.id ∉ (reached.filter (!eligible w policy ·)).map (·.id)) ↔
      ∀ c c', c ∈ reached → c' ∈ reached → eligible w policy c = true →
        eligible w policy c' = false → c.id ≠ c'.id := by
  constructor
  · intro hall c c' hc hc' hel hnot hid
    refine hall c (mem_filter.mpr ⟨hc, hel⟩) (mem_map.mpr ⟨c', mem_filter.mpr ⟨hc', ?_⟩, hid.symm⟩)
    simp [hnot]
  · intro hall c hc hleft
    obtain ⟨c', hc', hid⟩ := mem_map.mp hleft
    obtain ⟨hc, hel⟩ := mem_filter.mp hc
    obtain ⟨hc', hnot⟩ := mem_filter.mp hc'
    exact hall c c' hc hc' hel (by simpa using hnot) hid.symm

end

/-- **What a pass for space removes and reports.** Where no removal fails, the eligible images
    of the shortest beginning that frees enough are removed (of the whole list, if none does)
    and their sizes returned, and what is reported as left and handed to the hooks has every
    listed image that was not removed and no removed one, if and only if there is something to
    free or nothing that may go, every listed image comes before enough is freed, and none
    that may go shares its id with one that may not. -/
theorem reached_images_reported {f : Features} {w : World} {policy : ImageGcPolicy}
    {bytes_to_free freed : Int64} {images : List EvictionInfo} {left : List String} {s s' : Run}
    (h : free_space f w policy bytes_to_free images s = (.ok (left, freed), s')) :
    ∃ shortest rest, images = shortest ++ rest ∧ Shortest w policy bytes_to_free shortest rest ∧
      ∀ listed, w.list_images = .ok listed →
      ((s'.calls = s.calls ++
            (shortest.filter (eligible w policy)).map (fun i => (i.spec, .space)) ∧
          freed = eligible_bytes w policy shortest ∧
          (∀ image ∈ listed, image.spec ∉ (shortest.filter (eligible w policy)).map (·.spec) →
            image.id ∈ left) ∧
          ∀ c ∈ shortest.filter (eligible w policy), c.id ∉ left) ↔
        (0 < bytes_to_free ∨ ∀ image ∈ images, eligible w policy image = false) ∧
          (∀ image ∈ listed, ∃ c, Considered w policy bytes_to_free images c ∧
            c.id = image.id ∧ (eligible w policy c = true → c.spec = image.spec)) ∧
          ∀ c c', Considered w policy bytes_to_free images c →
            Considered w policy bytes_to_free images c' → eligible w policy c = true →
            eligible w policy c' = false → c.id ≠ c'.id) := by
  unfold free_space at h
  split at h
  · next hloop =>
    cases h
    obtain ⟨-, reached, rest, rfl, hwalk, hcalls, rfl, rfl⟩ := free_space_loop_walk hloop
    obtain ⟨shortest, rest', heq, hshortest, hcases⟩ := hwalk.shortest
    refine ⟨shortest, rest', heq, hshortest, fun listed _ => ?_⟩
    simp only [hwalk.considered_iff]
    rcases hcases with ⟨hcond, hsame⟩ | ⟨hcond, rfl, hsome⟩
    · have hbytes : eligible_bytes w policy shortest = eligible_bytes w policy reached := by
        rw [eligible_bytes, hsame]
        rfl
      rw [hsame, hbytes, hcalls]
      simp only [hcond, Int64.zero_add, true_and]
      exact and_congr kept_reported_iff removed_not_reported_iff
    · refine iff_of_false ?_ fun hright => hcond hright.1
      rintro ⟨hnothing, -⟩
      rw [hcalls] at hnothing
      exact hsome (by simpa using hnothing)
  · cases h

namespace Sample

def info (id : String) : EvictionInfo := ⟨id, "", clock, zero_time, 1, false⟩

/-- An image in use, a pinned one, and two that may go. -/
def four : World :=
  world [⟨"base", 1, "", false⟩, ⟨"p", 1, "", true⟩, ⟨"a", 1, "", false⟩, ⟨"b", 1, "", false⟩] []

/-- An image that may go. -/
def single : World := world [⟨"b", 1, "", false⟩] []

end Sample

/-- A pass over one image that has one byte to free. -/
theorem one_byte_freed : ∃ shortest rest, [Sample.info "b"] = shortest ++ rest ∧
    (∀ image ∈ [(⟨"b", 1, "", false⟩ : Image)],
      image.spec ∉ (shortest.filter (eligible Sample.single Sample.policy)).map (·.spec) →
        image.id ∈ ([] : List String)) := by
  have hpass : free_space ⟨false, false⟩ Sample.single Sample.policy 1 [Sample.info "b"]
      { records := ∅ } = (.ok ([], 1), _) := rfl
  obtain ⟨shortest, rest, heq, -, hiff⟩ := reached_images_reported hpass
  refine ⟨shortest, rest, heq, ((hiff _ rfl).mpr ⟨.inl (by decide), ?_, ?_⟩).2.2.1⟩
  · intro image himage
    obtain rfl := mem_singleton.mp himage
    refine ⟨Sample.info "b", ⟨[], [], rfl, fun n hn hany => ?_⟩, rfl, fun _ => rfl⟩
    simp at hany
  · rintro c c' ⟨before, after, heq, -⟩ ⟨before', after', heq', -⟩ hel hnot
    have hc : c ∈ [Sample.info "b"] := heq ▸ by simp
    have hc' : c' ∈ [Sample.info "b"] := heq' ▸ by simp
    rw [mem_singleton.mp hc, ← mem_singleton.mp hc', hnot] at hel
    cases hel

/-- An image in use, a pinned one and one that was not reached are not reported, and an image
    is removed where nothing is to be freed. -/
theorem kept_images_not_reported :
    let pass := fun bytes => free_space ⟨false, false⟩ Sample.four Sample.policy bytes
      (offered ⟨false, false⟩ Sample.four ∅) { records := ∅ }
    (pass 1).1.toOption = some ([], 1) ∧ (pass 1).2.calls = [(⟨"b", ""⟩, .space)] ∧
      (pass 0).2.calls = [(⟨"b", ""⟩, .space)] := by
  have horder : offered ⟨false, false⟩ Sample.four ∅ = [Sample.info "b", Sample.info "a"] :=
    mergeSort_of_pairwise (l := [Sample.info "b", Sample.info "a"]) (by decide)
  rw [horder]
  decide +kernel

end ImageGc
