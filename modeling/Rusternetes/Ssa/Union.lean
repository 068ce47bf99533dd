import Rusternetes.Framework.JsonText
import Rusternetes.Ssa.Intents

/-! # Whole Sequences of Applies

    The invariant along every sequence of requests, and from it when the object is
    the union of intents at every moment.
-/

open List Set

namespace Ssa

open Framework
open ManagedFields (Serde ManagedFieldsEntry)

section Run

variable {T : Type} {serde : Serde} {resource : Resource T} {schema : ResourceLeafSchema}
  {r : Request} {s : State T}

theorem serve_of_applied {object : T}
    (h : apply_via_schema serde resource schema s.object r.desired r.opts r.now =
      .ok (.applied object)) :
    serve serde resource schema s r = ⟨some object, r.claim schema :: s.accepted⟩ := by
  rw [serve, h]

theorem serve_cases (s : State T) (r : Request) :
    (∃ object, apply_via_schema serde resource schema s.object r.desired r.opts r.now =
        .ok (.applied object) ∧
      serve serde resource schema s r = ⟨some object, r.claim schema :: s.accepted⟩) ∨
    (¬ Accepted serde resource schema s r ∧ serve serde resource schema s r = s) := by
  by_cases h : Accepted serde resource schema s r
  · obtain ⟨object, h⟩ := h
    exact .inl ⟨object, h, serve_of_applied h⟩
  · refine .inr ⟨h, ?_⟩
    rw [serve]
    split
    · next object happlied => exact absurd ⟨object, happlied⟩ h
    · rfl

theorem serve_all_append (earlier : List Request) (r : Request) :
    serve_all serde resource schema (earlier ++ [r]) =
      serve serde resource schema (serve_all serde resource schema earlier) r := by
  rw [serve_all, foldl_append]
  rfl

variable {requests : List Request}

theorem serve_all_take {i : Nat} (h : requests[i]? = some r) :
    serve_all serde resource schema (requests.take (i + 1)) =
      serve serde resource schema (serve_all serde resource schema (requests.take i)) r := by
  rw [take_add_one, h]
  exact serve_all_append _ _

theorem accepted_serve_all (h : ∀ i r, requests[i]? = some r →
      Accepted serde resource schema (serve_all serde resource schema (requests.take i)) r) :
    (serve_all serde resource schema requests).accepted =
      (requests.map (Request.claim schema)).reverse := by
  have htake : ∀ i, (serve_all serde resource schema (requests.take i)).accepted =
      ((requests.take i).map (Request.claim schema)).reverse := by
    intro i
    induction i with
    | zero => rfl
    | succ i ih =>
      cases hr : requests[i]? with
      | none =>
        rw [take_add_one, hr, Option.toList_none, append_nil]
        exact ih
      | some r =>
        obtain ⟨object, happlied⟩ := h i r hr
        rw [serve_all_take hr, serve_of_applied happlied, ih, take_add_one, hr]
        simp
  rw [← take_length (l := requests)]
  exact htake requests.length

variable (hlaw : Lawful serde resource schema) (hplain : schema.Plain)

include hlaw hplain in
/-- **Every sequence of requests** keeps the object tracked. -/
theorem tracked_serve_all (hbody : ∀ r ∈ requests, Shaped r.desired) :
    Tracked serde resource schema (serve_all serde resource schema requests).object := by
  induction requests using reverseRecOn with
  | nil => exact Tracked.none
  | append_singleton earlier r ih =>
    have htrack := ih fun r hr => hbody r (mem_append_left _ hr)
    rw [serve_all_append]
    rcases serve_cases (serve_all serde resource schema earlier) r with ⟨object, h, heq⟩ | ⟨_, heq⟩
    · rw [heq]
      have hr := hbody r (mem_append_right _ (mem_singleton_self r))
      exact (htrack.accept hlaw hplain hr h).1
    · rw [heq]
      exact htrack

theorem unionOfIntents_iff (htrack : Tracked serde resource schema s.object) :
    UnionOfIntents serde resource schema s ↔
      recorded serde resource s.object = Claim.intents s.accepted := by
  constructor
  · intro h
    funext m
    exact h.owners m
  · intro h
    refine ⟨?_, fun m => congrFun h m⟩
    intro group hg
    ext key
    rw [htrack.keys group hg, h]
    rfl

include hlaw hplain in
/-- **One request**: where the record is right, it stays right exactly when nothing shared is
    left out. -/
theorem recorded_serve_iff (htrack : Tracked serde resource schema s.object)
    (hbody : Shaped r.desired)
    (hright : recorded serde resource s.object = Claim.intents s.accepted) :
    recorded serde resource (serve serde resource schema s r).object =
        Claim.intents (serve serde resource schema s r).accepted ↔
      (Accepted serde resource schema s r →
        (r.claim schema).KeepsShared (recorded serde resource s.object)) := by
  rcases serve_cases s r with ⟨object, h, heq⟩ | ⟨hnot, heq⟩
  · rw [heq]
    show recorded serde resource (some object) = (r.claim schema).settle (Claim.intents s.accepted) ↔ _
    rw [(htrack.accept hlaw hplain hbody h).2, ← hright, Claim.cling_eq_settle_iff]
    exact ⟨fun hkeeps _ => hkeeps, fun hkeeps => hkeeps ⟨object, h⟩⟩
  · rw [heq]
    exact iff_of_true hright fun hacc => absurd hacc hnot

include hlaw hplain in
/-- **Nothing is taken without force.** A request without force leaves what another manager
    has on record as it was, and in the object. -/
theorem unforced_keeps_others (hbody : ∀ r' ∈ requests ++ [r], Shaped r'.desired)
    (hforce : r.opts.force = false) {m : String} (hm : m ≠ r.opts.field_manager) :
    let before := recorded serde resource (serve_all serde resource schema requests).object m
    let after := (serve_all serde resource schema (requests ++ [r])).object
    recorded serde resource after m = before ∧ ∀ group ∈ schema.string_map_groups, ∀ key,
      group.pointer key ∈ before → key ∈ present resource after group := by
  intro before after
  have hsame : recorded serde resource after m = before := by
    subst after before
    rw [serve_all_append]
    rcases serve_cases (serve_all serde resource schema requests) r with ⟨_, h, heq⟩ | ⟨_, heq⟩
    · have htrack := tracked_serve_all hlaw hplain fun r hr => hbody r (mem_append_left _ hr)
      rw [heq, (htrack.accept hlaw hplain (hbody r (by simp)) h).2, Claim.cling_of_ne _ _ hm]
      simp [Claim.taken, Request.claim, hforce]
    · rw [heq]
  refine ⟨hsame, fun group hg key hkey => ?_⟩
  exact ((tracked_serve_all hlaw hplain hbody).keys group hg key).mpr ⟨m, hsame ▸ hkey⟩

end Run

/-- **Union of intents.** Along a sequence of applies of ConfigMaps or Secrets, the maps and
    the record are at every moment those of the managers' latest accepted configurations,
    without what was taken by force, if and only if no accepted apply leaves out a leaf that
    its manager has on record while another manager has it on record too. -/
theorem union_of_intents_iff_keeps_shared {T : Type} {serde : Serde} {resource : Resource T}
    {schema : ResourceLeafSchema} (hschema : schema ∈ [CONFIGMAP_SCHEMA, SECRET_SCHEMA])
    (hlaw : Lawful serde resource schema) {requests : List Request}
    (hbody : ∀ r ∈ requests, Shaped r.desired) :
    (∀ i, UnionOfIntents serde resource schema
        (serve_all serde resource schema (requests.take i))) ↔
      ∀ i r, requests[i]? = some r →
        Accepted serde resource schema (serve_all serde resource schema (requests.take i)) r →
        (r.claim schema).KeepsShared
          (recorded serde resource (serve_all serde resource schema (requests.take i)).object) := by
  have hplain : schema.Plain := by
    rcases mem_cons.mp hschema with rfl | h
    · exact ResourceLeafSchema.plain_configmap
    · rw [mem_singleton.mp h]
      exact ResourceLeafSchema.plain_secret
  have htrack : ∀ i, Tracked serde resource schema
      (serve_all serde resource schema (requests.take i)).object :=
    fun i => tracked_serve_all hlaw hplain fun r hr => hbody r (mem_of_mem_take hr)
  constructor
  · intro hunion i r hr
    have hright := (unionOfIntents_iff (htrack i)).mp (hunion i)
    have hnext := (unionOfIntents_iff (htrack (i + 1))).mp (hunion (i + 1))
    rw [serve_all_take hr] at hnext
    exact (recorded_serve_iff hlaw hplain (htrack i) (hbody r (mem_of_getElem? hr)) hright).mp
      hnext
  · intro hkeeps i
    rw [unionOfIntents_iff (htrack i)]
    induction i with
    | zero =>
      funext m
      exact recorded_none m
    | succ i ih =>
      cases hr : requests[i]? with
      | none =>
        -- all the requests were served before
        rw [take_add_one, hr, Option.toList_none, append_nil]
        exact ih
      | some r =>
        rw [serve_all_take hr]
        exact (recorded_serve_iff hlaw hplain (htrack i) (hbody r (mem_of_getElem? hr)) ih).mpr
          (hkeeps i r hr)

/-! ### A shared key that everyone drops -/

namespace Sample

def serde : Serde where
  to_string := JsonText.to_string
  from_str := JsonText.from_str
  from_to_string := JsonText.from_to_string
  format_time := JsonText.format_time
  parse_time := JsonText.parse_time
  parse_format_time := JsonText.parse_format_time

/-- Absent, `null`, or a map of strings. -/
def is_string_map : Option Json → Bool
  | none | some .null => true
  | some (.object map) => map.all fun f => f.2.as_str.isSome
  | some _ => false

/-- A ConfigMap as its JSON: metadata and maps of the right kind. -/
def well_formed : Json → Bool
  | .object obj =>
    (match obj.lookup "metadata" with
      | none => true
      | some (.object _) => true
      | some _ => false) &&
    CONFIGMAP_SCHEMA.string_map_groups.all fun group =>
      is_string_map (LeafGroup.walk (.object obj) group.path)
  | _ => false

def configmap : Resource Json where
  to_value v := .ok v
  from_value v := if well_formed v then .ok v else .error "invalid ConfigMap"

theorem shaped_of_well_formed {v : Json} (h : well_formed v = true) : Shaped v := by
  cases v with
  | object obj =>
    refine ⟨obj, rfl, fun x hx => ?_⟩
    have hmeta := (Bool.and_eq_true_iff.mp h).1
    rw [hx] at hmeta
    cases x with
    | object fields => exact ⟨fields, rfl⟩
    | _ => cases hmeta
  | _ => cases h

theorem from_value_configmap {v object : Json} (h : configmap.from_value v = .ok object) :
    well_formed v = true ∧ object = v := by
  simp only [configmap] at h
  split_ifs at h with hv
  exact ⟨hv, (Except.ok.inj h).symm⟩

theorem lawful_configmap : Lawful serde configmap CONFIGMAP_SCHEMA where
  encodes := by
    intro v object h
    obtain ⟨hv, rfl⟩ := from_value_configmap h
    exact ⟨_, rfl, shaped_of_well_formed hv⟩
  keys := by
    intro v object w _ h hw group _ key
    obtain ⟨_, rfl⟩ := from_value_configmap h
    rw [← Except.ok.inj hw]
  managed := by
    intro v entries object w _ h hw
    obtain ⟨_, rfl⟩ := from_value_configmap h
    rw [← Except.ok.inj hw]

def body (data : Map) : Json :=
  .object ([("apiVersion", .string "v1")] ++ (if data.isEmpty then [] else [("data", .object data)]))

def request (manager : String) (data : Map) : Request := ⟨body data, ⟨manager, false⟩, 0⟩

def run (requests : List Request) : State Json :=
  serve_all serde configmap CONFIGMAP_SCHEMA requests

def accepts (s : State Json) (r : Request) : Bool :=
  match apply_via_schema serde configmap CONFIGMAP_SCHEMA s.object r.desired r.opts r.now with
  | .ok (.applied _) => true
  | _ => false

theorem accepted_of_accepts {s : State Json} {r : Request} (h : accepts s r = true) :
    Accepted serde configmap CONFIGMAP_SCHEMA s r := by
  rw [accepts] at h
  split at h
  · next object happlied => exact ⟨object, happlied⟩
  · cases h

/-- Two managers apply the same key, then both leave it out. -/
def requests : List Request :=
  [request "a" [("k", .string "v")], request "b" [("k", .string "v")], request "a" [],
    request "b" []]

theorem accepted_run :
    (run requests).accepted = (requests.map (Request.claim CONFIGMAP_SCHEMA)).reverse := by
  have haccepts : ∀ i < 4, ∀ r ∈ requests[i]?, accepts (run (requests.take i)) r = true := by
    decide +kernel
  apply accepted_serve_all
  intro i r hr
  have hi : i < 4 := (List.getElem?_eq_some_iff.mp hr).1
  exact accepted_of_accepts (haccepts i hi r hr)

/-- A configuration that leaves the key out has no leaves. -/
theorem paths_request_nil (manager : String) :
    ((request manager []).claim CONFIGMAP_SCHEMA).paths = ∅ := by
  have hnone : config_leaves CONFIGMAP_SCHEMA (body []) = {} := by decide
  apply eq_empty_of_forall_notMem
  intro p hp
  have hp : p ∈ config_leaves CONFIGMAP_SCHEMA (body []) := hp
  rw [hnone] at hp
  exact OwnedPaths.not_mem_empty p hp

theorem intents_run (manager : String) : Claim.intents (run requests).accepted manager = ∅ := by
  have hclaims : (requests.map (Request.claim CONFIGMAP_SCHEMA)).reverse =
      [(request "b" []).claim CONFIGMAP_SCHEMA, (request "a" []).claim CONFIGMAP_SCHEMA,
        (request "b" [("k", .string "v")]).claim CONFIGMAP_SCHEMA,
        (request "a" [("k", .string "v")]).claim CONFIGMAP_SCHEMA] := rfl
  rw [accepted_run, hclaims]
  by_cases hb : manager = "b"
  · subst hb
    exact (Claim.settle_manager _ _).trans (paths_request_nil "b")
  · rw [Claim.intents, Claim.settle_of_ne _ _ hb]
    apply eq_empty_of_subset_empty
    refine sdiff_subset.trans ?_
    by_cases ha : manager = "a"
    · subst ha
      rw [Claim.intents]
      exact ((Claim.settle_manager _ _).trans (paths_request_nil "a")).subset
    · rw [Claim.intents, Claim.settle_of_ne _ _ ha]
      refine sdiff_subset.trans ?_
      rw [Claim.intents, Claim.settle_of_ne _ _ hb]
      refine sdiff_subset.trans ?_
      rw [Claim.intents, Claim.settle_of_ne _ _ ha]
      exact sdiff_subset

variable {object : Option Json}

theorem mem_present_iff {group : LeafGroup} {key : String} :
    key ∈ present configmap object group ↔
      key ∈ (group.extract_map (object_value configmap object)).map Prod.fst :=
  Iff.rfl

theorem mem_recorded_iff {manager p : String} :
    p ∈ recorded serde configmap object manager ↔
      ∃ entry ∈ extract_managed_fields serde (object_value configmap object),
        entry_manager entry = manager ∧ p ∈ entry_paths entry :=
  Iff.rfl

theorem mem_present_run : "k" ∈ present configmap (run requests).object .data := by
  rw [mem_present_iff]
  decide +kernel

theorem not_union_of_unwanted {s : State Json} {group : LeafGroup} {key : String}
    (hg : group ∈ CONFIGMAP_SCHEMA.string_map_groups)
    (hnone : ∀ manager, Claim.intents s.accepted manager = ∅)
    (hkey : key ∈ present configmap s.object group) :
    ¬ UnionOfIntents serde configmap CONFIGMAP_SCHEMA s := by
  intro hunion
  rw [hunion.keys group hg] at hkey
  obtain ⟨m, hm⟩ := hkey
  rw [hnone] at hm
  exact hm

def keeps_shared (entries : List ManagedFieldsEntry) (r : Request) : Bool :=
  entries.all fun entry => entries.all fun other =>
    entry_manager entry = r.opts.field_manager → entry_manager other ≠ r.opts.field_manager →
      ∀ p ∈ (entry_paths entry).paths, p ∈ entry_paths other →
        p ∈ config_leaves CONFIGMAP_SCHEMA r.desired

theorem keepsShared_of_entries {r : Request}
    (h : keeps_shared (extract_managed_fields serde (object_value configmap object)) r = true) :
    (r.claim CONFIGMAP_SCHEMA).KeepsShared (recorded serde configmap object) := by
  intro p hown hdropped m hm hp
  obtain ⟨entry, he, hem, hep⟩ := mem_recorded_iff.mp hown
  obtain ⟨other, ho, hom, hop⟩ := mem_recorded_iff.mp hp
  have hkeeps := all_eq_true.mp (all_eq_true.mp h entry he) other ho
  exact hdropped (of_decide_eq_true hkeeps hem (hom.trans_ne hm) p hep hop)

/-- Two managers share a key; one of them applies another with it, and leaves that out again. -/
def sharing_requests : List Request :=
  requests.take 2 ++
    [request "a" [("j", .string "w"), ("k", .string "v")], request "a" [("k", .string "v")]]

theorem shaped_sharing_requests : ∀ r ∈ sharing_requests, Shaped r.desired := by
  have hwell : ∀ r ∈ sharing_requests, well_formed r.desired = true := by decide +kernel
  intro r hr
  exact shaped_of_well_formed (hwell r hr)

/-- One manager leaves out a shared key; the other keeps it. -/
theorem unforced_keeps_others_shared :
    recorded serde configmap (run (requests.take 2 ++ [request "a" []])).object "b" =
      recorded serde configmap (run (requests.take 2)).object "b" := by
  have hwell : ∀ r ∈ requests.take 2 ++ [request "a" []], well_formed r.desired = true := by
    decide +kernel
  exact (unforced_keeps_others lawful_configmap ResourceLeafSchema.plain_configmap
    (fun r hr => shaped_of_well_formed (hwell r hr)) rfl (by decide)).1

end Sample

/-- Both managers dropped the key, every apply was accepted, and the key is still there: each
    of the two is kept on record because the other is. -/
theorem dropped_shared_key_stays :
    (∀ manager, Claim.intents (Sample.run Sample.requests).accepted manager = ∅) ∧
      "k" ∈ present Sample.configmap (Sample.run Sample.requests).object .data ∧
      "data/k" ∈ recorded Sample.serde Sample.configmap (Sample.run Sample.requests).object "a" ∧
      "data/k" ∈ recorded Sample.serde Sample.configmap (Sample.run Sample.requests).object "b" ∧
      ¬ UnionOfIntents Sample.serde Sample.configmap CONFIGMAP_SCHEMA
        (Sample.run Sample.requests) := by
  refine ⟨Sample.intents_run, Sample.mem_present_run, ?_, ?_, ?_⟩
  · rw [Sample.mem_recorded_iff]
    decide +kernel
  · rw [Sample.mem_recorded_iff]
    decide +kernel
  · exact Sample.not_union_of_unwanted (by decide) Sample.intents_run Sample.mem_present_run

/-- A manager drops the key that is its own and keeps the one it shares: the first is gone,
    and the other is there for both. -/
theorem dropped_sole_key_goes :
    UnionOfIntents Sample.serde Sample.configmap CONFIGMAP_SCHEMA
        (serve_all Sample.serde Sample.configmap CONFIGMAP_SCHEMA
          (Sample.sharing_requests.take 4)) ∧
      "j" ∈ present Sample.configmap (Sample.run (Sample.sharing_requests.take 3)).object .data ∧
      "j" ∉ present Sample.configmap (Sample.run (Sample.sharing_requests.take 4)).object .data ∧
      ∀ manager ∈ ["a", "b"], "data/k" ∈ recorded Sample.serde Sample.configmap
        (Sample.run (Sample.sharing_requests.take 4)).object manager := by
  refine ⟨?_, ?_, ?_, ?_⟩
  · refine (union_of_intents_iff_keeps_shared (.head _) Sample.lawful_configmap
      Sample.shaped_sharing_requests).mpr ?_ 4
    have hkeeps : ∀ i < 4, ∀ r ∈ Sample.sharing_requests[i]?,
        Sample.keeps_shared (extract_managed_fields Sample.serde (object_value Sample.configmap
          (Sample.run (Sample.sharing_requests.take i)).object)) r = true := by
      decide +kernel
    intro i r hr _
    have hi : i < 4 := (List.getElem?_eq_some_iff.mp hr).1
    exact Sample.keepsShared_of_entries (hkeeps i hi r hr)
  · rw [Sample.mem_present_iff]
    decide +kernel
  · rw [Sample.mem_present_iff]
    decide +kernel
  · simp only [Sample.mem_recorded_iff]
    decide +kernel

end Ssa
