import Rusternetes.Framework.Folds
import Rusternetes.Storage.Snapshot

/-! # Paginated Lists

    `Storage::list_paginated`, over any backend: list the prefix at one revision, sort
    by a key of the objects, cut a page out, and put the key to resume from and the
    revision into a continue token. A walk follows the tokens, with writes between the
    pages. Where reads at a revision are snapshots, so is the walk.
-/

open Framework Common List

namespace Storage

/-! ### Backends -/

/-- What the default methods of `Storage` read from a backend, whose states are `σ`. -/
structure Backend (σ : Type) where
  list : σ → String → Except Error (List Json)
  list_at_revision : σ → String → Int → Except Error (List Json)
  current_revision : σ → Except Error Int
  is_revision_compacted : σ → Int → Except Error Bool

def memory : Backend MemoryStorage where
  list := fun s pre => .ok (s.list pre)
  list_at_revision := MemoryStorage.list_at_revision
  current_revision := fun s => .ok s.current_revision
  is_revision_compacted := fun s revision => .ok (s.is_revision_compacted revision)

/-! ### Tokens -/

def default_sort_key (v : Json) : String :=
  let ns := metadata_str v "namespace"
  let name := metadata_str v "name"
  if ns = "" then name else ns ++ "/" ++ name

structure ContinueToken where
  start_key : String
  compacted_at : Option Int

def INCONSISTENT_CONTINUE_RV : Int := -1

def encode_default_token (start_key : String) (rv : Int) : String :=
  "c1:" ++ toString rv ++ ":" ++ start_key

def decode_default_token (token : String) : Except Error ContinueToken :=
  match Text.strip_prefix token "c1:" with
  | none => .error (.InvalidResource ("malformed continue token (unknown version): " ++ token))
  | some rest =>
    match Text.split_once rest ':' with
    | none => .error (.InvalidResource ("malformed continue token (missing key): " ++ token))
    | some (rv_str, start_key) =>
      match Text.parse_i64 rv_str with
      | none =>
        .error (.InvalidResource ("malformed continue token (bad resource version): " ++ token))
      | some rv => .ok { start_key, compacted_at := some rv }

def compacted_continue_error (start_key : String) (rv : Int) : Error :=
  .GoneWithContinue
    ("continue token expired (resource version " ++ toString rv ++ " has been compacted)")
    (encode_default_token start_key INCONSISTENT_CONTINUE_RV)

def is_compaction_error (err : Error) : Bool :=
  match err with
  | .Storage m | .Gone m | .GoneWithContinue m _ =>
    Text.contains m "has been compacted" || Text.contains m "OutOfRange"
  | _ => false

/-- A token is read back as it was written, if its version is. -/
theorem decode_encode_of_parse (key : String) {rv : Int}
    (hparse : Text.parse_i64 (toString rv) = some rv) (hcolon : ':' ∉ (toString rv).toList) :
    decode_default_token (encode_default_token key rv) = .ok ⟨key, some rv⟩ := by
  have hrest : Text.strip_prefix (encode_default_token key rv) "c1:" =
      some (toString rv ++ String.ofList [':'] ++ key) := by
    rw [Text.strip_prefix_eq_some]
    show "c1:" ++ toString rv ++ ":" ++ key = "c1:" ++ (toString rv ++ ":" ++ key)
    simp [String.append_assoc]
  unfold decode_default_token
  rw [hrest]
  simp only [Text.split_once_append hcolon, hparse]

theorem decode_encode (key : String) {rv : Nat} (h : rv < 2 ^ 63) :
    decode_default_token (encode_default_token key rv) =
      .ok { start_key := key, compacted_at := some rv } := by
  have htext : (toString (rv : Int) : String) = toString rv := rfl
  apply decode_encode_of_parse
  · rw [htext, Text.parse_i64_toString h]
  · intro hmem
    nomatch Text.isDigit_of_mem_toString hmem

/-! ### Pages -/

section Model

variable {σ : Type}

def token_expired (b : Backend σ) (s : σ) (d : ContinueToken) : Option Error :=
  match d.compacted_at with
  | some rv =>
    if rv ≠ INCONSISTENT_CONTINUE_RV ∧ 0 < rv ∧ (b.is_revision_compacted s rv).toOption.getD false
    then some (compacted_continue_error d.start_key rv)
    else none
  | none => none

/-- The objects the page is cut from, and the revision they were read at: the one the token
    is pinned to, or the current one. -/
def read_page (b : Backend σ) (s : σ) (pre : String) (decoded : Option ContinueToken) :
    Except Error (List Json × Int) :=
  match (decoded.bind ContinueToken.compacted_at).filter fun rv => decide (0 < rv) with
  | some rv =>
    match b.list_at_revision s pre rv with
    | .ok items => .ok (items, rv)
    | .error e =>
      if is_compaction_error e then
        .error (compacted_continue_error ((decoded.map ContinueToken.start_key).getD "") rv)
      else .error e
  | none =>
    match b.current_revision s with
    | .ok rv =>
      if 0 < rv then (b.list_at_revision s pre rv).map fun items => (items, rv)
      else (b.list s pre).map fun items => (items, 0)
    | .error _ => (b.list s pre).map fun items => (items, 0)

def indexed (all : List Json) : List (String × Json) :=
  (all.map fun v => (default_sort_key v, v)).insertionSort fun a b => a.1 ≤ b.1

/-- Where the page starts: with the first object that is not below the token's key. -/
def start_of (all : List (String × Json)) (decoded : Option ContinueToken) : Nat :=
  match decoded with
  | some d => all.findIdx fun e => decide (d.start_key ≤ e.1)
  | none => 0

/-- The page, and the token for the next, for a `limit` that fits. -/
def cut_page (all : List (String × Json)) (page_rv : Int) (decoded : Option ContinueToken)
    (limit : Nat) : List Json × Option String :=
  let start := start_of all decoded
  let stop := min (start + limit) all.length
  let next_token := (all[stop]?).map fun e => encode_default_token e.1 page_rv
  (((all.drop start).take (stop - start)).map Prod.snd, next_token)

def list_paginated (b : Backend σ) (s : σ) (pre : String) (limit : Nat)
    (continue_token : Option String) : Except Error (List Json × Option String) := do
  if limit = 0 then
    return (← b.list s pre, none)
  let decoded ← continue_token.mapM decode_default_token
  match decoded.bind (token_expired b s) with
  | some e => throw e
  | none =>
    let (all, page_rv) ← read_page b s pre decoded
    return cut_page (indexed all) page_rv decoded limit

/-- Follow the tokens, page `k` being read in the state `states k`: the pages, or the error the
    walk ends in. Nothing if the fuel does not last. -/
def walk (b : Backend σ) (states : Nat → σ) (pre : String) (limit : Nat) :
    Nat → Nat → Option String → Option (Except Error (List (List Json)))
  | 0, _, _ => none
  | fuel + 1, k, token =>
    match list_paginated b (states k) pre limit token with
    | .error e => some (.error e)
    | .ok (items, none) => some (.ok [items])
    | .ok (items, some token) =>
      (walk b states pre limit fuel (k + 1) (some token)).map fun rest =>
        rest.map fun pages => items :: pages

end Model

/-! ### Sorted by key -/

theorem indexed_sorted {all : List Json} (h : (all.map default_sort_key).Nodup) :
    (indexed all).Pairwise fun a b => a.1 < b.1 := by
  refine Table.sorted_insertionSort ?_
  rw [pairwise_map]
  exact pairwise_map.mp h

theorem indexed_congr {all all' : List Json} (h : (all.map default_sort_key).Nodup)
    (hperm : all'.Perm all) : indexed all' = indexed all := by
  have h' : (all'.map default_sort_key).Nodup := (hperm.map _).nodup_iff.mpr h
  apply (indexed_sorted h').eq_of_mem_iff (indexed_sorted h)
  intro e
  unfold indexed
  rw [mem_insertionSort, mem_insertionSort, (hperm.map _).mem_iff]

theorem map_snd_indexed (all : List Json) : ((indexed all).map Prod.snd).Perm all := by
  have hperm : (indexed all).Perm (all.map fun v => (default_sort_key v, v)) :=
    perm_insertionSort _ _
  have hmap := hperm.map Prod.snd
  simpa [Function.comp_def] using hmap

variable {l : List (String × Json)}

/-- Where the keys increase, the first entry not below one of them is that entry. -/
theorem findIdx_of_sorted (h : l.Pairwise fun a b => a.1 < b.1)
    {i : Nat} (hi : i < l.length) : l.findIdx (fun e => decide (l[i].1 ≤ e.1)) = i := by
  rw [findIdx_eq hi]
  refine ⟨by simp, ?_⟩
  intro j hj
  have hlt := pairwise_iff_getElem.mp h j i (by omega) hi hj
  simpa using hlt

/-! ### Walks -/

def is_gone : Error → Bool
  | .Gone _ | .GoneWithContinue _ _ => true
  | _ => false

def page_count (n limit : Nat) : Nat := max 1 ((n + limit - 1) / limit)

theorem page_count_of_le {n limit : Nat} (hlimit : 1 ≤ limit) (h : n ≤ limit) :
    page_count n limit = 1 := by
  have hlt : (n + limit - 1) / limit < 2 := by
    rw [Nat.div_lt_iff_lt_mul (by omega)]
    omega
  unfold page_count
  omega

theorem page_count_of_lt {n limit : Nat} (hlimit : 1 ≤ limit) (h : limit < n) :
    page_count n limit = page_count (n - limit) limit + 1 := by
  have hsplit : n + limit - 1 = (n - limit + limit - 1) + limit := by omega
  have hpos : 1 ≤ (n - limit + limit - 1) / limit := by
    rw [Nat.le_div_iff_mul_le (by omega)]
    omega
  unfold page_count
  rw [hsplit, Nat.add_div_right _ (by omega)]
  omega

section Walk

variable {σ : Type}

/-- Reads at the revision of the first page work: in the first state, which is of that
    revision, the read gives the objects, in whatever order; and so it does in the later ones,
    or says that the revision is gone. -/
structure Working (b : Backend σ) (states : Nat → σ) (pre : String) (rv : Nat)
    (objects : List Json) : Prop where
  current : b.current_revision (states 0) = .ok rv
  pos : 0 < rv
  /-- Revisions are of type `i64`. -/
  range : rv < 2 ^ 63
  first : ∃ items, b.list_at_revision (states 0) pre rv = .ok items ∧ items.Perm objects
  later : ∀ k, (∃ items, b.list_at_revision (states k) pre rv = .ok items ∧ items.Perm objects) ∨
    ∃ e, b.list_at_revision (states k) pre rv = .error e ∧
      (is_gone e = true ∨ is_compaction_error e = true)

variable {b : Backend σ} {states : Nat → σ} {pre : String} {rv limit : Nat} {objects : List Json}

variable {i : Nat}

/-- A page that starts with entry `i`. -/
theorem cut_page_of_start (l : List (String × Json)) (decoded : Option ContinueToken)
    (hi : i ≤ l.length) (hstart : start_of l decoded = i) (page_rv : Int) (limit : Nat) :
    cut_page l page_rv decoded limit =
      (((l.drop i).take limit).map Prod.snd,
        (l[i + limit]?).map fun e => encode_default_token e.1 page_rv) := by
  unfold cut_page
  simp only [hstart]
  have htake : (l.drop i).take (min (i + limit) l.length - i) = (l.drop i).take limit := by
    rw [take_eq_take_iff, length_drop]
    omega
  have hnext : l[min (i + limit) l.length]? = l[i + limit]? := by
    rcases Nat.le_total l.length (i + limit) with hle | hle
    · rw [Nat.min_eq_right hle, getElem?_eq_none le_rfl, getElem?_eq_none hle]
    · rw [Nat.min_eq_left hle]
  rw [htake, hnext]

variable {token : Option String}

theorem mapM_decode {token : String} {d : ContinueToken} (h : decode_default_token token = .ok d) :
    (some token).mapM decode_default_token = .ok (some d) := by
  show (decode_default_token _ >>= fun d => pure (some d)) = _
  rw [h]
  rfl

/-- The walk that resumes at entry `i` ends in a `Gone`, or yields what is left in as many
    pages as it takes. -/
def Ends (b : Backend σ) (states : Nat → σ) (pre : String) (limit : Nat)
    (l : List (String × Json)) (fuel k : Nat) (token : Option String) (i : Nat) : Prop :=
  (∃ e, walk b states pre limit fuel k token = some (.error e) ∧ is_gone e = true) ∨
  ∃ pages, walk b states pre limit fuel k token = some (.ok pages) ∧
    pages.length = page_count (l.length - i) limit ∧ pages.flatten = (l.drop i).map Prod.snd

variable (hw : Working b states pre rv objects) (hkeys : (objects.map default_sort_key).Nodup)
  (hlimit : 1 ≤ limit)

include hlimit

/-- What is left of `list_paginated` when the token is decoded. -/
theorem list_paginated_eq {s : σ} {decoded : Option ContinueToken}
    (hdecoded : token.mapM decode_default_token = .ok decoded) :
    list_paginated b s pre limit token =
      match decoded.bind (token_expired b s) with
      | some e => .error e
      | none => (read_page b s pre decoded).map fun page =>
          cut_page (indexed page.1) page.2 decoded limit := by
  have hne : limit ≠ 0 := by omega
  unfold list_paginated
  rw [if_neg hne, hdecoded]
  cases hexpired : decoded.bind (token_expired b s) with
  | some e => simp [bind, Except.bind, throw, throwThe, MonadExceptOf.throw, hexpired]
  | none =>
    cases hread : read_page b s pre decoded with
    | error e => simp [bind, Except.bind, hexpired, hread, Except.map]
    | ok page => simp [bind, Except.bind, pure, Except.pure, hexpired, hread, Except.map]

theorem pinned_page {s : σ} {key token : String} {rv : Int} (hpos : 0 < rv)
    (htoken : decode_default_token token = .ok ⟨key, some rv⟩) :
    list_paginated b s pre limit (some token) =
      if (b.is_revision_compacted s rv).toOption.getD false = true then
        .error (compacted_continue_error key rv)
      else match b.list_at_revision s pre rv with
        | .ok all => .ok (cut_page (indexed all) rv (some ⟨key, some rv⟩) limit)
        | .error e => .error (if is_compaction_error e then compacted_continue_error key rv else e) := by
  have hne : rv ≠ INCONSISTENT_CONTINUE_RV := by
    unfold INCONSISTENT_CONTINUE_RV
    omega
  rw [list_paginated_eq hlimit (mapM_decode htoken), Option.bind_some]
  by_cases hexpired : (b.is_revision_compacted s rv).toOption.getD false = true
  · simp [token_expired, hne, hpos, hexpired]
  · have hnone : token_expired b s ⟨key, some rv⟩ = none := if_neg fun h => hexpired h.2.2
    rw [hnone, if_neg hexpired]
    cases hread : b.list_at_revision s pre rv with
    | ok all => simp [read_page, Option.filter, hpos, hread, Except.map]
    | error e =>
      by_cases hcompacted : is_compaction_error e = true
      · simp [read_page, Option.filter, hpos, hread, Except.map, hcompacted]
      · simp [read_page, Option.filter, hpos, hread, Except.map, hcompacted]

theorem ends_of_page {fuel k : Nat}
    (hpage : list_paginated b (states k) pre limit token =
      .ok (((l.drop i).take limit).map Prod.snd,
        (l[i + limit]?).map fun e => encode_default_token e.1 rv))
    (hrest : ∀ h : i + limit < l.length, Ends b states pre limit l fuel (k + 1)
      (some (encode_default_token l[i + limit].1 rv)) (i + limit)) :
    Ends b states pre limit l (fuel + 1) k token i := by
  by_cases hlast : l.length ≤ i + limit
  · -- the last page
    right
    rw [getElem?_eq_none hlast, Option.map_none] at hpage
    refine ⟨[((l.drop i).take limit).map Prod.snd], ?_, ?_, ?_⟩
    · rw [walk, hpage]
    · rw [page_count_of_le hlimit (by omega)]
      rfl
    · rw [flatten_singleton, take_of_length_le]
      rw [length_drop]
      omega
  · have hlt : i + limit < l.length := Nat.not_le.mp hlast
    rw [getElem?_eq_getElem hlt, Option.map_some] at hpage
    have hwalk : walk b states pre limit (fuel + 1) k token =
        (walk b states pre limit fuel (k + 1)
          (some (encode_default_token l[i + limit].1 rv))).map fun rest =>
            rest.map fun pages => ((l.drop i).take limit).map Prod.snd :: pages := by
      rw [walk, hpage]
    rcases hrest hlt with ⟨e, he, hgone⟩ | ⟨pages, hpages, hlength, hflatten⟩
    · left
      refine ⟨e, ?_, hgone⟩
      rw [hwalk, he]
      rfl
    · right
      refine ⟨((l.drop i).take limit).map Prod.snd :: pages, ?_, ?_, ?_⟩
      · rw [hwalk, hpages]
        rfl
      · have hcount := page_count_of_lt hlimit (n := l.length - i) (by omega)
        rw [hcount, length_cons, hlength, Nat.sub_sub]
      · rw [flatten_cons, hflatten, ← map_append, ← drop_drop,
          take_append_drop]

include hw hkeys

theorem first_page :
    list_paginated b (states 0) pre limit none =
      .ok ((((indexed objects).drop 0).take limit).map Prod.snd,
        ((indexed objects)[0 + limit]?).map fun e => encode_default_token e.1 rv) := by
  have hpos : (0 : Int) < rv := by exact_mod_cast hw.pos
  obtain ⟨items, hitems, hperm⟩ := hw.first
  have hread : read_page b (states 0) pre none = .ok (items, (rv : Int)) := by
    simp only [read_page, Option.bind_none, Option.filter_none, hw.current, if_pos hpos, hitems]
    rfl
  have hdecoded : (none : Option String).mapM decode_default_token = .ok none := rfl
  rw [list_paginated_eq hlimit hdecoded, Option.bind_none, hread]
  show Except.ok (cut_page (indexed items) rv none limit) = _
  rw [indexed_congr hkeys hperm, cut_page_of_start _ _ (Nat.zero_le _) rfl]

theorem next_page (k : Nat) (hi : i < (indexed objects).length) :
    (∃ e, list_paginated b (states k) pre limit
        (some (encode_default_token (indexed objects)[i].1 rv)) = .error e ∧ is_gone e = true) ∨
    list_paginated b (states k) pre limit
        (some (encode_default_token (indexed objects)[i].1 rv)) =
      .ok ((((indexed objects).drop i).take limit).map Prod.snd,
        ((indexed objects)[i + limit]?).map fun e => encode_default_token e.1 rv) := by
  have hpos : (0 : Int) < rv := by exact_mod_cast hw.pos
  rw [pinned_page hlimit hpos (decode_encode _ hw.range)]
  split_ifs
  · exact .inl ⟨_, rfl, rfl⟩
  · rcases hw.later k with ⟨items, hitems, hperm⟩ | ⟨e, he, hgone⟩
    · right
      have hstart : start_of (indexed objects) (some ⟨(indexed objects)[i].1, some rv⟩) = i :=
        findIdx_of_sorted (indexed_sorted hkeys) hi
      simp only [hitems]
      rw [indexed_congr hkeys hperm, cut_page_of_start _ _ hi.le hstart]
    · left
      simp only [he]
      refine ⟨_, rfl, ?_⟩
      split_ifs with hcompacted
      · rfl
      · exact hgone.resolve_right hcompacted

theorem ends_from (fuel k : Nat) (hi : i < (indexed objects).length)
    (hfuel : page_count ((indexed objects).length - i) limit ≤ fuel) :
    Ends b states pre limit (indexed objects) fuel k
      (some (encode_default_token (indexed objects)[i].1 rv)) i := by
  induction fuel generalizing k i with
  | zero =>
    unfold page_count at hfuel
    omega
  | succ fuel ih =>
    rcases next_page hw hkeys hlimit k hi with ⟨e, hpage, he⟩ | hpage
    · exact .inl ⟨e, by rw [walk, hpage], he⟩
    · apply ends_of_page hlimit hpage
      intro hlt
      apply ih (k + 1) hlt
      have hcount := page_count_of_lt hlimit (n := (indexed objects).length - i) (by omega)
      rw [hcount, Nat.sub_sub] at hfuel
      omega

omit hw hkeys hlimit in
/-- **A walk is a snapshot**: where reads at the revision of the first page work, the pages of
    a walk are as many as the objects of that revision take, and together they are those
    objects, each once, in the order of their sort keys; or the walk ends in a `Gone`. -/
theorem walk_is_snapshot (hw : Working b states pre rv objects)
    (hkeys : (objects.map default_sort_key).Nodup) (hlimit : 1 ≤ limit) :
    let count := max 1 ((objects.length + limit - 1) / limit)
    (∃ e, walk b states pre limit count 0 none = some (.error e) ∧ is_gone e = true) ∨
    ∃ pages, walk b states pre limit count 0 none = some (.ok pages) ∧ pages.length = count ∧
      pages.flatten.Perm objects ∧
      pages.flatten.Pairwise fun v w => default_sort_key v < default_sort_key w := by
  intro count
  have hlength : (indexed objects).length = objects.length := by
    unfold indexed
    rw [length_insertionSort, length_map]
  have hends : Ends b states pre limit (indexed objects) count 0 none 0 := by
    have hcount : count = (count - 1) + 1 := by omega
    rw [hcount]
    apply ends_of_page hlimit (first_page hw hkeys hlimit)
    intro hlt
    apply ends_from hw hkeys hlimit _ _ hlt
    have hsplit := page_count_of_lt (n := objects.length) hlimit (by omega)
    rw [hlength, Nat.zero_add]
    show page_count (objects.length - limit) limit ≤ page_count objects.length limit - 1
    omega
  rcases hends with hgone | ⟨pages, hpages, hcount, hflatten⟩
  · exact .inl hgone
  · right
    refine ⟨pages, hpages, ?_, ?_, ?_⟩
    · rw [hcount, hlength, Nat.sub_zero]
      rfl
    · rw [hflatten]
      exact map_snd_indexed objects
    · rw [hflatten, pairwise_map]
      have hkey : ∀ e ∈ indexed objects, e.1 = default_sort_key e.2 := by
        intro e he
        unfold indexed at he
        rw [mem_insertionSort, mem_map] at he
        obtain ⟨v, _, rfl⟩ := he
        rfl
      refine (indexed_sorted hkeys).imp_of_mem ?_
      intro a b ha hb hab
      rw [← hkey a ha, ← hkey b hb]
      exact hab

end Walk

/-! ### The in-memory storage -/

/-- The states of the storage from `s` on, with writes between the pages. -/
def between (s : MemoryStorage) (writes : Nat → List Op) : Nat → MemoryStorage
  | 0 => s
  | k + 1 => run (between s writes k) (writes k)

theorem between_eq_run (s : MemoryStorage) (writes : Nat → List Op) (k : Nat) :
    ∃ ops, between s writes k = run s ops := by
  induction k with
  | zero => exact ⟨[], rfl⟩
  | succ k ih =>
    obtain ⟨ops, hops⟩ := ih
    refine ⟨ops ++ writes k, ?_⟩
    rw [between, hops, run_append]

variable {s : MemoryStorage} {pre token : String} {rv : Int}

theorem list_at_revision_live (h : rv ≤ 0 ∨ (s.revision : Int) ≤ rv) :
    s.list_at_revision pre rv = .ok (s.list pre) := by
  rw [MemoryStorage.list_at_revision, MemoryStorage.matched_at_revision, if_pos h]
  rfl

/-- The in-memory storage is such a backend, whatever is written between the pages. -/
theorem memory_working (capacity : Nat) (ops : List Op) (writes : Nat → List Op) (pre : String)
    (hrange : (run (.with_history_capacity capacity) ops).revision < 2 ^ 63) :
    Working memory (between (run (.with_history_capacity capacity) ops) writes) pre
      (run (.with_history_capacity capacity) ops).revision
      ((run (.with_history_capacity capacity) ops).list pre) := by
  set s := run (.with_history_capacity capacity) ops
  have hinit := coherent_init capacity
  have hone : 1 ≤ s.revision := le_revision_run (.with_history_capacity capacity) ops
  refine ⟨rfl, hone, hrange, ⟨_, ?_, .refl _⟩, ?_⟩
  · exact list_at_revision_live (.inr le_rfl)
  · intro k
    obtain ⟨more, hmore⟩ := between_eq_run s writes k
    have hall : between s writes k = run (.with_history_capacity capacity) (ops ++ more) := by
      rw [hmore, run_append]
    -- as of the revision of the first page the journal is that of the first page
    have hjournal : (as_of s.revision (.with_history_capacity capacity) (ops ++ more)).journal =
        s.journal := by
      rw [← upto_journal_run hinit hone, ← hall, hmore, upto_run _ le_rfl,
        upto_journal (hinit.run ops) le_rfl]
    have hmatched := matched_congr (as_of_coherent hinit _ _) (hinit.run ops) hjournal pre
    show (∃ items, (between s writes k).list_at_revision pre _ = .ok items ∧ _) ∨
      ∃ e, (between s writes k).list_at_revision pre _ = .error e ∧ _
    rw [hall]
    unfold MemoryStorage.list_at_revision
    rcases matched_at_revision_cases capacity (ops ++ more) pre hone with hok | ⟨⟨m, hm⟩, _⟩
    · left
      rw [hok, hmatched]
      exact ⟨_, rfl, .refl _⟩
    · right
      rw [hm]
      exact ⟨_, rfl, .inl rfl⟩

/-- Three pods in pages of two, one of them deleted and another created after the first
    page. -/
theorem walk_is_snapshot_of_three_pods :
    let pod := fun n => Json.object [("metadata", .object [("name", .string n)])]
    let s := run (.with_history_capacity 10)
      [.call (.create "/pods/b" (pod "b") "u" "t"), .call (.create "/pods/a" (pod "a") "u" "t"),
        .call (.create "/pods/c" (pod "c") "u" "t")]
    let writes : Nat → List Op := fun _ =>
      [.call (.delete "/pods/c" none), .call (.create "/pods/d" (pod "d") "u" "t")]
    ∃ pages, walk memory (between s writes) "/pods/" 2 2 0 none = some (.ok pages) ∧
      pages.length = 2 ∧ pages.flatten.Perm (s.list "/pods/") := by
  intro pod s writes
  have hworking := memory_working 10
    [.call (.create "/pods/b" (pod "b") "u" "t"), .call (.create "/pods/a" (pod "a") "u" "t"),
      .call (.create "/pods/c" (pod "c") "u" "t")] writes "/pods/" (by decide +kernel)
  have hthree : (s.list "/pods/").length = 3 := by decide +kernel
  have hok : (walk memory (between s writes) "/pods/" 2 2 0 none).any Except.isOk = true := by
    decide +kernel
  have hcount : max 1 (((s.list "/pods/").length + 2 - 1) / 2) = 2 := by
    rw [hthree]
    rfl
  have htwo : 1 ≤ 2 := by decide
  have hwalk := walk_is_snapshot hworking (by decide +kernel) htwo
  rw [hcount] at hwalk
  rcases hwalk with ⟨e, he, _⟩ | ⟨pages, hpages, hlength, hperm, _⟩
  · have hfail : walk memory (between s writes) "/pods/" 2 2 0 none = some (.error e) := he
    rw [hfail] at hok
    nomatch hok
  · exact ⟨pages, hpages, hlength, hperm⟩

/-! ### Expired tokens -/

variable {limit : Nat} {key : String}

section eviction

variable {rv : Nat}

end eviction

end Storage
