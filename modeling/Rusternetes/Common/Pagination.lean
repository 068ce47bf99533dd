import Mathlib

/-! # Lists in Chunks

    `paginate` cuts one page out of the list it is given. The token for the next page
    holds a position and how many items there were in the beginning; the next call may be
    given another list.
-/

open List

namespace Pagination

/-- `ContinuationToken`; its `filters` are always empty. -/
structure ContinuationToken where
  start : Nat
  resource_version : String
  nonce : Nat
  total_at_creation : Nat
  created_at : Nat

/-- How many items count, if the token says it. -/
def ContinuationToken.snapshot_total (token : ContinuationToken) : Option Nat :=
  if token.total_at_creation > 0 then some token.total_at_creation else none

/-- `PaginationParams`, with the token as `ContinuationToken::decode` reads it. -/
structure PaginationParams where
  limit : Option Int
  continue_token : Option (Except String ContinuationToken)

structure PaginatedResult (α : Type) where
  items : List α
  continue_token : Option ContinuationToken
  remaining_item_count : Option Int
  resource_version : String

structure PaginationError where
  message : String
  fresh_continue_token : Option ContinuationToken

/-- What a call reads off the clock. -/
structure Clock where
  now : Nat
  nonce : Nat
  created_at : Nat

variable {α : Type}

/-- `paginate` once the token is read. -/
def page_of (items : List α) (limit : Option Int) (start : Nat) (effective_rv : String)
    (snapshot_total : Option Nat) (clock : Clock) : PaginatedResult α :=
  let items := snapshot_total.elim items items.take
  match limit.filter (0 < ·) with
  -- no limit, and a limit of 0, is no chunking
  | none => ⟨items.drop start, none, none, effective_rv⟩
  | some limit =>
    let total := items.length
    if start ≥ total then ⟨[], none, some 0, effective_rv⟩
    else
      let stop := min (start + limit.toNat) total
      let page_items := (items.drop start).take (stop - start)
      let chain_total := snapshot_total.getD total
      if stop < total then
        ⟨page_items, some ⟨stop, effective_rv, clock.nonce, chain_total, clock.created_at⟩,
          some (total - stop), effective_rv⟩
      else ⟨page_items, none, none, effective_rv⟩

def paginate (items : List α) (params : PaginationParams) (resource_version : String)
    (clock : Clock) : Except PaginationError (PaginatedResult α) :=
  match params.continue_token with
  | none => .ok (page_of items params.limit 0 resource_version none clock)
  | some (.error e) => .error ⟨e, none⟩
  | some (.ok token) =>
    if token.created_at > 0 ∧ clock.now - token.created_at > 300 then
      .error ⟨"410 Gone: the resource version in the continue token is too old; " ++
          "the client must restart the list without a continue token",
        some ⟨min token.start items.length, resource_version, clock.nonce,
          token.snapshot_total.getD items.length, clock.created_at⟩⟩
    else
      .ok (page_of items params.limit token.start token.resource_version token.snapshot_total clock)

/-! ### Chains -/

/-- Calls that each hand on the token of the page before: the lists of the earlier calls,
    the latest first, the list and the page of the last call, and the items of all pages. -/
inductive Chain (limit : Nat) (first : List α) :
    List (List α) → List α → PaginatedResult α → List α → Prop
  | start {page : PaginatedResult α} (resource_version : String) (clock : Clock)
      (hpage : paginate first ⟨some limit, none⟩ resource_version clock = .ok page) :
      Chain limit first [] first page page.items
  | next {earlier : List (List α)} {items items' returned : List α}
      {page page' : PaginatedResult α} {token : ContinuationToken}
      (hchain : Chain limit first earlier items page returned)
      (htoken : page.continue_token = some token) (resource_version : String) (clock : Clock)
      (hpage : paginate items' ⟨some limit, some (.ok token)⟩ resource_version clock = .ok page') :
      Chain limit first (items :: earlier) items' page' (returned ++ page'.items)

variable {κ : Type}

/-- From call to call the keys of the pages so far stay, and no key is new. -/
def Undisturbed (limit : Nat) : List κ → List (List κ) → Prop
  | _, [] => True
  | keys', keys :: earlier =>
    keys'.take (limit * (earlier.length + 1)) = keys.take (limit * (earlier.length + 1)) ∧
      keys'.Sublist keys ∧ Undisturbed limit keys earlier

def counted (key : α → κ) (first items : List α) : List κ :=
  (items.take first.length).map key

structure Shows (page : PaginatedResult α) (total : Nat) (items : List α) (start stop : Nat) :
    Prop where
  shown : page.items = ((items.take total).take stop).drop start
  last : page.continue_token = none → (items.take total).length ≤ stop
  more : ∀ next, page.continue_token = some next → next.start = stop ∧
    stop < (items.take total).length ∧ next.total_at_creation = total ∧
    page.remaining_item_count = some ((items.take total).length - stop : Int)

variable {limit : Nat} {first items returned : List α} {earlier : List (List α)}
  {page : PaginatedResult α} {key : α → κ}

theorem undisturbed_of_same (keys : List κ) (limit n : Nat) :
    Undisturbed limit keys (List.replicate n keys) := by
  induction n with
  | zero => trivial
  | succ n ih => exact ⟨rfl, .refl _, ih⟩

variable (hlimit : 0 < limit)
include hlimit

theorem shows_page_of {snapshot : Option Nat} {total : Nat}
    (htotal : snapshot.getD items.length = total) (start : Nat) (rv : String) (clock : Clock) :
    Shows (page_of items (some limit) start rv snapshot clock) total items start (start + limit) := by
  have hcounted : snapshot.elim items items.take = items.take total ∧
      snapshot.getD (items.take total).length = total := by
    subst htotal
    cases snapshot <;> simp
  unfold page_of
  simp only [hcounted, Option.filter, Int.natCast_pos.mpr hlimit, decide_true, if_true,
    Int.toNat_natCast]
  split_ifs with hstart hmore
  · refine ⟨?_, fun _ => Nat.le_add_right_of_le hstart, nofun⟩
    rw [drop_of_length_le (Nat.le_trans (length_take_le' ..) hstart)]
  · have hlt : start + limit < (items.take total).length := by omega
    rw [Nat.min_eq_left (Nat.le_of_lt hlt)]
    refine ⟨(drop_take ..).symm, nofun, ?_⟩
    rintro next ⟨⟩
    exact ⟨rfl, hlt, rfl, rfl⟩
  · have hle : (items.take total).length ≤ start + limit := by omega
    refine ⟨?_, fun _ => hle, nofun⟩
    rw [Nat.min_eq_right hle, ← drop_take, take_length, take_of_length_le hle]

variable (h : Chain limit first earlier items page returned)
include h

/-- **The pages of a chain.** The last page starts where those before it end. -/
theorem Chain.shows :
    Shows page first.length items (limit * earlier.length) (limit * (earlier.length + 1)) := by
  induction h with
  | start rv clock hpage =>
    cases hpage
    exact shows_page_of hlimit rfl ..
  | @next earlier items items' returned page page' token hchain htoken rv clock hpage ih =>
    obtain ⟨hstart, hlt, htotal, -⟩ := ih.more token htoken
    have hsnap : token.snapshot_total = some first.length := by
      have := length_take_le first.length items
      rw [ContinuationToken.snapshot_total, htotal, if_pos (by omega)]
    unfold paginate at hpage
    dsimp only at hpage
    split_ifs at hpage
    cases hpage
    rw [length_cons, Nat.mul_succ _ (earlier.length + 1), ← hstart]
    exact shows_page_of hlimit (by rw [hsnap]; rfl) ..

theorem Chain.keys :
    page.items.map key = ((counted key first items).take (limit * (earlier.length + 1))).drop
      (limit * earlier.length) := by
  rw [(h.shows hlimit).shown, map_drop, map_take]
  rfl

/-- **An undisturbed chain** has returned what its last list begins with. -/
theorem Chain.returned_eq
    (hquiet : Undisturbed limit (counted key first items) (earlier.map (counted key first))) :
    (counted key first items).Sublist (first.map key) ∧
      returned.map key = (counted key first items).take (limit * (earlier.length + 1)) := by
  induction h with
  | start rv clock hpage =>
    rw [(Chain.start rv clock hpage).keys hlimit]
    exact ⟨by rw [counted, take_length], rfl⟩
  | @next earlier items items' returned page page' token hchain htoken rv clock hpage ih =>
    obtain ⟨hkeep, hsub, hquiet⟩ := hquiet
    obtain ⟨hfirst, hreturned⟩ := ih hquiet
    refine ⟨hsub.trans hfirst, ?_⟩
    rw [length_map] at hkeep
    -- the pages so far are what the present list begins with
    rw [map_append, hreturned, (hchain.next htoken rv clock hpage).keys hlimit, ← hkeep]
    have htake := take_append_drop (limit * (earlier.length + 1))
      ((counted key first items').take (limit * (earlier.length + 1 + 1)))
    rwa [take_take, Nat.min_eq_left (Nat.mul_le_mul_left _ (Nat.le_succ _))] at htake

omit hlimit h

/-- **Stable items are returned once** by a chain that is undisturbed; and the pages of a
    list that does not change concatenate to it. -/
theorem stable_items_once (key : α → κ) (hlimit : 0 < limit)
    (h : Chain limit first earlier items page returned) :
    ((first.map key).Nodup →
      Undisturbed limit (counted key first items) (earlier.map (counted key first)) →
      (returned.map key).Nodup ∧ (∀ k ∈ returned.map key, k ∈ first.map key) ∧
      (page.continue_token = none → ∀ k ∈ first.map key, k ∈ items.map key →
        k ∈ returned.map key)) ∧
    (items = first → (∀ l ∈ earlier, l = first) →
      (page.continue_token = none → returned = first) ∧
      ∀ token, page.continue_token = some token → ∃ count,
        page.remaining_item_count = some count ∧ returned.length + count = first.length) := by
  have hshows := h.shows hlimit
  constructor
  · intro hnodup hquiet
    obtain ⟨hsub, hreturned⟩ := h.returned_eq hlimit hquiet
    have hreturned' : (returned.map key).Sublist (first.map key) := by
      rw [hreturned]
      exact (take_sublist ..).trans hsub
    refine ⟨hnodup.sublist hreturned', fun k hk => hreturned'.subset hk, fun hlast k hk hitems => ?_⟩
    have hend := hshows.last hlast
    rw [← length_map key, ← counted] at hend
    rw [hreturned, take_of_length_le hend]
    rcases Nat.le_total items.length first.length with hle | hle
    · rwa [counted, take_of_length_le hle]
    · -- as many as there were, so they are the same
      rw [hsub.eq_of_length_le (by simp [counted, hle])]
      exact hk
  · rintro rfl hsame
    have hquiet : Undisturbed limit (counted id items items) (earlier.map (counted id items)) := by
      rw [eq_replicate_of_mem hsame, map_replicate]
      exact undisturbed_of_same ..
    have hreturned := (h.returned_eq hlimit hquiet).2
    rw [counted, map_id, map_id, take_length] at hreturned
    obtain ⟨-, hend, hmore⟩ := hshows
    rw [take_length] at hend hmore
    refine ⟨fun hlast => hreturned.trans (take_of_length_le (hend hlast)), ?_⟩
    intro token htoken
    obtain ⟨-, hlt, -, hcount⟩ := hmore token htoken
    refine ⟨_, hcount, ?_⟩
    rw [hreturned, length_take]
    omega

theorem first_page :
    Chain 1 [1, 2, 3] [] [1, 2, 3] ⟨[1], some ⟨1, "1", 0, 3, 0⟩, some 2, "1"⟩ [1] :=
  .start "1" ⟨0, 0, 0⟩ rfl

/-- The second of three items is there all the time. After the first page the first item
    is deleted, and the next page starts behind the second. -/
theorem deletion_skips_item :
    ∃ page : PaginatedResult Nat, Chain 1 [1, 2, 3] [[1, 2, 3]] [2, 3] page [1, 3] ∧
      page.continue_token = none :=
  ⟨⟨[3], none, none, "1"⟩, first_page.next rfl "2" ⟨0, 0, 0⟩ rfl, rfl⟩

/-- An item that is still to come may be deleted. -/
theorem stable_items_once_deletion :
    ∃ page : PaginatedResult Nat, Chain 1 [1, 2, 3] [[1, 2, 3]] [1, 3] page [1, 3] ∧
      page.continue_token = none ∧ 3 ∈ [1, 3].map id := by
  have hchain : Chain 1 [1, 2, 3] [[1, 2, 3]] [1, 3] ⟨[3], none, none, "1"⟩ [1, 3] :=
    first_page.next rfl "2" ⟨0, 0, 0⟩ rfl
  obtain ⟨-, -, hall⟩ := (stable_items_once id (by decide) hchain).1 (by decide)
    ⟨rfl, by decide, trivial⟩
  exact ⟨_, hchain, rfl, hall rfl 3 (by decide) (by decide)⟩

end Pagination
