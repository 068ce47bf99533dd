import Mathlib
import Rusternetes.Storage.Sections

/-! # The Order of the Writes to a Key

    A write's revision is drawn, its data written and its event sent in sections of
    their own, so that two calls for one key can cross between any two of them. Where
    calls for one key never overlap, the commits to a key are in the order of their
    revisions, and the events sent for it are its commits, up to the last if the event
    of that has yet to be sent.
-/

open Framework Common LTS List Function Journal

namespace Storage

variable {ι : Type}

def of_key (k : String) (ws : List (Write String Json)) : List (Write String Json) :=
  ws.filter fun w => w.key = k

theorem of_key_append (k : String) (as bs : List (Write String Json)) :
    of_key k (as ++ bs) = of_key k as ++ of_key k bs := List.filter_append ..

theorem of_key_self (w : Write String Json) : of_key w.key [w] = [w] := by
  simp [of_key]

variable {w : Write String Json} {k : String}

theorem of_key_other (h : w.key ≠ k) : of_key k [w] = [] := by
  simp [of_key, h]

def Writers.commits (s : Writers ι) : List (Write String Json) := s.log.map Commit.write

def Writers.sent (s : Writers ι) : List (Write String Json) := s.storage.bus.map write_of

/-- What holds as long as no two calls for one key overlap. -/
structure Serial (s : Writers ι) : Prop where
  /-- There is at most one call for a key. -/
  alone : ∀ i j k, (s.calls i).key = some k → (s.calls j).key = some k → i = j
  /-- What was drawn for a key is above what was committed to it. -/
  drawn_gt : ∀ i w, (s.calls i).drawn = some w → ∀ c ∈ s.log, c.event.key = w.key →
    c.revision < w.revision
  increasing : s.log.Pairwise fun a b => a.event.key = b.event.key → a.revision < b.revision
  /-- All commits to a key were sent, unless a call has yet to send its own. -/
  sent : ∀ k, (∀ i e, (s.calls i).pending = some e → e.2.key ≠ k) →
    of_key k s.commits = of_key k s.sent
  unsent : ∀ i e, (s.calls i).pending = some e →
    of_key e.2.key s.commits = of_key e.2.key s.sent ++ [write_of e]

/-- A call is started only when no other for the same key is in flight. -/
def NotOverlapping (_tr : List (Label ι)) (s : Writers ι) : Label ι → Prop
  | .start _ req => ∀ j, (s.calls j).key ≠ some req.key
  | _ => True

instance [Fintype ι] (tr : List (Label ι)) (s : Writers ι) (lbl : Label ι) :
    Decidable (NotOverlapping tr s lbl) :=
  match lbl with
  | .start _ req => inferInstanceAs (Decidable (∀ j, (s.calls j).key ≠ some req.key))
  | .advance _ | .compact_to _ | .inject_conflicts _ => .isTrue trivial

variable {c : Call}

theorem key_of_drawn (h : c.drawn = some w) : c.key = some w.key := by
  cases c with
  | inserting key value revision | overwriting key value revision => rw [← Option.some.inj h]; rfl
  | _ => cases h

variable {e : Nat × WatchEvent}

theorem key_of_pending (h : c.pending = some e) : c.key = some e.2.key := by
  cases c with
  | emitting => rw [← Option.some.inj h]; rfl
  | _ => cases h

theorem pending_of_drawn (h : c.drawn = some w) : c.pending = none := by
  cases c with
  | emitting => cases h
  | _ => rfl

variable [DecidableEq ι] {s : Writers ι} {i : ι}

/-- A call that had nothing to send is set: the others still have what they had. -/
theorem pending_update {calls : ι → Call} {j : ι} (hi : (calls i).pending = none)
    (h : (calls j).pending = some e) : (Function.update calls i c j).pending = some e := by
  have hj : j ≠ i := by
    rintro rfl
    nomatch hi.symm.trans h
  rw [update_of_ne hj]
  exact h

/-- If the call of `i` is for the same key as before, or for none, there is still at most
    one for a key. -/
theorem alone_update {calls : ι → Call}
    (h : ∀ i j k, (calls i).key = some k → (calls j).key = some k → i = j)
    (hc : c.key = none ∨ c.key = (calls i).key) :
    ∀ j j' k, (Function.update calls i c j).key = some k →
      (Function.update calls i c j').key = some k → j = j' := by
  have hback : ∀ j k, (update calls i c j).key = some k → (calls j).key = some k := by
    intro j k hk
    rcases call_update hk with ⟨rfl, hk'⟩ | ⟨_, hk'⟩
    · rcases hc with hnone | hsame
      · nomatch hnone.symm.trans hk'
      · exact hsame ▸ hk'
    · exact hk'
  intro j j' k hk hk'
  exact h j j' k (hback j k hk) (hback j' k hk')

variable {storage : MemoryStorage}

/-- A step of a call that has nothing to send, before and after. -/
theorem Serial.quiet (h : Serial s) (hbus : storage.bus = s.storage.bus)
    (halone : ∀ j j' k, (Function.update s.calls i c j).key = some k →
      (Function.update s.calls i c j').key = some k → j = j') (hbefore : (s.calls i).pending = none)
    (hafter : c.pending = none) (hdrawn : ∀ w, c.drawn = some w → ∀ c ∈ s.log, c.event.key = w.key →
      c.revision < w.revision) :
    Serial ⟨storage, Function.update s.calls i c, s.log⟩ where
  alone := halone
  drawn_gt := by
    intro j w hw
    rcases call_update hw with ⟨_, hw⟩ | ⟨_, hw⟩
    · exact hdrawn w hw
    · exact h.drawn_gt j w hw
  increasing := h.increasing
  sent := by
    intro k hk
    show of_key k s.commits = of_key k (storage.bus.map write_of)
    rw [hbus]
    exact h.sent k fun j e he => hk j e (pending_update hbefore he)
  unsent := by
    intro j e he
    show of_key e.2.key s.commits = of_key e.2.key (storage.bus.map write_of) ++ [write_of e]
    rw [hbus]
    rcases call_update he with ⟨_, he⟩ | ⟨_, he⟩
    · rw [hafter] at he
      nomatch he
    · exact h.unsent j e he

variable {n : Nat}

theorem Serial.commit (h : Serial s) {event : WatchEvent} {previous answer : Option Json}
    (hbus : storage.bus = s.storage.bus) (hkey : (s.calls i).key = some event.key)
    (hbefore : (s.calls i).pending = none)
    (hgt : ∀ c ∈ s.log, c.event.key = event.key → c.revision < n) :
    Serial ⟨storage, Function.update s.calls i (.emitting n event previous answer),
      s.log ++ [⟨i, n, event, previous⟩]⟩ where
  alone := alone_update h.alone (.inr hkey.symm)
  drawn_gt := by
    intro j w hw c hc hck
    obtain ⟨hj, hw⟩ := drawn_update_none rfl hw
    rcases mem_append.mp hc with hc | hc
    · exact h.drawn_gt j w hw c hc hck
    · -- another call would be for the same key
      rw [mem_singleton.mp hc] at hck
      exact absurd (h.alone j i w.key (key_of_drawn hw) (hck ▸ hkey)) hj
  increasing := by
    rw [pairwise_append]
    refine ⟨h.increasing, pairwise_singleton _ _, ?_⟩
    intro a ha b hb hab
    rw [mem_singleton.mp hb] at hab ⊢
    exact hgt a ha hab
  sent := by
    intro k hk
    have hne : event.key ≠ k := by
      apply hk i (n, event)
      show (update s.calls i _ i).pending = _
      rw [update_self]
      rfl
    have hsent : of_key k s.commits = of_key k s.sent :=
      h.sent k fun j e he => hk j e (pending_update hbefore he)
    show of_key k ((s.log ++ [_]).map Commit.write) = of_key k (storage.bus.map write_of)
    rw [map_append, of_key_append, hbus]
    show of_key k s.commits ++ of_key k [⟨n, event.key, event.value⟩] = _
    rw [of_key_other hne, append_nil]
    exact hsent
  unsent := by
    intro j e he
    show of_key e.2.key ((s.log ++ [_]).map Commit.write) =
      of_key e.2.key (storage.bus.map write_of) ++ [write_of e]
    rw [map_append, of_key_append, hbus]
    show of_key e.2.key s.commits ++ of_key e.2.key [⟨n, event.key, event.value⟩] =
      of_key e.2.key s.sent ++ [write_of e]
    rcases call_update he with ⟨_, he⟩ | ⟨hj, he⟩
    · -- its own: all before it was sent
      cases he
      have hsent : of_key event.key s.commits = of_key event.key s.sent := by
        apply h.sent
        intro j e he hek
        have hji := h.alone j i event.key (hek ▸ key_of_pending he) hkey
        rw [hji, hbefore] at he
        nomatch he
      show of_key event.key s.commits ++ of_key event.key [⟨n, event.key, event.value⟩] = _
      rw [hsent, of_key_self ⟨n, event.key, event.value⟩]
      rfl
    · have hne : event.key ≠ e.2.key := by
        intro heq
        exact hj (h.alone j i e.2.key (key_of_pending he) (heq ▸ hkey))
      rw [of_key_other hne, append_nil]
      exact h.unsent j e he

theorem Serial.emit (h : Serial s) {answer : Option Json}
    (hbus : storage.bus = s.storage.bus ++ [e]) (hpending : (s.calls i).pending = some e) :
    Serial ⟨storage, Function.update s.calls i (.returned (.ok answer)), s.log⟩ where
  alone := alone_update h.alone (.inl rfl)
  drawn_gt := by
    intro j w hw
    exact h.drawn_gt j w (drawn_update_none rfl hw).2
  increasing := h.increasing
  sent := by
    intro k hk
    show of_key k s.commits = of_key k (storage.bus.map write_of)
    rw [hbus, map_append, of_key_append]
    show of_key k s.commits = of_key k s.sent ++ of_key k [write_of e]
    by_cases hek : e.2.key = k
    · subst hek
      rw [h.unsent i e hpending]
      exact congrArg _ (of_key_self (write_of e)).symm
    · rw [of_key_other (w := write_of e) hek, append_nil]
      apply h.sent
      intro j e' he'
      by_cases hj : j = i
      · rw [hj, hpending] at he'
        rw [← Option.some.inj he']
        exact hek
      · apply hk j e'
        show (update s.calls i _ j).pending = some e'
        rw [update_of_ne hj]
        exact he'
  unsent := by
    intro j e' he'
    rcases call_update he' with ⟨_, he'⟩ | ⟨hj, he'⟩
    · nomatch he'
    · -- another event that is waiting is for another key
      have hne : e.2.key ≠ e'.2.key := by
        intro heq
        exact hj (h.alone j i e'.2.key (key_of_pending he') (heq ▸ key_of_pending hpending))
      show of_key e'.2.key s.commits =
        of_key e'.2.key (storage.bus.map write_of) ++ [write_of e']
      rw [hbus, map_append, of_key_append]
      show of_key e'.2.key s.commits =
        of_key e'.2.key s.sent ++ of_key e'.2.key [write_of e] ++ [write_of e']
      rw [of_key_other (w := write_of e) hne, append_nil]
      exact h.unsent j e' he'

theorem Serial.advance (h : Serial s) (hfresh : Fresh s) (i : ι)
    (hi : (s.calls i).finished = false) : Serial (s.advance i) := by
  have heffect := (s.calls i).step_effect s.storage hi
  unfold Writers.advance
  generalize ((s.calls i).step s.storage).1 = storage' at heffect ⊢
  generalize ((s.calls i).step s.storage).2 = c' at heffect ⊢
  generalize hcall : s.calls i = c at heffect
  cases heffect with
  | check hsame hkey hc hdrawn hpending =>
    rw [← hcall] at hkey hc
    rw [committed_eq_nil hpending, append_nil]
    apply h.quiet hsame.bus (alone_update h.alone hkey) hc hpending
    intro w hw
    rw [hdrawn] at hw
    nomatch hw
  | draw hkey hc hkey' hdrawn hpending =>
    rw [← hcall] at hkey hc
    rw [committed_eq_nil hpending, append_nil]
    refine h.quiet ?_ (alone_update h.alone (.inr (hkey'.trans hkey.symm))) hc hpending ?_
    · rfl
    · intro w hw c hc _
      rw [hdrawn] at hw
      rw [← Option.some.inj hw]
      exact Nat.lt_succ_of_le (hfresh.log_le c hc)
  | commit_drawn hdrawn =>
    rw [← hcall] at hdrawn
    refine h.commit ?_ (key_of_drawn hdrawn) (pending_of_drawn hdrawn) ?_
    · rfl
    · exact h.drawn_gt i _ hdrawn
  | commit_fresh hkey _ hc =>
    rw [← hcall] at hkey hc
    refine h.commit ?_ hkey hc ?_
    · rfl
    · intro c hc _
      exact Nat.lt_succ_of_le (hfresh.log_le c hc)
  | @emit revision event previous answer =>
    rw [committed_eq_nil rfl, append_nil]
    exact h.emit (e := (revision, event)) rfl (by rw [hcall]; rfl)

variable {capacity : Nat} {tr : List (Label ι)}

theorem Serial.step {lbl : Label ι} {s' : Writers ι} (h : Serial s) (hfresh : Fresh s)
    (hok : NotOverlapping tr s lbl) (hstep : (writers ι capacity).system.step s lbl s') :
    Serial s' := by
  obtain ⟨henabled, rfl⟩ := hstep
  cases lbl with
  | start i req =>
    have hfinished : (s.calls i).finished = true := henabled
    have hbefore : (s.calls i).pending = none := by
      cases hc : s.calls i with
      | emitting =>
        rw [hc] at hfinished
        nomatch hfinished
      | _ => rfl
    refine h.quiet rfl ?_ hbefore rfl fun w hw => absurd hw (Option.some_ne_none w).symm
    intro j j' k hk hk'
    rcases call_update hk with ⟨hj, hk⟩ | ⟨_, hk⟩ <;> rcases call_update hk' with ⟨hj', hk'⟩ | ⟨_, hk'⟩
    · rw [hj, hj']
    · exact absurd (hk'.trans hk.symm) (hok j')
    · exact absurd (hk.trans hk'.symm) (hok j)
    · exact h.alone j j' k hk hk'
  | advance i => exact h.advance hfresh i (not_finished_of_enabled henabled)
  | compact_to revision | inject_conflicts n =>
    exact { h with }

theorem serial_of_exec (h : ExecWhen (writers ι capacity).system NotOverlapping tr s) :
    Serial s := by
  refine h.invariant (I := fun _ s => Serial s) (J := fun _ s => Fresh s) ?_ ?_ ?_
  · intro tr s h
    exact fresh_of_exec h
  · intro s hs
    rw [hs]
    exact ⟨nofun, nofun, .nil, fun _ _ => rfl, nofun⟩
  · intro tr s l s' hfresh hserial hok hstep
    exact hserial.step hfresh hok hstep

/-! ### The history -/

theorem push_suffix {h : History} {bus : List (Nat × WatchEvent)} (hs : h.events <:+ bus)
    (revision : Nat) (event : WatchEvent) (previous : Option Json) :
    (h.push revision event previous).events <:+ bus ++ [(revision, event)] := by
  have hroom : (if h.capacity ≤ h.events.length then h.evict else h).events <:+ bus := by
    split
    · have hevict : h.evict.events <:+ h.events := by
        unfold History.evict
        split
        · exact suffix_refl _
        · next hcons =>
          rw [hcons]
          exact suffix_cons _ _
      exact hevict.trans hs
    · exact hs
  obtain ⟨before, hbefore⟩ := hroom
  refine ⟨before, ?_⟩
  rw [← hbefore]
  exact (append_assoc _ _ _).symm

/-- The history holds the newest of the events that were sent, in the same order. -/
theorem history_suffix (h : Exec (writers ι capacity).system tr s) :
    s.storage.history.events <:+ s.storage.bus := by
  refine h.invariant (I := fun _ s => s.storage.history.events <:+ s.storage.bus) ?_ ?_
  · intro s hs
    rw [hs]
    exact suffix_refl _
  · intro tr s lbl s' hs hstep
    obtain ⟨henabled, rfl⟩ := hstep
    cases lbl with
    | start i req => exact hs
    | advance i =>
      have heffect := (s.calls i).step_effect s.storage (not_finished_of_enabled henabled)
      show ((s.calls i).step s.storage).1.history.events <:+ ((s.calls i).step s.storage).1.bus
      generalize ((s.calls i).step s.storage).1 = storage' at heffect ⊢
      generalize ((s.calls i).step s.storage).2 = c' at heffect
      generalize s.calls i = c at heffect
      cases heffect with
      | check hsame =>
        rw [hsame.history, hsame.bus]
        exact hs
      | draw | commit_drawn | commit_fresh => exact hs
      | emit => exact push_suffix hs _ _ _
    | compact_to revision | inject_conflicts n => exact hs

theorem version_of_stamped (hw : Stamped w) {v : Json} (hv : w.value = some v)
    (hn : extract_resource_version v = some (mod_revision_to_resource_version n)) :
    n = w.revision := by
  obtain ⟨obj, rfl⟩ := hw v hv
  rw [extract_stamp] at hn
  split at hn
  · exact (Text.toString_inj (Option.some.inj hn)).symm
  · nomatch hn

/-! ### The order of a key -/

section order

variable {ι : Type} {s : Writers ι} (h : Serial s) (k : String)

include h

theorem commits_increasing :
    (of_key k s.commits).Pairwise fun a b => a.revision < b.revision := by
  unfold of_key Writers.commits
  rw [pairwise_filter, pairwise_map]
  refine h.increasing.imp ?_
  intro a b hab ha hb
  apply hab
  have ha : a.event.key = k := of_decide_eq_true ha
  have hb : b.event.key = k := of_decide_eq_true hb
  rw [ha, hb]

theorem sent_of_commits : of_key k s.sent <+: of_key k s.commits := by
  by_cases hk : ∀ i e, (s.calls i).pending = some e → e.2.key ≠ k
  · rw [h.sent k hk]
  · push Not at hk
    obtain ⟨i, e, he, rfl⟩ := hk
    rw [h.unsent i e he]
    exact prefix_append _ _

theorem sent_increasing :
    s.storage.bus.Pairwise fun a b => a.2.key = k → b.2.key = k → a.1 < b.1 := by
  have hsent : (of_key k s.sent).Pairwise fun a b => a.revision < b.revision :=
    (commits_increasing h k).sublist (sent_of_commits h k).sublist
  unfold of_key Writers.sent at hsent
  rw [pairwise_filter, pairwise_map] at hsent
  refine hsent.imp ?_
  intro a b hab ha hb
  exact hab (decide_eq_true ha) (decide_eq_true hb)

variable {k} in
theorem replay_sent (hfresh : Fresh s) (hk : ∀ i, (s.calls i).key ≠ some k) :
    Journal.replay s.sent (fun _ => none) k = s.storage.data.lookup k := by
  have hsent : of_key k s.commits = of_key k s.sent := by
    apply h.sent
    intro i e he hek
    exact hk i (hek ▸ key_of_pending he)
  have hkey : ∀ ws, replay (of_key k ws) (fun _ => none) k =
      replay ws (fun _ => none) k := by
    intro ws
    exact replay_filter (p := fun k' => decide (k' = k)) (by simp) ws _
  rw [hfresh.data k, ← hkey, ← hsent, hkey]
  have hstate := state_append s.journal []
  rw [append_nil] at hstate
  rw [hstate, Writers.journal, reverse_reverse]
  rfl

end order

theorem apply_received {bus : List (Nat × WatchEvent)} {start : String → Option Json}
    (h : n = 0 ∧ start k = none ∨ ∃ e ∈ bus.drop n, e.2.key = k) :
    apply_events ((bus.drop n).map Prod.snd) start k =
      Journal.replay (bus.map write_of) (fun _ => none) k := by
  rw [apply_events_eq_replay]
  rcases h with ⟨rfl, hstart⟩ | ⟨e, he, hek⟩
  · exact replay_congr _ hstart
  · conv => rhs; rw [← take_append_drop n bus, map_append, replay_append]
    exact replay_of_mem ⟨write_of e, mem_map_of_mem he, hek⟩ _ _

/-- **Order of a key**: in every run that starts a call for a key only when no other for it is
    in flight, the versions stored at a key never decrease, its events are sent and recorded
    in increasing order of their revisions, and a watch that applies them in the order
    received ends with what is stored, once the calls for the key are over. -/
theorem key_is_ordered_without_overlap {capacity : Nat} {tr : List (Label ι)}
    (h : ExecWhen (writers ι capacity).system NotOverlapping tr s) (k : String) :
    (s.log.Pairwise fun a b => a.event.key = k → b.event.key = k →
      ∀ v w n m, a.event.value = some v → b.event.value = some w →
        extract_resource_version v = some (mod_revision_to_resource_version n) →
        extract_resource_version w = some (mod_revision_to_resource_version m) → n ≤ m) ∧
    (s.storage.bus.Pairwise fun a b => a.2.key = k → b.2.key = k → a.1 < b.1) ∧
    (s.storage.history.events.Pairwise fun a b => a.2.key = k → b.2.key = k → a.1 < b.1) ∧
    ((∀ i, (s.calls i).key ≠ some k) → ∀ (n : Nat) (start : String → Option Json),
      (n = 0 ∧ start k = none ∨ ∃ e ∈ s.storage.bus.drop n, e.2.key = k) →
      apply_events ((s.storage.bus.drop n).map Prod.snd) start k = s.storage.data.lookup k) := by
  have hserial : Serial s := serial_of_exec h
  have hfresh : Fresh s := fresh_of_exec h.exec
  refine ⟨?_, sent_increasing hserial k, ?_, ?_⟩
  · have hstamped : s.log.Pairwise fun a b => Stamped a.write ∧ Stamped b.write :=
      pairwise_of_forall_mem_list fun a ha b hb =>
        ⟨hfresh.log_stamped a ha, hfresh.log_stamped b hb⟩
    refine hserial.increasing.imp₂ ?_ hstamped
    intro a b hab hst ha hb v w n m hv hw hn hm
    have hna : n = a.revision := version_of_stamped hst.1 hv hn
    have hmb : m = b.revision := version_of_stamped hst.2 hw hm
    have hlt := hab (ha.trans hb.symm)
    omega
  · exact (sent_increasing hserial k).sublist (history_suffix h.exec).sublist
  · intro hk n start hstart
    rw [apply_received hstart]
    exact replay_sent hserial hfresh hk

/-- An update whose call starts when the create is over, and one of another key that does
    not wait for it. -/
theorem key_is_ordered_without_overlap_of_others :
    let obj := fun n => Json.object [("metadata", .object [("name", .string n)])]
    let lbls : List (Label (Fin 2)) :=
      [.start 0 (.create "/pods/a" (obj "a") "u" "t"), .advance 0, .advance 0,
        .start 1 (.create "/pods/b" (obj "b") "u" "t"), .advance 1, .advance 1, .advance 1,
        .advance 1, .advance 0, .advance 0, .start 1 (.update "/pods/a" (obj "c")), .advance 1,
        .advance 1, .advance 1]
    ∃ s, ExecWhen (writers (Fin 2) 10).system NotOverlapping lbls.reverse s ∧
      s.storage.bus.map Prod.fst = [3, 2, 4] ∧
      apply_events ((s.storage.bus.drop 0).map Prod.snd) (fun _ => none) "/pods/a" =
        s.storage.data.lookup "/pods/a" := by
  intro obj lbls
  let facts : Writers (Fin 2) → Prop := fun s =>
    s.storage.bus.map Prod.fst = [3, 2, 4] ∧ ∀ i, (s.calls i).key ≠ some "/pods/a"
  have hrun : ((writers (Fin 2) 10).trace (fun s lbl => decide (NotOverlapping [] s lbl))
      (.empty (Fin 2) 10) lbls).any (fun s => decide (facts s)) = true := by decide +kernel
  obtain ⟨s, hexec, hfacts⟩ := (writers (Fin 2) 10).exists_exec
    NotOverlapping (fun tr s lbl h => by cases lbl <;> exact of_decide_eq_true h) hrun
  obtain ⟨hbus, hover⟩ := of_decide_eq_true hfacts
  exact ⟨s, hexec, hbus, (key_is_ordered_without_overlap hexec "/pods/a").2.2.2 hover 0 _
    (.inl ⟨rfl, rfl⟩)⟩

/-- Calls for one key that overlap. An `update_raw` draws its revision, an update goes through
    in full, and then the `update_raw` puts the lower revision in its place. After that two
    updates write their data in one order and send their events in the other: the watch ends
    with the object of the first, and the second is stored. -/
theorem overlapping_calls_disorder_a_key :
    let obj := fun n => Json.object [("metadata", .object [("name", .string n)])]
    let lbls : List (Label (Fin 2)) :=
      [.start 0 (.create "/pods/a" (obj "a") "u" "t"), .advance 0, .advance 0, .advance 0,
        .advance 0,
        .start 0 (.update_raw "/pods/a" (obj "b")), .advance 0, .advance 0,
        .start 1 (.update "/pods/a" (obj "c")), .advance 1, .advance 1, .advance 1,
        .advance 0, .advance 0,
        .start 0 (.update "/pods/a" (obj "d")), .start 1 (.update "/pods/a" (obj "e")),
        .advance 0, .advance 0, .advance 1, .advance 1, .advance 1, .advance 0]
    ∃ s, Exec (writers (Fin 2) 10).system lbls.reverse s ∧ (∀ i, (s.calls i).finished = true) ∧
      s.log.map (fun c => (c.event.key, c.event.value.bind extract_resource_version)) =
        [("/pods/a", some "2"), ("/pods/a", some "4"), ("/pods/a", some "3"),
          ("/pods/a", some "5"), ("/pods/a", some "6")] ∧
      s.storage.history.events.map (fun e => (e.1, e.2.key)) =
        [(2, "/pods/a"), (4, "/pods/a"), (3, "/pods/a"), (6, "/pods/a"), (5, "/pods/a")] ∧
      (apply_events (s.storage.bus.map Prod.snd) (fun _ => none) "/pods/a").bind
        extract_resource_version = some "5" ∧
      (s.storage.data.lookup "/pods/a").bind extract_resource_version = some "6" := by
  intro obj lbls
  exact (writers (Fin 2) 10).exec_of_trace (by decide +kernel)

end Storage
