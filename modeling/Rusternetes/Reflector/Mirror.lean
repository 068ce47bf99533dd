import Rusternetes.Framework.Journal
import Rusternetes.Framework.LTS

/-! # The Reflector

    A reflector mirrors a collection of the server into a local store: one list, then a
    watch whose events are applied as they stream in. The revision it holds says where
    to resume. A graceful end of the watch keeps the revision, any failure drops it, so
    that the next cycle lists again.

    The server is its history, newest change first. It answers a list with its state at
    some revision, and a watch with the changes after the revision asked for, in order.
-/

open List

namespace Reflector

open Framework LTS

/-- A server: its history, each change with the key of the object it carries. -/
structure Server (T : Type) where
  key_fn : T → String
  history : List (Write String T)
  ordered : Journal.Ordered history
  keyed : ∀ w ∈ history, ∀ v, w.value = some v → w.key = key_fn v

def Server.state_at {T : Type} (server : Server T) (r : Nat) : String → Option T :=
  Journal.state (Journal.upto r server.history)

inductive WatchEvent (T : Type) where
  | added (obj : T)
  | modified (obj : T)
  | deleted (obj : T)
  | bookmark

/-- Where `run` is: before a list or a watch, or in a watch that has delivered everything up
    to a revision. -/
inductive Phase where
  | idle
  | watching (delivered : Nat)

structure State (T : Type) where
  store : String → Option T := fun _ => none
  last_rv : Option Nat := none
  synced : Bool := false
  phase : Phase := .idle
  /-- The revisions the store has reflected, the latest first. -/
  reflected : List Nat := []

/-- What happens next. -/
inductive Label (T : Type) where
  | list (items : List T) (rv : Nat)
  | list_failed
  | watch
  | watch_failed
  | item (event : WatchEvent T) (obj_rv : Option Nat)
  | item_failed
  | closed

section

variable {T : Type} (server : Server T)

def filled : List T → (String → Option T) → String → Option T
  | [], store => store
  | item :: items, store => filled items (Function.update store (server.key_fn item) (some item))

def applied (store : String → Option T) : WatchEvent T → String → Option T
  | .added obj | .modified obj => Function.update store (server.key_fn obj) (some obj)
  | .deleted obj => Function.update store (server.key_fn obj) none
  | .bookmark => store

/-- An error of `sync_once`, as `run` answers it. -/
def failed (s : State T) : State T := { s with last_rv := none, phase := .idle }

def reflect (s : State T) (rv : Option Nat) : List Nat := rv.toList ++ s.reflected

/-- One step of `run`: the parts of `sync_once` and the answer to its result. -/
def next (s : State T) : Label T → State T
  | .list items rv =>
    { s with
      store := filled server items fun _ => none
      last_rv := some rv
      synced := true
      reflected := rv :: s.reflected }
  | .list_failed | .watch_failed | .item_failed => failed s
  | .watch => { s with phase := .watching (s.last_rv.getD 0) }
  | .item event obj_rv =>
    { s with
      store := applied server s.store event
      -- the held revision advances with every event that carries one
      last_rv := obj_rv.or s.last_rv
      phase := match s.phase with
        | .watching delivered => .watching (obj_rv.getD delivered)
        | .idle => .idle
      reflected := reflect s obj_rv }
  | .closed => { s with phase := .idle }

/-- The event of a change: the object it carries is the new one, or the one that is gone. -/
def EventOf (w : Write String T) : WatchEvent T → Prop
  | .added obj | .modified obj => w.value = some obj
  | .deleted obj => w.value = none ∧ server.key_fn obj = w.key
  | .bookmark => False

/-- What a watch may deliver after everything up to a revision: the first change after it, or
    a bookmark at a later revision with no change in between. -/
def Delivers (delivered : Nat) : WatchEvent T → Option Nat → Prop
  | .bookmark, none => True
  | .bookmark, some r => delivered ≤ r ∧
      ∀ w ∈ server.history, ¬(delivered < w.revision ∧ w.revision ≤ r)
  | event, obj_rv => ∃ w ∈ server.history, EventOf server w event ∧ obj_rv = some w.revision ∧
      delivered < w.revision ∧
      ∀ w' ∈ server.history, ¬(delivered < w'.revision ∧ w'.revision < w.revision)

/-- When a step can happen: a list only without a held revision, with the items of the state
    at its revision; a watch only with one. -/
def Enabled (s : State T) : Label T → Prop
  | .list items rv => s.phase = .idle ∧ s.last_rv = none ∧
      ∀ k v, server.state_at rv k = some v ↔ v ∈ items ∧ server.key_fn v = k
  | .list_failed => s.phase = .idle ∧ s.last_rv = none
  | .watch | .watch_failed => s.phase = .idle ∧ s.last_rv.isSome = true
  | .item event obj_rv => ∃ delivered, s.phase = .watching delivered ∧
      Delivers server delivered event obj_rv
  | .item_failed | .closed => ∃ delivered, s.phase = .watching delivered

def system : System (State T) (Label T) where
  init s := s = {}
  step s l s' := Enabled server s l ∧ s' = next server s l

/-- The list is not served from a revision older than what the store reflects. -/
def Fresh (_ : List (Label T)) (s : State T) : Label T → Prop
  | .list _ rv => ∀ r ∈ s.reflected, r ≤ rv
  | _ => True

end

/-! ### The store -/

section

variable {T : Type} {server : Server T} {items : List T}

theorem filled_of_not_mem {k : String} (h : ∀ v ∈ items, server.key_fn v ≠ k)
    (store : String → Option T) : filled server items store k = store k := by
  induction items generalizing store with
  | nil => rfl
  | cons item items ih =>
    rw [filled, ih fun v hv => h v (.tail _ hv)]
    exact Function.update_of_ne (h item (.head _)).symm _ _

/-- A key that one object has is read as that object, whatever the order of the items. -/
theorem filled_of_mem {v : T} (hv : v ∈ items)
    (hunique : ∀ v' ∈ items, server.key_fn v' = server.key_fn v → v' = v)
    (store : String → Option T) : filled server items store (server.key_fn v) = some v := by
  induction items generalizing store with
  | nil => nomatch hv
  | cons item items ih =>
    have hrest : ∀ v' ∈ items, server.key_fn v' = server.key_fn v → v' = v :=
      fun v' hv' => hunique v' (.tail _ hv')
    by_cases hmem : v ∈ items
    · exact ih hmem hrest _
    · obtain rfl := (mem_cons.mp hv).resolve_right hmem
      rw [filled, filled_of_not_mem]
      · exact Function.update_self _ _ _
      · intro v' hv' hkey
        exact hmem (hrest v' hv' hkey ▸ hv')

theorem filled_eq_state_at {rv : Nat}
    (h : ∀ k v, server.state_at rv k = some v ↔ v ∈ items ∧ server.key_fn v = k) :
    filled server items (fun _ => none) = server.state_at rv := by
  funext k
  cases hk : server.state_at rv k with
  | some v =>
    obtain ⟨hv, rfl⟩ := (h k v).mp hk
    apply filled_of_mem hv
    intro v' hv' hkey
    have hsame := (h _ v').mpr ⟨hv', hkey⟩
    rw [hk] at hsame
    exact (Option.some.inj hsame).symm
  | none =>
    apply filled_of_not_mem
    intro v hv hkey
    rw [(h k v).mpr ⟨hv, hkey⟩] at hk
    cases hk

theorem applied_of_eventOf {w : Write String T} (hw : w ∈ server.history) {event : WatchEvent T}
    (h : EventOf server w event) (store : String → Option T) :
    applied server store event = Function.update store w.key w.value := by
  cases event with
  | added obj | modified obj =>
    rw [applied, show w.value = some obj from h, server.keyed w hw obj h]
  | deleted obj => rw [applied, h.1, h.2]
  | bookmark => exact h.elim

/-- **One delivery**: from the state at one revision to the state at the next. -/
theorem applied_of_delivers {delivered : Nat} {event : WatchEvent T} {obj_rv : Option Nat}
    (h : Delivers server delivered event obj_rv) :
    applied server (server.state_at delivered) event = server.state_at (obj_rv.getD delivered) ∧
      delivered ≤ obj_rv.getD delivered := by
  have hchange : (∃ w ∈ server.history, EventOf server w event ∧ obj_rv = some w.revision ∧
      delivered < w.revision ∧
      ∀ w' ∈ server.history, ¬(delivered < w'.revision ∧ w'.revision < w.revision)) →
      applied server (server.state_at delivered) event = server.state_at (obj_rv.getD delivered) ∧
        delivered ≤ obj_rv.getD delivered := by
    intro ⟨w, hw, hevent, hrv, hlt, hfirst⟩
    rw [hrv, Option.getD_some, applied_of_eventOf hw hevent, Server.state_at, Server.state_at,
      Journal.upto_next server.ordered hw hlt hfirst]
    exact ⟨rfl, Nat.le_of_lt hlt⟩
  cases event with
  | bookmark =>
    cases obj_rv with
    | none => exact ⟨rfl, Nat.le_refl _⟩
    | some r =>
      obtain ⟨hle, hquiet⟩ := h
      refine ⟨?_, hle⟩
      show server.state_at delivered = server.state_at r
      rw [Server.state_at, Server.state_at, Journal.upto_of_quiet hle hquiet]
  | added obj | modified obj | deleted obj => exact hchange h

/-! ### Runs -/

/-- What holds at every moment. -/
structure Mirrors (server : Server T) (s : State T) : Prop where
  /-- The held revision is the one the store reflects. -/
  held : ∀ r, s.last_rv = some r → s.store = server.state_at r ∧ s.reflected.head? = some r
  /-- A watch goes on from the held revision. -/
  resumes : ∀ delivered, s.phase = .watching delivered → s.last_rv = some delivered

variable {s : State T}

theorem Mirrors.failed : Mirrors server (failed s) where
  held := by
    intro r h
    cases h
  resumes := by
    intro delivered h
    cases h

/-- **Step**: every part of `sync_once`, and every end of it, keeps the mirror. -/
theorem Mirrors.step {l : Label T} (h : Mirrors server s) (hl : Enabled server s l) :
    Mirrors server (next server s l) := by
  cases l with
  | list items rv =>
    obtain ⟨hidle, _, hitems⟩ := hl
    refine ⟨?_, ?_⟩
    · intro r hr
      cases hr
      exact ⟨filled_eq_state_at hitems, rfl⟩
    · intro delivered hphase
      rw [show (next server s (.list items rv)).phase = s.phase from rfl, hidle] at hphase
      cases hphase
  | list_failed | watch_failed | item_failed => exact Mirrors.failed
  | watch =>
    obtain ⟨_, hsome⟩ := hl
    obtain ⟨r, hr⟩ := Option.isSome_iff_exists.mp hsome
    refine ⟨h.held, ?_⟩
    intro delivered hphase
    have hfrom : s.last_rv.getD 0 = delivered := Phase.watching.inj hphase
    rw [hr, Option.getD_some] at hfrom
    rw [← hfrom]
    exact hr
  | item event obj_rv =>
    obtain ⟨delivered, hphase, hdelivers⟩ := hl
    have hrv := h.resumes delivered hphase
    obtain ⟨hstore, hhead⟩ := h.held delivered hrv
    obtain ⟨hnext, _⟩ := applied_of_delivers hdelivers
    have hlast : (next server s (.item event obj_rv)).last_rv = some (obj_rv.getD delivered) := by
      show obj_rv.or s.last_rv = _
      rw [hrv]
      cases obj_rv <;> rfl
    refine ⟨?_, ?_⟩
    · intro r hr
      cases hlast.symm.trans hr
      refine ⟨?_, ?_⟩
      · show applied server s.store event = _
        rw [hstore, hnext]
      · cases obj_rv with
        | none => exact hhead
        | some r => rfl
    · intro d hd
      have hd' : (match s.phase with
        | .watching delivered => Phase.watching (obj_rv.getD delivered)
        | .idle => .idle) = .watching d := hd
      rw [hphase] at hd'
      rw [hlast, Phase.watching.inj hd']
  | closed => exact ⟨h.held, nofun⟩

/-- **Every run** keeps the mirror. -/
theorem mirrors_of_exec {tr : List (Label T)} (h : Exec (system server) tr s) :
    Mirrors server s := by
  induction h with
  | init h0 =>
    obtain rfl := h0
    exact ⟨nofun, nofun⟩
  | step _ hstep ih =>
    obtain ⟨hl, rfl⟩ := hstep
    exact ih.step hl

theorem reflected_step {tr : List (Label T)} {l : Label T} (h : Mirrors server s)
    (hl : Enabled server s l) (hfresh : Fresh tr s l) (hsorted : s.reflected.Pairwise (· ≥ ·)) :
    (next server s l).reflected.Pairwise (· ≥ ·) := by
  cases l with
  | list => exact pairwise_cons.mpr ⟨hfresh, hsorted⟩
  | item event obj_rv =>
    cases obj_rv with
    | none => exact hsorted
    | some r =>
      obtain ⟨delivered, hphase, hdelivers⟩ := hl
      obtain ⟨_, hhead⟩ := h.held delivered (h.resumes delivered hphase)
      have hle : delivered ≤ r := (applied_of_delivers hdelivers).2
      refine pairwise_cons.mpr ⟨?_, hsorted⟩
      -- the revisions so far are not above the held one
      intro r' hr'
      obtain ⟨rest, hrest⟩ := head?_eq_some_iff.mp hhead
      rw [hrest] at hr' hsorted
      rcases mem_cons.mp hr' with rfl | hr'
      · exact hle
      · exact Nat.le_trans ((pairwise_cons.mp hsorted).1 r' hr') hle
  | list_failed | watch_failed | item_failed | watch | closed => exact hsorted

end

/-- **The store mirrors the server.** In every run the store is the state of the server at the
    held revision whenever one is held, and the revisions it reflects never go backwards as
    long as no list is served from an older one. -/
theorem store_mirrors_server {T : Type} (server : Server T) :
    (∀ tr s, Exec (system server) tr s →
        ∀ r, s.last_rv = some r → s.store = server.state_at r ∧ s.reflected.head? = some r) ∧
      ∀ tr s, ExecWhen (system server) Fresh tr s → s.reflected.Pairwise (· ≥ ·) := by
  refine ⟨fun tr s h => (mirrors_of_exec h).held, ?_⟩
  intro tr s h
  induction h with
  | init h0 =>
    obtain rfl := h0
    exact .nil
  | step hpre hfresh hstep ih =>
    obtain ⟨hl, rfl⟩ := hstep
    exact reflected_step (mirrors_of_exec hpre.exec) hl hfresh ih

/-- Two changes of one object: listed at the first, the second is watched. -/
def Sample.server : Server Nat where
  key_fn _ := "k"
  history := [⟨2, "k", some 20⟩, ⟨1, "k", some 10⟩]
  ordered := by simp [Journal.Ordered]
  keyed := by simp

theorem Sample.state_at_iff {rv item : Nat} (h : (rv, item) ∈ [(1, 10), (2, 20)]) (k : String)
    (v : Nat) : server.state_at rv k = some v ↔ v ∈ [item] ∧ server.key_fn v = k := by
  simp only [mem_cons, Prod.mk.injEq, not_mem_nil, or_false] at h
  by_cases hk : k = "k"
  · subst hk
    rcases h with ⟨rfl, rfl⟩ | ⟨rfl, rfl⟩ <;>
      simp [Server.state_at, server, Journal.upto, Journal.state, eq_comm]
  · rcases h with ⟨rfl, rfl⟩ | ⟨rfl, rfl⟩ <;>
      simp [Server.state_at, server, Journal.upto, Journal.state, hk, Ne.symm hk]

/-- What a list at the first revision reads in. -/
def Sample.listed : State Nat := next Sample.server {} (.list [10] 1)

theorem Sample.exec_listed : ExecWhen (system Sample.server) Fresh [.list [10] 1] listed :=
  .step (.init rfl) nofun ⟨⟨rfl, rfl, state_at_iff (.head _)⟩, rfl⟩

theorem Sample.delivers : Delivers Sample.server 1 (.modified 20) (some 2) :=
  ⟨⟨2, "k", some 20⟩, .head _, rfl, rfl, by decide, by simp [Sample.server]⟩

theorem Sample.run : ExecWhen (system Sample.server) Fresh
    [.item (.modified 20) (some 2), .watch, .list [10] 1]
    ⟨Function.update (Function.update (fun _ => none) "k" (some 10)) "k" (some 20), some 2, true,
      .watching 2, [2, 1]⟩ :=
  .step (.step exec_listed trivial ⟨⟨rfl, rfl⟩, rfl⟩) trivial ⟨⟨1, rfl, delivers⟩, rfl⟩

theorem watched_change_mirrored :
    Function.update (Function.update (fun _ => none) "k" (some 10)) "k" (some 20) =
        Sample.server.state_at 2 ∧ [2, 1].Pairwise (· ≥ ·) :=
  ⟨((store_mirrors_server Sample.server).1 _ _ Sample.run.exec 2 rfl).1,
    (store_mirrors_server Sample.server).2 _ _ Sample.run⟩

/-! ### Subscribers

    A subscriber copies the store and applies the events it receives. The events of a
    watch are sent to it; a list replaces the store and sends nothing. -/

inductive StoreEvent (T : Type) where
  | added (obj : T)
  | modified (obj : T)
  | deleted (obj : T)

/-- What a step sends. -/
def sent {T : Type} : Label T → Option (StoreEvent T)
  | .item (.added obj) _ => some (.added obj)
  | .item (.modified obj) _ => some (.modified obj)
  | .item (.deleted obj) _ => some (.deleted obj)
  | _ => none

section

variable {T : Type} (server : Server T)

def received (view : String → Option T) : Option (StoreEvent T) → String → Option T
  | none => view
  | some (.added obj) | some (.modified obj) =>
    Function.update view (server.key_fn obj) (some obj)
  | some (.deleted obj) => Function.update view (server.key_fn obj) none

/-- Steps that can be taken one after the other. -/
def Path : State T → List (Label T) → Prop
  | _, [] => True
  | s, l :: ls => Enabled server s l ∧ Path (next server s l) ls

/-- The copy is the store, now and after each of the steps. -/
def Follows : State T → (String → Option T) → List (Label T) → Prop
  | s, view, [] => view = s.store
  | s, view, l :: ls => view = s.store ∧ Follows (next server s l) (received server view (sent l)) ls

/-- Whenever a list is read in, the server has what the store has: nothing was missed. -/
def Unmissed : State T → List (Label T) → Prop
  | _, [] => True
  | s, l :: ls => (∀ items rv, l = .list items rv → server.state_at rv = s.store) ∧
      Unmissed (next server s l) ls

variable {server} {s : State T}

/-- **One step**: the copy stays the store, but for a list that finds something else. -/
theorem received_eq_store_iff {l : Label T} (hl : Enabled server s l) :
    received server s.store (sent l) = (next server s l).store ↔
      ∀ items rv, l = .list items rv → server.state_at rv = s.store := by
  cases l with
  | list items rv =>
    have hfilled : (next server s (.list items rv)).store = server.state_at rv :=
      filled_eq_state_at hl.2.2
    rw [hfilled]
    constructor
    · intro heq _ _ hlist
      cases hlist
      exact heq.symm
    · intro h
      exact (h items rv rfl).symm
  | item event obj_rv => cases event <;> exact ⟨fun _ => nofun, fun _ => rfl⟩
  | list_failed | watch | watch_failed | item_failed | closed =>
    exact ⟨fun _ => nofun, fun _ => rfl⟩

theorem Follows.start {view : String → Option T} {ls : List (Label T)}
    (h : Follows server s view ls) : view = s.store := by
  cases ls with
  | nil => exact h
  | cons l ls => exact h.1

end

/-- **A subscriber misses nothing** exactly if nothing was missed at any later list. -/
theorem subscriber_follows_iff {T : Type} {server : Server T} {s : State T}
    {ls : List (Label T)} (h : Path server s ls) :
    Follows server s s.store ls ↔ Unmissed server s ls := by
  induction ls generalizing s with
  | nil => exact ⟨fun _ => trivial, fun _ => rfl⟩
  | cons l ls ih =>
    obtain ⟨hl, hrest⟩ := h
    constructor
    · rintro ⟨-, hfollows⟩
      have hstep := hfollows.start
      rw [hstep] at hfollows
      exact ⟨(received_eq_store_iff hl).mp hstep, (ih hrest).mp hfollows⟩
    · rintro ⟨hlist, hunmissed⟩
      refine ⟨rfl, ?_⟩
      rw [(received_eq_store_iff hl).mpr hlist]
      exact (ih hrest).mpr hunmissed

theorem watched_change_received :
    Follows Sample.server Sample.listed Sample.listed.store
      [.watch, .item (.modified 20) (some 2)] := by
  apply (subscriber_follows_iff ?_).mpr
  · exact ⟨nofun, nofun, trivial⟩
  · exact ⟨⟨rfl, rfl⟩, ⟨1, rfl, Sample.delivers⟩, trivial⟩

/-- The object changes while the watch is down: the list finds the change, the subscriber
    does not hear of it. -/
theorem relisted_change_not_received :
    Exec (system Sample.server) [.list [10] 1] Sample.listed ∧ Sample.listed.synced = true ∧
      Path Sample.server Sample.listed [.watch, .item_failed, .list [20] 2] ∧
      ¬ Follows Sample.server Sample.listed Sample.listed.store
        [.watch, .item_failed, .list [20] 2] := by
  have hlist := @Sample.state_at_iff 2 20 (.tail _ (.head _))
  refine ⟨Sample.exec_listed.exec, rfl,
    ⟨⟨rfl, rfl⟩, ⟨1, rfl⟩, ⟨rfl, rfl, hlist⟩, trivial⟩, ?_⟩
  rintro ⟨-, -, -, h⟩
  cases congrFun h "k"

end Reflector
