import Mathlib

/-! # Journals

    A journal lists the writes to a map, newest first, each under a revision of its
    own. The map as it stood at a revision is had in two ways: by forgetting the
    later writes, or by undoing them, newest first, from what each of them replaced.
    Replaying the later writes leads back.
-/

open Function List

namespace Framework

/-- What is put under a key, or nothing if it is removed. -/
structure Write (K V : Type) where
  revision : Nat
  key : K
  value : Option V

namespace Journal

variable {K V : Type}

def upto (r : Nat) (ws : List (Write K V)) : List (Write K V) :=
  ws.dropWhile fun w => decide (r < w.revision)

def since (r : Nat) (ws : List (Write K V)) : List (Write K V) :=
  ws.takeWhile fun w => decide (r < w.revision)

def Ordered (ws : List (Write K V)) : Prop := ws.Pairwise fun a b => b.revision < a.revision

variable {r : Nat} {w : Write K V} {ws : List (Write K V)}

theorem upto_of_le (h : w.revision ≤ r) : upto r (w :: ws) = w :: ws :=
  dropWhile_cons_of_neg (by simpa using h)

theorem upto_of_lt (h : r < w.revision) : upto r (w :: ws) = upto r ws :=
  dropWhile_cons_of_pos (by simpa using h)

theorem upto_of_forall_le (h : ∀ w ∈ ws, w.revision ≤ r) : upto r ws = ws := by
  cases ws with
  | nil => rfl
  | cons w ws => exact upto_of_le (h w (.head _))

/-- Between two revisions without a write nothing changes. -/
theorem upto_of_quiet {r' : Nat} (hle : r ≤ r') (h : ∀ w ∈ ws, ¬(r < w.revision ∧ w.revision ≤ r')) :
    upto r' ws = upto r ws := by
  induction ws with
  | nil => rfl
  | cons w ws ih =>
    have hw := h w (.head _)
    by_cases hr : r' < w.revision
    · rw [upto_of_lt hr, upto_of_lt (by omega)]
      exact ih fun w hw => h w (.tail _ hw)
    · rw [upto_of_le (by omega), upto_of_le (by omega)]

theorem upto_next (hord : Ordered ws) (hw : w ∈ ws) (hlt : r < w.revision)
    (hfirst : ∀ w' ∈ ws, ¬(r < w'.revision ∧ w'.revision < w.revision)) :
    upto w.revision ws = w :: upto r ws := by
  induction ws with
  | nil => nomatch hw
  | cons x ws ih =>
    obtain ⟨hx, hord⟩ := pairwise_cons.mp hord
    rcases mem_cons.mp hw with rfl | hw
    · -- the older writes are not after `r`
      have hold : ∀ w' ∈ ws, w'.revision ≤ r := by
        intro w' hw'
        have hbefore := hx w' hw'
        have hnot := hfirst w' (.tail _ hw')
        omega
      rw [upto_of_le (Nat.le_refl _), upto_of_lt hlt, upto_of_forall_le hold]
    · have hgt := hx w hw
      rw [upto_of_lt hgt, upto_of_lt (by omega)]
      exact ih hord hw fun w' hw' => hfirst w' (.tail _ hw')

/-- The writes after `r` are those with a greater revision. -/
theorem since_eq_filter (h : Ordered ws) :
    since r ws = ws.filter fun w => decide (r < w.revision) := by
  induction ws with
  | nil => rfl
  | cons w ws ih =>
    obtain ⟨hw, hord⟩ := pairwise_cons.mp h
    by_cases hr : r < w.revision
    · rw [since, takeWhile_cons_of_pos (by simpa using hr),
        filter_cons_of_pos (by simpa using hr)]
      exact congrArg _ (ih hord)
    · rw [since, takeWhile_cons_of_neg (by simpa using hr),
        filter_cons_of_neg (by simpa using hr)]
      symm
      rw [filter_eq_nil_iff]
      intro w' hw'
      have hlt := hw w' hw'
      simp only [decide_eq_true_eq]
      omega

variable [DecidableEq K]

def state : List (Write K V) → K → Option V
  | [] => fun _ => none
  | w :: ws => Function.update (state ws) w.key w.value

variable {k : K}

theorem exists_write {v : V} (h : state ws k = some v) :
    ∃ w ∈ ws, w.key = k ∧ w.value = some v := by
  induction ws with
  | nil => nomatch h
  | cons w ws ih =>
    unfold state at h
    by_cases hk : k = w.key
    · rw [hk, update_self] at h
      exact ⟨w, .head _, hk.symm, h⟩
    · rw [update_of_ne hk] at h
      obtain ⟨w', hw', hkey, hvalue⟩ := ih h
      exact ⟨w', .tail _ hw', hkey, hvalue⟩

def undo : List (Write K V) → List (Write K V)
  | [] => []
  | w :: ws => { w with value := state ws w.key } :: undo ws

def rewind (r : Nat) : List (Write K V) → (K → Option V) → K → Option V
  | [], s => s
  | u :: us, s => rewind r us (if r < u.revision then Function.update s u.key u.value else s)

/-- Make the writes, in turn. -/
def replay : List (Write K V) → (K → Option V) → K → Option V
  | [], s => s
  | w :: ws, s => replay ws (Function.update s w.key w.value)

theorem length_undo (ws : List (Write K V)) : (undo ws).length = ws.length := by
  induction ws with
  | nil => rfl
  | cons w ws ih => exact congrArg Nat.succ ih

theorem rewind_of_le {us : List (Write K V)} (h : ∀ u ∈ us, u.revision ≤ r) (s : K → Option V) :
    rewind r us s = s := by
  induction us generalizing s with
  | nil => rfl
  | cons u us ih =>
    have hu : ¬r < u.revision := Nat.not_lt.mpr (h u (.head _))
    rw [rewind, if_neg hu]
    exact ih (fun u' hu' => h u' (.tail _ hu')) s

theorem revision_le_of_mem_undo {u : Write K V} (h : ∀ w ∈ ws, w.revision ≤ r) (hu : u ∈ undo ws) :
    u.revision ≤ r := by
  induction ws with
  | nil => nomatch hu
  | cons w ws ih =>
    rcases mem_cons.mp hu with rfl | hu
    · exact h w (.head _)
    · exact ih (fun w' hw' => h w' (.tail _ hw')) hu

/-- **Rewinding**: if all writes that are no longer kept are up to `r`, undoing those that
    are kept gives the map as it stood at `r`. -/
theorem rewind_undo (hord : Ordered ws) (n : Nat) (hkept : ∀ w ∈ ws.drop n, w.revision ≤ r) :
    rewind r ((undo ws).take n) (state ws) = state (upto r ws) := by
  induction ws generalizing n with
  | nil =>
    simp only [undo, take_nil, rewind]
    rfl
  | cons w ws ih =>
    obtain ⟨hw, hord⟩ := pairwise_cons.mp hord
    by_cases hr : r < w.revision
    · cases n with
      | zero => exact absurd (hkept w (.head _)) (Nat.not_le.mpr hr)
      | succ n =>
        -- the newest write is undone
        have hback : update (state (w :: ws)) w.key (state ws w.key) = state ws := by
          simp [state]
        simp only [undo, take_succ_cons, rewind, if_pos hr]
        rw [hback, upto_of_lt hr]
        exact ih hord n (fun w' hw' => hkept w' hw')
    · have hle : w.revision ≤ r := Nat.not_lt.mp hr
      rw [upto_of_le hle]
      have hall : ∀ w' ∈ w :: ws, w'.revision ≤ r := forall_mem_cons.mpr
        ⟨hle, fun w' hw' => Nat.le_of_lt (Nat.lt_of_lt_of_le (hw w' hw') hle)⟩
      apply rewind_of_le
      intro u hu
      exact revision_le_of_mem_undo hall (mem_of_mem_take hu)

theorem replay_append (as bs : List (Write K V)) (s : K → Option V) :
    replay (as ++ bs) s = replay bs (replay as s) := by
  induction as generalizing s with
  | nil => rfl
  | cons a as ih => exact ih _

theorem state_append (as bs : List (Write K V)) :
    state (as ++ bs) = replay as.reverse (state bs) := by
  induction as with
  | nil => rfl
  | cons a as ih =>
    rw [reverse_cons, replay_append, ← ih]
    rfl

/-- **Replaying**: the writes after `r` lead from the map at `r` to the map. -/
theorem replay_since (r : Nat) (ws : List (Write K V)) :
    replay (since r ws).reverse (state (upto r ws)) = state ws := by
  rw [← state_append, since, upto, takeWhile_append_dropWhile]

theorem replay_of_not_mem (h : ∀ w ∈ ws, w.key ≠ k) (s : K → Option V) : replay ws s k = s k := by
  induction ws generalizing s with
  | nil => rfl
  | cons w ws ih =>
    rw [replay, ih fun w' hw' => h w' (.tail _ hw')]
    exact update_of_ne (h w (.head _)).symm _ _

theorem state_of_not_mem (h : ∀ w ∈ ws, w.key ≠ k) : state ws k = none := by
  rw [← append_nil ws, state_append, replay_of_not_mem]
  · rfl
  · intro w hw
    exact h w (mem_reverse.mp hw)

/-- What becomes of a key depends on what it held before only. -/
theorem replay_congr (ws : List (Write K V)) {s s' : K → Option V} (h : s k = s' k) :
    replay ws s k = replay ws s' k := by
  induction ws generalizing s s' with
  | nil => exact h
  | cons w ws ih =>
    apply ih
    by_cases hk : k = w.key
    · rw [hk, update_self, update_self]
    · rw [update_of_ne hk, update_of_ne hk, h]

/-- And not even on that, if it is written. -/
theorem replay_of_mem (h : ∃ w ∈ ws, w.key = k) (s s' : K → Option V) :
    replay ws s k = replay ws s' k := by
  induction ws generalizing s s' with
  | nil =>
    obtain ⟨w, hw, _⟩ := h
    nomatch hw
  | cons w ws ih =>
    by_cases hk : w.key = k
    · rw [replay, replay]
      apply replay_congr
      rw [hk, update_self, update_self]
    · apply ih
      obtain ⟨w', hw', hk'⟩ := h
      rcases mem_cons.mp hw' with rfl | hw'
      · exact absurd hk' hk
      · exact ⟨w', hw', hk'⟩

/-- To a key that meets `p` only the writes to such keys matter. -/
theorem replay_filter {p : K → Bool} (hk : p k = true) (ws : List (Write K V)) (s : K → Option V) :
    replay (ws.filter fun w => p w.key) s k = replay ws s k := by
  induction ws generalizing s with
  | nil => rfl
  | cons w ws ih =>
    by_cases hw : p w.key = true
    · rw [filter_cons, if_pos hw]
      exact ih _
    · have hne : k ≠ w.key := by
        rintro rfl
        exact hw hk
      rw [filter_cons, if_neg hw, ih, replay]
      apply replay_congr
      rw [update_of_ne hne]

end Journal

end Framework
