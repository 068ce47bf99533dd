import Mathlib

/-! # A Notification Cell with One Permit

    The wake-up primitive of an asynchronous runtime (tokio's `Notify`), over
    an arbitrary type `W` of waiters. A waiter creates a future and then polls
    it until it is ready.

    * `notify_one` hands a notification to one waiter that has been polled, or,
      when there is none, stores the single permit.
    * `notify_waiters` reaches every future that exists at that moment, polled
      or not, and stores nothing.
    * The first poll takes the permit when there is one. A future that was
      created before a `notify_waiters` is ready at its first poll as well.
    * A future dropped while it holds a notification of `notify_one` passes it
      on.

    Which of several polled waiters `notify_one` picks is left open, so
    `notify_one` and `drop` are relations.
-/

namespace Framework

inductive Future where
  /-- There is none. -/
  | absent
  /-- Created and not yet polled; `called` once a `notify_waiters` came after. -/
  | created (called : Bool)
  /-- Polled, and still waiting: no notification has reached it. -/
  | waiting
  /-- Polled, and holding a notification of `notify_one`. -/
  | one
  /-- Polled, and reached by a `notify_waiters`. -/
  | all
  deriving DecidableEq

/-- What a future becomes by `notify_waiters`. -/
def Future.broadcast : Future → Future
  | .created _ => .created true
  | .waiting => .all
  | f => f

/-- A notification has reached the future: its next poll is ready. -/
def Future.woken : Future → Bool
  | .created called => called
  | .one | .all => true
  | .waiting | .absent => false

/-- The future can still end up waiting with nothing having reached it. -/
def Future.unreached : Future → Bool
  | .created called => !called
  | .waiting => true
  | .one | .all | .absent => false

/-- The state of the cell. -/
structure Notify (W : Type) [DecidableEq W] where
  /-- A stored notification. -/
  permit : Bool
  /-- The future of each waiter. -/
  future : W → Future

namespace Notify

variable {W : Type} [DecidableEq W]

def new : Notify W where
  permit := false
  future := fun _ => .absent

/-- The cell with the future of `w` replaced. -/
def set (n : Notify W) (w : W) (f : Future) : Notify W :=
  { n with future := Function.update n.future w f }

/-- `notify_one`: some polled waiter is chosen, or the permit is stored. -/
def notify_one (n n' : Notify W) : Prop :=
  (∃ w, n.future w = .waiting ∧ n' = n.set w .one) ∨
  ((∀ w, n.future w ≠ .waiting) ∧ n' = { n with permit := true })

def notify_waiters (n : Notify W) : Notify W :=
  { n with future := fun w => (n.future w).broadcast }

/-- `notified()`: create the future of `w`. -/
def create (n : Notify W) (w : W) : Notify W :=
  n.set w (.created false)

/-- Poll the future of `w`: the new state, and whether the future is ready
    (it is consumed then). -/
def poll (n : Notify W) (w : W) : Notify W × Bool :=
  match n.future w with
  | .created called =>
    -- the permit is tried before the count of `notify_waiters` calls
    if n.permit then ({ n.set w .absent with permit := false }, true)
    else if called then (n.set w .absent, true)
    else (n.set w .waiting, false)
  | .one | .all => (n.set w .absent, true)
  | .waiting | .absent => (n, false)

/-- Drop the future of `w`; a notification of `notify_one` it holds goes on. -/
def drop (n : Notify W) (w : W) (n' : Notify W) : Prop :=
  if n.future w = .one then (n.set w .absent).notify_one n' else n' = n.set w .absent

/-! ### What the operations do -/

variable (n : Notify W) (w : W) (f : Future)

@[simp] theorem set_permit : (n.set w f).permit = n.permit := rfl

@[simp] theorem set_future_self : (n.set w f).future w = f := by simp [set]

theorem set_future_ne {w w' : W} (h : w' ≠ w) : (n.set w f).future w' = n.future w' := by
  simp [set, Function.update_of_ne h]

@[simp] theorem notify_waiters_future : n.notify_waiters.future w = (n.future w).broadcast := rfl

/-- A poll is ready and consumes the future, or it changes nothing, or it is the first one. -/
theorem poll_cases :
    (n.poll w).2 = true ∧ (n.poll w).1.future = (n.set w .absent).future ∨
    n.poll w = (n, false) ∧ (n.future w).woken = false ∨
    n.poll w = (n.set w .waiting, false) ∧ n.future w = .created false := by
  unfold poll
  cases n.future w with
  | absent | waiting => exact .inr (.inl ⟨rfl, rfl⟩)
  | one | all => exact .inl ⟨rfl, rfl⟩
  | created called =>
    dsimp only
    split_ifs with hp hc
    · exact .inl ⟨rfl, rfl⟩
    · exact .inl ⟨rfl, rfl⟩
    · exact .inr (.inr ⟨rfl, congrArg _ (Bool.not_eq_true _ ▸ hc)⟩)

variable {n n' : Notify W} {w w' : W}

/-- `notify_one` is not lost: afterwards a permit is stored or somebody is
    woken. -/
theorem notify_one_delivers (h : n.notify_one n') :
    n'.permit = true ∨ ∃ w, (n'.future w).woken = true := by
  obtain ⟨w, _, rfl⟩ | ⟨_, rfl⟩ := h
  · exact .inr ⟨w, by simp [Future.woken]⟩
  · exact .inl rfl

/-- `notify_one` leaves every waiter with the future it had, or woken. -/
theorem notify_one_future (h : n.notify_one n') (w : W) :
    n'.future w = n.future w ∨ n'.future w = .one := by
  obtain ⟨v, _, rfl⟩ | ⟨_, rfl⟩ := h
  · by_cases hw : w = v
    · subst hw
      exact .inr (set_future_self _ _ _)
    · exact .inl (set_future_ne _ _ hw)
  · exact .inl rfl

/-- `notify_one` makes no future. -/
theorem notify_one_absent (h : n.notify_one n') (hw : n.future w = .absent) :
    n'.future w = .absent := by
  obtain ⟨v, hv, rfl⟩ | ⟨_, rfl⟩ := h
  · have hne : w ≠ v := by
      rintro rfl
      rw [hv] at hw
      nomatch hw
    rw [set_future_ne _ _ hne]
    exact hw
  · exact hw

/-- Dropping a future makes no future, and leaves none to the waiter. -/
theorem drop_absent (h : n.drop w n') {v : W} (hv : v = w ∨ n.future v = .absent) :
    n'.future v = .absent := by
  have hset : (n.set w .absent).future v = .absent := by
    by_cases hvw : v = w
    · subst hvw
      exact set_future_self _ _ _
    · rw [set_future_ne _ _ hvw]
      exact hv.resolve_left hvw
  unfold drop at h
  split_ifs at h
  · exact notify_one_absent h hset
  · rw [h]
    exact hset

theorem drop_future (h : n.drop w n') (w' : W) :
    n'.future w' = (n.set w .absent).future w' ∨ n'.future w' = .one := by
  unfold drop at h
  split_ifs at h
  · exact notify_one_future h w'
  · exact .inl (by rw [h])

theorem poll_future_ne (hw : w' ≠ w) : (n.poll w).1.future w' = n.future w' := by
  rcases n.poll_cases w with ⟨-, heq⟩ | ⟨heq, -⟩ | ⟨heq, -⟩
  · rw [heq, set_future_ne _ _ hw]
  · rw [heq]
  · rw [heq]
    exact set_future_ne _ _ hw

/-- A poll that is not ready: no notification had reached the future, and the permit
    does not change. -/
theorem poll_pending (h : (n.poll w).2 = false) :
    (n.future w).woken = false ∧ (n.poll w).1.permit = n.permit := by
  rcases n.poll_cases w with ⟨hready, -⟩ | ⟨heq, hf⟩ | ⟨heq, hf⟩
  · nomatch h.symm.trans hready
  · exact ⟨hf, by rw [heq]⟩
  · rw [heq, hf]
    exact ⟨rfl, rfl⟩

theorem poll_ready (h : (n.poll w).2 = true) : (n.poll w).1.future w = .absent := by
  rcases n.poll_cases w with ⟨-, heq⟩ | ⟨heq, -⟩ | ⟨heq, -⟩
  · rw [heq, set_future_self]
  all_goals
    rw [heq] at h
    cases h

theorem poll_unreached (h : (n.future w').unreached = false) :
    ((n.poll w).1.future w').unreached = false := by
  by_cases hw : w' = w
  · subst hw
    rcases n.poll_cases w' with ⟨hready, -⟩ | ⟨heq, -⟩ | ⟨-, hf⟩
    · rw [poll_ready hready]
      rfl
    · rwa [heq]
    · rw [hf] at h
      cases h
  · rwa [poll_future_ne hw]

/-- `notify_waiters` reaches every future there is. -/
theorem broadcast_reaches : f.broadcast.unreached = false := by
  cases f <;> rfl

theorem broadcast_woken {f : Future} (h : f.woken = true) : f.broadcast.woken = true := by
  cases f <;> first | rfl | exact h

end Notify

end Framework
