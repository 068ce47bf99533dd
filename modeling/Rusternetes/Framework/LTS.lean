import Mathlib

/-! # Labelled Transition Systems

    The step-by-step reading of a concurrent component: a set of initial
    states and a labelled step relation. Everything here is about *finite*
    executions, because every safety property below is refuted by a finite
    one.

    * `Exec sys tr s`: the system reaches `s` by the labels `tr`, newest
      label first. Keeping the labels lets a property talk about the past
      ("since the key was handed out") without ghost fields in the state.
    * `ExecWhen sys ok tr s`: the same, with every step meeting the side
      condition `ok`. It is how "in every run that never does X" is said.
    * Invariant rules: holds initially and is kept by a step, so holds in
      every state reached.
-/

namespace LTS

universe u v

structure System (State : Type u) (Label : Type v) where
  /-- The initial states. -/
  init : State → Prop
  /-- `step s l s'`: in state `s` the step labelled `l` may lead to `s'`. -/
  step : State → Label → State → Prop

variable {State : Type u} {Label : Type v}

/-! ### Executions -/

/-- `Exec sys tr s`: some execution of `sys` ends in `s` and its labels,
    newest first, are `tr`. -/
inductive Exec (sys : System State Label) : List Label → State → Prop where
  | init {s : State} : sys.init s → Exec sys [] s
  | step {tr : List Label} {s s' : State} {l : Label} :
      Exec sys tr s → sys.step s l s' → Exec sys (l :: tr) s'

/-- `s` is reachable: some execution ends in it. -/
def Reachable (sys : System State Label) (s : State) : Prop :=
  ∃ tr, Exec sys tr s

/-- Executions all of whose steps meet `ok`, a condition on the labels so
    far, the state before the step and the step's label. -/
inductive ExecWhen (sys : System State Label) (ok : List Label → State → Label → Prop) :
    List Label → State → Prop where
  | init {s : State} : sys.init s → ExecWhen sys ok [] s
  | step {tr : List Label} {s s' : State} {l : Label} :
      ExecWhen sys ok tr s → ok tr s l → sys.step s l s' → ExecWhen sys ok (l :: tr) s'

section rules

variable {sys : System State Label} {ok : List Label → State → Label → Prop} {tr : List Label}

variable {s : State}

/-- A conditioned execution is an execution. -/
theorem ExecWhen.exec (h : ExecWhen sys ok tr s) :
    Exec sys tr s := by
  induction h with
  | init h0 => exact .init h0
  | step _ _ hstep ih => exact .step ih hstep

/-! ### Invariant rules -/

/-- **History invariant**: a property of the past labels and the current
    state that holds initially and is kept by every step holds throughout
    every execution. -/
theorem Exec.invariant {I : List Label → State → Prop} (hinit : ∀ s, sys.init s → I [] s)
    (hstep : ∀ tr s l s', I tr s → sys.step s l s' → I (l :: tr) s') (h : Exec sys tr s) :
    I tr s := by
  induction h with
  | init h0 => exact hinit _ h0
  | step _ hs ih => exact hstep _ _ _ _ ih hs

/-- **History invariant, conditioned**: the step obligation may use that the
    step meets `ok` and that an already established property `J` holds of
    every execution. -/
theorem ExecWhen.invariant {I J : List Label → State → Prop} (hJ : ∀ tr s, Exec sys tr s → J tr s)
    (hinit : ∀ s, sys.init s → I [] s)
    (hstep : ∀ tr s l s', J tr s → I tr s → ok tr s l → sys.step s l s' → I (l :: tr) s')
    (h : ExecWhen sys ok tr s) : I tr s := by
  induction h with
  | init h0 => exact hinit _ h0
  | step hpre hok hs ih => exact hstep _ _ _ _ (hJ _ _ hpre.exec) ih hok hs

/-- **State invariant**: holds initially, kept by every step. -/
theorem Reachable.invariant {I : State → Prop} (hinit : ∀ s, sys.init s → I s)
    (hstep : ∀ s l s', I s → sys.step s l s' → I s') (h : Reachable sys s) : I s := by
  obtain ⟨tr, hex⟩ := h
  have hall : ∀ tr s, Exec sys tr s → I s := by
    intro tr s hex
    exact Exec.invariant (I := fun _ s => I s) hinit
      (fun _ s l s' hi hs => hstep s l s' hi hs) hex
  exact hall tr s hex

/-- **Runs by computation**: steps that a function takes one after the other. -/
theorem ExecWhen.run (take : State → Label → Option State)
    (htake : ∀ tr s l s', take s l = some s' → ok tr s l ∧ sys.step s l s') {s' : State}
    (hs : ExecWhen sys ok tr s) (ls : List Label) (h : ls.foldlM take s = some s') :
    ExecWhen sys ok (ls.reverse ++ tr) s' := by
  induction ls generalizing s tr with
  | nil =>
    cases h
    exact hs
  | cons l ls ih =>
    obtain ⟨s1, hs1, h⟩ := Option.bind_eq_some_iff.mp h
    obtain ⟨hok, hstep⟩ := htake tr s l s1 hs1
    rw [List.reverse_cons, List.append_assoc]
    exact ih (.step hs hok hstep) h

end rules

/-! ### Machines

    A system whose labels say all that happens: what a step leads to is computed, and
    so is whether it can be taken. Its executions can be checked by running it. -/

/-- A deterministic system. -/
structure Machine (State : Type u) (Label : Type v) where
  start : State
  /-- Whether the step can be taken. -/
  enabled : State → Label → Bool
  /-- What it leads to. -/
  next : State → Label → State

namespace Machine

variable (m : Machine State Label)

def system : System State Label where
  init := fun s => s = m.start
  step := fun s l s' => m.enabled s l = true ∧ s' = m.next s l

/-- Take the steps, oldest first, if each can be taken and passes the check. -/
def trace (check : State → Label → Bool) : State → List Label → Option State
  | s, [] => some s
  | s, l :: ls => if m.enabled s l && check s l then trace check (m.next s l) ls else none

/-- Steps that can be taken one after the other are an execution. -/
theorem exec_trace {ok : List Label → State → Label → Prop} {check : State → Label → Bool}
    (hcheck : ∀ tr s l, check s l = true → ok tr s l) {s s' : State} {tr : List Label}
    (hs : ExecWhen m.system ok tr s) (ls : List Label) (h : m.trace check s ls = some s') :
    ExecWhen m.system ok (ls.reverse ++ tr) s' := by
  induction ls generalizing s tr with
  | nil =>
    cases h
    exact hs
  | cons l ls ih =>
    unfold trace at h
    split at h
    · next hl =>
      obtain ⟨henabled, hpass⟩ := Bool.and_eq_true_iff.mp hl
      rw [List.reverse_cons, List.append_assoc]
      exact ih (.step hs (hcheck tr s l hpass) ⟨henabled, rfl⟩) h
    · nomatch h

/-- What a run that passes its checks ends in is reached by an execution. -/
theorem exists_exec (ok : List Label → State → Label → Prop) {check : State → Label → Bool}
    (hcheck : ∀ tr s l, check s l = true → ok tr s l) {ls : List Label} {p : State → Bool}
    (h : (m.trace check m.start ls).any p = true) :
    ∃ s, ExecWhen m.system ok ls.reverse s ∧ p s = true := by
  obtain ⟨s, hs, hp⟩ := (Option.any_eq_true _ _).mp h
  have hexec := m.exec_trace hcheck (.init rfl) ls hs
  rw [List.append_nil] at hexec
  exact ⟨s, hexec, hp⟩

/-- What holds of the state a run ends in holds of a state an execution reaches. -/
theorem exec_of_trace {P : State → Prop} [DecidablePred P] {ls : List Label}
    (h : (m.trace (fun _ _ => true) m.start ls).any (fun s => decide (P s)) = true) :
    ∃ s, Exec m.system ls.reverse s ∧ P s := by
  obtain ⟨s, hexec, hp⟩ := m.exists_exec (fun _ _ _ => True) (fun _ _ _ _ => trivial) h
  exact ⟨s, hexec.exec, of_decide_eq_true hp⟩

end Machine

end LTS
