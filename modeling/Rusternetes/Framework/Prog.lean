import Mathlib

/-! # Programs over a Shared Service

    A program is a tree of calls to a service that others call too; each call is
    atomic, and others may call in between. What a program may rely on is said in
    tokens: a call spends tokens of its caller and earns some, and nobody earns a
    token that is in use. `Safe` is the precondition that counts them through a
    program; `Apart` is the invariant that the owners of tokens keep among each other.
-/

open Function

namespace Framework

/-- Programs with calls `op`, answered by an `Ans op`. -/
inductive Prog (Op : Type) (Ans : Op → Type) (α : Type) : Type where
  | ret (a : α)
  | call (op : Op) (k : Ans op → Prog Op Ans α)

namespace Prog

variable {Op : Type} {Ans : Op → Type} {α β : Type}

/-- One program after another. -/
def bind : Prog Op Ans α → (α → Prog Op Ans β) → Prog Op Ans β
  | .ret a, f => f a
  | .call op k, f => .call op fun ans => (k ans).bind f

instance : Monad (Prog Op Ans) where
  pure := .ret
  bind := bind

/-- A program for each element, in turn. -/
def for_each (f : α → Prog Op Ans Unit) : List α → Prog Op Ans Unit
  | [] => pure ()
  | a :: as => f a >>= fun _ => for_each f as

/-- A program for each element, in turn, until one fails; `w` is what is left of it in
    either case. -/
def try_each {ε σ ω : Type} (f : α → σ → ω → Prog Op Ans (Except ε σ × ω)) :
    List α → σ → ω → Prog Op Ans (Except ε σ × ω)
  | [], s, w => pure (.ok s, w)
  | a :: as, s, w => f a s w >>= fun r =>
    match r.1 with
    | .error e => pure (.error e, r.2)
    | .ok s => try_each f as s r.2

end Prog

/-! ### Tokens -/

structure Tokens (Op : Type) (Ans : Op → Type) (τ : Type) where
  /-- The answers that are given. -/
  may : (op : Op) → Ans op → Prop
  spends : Op → Set τ
  earns : (op : Op) → Ans op → Set τ

section safe

variable {Op : Type} {Ans : Op → Type} {τ α β : Type} (T : Tokens Op Ans τ)

def Tokens.after (own : Set τ) (op : Op) (ans : Ans op) : Set τ :=
  own \ T.spends op ∪ T.earns op ans

/-- The program spends only what it owns, and ends with `post`. -/
def Safe (post : α → Set τ → Prop) : Set τ → Prog Op Ans α → Prop
  | own, .ret a => post a own
  | own, .call op k => T.spends op ⊆ own ∧
      ∀ ans, T.may op ans → Disjoint (T.earns op ans) own → Safe post (T.after own op ans) (k ans)

variable {T}

variable {own : Set τ}

theorem safe_ret {post : α → Set τ → Prop} {a : α} (h : post a own) :
    Safe T post own (pure a : Prog Op Ans α) := h

/-- **Consequence**. -/
theorem Safe.mono {post post' : α → Set τ → Prop} (himp : ∀ a own, post a own → post' a own)
    {m : Prog Op Ans α} (h : Safe T post own m) : Safe T post' own m := by
  induction m generalizing own with
  | ret a => exact himp a own h
  | call op k ih =>
    obtain ⟨hspends, hk⟩ := h
    exact ⟨hspends, fun ans hmay hnew => ih ans (hk ans hmay hnew)⟩

/-- **Sequence**. -/
theorem Safe.bind {mid : α → Set τ → Prop} {post : β → Set τ → Prop} {m : Prog Op Ans α}
    {f : α → Prog Op Ans β} (h : Safe T mid own m)
    (hf : ∀ a own', mid a own' → Safe T post own' (f a)) : Safe T post own (m >>= f) := by
  induction m generalizing own with
  | ret a => exact hf a own h
  | call op k ih =>
    obtain ⟨hspends, hk⟩ := h
    exact ⟨hspends, fun ans hmay hnew => ih ans (hk ans hmay hnew)⟩

/-- Sequence, from what the rest of the program needs. -/
theorem Safe.seq {post : β → Set τ → Prop} {m : Prog Op Ans α} {f : α → Prog Op Ans β}
    (h : Safe T (fun a own' => Safe T post own' (f a)) own m) : Safe T post own (m >>= f) :=
  h.bind fun _ _ hrest => hrest

/-- **Loops**: `I rest own` holds before the elements `rest`. -/
theorem safe_for_each {I : List α → Set τ → Prop} {f : α → Prog Op Ans Unit}
    (hstep : ∀ a as own, I (a :: as) own → Safe T (fun _ => I as) own (f a)) :
    ∀ (as : List α) (own : Set τ), I as own → Safe T (fun _ => I []) own (Prog.for_each f as) := by
  intro as
  induction as with
  | nil =>
    intro own h
    exact h
  | cons a as ih =>
    intro own h
    exact (hstep a as own h).bind fun _ own' h' => ih own' h'

/-- `ok` after a success, `failed` after a failure. -/
def Outcome {ε σ ω : Type} (ok : σ → ω → Set τ → Prop) (failed : ω → Set τ → Prop)
    (r : Except ε σ × ω) (own : Set τ) : Prop :=
  match r.1 with
  | .ok s => ok s r.2 own
  | .error _ => failed r.2 own

/-- **Loops that may fail**: `I rest s w` holds before the elements `rest`, and `E` after
    a failure. -/
theorem safe_try_each {ε σ ω : Type} {I : List α → σ → ω → Set τ → Prop} {E : ω → Set τ → Prop}
    {f : α → σ → ω → Prog Op Ans (Except ε σ × ω)} (hstep : ∀ a as s w own, I (a :: as) s w own →
      Safe T (Outcome (I as) E) own (f a s w)) :
    ∀ (as : List α) (s : σ) (w : ω) (own : Set τ), I as s w own →
      Safe T (Outcome (I []) E) own (Prog.try_each f as s w) := by
  intro as
  induction as with
  | nil =>
    intro s w own h
    exact h
  | cons a as ih =>
    intro s w own h
    refine (hstep a as s w own h).bind ?_
    rintro ⟨result, w'⟩ own' h'
    cases result with
    | error e => exact h'
    | ok s' => exact ih s' w' own' h'

end safe

/-! ### Owners -/

section apart

variable {ι τ : Type} {live : Set τ} {own : ι → Set τ}

/-- The owners have tokens in use, each of its own. -/
structure Apart (live : Set τ) (own : ι → Set τ) : Prop where
  live : ∀ i, own i ⊆ live
  disjoint : ∀ i j, i ≠ j → Disjoint (own i) (own j)

variable {own' : ι → Set τ} {i : ι}

theorem apart_of_owner_eq (hlive : ∀ i, own i ⊆ live)
    (hown : ∀ t i j, t ∈ own i → t ∈ own j → i = j) : Apart live own :=
  ⟨hlive, fun i j hne => Set.disjoint_left.mpr fun t hi hj => hne (hown t i j hi hj)⟩

variable (h : Apart live own)
include h

theorem Apart.owner_eq {j : ι} {t : τ} (hi : t ∈ own i) (hj : t ∈ own j) : i = j := by
  by_contra hne
  exact (h.disjoint i j hne).notMem_of_mem_left hi hj

/-- **Handing over**: `f` says who has a token of an owner afterwards; none are added. -/
theorem Apart.regroup (f : τ → ι → ι)
    (hown : ∀ i, ∀ t ∈ own' i, ∃ j, f t j = i ∧ t ∈ own j) : Apart live own' := by
  refine apart_of_owner_eq (fun i t ht => ?_) (fun t i k hti htk => ?_)
  · obtain ⟨j, -, htj⟩ := hown i t ht
    exact h.live j htj
  · obtain ⟨j, rfl, htj⟩ := hown i t hti
    obtain ⟨j', rfl, htj'⟩ := hown k t htk
    exact congrArg (f t) (h.owner_eq htj htj')

variable {live' : Set τ}

/-- Tokens are dropped, and others may come to be in use. -/
theorem Apart.mono (hown : ∀ i, own' i ⊆ own i) (hlive : live ⊆ live') : Apart live' own' where
  live := fun i => (hown i).trans ((h.live i).trans hlive)
  disjoint := fun i j hne => (h.disjoint i j hne).mono (hown i) (hown j)

/-- **Spending**: tokens of one owner go out of use. -/
theorem Apart.spend {spends : Set τ} (hspends : spends ⊆ own i)
    (hlive : live \ spends ⊆ live') (hown : ∀ j, own' j ⊆ own j) (hleft : Disjoint (own' i) spends) :
    Apart live' own' := by
  refine ⟨?_, fun j k hne => (h.disjoint j k hne).mono (hown j) (hown k)⟩
  intro j t ht
  refine hlive ⟨h.live j (hown j ht), ?_⟩
  intro hspent
  obtain rfl := h.owner_eq (hown j ht) (hspends hspent)
  exact hleft.notMem_of_mem_left ht hspent

/-- **Earning**: tokens that were not in use go to one owner. -/
theorem Apart.earn {earns : Set τ} (hnew : Disjoint earns live)
    (hlive : live ∪ earns ⊆ live') (hown : ∀ j, j ≠ i → own' j ⊆ own j)
    (hearn : own' i ⊆ own i ∪ earns) : Apart live' own' := by
  have hcases : ∀ j, ∀ t ∈ own' j, t ∈ own j ∨ j = i ∧ t ∈ earns := by
    intro j t ht
    by_cases hj : j = i
    · subst hj
      exact (hearn ht).imp_right fun hnew => ⟨rfl, hnew⟩
    · exact .inl (hown j hj ht)
  refine apart_of_owner_eq (fun j t ht => ?_) (fun t j k hj hk => ?_)
  · exact hlive ((hcases j t ht).imp (fun hold => h.live j hold) And.right)
  · -- a new token was nobody's
    rcases hcases j t hj with hj | ⟨rfl, hj⟩ <;> rcases hcases k t hk with hk | ⟨rfl, hk⟩
    · exact h.owner_eq hj hk
    · exact absurd (h.live j hj) (hnew.notMem_of_mem_left hk)
    · exact absurd (h.live k hk) (hnew.notMem_of_mem_left hj)
    · rfl

variable [DecidableEq ι]

theorem Apart.call {spends earns : Set τ} (hspends : spends ⊆ own i)
    (hnew : Disjoint earns live) (hlive : live \ spends ∪ earns ⊆ live') :
    Apart live' (Function.update own i (own i \ spends ∪ earns)) := by
  have hspent : Apart (live \ spends) fun j => own j \ spends :=
    h.spend hspends subset_rfl (fun _ => Set.sdiff_subset) Set.disjoint_sdiff_left
  refine hspent.earn (hnew.mono_right Set.sdiff_subset) hlive (i := i) ?_ ?_
  · intro j hj t ht
    rw [update_of_ne hj] at ht
    exact ⟨ht, fun hs => hj (h.owner_eq ht (hspends hs))⟩
  · rw [update_self]

open Classical in
theorem Apart.share {j : ι} {a b : Set τ} (ha : a ⊆ own i ∪ own j) (hb : b ⊆ own i ∪ own j) (hab : Disjoint a b) :
    Apart live (Function.update (Function.update own i a) j b) := by
  refine h.regroup (fun t k => if k = i ∨ k = j then if t ∈ a then i else j else k) ?_
  intro k t ht
  by_cases hj : k = j
  · subst hj
    rw [update_self] at ht
    have hnot : t ∉ a := hab.notMem_of_mem_right ht
    rcases hb ht with ht | ht
    · exact ⟨i, by simp [hnot], ht⟩
    · exact ⟨k, by simp [hnot], ht⟩
  rw [update_of_ne hj] at ht
  by_cases hi : k = i
  · subst hi
    rw [update_self] at ht
    rcases ha ht with ht' | ht'
    · exact ⟨k, by simp [ht], ht'⟩
    · exact ⟨j, by simp [ht], ht'⟩
  · rw [update_of_ne hi] at ht
    exact ⟨k, if_neg (not_or.mpr ⟨hi, hj⟩), ht⟩

end apart

end Framework
