import Rusternetes.Framework.Assoc

/-! # Tries of Paths

    A finite set of paths, kept as a tree: a path is in the set when the node it
    leads to is marked. A trie is read by `has`, and an insertion is described by what
    `has` answers after it.
-/

open scoped List

namespace Framework

/-- A set of paths over `α`. -/
inductive Trie (α : Type) where
  | node (member : Bool) (children : List (α × Trie α))

namespace Trie

variable {α : Type}

/-- Whether the path that ends here is in the set. -/
def member : Trie α → Bool
  | node m _ => m

/-- What is below, by the next element. -/
def children : Trie α → List (α × Trie α)
  | node _ cs => cs

def empty : Trie α := node false []

instance : Inhabited (Trie α) := ⟨empty⟩

def is_empty (t : Trie α) : Bool := !t.member && t.children.isEmpty

variable [LinearOrder α]

/-- The node below by one element. -/
def child (t : Trie α) (e : α) : Option (Trie α) := t.children.lookup e

def has : Trie α → List α → Bool
  | t, [] => t.member
  | t, e :: p => (t.child e).any fun c => c.has p

def insert : Trie α → List α → Trie α
  | t, [] => node true t.children
  | t, e :: p => node t.member (Assoc.set t.children e (insert ((t.child e).getD empty) p))

/-! ### Proper tries -/

/-- The keys increase, and no branch is without a path. -/
inductive Proper : Trie α → Prop
  | node {m : Bool} {cs : List (α × Trie α)} (sorted : Assoc.Sorted cs)
      (kept : ∀ c ∈ cs, c.2.is_empty = false) (below : ∀ c ∈ cs, Proper c.2) : Proper (node m cs)

theorem Proper.empty : Proper (empty : Trie α) := by
  refine .node List.Pairwise.nil ?_ ?_
  · intro c hc
    nomatch hc
  · intro c hc
    nomatch hc

theorem Proper.child {t c : Trie α} {e : α} (h : t.Proper) (hc : t.child e = some c) :
    c.is_empty = false ∧ c.Proper := by
  cases h with
  | node sorted kept below =>
    have hmem := Assoc.mem_of_lookup hc
    exact ⟨kept _ hmem, below _ hmem⟩

theorem Proper.child_getD {t : Trie α} (h : t.Proper) (e : α) : ((t.child e).getD .empty).Proper := by
  cases hc : t.child e with
  | none => exact Proper.empty
  | some c => exact (h.child hc).2

variable (t : Trie α) (e : α) (p : List α)

@[simp] theorem has_nil : t.has [] = t.member := by
  rfl

@[simp] theorem has_cons : t.has (e :: p) = (t.child e).any fun c => c.has p := by
  rw [has]

theorem has_cons_of_mem {m : Bool} {cs : List (α × Trie α)} (sorted : Assoc.Sorted cs)
    {c : α × Trie α} (hc : c ∈ cs) : (node m cs).has (c.1 :: p) = c.2.has p := by
  have hlook : Trie.child (.node m cs) c.1 = some c.2 :=
    (Table.lookup_of_sorted sorted _ _).mpr hc
  rw [has_cons, hlook]
  rfl

theorem has_of_is_empty {t : Trie α} (h : t.is_empty = true) (p : List α) : t.has p = false := by
  obtain ⟨hm, hcs⟩ : t.member = false ∧ t.children = [] := by
    simpa [is_empty] using h
  cases p with
  | nil => rw [has_nil, hm]
  | cons e p =>
    have hnone : t.child e = none := by simp [child, hcs]
    rw [has_cons, hnone]
    rfl

@[simp] theorem has_empty : (empty : Trie α).has p = false :=
  has_of_is_empty rfl p

theorem Proper.exists_has {t : Trie α} (h : t.Proper) (hne : t.is_empty = false) :
    ∃ p, t.has p = true := by
  induction h with
  | @node m cs sorted kept below ih =>
    cases m with
    | true => exact ⟨[], rfl⟩
    | false =>
      cases cs with
      | nil => cases hne
      | cons c rest =>
        obtain ⟨p, hp⟩ := ih c (.head _) (kept c (.head _))
        exact ⟨c.1 :: p, (has_cons_of_mem p sorted (.head _)).trans hp⟩

/-! ### Insertion -/

theorem child_insert_cons (e' : α) :
    (t.insert (e :: p)).child e' =
      if e' = e then some (((t.child e).getD empty).insert p) else t.child e' := by
  exact Assoc.lookup_set t.children e _ e'

theorem has_insert (q : List α) : (t.insert p).has q = (decide (q = p) || t.has q) := by
  induction p generalizing t q with
  | nil =>
    cases q with
    | nil => simp [insert, member]
    | cons e q => simp [insert, child, children]
  | cons e p ih =>
    cases q with
    | nil => simp [insert, member]
    | cons e' q =>
      rw [has_cons, has_cons, child_insert_cons]
      by_cases he : e' = e
      · subst he
        rw [if_pos rfl, Option.any_some, ih]
        cases t.child e' with
        | none | some c => simp
      · simp [he]

theorem insert_not_empty : (t.insert p).is_empty = false := by
  by_contra h
  have hhas := has_of_is_empty (Bool.not_eq_false _ ▸ h) p
  rw [has_insert] at hhas
  simp at hhas

theorem Proper.insert {t : Trie α} (h : t.Proper) (p : List α) : (t.insert p).Proper := by
  induction p generalizing t with
  | nil =>
    cases h with
    | node sorted kept below => exact .node sorted kept below
  | cons e p ih =>
    have hchild := h.child_getD e
    cases h with
    | node sorted kept below =>
      refine .node (sorted.set _ _) ?_ ?_
      · intro c hc
        rcases Assoc.mem_of_mem_set hc with rfl | hc
        · exact insert_not_empty _ _
        · exact kept c hc
      · intro c hc
        rcases Assoc.mem_of_mem_set hc with rfl | hc
        · exact ih hchild
        · exact below c hc

end Trie

end Framework
