import Mathlib

/-! # Depth-First Search

    A search from a starting point along arcs that are followed, skipped, or are
    themselves what is looked for. It stops at the first such arc, and at the
    first arc that is followed to the goal. Over a finite set of points that the
    arcs do not leave, the search finds something exactly when there is something
    to find (`walk_iff`).
-/

open List

namespace Framework.Search

/-- What the search makes of an arc. -/
inductive Arc where
  | skip
  | hit
  | follow
  deriving DecidableEq, Repr

variable {α : Type} [DecidableEq α] (next : α → List α) (arc : α → α → Arc) (goal : α)

/-! ### The search -/

/-- Look at the neighbours of `t` in turn: the points visited and those still to be
    left, or `none` if the search is over. -/
def scan (t : α) : List α → Finset α → List α → Option (Finset α × List α)
  | [], visited, stack => some (visited, stack)
  | n :: rest, visited, stack =>
    match arc t n with
    | .skip => scan t rest visited stack
    | .hit => none
    | .follow =>
      if n ∈ visited then scan t rest visited stack
      else if n = goal then none
      else scan t rest (insert n visited) (n :: stack)

/-- Leave the points on the stack one by one, at most `fuel` of them. -/
def walk : Nat → Finset α → List α → Bool
  | 0, _, _ => false
  | _ + 1, _, [] => false
  | fuel + 1, visited, t :: stack =>
    match scan arc goal t (next t) visited stack with
    | none => true
    | some (visited, stack) => walk fuel visited stack

/-! ### What there is to find -/

def Follows (t n : α) : Prop := n ∈ next t ∧ arc t n = .follow

/-- A point with an arc that ends the search. -/
def Hits (t : α) : Prop := ∃ n ∈ next t, arc t n = .hit ∨ (arc t n = .follow ∧ n = goal)

variable {next arc goal}

/-! ### One point -/

variable {stack : List α} {visited : Finset α}

theorem scan_none {t : α} {ns : List α} (h : scan arc goal t ns visited stack = none) :
    ∃ n ∈ ns, arc t n = .hit ∨ (arc t n = .follow ∧ n = goal) := by
  induction ns generalizing visited stack with
  | nil => cases h
  | cons n rest ih =>
    have hrest : ∀ {v s}, scan arc goal t rest v s = none →
        ∃ m ∈ n :: rest, arc t m = .hit ∨ (arc t m = .follow ∧ m = goal) := by
      intro v s hs
      obtain ⟨m, hm, hfound⟩ := ih hs
      exact ⟨m, .tail _ hm, hfound⟩
    unfold scan at h
    cases harc : arc t n with
    | skip => rw [harc] at h; exact hrest h
    | hit => exact ⟨n, .head _, .inl harc⟩
    | follow =>
      rw [harc] at h
      split_ifs at h with hvis hgoal
      · exact hrest h
      · exact ⟨n, .head _, .inr ⟨harc, hgoal⟩⟩
      · exact hrest h

/-- What is left after a point without an ending arc: its neighbours are visited,
    and whatever is new was reached from it and is on the stack. -/
structure Scanned (arc : α → α → Arc) (goal t : α) (ns : List α) (visited : Finset α)
    (stack : List α) (visited' : Finset α) (stack' : List α) : Prop where
  none_hit : ∀ n ∈ ns, arc t n ≠ .hit
  reached : ∀ n ∈ ns, arc t n = .follow → n ∈ visited'
  mono : visited ⊆ visited'
  stacked : ∀ x ∈ stack, x ∈ stack'
  fresh : ∀ x ∈ visited', x ∈ visited ∨ (x ∈ stack' ∧ x ∈ ns ∧ arc t x = .follow ∧ x ≠ goal)
  origin : ∀ x ∈ stack', x ∈ stack ∨ (x ∈ visited' ∧ x ∈ ns ∧ arc t x = .follow)
  balance : visited'.card + stack.length = visited.card + stack'.length

theorem scan_some {t : α} {ns : List α} {visited' : Finset α} {stack' : List α}
    (h : scan arc goal t ns visited stack = some (visited', stack')) :
    Scanned arc goal t ns visited stack visited' stack' := by
  induction ns generalizing visited stack with
  | nil =>
    cases h
    exact ⟨by simp, by simp, subset_rfl, fun _ h => h, fun _ h => .inl h, fun _ h => .inl h, rfl⟩
  | cons n rest ih =>
    -- a neighbour that changes nothing
    have hpass : arc t n ≠ .hit → (arc t n = .follow → n ∈ visited) →
        scan arc goal t rest visited stack = some (visited', stack') →
        Scanned arc goal t (n :: rest) visited stack visited' stack' := by
      intro hhit hfollow hs
      have hr := ih hs
      refine ⟨?_, ?_, hr.mono, hr.stacked, ?_, ?_, hr.balance⟩
      · exact forall_mem_cons.mpr ⟨hhit, hr.none_hit⟩
      · exact forall_mem_cons.mpr ⟨fun harc => hr.mono (hfollow harc), hr.reached⟩
      · intro x hx
        exact (hr.fresh x hx).imp_right fun ⟨h1, h2, h3⟩ => ⟨h1, .tail _ h2, h3⟩
      · intro x hx
        exact (hr.origin x hx).imp_right fun ⟨h1, h2, h3⟩ => ⟨h1, .tail _ h2, h3⟩
    unfold scan at h
    cases harc : arc t n with
    | skip =>
      rw [harc] at h
      exact hpass (by simp [harc]) (by simp [harc]) h
    | hit => rw [harc] at h; cases h
    | follow =>
      rw [harc] at h
      split_ifs at h with hvis hgoal
      · exact hpass (by simp [harc]) (fun _ => hvis) h
      · -- a new point: it is visited and put on the stack
        have hr := ih h
        have hn : n ∈ visited' := hr.mono (Finset.mem_insert_self n visited)
        have hs : n ∈ stack' := hr.stacked n (.head _)
        refine ⟨?_, ?_, ?_, ?_, ?_, ?_, ?_⟩
        · exact forall_mem_cons.mpr ⟨by simp [harc], hr.none_hit⟩
        · exact forall_mem_cons.mpr ⟨fun _ => hn, hr.reached⟩
        · exact (Finset.subset_insert n visited).trans hr.mono
        · intro x hx
          exact hr.stacked x (.tail _ hx)
        · intro x hx
          rcases hr.fresh x hx with hx | ⟨h1, h2, h3⟩
          · rcases Finset.mem_insert.mp hx with rfl | hx
            · exact .inr ⟨hs, .head _, harc, hgoal⟩
            · exact .inl hx
          · exact .inr ⟨h1, .tail _ h2, h3⟩
        · intro x hx
          rcases hr.origin x hx with hx | ⟨h1, h2, h3⟩
          · rcases mem_cons.mp hx with rfl | hx
            · exact .inr ⟨hn, .head _, harc⟩
            · exact .inl hx
          · exact .inr ⟨h1, .tail _ h2, h3⟩
        · have hbal := hr.balance
          rw [Finset.card_insert_of_notMem hvis, length_cons] at hbal
          omega

/-! ### The whole search -/

theorem walk_sound {fuel : Nat} (h : walk next arc goal fuel visited stack = true) :
    ∃ s ∈ stack, ∃ t, Relation.ReflTransGen (Follows next arc) s t ∧ Hits next arc goal t := by
  induction fuel generalizing visited stack with
  | zero => cases h
  | succ fuel ih =>
    cases stack with
    | nil => cases h
    | cons t stack =>
      unfold walk at h
      cases hscan : scan arc goal t (next t) visited stack with
      | none => exact ⟨t, .head _, t, .refl, scan_none hscan⟩
      | some r =>
        obtain ⟨visited', stack'⟩ := r
        rw [hscan] at h
        obtain ⟨s, hs, t', hpath, hhit⟩ := ih h
        rcases (scan_some hscan).origin s hs with hs | ⟨_, hnext, hfollow⟩
        · exact ⟨s, .tail _ hs, t', hpath, hhit⟩
        · exact ⟨t, .head _, t', .head ⟨hnext, hfollow⟩ hpath, hhit⟩

/-- When nothing is found the visited points grow to a set that has no ending arc
    and that no followed arc leaves. -/
theorem walk_complete {nodes : Finset α} (hnodes : ∀ t ∈ nodes, ∀ n ∈ next t, n ∈ nodes)
    {fuel : Nat} (hfuel : (nodes \ visited).card + stack.length ≤ fuel) (hsub : visited ⊆ nodes)
    (hstack : ∀ x ∈ stack, x ∈ visited) (hgoal : goal ∉ visited) (hleft : ∀ t ∈ visited, t ∉ stack →
      ¬ Hits next arc goal t ∧ ∀ n, Follows next arc t n → n ∈ visited)
    (h : walk next arc goal fuel visited stack = false) :
    ∃ closed : Finset α, visited ⊆ closed ∧
      ∀ t ∈ closed, ¬ Hits next arc goal t ∧ ∀ n, Follows next arc t n → n ∈ closed := by
  induction fuel generalizing visited stack with
  | zero =>
    have hnil : stack = [] := eq_nil_of_length_eq_zero (by omega)
    subst hnil
    exact ⟨visited, subset_rfl, fun t ht => hleft t ht (by simp)⟩
  | succ fuel ih =>
    cases stack with
    | nil => exact ⟨visited, subset_rfl, fun t ht => hleft t ht (by simp)⟩
    | cons t stack =>
      unfold walk at h
      split at h
      · cases h
      · next visited' stack' hscan =>
        have hs := scan_some hscan
        have ht : t ∈ visited := hstack t (.head _)
        have hsub' : visited' ⊆ nodes := by
          intro x hx
          rcases hs.fresh x hx with hx | ⟨_, hnext, _⟩
          · exact hsub hx
          · exact hnodes t (hsub ht) x hnext
        have hgoal' : goal ∉ visited' := by
          intro hx
          rcases hs.fresh goal hx with hx | ⟨_, _, _, hne⟩
          · exact hgoal hx
          · exact hne rfl
        have hdone : ¬ Hits next arc goal t ∧ ∀ n, Follows next arc t n → n ∈ visited' := by
          refine ⟨?_, fun n hn => hs.reached n hn.1 hn.2⟩
          rintro ⟨n, hn, hhit | ⟨hfollow, rfl⟩⟩
          · exact hs.none_hit n hn hhit
          · exact hgoal' (hs.reached _ hn hfollow)
        have hfuel' : (nodes \ visited').card + stack'.length ≤ fuel := by
          -- each new point leaves the unvisited ones for the stack; `t` is gone
          have h1 := Finset.card_sdiff_add_card_eq_card hsub
          have h2 := Finset.card_sdiff_add_card_eq_card hsub'
          have h3 := hs.balance
          rw [length_cons] at hfuel
          omega
        obtain ⟨closed, hclosed, hall⟩ := ih hfuel' hsub'
          (fun x hx => (hs.origin x hx).elim
            (fun hx => hs.mono (hstack x (.tail _ hx))) fun hx => hx.1)
          hgoal'
          (by
            intro x hx hout
            rcases hs.fresh x hx with hx | ⟨hin, _⟩
            · by_cases hxt : x = t
              · exact hxt ▸ hdone
              · have hns : x ∉ t :: stack := by
                  intro hmem
                  rcases mem_cons.mp hmem with heq | hmem
                  · exact hxt heq
                  · exact hout (hs.stacked x hmem)
                obtain ⟨hno, hfol⟩ := hleft x hx hns
                exact ⟨hno, fun n hn => hs.mono (hfol n hn)⟩
            · exact absurd hin hout)
          h
        exact ⟨closed, hs.mono.trans hclosed, hall⟩

/-- Among finitely many points that the arcs do not leave, the search finds
    something exactly when an ending arc can be reached. -/
theorem walk_iff {nodes : Finset α} (hnodes : ∀ t ∈ nodes, ∀ n ∈ next t, n ∈ nodes) {start : α}
    (hstart : start ∈ nodes) (hgoal : start ≠ goal) :
    walk next arc goal nodes.card {start} [start] = true ↔
      ∃ t, Relation.ReflTransGen (Follows next arc) start t ∧ Hits next arc goal t := by
  constructor
  · intro h
    obtain ⟨s, hs, hfound⟩ := walk_sound h
    rw [mem_singleton] at hs
    exact hs ▸ hfound
  · rintro ⟨t, hpath, hhit⟩
    by_contra hfalse
    rw [Bool.not_eq_true] at hfalse
    obtain ⟨closed, hsub, hall⟩ := walk_complete hnodes
      (by
        have hcard := Finset.card_sdiff_add_card_eq_card (Finset.singleton_subset_iff.mpr hstart)
        rw [Finset.card_singleton] at hcard
        simp only [length_singleton]
        omega)
      (Finset.singleton_subset_iff.mpr hstart) (by simp) (by simpa using hgoal.symm) (by simp) hfalse
    -- the closed set has the start in it, so the whole path
    have hclosed : ∀ t, Relation.ReflTransGen (Follows next arc) start t → t ∈ closed := by
      intro t hpath
      induction hpath with
      | refl => exact hsub (Finset.mem_singleton_self start)
      | tail _ hstep ihp => exact (hall _ ihp).2 _ hstep
    exact (hall t (hclosed t hpath)).1 hhit

end Framework.Search
