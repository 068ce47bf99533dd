import Mathlib
import Rusternetes.Framework.Folds

/-! # Foreground Deletion

    The cascade below an object that is deleted in the foreground. A depth-first walk
    over one snapshot collects the operations on the dependents; they are then
    performed in any order.
-/

open List

namespace GarbageCollector

open Framework

/-! ### Objects -/

/-- A stored object; of its owner references only the uids matter. -/
structure Object where
  key : String
  uid : String
  owner_references : Option (List String) := none
  deriving DecidableEq

def Object.owners (x : Object) : List String := x.owner_references.getD []

/-- What is stored: keys and uids are distinct. -/
structure Snapshot where
  objects : List Object
  keys : (objects.map Object.key).Nodup
  uids : (objects.map Object.uid).Nodup

inductive DependentOp where
  | delete (key : String)
  | strip_owner_ref (key owner_uid : String)
  deriving DecidableEq

/-! ### The walk -/

/-- The objects that name an owner. -/
def dependents (all_resources : List Object) (resource_uid : String) : List Object :=
  all_resources.filter fun r => r.owners.any fun uid => uid = resource_uid

def exists_uid (all_resources : List Object) (uid : String) : Bool :=
  all_resources.any fun r => r.uid = uid

/-- Whether a dependent has an owner besides the one that is deleted. -/
def has_other_valid_owner (all_resources : List Object) (dependent : Object)
    (resource_uid : String) : Bool :=
  dependent.owners.any fun uid => uid ≠ resource_uid && exists_uid all_resources uid

/-- The uids descended into so far and the operations collected so far. -/
structure Walk where
  visited : List String := []
  ops : List DependentOp := []

/-- Collect the operations for one dependent, given how to descend into it. -/
def visit_dependent (all_resources : List Object) (resource_uid : String)
    (descend : Object → Walk → Option Walk) (s : Walk) (dependent : Object) : Option Walk :=
  if has_other_valid_owner all_resources dependent resource_uid then
    some { s with ops := s.ops ++ [.strip_owner_ref dependent.key resource_uid] }
  else if dependent.uid ∈ s.visited then
    -- an ownership cycle: left to its own deletion pass
    some s
  else do
    let s ← descend dependent s
    some { s with ops := s.ops ++ [.delete dependent.key] }

/-- Collect the operations below an object; `none` when the fuel for the depth of the
    recursion runs out. -/
def collect_dependents_foreground_visiting (all_resources : List Object) :
    Nat → Object → Walk → Option Walk
  | 0, _, _ => none
  | fuel + 1, resource, s =>
    if resource.uid ∈ s.visited then some s
    else
      (dependents all_resources resource.uid).foldlM
        (visit_dependent all_resources resource.uid
          (collect_dependents_foreground_visiting all_resources fuel))
        { s with visited := resource.uid :: s.visited }

/-! ### The operations -/

/-- The object without its references to an owner; without any left it has no list at all. -/
def without_owner_ref (x : Object) (owner_uid : String) : Object :=
  match x.owner_references with
  | some refs =>
    let refs := refs.filter fun uid => uid ≠ owner_uid
    { x with owner_references := if refs.isEmpty then none else some refs }
  | none => x

def affect (op : DependentOp) (x : Object) : Option Object :=
  match op with
  | .delete key => if x.key = key then none else some x
  | .strip_owner_ref key owner_uid =>
    if x.key = key then some (without_owner_ref x owner_uid) else some x

/-- Perform the operations, each on what the ones before it left. -/
def run_dependent_ops (ops : List DependentOp) (objects : List Object) : List Object :=
  ops.foldl (fun objects op => objects.filterMap (affect op)) objects

def delete_dependents_foreground (all_resources : List Object) (resource : Object) :
    Option (List DependentOp) :=
  (collect_dependents_foreground_visiting all_resources (all_resources.length + 1) resource {}).map
    Walk.ops

/-! ### What the operations leave -/

theorem owners_without_owner_ref (x : Object) (owner_uid : String) :
    (without_owner_ref x owner_uid).owners = x.owners.filter fun uid => uid ≠ owner_uid := by
  obtain ⟨key, uid, refs⟩ := x
  cases refs with
  | none => rfl
  | some refs =>
    simp only [without_owner_ref, Object.owners, Option.getD_some]
    split_ifs with hempty
    · rw [isEmpty_iff.mp hempty]
      rfl
    · rfl

theorem key_without_owner_ref (x : Object) (owner_uid : String) :
    (without_owner_ref x owner_uid).key = x.key ∧ (without_owner_ref x owner_uid).uid = x.uid := by
  obtain ⟨key, uid, refs⟩ := x
  cases refs <;> exact ⟨rfl, rfl⟩

/-- What the operations make of one object. -/
def fate : List DependentOp → Object → Option Object
  | [], x => some x
  | op :: ops, x => (affect op x).bind (fate ops)

theorem run_eq_filterMap (ops : List DependentOp) (objects : List Object) :
    run_dependent_ops ops objects = objects.filterMap (fate ops) := by
  unfold run_dependent_ops
  induction ops generalizing objects with
  | nil => exact (filterMap_some).symm
  | cons op ops ih =>
    rw [foldl_cons, ih, filterMap_filterMap]
    rfl

/-- **The fate of an object**: it is deleted if one operation says so, whatever the order;
    else it loses the references that are stripped from it. -/
theorem fate_spec (ops : List DependentOp) (x : Object) :
    .delete x.key ∈ ops ∧ fate ops x = none ∨
      .delete x.key ∉ ops ∧ ∃ x', fate ops x = some x' ∧ x'.key = x.key ∧ x'.uid = x.uid ∧
        x'.owners = x.owners.filter fun o => .strip_owner_ref x.key o ∉ ops := by
  induction ops generalizing x with
  | nil =>
    refine .inr ⟨not_mem_nil, x, rfl, rfl, rfl, ?_⟩
    simp
  | cons op ops ih =>
    cases op with
    | delete key =>
      by_cases hkey : x.key = key
      · left
        refine ⟨by rw [hkey]; exact .head _, ?_⟩
        simp [fate, affect, hkey]
      · have hfate : fate (.delete key :: ops) x = fate ops x := by
          simp [fate, affect, hkey]
        rw [hfate]
        simpa [hkey] using ih x
    | strip_owner_ref key owner_uid =>
      by_cases hkey : x.key = key
      · have hfate : fate (.strip_owner_ref key owner_uid :: ops) x =
            fate ops (without_owner_ref x owner_uid) := by
          simp [fate, affect, hkey]
        obtain ⟨hk, hu⟩ := key_without_owner_ref x owner_uid
        have ih' := ih (without_owner_ref x owner_uid)
        rw [hfate]
        rw [hk, hu, owners_without_owner_ref, filter_filter] at ih'
        rcases ih' with ⟨hdel, hnone⟩ | ⟨hdel, x', hx', hxk, hxu, howners⟩
        · exact .inl ⟨.tail _ hdel, hnone⟩
        · refine .inr ⟨by simpa using hdel, x', hx', hxk, hxu, ?_⟩
          rw [howners]
          refine filter_congr ?_
          intro o _
          by_cases ho : o = owner_uid
          · simp [ho, hkey]
          · simp [ho]
      · have hfate : fate (.strip_owner_ref key owner_uid :: ops) x = fate ops x := by
          simp [fate, affect, hkey]
        rw [hfate]
        simpa [hkey] using ih x

/-! ### Who falls -/

section graph

variable (objects : List Object) (root : String)

def Sole (x : Object) (o : String) : Prop :=
  o ∈ x.owners ∧ has_other_valid_owner objects x o = false

/-- The objects the walk deletes: below the root, each by its only owner. -/
inductive Falls : String → Prop
  | intro {x : Object} {o : String} (hx : x ∈ objects) (hroot : x.uid ≠ root)
      (ho : o ≠ root → Falls o) (hsole : Sole objects x o) : Falls x.uid

/-- The objects that must go: below the root, all their existing owners go. -/
inductive Doomed : String → Prop
  | intro {x : Object} (hx : x ∈ objects) (hroot : x.uid ≠ root)
      (hsome : ∃ o ∈ x.owners, exists_uid objects o = true)
      (hall : ∀ o ∈ x.owners, exists_uid objects o = true → o ≠ root → Doomed o) : Doomed x.uid

variable {objects root}

theorem exists_uid_of_mem {x : Object} (hx : x ∈ objects) : exists_uid objects x.uid = true :=
  any_eq_true.mpr ⟨x, hx, decide_eq_true rfl⟩

variable {o : String}

theorem Falls.exists (h : Falls objects root o) : exists_uid objects o = true := by
  cases h with
  | intro hx => exact exists_uid_of_mem hx

theorem Falls.ne_root (h : Falls objects root o) : o ≠ root := by
  cases h with
  | intro _ hne => exact hne

theorem Sole.eq {x : Object} {o' : String} (h : Sole objects x o) (ho' : o' ∈ x.owners)
    (hexists : exists_uid objects o' = true) : o' = o := by
  by_contra hne
  have hother : has_other_valid_owner objects x o = true :=
    any_eq_true.mpr ⟨o', ho', by simp [hne, hexists]⟩
  nomatch h.2.symm.trans hother

theorem Falls.doomed (hroot : exists_uid objects root = true) {u : String}
    (h : Falls objects root u) : Doomed objects root u := by
  induction h with
  | @intro x o hx hne ho hsole ih =>
    have hexists : exists_uid objects o = true := by
      by_cases h : o = root
      · rw [h]
        exact hroot
      · exact (ho h).exists
    refine .intro hx hne ⟨o, hsole.1, hexists⟩ ?_
    intro o' ho' hexists' hne'
    rw [hsole.eq ho' hexists'] at hne' ⊢
    exact ih hne'

end graph

/-! ### What the walk collects -/

section walk

variable (objects : List Object) (root : String)

/-- A dependent of an object has been dealt with. -/
def Handled (s : Walk) (o : String) (x : Object) : Prop :=
  if has_other_valid_owner objects x o then .strip_owner_ref x.key o ∈ s.ops else x.uid ∈ s.visited

/-- An object below the start has been dealt with: it is deleted, and so are its dependents. -/
def Done (s : Walk) (o : String) : Prop :=
  (∃ x ∈ objects, x.uid = o ∧ .delete x.key ∈ s.ops) ∧
    ∀ x ∈ dependents objects o, Handled objects s o x

/-- The walk goes on: nothing is taken back, and what is visited is dealt with. -/
structure Grows (s s' : Walk) : Prop where
  visited : s.visited ⊆ s'.visited
  ops : s.ops ⊆ s'.ops
  fresh : ∀ o ∈ s'.visited, o ∉ s.visited → Done objects s' o

variable {objects root} {o : String} {s s' : Walk} {x : Object}

theorem Handled.mono (h : Handled objects s o x) (hv : s.visited ⊆ s'.visited) (ho : s.ops ⊆ s'.ops) :
    Handled objects s' o x := by
  unfold Handled at h ⊢
  split_ifs at h ⊢ with hother
  · exact ho h
  · exact hv h

theorem Done.mono (h : Done objects s o) (hv : s.visited ⊆ s'.visited) (ho : s.ops ⊆ s'.ops) :
    Done objects s' o := by
  obtain ⟨⟨x, hx, huid, hdel⟩, hdeps⟩ := h
  exact ⟨⟨x, hx, huid, ho hdel⟩, fun y hy => (hdeps y hy).mono hv ho⟩

theorem Grows.refl (s : Walk) : Grows objects s s :=
  ⟨Subset.refl _, .refl _, fun _ h h' => absurd h h'⟩

theorem Grows.trans {t u : Walk} (h : Grows objects s t) (h' : Grows objects t u) :
    Grows objects s u := by
  refine ⟨Subset.trans h.visited h'.visited, Subset.trans h.ops h'.ops, ?_⟩
  intro o ho hns
  by_cases hnt : o ∈ t.visited
  · exact (h.fresh o hnt hns).mono h'.visited h'.ops
  · exact h'.fresh o ho hnt

/-- A way to descend that deals with the start and its dependents, and deletes everything
    it visits on the way but the start. -/
def Descends (objects : List Object) (descend : Object → Walk → Option Walk) : Prop :=
  ∀ r s s', r.uid ∉ s.visited → descend r s = some s' →
    s.visited ⊆ s'.visited ∧ s.ops ⊆ s'.ops ∧ r.uid ∈ s'.visited ∧
      (∀ o ∈ s'.visited, o ∉ s.visited → o ≠ r.uid → Done objects s' o) ∧
      ∀ x ∈ dependents objects r.uid, Handled objects s' r.uid x

theorem visit_dependent_grows {descend : Object → Walk → Option Walk}
    (hdescend : Descends objects descend) (hx : x ∈ objects)
    (h : visit_dependent objects o descend s x = some s') :
    Grows objects s s' ∧ Handled objects s' o x := by
  unfold visit_dependent at h
  split_ifs at h with hother hvisited
  · cases h
    refine ⟨⟨Subset.refl _, subset_append_left _ _, fun _ h h' => absurd h h'⟩, ?_⟩
    unfold Handled
    rw [if_pos hother]
    exact mem_append_right _ (mem_singleton_self _)
  · cases h
    refine ⟨Grows.refl s, ?_⟩
    unfold Handled
    rw [if_neg hother]
    exact hvisited
  · obtain ⟨t, ht, hs'⟩ := Option.bind_eq_some_iff.mp h
    cases hs'
    obtain ⟨hv, ho, hself, hfresh, hdeps⟩ := hdescend x s t hvisited ht
    have hops : t.ops ⊆ t.ops ++ [.delete x.key] := subset_append_left _ _
    refine ⟨⟨hv, Subset.trans ho hops, ?_⟩, ?_⟩
    · intro o' hot hos
      by_cases hox : o' = x.uid
      · subst hox
        refine ⟨⟨x, hx, rfl, mem_append_right _ (mem_singleton_self _)⟩, ?_⟩
        intro y hy
        exact (hdeps y hy).mono (fun _ h => h) hops
      · exact (hfresh o' hot hos hox).mono (fun _ h => h) hops
    · unfold Handled
      rw [if_neg hother]
      exact hself

/-- **The walk deals with what it visits.** -/
theorem collect_descends (fuel : Nat) :
    Descends objects (collect_dependents_foreground_visiting objects fuel) := by
  induction fuel with
  | zero =>
    intro r s s' _ h
    cases h
  | succ fuel ih =>
    intro r s s' hr h
    rw [collect_dependents_foreground_visiting, if_neg hr] at h
    obtain ⟨-, hgrows, hhandled⟩ := Folds.foldlM_forall (P := fun _ => True) (R := Grows objects)
      (H := fun s x => Handled objects s r.uid x) Grows.refl (fun _ _ _ => Grows.trans)
      (fun s t x hst hx => hx.mono hst.visited hst.ops)
      (fun s x s' hx _ hvisit =>
        ⟨trivial, visit_dependent_grows ih (mem_filter.mp hx).1 hvisit⟩) trivial h
    refine ⟨fun o ho => hgrows.visited (.tail _ ho), hgrows.ops,
      hgrows.visited (.head _), ?_, hhandled⟩
    intro o ho hns hne
    refine hgrows.fresh o ho ?_
    rw [mem_cons, not_or]
    exact ⟨hne, hns⟩

/-- An operation that is called for. -/
def Justified (objects : List Object) (root : String) : DependentOp → Prop
  | .delete key => ∃ x ∈ objects, x.key = key ∧ Falls objects root x.uid
  | .strip_owner_ref key o => ∃ x ∈ objects, x.key = key ∧ o ∈ x.owners ∧
      (o ≠ root → Falls objects root o) ∧ has_other_valid_owner objects x o = true

/-- Only what falls is visited, below the root, and only what is called for is collected. -/
structure Sound (objects : List Object) (root : String) (s : Walk) : Prop where
  visited : ∀ o ∈ s.visited, o ≠ root → Falls objects root o
  started : root ∈ s.visited
  ops : ∀ op ∈ s.ops, Justified objects root op

theorem mem_dependents : x ∈ dependents objects o ↔ x ∈ objects ∧ o ∈ x.owners := by
  unfold dependents
  simp

theorem Sound.push (h : Sound objects root s) {op : DependentOp} (hop : Justified objects root op) :
    Sound objects root { s with ops := s.ops ++ [op] } := by
  refine ⟨h.visited, h.started, ?_⟩
  exact forall_mem_append.mpr ⟨h.ops, forall_mem_singleton.mpr hop⟩

theorem Sound.visit (h : Sound objects root s) {u : String} (hu : u ≠ root → Falls objects root u) :
    Sound objects root { s with visited := u :: s.visited } := by
  exact ⟨forall_mem_cons.mpr ⟨hu, h.visited⟩, .tail _ h.started, h.ops⟩

variable {r : Object}

/-- **The walk collects only what is called for.** -/
theorem collect_sound (fuel : Nat)
    (hs : Sound objects root { s with visited := r.uid :: s.visited })
    (h : collect_dependents_foreground_visiting objects fuel r s = some s') :
    Sound objects root s' := by
  have hr : r.uid ≠ root → Falls objects root r.uid := hs.visited _ (.head _)
  induction fuel generalizing r s s' with
  | zero => cases h
  | succ fuel ih =>
    rw [collect_dependents_foreground_visiting] at h
    split_ifs at h with hvisited
    · cases h
      refine ⟨fun o ho => hs.visited o (.tail _ ho), ?_, hs.ops⟩
      rcases mem_cons.mp hs.started with heq | hstarted
      · exact heq ▸ hvisited
      · exact hstarted
    · refine Folds.foldlM_invariant (P := Sound objects root) ?_ hs h
      intro s x s' hx hs hvisit
      obtain ⟨hmem, howner⟩ := mem_dependents.mp hx
      unfold visit_dependent at hvisit
      split_ifs at hvisit with hother hseen
      · cases hvisit
        exact hs.push ⟨x, hmem, rfl, howner, hr, hother⟩
      · cases hvisit
        exact hs
      · obtain ⟨t, ht, hs'⟩ := Option.bind_eq_some_iff.mp hvisit
        cases hs'
        -- it is not the root, which is visited
        have hne : x.uid ≠ root := fun heq => hseen (heq ▸ hs.started)
        have hfalls : Falls objects root x.uid :=
          .intro hmem hne hr ⟨howner, by simpa using hother⟩
        exact (ih (hs.visit fun _ => hfalls) ht fun _ => hfalls).push ⟨x, hmem, rfl, hfalls⟩

/-! ### The walk ends -/

def unvisited (objects : List Object) (visited : List String) : Nat :=
  objects.countP fun x => x.uid ∉ visited

theorem unvisited_mono {visited visited' : List String} (h : visited ⊆ visited') :
    unvisited objects visited' ≤ unvisited objects visited := by
  refine countP_mono_left ?_
  intro x _ hx
  rw [decide_eq_true_iff] at hx ⊢
  exact fun hmem => hx (h hmem)

theorem unvisited_cons (hr : r ∈ objects) {visited : List String} (hfresh : r.uid ∉ visited) :
    unvisited objects (r.uid :: visited) < unvisited objects visited := by
  have hsplit : unvisited objects (r.uid :: visited) =
      ((objects.filter fun x => x.uid ∉ visited).filter fun x => x.uid ≠ r.uid).length := by
    rw [filter_filter, unvisited, countP_eq_length_filter]
    simp
  rw [hsplit, unvisited, countP_eq_length_filter, length_filter_lt_length_iff_exists]
  exact ⟨r, mem_filter.mpr ⟨hr, by simpa using hfresh⟩, by simp⟩

/-- **The walk ends**: the depth of the recursion is bounded by the objects not visited yet. -/
theorem collect_total (fuel : Nat) (hr : r ∈ objects) (hfuel : unvisited objects s.visited < fuel) :
    ∃ s', collect_dependents_foreground_visiting objects fuel r s = some s' ∧
      s.visited ⊆ s'.visited := by
  induction fuel generalizing r s with
  | zero => exact absurd hfuel (Nat.not_lt_zero _)
  | succ fuel ih =>
    rw [collect_dependents_foreground_visiting]
    split_ifs with hvisited
    · exact ⟨s, rfl, .refl _⟩
    · have hless := unvisited_cons hr hvisited
      obtain ⟨s', hs', hsub⟩ := Folds.foldlM_total
        (f := visit_dependent objects r.uid (collect_dependents_foreground_visiting objects fuel))
        (P := fun t => r.uid :: s.visited ⊆ t.visited)
        (fun t x hx ht => by
          unfold visit_dependent
          split_ifs with hother hseen
          · exact ⟨_, rfl, ht⟩
          · exact ⟨_, rfl, ht⟩
          · have hmono : unvisited objects t.visited ≤ unvisited objects (r.uid :: s.visited) :=
              unvisited_mono ht
            obtain ⟨t', ht', hsub⟩ := ih (mem_filter.mp hx).1 (s := t) (by omega)
            exact ⟨{ t' with ops := t'.ops ++ [.delete x.key] }, by rw [ht']; rfl, Subset.trans ht hsub⟩)
        (s := { s with visited := r.uid :: s.visited }) (.refl _)
      exact ⟨s', hs', fun o ho => hsub (.tail _ ho)⟩

end walk

/-! ### The cascade -/

section cascade

variable (S : Snapshot) {root : Object} {x : Object}

theorem Snapshot.eq_of_uid {y : Object} (hx : x ∈ S.objects) (hy : y ∈ S.objects)
    (h : x.uid = y.uid) : x = y :=
  inj_on_of_nodup_map S.uids hx hy h

theorem Snapshot.eq_of_key {y : Object} (hx : x ∈ S.objects) (hy : y ∈ S.objects)
    (h : x.key = y.key) : x = y :=
  inj_on_of_nodup_map S.keys hx hy h

/-- **What the cascade collects**: a deletion for each object that falls, and for each owner
    that goes a removal of the reference to it from the dependents that have another. -/
theorem delete_dependents_foreground_spec (hroot : root ∈ S.objects) :
    ∃ ops, delete_dependents_foreground S.objects root = some ops ∧
      ∀ x ∈ S.objects,
        (.delete x.key ∈ ops ↔ Falls S.objects root.uid x.uid) ∧
        ∀ o, .strip_owner_ref x.key o ∈ ops ↔ o ∈ x.owners ∧
          (o ≠ root.uid → Falls S.objects root.uid o) ∧
            has_other_valid_owner S.objects x o = true := by
  have hfuel : unvisited S.objects ({} : Walk).visited < S.objects.length + 1 :=
    Nat.lt_succ_of_le countP_le_length
  obtain ⟨s, hs, -⟩ := collect_total (S.objects.length + 1) hroot hfuel
  obtain ⟨-, -, hstart, hdone, hhandled⟩ :=
    collect_descends (S.objects.length + 1) root {} s not_mem_nil hs
  have hsound : Sound S.objects root.uid s := by
    refine collect_sound (S.objects.length + 1) ⟨?_, .head _, ?_⟩ hs
    · intro o ho hne
      exact absurd (mem_singleton.mp ho) hne
    · intro op hop
      nomatch hop
  -- the dependents of everything that goes are dealt with
  have hdeps : ∀ o ∈ s.visited, ∀ x ∈ dependents S.objects o, Handled S.objects s o x := by
    intro o ho x hx
    by_cases h : o = root.uid
    · subst h
      exact hhandled x hx
    · exact (hdone o ho not_mem_nil h).2 x hx
  have hgoes : ∀ {o : String}, (o ≠ root.uid → o ∈ s.visited) → o ∈ s.visited := by
    intro o ho
    by_cases h : o = root.uid
    · rw [h]
      exact hstart
    · exact ho h
  have hfalls : ∀ {u : String}, Falls S.objects root.uid u → u ∈ s.visited := by
    intro u hu
    induction hu with
    | @intro x o hx hne ho hsole ih =>
      have hx' := hdeps o (hgoes ih) x (mem_dependents.mpr ⟨hx, hsole.1⟩)
      unfold Handled at hx'
      rw [hsole.2] at hx'
      exact hx'
  refine ⟨s.ops, by rw [delete_dependents_foreground, hs]; rfl, ?_⟩
  intro x hx
  refine ⟨⟨?_, ?_⟩, fun o => ⟨?_, ?_⟩⟩
  · intro hdel
    obtain ⟨y, hy, hkey, hy'⟩ := hsound.ops _ hdel
    rw [← S.eq_of_key hy hx hkey]
    exact hy'
  · intro hx'
    obtain ⟨⟨y, hy, huid, hdel⟩, -⟩ :=
      hdone x.uid (hfalls hx') not_mem_nil hx'.ne_root
    rw [← S.eq_of_uid hy hx huid]
    exact hdel
  · intro hstrip
    obtain ⟨y, hy, hkey, hy'⟩ := hsound.ops _ hstrip
    rw [← S.eq_of_key hy hx hkey]
    exact hy'
  · intro ⟨howner, ho, hother⟩
    have hx' := hdeps o (hgoes fun h => hfalls (ho h)) x (mem_dependents.mpr ⟨hx, howner⟩)
    unfold Handled at hx'
    rw [if_pos hother] at hx'
    exact hx'

/-- The operations do what they must: exactly the doomed objects are deleted, every other
    object loses its references to what goes and no more, and where it had one an existing
    owner is left. -/
def Exact (root : Object) (ops : List DependentOp) : Prop :=
  let after := run_dependent_ops ops S.objects
  (∀ x ∈ S.objects, (∀ x' ∈ after, x'.uid ≠ x.uid) ↔ Doomed S.objects root.uid x.uid) ∧
    ∀ x ∈ S.objects, x.uid ≠ root.uid → ¬Doomed S.objects root.uid x.uid →
      ∃ x' ∈ after, x'.key = x.key ∧ x'.uid = x.uid ∧
        (∀ o, o ∈ x'.owners ↔
          o ∈ x.owners ∧ o ≠ root.uid ∧ ¬Doomed S.objects root.uid o) ∧
        ((∃ o ∈ x.owners, o = root.uid ∨ Doomed S.objects root.uid o) →
          ∃ o ∈ x'.owners, ∃ y ∈ after, y.uid = o)

theorem survives_iff {ops : List DependentOp} (hx : x ∈ S.objects) :
    (∀ x' ∈ run_dependent_ops ops S.objects, x'.uid ≠ x.uid) ↔ .delete x.key ∈ ops := by
  rw [run_eq_filterMap]
  constructor
  · intro hgone
    rcases fate_spec ops x with ⟨hdel, -⟩ | ⟨-, x', hx', -, huid, -⟩
    · exact hdel
    · exact absurd huid (hgone x' (mem_filterMap.mpr ⟨x, hx, hx'⟩))
  · intro hdel x' hx' huid
    obtain ⟨y, hy, hfate⟩ := mem_filterMap.mp hx'
    rcases fate_spec ops y with ⟨-, hnone⟩ | ⟨hkept, y', hy', -, huid', -⟩
    · nomatch hnone.symm.trans hfate
    · have heq : y' = x' := Option.some.inj (hy'.symm.trans hfate)
      have hyx : y = x := S.eq_of_uid hy hx (huid'.symm.trans (heq ▸ huid))
      exact hkept (hyx ▸ hdel)

/-- **The cascade deletes what it must exactly when no doomed object has two owners**, in
    whatever order its operations are performed. -/
theorem foreground_exact_iff_single_owners (hroot : root ∈ S.objects) :
    ∃ ops, delete_dependents_foreground S.objects root = some ops ∧
      ∀ ops' : List DependentOp, ops'.Perm ops →
        (Exact S root ops' ↔
          ∀ x ∈ S.objects, Doomed S.objects root.uid x.uid → ∀ o ∈ x.owners, ∀ o' ∈ x.owners,
            exists_uid S.objects o = true → exists_uid S.objects o' = true → o = o') := by
  obtain ⟨ops, hops, hspec⟩ := delete_dependents_foreground_spec S hroot
  refine ⟨ops, hops, ?_⟩
  intro ops' hperm
  have hdelete : ∀ x ∈ S.objects,
      ((∀ x' ∈ run_dependent_ops ops' S.objects, x'.uid ≠ x.uid) ↔ Falls S.objects root.uid x.uid) := by
    intro x hx
    rw [survives_iff S hx, hperm.mem_iff]
    exact (hspec x hx).1
  have hexists := exists_uid_of_mem hroot
  constructor
  · -- what is deleted falls, and what falls has one owner
    intro hexact x hx hdoomed o ho o' ho' hoe hoe'
    have hfalls := (hdelete x hx).mp ((hexact.1 x hx).mpr hdoomed)
    generalize hu : x.uid = u at hfalls
    cases hfalls with
    | @intro y q hy hne hq hsole =>
      have hxy : x = y := S.eq_of_uid hx hy hu
      subst hxy
      rw [hsole.eq ho hoe, hsole.eq ho' hoe']
  · intro hsingle
    -- what is doomed falls
    have hfalls : ∀ {u : String}, Doomed S.objects root.uid u → Falls S.objects root.uid u := by
      intro u hu
      induction hu with
      | @intro x hx hne hsome hall ih =>
        obtain ⟨o, ho, hoe⟩ := hsome
        refine .intro hx hne (ih o ho hoe) ⟨ho, ?_⟩
        by_contra hother
        obtain ⟨o', ho', hvalid⟩ := any_eq_true.mp (Bool.not_eq_false _ ▸ hother)
        obtain ⟨hne', hoe'⟩ := Bool.and_eq_true_iff.mp hvalid
        have hdoomed : Doomed S.objects root.uid x.uid := .intro hx hne ⟨o, ho, hoe⟩ hall
        exact (of_decide_eq_true hne') (hsingle x hx hdoomed o' ho' o ho hoe' hoe)
    have hgone : ∀ x ∈ S.objects, (∀ x' ∈ run_dependent_ops ops' S.objects, x'.uid ≠ x.uid) ↔
        Doomed S.objects root.uid x.uid :=
      fun x hx => (hdelete x hx).trans ⟨fun h => h.doomed hexists, hfalls⟩
    refine ⟨hgone, ?_⟩
    intro x hx hne hsafe
    -- an owner that stays, wherever one goes
    have hstays : ∀ o ∈ x.owners, (o = root.uid ∨ Doomed S.objects root.uid o) →
        ∃ o' ∈ x.owners, exists_uid S.objects o' = true ∧
          ¬(o' = root.uid ∨ Doomed S.objects root.uid o') := by
      intro o ho hgoes
      have hoe : exists_uid S.objects o = true := by
        rcases hgoes with rfl | hdoomed
        · exact hexists
        · exact (hfalls hdoomed).exists
      by_contra hnone
      refine hsafe (.intro hx hne ⟨o, ho, hoe⟩ ?_)
      intro o' ho' hoe' hne'
      by_contra hnot
      exact hnone ⟨o', ho', hoe', not_or.mpr ⟨hne', hnot⟩⟩
    have hstrip : ∀ o ∈ x.owners, (.strip_owner_ref x.key o ∈ ops' ↔
        o = root.uid ∨ Doomed S.objects root.uid o) := by
      intro o ho
      rw [hperm.mem_iff, (hspec x hx).2 o]
      constructor
      · intro ⟨_, hf, _⟩
        exact (eq_or_ne o root.uid).imp_right fun hne => (hf hne).doomed hexists
      · intro hgoes
        obtain ⟨o', ho', hoe', hsafe'⟩ := hstays o ho hgoes
        have hdiff : o' ≠ o := fun heq => hsafe' (heq ▸ hgoes)
        refine ⟨ho, fun hne => hfalls (hgoes.resolve_left hne), ?_⟩
        exact any_eq_true.mpr ⟨o', ho', by simp [hdiff, hoe']⟩
    have hkept : .delete x.key ∉ ops' := fun h => hsafe ((hgone x hx).mp ((survives_iff S hx).mpr h))
    rcases fate_spec ops' x with ⟨hdel, -⟩ | ⟨-, x', hx', hkey, huid, howners⟩
    · exact absurd hdel hkept
    · have hmem : x' ∈ run_dependent_ops ops' S.objects := by
        rw [run_eq_filterMap]
        exact mem_filterMap.mpr ⟨x, hx, hx'⟩
      have howners' : ∀ o, o ∈ x'.owners ↔
          o ∈ x.owners ∧ o ≠ root.uid ∧ ¬Doomed S.objects root.uid o := by
        intro o
        rw [howners, mem_filter, decide_eq_true_iff, ← not_or]
        exact and_congr_right fun ho => not_congr (hstrip o ho)
      refine ⟨x', hmem, hkey, huid, howners', ?_⟩
      intro ⟨o, ho, hgoes⟩
      obtain ⟨o', ho', hoe', hsafe'⟩ := hstays o ho hgoes
      refine ⟨o', (howners' o').mpr ⟨ho', not_or.mp hsafe'⟩, ?_⟩
      obtain ⟨y, hy, hyo⟩ := any_eq_true.mp hoe'
      have hyo' : y.uid = o' := of_decide_eq_true hyo
      by_contra hnone
      refine hsafe' (.inr (hyo' ▸ (hgone y hy).mp ?_))
      intro z hz huz
      exact hnone ⟨z, hz, huz.trans hyo'⟩

end cascade

namespace Sample

def diamond : Snapshot where
  objects := [{ key := "root", uid := "r" }, { key := "left", uid := "a", owner_references := some ["r"] },
    { key := "right", uid := "b", owner_references := some ["r"] },
    { key := "shared", uid := "c", owner_references := some ["a", "b"] }]
  keys := by decide
  uids := by decide

def shared : Snapshot where
  objects := [{ key := "root", uid := "r" }, { key := "other", uid := "o" },
    { key := "pod", uid := "p", owner_references := some ["r", "o"] }]
  keys := by decide
  uids := by decide

end Sample

/-- The object at the bottom of the diamond counts each of its owners as valid while the
    other is deleted: it loses both references, is not deleted, and no longer has an owner. -/
theorem diamond_leaves_ownerless :
    ∃ ops, delete_dependents_foreground Sample.diamond.objects { key := "root", uid := "r" } = some ops ∧
      run_dependent_ops ops Sample.diamond.objects =
        [{ key := "root", uid := "r" }, { key := "shared", uid := "c" }] ∧
      Doomed Sample.diamond.objects "r" "c" := by
  refine ⟨_, rfl, by decide, ?_⟩
  have hside : ∀ u, u = "a" ∨ u = "b" → Doomed Sample.diamond.objects "r" u := by
    intro u hu
    rcases hu with rfl | rfl
    · refine .intro (x := ⟨"left", "a", some ["r"]⟩) (by decide) (by decide) (by decide) ?_
      intro o ho _ hne
      exact absurd (mem_singleton.mp ho) hne
    · refine .intro (x := ⟨"right", "b", some ["r"]⟩) (by decide) (by decide) (by decide) ?_
      intro o ho _ hne
      exact absurd (mem_singleton.mp ho) hne
  refine .intro (x := ⟨"shared", "c", some ["a", "b"]⟩) (by decide) (by decide) (by decide) ?_
  intro o ho _ _
  exact hside o (by simpa [Object.owners] using ho)

/-- The dependent with another owner stays with it. -/
theorem shared_dependent_keeps_owner :
    { key := "root", uid := "r" } ∈ Sample.shared.objects ∧
      ∃ ops, delete_dependents_foreground Sample.shared.objects { key := "root", uid := "r" } = some ops ∧
        ∀ ops' : List DependentOp, ops'.Perm ops →
          (Exact Sample.shared { key := "root", uid := "r" } ops' ↔
            ∀ x ∈ Sample.shared.objects, Doomed Sample.shared.objects "r" x.uid →
              ∀ o ∈ x.owners, ∀ o' ∈ x.owners, exists_uid Sample.shared.objects o = true →
                exists_uid Sample.shared.objects o' = true → o = o') :=
  ⟨by decide, foreground_exact_iff_single_owners Sample.shared (by decide)⟩

end GarbageCollector
