import Rusternetes.Framework.Nested
import Rusternetes.Ssa.Merge

/-! # Owned Paths and Their Nested Form

    What a manager owns is written into the object and read back at the next apply.
    The nested form is the JSON of a trie whose elements are the steps of the
    pointers, and the pointers of a schema never go on from one another: so what is
    read back is what was written.
-/

open List

namespace Ssa

open Framework

/-! ### Owned paths as sets -/

namespace OwnedPaths

variable {p : String} {s : OwnedPaths}

theorem mem_def : p ∈ s ↔ p ∈ s.paths := Iff.rfl

@[simp] theorem not_mem_empty (p : String) : p ∉ ({} : OwnedPaths) := List.not_mem_nil

theorem contains_iff : s.contains p = true ↔ p ∈ s :=
  contains_iff_mem

@[simp] theorem mem_insert {q : String} : q ∈ s.insert p ↔ q = p ∨ q ∈ s := by
  unfold insert
  split_ifs with hp
  · constructor
    · exact .inr
    · intro h
      rcases h with rfl | h
      · exact contains_iff.mp hp
      · exact h
  · exact mem_orderedInsert _

@[simp] theorem mem_insert_all {ps : List String} {q : String} :
    q ∈ s.insert_all ps ↔ q ∈ ps ∨ q ∈ s := by
  induction ps generalizing s with
  | nil => simp [insert_all]
  | cons p ps ih =>
    have hstep : s.insert_all (p :: ps) = (s.insert p).insert_all ps := rfl
    rw [hstep, ih, mem_insert, mem_cons]
    tauto

theorem is_empty_iff : s.is_empty = true ↔ ∀ p, p ∉ s := by
  rw [is_empty, List.isEmpty_iff, List.eq_nil_iff_forall_not_mem]
  rfl

end OwnedPaths

/-! ### Writing -/

/-- A step of a pointer as an element of the nested form. -/
def element (segment : String) : String := "f:" ++ segment

theorem strip_element (segment : String) : Text.strip_prefix (element segment) "f:" = some segment :=
  Text.strip_prefix_eq_some.mpr rfl

variable {key : String} {t : Trie String} {p : String}

theorem element_injective : Function.Injective element := by
  intro a b h
  have hstrip := strip_element a
  rw [h, strip_element] at hstrip
  exact (Option.some.inj hstrip).symm

def elements (path : String) : List String := (split_pointer_segments path).map element

theorem insert_segment_nested (ht : t.Proper) (segments : List String)
    (hfree : ∀ q, t.has (segments.map element ++ q) = true → q = []) :
    insert_segment t.nested segments = (t.insert (segments.map element)).nested := by
  induction segments generalizing t with
  | nil => exact (Trie.nested_insert_nil t).symm
  | cons s rest ih =>
    have hchild : ∀ q, (t.at_child (element s)).has (rest.map element ++ q) = true → q = [] := by
      intro q hq
      rw [Trie.has_at_child] at hq
      exact hfree q hq
    rw [map_cons, Trie.nested_insert_cons]
    cases rest with
    | nil =>
      have hnone : (t.at_child (element s)).nested = [] := (ht.at_child _).nested_eq_nil hchild
      rw [map_nil, Trie.nested_insert_nil, hnone, insert_segment, element]
    | cons =>
      rw [← ih (ht.at_child _) hchild, insert_segment]
      simp only [Trie.lookup_nested_getD, element]

/-! ### Reading -/

theorem mem_collect_child {c : Trie String} (hc : c.Proper) (hne : c.is_empty = false)
    (hfree : c.Unextended) {stack : List String} {out : OwnedPaths}
    (ih : ∀ out, p ∈ collect_fields stack c.nested out ↔
      p ∈ out ∨ ∃ segs, segs ≠ [] ∧ c.has (segs.map element) = true ∧ p = join (stack ++ segs)) :
    p ∈ collect_child stack (.object c.nested) out ↔
      p ∈ out ∨ ∃ segs, c.has (segs.map element) = true ∧ p = join (stack ++ segs) := by
  rw [collect_child]
  cases hempty : c.nested.isEmpty with
  | true =>
    -- a leaf: the only path is the empty one
    have hleaf : ∀ q, c.has q = true → q = [] :=
      fun q => Trie.eq_nil_of_has (isEmpty_iff.mp hempty)
    obtain ⟨q, hq⟩ := hc.exists_has hne
    have hroot : c.has [] = true := hleaf q hq ▸ hq
    rw [if_pos rfl, OwnedPaths.mem_insert, or_comm]
    refine or_congr_right ⟨fun h => ⟨[], hroot, by rwa [append_nil]⟩, ?_⟩
    rintro ⟨segs, hsegs, rfl⟩
    rw [map_eq_nil_iff.mp (hleaf _ hsegs), append_nil]
  | false =>
    -- paths go on, so the child itself is none
    have hroot : c.has [] ≠ true := by
      intro hroot
      rw [hc.nested_eq_nil fun q => hfree [] q hroot] at hempty
      cases hempty
    rw [if_neg Bool.false_ne_true, ih]
    refine or_congr_right (exists_congr fun segs => ⟨fun h => h.2, fun h => ⟨?_, h⟩⟩)
    rintro rfl
    exact hroot h.1

/-- **Reading the nested form** finds the paths of the trie. -/
theorem mem_collect_fields (ht : t.Proper) (hfree : t.Unextended)
    {stack : List String} {out : OwnedPaths} :
    p ∈ collect_fields stack t.nested out ↔
      p ∈ out ∨ ∃ segs, segs ≠ [] ∧ t.has (segs.map element) = true ∧ p = join (stack ++ segs) := by
  induction ht generalizing stack out with
  | @node m cs sorted kept below ih =>
    -- the loop, child by child
    have hloop : ∀ out, p ∈ collect_fields stack (Trie.nested.nested_children cs) out ↔
        p ∈ out ∨ ∃ c ∈ cs, ∃ s segs, c.1 = element s ∧ c.2.has (segs.map element) = true ∧
          p = join (stack ++ s :: segs) := by
      have hfrees : ∀ c ∈ cs, c.2.Unextended := fun c hc => hfree.child sorted hc
      clear hfree sorted
      induction cs with
      | nil =>
        intro out
        rw [Trie.nested.nested_children, collect_fields]
        simp
      | cons c rest ihrest =>
        intro out
        obtain ⟨k, c⟩ := c
        have hrest := ihrest (fun d hd => kept d (.tail _ hd))
          (fun d hd => below d (.tail _ hd))
          (fun d hd => ih d (.tail _ hd))
          (fun d hd => hfrees d (.tail _ hd))
        rw [Trie.nested.nested_children, collect_fields]
        cases hstrip : Text.strip_prefix k "f:" with
        | none =>
          have hno : ¬∃ s segs, k = element s ∧ c.has (segs.map element) = true ∧
              p = join (stack ++ s :: segs) := by
            rintro ⟨s, _, rfl, _⟩
            rw [strip_element] at hstrip
            cases hstrip
          simp only [hrest, exists_mem_cons_iff]
          rw [or_iff_right hno]
        | some s =>
          obtain rfl : k = element s := Text.strip_prefix_eq_some.mp hstrip
          have hfreec := hfrees _ (.head _)
          have hhead : ∀ out, p ∈ collect_child (stack ++ [s]) (.object c.nested) out ↔
              p ∈ out ∨ ∃ segs, c.has (segs.map element) = true ∧ p = join (stack ++ [s] ++ segs) :=
            fun out => mem_collect_child (below _ (.head _)) (kept _ (.head _))
              hfreec fun out => ih _ (.head _) hfreec
          -- the step is the one that is stripped
          simp only [hrest, hhead, exists_mem_cons_iff, append_assoc,
            singleton_append, element_injective.eq_iff, exists_and_left, exists_eq_left',
            or_assoc]
    rw [Trie.nested_node, hloop]
    refine or_congr_right ?_
    constructor
    · rintro ⟨c, hc, s, segs, hs, hsegs, heq⟩
      refine ⟨s :: segs, cons_ne_nil _ _, ?_, heq⟩
      rw [map_cons, ← hs, Trie.has_cons_of_mem _ sorted hc]
      exact hsegs
    · rintro ⟨segs, hne, hsegs, heq⟩
      cases segs with
      | nil => exact absurd rfl hne
      | cons s segs =>
        obtain ⟨c, hc, hsegs⟩ := Option.any_eq_true _ _ |>.mp hsegs
        exact ⟨(element s, c), Assoc.mem_of_lookup hc, s, segs, rfl, hsegs, heq⟩

/-! ### Round trip -/

/-- Pointers that can be told apart in the nested form: each is the join of its steps,
    and none goes on from another. -/
structure Separated (U : Set String) : Prop where
  nonempty : ∀ p ∈ U, split_pointer_segments p ≠ []
  join_split : ∀ p ∈ U, join (split_pointer_segments p) = p
  apart : ∀ p ∈ U, ∀ q ∈ U, split_pointer_segments p <+: split_pointer_segments q → p = q

namespace Separated

variable {U : Set String} (hU : Separated U)

def trie (paths : List String) : Trie String :=
  paths.foldl (fun t p => t.insert (elements p)) .empty

theorem has_foldl (paths : List String) (t : Trie String) (q : List String) :
    (paths.foldl (fun t p => t.insert (elements p)) t).has q = true ↔
      t.has q = true ∨ ∃ p ∈ paths, q = elements p := by
  induction paths generalizing t with
  | nil => simp
  | cons p ps ih =>
    rw [foldl_cons, ih, Trie.has_insert]
    simp only [Bool.or_eq_true, decide_eq_true_eq, exists_mem_cons_iff]
    tauto

include hU in
theorem eq_of_elements {q : String} (hp : p ∈ U) (hq : q ∈ U) {r : List String}
    (h : elements q = elements p ++ r) : p = q := by
  apply hU.apart p hp q hq
  obtain ⟨a, b, hsplit, ha, _⟩ := map_eq_append_iff.mp h
  have heq : a = split_pointer_segments p := map_injective_iff.mpr element_injective ha
  rw [hsplit, heq]
  exact prefix_append _ _

include hU in
/-- What is written is the trie of the pointers. -/
theorem nested_foldl {paths : List String} (hpaths : ∀ p ∈ paths, p ∈ U)
    (ht : t.Proper) (hfrom : ∀ q, t.has q = true → ∃ p ∈ U, q = elements p) :
    paths.foldl (fun root path => insert_segment root (split_pointer_segments path)) t.nested =
      (paths.foldl (fun t p => t.insert (elements p)) t).nested := by
  induction paths generalizing t with
  | nil => rfl
  | cons p ps ih =>
    have hp := hpaths p (.head _)
    have hinsert : insert_segment t.nested (split_pointer_segments p) =
        (t.insert (elements p)).nested := by
      apply insert_segment_nested ht
      intro q hq
      obtain ⟨p', hp', heq⟩ := hfrom _ hq
      -- a pointer that goes on from this one is this one
      have hsame := hU.eq_of_elements hp hp' heq.symm
      rw [← hsame] at heq
      exact append_right_eq_self.mp heq
    rw [foldl_cons, foldl_cons, hinsert]
    refine ih (fun q hq => hpaths q (.tail _ hq)) (ht.insert _) ?_
    intro q hq
    rw [Trie.has_insert] at hq
    rcases Bool.or_eq_true_iff.mp hq with hq | hq
    · exact ⟨p, hp, of_decide_eq_true hq⟩
    · exact hfrom q hq

include hU in
/-- **Round trip**: what is read back is what was written. -/
theorem mem_from_to_fields_v1 {s : OwnedPaths} (hs : ∀ p ∈ s, p ∈ U) :
    p ∈ OwnedPaths.from_fields_v1 s.to_fields_v1 ↔ p ∈ s := by
  have hhas : ∀ q, (trie s.paths).has q = true ↔ ∃ p ∈ s, q = elements p := by
    intro q
    rw [trie, has_foldl]
    simp [OwnedPaths.mem_def]
  have hwrite : s.to_fields_v1 = .object (trie s.paths).nested := by
    have hnested := hU.nested_foldl hs Trie.Proper.empty fun q hq => absurd hq (by simp)
    exact congrArg Json.object hnested
  have hproper : (trie s.paths).Proper :=
    foldlRecOn s.paths _ Trie.Proper.empty fun _ ht _ _ => ht.insert _
  have hfree : (trie s.paths).Unextended := by
    intro q r hq hr
    obtain ⟨p, hp, rfl⟩ := (hhas q).mp hq
    obtain ⟨p', hp', heq⟩ := (hhas _).mp hr
    have hsame := hU.eq_of_elements (hs p hp) (hs p' hp') heq.symm
    rw [← hsame] at heq
    exact append_right_eq_self.mp heq
  rw [hwrite, OwnedPaths.from_fields_v1, collect_paths, isEmpty_nil, Bool.not_true,
    Bool.and_false, if_neg Bool.false_ne_true, mem_collect_fields hproper hfree]
  constructor
  · intro h
    obtain ⟨segs, _, hsegs, rfl⟩ := h.resolve_left (OwnedPaths.not_mem_empty p)
    obtain ⟨p', hp', heq⟩ := (hhas _).mp hsegs
    have hsplit : segs = split_pointer_segments p' :=
      map_injective_iff.mpr element_injective heq
    rw [nil_append, hsplit, hU.join_split p' (hs p' hp')]
    exact hp'
  · intro hp
    refine .inr ⟨split_pointer_segments p, hU.nonempty p (hs p hp), (hhas _).mpr ⟨p, hp, rfl⟩, ?_⟩
    rw [nil_append, hU.join_split p (hs p hp)]

end Separated

/-! ### The pointers of a schema -/

/-- What follows a group's pointer prefix, for one of the prefixes that are tried. -/
def keyed_segments (path pre : String) : Option (List String) :=
  match (Text.strip_prefix path pre).bind fun rest => Text.strip_prefix rest "/" with
  | some key => if key.isEmpty then none else some (Text.split pre '/' ++ [key])
  | none => none

theorem keyed_segments_self (pre : String) (hkey : key ≠ "") :
    keyed_segments (pre ++ "/" ++ key) pre = some (Text.split pre '/' ++ [key]) := by
  have hpre : Text.strip_prefix (pre ++ "/" ++ key) pre = some ("/" ++ key) :=
    Text.strip_prefix_eq_some.mpr (String.append_assoc ..)
  have hslash : Text.strip_prefix ("/" ++ key) "/" = some key := Text.strip_prefix_eq_some.mpr rfl
  have hne : key.isEmpty = false := by simpa using hkey
  rw [keyed_segments, hpre, Option.bind_some, hslash]
  simp [hne]

theorem findSome?_of_only {α β : Type} [DecidableEq α] {f : α → Option β} {l : List α} {a : α} {b : β}
    (ha : a ∈ l) (hfa : f a = some b) (hother : ∀ x ∈ l, x ≠ a → f x = none) :
    l.findSome? f = some b := by
  induction l with
  | nil => nomatch ha
  | cons x rest ih =>
    rw [findSome?_cons]
    by_cases hx : x = a
    · rw [hx, hfa]
    · rw [hother x (.head _) hx]
      have hrest : a ∈ rest := (mem_cons.mp ha).resolve_left (Ne.symm hx)
      exact ih hrest fun y hy => hother y (.tail _ hy)

theorem split_pointer (group : LeafGroup) (key : String) :
    split_pointer_segments (group.pointer key) = group.path ++ [key] := by
  by_cases hkey : key = ""
  · -- an empty key is no key for the prefixes, but the plain split finds it
    subst hkey
    cases group <;> decide
  · have hpath : Text.split group.pointer_prefix '/' = group.path := by
      cases group <;> decide
    have hown : group.pointer_prefix ∈ MAP_GROUP_PREFIXES := by
      cases group <;> decide
    -- the prefixes of the other groups do not fit
    have hapart : ∀ pre ∈ MAP_GROUP_PREFIXES, pre ≠ group.pointer_prefix →
        ¬ pre.toList <+: (group.pointer_prefix ++ "/").toList ∧
          ¬ (group.pointer_prefix ++ "/").toList <+: pre.toList := by
      cases group <;> decide
    have hfind : MAP_GROUP_PREFIXES.findSome? (keyed_segments (group.pointer key)) =
        some (group.path ++ [key]) := by
      apply findSome?_of_only hown
      · rw [LeafGroup.pointer, keyed_segments_self _ hkey, hpath]
      · intro pre hpre hne
        obtain ⟨h, h'⟩ := hapart pre hpre hne
        rw [keyed_segments, LeafGroup.pointer, Text.strip_prefix_append_of_not key h h']
        rfl
    show (MAP_GROUP_PREFIXES.findSome? (keyed_segments (group.pointer key))).getD _ = _
    rw [hfind, Option.getD_some]

theorem join_path (group : LeafGroup) (key : String) :
    join (group.path ++ [key]) = group.pointer key := by
  have hne : group.path ≠ [] := by cases group <;> decide
  have hprefix : "/".intercalate group.path = group.pointer_prefix := by cases group <;> decide
  rw [join, String.intercalate_append_of_ne_nil hne (cons_ne_nil _ _),
    String.intercalate_singleton, hprefix, LeafGroup.pointer]

namespace ResourceLeafSchema

def pointers (schema : ResourceLeafSchema) : Set String :=
  {p | (∃ group ∈ schema.string_map_groups, ∃ key, p = group.pointer key) ∨
    p ∈ schema.atomic_leaves}

/-- The scalar leaves are plain names, other than those the maps are under. -/
def Plain (schema : ResourceLeafSchema) : Prop :=
  ∀ leaf ∈ schema.atomic_leaves, split_pointer_segments leaf = [leaf] ∧ join [leaf] = leaf ∧
    leaf ∉ ["data", "binaryData", "stringData", "metadata"]

instance (schema : ResourceLeafSchema) : Decidable schema.Plain := by
  unfold Plain
  infer_instance

theorem plain_configmap : CONFIGMAP_SCHEMA.Plain := by decide

theorem plain_secret : SECRET_SCHEMA.Plain := by decide

end ResourceLeafSchema

theorem LeafGroup.head_path (group : LeafGroup) :
    ∃ name rest, group.path = name :: rest ∧ name ∈ ["data", "binaryData", "stringData", "metadata"] := by
  cases group <;> exact ⟨_, _, rfl, by decide⟩

theorem LeafGroup.path_apart (group group' : LeafGroup) (key key' : String)
    (h : group.path ++ [key] <+: group'.path ++ [key']) : group = group' ∧ key = key' := by
  cases group <;> cases group' <;> simp_all [path]

theorem ResourceLeafSchema.Plain.separated {schema : ResourceLeafSchema} (h : schema.Plain) :
    Separated schema.pointers where
  nonempty := by
    intro p hp
    rcases hp with ⟨group, _, key, rfl⟩ | hp
    · rw [split_pointer]
      simp
    · rw [(h p hp).1]
      exact cons_ne_nil _ _
  join_split := by
    intro p hp
    rcases hp with ⟨group, _, key, rfl⟩ | hp
    · rw [split_pointer, join_path]
    · rw [(h p hp).1, (h p hp).2.1]
  apart := by
    intro p hp q hq hpre
    rcases hp with ⟨group, _, key, rfl⟩ | hp <;> rcases hq with ⟨group', _, key', rfl⟩ | hq
    · rw [split_pointer, split_pointer] at hpre
      obtain ⟨rfl, rfl⟩ := LeafGroup.path_apart group group' key key' hpre
      rfl
    · rw [split_pointer, (h q hq).1] at hpre
      obtain ⟨name, rest, hpath, hname⟩ := group.head_path
      rw [hpath] at hpre
      exact absurd ((cons_prefix_cons.mp hpre).1 ▸ hname) (h q hq).2.2
    · rw [split_pointer, (h p hp).1] at hpre
      obtain ⟨name, rest, hpath, hname⟩ := group'.head_path
      rw [hpath] at hpre
      exact absurd ((cons_prefix_cons.mp hpre).1 ▸ hname) (h p hp).2.2
    · rw [(h p hp).1, (h q hq).1] at hpre
      exact (cons_prefix_cons.mp hpre).1

theorem ResourceLeafSchema.Plain.leaf_ne_pointer {schema : ResourceLeafSchema} (h : schema.Plain)
    {leaf : String} (hleaf : leaf ∈ schema.atomic_leaves) (group : LeafGroup) :
    leaf ≠ group.pointer key := by
  rintro rfl
  have hsplit := (h _ hleaf).1
  obtain ⟨name, rest, hpath, _⟩ := group.head_path
  rw [split_pointer, hpath] at hsplit
  simpa using congrArg length hsplit

theorem LeafGroup.pointer_injective {group group' : LeafGroup} {key' : String}
    (h : group.pointer key = group'.pointer key') : group = group' ∧ key = key' := by
  have hsplit : group.path ++ [key] = group'.path ++ [key'] := by
    rw [← split_pointer, ← split_pointer, h]
  exact LeafGroup.path_apart group group' key key' ⟨[], by rw [append_nil, hsplit]⟩

end Ssa
