import Rusternetes.Authz.Grant

/-! # The Policy Comparator

    `covers` decides whether the rules a user holds cover the rules they want to
    grant: the granted rules are broken into atoms of one verb, one group, one
    resource and at most one name (or one verb and one URL), and each atom has to
    be covered by one held rule.

    The comparison is by what is listed, while `rule_allows` reads an absent list
    as everything. A request that a covered rule allows is allowed by a held rule,
    unless it is reached through an absent list, which has no atoms, or the held
    rule that covers the atom is itself not read to reach it (`misses`).
-/

open Common Framework.Text List

namespace Authz

/-! ### The comparison -/

namespace PolicyRule

def groups (rule : PolicyRule) : List String := rule.api_groups.getD []

/-- `resources`. -/
def resource_list (rule : PolicyRule) : List String := rule.resources.getD []

/-- `resource_names`. -/
def names (rule : PolicyRule) : List String := rule.resource_names.getD []

/-- `non_resource_urls`. -/
def urls (rule : PolicyRule) : List String := rule.non_resource_urls.getD []

end PolicyRule

def resource_atom (verb group resource : String) (names : Option (List String)) : PolicyRule where
  verbs := [verb]
  api_groups := some [group]
  resources := some [resource]
  resource_names := names
  non_resource_urls := none

def url_atom (verb url : String) : PolicyRule where
  verbs := [verb]
  api_groups := none
  resources := none
  resource_names := none
  non_resource_urls := some [url]

def breakdown_rule (rule : PolicyRule) : List PolicyRule :=
  (rule.groups.flatMap fun group =>
    rule.resource_list.flatMap fun resource =>
      rule.verbs.flatMap fun verb =>
        if rule.names ≠ [] then
          rule.names.map fun name => resource_atom verb group resource (some [name])
        else [resource_atom verb group resource none]) ++
  rule.urls.flatMap fun url => rule.verbs.map fun verb => url_atom verb url

def has (set : List String) (ele : String) : Bool := set.any (· == ele)

def has_all (set contains : List String) : Bool := contains.all fun ele => has set ele

/-- The loop of `resource_covers_all`. -/
def resource_covers_loop (set_resources : List String) : List String → Bool
  | [] => true
  | path :: rest =>
    if has set_resources path then resource_covers_loop set_resources rest
    else
      match split_once path '/' with
      | none => false
      | some (_, subresource) =>
        if has set_resources ("*/" ++ subresource) then resource_covers_loop set_resources rest
        else false

def resource_covers_all (set_resources covers_resources : List String) : Bool :=
  if has set_resources "*" || has_all set_resources covers_resources then true
  else resource_covers_loop set_resources covers_resources

def non_resource_url_covers (owner_path sub_path : String) : Bool :=
  if owner_path = sub_path then true
  else ends_with owner_path '*' && starts_with sub_path (trim_end_matches owner_path '*')

def non_resource_urls_covers_all (set covers : List String) : Bool :=
  covers.all fun path => set.any fun owner => non_resource_url_covers owner path

def rule_covers (owner_rule sub_rule : PolicyRule) : Bool :=
  let verb_matches := has owner_rule.verbs "*" || has_all owner_rule.verbs sub_rule.verbs
  let group_matches := has owner_rule.groups "*" || has_all owner_rule.groups sub_rule.groups
  let resource_matches := resource_covers_all owner_rule.resource_list sub_rule.resource_list
  let non_resource_url_matches := non_resource_urls_covers_all owner_rule.urls sub_rule.urls
  let resource_name_matches :=
    if sub_rule.names.isEmpty then owner_rule.names.isEmpty
    else owner_rule.names.isEmpty || has_all owner_rule.names sub_rule.names
  verb_matches && group_matches && resource_matches && resource_name_matches &&
    non_resource_url_matches

/-- `covers`: whether everything is covered, and the atoms that are not. -/
def covers (owner_rules servant_rules : List PolicyRule) : Bool × List PolicyRule :=
  let uncovered := (servant_rules.flatMap breakdown_rule).filter fun subrule =>
    !owner_rules.any fun owner => rule_covers owner subrule
  (uncovered.isEmpty, uncovered)

/-! ### What it decides -/

@[simp] theorem has_iff {set : List String} {ele : String} : has set ele = true ↔ ele ∈ set := by
  simp [has]

theorem has_all_singleton {set : List String} {ele : String} : has_all set [ele] = has set ele := by
  simp [has_all]

theorem covers_iff {owner_rules servant_rules : List PolicyRule} :
    (covers owner_rules servant_rules).1 = true ↔
      ∀ rule ∈ servant_rules, ∀ atom ∈ breakdown_rule rule,
        ∃ owner ∈ owner_rules, rule_covers owner atom = true := by
  simp only [covers, List.isEmpty_iff, List.filter_eq_nil_iff, List.mem_flatMap, Bool.not_eq_true',
    Bool.not_eq_false, List.any_eq_true]
  constructor
  · intro hall rule hrule atom hatom
    exact hall atom ⟨rule, hrule, hatom⟩
  · rintro hall atom ⟨rule, hrule, hatom⟩
    exact hall rule hrule atom hatom

/-- A resource of an atom is covered as it is listed, by `*`, or by its
    subresource on every resource. -/
theorem resource_covers_singleton {set_resources : List String} {path : String} :
    resource_covers_all set_resources [path] = true ↔
      "*" ∈ set_resources ∨ path ∈ set_resources ∨
        ∃ before after, split_once path '/' = some (before, after) ∧
          "*/" ++ after ∈ set_resources := by
  unfold resource_covers_all
  rw [has_all_singleton]
  by_cases hstar : "*" ∈ set_resources
  · simp [hstar]
  by_cases hpath : path ∈ set_resources
  · simp [hpath]
  · have hcond : (has set_resources "*" || has set_resources path) = false := by
      rw [Bool.or_eq_false_iff]
      exact ⟨Bool.eq_false_iff.mpr (mt has_iff.mp hstar),
        Bool.eq_false_iff.mpr (mt has_iff.mp hpath)⟩
    rw [hcond]
    simp only [Bool.false_eq_true, if_false, hstar, hpath, false_or]
    unfold resource_covers_loop
    rw [if_neg (mt has_iff.mp hpath)]
    cases split_once path '/' with
    | none => simp
    | some parts =>
      obtain ⟨before, after⟩ := parts
      simp [resource_covers_loop]

theorem rule_covers_resource_atom {owner : PolicyRule} {verb group resource : String}
    {names : Option (List String)}
    (h : rule_covers owner (resource_atom verb group resource names) = true) :
    lists owner.verbs verb ∧ lists owner.groups group ∧
      resource_covers_all owner.resource_list [resource] = true ∧
      (owner.names = [] ∨ (names.getD [] ≠ [] ∧ ∀ name ∈ names.getD [], name ∈ owner.names)) := by
  simp only [rule_covers, Bool.and_eq_true] at h
  obtain ⟨⟨⟨⟨hverb, hgroup⟩, hresource⟩, hname⟩, _⟩ := h
  refine ⟨?_, ?_, hresource, ?_⟩
  · simp only [resource_atom, has_all_singleton, Bool.or_eq_true, has_iff] at hverb
    exact hverb.symm
  · simp only [resource_atom, PolicyRule.groups, Option.getD_some, has_all_singleton,
      Bool.or_eq_true, has_iff] at hgroup
    exact hgroup.symm
  · rw [show (resource_atom verb group resource names).names = names.getD [] from rfl] at hname
    by_cases hnames : names.getD [] = []
    · rw [if_pos (List.isEmpty_iff.mpr hnames)] at hname
      exact .inl (List.isEmpty_iff.mp hname)
    · rw [if_neg (mt List.isEmpty_iff.mp hnames)] at hname
      simp only [Bool.or_eq_true, List.isEmpty_iff, has_all, List.all_eq_true, has_iff] at hname
      exact hname.imp_right fun hall => ⟨hnames, hall⟩

theorem rule_covers_url_atom {owner : PolicyRule} {verb url : String}
    (h : rule_covers owner (url_atom verb url) = true) :
    lists owner.verbs verb ∧ ∃ owned ∈ owner.urls, non_resource_url_covers owned url = true := by
  simp only [rule_covers, Bool.and_eq_true] at h
  obtain ⟨⟨⟨⟨hverb, _⟩, _⟩, _⟩, hurl⟩ := h
  refine ⟨?_, ?_⟩
  · simp only [url_atom, has_all_singleton, Bool.or_eq_true, has_iff] at hverb
    exact hverb.symm
  · simpa [url_atom, PolicyRule.urls, non_resource_urls_covers_all] using hurl

/-! ### Atoms of a rule that allows a request -/

theorem resource_atom_mem {rule : PolicyRule} {verb group resource : String}
    (hverb : verb ∈ rule.verbs) (hgroup : group ∈ rule.groups)
    (hresource : resource ∈ rule.resource_list) :
    (rule.names = [] → resource_atom verb group resource none ∈ breakdown_rule rule) ∧
      ∀ name ∈ rule.names,
        resource_atom verb group resource (some [name]) ∈ breakdown_rule rule := by
  have hmem : ∀ atom, atom ∈ (if rule.names ≠ [] then
      rule.names.map fun name => resource_atom verb group resource (some [name])
      else [resource_atom verb group resource none]) → atom ∈ breakdown_rule rule := by
    intro atom hatom
    refine mem_append_left _ (mem_flatMap.mpr ⟨group, hgroup, ?_⟩)
    exact mem_flatMap.mpr ⟨resource, hresource, mem_flatMap.mpr ⟨verb, hverb, hatom⟩⟩
  constructor
  · intro hnames
    refine hmem _ ?_
    rw [if_neg (not_not.mpr hnames)]
    exact mem_singleton_self _
  · intro name hname
    refine hmem _ ?_
    rw [if_pos (ne_nil_of_mem hname)]
    exact mem_map_of_mem hname

/-- What is listed is listed by an item of its own or by `*`; whoever lists that
    item lists it too. -/
theorem exists_item {items : List String} {x : String} (h : lists items x) :
    ∃ item ∈ items, ∀ others : List String, lists others item → lists others x := by
  rcases h with hx | hstar
  · exact ⟨x, hx, fun _ h => h⟩
  · refine ⟨"*", hstar, fun others h => ?_⟩
    exact .inr (h.elim id id)

/-- A held rule is not read to reach the request although `rule_covers` takes it
    to: an empty list of names and a request with a name; a requested resource
    with a slash in it; a URL that ends in `*` and is taken at its letters. -/
def misses (rule : PolicyRule) (attrs : RequestAttributes) : Prop :=
  if attrs.is_non_resource_request then
    (∃ url ∈ rule.urls, ends_with url '*' = true) ∧
      ∀ path, attrs.path = some path → ∀ url ∈ rule.urls, ¬ url_open url path
  else
    (rule.resource_names = some [] ∧ attrs.name ≠ none) ∨
      ('/' ∈ attrs.resource.toList ∧ ¬ lists_resource rule.resource_list attrs)

def leaves_out (rule : PolicyRule) : Prop := rule.api_groups = none ∨ rule.resources = none

/-! ### Covered requests -/

section Covered

variable {attrs : RequestAttributes} {rule : PolicyRule}

/-- A listed resource is listed by an item; whoever covers that item lists it too,
    if the requested resource has no slash in it. -/
theorem exists_resource_item {items : List String} (h : lists_resource items attrs) :
    ∃ item ∈ items, ∀ others : List String, resource_covers_all others [item] = true →
      lists_resource others attrs ∨ '/' ∈ attrs.resource.toList := by
  rcases h with hstar | hcombined | ⟨s, hs, hsub⟩
  · refine ⟨"*", hstar, fun others hcov => ?_⟩
    rcases resource_covers_singleton.mp hcov with h | h | ⟨_, _, hsplit, _⟩
    · exact .inl (.inl h)
    · exact .inl (.inl h)
    · cases hsplit
  · refine ⟨attrs.combined, hcombined, fun others hcov => ?_⟩
    rcases resource_covers_singleton.mp hcov with h | h | ⟨before, after, hsplit, hmem⟩
    · exact .inl (.inl h)
    · exact .inl (.inr (.inl h))
    · -- `resource/sub` splits at its slash unless there is an earlier one
      by_cases hslash : '/' ∈ attrs.resource.toList
      · exact .inr hslash
      refine .inl (.inr (.inr ?_))
      unfold RequestAttributes.combined at hsplit
      cases hs : attrs.sub with
      | none =>
        rw [hs] at hsplit
        have heq : attrs.resource = before ++ String.ofList ['/'] ++ after :=
          eq_of_split_once hsplit
        exact absurd (by rw [heq]; simp) hslash
      | some s =>
        rw [hs] at hsplit
        have hparts := split_once_append (b := s) hslash
        rw [hparts] at hsplit
        obtain ⟨_, rfl⟩ := Prod.mk.inj (Option.some.inj hsplit)
        exact ⟨s, rfl, hmem⟩
  · refine ⟨"*/" ++ s, hsub, fun others hcov => ?_⟩
    rcases resource_covers_singleton.mp hcov with h | h | ⟨before, after, hsplit, hmem⟩
    · exact .inl (.inl h)
    · exact .inl (.inr (.inr ⟨s, hs, h⟩))
    · have hparts : split_once ("*" ++ String.ofList ['/'] ++ s) '/' = some ("*", s) :=
        split_once_append (by decide)
      rw [show "*" ++ String.ofList ['/'] = "*/" by decide, hsplit] at hparts
      obtain ⟨_, rfl⟩ := Prod.mk.inj (Option.some.inj hparts)
      exact .inl (.inr (.inr ⟨after, hs, hmem⟩))

/-- A rule with no names, or with one that stands for the requested name, passes it, unless its
    list of names is there and empty. -/
theorem name_open_of {owner : PolicyRule}
    (h : owner.names = [] ∨ ∀ name, attrs.name = some name → lists owner.names name) :
    name_open owner attrs ∨ (owner.resource_names = some [] ∧ attrs.name ≠ none) := by
  by_cases hempty : owner.resource_names = some [] ∧ attrs.name ≠ none
  · exact .inr hempty
  · refine .inl fun name names hreq hown => ?_
    have hne : names ≠ [] := by
      rintro rfl
      exact hempty ⟨hown, by simp [hreq]⟩
    unfold PolicyRule.names at h
    rw [hown] at h
    exact h.resolve_left hne name hreq

/-- A rule that passes the request's name has an atom, with a name or without;
    whoever covers that atom passes the name too, or has an empty list. -/
theorem exists_name_atom (verb group resource : String) (hverb : verb ∈ rule.verbs)
    (hgroup : group ∈ rule.groups) (hresource : resource ∈ rule.resource_list)
    (hname : name_open rule attrs) :
    ∃ names, resource_atom verb group resource names ∈ breakdown_rule rule ∧
      ∀ owner : PolicyRule,
        (owner.names = [] ∨
          (names.getD [] ≠ [] ∧ ∀ name ∈ names.getD [], name ∈ owner.names)) →
        name_open owner attrs ∨ (owner.resource_names = some [] ∧ attrs.name ≠ none) := by
  obtain ⟨hempty, hsome⟩ := resource_atom_mem hverb hgroup hresource
  by_cases hnames : rule.names = []
  · refine ⟨none, hempty hnames, fun owner hcov => name_open_of (.inl ?_)⟩
    exact hcov.resolve_right fun h => h.1 rfl
  · -- the name to look at: the requested one, or `*`, or any
    obtain ⟨n, hn, hstands⟩ : ∃ n ∈ rule.names,
        ∀ name, attrs.name = some name → n = name ∨ n = "*" := by
      cases hreq : attrs.name with
      | none =>
        obtain ⟨n, hn⟩ := exists_mem_of_ne_nil _ hnames
        exact ⟨n, hn, nofun⟩
      | some name =>
        unfold PolicyRule.names at hnames ⊢
        cases hown : rule.resource_names with
        | none => rw [hown] at hnames; exact absurd rfl hnames
        | some names =>
          rcases hname name names hreq hown with hmem | hmem
          · exact ⟨name, hmem, fun name' h => .inl (Option.some.inj h)⟩
          · exact ⟨"*", hmem, fun name' h => .inr rfl⟩
    refine ⟨some [n], hsome n hn, fun owner hcov => name_open_of (hcov.imp_right ?_)⟩
    intro ⟨_, hall⟩ name hreq
    have hmem := hall n (mem_singleton_self n)
    rcases hstands name hreq with rfl | rfl
    · exact .inl hmem
    · exact .inr hmem

/-- A request that is allowed by a covered rule with both lists is allowed by a
    held rule, or missed by one. -/
theorem covered_resource {held : List PolicyRule}
    (hcov : ∀ atom ∈ breakdown_rule rule, ∃ owner ∈ held, rule_covers owner atom = true)
    (hreq : attrs.is_non_resource_request = false) (hlists : ¬ leaves_out rule)
    (hallow : rule_allows rule attrs = true) :
    ∃ owner ∈ held, rule_allows owner attrs = true ∨ misses owner attrs := by
  rw [rule_allows_iff, hreq] at hallow
  obtain ⟨hverb, hgroup, hresource, hname⟩ := hallow
  unfold leaves_out at hlists
  push Not at hlists
  have hg := (group_open_iff.mp hgroup).resolve_left hlists.1
  have hr := (resource_open_iff.mp hresource).resolve_left hlists.2
  obtain ⟨verb, hv, hverbs⟩ := exists_item hverb
  obtain ⟨group, hgr, hgroups⟩ := exists_item hg
  obtain ⟨resource, hrs, hresources⟩ := exists_resource_item hr
  obtain ⟨names, hatom, hnames⟩ := exists_name_atom verb group resource hv hgr hrs hname
  obtain ⟨owner, howner, hcovers⟩ := hcov _ hatom
  obtain ⟨hov, hog, hor, hon⟩ := rule_covers_resource_atom hcovers
  refine ⟨owner, howner, ?_⟩
  unfold misses
  rw [rule_allows_iff, hreq]
  rcases hnames owner hon with hopen | hempty
  · by_cases hlisted : lists_resource owner.resource_list attrs
    · exact .inl ⟨hverbs _ hov, group_open_iff.mpr (.inr (hgroups _ hog)),
        resource_open_iff.mpr (.inr hlisted), hopen⟩
    · exact .inr (.inr ⟨(hresources _ hor).resolve_left hlisted, hlisted⟩)
  · exact .inr (.inl hempty)

theorem covered_url {held : List PolicyRule}
    (hcov : ∀ atom ∈ breakdown_rule rule, ∃ owner ∈ held, rule_covers owner atom = true)
    (hreq : attrs.is_non_resource_request = true) (hallow : rule_allows rule attrs = true) :
    ∃ owner ∈ held, rule_allows owner attrs = true ∨ misses owner attrs := by
  rw [rule_allows_iff, hreq] at hallow
  obtain ⟨hverb, path, hpath, url, hurl, hopen⟩ := hallow
  obtain ⟨verb, hv, hverbs⟩ := exists_item hverb
  obtain ⟨owner, howner, hcovers⟩ := hcov _
    (mem_append_right _ (mem_flatMap.mpr ⟨url, hurl, mem_map_of_mem hv⟩))
  obtain ⟨hov, owned, howned, hou⟩ := rule_covers_url_atom hcovers
  refine ⟨owner, howner, ?_⟩
  unfold misses
  rw [rule_allows_iff, hreq]
  by_cases hsome : ∃ url ∈ owner.urls, url_open url path
  · exact .inl ⟨hverbs _ hov, path, hpath, hsome⟩
  · -- none of the owner's URLs is read to reach the path, so it is covered by a `*`
    push Not at hsome
    refine .inr ⟨⟨owned, howned, ?_⟩, ?_⟩
    · unfold non_resource_url_covers at hou
      split_ifs at hou with heq
      · subst heq
        exact absurd hopen (hsome owned howned)
      · exact (Bool.and_eq_true_iff.mp hou).1
    · intro path' hpath' url' hurl'
      cases hpath.symm.trans hpath'
      exact hsome url' hurl'

end Covered

/-- A request that covered rules allow is reached through an absent list, allowed
    by a held rule, or missed by one. -/
theorem covers_sound {held rules : List PolicyRule} (hcov : (covers held rules).1 = true)
    {attrs : RequestAttributes} (hallow : check_policy_rules rules attrs = true) :
    (∃ rule ∈ rules, rule_allows rule attrs = true ∧
      attrs.is_non_resource_request = false ∧ leaves_out rule) ∨
    check_policy_rules held attrs = true ∨ ∃ owner ∈ held, misses owner attrs := by
  obtain ⟨rule, hrule, hrallow⟩ := any_eq_true.mp hallow
  have hatoms := covers_iff.mp hcov rule hrule
  have hsplit : (∃ owner ∈ held, rule_allows owner attrs = true ∨ misses owner attrs) →
      check_policy_rules held attrs = true ∨ ∃ owner ∈ held, misses owner attrs := by
    rintro ⟨owner, howner, hok | hmiss⟩
    · exact .inl (any_eq_true.mpr ⟨owner, howner, hok⟩)
    · exact .inr ⟨owner, howner, hmiss⟩
  cases hreq : attrs.is_non_resource_request with
  | true => exact .inr (hsplit (covered_url hatoms hreq hrallow))
  | false =>
    by_cases hout : leaves_out rule
    · exact .inl ⟨rule, hrule, hrallow, rfl, hout⟩
    · exact .inr (hsplit (covered_resource hatoms hreq hout hrallow))

end Authz
