import Rusternetes.Authz.Rbac

/-! # The RBAC Authorizer: What a Rule Grants

    What a rule is written to grant (`grants`), beside what `rule_allows` reads
    into it. The two part where a list is absent or empty and where a URL ends
    in `*`. Each rule is read alike, wider or narrower than it is written, and
    the authorizer answers as written exactly when what is read wider and what
    is read narrower does not show in the answer.
-/

open Common Framework.Text

namespace Authz

/-! ### What a rule is written to grant -/

/-- `x` or `*` is listed. -/
def lists (items : List String) (x : String) : Prop := x ∈ items ∨ "*" ∈ items

/-- The requested resource is listed: as it is, as `*`, or its subresource on
    every resource. -/
def lists_resource (items : List String) (attrs : RequestAttributes) : Prop :=
  "*" ∈ items ∨ attrs.combined ∈ items ∨ ∃ s, attrs.sub = some s ∧ "*/" ++ s ∈ items

/-- A URL is the path, or ends in `*` and the path begins with the rest. -/
def url_grants (url path : String) : Prop :=
  url = path ∨ ∃ stem, strip_suffix url "*" = some stem ∧ starts_with path stem = true

def grants (rule : PolicyRule) (attrs : RequestAttributes) : Prop :=
  lists rule.verbs attrs.verb ∧
    if attrs.is_non_resource_request then
      ∃ path, attrs.path = some path ∧ ∃ url ∈ rule.non_resource_urls.getD [], url_grants url path
    else
      lists (rule.api_groups.getD []) attrs.api_group ∧
      lists_resource (rule.resources.getD []) attrs ∧
      (rule.resource_names.getD [] = [] ∨
        ∃ name, attrs.name = some name ∧ name ∈ rule.resource_names.getD [])

/-! ### What `rule_allows` reads -/

def group_open (rule : PolicyRule) (attrs : RequestAttributes) : Prop :=
  ∀ groups, rule.api_groups = some groups → lists groups attrs.api_group

def resource_open (rule : PolicyRule) (attrs : RequestAttributes) : Prop :=
  ∀ resources, rule.resources = some resources → lists_resource resources attrs

/-- A request without a name passes, and `*` stands for every name. -/
def name_open (rule : PolicyRule) (attrs : RequestAttributes) : Prop :=
  ∀ name names, attrs.name = some name → rule.resource_names = some names → lists names name

def url_open (url path : String) : Prop :=
  url = "*" ∨ url = path ∨ starts_with path url = true

theorem contains_iff_lists {items : List String} {x : String} :
    (items.contains x || items.contains "*") = true ↔ lists items x := by
  simp [lists]

theorem resource_matched_iff {attrs : RequestAttributes} {resources : List String} :
    resource_matched attrs resources = true ↔ lists_resource resources attrs := by
  unfold resource_matched lists_resource
  rw [List.any_eq_true]
  constructor
  · rintro ⟨r, hr, hmatch⟩
    simp only [Bool.or_eq_true, beq_iff_eq, Option.any_eq_true] at hmatch
    rcases hmatch with (rfl | rfl) | ⟨s, hs, rfl⟩
    · exact .inl hr
    · exact .inr (.inl hr)
    · exact .inr (.inr ⟨s, hs, hr⟩)
  · rintro (hr | hr | ⟨s, hs, hr⟩)
    · exact ⟨_, hr, by simp⟩
    · exact ⟨_, hr, by simp⟩
    · exact ⟨_, hr, by simp [hs]⟩

theorem url_matched_iff {path : String} {urls : List String} :
    url_matched path urls = true ↔ ∃ url ∈ urls, url_open url path := by
  unfold url_matched url_open
  rw [List.any_eq_true]
  refine exists_congr fun url => and_congr_right fun _ => ?_
  simp [or_assoc]

/-- `rule_allows`, read off. -/
theorem rule_allows_iff {rule : PolicyRule} {attrs : RequestAttributes} :
    rule_allows rule attrs = true ↔
      lists rule.verbs attrs.verb ∧
        if attrs.is_non_resource_request then
          ∃ path, attrs.path = some path ∧
            ∃ url ∈ rule.non_resource_urls.getD [], url_open url path
        else group_open rule attrs ∧ resource_open rule attrs ∧ name_open rule attrs := by
  unfold rule_allows
  by_cases hverb : lists rule.verbs attrs.verb
  · have hcond : (!rule.verbs.contains attrs.verb && !rule.verbs.contains "*") = false := by
      rw [← Bool.not_or, contains_iff_lists.mpr hverb]
      rfl
    rw [hcond]
    simp only [Bool.false_eq_true, if_false, hverb, true_and]
    cases attrs.is_non_resource_request with
    | true =>
      cases rule.non_resource_urls with
      | none => simp
      | some urls =>
        cases attrs.path with
        | none => simp
        | some path => simp [url_matched_iff]
    | false =>
      simp only [Bool.false_eq_true, if_false]
      -- the three tests, each against its reading
      have hgroup : (rule.api_groups.any fun groups =>
          !groups.contains attrs.api_group && !groups.contains "*") = false ↔
          group_open rule attrs := by
        unfold group_open
        cases rule.api_groups with
        | none => simp
        | some => simp [lists, or_iff_not_imp_left]
      have hresource : (rule.resources.any fun resources => !resource_matched attrs resources) =
          false ↔ resource_open rule attrs := by
        unfold resource_open
        cases rule.resources with
        | none => simp
        | some => simp [resource_matched_iff]
      have hname : name_matched attrs.name rule.resource_names = true ↔ name_open rule attrs := by
        unfold name_open
        cases attrs.name with
        | none => simp [name_matched]
        | some name =>
          cases rule.resource_names with
          | none => simp [name_matched]
          | some names => simp [name_matched, lists]
      rw [← hgroup, ← hresource, ← hname]
      split_ifs with hg hr
      · simp only [hg, Bool.true_eq_false, false_and]
      · simp [hr]
      · simp only [hg, hr, true_and]
  · have hcond : (!rule.verbs.contains attrs.verb && !rule.verbs.contains "*") = true := by
      rw [← Bool.not_or, Bool.not_eq_true']
      exact Bool.eq_false_iff.mpr (mt contains_iff_lists.mp hverb)
    rw [hcond]
    simp [hverb]

/-! ### Three ways to be read -/

def reads_alike (rule : PolicyRule) (attrs : RequestAttributes) : Prop :=
  lists rule.verbs attrs.verb ∧
    if attrs.is_non_resource_request then
      ∃ path, attrs.path = some path ∧
        (∃ url ∈ rule.non_resource_urls.getD [], url_open url path) ∧
        ∃ url ∈ rule.non_resource_urls.getD [], url_grants url path
    else
      lists (rule.api_groups.getD []) attrs.api_group ∧
      lists_resource (rule.resources.getD []) attrs ∧
      (rule.resource_names = none ∨ (rule.resource_names = some [] ∧ attrs.name = none) ∨
        ∃ name, attrs.name = some name ∧ name ∈ rule.resource_names.getD [])

/-- Read to grant a request it is not written to grant: no list of groups or
    resources; names the request does not give, or gives another than, reached
    as no name or by `*`; a URL without `*` that the path goes on from. -/
def reads_wider (rule : PolicyRule) (attrs : RequestAttributes) : Prop :=
  lists rule.verbs attrs.verb ∧
    if attrs.is_non_resource_request then
      ∃ path, attrs.path = some path ∧
        (∃ url ∈ rule.non_resource_urls.getD [], url ≠ path ∧ starts_with path url = true) ∧
        ∀ url ∈ rule.non_resource_urls.getD [], ¬ url_grants url path
    else
      group_open rule attrs ∧ resource_open rule attrs ∧ name_open rule attrs ∧
      (rule.api_groups = none ∨ rule.resources = none ∨
        (rule.resource_names.getD [] ≠ [] ∧
          ∀ name, attrs.name = some name → name ∉ rule.resource_names.getD []))

/-- Not read to grant a request it is written to grant: an empty list of names
    and a request with a name; a URL that ends in `*` and is taken at its
    letters. -/
def reads_narrower (rule : PolicyRule) (attrs : RequestAttributes) : Prop :=
  lists rule.verbs attrs.verb ∧
    if attrs.is_non_resource_request then
      ∃ path, attrs.path = some path ∧
        (∃ url ∈ rule.non_resource_urls.getD [], ∃ stem, strip_suffix url "*" = some stem ∧
          starts_with path stem = true) ∧
        ∀ url ∈ rule.non_resource_urls.getD [], ¬ url_open url path
    else
      lists (rule.api_groups.getD []) attrs.api_group ∧
      lists_resource (rule.resources.getD []) attrs ∧
      rule.resource_names = some [] ∧ attrs.name ≠ none

section Readings

variable {rule : PolicyRule} {attrs : RequestAttributes}

theorem group_open_iff :
    group_open rule attrs ↔
      rule.api_groups = none ∨ lists (rule.api_groups.getD []) attrs.api_group := by
  unfold group_open
  cases rule.api_groups with
  | none => simp
  | some => simp

theorem resource_open_iff :
    resource_open rule attrs ↔
      rule.resources = none ∨ lists_resource (rule.resources.getD []) attrs := by
  unfold resource_open
  cases rule.resources with
  | none => simp
  | some => simp

/-- A URL that is read to reach the path and not written to do so is a proper
    beginning of it. -/
theorem url_open_cases {url path : String} (h : url_open url path) :
    url_grants url path ∨ (url ≠ path ∧ starts_with path url = true) := by
  by_cases hpath : url = path
  · exact .inl (.inl hpath)
  · rcases h with rfl | heq | hstart
    · -- `*` alone is every path
      refine .inl (.inr ⟨"", by decide, ?_⟩)
      exact starts_with_iff.mpr ⟨path, by simp⟩
    · exact absurd heq hpath
    · exact .inr ⟨hpath, hstart⟩

/-- Of two ways to reach a path, only the first does: some URL reaches it in the rest
    `R` of the first way, and none in the second. -/
theorem reached_only_iff {verb : Prop} {request : Option String} {urls : List String}
    {A B R : String → String → Prop} (hrest : ∀ url path, R url path → A url path)
    (hcases : ∀ url path, A url path → B url path ∨ R url path) :
    (verb ∧ ∃ path, request = some path ∧ (∃ url ∈ urls, R url path) ∧
        ∀ url ∈ urls, ¬ B url path) ↔
      (verb ∧ ∃ path, request = some path ∧ ∃ url ∈ urls, A url path) ∧
        ¬ (verb ∧ ∃ path, request = some path ∧ ∃ url ∈ urls, B url path) := by
  constructor
  · rintro ⟨hverb, path, hpath, ⟨url, hurl, hR⟩, hnone⟩
    refine ⟨⟨hverb, path, hpath, url, hurl, hrest url path hR⟩, ?_⟩
    rintro ⟨_, path', hpath', url', hurl', hB⟩
    cases hpath.symm.trans hpath'
    exact hnone url' hurl' hB
  · rintro ⟨⟨hverb, path, hpath, url, hurl, hA⟩, hnot⟩
    have hnone : ∀ url ∈ urls, ¬ B url path :=
      fun url' hurl' hB => hnot ⟨hverb, path, hpath, url', hurl', hB⟩
    exact ⟨hverb, path, hpath, ⟨url, hurl, (hcases url path hA).resolve_left (hnone url hurl)⟩, hnone⟩

theorem name_alike_iff :
    (rule.resource_names = none ∨ (rule.resource_names = some [] ∧ attrs.name = none) ∨
        ∃ name, attrs.name = some name ∧ name ∈ rule.resource_names.getD []) ↔
      name_open rule attrs ∧ (rule.resource_names.getD [] = [] ∨
        ∃ name, attrs.name = some name ∧ name ∈ rule.resource_names.getD []) := by
  unfold name_open lists
  cases rule.resource_names with
  | none => simp
  | some names =>
    cases attrs.name with
    | none => simp
    | some name => cases names <;> simp +contextual

theorem name_narrower_iff :
    rule.resource_names = some [] ∧ attrs.name ≠ none ↔
      (rule.resource_names.getD [] = [] ∨
        ∃ name, attrs.name = some name ∧ name ∈ rule.resource_names.getD []) ∧
      ¬ name_open rule attrs := by
  unfold name_open lists
  cases rule.resource_names with
  | none => simp
  | some names =>
    cases attrs.name with
    | none => simp
    | some name => cases names <;> simp +contextual [or_imp]

theorem reads_alike_iff :
    reads_alike rule attrs ↔ rule_allows rule attrs = true ∧ grants rule attrs := by
  rw [rule_allows_iff]
  unfold reads_alike grants
  cases attrs.is_non_resource_request with
  | true =>
    constructor
    · rintro ⟨hverb, path, hpath, hopen, hgrant⟩
      exact ⟨⟨hverb, path, hpath, hopen⟩, hverb, path, hpath, hgrant⟩
    · rintro ⟨⟨hverb, path, hpath, hopen⟩, _, path', hpath', hgrant⟩
      cases hpath.symm.trans hpath'
      exact ⟨hverb, path, hpath, hopen, hgrant⟩
  | false =>
    simp only [Bool.false_eq_true, if_false, name_alike_iff]
    constructor
    · rintro ⟨hverb, hgroup, hresource, hopen, hname⟩
      exact ⟨⟨hverb, group_open_iff.mpr (.inr hgroup), resource_open_iff.mpr (.inr hresource), hopen⟩,
        hverb, hgroup, hresource, hname⟩
    · rintro ⟨⟨hverb, _, _, hopen⟩, _, hgroup, hresource, hname⟩
      exact ⟨hverb, hgroup, hresource, hopen, hname⟩

theorem reads_wider_iff :
    reads_wider rule attrs ↔ rule_allows rule attrs = true ∧ ¬ grants rule attrs := by
  rw [rule_allows_iff]
  unfold reads_wider grants
  cases attrs.is_non_resource_request with
  | true =>
    exact reached_only_iff (fun _ _ h => .inr (.inr h.2))
      (fun _ _ => url_open_cases)
  | false =>
    constructor
    · rintro ⟨hverb, hgroup, hresource, hopen, hwide⟩
      refine ⟨⟨hverb, hgroup, hresource, hopen⟩, ?_⟩
      rintro ⟨_, hg, hr, hname⟩
      rcases hwide with hnone | hnone | ⟨hne, hnot⟩
      · rw [hnone] at hg
        simp [lists] at hg
      · rw [hnone] at hr
        simp [lists_resource] at hr
      · rcases hname with hempty | ⟨name, hreq, hmem⟩
        · exact hne hempty
        · exact hnot name hreq hmem
    · rintro ⟨⟨hverb, hgroup, hresource, hopen⟩, hnot⟩
      refine ⟨hverb, hgroup, hresource, hopen, ?_⟩
      rcases group_open_iff.mp hgroup with hnone | hg
      · exact .inl hnone
      rcases resource_open_iff.mp hresource with hnone | hr
      · exact .inr (.inl hnone)
      · -- both lists have the request, so it is the names
        refine .inr (.inr ⟨fun hempty => ?_, fun name hreq hmem => ?_⟩)
        · exact hnot ⟨hverb, hg, hr, .inl hempty⟩
        · exact hnot ⟨hverb, hg, hr, .inr ⟨name, hreq, hmem⟩⟩

theorem reads_narrower_iff :
    reads_narrower rule attrs ↔ grants rule attrs ∧ ¬ rule_allows rule attrs = true := by
  rw [rule_allows_iff]
  unfold reads_narrower grants
  cases attrs.is_non_resource_request with
  | true =>
    exact reached_only_iff (fun _ _ h => .inr h)
      (fun _ _ h => h.imp (fun h => .inr (.inl h)) id)
  | false =>
    simp only [Bool.false_eq_true, if_false, name_narrower_iff]
    constructor
    · rintro ⟨hverb, hgroup, hresource, hname, hclosed⟩
      exact ⟨⟨hverb, hgroup, hresource, hname⟩, fun h => hclosed h.2.2.2⟩
    · rintro ⟨⟨hverb, hgroup, hresource, hname⟩, hnot⟩
      -- groups and resources pass, so it is the names that are not read
      refine ⟨hverb, hgroup, hresource, hname, fun hopen => hnot ⟨hverb, ?_, ?_, hopen⟩⟩
      · exact group_open_iff.mpr (.inr hgroup)
      · exact resource_open_iff.mpr (.inr hresource)

end Readings

/-! ### The authorizer -/

/-- The authorizer allows exactly what the roles are written to grant if and only
    if a rule that applies is read alike, or what is read wider is balanced: rules
    are read wider exactly when rules are read narrower. -/
theorem authorizes_as_written_iff (authorizer : RBACAuthorizer) (attrs : RequestAttributes) :
    (authorizer.authorize attrs = .ok .Allow ↔
      ∃ rule, authorizer.applicable attrs rule ∧ grants rule attrs) ↔
    ((∃ rule, authorizer.applicable attrs rule ∧ reads_alike rule attrs) ∨
      ((∃ rule, authorizer.applicable attrs rule ∧ reads_wider rule attrs) ↔
        ∃ rule, authorizer.applicable attrs rule ∧ reads_narrower rule attrs)) := by
  rw [RBACAuthorizer.authorize_allow_iff]
  -- a rule that is read is read alike or wider, one that is written alike or narrower
  have hread : (∃ rule, authorizer.applicable attrs rule ∧ rule_allows rule attrs = true) ↔
      (∃ rule, authorizer.applicable attrs rule ∧ reads_alike rule attrs) ∨
        ∃ rule, authorizer.applicable attrs rule ∧ reads_wider rule attrs := by
    rw [← exists_or]
    refine exists_congr fun rule => ?_
    rw [← and_or_left, reads_alike_iff, reads_wider_iff, ← and_or_left]
    simp [Classical.em, and_true]
  have hwritten : (∃ rule, authorizer.applicable attrs rule ∧ grants rule attrs) ↔
      (∃ rule, authorizer.applicable attrs rule ∧ reads_alike rule attrs) ∨
        ∃ rule, authorizer.applicable attrs rule ∧ reads_narrower rule attrs := by
    rw [← exists_or]
    refine exists_congr fun rule => ?_
    rw [← and_or_left, reads_alike_iff, reads_narrower_iff,
      and_comm (a := rule_allows rule attrs = true), ← and_or_left]
    simp
  rw [hread, hwritten]
  by_cases halike : ∃ rule, authorizer.applicable attrs rule ∧ reads_alike rule attrs
  · simp [halike]
  · simp [halike]

/-- A rule for health checks: `get` on `/healthz`, and nothing on resources. -/
def healthz_rule : PolicyRule where
  verbs := ["get"]
  api_groups := none
  resources := none
  resource_names := none
  non_resource_urls := some ["/healthz"]

/-- The ClusterRole `health`, which has the rule for health checks. -/
def health_role : ClusterRole where
  type_meta := ⟨"ClusterRole", "rbac.authorization.k8s.io/v1"⟩
  metadata := ⟨"health", none, []⟩
  rules := [healthz_rule]
  aggregation_rule := none

/-- The user `prober` is bound to the role. -/
def health_binding : Binding where
  type_meta := ⟨"ClusterRoleBinding", "rbac.authorization.k8s.io/v1"⟩
  metadata := ⟨"health", none, []⟩
  subjects := [⟨"User", "prober", none, some "rbac.authorization.k8s.io"⟩]
  role_ref := ⟨"rbac.authorization.k8s.io", "ClusterRole", "health"⟩

/-- Storage with nothing but the two. -/
def healthz_store : PolicyStore where
  cluster_role_bindings := .ok [health_binding]
  role_bindings := fun _ => .ok []
  role := fun _ name => .error (.NotFound name)
  cluster_role := fun name => if name = "health" then .ok health_role else .error (.NotFound name)

/-- `prober` reads a secret. -/
def get_secret : RequestAttributes :=
  { RequestAttributes.new ⟨"prober", []⟩ "get" "secrets" with
    ns := some "kube-system"
    name := some "token" }

/-- A rule for health checks, which has no apiGroups and no resources, lets its
    holder read every secret. -/
theorem healthz_rule_reads_secrets :
    RBACAuthorizer.authorize ⟨healthz_store, fun _ => true⟩ get_secret = .ok .Allow ∧
      ¬ ∃ rule, RBACAuthorizer.applicable ⟨healthz_store, fun _ => true⟩ get_secret rule ∧
        grants rule get_secret := by
  refine ⟨by decide, ?_⟩
  rintro ⟨rule, happ, hgrant⟩
  -- the only rule there is has no list of groups
  have hrule : rule = healthz_rule := by
    rcases happ with ⟨bindings, hbs, binding, hb, _, rules, hrules, hmem⟩ |
      ⟨ns, _, _, bindings, hbs, binding, hb, _⟩
    · obtain rfl := (Except.ok.inj hbs).symm
      obtain rfl := List.mem_singleton.mp hb
      cases hrules
      exact List.mem_singleton.mp hmem
    · cases hbs
      cases hb
  subst hrule
  simp [grants, get_secret, RequestAttributes.new, healthz_rule, lists] at hgrant

end Authz
