import Rusternetes.Authz.PolicyBased

/-! # Privilege Escalation: What the Checks Achieve

    The resolver and the authorizer read the same policy: a user holds exactly the
    rules the authorizer would look at. So an accepted write should let nobody do
    what its writer cannot; it does unless the writer does not already reach the
    request and a granted rule reaches it through an absent list, or a held rule
    misses it.
-/

open Common Framework.Folds Framework.Text

namespace Authz

/-! ### The resolver reads what the authorizer reads -/

theorem matches_service_account_username_eq (ns name username : String) :
    matches_service_account_username ns name username =
      (username == "system:serviceaccount:" ++ ns ++ ":" ++ name) := by
  rw [Bool.eq_iff_iff, beq_iff_eq]
  unfold matches_service_account_username
  simp only [Option.any_eq_true, Option.bind_eq_bind, Option.bind_eq_some_iff, strip_prefix_eq_some,
    beq_iff_eq]
  constructor
  · rintro ⟨_, ⟨_, rfl, _, rfl, rfl⟩, rfl⟩
    simp [String.append_assoc]
  · rintro rfl
    exact ⟨name, ⟨ns ++ ":" ++ name, by simp only [String.append_assoc], ":" ++ name,
      by simp only [String.append_assoc], rfl⟩, rfl⟩

theorem applies_to_user_eq (user : UserInfo) (subject : Subject) (ns : String) :
    applies_to_user user subject ns = subject_applies subject user ns := by
  unfold applies_to_user subject_applies
  split_ifs with huser hgroup haccount
  · exact BEq.comm
  · rfl
  · simp only
    generalize (subject.ns.filter (· ≠ "")).getD ns = sa_namespace
    by_cases hns : sa_namespace = ""
    · simp [hns]
    · rw [if_neg hns, matches_service_account_username_eq, bne_iff_ne.mpr hns, Bool.true_and]
  · rfl

theorem reference_rules_eq_ok_iff (storage : PolicyStore) (printable : Char → Bool)
    (debug : String → String) (role_ref : RoleRef) (ns : String) (rules : List PolicyRule) :
    DefaultRuleResolver.get_role_reference_rules ⟨storage, debug⟩ role_ref ns = .ok rules ↔
      RBACAuthorizer.reference_rules ⟨storage, printable⟩ role_ref ns = .ok rules := by
  unfold DefaultRuleResolver.get_role_reference_rules RBACAuthorizer.reference_rules
  split_ifs
  · rw [mapError_eq_ok, mapError_eq_ok]
  · rw [mapError_eq_ok, mapError_eq_ok]
  · simp

section Resolver

variable {storage : PolicyStore} {debug : String → String} {printable : Char → Bool}
  {attrs : RequestAttributes} {rule : PolicyRule}

variable (debug) in
theorem gives_iff {ns : String} {binding : Binding} :
    RBACAuthorizer.gives ⟨storage, printable⟩ attrs ns binding rule ↔
      applies_to attrs.user binding.subjects ns = true ∧
        ∃ rules, DefaultRuleResolver.get_role_reference_rules ⟨storage, debug⟩ binding.role_ref ns =
          .ok rules ∧ rule ∈ rules := by
  unfold RBACAuthorizer.gives
  simp only [reference_rules_eq_ok_iff storage printable debug, applies_to, applies_to_user_eq,
    List.any_eq_true]

theorem mem_collect_iff {ns : String} (bindings : List Binding)
    (found : List PolicyRule × List String) :
    rule ∈ (DefaultRuleResolver.collect ⟨storage, debug⟩ attrs.user ns bindings found).1 ↔
      rule ∈ found.1 ∨
        ∃ binding ∈ bindings, RBACAuthorizer.gives ⟨storage, printable⟩ attrs ns binding rule := by
  induction bindings generalizing found with
  | nil => simp [DefaultRuleResolver.collect]
  | cons binding rest ih =>
    obtain ⟨rules, errors⟩ := found
    rw [List.exists_mem_cons_iff, gives_iff debug]
    unfold DefaultRuleResolver.collect
    by_cases hsub : applies_to attrs.user binding.subjects ns = true
    · cases hrules : DefaultRuleResolver.get_role_reference_rules ⟨storage, debug⟩
          binding.role_ref ns with
      | ok r => simp [hsub, ih, or_assoc]
      | error e => simp [hsub, ih]
    · simp [hsub, ih]

theorem mem_collect_list_iff {ns : String} (listed : Except Error (List Binding))
    (found : List PolicyRule × List String) :
    rule ∈ (DefaultRuleResolver.collect_list ⟨storage, debug⟩ attrs.user ns listed found).1 ↔
      rule ∈ found.1 ∨ ∃ bindings, listed = .ok bindings ∧
        ∃ binding ∈ bindings, RBACAuthorizer.gives ⟨storage, printable⟩ attrs ns binding rule := by
  cases listed with
  | error e => simp [DefaultRuleResolver.collect_list]
  | ok bindings =>
    simp only [DefaultRuleResolver.collect_list, Except.ok.injEq, exists_eq_left']
    exact mem_collect_iff bindings found

/-- `rules_for` lists exactly the rules that apply to the request. -/
theorem mem_rules_for_iff :
    rule ∈ (DefaultRuleResolver.rules_for ⟨storage, debug⟩ attrs.user (attrs.ns.getD "")).1 ↔
      RBACAuthorizer.applicable ⟨storage, printable⟩ attrs rule := by
  have hcluster : rule ∈ (DefaultRuleResolver.collect_list ⟨storage, debug⟩ attrs.user ""
      storage.cluster_role_bindings ([], [])).1 ↔ _ ∨ ∃ bindings, _ ∧ ∃ binding ∈ bindings,
        RBACAuthorizer.gives ⟨storage, printable⟩ attrs "" binding rule :=
    mem_collect_list_iff _ _
  unfold DefaultRuleResolver.rules_for RBACAuthorizer.applicable
  simp only [List.not_mem_nil, false_or] at hcluster
  cases hns : attrs.ns with
  | none => simpa using hcluster
  | some ns =>
    by_cases hne : ns = ""
    · simpa [hne] using hcluster
    · simp only [Option.getD_some, hne, if_false, Option.some.injEq, exists_eq_left', ne_eq,
        not_false_eq_true, true_and]
      rw [mem_collect_list_iff, hcluster]

/-- The authorizer allows a request exactly when a rule of the resolver does. -/
theorem authorize_allow_iff_rules_for :
    RBACAuthorizer.authorize ⟨storage, printable⟩ attrs = .ok .Allow ↔
      check_policy_rules
        (DefaultRuleResolver.rules_for ⟨storage, debug⟩ attrs.user (attrs.ns.getD "")).1
        attrs = true := by
  rw [RBACAuthorizer.authorize_allow_iff, check_policy_rules, List.any_eq_true]
  exact exists_congr fun rule => and_congr_left fun _ => mem_rules_for_iff.symm

end Resolver

/-! ### Accepted writes -/

def checks (storage : PolicyStore) (authorizer : Authorizer) (debug : String → String) :
    PolicyBased :=
  ⟨authorizer, DefaultRuleResolver.as_resolver ⟨storage, debug⟩, debug⟩

/-- A granted rule reaches the request where `covers` cannot see it: through an
    absent list, or past a held rule that misses the request. -/
def slips (held rules : List PolicyRule) (attrs : RequestAttributes) : Prop :=
  ∃ rule ∈ rules, rule_allows rule attrs = true ∧
    ((attrs.is_non_resource_request = false ∧ leaves_out rule) ∨
      ∃ owner ∈ held, misses owner attrs)

/-- Whoever is not exempt and has a write accepted grants rules that can be read,
    and what these allow is allowed by a rule of the writer if and only if a rule
    of the writer allows it or none of the granted rules slips through. -/
theorem accepted_write_confined_iff (storage : PolicyStore) (authorizer : Authorizer)
    (debug : String → String) (ctx : RequestContext) (w : Write)
    (hok : w.check (checks storage authorizer debug) ctx = .ok ())
    (hexempt : w.exempt (checks storage authorizer debug) ctx = false)
    (hgc : w.gc_only = false) :
    ∃ rules, w.granted_rules (checks storage authorizer debug) ctx = .ok rules ∧
      ∀ attrs,
        (check_policy_rules rules attrs = true →
          check_policy_rules (held_rules (checks storage authorizer debug) ctx) attrs = true) ↔
        (check_policy_rules (held_rules (checks storage authorizer debug) ctx) attrs = true ∨
          ¬ slips (held_rules (checks storage authorizer debug) ctx) rules attrs) := by
  obtain ⟨rules, hrules, hcov⟩ := covers_of_check hok hexempt hgc
  refine ⟨rules, hrules, fun attrs => ?_⟩
  generalize held_rules (checks storage authorizer debug) ctx = held at hcov ⊢
  by_cases hheld : check_policy_rules held attrs = true
  · simp [hheld]
  · simp only [hheld, imp_false, false_or, Bool.false_eq_true]
    refine not_congr ⟨fun hallow => ?_, ?_⟩
    · -- covered, allowed and not held: it went past the comparison
      rcases covers_sound hcov hallow with ⟨rule, hmem, hrule, hreq, hout⟩ | hno | hmiss
      · exact ⟨rule, hmem, hrule, .inl ⟨hreq, hout⟩⟩
      · exact absurd hno hheld
      · obtain ⟨rule, hmem, hrule⟩ := List.any_eq_true.mp hallow
        exact ⟨rule, hmem, hrule, .inr hmiss⟩
    · rintro ⟨rule, hmem, hrule, _⟩
      exact List.any_eq_true.mpr ⟨rule, hmem, hrule⟩

/-! ### A write that escalates -/

/-- The user `ops` may probe `/healthz`: the lists of groups and resources of the
    rule are there, and empty. -/
def probe_store : PolicyStore where
  cluster_role_bindings := .ok [{ health_binding with
    subjects := [⟨"User", "ops", none, some "rbac.authorization.k8s.io"⟩]
    role_ref := ⟨"rbac.authorization.k8s.io", "ClusterRole", "probe"⟩ }]
  role_bindings := fun _ => .ok []
  role := fun _ name => .error (.NotFound name)
  cluster_role := fun name =>
    if name = "probe" then
      .ok { health_role with
        metadata := ⟨"probe", none, []⟩
        rules := [{ healthz_rule with api_groups := some [], resources := some [] }] }
    else .error (.NotFound name)

def probe_checks : PolicyBased :=
  checks probe_store (RBACAuthorizer.authorize ⟨probe_store, fun _ => true⟩) id

/-- `ops` creates a ClusterRole. -/
def ops_request : RequestContext where
  ns := none
  user := some ⟨"ops", []⟩
  name := none

/-- `ops` creates the role `health`, whose rule has no lists. -/
def create_health : Write := .cluster_role health_role none

/-- The conclusion at that write, which is accepted. -/
theorem accepted_write_confined_iff_health :
    ∃ rules, create_health.granted_rules probe_checks ops_request = .ok rules ∧
      ((check_policy_rules rules get_secret = true →
        check_policy_rules (held_rules probe_checks ops_request) get_secret = true) ↔
        (check_policy_rules (held_rules probe_checks ops_request) get_secret = true ∨
          ¬ slips (held_rules probe_checks ops_request) rules get_secret)) := by
  obtain ⟨rules, hrules, hiff⟩ := accepted_write_confined_iff probe_store
    (RBACAuthorizer.authorize ⟨probe_store, fun _ => true⟩) id ops_request create_health
    (by decide) (by decide) (by decide)
  exact ⟨rules, hrules, hiff get_secret⟩

/-- `ops` may create the role `health`, which reads every secret, without reading
    a secret themselves. -/
theorem create_health_escalates :
    create_health.check probe_checks ops_request = .ok () ∧
      create_health.exempt probe_checks ops_request = false ∧ create_health.gc_only = false ∧
      create_health.granted_rules probe_checks ops_request = .ok [healthz_rule] ∧
      check_policy_rules [healthz_rule] get_secret = true ∧
      check_policy_rules (held_rules probe_checks ops_request) get_secret = false := by
  decide

end Authz
