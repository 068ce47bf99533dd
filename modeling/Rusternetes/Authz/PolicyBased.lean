import Mathlib
import Rusternetes.Authz.Comparator
import Rusternetes.Framework.Folds

/-! # Privilege Escalation

    The `policybased` checks: who writes a role must hold its rules, who writes a
    binding must hold the rules of the role it refers to, unless they may
    `escalate` or `bind`. What a user holds is read by `DefaultRuleResolver`.
-/

open Common Framework.Folds Framework.Text

namespace Authz

/-! ### The rule resolver -/

structure AuthorizationRuleResolver where
  get_role_reference_rules : RoleRef → String → Except Error (List PolicyRule)
  /-- The rules that apply to a user in a namespace, and the errors met. -/
  rules_for : UserInfo → String → List PolicyRule × List String

def matches_service_account_username (ns name username : String) : Bool :=
  Option.any (· == name) do
    let rest ← strip_prefix username "system:serviceaccount:"
    let rest ← strip_prefix rest ns
    strip_prefix rest ":"

def applies_to_user (user : UserInfo) (subject : Subject) (ns : String) : Bool :=
  if subject.kind = "User" then user.username == subject.name
  else if subject.kind = "Group" then user.groups.contains subject.name
  else if subject.kind = "ServiceAccount" then
    let sa_namespace := (subject.ns.filter (· ≠ "")).getD ns
    if sa_namespace = "" then false
    else matches_service_account_username sa_namespace subject.name user.username
  else false

def applies_to (user : UserInfo) (subjects : List Subject) (ns : String) : Bool :=
  subjects.any fun subject => applies_to_user user subject ns

/-- `DefaultRuleResolver`. `debug` is how a string is printed for debugging. -/
structure DefaultRuleResolver where
  storage : PolicyStore
  debug : String → String

namespace DefaultRuleResolver

/-- How a role that is not found is reported. -/
def not_found (what name : String) : Error → Error
  | .NotFound _ => .NotFound (what ++ " \"" ++ name ++ "\" not found")
  | e => e

def get_role_reference_rules (resolver : DefaultRuleResolver) (role_ref : RoleRef)
    (binding_namespace : String) : Except Error (List PolicyRule) :=
  if role_ref.kind = "Role" then
    ((resolver.storage.role binding_namespace role_ref.name).map Role.rules).mapError
      (not_found "role.rbac.authorization.k8s.io" role_ref.name)
  else if role_ref.kind = "ClusterRole" then
    ((resolver.storage.cluster_role role_ref.name).map ClusterRole.rules).mapError
      (not_found "clusterrole.rbac.authorization.k8s.io" role_ref.name)
  else .error (.Internal ("unsupported role reference kind: " ++ resolver.debug role_ref.kind))

/-- A loop of `rules_for` over the bindings of one scope. -/
def collect (resolver : DefaultRuleResolver) (user : UserInfo) (ns : String) :
    List Binding → List PolicyRule × List String → List PolicyRule × List String
  | [], found => found
  | binding :: rest, (rules, errors) =>
    if !applies_to user binding.subjects ns then collect resolver user ns rest (rules, errors)
    else
      match resolver.get_role_reference_rules binding.role_ref ns with
      | .ok r => collect resolver user ns rest (rules ++ r, errors)
      | .error e => collect resolver user ns rest (rules, errors ++ [e.to_string])

def collect_list (resolver : DefaultRuleResolver) (user : UserInfo) (ns : String)
    (listed : Except Error (List Binding)) (found : List PolicyRule × List String) :
    List PolicyRule × List String :=
  match listed with
  | .error e => (found.1, found.2 ++ [e.to_string])
  | .ok bindings => resolver.collect user ns bindings found

def rules_for (resolver : DefaultRuleResolver) (user : UserInfo) (ns : String) :
    List PolicyRule × List String :=
  let found := resolver.collect_list user "" resolver.storage.cluster_role_bindings ([], [])
  if ns = "" then found
  else resolver.collect_list user ns (resolver.storage.role_bindings ns) found

def as_resolver (resolver : DefaultRuleResolver) : AuthorizationRuleResolver :=
  ⟨resolver.get_role_reference_rules, resolver.rules_for⟩

end DefaultRuleResolver

/-! ### What is missing, in words -/

structure SimpleResource where
  group : String
  resource : String
  resource_name : Option String
  deriving DecidableEq

def is_simple_resource_rule (rule : PolicyRule) : Option SimpleResource :=
  if rule.names.length > 1 ∨ rule.urls ≠ [] then none
  else
    match rule.groups, rule.resource_list with
    | [group], [resource] => some ⟨group, resource, rule.names.head?⟩
    | _, _ => none

/-- The loop of `compact_rules`; there is one entry for each simple resource. -/
def compact_loop : List PolicyRule → List PolicyRule → List (SimpleResource × PolicyRule) →
    List PolicyRule
  | [], compacted, simple_rules => compacted ++ simple_rules.map (·.2)
  | rule :: rest, compacted, simple_rules =>
    match is_simple_resource_rule rule with
    | some resource =>
      if simple_rules.any (·.1 == resource) then
        compact_loop rest compacted (simple_rules.map fun e =>
          if e.1 = resource then (e.1, { e.2 with verbs := e.2.verbs ++ rule.verbs }) else e)
      else compact_loop rest compacted (simple_rules ++ [(resource, rule)])
    | none => compact_loop rest (compacted ++ [rule]) simple_rules

def compact_rules (rules : List PolicyRule) : List PolicyRule := compact_loop rules [] []

def quote_strings (debug : String → String) (items : List String) : String :=
  "[" ++ " ".intercalate (items.map debug) ++ "]"

def compact_string (debug : String → String) (rule : PolicyRule) : String :=
  let part (label : String) (items : List String) : List String :=
    if items.isEmpty then [] else [label ++ ":" ++ quote_strings debug items]
  "\x7b" ++ ", ".intercalate (part "APIGroups" rule.groups ++ part "Resources" rule.resource_list ++
    part "NonResourceURLs" rule.urls ++ part "ResourceNames" rule.names ++
    part "Verbs" rule.verbs) ++ "\x7d"

def confirm_no_escalation (debug : String → String) (user : Option UserInfo) (ns : Option String)
    (resolver : AuthorizationRuleResolver) (rules : List PolicyRule) : Except String Unit :=
  match user with
  | none => .error "no user on context"
  | some user =>
    let (owner_rules, resolution_errors) := resolver.rules_for user (ns.getD "")
    let (owner_rights_cover, missing_rights) := covers owner_rules rules
    if owner_rights_cover then .ok ()
    else
      let missing_descriptions :=
        (((compact_rules missing_rights).map (compact_string debug)).mergeSort
          fun a b => decide (a ≤ b)).dedup
      .error ("user " ++ debug user.username ++ " (groups=" ++ quote_strings debug user.groups ++
        ") is attempting to grant RBAC permissions not currently held:\n" ++
        "\n".intercalate missing_descriptions ++
        if resolution_errors.isEmpty then ""
        else "; resolution errors: [" ++ ", ".intercalate resolution_errors ++ "]")

/-! ### Who need not be checked -/

structure RequestContext where
  ns : Option String
  user : Option UserInfo
  name : Option String
  deriving DecidableEq, Repr

abbrev Authorizer := RequestAttributes → Except Error Decision

def authorize_allowed (authorizer : Authorizer) (attrs : RequestAttributes) : Bool :=
  match authorizer attrs with
  | .ok .Allow => true
  | .ok (.Deny _) => false
  | .error _ => false

def escalation_allowed (ctx : RequestContext) : Bool :=
  ctx.user.any fun u => u.groups.any (· == "system:masters")

def role_escalation_authorized (ctx : RequestContext) (authorizer : Authorizer)
    (resource : String) : Bool :=
  match ctx.user with
  | none => false
  | some user =>
    authorize_allowed authorizer
      { RequestAttributes.new user "escalate" resource with
        api_group := "rbac.authorization.k8s.io"
        name := ctx.name.filter (· ≠ "")
        ns := ctx.ns.filter (· ≠ "") }

def bound_resource (role_ref : RoleRef) : Option String :=
  if role_ref.kind = "ClusterRole" then some "clusterroles"
  else if role_ref.kind = "Role" then some "roles"
  else none

def binding_authorized (ctx : RequestContext) (role_ref : RoleRef) (binding_namespace : String)
    (authorizer : Authorizer) : Bool :=
  match ctx.user, bound_resource role_ref with
  | some user, some resource =>
    authorize_allowed authorizer
      { RequestAttributes.new user "bind" resource with
        api_group := role_ref.api_group
        name := (some role_ref.name).filter (· ≠ "")
        ns := (some binding_namespace).filter (· ≠ "") }
  | _, _ => false

/-- The fields of the metadata that `is_only_mutating_gc_fields` does not compare. -/
def gc_fields : List String := ["ownerReferences", "finalizers", "selfLink", "managedFields"]

def ObjectMeta.without_gc (metadata : ObjectMeta) : ObjectMeta :=
  { metadata with fields := metadata.fields.filter fun field => field.1 ∉ gc_fields }

/-- `is_only_mutating_gc_fields`, for objects whose metadata is at `metadata`. -/
def is_only_mutating_gc_fields {T : Type} [DecidableEq T] (strip : T → T) (obj old : T) : Bool :=
  decide (strip obj = strip old)

/-- A role without the fields the garbage collector writes. -/
def Role.strip (role : Role) : Role := { role with metadata := role.metadata.without_gc }

/-- A cluster role without the fields the garbage collector writes. -/
def ClusterRole.strip (role : ClusterRole) : ClusterRole :=
  { role with metadata := role.metadata.without_gc }

/-- A binding without the fields the garbage collector writes. -/
def Binding.strip (binding : Binding) : Binding :=
  { binding with metadata := binding.metadata.without_gc }

/-! ### The checks -/

def rbac_resource (resource : String) : String := resource ++ ".rbac.authorization.k8s.io"

def new_forbidden (qualified_resource name err : String) : Error :=
  .Forbidden (if name = "" then qualified_resource ++ " is forbidden: " ++ err
    else qualified_resource ++ " \"" ++ name ++ "\" is forbidden: " ++ err)

def missing_object : Error := .Internal "no object was supplied to the update transformer"

def full_authority : List PolicyRule :=
  [⟨["*"], some ["*"], some ["*"], none, none⟩, ⟨["*"], none, none, none, some ["*"]⟩]

structure PolicyBased where
  authorizer : Authorizer
  resolver : AuthorizationRuleResolver
  debug : String → String

namespace PolicyBased

def confirm_rules (pb : PolicyBased) (ctx : RequestContext) (qualified_resource name : String)
    (rules : List PolicyRule) : Except Error Unit :=
  (confirm_no_escalation pb.debug ctx.user ctx.ns pb.resolver rules).mapError
    (new_forbidden qualified_resource name)

def escalation_bypassed (pb : PolicyBased) (ctx : RequestContext) (resource : String) : Bool :=
  escalation_allowed ctx || role_escalation_authorized ctx pb.authorizer resource

def confirm_binding (pb : PolicyBased) (ctx : RequestContext) (qualified_resource name : String)
    (role_ref : RoleRef) (binding_namespace : String) : Except Error Unit :=
  if binding_authorized ctx role_ref binding_namespace pb.authorizer then .ok ()
  else
    match pb.resolver.get_role_reference_rules role_ref binding_namespace with
    | .error e => .error e
    | .ok rules => pb.confirm_rules ctx qualified_resource name rules

end PolicyBased

namespace RolePolicyBased

def begin_create (pb : PolicyBased) (ctx : RequestContext) (obj : Role) : Except Error Unit :=
  if !pb.escalation_bypassed ctx "roles" then
    pb.confirm_rules ctx (rbac_resource "roles") obj.metadata.name obj.rules
  else .ok ()

def transform (pb : PolicyBased) (ctx : RequestContext) (new old : Option Role) :
    Except Error Role :=
  match new, old with
  | none, _ => .error missing_object
  | some obj, none => .ok obj
  | some obj, some old =>
    if !pb.escalation_bypassed ctx "roles" && !is_only_mutating_gc_fields Role.strip obj old then
      (pb.confirm_rules ctx (rbac_resource "roles") obj.metadata.name obj.rules).map fun _ => obj
    else .ok obj

end RolePolicyBased

namespace RoleBindingPolicyBased

def request_namespace (ctx : RequestContext) : Except Error String :=
  match ctx.ns with
  | some ns => .ok ns
  | none => .error (.BadRequest "namespace is required")

/-- What follows the namespace in both functions. -/
def confirm (pb : PolicyBased) (ctx : RequestContext) (obj : Binding) (ns : String) :
    Except Error Unit :=
  pb.confirm_binding ctx (rbac_resource "rolebindings") obj.metadata.name obj.role_ref ns

def begin_create (pb : PolicyBased) (ctx : RequestContext) (obj : Binding) : Except Error Unit :=
  if escalation_allowed ctx then .ok ()
  else (request_namespace ctx).bind (confirm pb ctx obj)

def transform (pb : PolicyBased) (ctx : RequestContext) (new old : Option Binding) :
    Except Error Binding :=
  match new, old with
  | none, _ => .error missing_object
  | some obj, none => .ok obj
  | some obj, some old =>
    if escalation_allowed ctx then .ok obj
    else
      (request_namespace ctx).bind fun ns =>
        if is_only_mutating_gc_fields Binding.strip obj old then .ok obj
        else (confirm pb ctx obj ns).map fun _ => obj

end RoleBindingPolicyBased

namespace ClusterRoleBindingPolicyBased

/-- The check of both functions. -/
def confirm (pb : PolicyBased) (ctx : RequestContext) (obj : Binding) : Except Error Unit :=
  pb.confirm_binding ctx (rbac_resource "clusterrolebindings") obj.metadata.name obj.role_ref ""

def begin_create (pb : PolicyBased) (ctx : RequestContext) (obj : Binding) : Except Error Unit :=
  if escalation_allowed ctx then .ok () else confirm pb ctx obj

def transform (pb : PolicyBased) (ctx : RequestContext) (new old : Option Binding) :
    Except Error Binding :=
  match new, old with
  | none, _ => .error missing_object
  | some obj, none => .ok obj
  | some obj, some old =>
    if escalation_allowed ctx || is_only_mutating_gc_fields Binding.strip obj old then .ok obj
    else (confirm pb ctx obj).map fun _ => obj

end ClusterRoleBindingPolicyBased

namespace ClusterRolePolicyBased

def has_aggregation_rule (role : ClusterRole) : Bool :=
  (role.aggregation_rule.bind (·.cluster_role_selectors)).any fun s => !s.isEmpty

def confirm_aggregation_rule (pb : PolicyBased) (ctx : RequestContext) (role : ClusterRole) :
    Except Error Unit :=
  (confirm_no_escalation pb.debug ctx.user ctx.ns pb.resolver full_authority).mapError fun _ =>
    new_forbidden (rbac_resource "clusterroles") role.metadata.name
      "must have cluster-admin privileges to use the aggregationRule"

/-- The two checks, the second if there is an aggregation rule. -/
def confirm (pb : PolicyBased) (ctx : RequestContext) (obj : ClusterRole) (aggregates : Bool) :
    Except Error Unit :=
  (pb.confirm_rules ctx (rbac_resource "clusterroles") obj.metadata.name obj.rules).bind fun _ =>
    if aggregates then confirm_aggregation_rule pb ctx obj else .ok ()

/-- `check_create`, which is `begin_create`. -/
def check_create (pb : PolicyBased) (ctx : RequestContext) (obj : ClusterRole) :
    Except Error Unit :=
  if pb.escalation_bypassed ctx "clusterroles" then .ok ()
  else confirm pb ctx obj (has_aggregation_rule obj)

def check_update (pb : PolicyBased) (ctx : RequestContext) (obj old : ClusterRole) :
    Except Error Unit :=
  if pb.escalation_bypassed ctx "clusterroles" ||
      is_only_mutating_gc_fields ClusterRole.strip obj old then .ok ()
  else confirm pb ctx obj (has_aggregation_rule obj || has_aggregation_rule old)

def transform (pb : PolicyBased) (ctx : RequestContext) (new old : Option ClusterRole) :
    Except Error ClusterRole :=
  match new, old with
  | none, _ => .error missing_object
  | some obj, none => .ok obj
  | some obj, some old => (check_update pb ctx obj old).map fun _ => obj

end ClusterRolePolicyBased

/-! ### Writes -/

/-- A write of one of the four kinds over what is stored. Nothing is stored for a
    create and for an update that creates; such an update passes `transform` as it
    is and is then checked by `begin_create`. -/
inductive Write where
  | role (obj : Role) (old : Option Role)
  | cluster_role (obj : ClusterRole) (old : Option ClusterRole)
  | role_binding (obj : Binding) (old : Option Binding)
  | cluster_role_binding (obj : Binding) (old : Option Binding)

/-- `begin_create` if nothing is stored, after `transform`. -/
def checked {T : Type} (transform : Option T → Option T → Except Error T)
    (begin_create : T → Except Error Unit) (obj : T) (old : Option T) : Except Error Unit :=
  (transform (some obj) old).bind fun obj =>
    match old with
    | none => begin_create obj
    | some _ => .ok ()

namespace Write

variable (pb : PolicyBased) (ctx : RequestContext)

def check : Write → Except Error Unit
  | .role obj old =>
    checked (RolePolicyBased.transform pb ctx) (RolePolicyBased.begin_create pb ctx) obj old
  | .cluster_role obj old =>
    checked (ClusterRolePolicyBased.transform pb ctx) (ClusterRolePolicyBased.check_create pb ctx)
      obj old
  | .role_binding obj old =>
    checked (RoleBindingPolicyBased.transform pb ctx) (RoleBindingPolicyBased.begin_create pb ctx)
      obj old
  | .cluster_role_binding obj old =>
    checked (ClusterRoleBindingPolicyBased.transform pb ctx)
      (ClusterRoleBindingPolicyBased.begin_create pb ctx) obj old

/-- The rules the write grants: those of the role, or those of the role that the
    binding refers to. -/
def granted_rules : Write → Except Error (List PolicyRule)
  | .role obj _ => .ok obj.rules
  | .cluster_role obj _ => .ok obj.rules
  | .role_binding obj _ => pb.resolver.get_role_reference_rules obj.role_ref (ctx.ns.getD "")
  | .cluster_role_binding obj _ => pb.resolver.get_role_reference_rules obj.role_ref ""

/-- The writer is a superuser, or the authorizer lets them `escalate` or `bind`. -/
def exempt : Write → Bool
  | .role _ _ => pb.escalation_bypassed ctx "roles"
  | .cluster_role _ _ => pb.escalation_bypassed ctx "clusterroles"
  | .role_binding obj _ =>
    escalation_allowed ctx || binding_authorized ctx obj.role_ref (ctx.ns.getD "") pb.authorizer
  | .cluster_role_binding obj _ =>
    escalation_allowed ctx || binding_authorized ctx obj.role_ref "" pb.authorizer

/-- Only fields of the garbage collector change. -/
def gc_only : Write → Bool
  | .role obj old => old.any (is_only_mutating_gc_fields Role.strip obj)
  | .cluster_role obj old => old.any (is_only_mutating_gc_fields ClusterRole.strip obj)
  | .role_binding obj old => old.any (is_only_mutating_gc_fields Binding.strip obj)
  | .cluster_role_binding obj old => old.any (is_only_mutating_gc_fields Binding.strip obj)

end Write

/-! ### What the checks confirm -/

/-- The rules the writer holds in the namespace of the request. -/
def held_rules (pb : PolicyBased) (ctx : RequestContext) : List PolicyRule :=
  match ctx.user with
  | none => []
  | some user => (pb.resolver.rules_for user (ctx.ns.getD "")).1

section Confirm

variable {pb : PolicyBased} {ctx : RequestContext}

theorem covers_of_confirm_rules {qualified_resource name : String} {rules : List PolicyRule}
    (h : pb.confirm_rules ctx qualified_resource name rules = .ok ()) :
    (covers (held_rules pb ctx) rules).1 = true := by
  unfold PolicyBased.confirm_rules at h
  unfold confirm_no_escalation at h
  unfold held_rules
  cases huser : ctx.user with
  | none => rw [huser] at h; cases h
  | some user =>
    rw [huser] at h
    simp only at h ⊢
    by_contra hcov
    rw [if_neg hcov] at h
    cases h

theorem covers_of_confirm_binding {qualified_resource name binding_namespace : String}
    {role_ref : RoleRef}
    (h : pb.confirm_binding ctx qualified_resource name role_ref binding_namespace = .ok ())
    (hbind : binding_authorized ctx role_ref binding_namespace pb.authorizer = false) :
    ∃ rules, pb.resolver.get_role_reference_rules role_ref binding_namespace = .ok rules ∧
      (covers (held_rules pb ctx) rules).1 = true := by
  unfold PolicyBased.confirm_binding at h
  rw [hbind] at h
  simp only [Bool.false_eq_true, if_false] at h
  split at h
  · cases h
  · next rules hrules => exact ⟨rules, hrules, covers_of_confirm_rules h⟩

theorem covers_of_check {w : Write} (hok : w.check pb ctx = .ok ())
    (hexempt : w.exempt pb ctx = false) (hgc : w.gc_only = false) :
    ∃ rules, w.granted_rules pb ctx = .ok rules ∧ (covers (held_rules pb ctx) rules).1 = true := by
  match w with
  | .role obj old =>
    have hby : pb.escalation_bypassed ctx "roles" = false := hexempt
    refine ⟨obj.rules, rfl, ?_⟩
    simp only [Write.check, checked, bind_eq_ok] at hok
    obtain ⟨obj', htrans, hcreate⟩ := hok
    cases old with
    | none =>
      cases htrans
      simp only [RolePolicyBased.begin_create, hby, Bool.not_false, if_true] at hcreate
      exact covers_of_confirm_rules hcreate
    | some old =>
      have hgc' : is_only_mutating_gc_fields Role.strip obj old = false := hgc
      simp only [RolePolicyBased.transform, hby, hgc', Bool.not_false, Bool.and_self, if_true,
        map_eq_ok] at htrans
      obtain ⟨_, hconfirm, _⟩ := htrans
      exact covers_of_confirm_rules hconfirm
  | .cluster_role obj old =>
    have hby : pb.escalation_bypassed ctx "clusterroles" = false := hexempt
    have hconfirm : ∀ aggregates, ClusterRolePolicyBased.confirm pb ctx obj aggregates = .ok () →
        (covers (held_rules pb ctx) obj.rules).1 = true := by
      intro aggregates h
      obtain ⟨_, hrules, _⟩ := bind_eq_ok.mp h
      exact covers_of_confirm_rules hrules
    refine ⟨obj.rules, rfl, ?_⟩
    simp only [Write.check, checked, bind_eq_ok] at hok
    obtain ⟨obj', htrans, hcreate⟩ := hok
    cases old with
    | none =>
      cases htrans
      simp only [ClusterRolePolicyBased.check_create, hby, Bool.false_eq_true, if_false] at hcreate
      exact hconfirm _ hcreate
    | some old =>
      have hgc' : is_only_mutating_gc_fields ClusterRole.strip obj old = false := hgc
      simp only [ClusterRolePolicyBased.transform, ClusterRolePolicyBased.check_update, hby, hgc',
        Bool.or_self, Bool.false_eq_true, if_false, map_eq_ok] at htrans
      obtain ⟨_, hchecked, _⟩ := htrans
      exact hconfirm _ hchecked
  | .role_binding obj old =>
    obtain ⟨hallowed, hbind⟩ := Bool.or_eq_false_iff.mp hexempt
    -- the namespace is there, or the check fails for want of it
    have hconfirm : ∀ ns, RoleBindingPolicyBased.request_namespace ctx = .ok ns →
        RoleBindingPolicyBased.confirm pb ctx obj ns = .ok () →
        ∃ rules, pb.resolver.get_role_reference_rules obj.role_ref (ctx.ns.getD "") = .ok rules ∧
          (covers (held_rules pb ctx) rules).1 = true := by
      intro ns hns h
      unfold RoleBindingPolicyBased.request_namespace at hns
      cases hctx : ctx.ns with
      | none => rw [hctx] at hns; cases hns
      | some ns' =>
        rw [hctx] at hns hbind
        cases hns
        exact covers_of_confirm_binding h hbind
    simp only [Write.check, checked, bind_eq_ok] at hok
    obtain ⟨obj', htrans, hcreate⟩ := hok
    cases old with
    | none =>
      cases htrans
      simp only [RoleBindingPolicyBased.begin_create, hallowed, Bool.false_eq_true, if_false,
        bind_eq_ok] at hcreate
      obtain ⟨ns, hns, h⟩ := hcreate
      exact hconfirm ns hns h
    | some old =>
      have hgc' : is_only_mutating_gc_fields Binding.strip obj old = false := hgc
      simp only [RoleBindingPolicyBased.transform, hallowed, hgc', Bool.false_eq_true, if_false,
        bind_eq_ok, map_eq_ok] at htrans
      obtain ⟨ns, hns, _, h, _⟩ := htrans
      exact hconfirm ns hns h
  | .cluster_role_binding obj old =>
    obtain ⟨hallowed, hbind⟩ := Bool.or_eq_false_iff.mp hexempt
    simp only [Write.check, checked, bind_eq_ok] at hok
    obtain ⟨obj', htrans, hcreate⟩ := hok
    cases old with
    | none =>
      cases htrans
      simp only [ClusterRoleBindingPolicyBased.begin_create, hallowed, Bool.false_eq_true,
        if_false] at hcreate
      exact covers_of_confirm_binding hcreate hbind
    | some old =>
      have hgc' : is_only_mutating_gc_fields Binding.strip obj old = false := hgc
      simp only [ClusterRoleBindingPolicyBased.transform, hallowed, hgc', Bool.or_self,
        Bool.false_eq_true, if_false, map_eq_ok] at htrans
      obtain ⟨_, h, _⟩ := htrans
      exact covers_of_confirm_binding h hbind

end Confirm

end Authz
