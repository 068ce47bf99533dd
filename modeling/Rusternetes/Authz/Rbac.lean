import Rusternetes.Common.Error
import Rusternetes.Framework.Text

/-! # The RBAC Authorizer

    `RBACAuthorizer` reads the role bindings that name the requester, the roles
    they refer to, and the rules of those roles. Storage is seen through the
    answers of its `list` and `get`, each of which can fail.
-/

open Common Framework.Text

namespace Authz

/-! ### Objects -/

structure UserInfo where
  username : String
  groups : List String
  deriving DecidableEq, Repr

structure RequestAttributes where
  user : UserInfo
  verb : String
  ns : Option String
  api_group : String
  resource : String
  name : Option String
  subresource : Option String
  path : Option String
  is_non_resource_request : Bool
  deriving DecidableEq, Repr

def RequestAttributes.new (user : UserInfo) (verb resource : String) : RequestAttributes where
  user := user
  verb := verb
  ns := none
  api_group := ""
  resource := resource
  name := none
  subresource := none
  path := none
  is_non_resource_request := false

structure PolicyRule where
  verbs : List String
  api_groups : Option (List String)
  resources : Option (List String)
  resource_names : Option (List String)
  non_resource_urls : Option (List String)
  deriving DecidableEq, Repr

structure Subject where
  kind : String
  name : String
  ns : Option String
  api_group : Option String
  deriving DecidableEq, Repr

structure RoleRef where
  api_group : String
  kind : String
  name : String
  deriving DecidableEq, Repr

structure TypeMeta where
  kind : String
  api_version : String
  deriving DecidableEq, Repr

/-- `ObjectMeta`: the fields that are read here, and the others as their JSON
    names and texts. -/
structure ObjectMeta where
  name : String
  ns : Option String
  fields : List (String × String)
  deriving DecidableEq, Repr

structure Role where
  type_meta : TypeMeta
  metadata : ObjectMeta
  rules : List PolicyRule
  deriving DecidableEq, Repr

/-- `AggregationRule`, with each selector as its JSON text. -/
structure AggregationRule where
  cluster_role_selectors : Option (List String)
  deriving DecidableEq, Repr

structure ClusterRole where
  type_meta : TypeMeta
  metadata : ObjectMeta
  rules : List PolicyRule
  aggregation_rule : Option AggregationRule
  deriving DecidableEq, Repr

/-- `RoleBinding` and `ClusterRoleBinding`, which have the same fields. -/
structure Binding where
  type_meta : TypeMeta
  metadata : ObjectMeta
  subjects : List Subject
  role_ref : RoleRef
  deriving DecidableEq, Repr

/-- The answers of storage: the bindings it lists and the roles it finds. -/
structure PolicyStore where
  cluster_role_bindings : Except Error (List Binding)
  /-- By namespace. -/
  role_bindings : String → Except Error (List Binding)
  /-- By namespace and name. -/
  role : String → String → Except Error Role
  cluster_role : String → Except Error ClusterRole

/-! ### Answers -/

inductive Decision where
  | Allow
  | Deny (reason : String)
  deriving DecidableEq, Repr

inductive Opinion where
  | Allow (reason : String)
  | Deny (reason : String)
  | NoOpinion (reason : String) (error : Option String)
  deriving DecidableEq, Repr

structure AuthorizationOutcome where
  opinion : Opinion
  error : Option String
  deriving DecidableEq, Repr

/-- `AuthorizationOutcome::from_opinion`: the error moves out of the opinion. -/
def AuthorizationOutcome.from_opinion : Opinion → AuthorizationOutcome
  | .NoOpinion reason error => ⟨.NoOpinion reason none, error⟩
  | opinion => ⟨opinion, none⟩

def AuthorizationOutcome.into_decision (outcome : AuthorizationOutcome) : Except Error Decision :=
  match outcome.opinion with
  | .Allow _ => .ok .Allow
  | .Deny reason =>
    match outcome.error with
    | some error => .error (.Authorization error)
    | none => .ok (.Deny reason)
  | .NoOpinion reason error =>
    match outcome.error.or error with
    | some error => .error (.Authorization error)
    | none => .ok (.Deny reason)

/-! ### Reasons -/

/-- A lower-case hexadecimal number of at least `width` digits. -/
def hex (width n : Nat) : String :=
  let digits := Nat.toDigits 16 n
  String.ofList (List.replicate (width - digits.length) '0' ++ digits)

/-- How `quoted` writes one character. `printable` is the table of printable
    characters (letters, marks, numbers, punctuation, symbols and the blank). -/
def quoted_char (printable : Char → Bool) (c : Char) : String :=
  if c = '"' ∨ c = '\\' then String.ofList ['\\', c]
  else if c.toNat = 7 then "\\a"
  else if c.toNat = 8 then "\\b"
  else if c.toNat = 12 then "\\f"
  else if c = '\n' then "\\n"
  else if c = '\r' then "\\r"
  else if c = '\t' then "\\t"
  else if c.toNat = 11 then "\\v"
  else if c.toNat < 32 ∨ c.toNat = 127 then "\\x" ++ hex 2 c.toNat
  else if printable c then String.ofList [c]
  else if c.toNat < 65536 then "\\u" ++ hex 4 c.toNat
  else "\\U" ++ hex 8 c.toNat

def quoted (printable : Char → Bool) (value : String) : String :=
  "\"" ++ String.join (value.toList.map (quoted_char printable)) ++ "\""

/-- Whether a subject is the user, with `namespace` as the default namespace of a
    service account. -/
def subject_applies (subject : Subject) (user : UserInfo) (ns : String) : Bool :=
  if subject.kind = "User" then subject.name == user.username
  else if subject.kind = "Group" then user.groups.contains subject.name
  else if subject.kind = "ServiceAccount" then
    let ns := (subject.ns.filter (· ≠ "")).getD ns
    ns != "" && user.username == "system:serviceaccount:" ++ ns ++ ":" ++ subject.name
  else false

def applicable_subject (subjects : List Subject) (user : UserInfo) (ns : String) :
    Option Subject :=
  subjects.find? fun subject => subject_applies subject user ns

def describe_subject (printable : Char → Bool) (subject : Subject) (binding_namespace : String) :
    String :=
  let name :=
    if subject.kind = "ServiceAccount" then
      subject.name ++ "/" ++ (subject.ns.filter (· ≠ "")).getD binding_namespace
    else subject.name
  subject.kind ++ " " ++ quoted printable name

/-- `aggregate_errors`: each message once, in the order of the first. -/
def aggregate_errors (errors : List String) : Option String :=
  match errors.reverse.dedup.reverse with
  | [] => none
  | [error] => some error
  | unique => some ("[" ++ ", ".intercalate unique ++ "]")

/-! ### Rules -/

def RequestAttributes.sub (attrs : RequestAttributes) : Option String :=
  attrs.subresource.filter (· ≠ "")

/-- The `resource/subresource` a rule has to name. -/
def RequestAttributes.combined (attrs : RequestAttributes) : String :=
  match attrs.sub with
  | some s => attrs.resource ++ "/" ++ s
  | none => attrs.resource

def resource_matched (attrs : RequestAttributes) (resources : List String) : Bool :=
  resources.any fun r =>
    r == "*" || r == attrs.combined || attrs.sub.any fun s => r == "*/" ++ s

/-- Whether one of the URLs of a rule is read as reaching the path. -/
def url_matched (path : String) (urls : List String) : Bool :=
  urls.any fun url => url == "*" || url == path || starts_with path url

/-- Whether the names of a rule, if it has any, are read as having the requested
    one, if there is one. -/
def name_matched : Option String → Option (List String) → Bool
  | some name, some names => names.contains name || names.contains "*"
  | _, _ => true

def rule_allows (rule : PolicyRule) (attrs : RequestAttributes) : Bool :=
  if !rule.verbs.contains attrs.verb && !rule.verbs.contains "*" then false
  else if attrs.is_non_resource_request then
    match rule.non_resource_urls, attrs.path with
    | some urls, some path => url_matched path urls
    | _, _ => false
  else if rule.api_groups.any fun groups =>
      !groups.contains attrs.api_group && !groups.contains "*" then false
  else if rule.resources.any fun resources => !resource_matched attrs resources then false
  else name_matched attrs.name rule.resource_names

def check_policy_rules (rules : List PolicyRule) (attrs : RequestAttributes) : Bool :=
  rules.any fun rule => rule_allows rule attrs

/-! ### The authorizer -/

structure RBACAuthorizer where
  storage : PolicyStore
  printable : Char → Bool

namespace RBACAuthorizer

def reference_rules (authorizer : RBACAuthorizer) (reference : RoleRef) (ns : String) :
    Except String (List PolicyRule) :=
  if reference.kind = "Role" then
    ((authorizer.storage.role ns reference.name).map Role.rules).mapError Error.to_string
  else if reference.kind = "ClusterRole" then
    ((authorizer.storage.cluster_role reference.name).map ClusterRole.rules).mapError
      Error.to_string
  else .error ("unsupported role reference kind: " ++ quoted authorizer.printable reference.kind)

/-- What a loop of `check_rbac` comes to: a reason to allow the request, or the
    errors met. -/
abbrev Visit := String ⊕ List String

/-- A loop of `check_rbac` over the bindings of one scope; `reason` words what
    allowed the request. -/
def visit_bindings (authorizer : RBACAuthorizer) (attrs : RequestAttributes) (ns : String)
    (reason : Binding → Subject → String) : List Binding → List String → Visit
  | [], errors => .inr errors
  | binding :: rest, errors =>
    match applicable_subject binding.subjects attrs.user ns with
    | none => visit_bindings authorizer attrs ns reason rest errors
    | some subject =>
      match authorizer.reference_rules binding.role_ref ns with
      | .error error => visit_bindings authorizer attrs ns reason rest (errors ++ [error])
      | .ok rules =>
        if check_policy_rules rules attrs then .inl (reason binding subject)
        else visit_bindings authorizer attrs ns reason rest errors

def visit_list (authorizer : RBACAuthorizer) (attrs : RequestAttributes) (ns : String)
    (reason : Binding → Subject → String) (listed : Except Error (List Binding))
    (errors : List String) : Visit :=
  match listed with
  | .error error => .inr (errors ++ [error.to_string])
  | .ok bindings => authorizer.visit_bindings attrs ns reason bindings errors

def cluster_reason (authorizer : RBACAuthorizer) (binding : Binding) (subject : Subject) : String :=
  let quote := quoted authorizer.printable
  "RBAC: allowed by ClusterRoleBinding " ++ quote binding.metadata.name ++ " of " ++
    binding.role_ref.kind ++ " " ++ quote binding.role_ref.name ++ " to " ++ describe_subject authorizer.printable subject ""

def namespaced_reason (authorizer : RBACAuthorizer) (binding : Binding) (subject : Subject) :
    String :=
  let quote := quoted authorizer.printable
  let binding_namespace := binding.metadata.ns.getD ""
  "RBAC: allowed by RoleBinding " ++ quote (binding.metadata.name ++ "/" ++ binding_namespace) ++
    " of " ++ binding.role_ref.kind ++ " " ++ quote binding.role_ref.name ++ " to " ++
    describe_subject authorizer.printable subject binding_namespace

def visit_rules (authorizer : RBACAuthorizer) (attrs : RequestAttributes) : Visit :=
  match authorizer.visit_list attrs "" authorizer.cluster_reason
      authorizer.storage.cluster_role_bindings [] with
  | .inl reason => .inl reason
  | .inr errors =>
    match attrs.ns.filter (· ≠ "") with
    | none => .inr errors
    | some ns =>
      authorizer.visit_list attrs ns authorizer.namespaced_reason
        (authorizer.storage.role_bindings ns) errors

def check_rbac (authorizer : RBACAuthorizer) (attrs : RequestAttributes) : Opinion :=
  match authorizer.visit_rules attrs with
  | .inl reason => .Allow reason
  | .inr errors => .NoOpinion (((aggregate_errors errors).map ("RBAC: " ++ ·)).getD "") none

def authorize (authorizer : RBACAuthorizer) (attrs : RequestAttributes) : Except Error Decision :=
  (AuthorizationOutcome.from_opinion (authorizer.check_rbac attrs)).into_decision

/-! ### What the authorizer looks at -/

/-- A binding gives the requester `rule` in the scope `ns`: one of its subjects is
    the requester, and its role can be read and has the rule. -/
def gives (authorizer : RBACAuthorizer) (attrs : RequestAttributes) (ns : String)
    (binding : Binding) (rule : PolicyRule) : Prop :=
  (∃ subject ∈ binding.subjects, subject_applies subject attrs.user ns = true) ∧
    ∃ rules, authorizer.reference_rules binding.role_ref ns = .ok rules ∧ rule ∈ rules

/-- A rule that applies to the requester: given by a ClusterRoleBinding, or by a
    RoleBinding of the request's namespace. -/
def applicable (authorizer : RBACAuthorizer) (attrs : RequestAttributes) (rule : PolicyRule) :
    Prop :=
  (∃ bindings, authorizer.storage.cluster_role_bindings = .ok bindings ∧
    ∃ binding ∈ bindings, authorizer.gives attrs "" binding rule) ∨
  ∃ ns, attrs.ns = some ns ∧ ns ≠ "" ∧
    ∃ bindings, authorizer.storage.role_bindings ns = .ok bindings ∧
      ∃ binding ∈ bindings, authorizer.gives attrs ns binding rule

variable {authorizer : RBACAuthorizer} {attrs : RequestAttributes}

variable {ns : String}

/-- The loop allows the request exactly when some binding gives a rule that
    does; a role that cannot be read neither allows nor stops the loop. -/
theorem visit_bindings_allows_iff {reason : Binding → Subject → String} (bindings : List Binding)
    (errors : List String) :
    (authorizer.visit_bindings attrs ns reason bindings errors).isLeft = true ↔
      ∃ binding ∈ bindings, ∃ rule, authorizer.gives attrs ns binding rule ∧
        rule_allows rule attrs = true := by
  induction bindings generalizing errors with
  | nil => simp [visit_bindings]
  | cons binding rest ih =>
    have hhead : (∃ rule, authorizer.gives attrs ns binding rule ∧ rule_allows rule attrs = true) ↔
        (applicable_subject binding.subjects attrs.user ns).isSome = true ∧
          ∃ rules, authorizer.reference_rules binding.role_ref ns = .ok rules ∧
            check_policy_rules rules attrs = true := by
      rw [applicable_subject, List.find?_isSome]
      simp only [gives, check_policy_rules, List.any_eq_true]
      constructor
      · rintro ⟨rule, ⟨hsub, rules, hrules, hmem⟩, hallow⟩
        exact ⟨hsub, rules, hrules, rule, hmem, hallow⟩
      · rintro ⟨hsub, rules, hrules, rule, hmem, hallow⟩
        exact ⟨rule, ⟨hsub, rules, hrules, hmem⟩, hallow⟩
    simp only [List.mem_cons, exists_eq_or_imp, hhead]
    unfold visit_bindings
    cases hsub : applicable_subject binding.subjects attrs.user ns with
    | none => simpa using ih errors
    | some =>
      cases hrules : authorizer.reference_rules binding.role_ref ns with
      | error e => simpa using ih (errors ++ [e])
      | ok rules =>
        cases hcheck : check_policy_rules rules attrs with
        | true => simp [hcheck]
        | false => simpa [hcheck] using ih errors

theorem visit_list_allows_iff {reason : Binding → Subject → String}
    (listed : Except Error (List Binding)) (errors : List String) :
    (authorizer.visit_list attrs ns reason listed errors).isLeft = true ↔
      ∃ bindings, listed = .ok bindings ∧ ∃ binding ∈ bindings, ∃ rule,
        authorizer.gives attrs ns binding rule ∧ rule_allows rule attrs = true := by
  cases listed with
  | error e => simp [visit_list]
  | ok bindings => simpa [visit_list] using visit_bindings_allows_iff bindings errors

theorem authorize_eq_allow_iff :
    authorizer.authorize attrs = .ok .Allow ↔ (authorizer.visit_rules attrs).isLeft = true := by
  unfold authorize check_rbac
  cases authorizer.visit_rules attrs with
  | inl reason | inr errors =>
    simp [AuthorizationOutcome.from_opinion, AuthorizationOutcome.into_decision]

/-- The authorizer allows a request exactly when `rule_allows` does for a rule
    that applies. -/
theorem authorize_allow_iff :
    authorizer.authorize attrs = .ok .Allow ↔
      ∃ rule, authorizer.applicable attrs rule ∧ rule_allows rule attrs = true := by
  rw [authorize_eq_allow_iff]
  have hscope : ∀ ns, attrs.ns.filter (· ≠ "") = some ns ↔ attrs.ns = some ns ∧ ns ≠ "" := by
    intro ns
    simp [Option.filter_eq_some_iff]
  have hcluster : (authorizer.visit_list attrs "" authorizer.cluster_reason
      authorizer.storage.cluster_role_bindings []).isLeft = true ↔ _ :=
    visit_list_allows_iff _ _
  unfold visit_rules
  cases hfirst : authorizer.visit_list attrs "" authorizer.cluster_reason
      authorizer.storage.cluster_role_bindings [] with
  | inl reason =>
    rw [hfirst] at hcluster
    obtain ⟨bs, hbs, b, hb, rule, hg, hallow⟩ := hcluster.mp rfl
    exact iff_of_true rfl ⟨rule, .inl ⟨bs, hbs, b, hb, hg⟩, hallow⟩
  | inr errors =>
    rw [hfirst] at hcluster
    -- nothing is allowed by the cluster's bindings
    have hno := mt hcluster.mpr (by simp)
    cases hns : attrs.ns.filter (· ≠ "") with
    | none =>
      refine iff_of_false Bool.false_ne_true ?_
      rintro ⟨rule, ⟨bs, hbs, b, hb, hg⟩ | ⟨ns, hattrs, hne, _⟩, hallow⟩
      · exact hno ⟨bs, hbs, b, hb, rule, hg, hallow⟩
      · rw [(hscope ns).mpr ⟨hattrs, hne⟩] at hns
        cases hns
    | some ns =>
      obtain ⟨hattrs, hne⟩ := (hscope ns).mp hns
      rw [visit_list_allows_iff]
      constructor
      · rintro ⟨bs, hbs, b, hb, rule, hg, hallow⟩
        exact ⟨rule, .inr ⟨ns, hattrs, hne, bs, hbs, b, hb, hg⟩, hallow⟩
      · rintro ⟨rule, ⟨bs, hbs, b, hb, hg⟩ | ⟨ns', hattrs', _, bs, hbs, b, hb, hg⟩, hallow⟩
        · exact absurd ⟨bs, hbs, b, hb, rule, hg, hallow⟩ hno
        · cases hattrs.symm.trans hattrs'
          exact ⟨bs, hbs, b, hb, rule, hg, hallow⟩

end RBACAuthorizer

end Authz
