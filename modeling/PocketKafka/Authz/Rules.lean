import PocketKafka.Authz.Types

namespace PocketKafka.Authz

open Bytes Text

structure Rule where
  principal : Bytes
  resourceType : Bytes
  resourceName : Bytes
  operations : List Bytes
  deriving DecidableEq, Repr

def containsOperation (ops : List Bytes) (op : Operation) : Bool :=
  ops.any fun o => o = wildcard || (impliedOperations o).any fun granted => equalFold granted op.name

def principalMatches (rulePrincipal principal : Bytes) : Bool := rulePrincipal = principal || rulePrincipal = wildcard

/-- The loop of `Authorize`: a rule that names the resource itself decides, the others only count where
    there is none. -/
def authorizeLoop (principal : Bytes) (op : Operation) (res : Resource) : List Rule → Bool → Bool → Bool
  | [], exactExists, wildcardGrant => !exactExists && wildcardGrant
  | r :: rest, exactExists, wildcardGrant =>
    if !principalMatches r.principal principal then authorizeLoop principal op res rest exactExists wildcardGrant
    else if r.resourceType ≠ res.type ∧ r.resourceType ≠ wildcard then
      authorizeLoop principal op res rest exactExists wildcardGrant
    else if r.resourceName ≠ res.name ∧ r.resourceName ≠ wildcard then
      authorizeLoop principal op res rest exactExists wildcardGrant
    else
      let grant := containsOperation r.operations op
      if r.resourceType = res.type ∧ r.resourceName = res.name then
        grant || authorizeLoop principal op res rest true wildcardGrant
      else authorizeLoop principal op res rest exactExists (wildcardGrant || grant)

def authorize (rules : List Rule) (principal : Bytes) (op : Operation) (res : Resource) : Bool :=
  principal ≠ [] && authorizeLoop principal op res rules false false

def grantsWildcardAdmin (rule : Rule) : Bool := rule.principal = wildcard && containsOperation rule.operations .admin

def wildcardAdminErr (allowWildcardAdmin : Bool) (rule : Rule) : Except Failure Unit :=
  if !grantsWildcardAdmin rule || allowWildcardAdmin then .ok ()
  else .error (.error ("authz: a rule granting Admin to \"*\" would let every identity administer the cluster; " ++
    "grant it to named principals or set security.allow_wildcard_admin=true"))

def validateRule (rule : Rule) : Except Failure Unit :=
  let rt := trimSpace rule.resourceType
  if trimSpace rule.principal = [] then .error (.error "authz: rule principal must not be empty")
  else if rt ≠ [] && !knownResourceType (toLower rt) then
    let shown := text rule.resourceType
    .error (.error s!"authz: unknown resource type \"{shown}\" (want \"topic\", \"group\", \"cluster\" or \"*\")")
  else
    match rule.operations.find? fun op => !knownOperationsSet (trimSpace op) with
    | some op =>
      let shown := text op
      .error (.error s!"authz: unknown operation \"{shown}\"")
    | none => .ok ()

def normalizeResourceType (t : Bytes) : Except Failure Bytes :=
  let lower := toLower (trimSpace t)
  if lower ∈ resourceTypes then .ok lower
  else if lower = wildcard ∨ lower = [] then .ok wildcard
  else
    let shown := text t
    .error (.error s!"authz: unknown resource type \"{shown}\"")

def withName (rule : Rule) : Rule :=
  if trimSpace rule.resourceName = [] then { rule with resourceName := wildcard } else rule

def sameKey (a b : Rule) : Bool :=
  decide (a.principal = b.principal ∧ a.resourceType = b.resourceType ∧ a.resourceName = b.resourceName)

inductive RuleRequest where
  | upsert (rule : Rule)
  | delete (principal resourceType resourceName : Bytes)
  | replace (rules : List Rule)
  deriving DecidableEq, Repr

def upsertRule (rule : Rule) : List Rule → List Rule
  | [] => [rule]
  | r :: rest => if sameKey r rule then rule :: rest else r :: upsertRule rule rest

/-- What a request whose arguments have been checked makes of the rules. -/
def RuleRequest.apply (rules : List Rule) : RuleRequest → List Rule
  | upsert rule => upsertRule rule rules
  | delete principal resourceType resourceName => rules.filter fun r =>
      decide (¬ (r.principal = principal ∧ r.resourceType = resourceType ∧ r.resourceName = resourceName))
  | replace rules => rules

/-- The loop of `Replace` over the rules. -/
def prepareRules (allowWildcardAdmin : Bool) : List Rule → Except Failure (List Rule)
  | [] => .ok []
  | rule :: rest =>
    match validateRule rule with
    | .error failure => .error failure
    | .ok () =>
      if rule.principal = wildcard && !allowWildcardAdmin && containsOperation rule.operations .admin then
        .error (.error "authz: rule for principal \"*\" grants Admin; set security.allow_wildcard_admin=true to accept it")
      else
        match normalizeResourceType rule.resourceType with
        | .error failure => .error failure
        | .ok rt =>
          match prepareRules allowWildcardAdmin rest with
          | .error failure => .error failure
          | .ok rest => .ok (withName { rule with resourceType := rt } :: rest)

/-- The checks of a request, and the request with its arguments as they are stored. -/
def RuleRequest.prepare (allowWildcardAdmin : Bool) : RuleRequest → Except Failure RuleRequest
  | upsert rule =>
    match validateRule rule with
    | .error failure => .error failure
    | .ok () =>
      match wildcardAdminErr allowWildcardAdmin rule with
      | .error failure => .error failure
      | .ok () => .ok (.upsert (withName rule))
  | delete principal resourceType resourceName =>
    match normalizeResourceType resourceType with
    | .error failure => .error failure
    | .ok rt => .ok (.delete principal rt resourceName)
  | replace rules =>
    match prepareRules allowWildcardAdmin rules with
    | .error failure => .error failure
    | .ok rules => .ok (.replace rules)

end PocketKafka.Authz
