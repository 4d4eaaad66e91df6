import PocketKafka.Authz.Types
import PocketKafka.Lib.UrlPath

namespace PocketKafka.Web

open Bytes Text UrlPath Authz

def clusterResource : Resource := ⟨resourceCluster, ascii "cluster"⟩

inductive Scope where
  | clusterScoped
  | topicScoped
  | groupScoped
  deriving DecidableEq

abbrev Params := List (Bytes × Bytes)

def Scope.res (scope : Scope) (params : Params) : Resource :=
  match scope with
  | .clusterScoped => clusterResource
  | .topicScoped => ⟨resourceTopic, (params.lookup (ascii "topic")).getD []⟩
  | .groupScoped => ⟨resourceGroup, (params.lookup (ascii "group")).getD []⟩

structure ApiRule where
  op : Operation
  listType : Option Bytes
  scope : Scope
  deriving DecidableEq

def apiRules : List (Bytes × ApiRule) :=
  [(ascii "GET /api/v1/cluster", ⟨.describe, none, .clusterScoped⟩),
    (ascii "GET /api/v1/topics", ⟨.describe, some resourceTopic, .clusterScoped⟩),
    (ascii "POST /api/v1/topics", ⟨.admin, none, .clusterScoped⟩),
    (ascii "DELETE /api/v1/topics/\x7btopic\x7d", ⟨.admin, none, .topicScoped⟩),
    (ascii "GET /api/v1/topics/\x7btopic\x7d/messages", ⟨.read, none, .topicScoped⟩),
    (ascii "POST /api/v1/topics/\x7btopic\x7d/messages", ⟨.write, none, .topicScoped⟩),
    (ascii "GET /api/v1/topics/\x7btopic\x7d/partitions", ⟨.describe, none, .topicScoped⟩),
    (ascii "POST /api/v1/topics/\x7btopic\x7d/truncate", ⟨.admin, none, .topicScoped⟩),
    (ascii "POST /api/v1/topics/\x7btopic\x7d/compact", ⟨.admin, none, .topicScoped⟩),
    (ascii "GET /api/v1/topics/\x7btopic\x7d/config", ⟨.describe, none, .topicScoped⟩),
    (ascii "PUT /api/v1/topics/\x7btopic\x7d/config", ⟨.admin, none, .topicScoped⟩),
    (ascii "POST /api/v1/topics/\x7btopic\x7d/import", ⟨.write, none, .topicScoped⟩),
    (ascii "GET /api/v1/topics/\x7btopic\x7d/tail", ⟨.read, none, .topicScoped⟩),
    (ascii "GET /api/v1/groups", ⟨.describe, some resourceGroup, .clusterScoped⟩),
    (ascii "GET /api/v1/groups/\x7bgroup\x7d", ⟨.describe, none, .groupScoped⟩),
    (ascii "DELETE /api/v1/groups/\x7bgroup\x7d", ⟨.admin, none, .groupScoped⟩),
    (ascii "POST /api/v1/groups/\x7bgroup\x7d/offsets/reset", ⟨.admin, none, .groupScoped⟩),
    (ascii "GET /api/v1/groups/\x7bgroup\x7d/offsets/export", ⟨.read, none, .groupScoped⟩),
    (ascii "POST /api/v1/groups/\x7bgroup\x7d/offsets/import", ⟨.write, none, .groupScoped⟩),
    (ascii "GET /api/v1/logs", ⟨.admin, none, .clusterScoped⟩),
    (ascii "GET /api/v1/throughput", ⟨.describe, none, .clusterScoped⟩),
    (ascii "POST /api/v1/schemas/register", ⟨.write, none, .clusterScoped⟩),
    (ascii "GET /api/v1/schemas", ⟨.describe, none, .clusterScoped⟩),
    (ascii "GET /api/v1/schemas/\x7bsubject\x7d", ⟨.describe, none, .clusterScoped⟩),
    (ascii "GET /api/v1/mqtt", ⟨.describe, none, .clusterScoped⟩),
    (ascii "POST /api/v1/mqtt/publish", ⟨.write, none, .clusterScoped⟩),
    (ascii "GET /api/v1/integrations", ⟨.admin, none, .clusterScoped⟩),
    (ascii "GET /api/v1/config", ⟨.admin, none, .clusterScoped⟩),
    (ascii "GET /api/v1/acls", ⟨.admin, none, .clusterScoped⟩),
    (ascii "PUT /api/v1/acls", ⟨.admin, none, .clusterScoped⟩),
    (ascii "DELETE /api/v1/acls", ⟨.admin, none, .clusterScoped⟩),
    (ascii "GET /api/v1/audit", ⟨.admin, none, .clusterScoped⟩),
    (ascii "GET /api/v1/auth/delegated-tokens", ⟨.admin, none, .clusterScoped⟩),
    (ascii "POST /api/v1/auth/delegated-tokens", ⟨.admin, none, .clusterScoped⟩),
    (ascii "DELETE /api/v1/auth/delegated-tokens/\x7bid\x7d", ⟨.admin, none, .clusterScoped⟩),
    (ascii "GET /api/v1/health/overview", ⟨.describe, none, .clusterScoped⟩),
    (ascii "GET /api/v1/health/clusters", ⟨.describe, none, .clusterScoped⟩),
    (ascii "GET /metrics", ⟨.describe, none, .clusterScoped⟩),
    (ascii "GET /api/v1/clusters", ⟨.admin, none, .clusterScoped⟩),
    (ascii "POST /api/v1/clusters", ⟨.admin, none, .clusterScoped⟩),
    (ascii "POST /api/v1/clusters/test", ⟨.admin, none, .clusterScoped⟩),
    (ascii "DELETE /api/v1/clusters/\x7bname\x7d", ⟨.admin, none, .clusterScoped⟩),
    (ascii "/api/v1/target/\x7bname\x7d/\x7bpath...\x7d", ⟨.admin, none, .clusterScoped⟩)]

def apiPublicPath (path : Bytes) : Bool :=
  path ∈ [ascii "/api/v1/auth/login", ascii "/api/v1/auth/logout", ascii "/api/v1/auth/status", ascii "/api/v1/info"]

def lookupRule (pattern : Bytes) : Option ApiRule :=
  if pattern = [] then none
  else
    match apiRules.lookup (trimSuffix pattern (ascii "/")) with
    | some rule => some rule
    | none => apiRules.lookup pattern

def patternPath (pattern : Bytes) : Bytes :=
  if 32 ∈ pattern then trimSpace ((pattern.dropWhile (· ≠ 32)).drop 1) else pattern

def splitSegments (p : Bytes) : List Bytes := if trim 47 p = [] then [] else split 47 (trim 47 p)

def pathParamName (seg : Bytes) : Option Bytes :=
  if seg.length < 3 ∨ seg.head? ≠ some 123 ∨ seg.getLast? ≠ some 125 then none
  else if (ascii "...").isSuffixOf seg.tail.dropLast then none
  else some seg.tail.dropLast

/-- The loop of `matchPattern`; a parameter that is set again hides the one before. -/
def matchSegments (params : Params) : List Bytes → List Bytes → Option Params
  | [], [] => some params
  | [], _ :: _ => none
  | seg :: pp, ps =>
    if seg = ascii "\x7bpath...\x7d" then
      if ps = [] then none else some ((ascii "path", [47].intercalate ps) :: params)
    else
      match ps with
      | [] => none
      | p :: ps =>
        match pathParamName seg with
        | some name => matchSegments ((name, p) :: params) pp ps
        | none => if seg ≠ p then none else matchSegments params pp ps

def matchPattern (pattern path : Bytes) : Option Params := matchSegments [] (splitSegments pattern) (splitSegments path)

def isAPIPath (path : Bytes) : Bool := (ascii "/api/").isPrefixOf path || path = ascii "/metrics"

/-- The patterns of `routes` whose parameters are single segments. -/
def registered : List Bytes :=
  [ascii "GET /api/v1/info", ascii "GET /api/v1/cluster", ascii "GET /api/v1/topics", ascii "POST /api/v1/topics",
    ascii "DELETE /api/v1/topics/\x7btopic\x7d", ascii "GET /api/v1/topics/\x7btopic\x7d/messages",
    ascii "POST /api/v1/topics/\x7btopic\x7d/messages", ascii "GET /api/v1/topics/\x7btopic\x7d/partitions",
    ascii "POST /api/v1/topics/\x7btopic\x7d/truncate", ascii "POST /api/v1/topics/\x7btopic\x7d/compact",
    ascii "GET /api/v1/groups", ascii "GET /api/v1/groups/\x7bgroup\x7d", ascii "DELETE /api/v1/groups/\x7bgroup\x7d",
    ascii "POST /api/v1/groups/\x7bgroup\x7d/offsets/reset", ascii "GET /api/v1/groups/\x7bgroup\x7d/offsets/export",
    ascii "POST /api/v1/groups/\x7bgroup\x7d/offsets/import", ascii "GET /api/v1/topics/\x7btopic\x7d/config",
    ascii "PUT /api/v1/topics/\x7btopic\x7d/config", ascii "POST /api/v1/topics/\x7btopic\x7d/import",
    ascii "GET /api/v1/logs", ascii "GET /api/v1/throughput", ascii "POST /api/v1/schemas/register",
    ascii "GET /api/v1/mqtt", ascii "POST /api/v1/mqtt/publish", ascii "GET /api/v1/integrations",
    ascii "GET /api/v1/config", ascii "GET /api/v1/schemas", ascii "GET /api/v1/schemas/\x7bsubject\x7d",
    ascii "GET /api/v1/acls", ascii "PUT /api/v1/acls", ascii "DELETE /api/v1/acls", ascii "GET /api/v1/audit",
    ascii "GET /api/v1/topics/\x7btopic\x7d/tail", ascii "POST /api/v1/auth/login", ascii "POST /api/v1/auth/logout",
    ascii "GET /api/v1/auth/status", ascii "GET /api/v1/auth/delegated-tokens", ascii "POST /api/v1/auth/delegated-tokens",
    ascii "DELETE /api/v1/auth/delegated-tokens/\x7bid\x7d", ascii "GET /healthz", ascii "GET /livez",
    ascii "GET /metrics", ascii "GET /api/v1/health/overview", ascii "GET /api/v1/health/clusters",
    ascii "GET /api/v1/clusters", ascii "POST /api/v1/clusters", ascii "POST /api/v1/clusters/test",
    ascii "DELETE /api/v1/clusters/\x7bname\x7d"]

def patternMethod (pattern : Bytes) : Bytes := pattern.takeWhile (· ≠ 32)

def segmentPart (seg : Bytes) : Part := if seg.head? = some 123 then .wild seg.tail.dropLast else .literal seg

def patternParts (pattern : Bytes) : List Part := (split 47 (pattern.dropWhile (· ≠ 32)).tail.tail).map segmentPart

structure Request where
  method : Bytes
  escaped : Bytes
  path : Bytes
  decoded : unescape escaped = some path
  principal : Bytes
  clusterTokenPresented : Bool

def methodMatches (pattern : Bytes) (r : Request) : Bool :=
  r.method = patternMethod pattern || (patternMethod pattern = ascii "GET" && r.method = ascii "HEAD")

/-- The pattern that a request is routed to. No two of them match the same request. -/
def muxHandler (r : Request) : Option Bytes :=
  registered.find? fun pattern => methodMatches pattern r && (pathValues (patternParts pattern) r.escaped).isSome

def pathValue (r : Request) (pattern name : Bytes) : Bytes :=
  (((pathValues (patternParts pattern) r.escaped).getD []).lookup name).getD []

/-- `canDescribeAny` is what the authorizer says about lists, if it can tell. -/
structure Server where
  authorize : Bool
  authorizer : Option Authorizer
  canDescribeAny : Option (Bytes → Bytes → Bool)

inductive Decision where
  | served (checked : Option (Bytes × Operation × Resource))
  | denied (action detail : String)
  deriving DecidableEq

namespace Server

variable (s : Server)

def can (principal : Bytes) (op : Operation) (res : Resource) : Bool :=
  !s.authorize || match s.authorizer with
    | none => false
    | some a =>
      principal ≠ [] &&
        (a.allows principal op res ||
          (op = .describe && res.type ≠ resourceCluster && a.allows principal op clusterResource))

def canList (principal resourceType : Bytes) : Bool :=
  !s.authorize || match s.authorizer with
    | none => false
    | some a =>
      principal ≠ [] && (s.canDescribeAny.any (· principal resourceType) || a.allows principal .describe clusterResource)

def authorizeAPI (r : Request) : Decision :=
  if !s.authorize || !isAPIPath r.path || apiPublicPath r.path then .served none
  else if r.clusterTokenPresented then .served none
  else if (ascii "/api/v1/fleet/").isPrefixOf r.path || r.path = ascii "/api/v1/fleet" then .served none
  else
    match (muxHandler r).bind fun pattern => (lookupRule pattern).map (pattern, ·) with
    | none =>
      let shown := text r.path
      .denied "auth.route" s!"no authorization rule for {shown}"
    | some (pattern, rule) =>
      match matchPattern (patternPath pattern) r.path with
      | none => .denied "auth.route" "route pattern did not match the request path"
      | some params =>
        match rule.listType with
        | some listType =>
          if s.canList r.principal listType then .served none
          else
            let shown := text listType
            .denied "auth.list" s!"may not list {shown}s"
        | none =>
          let res := rule.scope.res params
          if s.can r.principal rule.op res then .served (some (r.principal, rule.op, res))
          else
            let op := text rule.op.name
            let type := text res.type
            let name := text res.name
            .denied "auth.request" s!"needs {op} on {type} \"{name}\""

end Server

namespace Scope

def type : Scope → Bytes
  | .clusterScoped => resourceCluster
  | .topicScoped => resourceTopic
  | .groupScoped => resourceGroup

def param : Scope → Bytes
  | .clusterScoped => []
  | .topicScoped => ascii "topic"
  | .groupScoped => ascii "group"

def front : Scope → List Bytes
  | .clusterScoped => []
  | .topicScoped => [ascii "api", ascii "v1", ascii "topics"]
  | .groupScoped => [ascii "api", ascii "v1", ascii "groups"]

theorem res_param {scope : Scope} (narrow : scope ≠ .clusterScoped) (value : Bytes) :
    scope.res [(scope.param, value)] = ⟨scope.type, value⟩ := by
  cases scope with
  | clusterScoped => exact absurd rfl narrow
  | topicScoped => rw [res, param, List.lookup_cons_self]; rfl
  | groupScoped => rw [res, param, List.lookup_cons_self]; rfl

end Scope

def PlainWord (word : Bytes) : Prop :=
  word ≠ [] ∧ 47 ∉ word ∧ pathParamName word = none ∧ word ≠ ascii "\x7bpath...\x7d"

instance (word : Bytes) : Decidable (PlainWord word) := inferInstanceAs (Decidable (_ ∧ _ ∧ _ ∧ _))

def Scope.braced (scope : Scope) : Bytes := 123 :: scope.param ++ [125]

def backWords (pattern : Bytes) : List Bytes := (splitSegments (patternPath pattern)).drop 4

structure Scoped (pattern : Bytes) (rule : ApiRule) : Prop where
  single : rule.listType = none
  parts : patternParts pattern = rule.scope.front.map .literal ++ .wild rule.scope.param :: (backWords pattern).map .literal
  segments : splitSegments (patternPath pattern) = rule.scope.front ++ rule.scope.braced :: backWords pattern
  plain : ∀ word ∈ rule.scope.front ++ backWords pattern, PlainWord word

instance (pattern : Bytes) (rule : ApiRule) : Decidable (Scoped pattern rule) :=
  decidable_of_iff
    (rule.listType = none ∧
      patternParts pattern = rule.scope.front.map .literal ++ .wild rule.scope.param :: (backWords pattern).map .literal ∧
      splitSegments (patternPath pattern) = rule.scope.front ++ rule.scope.braced :: backWords pattern ∧
      ∀ word ∈ rule.scope.front ++ backWords pattern, PlainWord word)
    ⟨fun ⟨a, b, c, d⟩ => ⟨a, b, c, d⟩, fun ⟨a, b, c, d⟩ => ⟨a, b, c, d⟩⟩

theorem Scoped.of_chars {chars : List Char} {rule : ApiRule}
    (shape : Scoped (chars.map fun c => UInt8.ofNat c.toNat) rule) : Scoped (ascii (String.ofList chars)) rule := by
  rwa [ascii_ofList]

theorem apiRules_scoped : ∀ entry ∈ apiRules, entry.2.scope ≠ .clusterScoped → Scoped entry.1 entry.2 := by
  simp only [apiRules, List.forall_mem_cons, List.not_mem_nil, ne_eq, not_true_eq_false, reduceCtorEq, not_false_eq_true,
    false_implies, true_implies, implies_true, and_true, true_and]
  -- The characters of a literal are compared without decoding it.
  and_intros <;> exact .of_chars (by decide +kernel)

theorem trimSuffix_slash {s : Bytes} (last : s.getLast? ≠ some 47) : trimSuffix s (ascii "/") = s := by
  rw [trimSuffix, if_neg]
  rw [List.isSuffixOf_iff_suffix]
  rintro ⟨front, rfl⟩
  exact last List.getLast?_concat

theorem trimSuffix_ascii (chars : List Char) (last : (chars.map fun c => UInt8.ofNat c.toNat).getLast? ≠ some 47) :
    trimSuffix (ascii (String.ofList chars)) (ascii "/") = ascii (String.ofList chars) := by
  apply trimSuffix_slash
  rwa [ascii_ofList]

theorem registered_trimmed : ∀ pattern ∈ registered, trimSuffix pattern (ascii "/") = pattern := by
  simp only [registered, List.forall_mem_cons, List.not_mem_nil, false_implies, implies_true, and_true]
  and_intros <;> exact trimSuffix_ascii _ (by decide)

theorem registered_scoped {pattern : Bytes} {rule : ApiRule} (member : pattern ∈ registered)
    (ruled : lookupRule pattern = some rule)
    (narrow : rule.scope ≠ .clusterScoped) : Scoped pattern rule := by
  have found : apiRules.lookup pattern = some rule := by
    unfold lookupRule at ruled
    rw [registered_trimmed pattern member] at ruled
    split at ruled
    · cases ruled
    · split at ruled
      · rename_i hit
        rw [hit, ruled]
      · exact ruled
  obtain ⟨_, _, rules, _⟩ := List.lookup_eq_some_iff.mp found
  exact apiRules_scoped (pattern, rule) (by rw [rules]; simp) narrow

section matching

variable {params result : Params} {scope : Scope} {front back pp ps : List Bytes}

theorem matchSegments_word {word : Bytes} (plain : PlainWord word) (p : Bytes) :
    matchSegments params (word :: pp) (p :: ps) = if word = p then matchSegments params pp ps else none := by
  obtain ⟨_, _, name, rest⟩ := plain
  rw [matchSegments.eq_def]
  simp only [rest, name, if_false, ite_not]

theorem matchSegments_short {word : Bytes} (rest : word ≠ ascii "\x7bpath...\x7d") :
    matchSegments params (word :: pp) [] = none := by
  rw [matchSegments.eq_def]
  simp only [rest, if_false]

theorem matchSegments_words (plain : ∀ word ∈ front, PlainWord word) :
    matchSegments params (front ++ pp) (front ++ ps) = matchSegments params pp ps := by
  induction front with
  | nil => rfl
  | cons word front ih =>
    obtain ⟨first, plain⟩ := List.forall_mem_cons.mp plain
    rw [List.cons_append, List.cons_append, matchSegments_word first, if_pos rfl, ih plain]

theorem matchSegments_plain (plain : ∀ word ∈ back, PlainWord word) (matched : matchSegments params back ps = some result) :
    ps = back ∧ result = params := by
  induction back generalizing ps with
  | nil =>
    cases ps with
    | nil =>
      cases matched
      exact ⟨rfl, rfl⟩
    | cons _ _ => cases matched
  | cons word back ih =>
    obtain ⟨first, plain⟩ := List.forall_mem_cons.mp plain
    cases ps with
    | nil =>
      rw [matchSegments_short first.2.2.2] at matched
      cases matched
    | cons p ps =>
      rw [matchSegments_word first] at matched
      split at matched
      · rename_i same
        obtain ⟨rfl, rfl⟩ := ih plain matched
        exact ⟨congrArg (· :: ps) same.symm, rfl⟩
      · cases matched

theorem matchSegments_braced (narrow : scope ≠ .clusterScoped) (plain : ∀ word ∈ back, PlainWord word)
    (matched : matchSegments params (scope.braced :: back) ps = some result) :
    ∃ first, ps = first :: back ∧ result = (scope.param, first) :: params := by
  have name : pathParamName scope.braced = some scope.param := by
    cases scope with
    | clusterScoped => exact absurd rfl narrow
    | topicScoped => decide
    | groupScoped => decide
  have rest : scope.braced ≠ ascii "\x7bpath...\x7d" := by
    cases scope <;> decide
  cases ps with
  | nil =>
    rw [matchSegments_short rest] at matched
    cases matched
  | cons first ps =>
    rw [matchSegments.eq_def] at matched
    simp only [rest, name, if_false] at matched
    obtain ⟨rfl, rfl⟩ := matchSegments_plain plain matched
    exact ⟨first, rfl, rfl⟩

end matching

theorem fill_words (front back : List Bytes) (name value : Bytes) :
    fill (front.map .literal ++ .wild name :: back.map .literal) [(name, value)] = front ++ value :: back := by
  induction front with
  | nil =>
    rw [List.map_nil, List.nil_append, fill, List.nil_append]
    congr 1
    induction back with
    | nil => rfl
    | cons word back ih => rw [List.map_cons, fill, ih]
  | cons word front ih => rw [List.map_cons, List.cons_append, fill, ih, List.cons_append]

theorem names_words (front back : List Bytes) (name : Bytes) :
    names (front.map .literal ++ .wild name :: back.map .literal) = [name] := by
  induction front with
  | nil =>
    rw [List.map_nil, List.nil_append, names]
    congr 1
    induction back with
    | nil => rfl
    | cons word back ih => rw [List.map_cons, names, ih]
  | cons word front ih => rw [List.map_cons, List.cons_append, names, ih]

variable {r : Request} {pattern : Bytes} {rule : ApiRule}

theorem Scoped.path (shape : Scoped pattern rule) (routed : muxHandler r = some pattern) :
    r.path = 47 :: [47].intercalate (rule.scope.front ++ pathValue r pattern rule.scope.param :: backWords pattern) := by
  have found := List.find?_some routed
  obtain ⟨values, hit⟩ := Option.isSome_iff_exists.mp (Bool.and_eq_true_iff.mp found).2
  obtain ⟨path, named⟩ := path_of_pathValues r.decoded hit
  rw [shape.parts, names_words] at named
  obtain ⟨⟨_, v⟩, rfl, rfl⟩ := List.map_eq_singleton_iff.mp named
  have value : pathValue r pattern rule.scope.param = v := by
    rw [pathValue, hit, Option.getD_some, List.lookup_cons_self, Option.getD_some]
  rw [path, value, shape.parts, fill_words]

theorem first_eq_iff {value first : Bytes} {back : List Bytes} (plain : ∀ word ∈ back, PlainWord word)
    (parts : (split 47 value ++ back).rdropWhile (· = []) = first :: back) :
    first = value ↔ value.getLast? ≠ some 47 := by
  rcases List.eq_nil_or_concat back with rfl | ⟨before, last, rfl⟩
  · rw [List.append_nil] at parts
    by_cases only : ∀ x ∈ value, x = 47
    · rw [rdropWhile_split_slashes only] at parts
      cases parts
    · obtain ⟨x, member, other⟩ := not_forall₂.mp only
      have trimmed := congrArg [(47 : UInt8)].intercalate ((split_rdropWhile ⟨x, member, other⟩).trans parts)
      rw [intercalate_split, List.intercalate_singleton] at trimmed
      rw [← trimmed, List.rdropWhile_eq_self_iff, List.getLast?_eq_some_getLast (List.ne_nil_of_mem member)]
      simp [List.ne_nil_of_mem member]
  · have filled := (plain last (by simp)).1
    rw [List.concat_eq_append, ← List.append_assoc, rdropWhile_append_word _ filled, List.rdropWhile_nil,
      List.append_assoc] at parts
    obtain ⟨single, _⟩ := @List.append_inj' _ (split 47 value) _ [first] _ parts rfl
    have whole := congrArg [(47 : UInt8)].intercalate single
    rw [intercalate_split, List.intercalate_singleton] at whole
    refine ⟨fun _ last => ?_, fun _ => whole.symm⟩
    have inside : (47 : UInt8) ∈ first := whole ▸ List.mem_of_getLast? last
    exact not_mem_of_mem_split (single ▸ List.mem_singleton_self first) inside

theorem flatMap_plain {words : List Bytes} (plain : ∀ word ∈ words, PlainWord word) : words.flatMap (split 47) = words := by
  induction words with
  | nil => rfl
  | cons word words ih =>
    obtain ⟨first, plain⟩ := List.forall_mem_cons.mp plain
    rw [List.flatMap_cons, split_of_not_mem first.2.1, ih plain, List.singleton_append]

theorem splitSegments_rooted {x : UInt8} {word : Bytes} (other : x ≠ 47) (segs : List Bytes) :
    splitSegments (47 :: [47].intercalate ((x :: word) :: segs)) =
      (((x :: word) :: segs).flatMap (split 47)).rdropWhile (· = []) := by
  have filled : trim 47 (47 :: [47].intercalate ((x :: word) :: segs)) ≠ [] := by
    cases segs with
    | nil =>
      rw [List.intercalate_singleton]
      exact trim_ne_nil other word
    | cons seg segs =>
      rw [intercalate_cons_cons, List.cons_append]
      exact trim_ne_nil other _
  rw [splitSegments, if_neg filled, split_trim_segments other]

theorem Scoped.parts_of_path (shape : Scoped pattern rule) (narrow : rule.scope ≠ .clusterScoped)
    (routed : muxHandler r = some pattern) :
    splitSegments r.path = rule.scope.front ++
      (split 47 (pathValue r pattern rule.scope.param) ++ backWords pattern).rdropWhile (· = []) := by
  have path := shape.path routed
  have back := flatMap_plain fun word member => shape.plain word (List.mem_append_right rule.scope.front member)
  have front := flatMap_plain fun word member => shape.plain word (List.mem_append_left (backWords pattern) member)
  have parts : splitSegments r.path =
      ((rule.scope.front ++ pathValue r pattern rule.scope.param :: backWords pattern).flatMap (split 47)).rdropWhile
        (· = []) := by
    rw [path]
    cases scope : rule.scope with
    | clusterScoped => exact absurd scope narrow
    | topicScoped => exact splitSegments_rooted (by decide) _
    | groupScoped => exact splitSegments_rooted (by decide) _
  rw [parts, List.flatMap_append, List.flatMap_cons, front, back]
  cases scope : rule.scope with
  | clusterScoped => exact absurd scope narrow
  | topicScoped => exact rdropWhile_append_word [ascii "api", ascii "v1"] (by decide) _
  | groupScoped => exact rdropWhile_append_word [ascii "api", ascii "v1"] (by decide) _

theorem Scoped.matched (shape : Scoped pattern rule) (narrow : rule.scope ≠ .clusterScoped)
    (routed : muxHandler r = some pattern)
    {params : Params} (matched : matchPattern (patternPath pattern) r.path = some params) :
    ∃ first, params = [(rule.scope.param, first)] ∧
      (first = pathValue r pattern rule.scope.param ↔ (pathValue r pattern rule.scope.param).getLast? ≠ some 47) := by
  have front : ∀ word ∈ rule.scope.front, PlainWord word :=
    fun word member => shape.plain word (List.mem_append_left _ member)
  have back : ∀ word ∈ backWords pattern, PlainWord word :=
    fun word member => shape.plain word (List.mem_append_right _ member)
  rw [matchPattern, shape.segments, shape.parts_of_path narrow routed, matchSegments_words front] at matched
  obtain ⟨first, parts, rfl⟩ := matchSegments_braced narrow back matched
  exact ⟨first, rfl, first_eq_iff back parts⟩

theorem Scoped.guarded (shape : Scoped pattern rule) (narrow : rule.scope ≠ .clusterScoped)
    (routed : muxHandler r = some pattern) :
    isAPIPath r.path = true ∧ apiPublicPath r.path = false ∧ (ascii "/api/v1/fleet/").isPrefixOf r.path = false ∧
      r.path ≠ ascii "/api/v1/fleet" := by
  have path := shape.path routed
  cases scope : rule.scope with
  | clusterScoped => exact absurd scope narrow
  | topicScoped =>
    have other : some (116 : UInt8) ≠ some 102 := by decide
    rw [scope] at path
    rw [path]
    exact ⟨rfl, rfl, rfl, fun same => other (congrArg (fun p : Bytes => (p.drop 8).head?) same)⟩
  | groupScoped =>
    have other : some (103 : UInt8) ≠ some 102 := by decide
    rw [scope] at path
    rw [path]
    exact ⟨rfl, rfl, rfl, fun same => other (congrArg (fun p : Bytes => (p.drop 8).head?) same)⟩

/-- The name that a request of one topic or group is checked for is the name that its handler uses, if that does not end in a
    slash. -/
theorem checked_name_used_iff {s : Server} (on : s.authorize = true) (token : r.clusterTokenPresented = false)
    (routed : muxHandler r = some pattern) (ruled : lookupRule pattern = some rule) (narrow : rule.scope ≠ .clusterScoped)
    {checked : Option (Bytes × Operation × Resource)} (through : s.authorizeAPI r = .served checked) :
    checked = some (r.principal, rule.op, ⟨rule.scope.type, pathValue r pattern rule.scope.param⟩) ↔
      (pathValue r pattern rule.scope.param).getLast? ≠ some 47 := by
  have shape := registered_scoped (List.mem_of_find?_eq_some routed) ruled narrow
  obtain ⟨api, hidden, fleet, fleets⟩ := shape.guarded narrow routed
  unfold Server.authorizeAPI at through
  rw [on, api, hidden, token, fleet, routed] at through
  simp only [Bool.not_true, Bool.or_self, Bool.false_eq_true, if_false, Bool.false_or, decide_eq_true_eq, fleets,
    Option.bind_some, ruled, Option.map_some, shape.single] at through
  split at through
  · cases through
  rename_i params found
  obtain ⟨first, rfl, same⟩ := shape.matched narrow routed found
  rw [Scope.res_param narrow] at through
  split at through
  · cases through
    rw [← same]
    constructor
    · intro equal
      cases equal
      rfl
    · rintro rfl
      rfl
  · cases through

def guarded (authorizer : Authorizer) : Server := ⟨true, some authorizer, none⟩

def askedByAnn (method escaped path : Bytes) (decoded : unescape escaped = some path) : Request :=
  ⟨method, escaped, path, decoded, ascii "ann", false⟩

def detailRequest : Request :=
  askedByAnn (ascii "GET") (ascii "/api/v1/groups/a%41") (ascii "/api/v1/groups/aA") (by decide +kernel)

theorem checked_name_used_decoded :
    ∃ pattern rule checked, muxHandler detailRequest = some pattern ∧ lookupRule pattern = some rule ∧
      (guarded fun _ _ _ => true).authorizeAPI detailRequest = .served checked ∧
      (checked = some (detailRequest.principal, rule.op,
        ⟨rule.scope.type, pathValue detailRequest pattern rule.scope.param⟩) ↔
        (pathValue detailRequest pattern rule.scope.param).getLast? ≠ some 47) := by
  have routed : muxHandler detailRequest = some (ascii "GET /api/v1/groups/\x7bgroup\x7d") := by decide +kernel
  have ruled : lookupRule (ascii "GET /api/v1/groups/\x7bgroup\x7d") = some ⟨.describe, none,
    .groupScoped⟩ := by decide +kernel
  have through : (guarded fun _ _ _ => true).authorizeAPI detailRequest =
      .served (some (ascii "ann", .describe, ⟨resourceGroup, ascii "aA"⟩)) := by
    unfold Server.authorizeAPI
    rw [routed, Option.bind_some, ruled]
    decide +kernel
  exact ⟨_, _, _, routed, ruled, through, checked_name_used_iff rfl rfl routed ruled (by decide) through⟩

def deleteRequest : Request :=
  askedByAnn (ascii "DELETE") (ascii "/api/v1/groups/a%2F") (ascii "/api/v1/groups/a/") (by decide +kernel)

/-- The group that is deleted is another than the one the rule allows. -/
theorem other_group_checked :
    ∃ (s : Server) (pattern : Bytes), s.authorize = true ∧ muxHandler deleteRequest = some pattern ∧
      s.can deleteRequest.principal .admin ⟨resourceGroup, pathValue deleteRequest pattern (ascii "group")⟩ = false ∧
      pathValue deleteRequest pattern (ascii "group") = ascii "a/" ∧
      s.authorizeAPI deleteRequest = .served (some (ascii "ann", .admin, ⟨resourceGroup, ascii "a"⟩)) := by
  have routed : muxHandler deleteRequest = some (ascii "DELETE /api/v1/groups/\x7bgroup\x7d") := by decide +kernel
  refine ⟨guarded fun _ _ res => res = ⟨resourceGroup, ascii "a"⟩, _, rfl, routed, by decide +kernel, by decide +kernel, ?_⟩
  unfold Server.authorizeAPI
  rw [routed]
  decide +kernel

end PocketKafka.Web
