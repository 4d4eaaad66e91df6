import PocketKafka.Authz.Types
import PocketKafka.Lib.UrlPath
import PocketKafka.Server.Gate
import PocketKafka.Storage.TopicNames

namespace PocketKafka.Gateway

open Bytes Text UrlPath Authz Server
open Storage (Store validateTopicName validateTopicName_ok)

structure SecurityUser where
  username : Bytes
  password : Bytes
  passwordHash : Bytes

structure HttpRequest where
  method : Bytes
  escaped : Bytes
  path : Bytes
  decoded : unescape escaped = some path
  tls : Bool
  basicAuth : Option (Bytes × Bytes)
  addr : Bytes

/-- `limiter` says which addresses may try at the moment. -/
structure Middleware where
  enabled : Bool
  users : List SecurityUser
  authz : Authorizer
  publicPaths : List Bytes
  requireTLS : Bool
  limiter : Bytes → Bool
  crypto : Crypto

/-- What becomes of a request: the next handler, after a check or without one, or a status. -/
inductive Outcome where
  | served (checked : Option (Bytes × Operation × Resource))
  | refused (status : Nat)
  deriving DecidableEq

def scanSegments : List Bytes → Option Resource
  | seg :: next :: rest =>
    if seg = ascii "topics" then some ⟨resourceTopic, next⟩
    else if seg = ascii "groups" then some ⟨resourceGroup, next⟩
    else scanSegments (next :: rest)
  | _ => none

def clusterResource : Resource := ⟨resourceCluster, ascii "cluster"⟩

def defaultClassify (r : HttpRequest) : Operation × Resource :=
  let op : Operation := if r.method ∈ [ascii "GET", ascii "HEAD", ascii "OPTIONS"] then .read else .write
  (op, (scanSegments (split 47 (trim 47 r.path))).getD clusterResource)

namespace Middleware

def isPublic (m : Middleware) (path : Bytes) : Bool := m.publicPaths.any fun p => p ≠ [] && p.isPrefixOf path

def credentialsValid (m : Middleware) (username password : Bytes) : Bool :=
  username ≠ [] && match m.users.find? fun u => u.username = username with
    | none => false
    | some u =>
      let stored := if u.password = [] then u.passwordHash else u.password
      stored ≠ [] && passwordMatches m.crypto stored password

def wrap (m : Middleware) (r : HttpRequest) : Outcome :=
  if !m.enabled then .served none
  else if m.isPublic r.path then .served none
  else if !m.limiter r.addr then .refused 429
  else if m.requireTLS && !r.tls then .refused 426
  else
    match r.basicAuth with
    | none => .refused 401
    | some (username, password) =>
      if !m.credentialsValid username password then .refused 401
      else
        let (op, res) := defaultClassify r
        if m.authz.allows username op res then .served (some (username, op, res)) else .refused 403

end Middleware

inductive RestCall where
  | publish (topic : Bytes)
  | consume (topic : Bytes)
  deriving DecidableEq

def restPattern : List Part := [.literal (ascii "topics"), .wild (ascii "topic"), .literal (ascii "messages")]

/-- `RESTProxy.Handler`; a pattern for GET takes HEAD as well. -/
def restRoute (r : HttpRequest) : Option RestCall :=
  match (pathValues restPattern r.escaped).bind fun values => values.lookup (ascii "topic") with
  | none => none
  | some topic =>
    if r.method = ascii "POST" then some (.publish topic)
    else if r.method = ascii "GET" ∨ r.method = ascii "HEAD" then some (.consume topic)
    else none

def RestCall.topic : RestCall → Bytes
  | .publish topic => topic
  | .consume topic => topic

/-- The topics that a handler gets to: those of the store, and for `publish` those that it may create. -/
def RestCall.Touches (store : Store) : RestCall → Prop
  | .publish topic => (store.getTopic topic).isSome ∨ (validateTopicName topic).isOk
  | .consume topic => (store.getTopic topic).isSome

inductive RegistryRoute where
  | subjects
  | versions (subject : Bytes)
  | version (subject version : Bytes)
  | schema (id : Bytes)
  deriving DecidableEq

def subjectsPattern : List Part := [.literal (ascii "subjects")]

def versionsPattern : List Part := [.literal (ascii "subjects"), .wild (ascii "subject"), .literal (ascii "versions")]

def versionPattern : List Part :=
  [.literal (ascii "subjects"), .wild (ascii "subject"), .literal (ascii "versions"), .wild (ascii "version")]

def schemaPattern : List Part := [.literal (ascii "schemas"), .literal (ascii "ids"), .wild (ascii "id")]

/-- `Registry.Handler`: the versions of a subject are registered for POST and for GET, the others for GET. -/
def registryRoute (r : HttpRequest) : Option RegistryRoute :=
  let read := r.method = ascii "GET" ∨ r.method = ascii "HEAD"
  match pathValues subjectsPattern r.escaped with
  | some _ => if read then some .subjects else none
  | none =>
    match pathValues versionsPattern r.escaped with
    | some values =>
      if r.method = ascii "POST" ∨ read then (values.lookup (ascii "subject")).map .versions else none
    | none =>
      match pathValues versionPattern r.escaped with
      | some values =>
        if read then (values.lookup (ascii "subject")).bind fun s => (values.lookup (ascii "version")).map (.version s)
          else none
      | none =>
        match pathValues schemaPattern r.escaped with
        | some values => if read then (values.lookup (ascii "id")).map .schema else none
        | none => none

def RegistryRoute.segments : RegistryRoute → List Bytes
  | .subjects => [ascii "subjects"]
  | .versions subject => [ascii "subjects", subject, ascii "versions"]
  | .version subject v => [ascii "subjects", subject, ascii "versions", v]
  | .schema id => [ascii "schemas", ascii "ids", id]

variable {r : HttpRequest}

theorem restRoute_path {call : RestCall} (routed : restRoute r = some call) :
    r.path = 47 :: [47].intercalate [ascii "topics", call.topic, ascii "messages"] := by
  unfold restRoute at routed
  split at routed
  · cases routed
  · rename_i topic found
    have named : call.topic = topic := by
      split_ifs at routed <;> cases routed <;> rfl
    obtain ⟨values, hit, value⟩ := Option.bind_eq_some_iff.mp found
    obtain ⟨path, names⟩ := path_of_pathValues r.decoded hit
    obtain ⟨⟨_, v⟩, rfl, rfl⟩ := List.map_eq_singleton_iff.mp names
    rw [List.lookup_cons_self] at value
    cases value
    rw [named]
    exact path

theorem registryRoute_path {route : RegistryRoute} (routed : registryRoute r = some route) :
    r.path = 47 :: [47].intercalate route.segments := by
  unfold registryRoute at routed
  dsimp only at routed
  split at routed
  · rename_i values hit
    have path := (path_of_pathValues r.decoded hit).1
    split at routed
    · cases routed
      exact path
    · cases routed
  split at routed
  · rename_i values hit
    obtain ⟨path, names⟩ := path_of_pathValues r.decoded hit
    obtain ⟨⟨_, v⟩, rfl, rfl⟩ := List.map_eq_singleton_iff.mp names
    split at routed
    · rw [List.lookup_cons_self] at routed
      cases routed
      exact path
    · cases routed
  split at routed
  · rename_i values hit
    obtain ⟨path, names⟩ := path_of_pathValues r.decoded hit
    obtain ⟨⟨_, s⟩, more, rfl, rfl, rest⟩ := List.map_eq_cons_iff.mp names
    obtain ⟨⟨_, v⟩, rfl, rfl⟩ := List.map_eq_singleton_iff.mp rest
    split at routed
    · have other : (ascii "version" == ascii "subject") = false := by decide
      rw [List.lookup_cons_self, List.lookup_cons, other, List.lookup_cons_self] at routed
      cases routed
      exact path
    · cases routed
  split at routed
  · rename_i values hit
    obtain ⟨path, names⟩ := path_of_pathValues r.decoded hit
    obtain ⟨⟨_, v⟩, rfl, rfl⟩ := List.map_eq_singleton_iff.mp names
    split at routed
    · rw [List.lookup_cons_self] at routed
      cases routed
      exact path
    · cases routed
  · cases routed

def Keyword (word : Bytes) : Prop := word = ascii "topics" ∨ word = ascii "groups"

instance (word : Bytes) : Decidable (Keyword word) := inferInstanceAs (Decidable (_ ∨ _))

theorem scanSegments_eq_none {words : List Bytes} : scanSegments words = none ↔ ∀ word ∈ words.dropLast, ¬ Keyword word := by
  induction words with
  | nil => simp [scanSegments]
  | cons word rest ih =>
    cases rest with
    | nil => simp [scanSegments]
    | cons next rest =>
      rw [scanSegments, List.dropLast_cons_cons, List.forall_mem_cons, ← ih]
      split
      · rename_i topics
        simp [Keyword, topics]
      · split
        · rename_i groups
          simp [Keyword, groups]
        · rename_i topics groups
          simp [Keyword, topics, groups]

theorem scanSegments_ne_cluster {words : List Bytes} {res : Resource} (found : scanSegments words = some res) :
    res ≠ clusterResource := by
  induction words with
  | nil => cases found
  | cons word rest ih =>
    cases rest with
    | nil => cases found
    | cons next rest =>
      rw [scanSegments] at found
      split at found
      · cases found
        exact fun same => (by decide : resourceTopic ≠ resourceCluster) (congrArg Resource.type same)
      · split at found
        · cases found
          exact fun same => (by decide : resourceGroup ≠ resourceCluster) (congrArg Resource.type same)
        · exact ih found

theorem defaultClassify_cluster :
    (defaultClassify r).2 = clusterResource ↔ ∀ word ∈ (split 47 (trim 47 r.path)).dropLast, ¬ Keyword word := by
  rw [← scanSegments_eq_none, defaultClassify]
  cases found : scanSegments (split 47 (trim 47 r.path)) with
  | none => exact ⟨fun _ => rfl, fun _ => rfl⟩
  | some res => exact ⟨fun same => absurd same (scanSegments_ne_cluster found), nofun⟩

theorem mem_dropLast_append_word {front parts : List Bytes} {word part : Bytes} (other : part ≠ word) :
    part ∈ (front ++ word :: parts).dropLast ↔ part ∈ front ∨ part ∈ parts.dropLast := by
  cases parts with
  | nil => simp
  | cons next parts =>
    rw [List.dropLast_append_of_ne_nil (List.cons_ne_nil _ _), List.dropLast_cons_cons]
    simp [other]

/-- The parts of the values in the path of a route that have another part behind them. -/
def RegistryRoute.inner : RegistryRoute → List Bytes
  | .subjects => []
  | .versions subject => split 47 subject
  | .version subject v => split 47 subject ++ ((split 47 v).rdropWhile (· = [])).dropLast
  | .schema id => ((split 47 id).rdropWhile (· = [])).dropLast

theorem registry_parts {route : RegistryRoute} (routed : registryRoute r = some route) :
    split 47 (trim 47 r.path) = (route.segments.flatMap (split 47)).rdropWhile (· = []) := by
  rw [registryRoute_path routed]
  cases route <;> exact split_trim_segments (by decide) _

theorem keywords_around (front parts : List Bytes) {word : Bytes} (filled : word ≠ []) (other : ¬ Keyword word) :
    (∀ part ∈ ((front ++ word :: parts).rdropWhile (· = [])).dropLast, ¬ Keyword part) ↔
      ∀ part ∈ front ++ (parts.rdropWhile (· = [])).dropLast, ¬ Keyword part := by
  rw [rdropWhile_append_word front filled]
  apply forall_congr'
  intro part
  by_cases same : part = word
  · subst same
    exact ⟨fun _ _ => other, fun _ _ => other⟩
  · rw [mem_dropLast_append_word same, List.mem_append]

theorem keywords_cons {word : Bytes} (other : ¬ Keyword word) (parts : List Bytes) :
    (∀ part ∈ word :: parts, ¬ Keyword part) ↔ ∀ part ∈ parts, ¬ Keyword part := by
  rw [List.forall_mem_cons]
  exact and_iff_right other

theorem registry_keywords {route : RegistryRoute} (routed : registryRoute r = some route) :
    (∀ part ∈ (split 47 (trim 47 r.path)).dropLast, ¬ Keyword part) ↔ ∀ part ∈ route.inner, ¬ Keyword part := by
  have subjects : split 47 (ascii "subjects") = [ascii "subjects"] := split_of_not_mem (by decide)
  have versions : split 47 (ascii "versions") = [ascii "versions"] := split_of_not_mem (by decide)
  rw [registry_parts routed]
  cases route with
  | subjects =>
    rw [RegistryRoute.segments, List.flatMap_singleton, subjects]
    exact keywords_around [] [] (by decide) (by decide)
  | versions subject =>
    have parts : (RegistryRoute.versions subject).segments.flatMap (split 47) =
        (ascii "subjects" :: split 47 subject) ++ ascii "versions" :: [] := by
      simp [RegistryRoute.segments, subjects, versions]
    rw [parts, keywords_around _ _ (by decide) (by decide), List.rdropWhile_nil, List.dropLast_nil, List.append_nil,
      keywords_cons (by decide)]
    rfl
  | version subject v =>
    have parts : (RegistryRoute.version subject v).segments.flatMap (split 47) =
        (ascii "subjects" :: split 47 subject) ++ ascii "versions" :: split 47 v := by
      simp [RegistryRoute.segments, subjects, versions]
    rw [parts, keywords_around _ _ (by decide) (by decide), List.cons_append, keywords_cons (by decide)]
    rfl
  | schema id =>
    have parts : (RegistryRoute.schema id).segments.flatMap (split 47) = [ascii "schemas"] ++ ascii "ids" ::
      split 47 id := by
      have schemas : split 47 (ascii "schemas") = [ascii "schemas"] := split_of_not_mem (by decide)
      have ids : split 47 (ascii "ids") = [ascii "ids"] := split_of_not_mem (by decide)
      simp [RegistryRoute.segments, schemas, ids]
    rw [parts, keywords_around _ _ (by decide) (by decide), List.singleton_append, keywords_cons (by decide)]
    rfl

theorem rest_classified {call : RestCall} (routed : restRoute r = some call) (slash : 47 ∉ call.topic) :
    (defaultClassify r).2 = ⟨resourceTopic, call.topic⟩ := by
  have parts : split 47 (trim 47 r.path) = [ascii "topics", call.topic, ascii "messages"] := by
    rw [restRoute_path routed]
    refine (split_trim_segments (x := 116) (by decide) [call.topic, ascii "messages"]).trans ?_
    have topics : split 47 (ascii "topics") = [ascii "topics"] := split_of_not_mem (by decide)
    have messages : split 47 (ascii "messages") = [ascii "messages"] := split_of_not_mem (by decide)
    show ([ascii "topics", call.topic, ascii "messages"].flatMap (split 47)).rdropWhile (· = []) = _
    rw [List.flatMap_cons, List.flatMap_cons, List.flatMap_singleton, topics, messages, split_of_not_mem slash]
    exact rdropWhile_append_word [ascii "topics", call.topic] (by decide) []
  rw [defaultClassify, parts]
  rfl

theorem RestCall.Touches.slash {store : Store} {call : RestCall} (touches : call.Touches store)
    (named : ∀ name, (store.getTopic name).isSome → 47 ∉ name) : 47 ∉ call.topic := by
  cases call with
  | publish topic =>
    rcases touches with found | valid
    · exact named topic found
    · cases name : validateTopicName topic with
      | error failure =>
        rw [name] at valid
        cases valid
      | ok _ => exact (validateTopicName_ok name).2.2.2
  | consume topic => exact named topic touches

theorem served_checked {m : Middleware} {checked : Option (Bytes × Operation × Resource)} (enabled : m.enabled = true)
    (hidden : m.isPublic r.path = false) (served : m.wrap r = .served checked) :
    ∃ username, checked = some (username, defaultClassify r) := by
  unfold Middleware.wrap at served
  rw [enabled, hidden] at served
  simp only [Bool.not_true, Bool.false_eq_true, if_false] at served
  split at served
  · cases served
  split at served
  · cases served
  split at served
  · cases served
  rename_i username password _
  split at served
  · cases served
  split at served
  · cases served
    exact ⟨username, rfl⟩
  · cases served

def publicPaths : List Bytes := [ascii "/healthz", ascii "/livez"]

theorem not_isPublic {m : Middleware} (deployed : m.publicPaths = publicPaths) {x : UInt8} {rest : Bytes}
    (path : r.path = 47 :: x :: rest) (healthz : (104 == x) = false) (livez : (108 == x) = false) :
    m.isPublic r.path = false := by
  have words : publicPaths = [47 :: 104 :: ascii "ealthz", 47 :: 108 :: ascii "ivez"] := by decide
  rw [Middleware.isPublic, deployed, words, path]
  simp only [List.any_cons, List.any_nil, List.isPrefixOf, healthz, livez, Bool.false_and, Bool.and_false, Bool.or_false]

theorem rest_not_isPublic {m : Middleware} (deployed : m.publicPaths = publicPaths) {call : RestCall}
    (routed : restRoute r = some call) : m.isPublic r.path = false :=
  not_isPublic deployed (restRoute_path routed) rfl rfl

theorem registry_not_isPublic {m : Middleware} (deployed : m.publicPaths = publicPaths) {route : RegistryRoute}
    (routed : registryRoute r = some route) : m.isPublic r.path = false := by
  cases route <;> exact not_isPublic deployed (registryRoute_path routed) rfl rfl

/-- What the check before a routed request has to be: of the topic that the REST handler gets to, and of the cluster for the
    schema registry. -/
def ChecksUsed (store : Store) (r : HttpRequest) (checked : Option (Bytes × Operation × Resource)) : Prop :=
  (∀ call, restRoute r = some call → call.Touches store → checked.map (·.2.2) = some ⟨resourceTopic, call.topic⟩) ∧
    ∀ route, registryRoute r = some route → checked.map (·.2.2) = some clusterResource

/-- No value in the path of a schema registry request holds one of the two words with a part behind it. -/
def WithoutKeywords (r : HttpRequest) : Prop := ∀ route, registryRoute r = some route → ∀ part ∈ route.inner, ¬ Keyword part

/-- Of the requests that are let through, those are checked against the resource they use that do not name a subject,
    a version or an id with a keyword in it. -/
theorem checked_resource_used_iff {m : Middleware} (enabled : m.enabled = true) (deployed : m.publicPaths = publicPaths)
    {store : Store} (named : ∀ name, (store.getTopic name).isSome → 47 ∉ name)
    {checked : Option (Bytes × Operation × Resource)} (served : m.wrap r = .served checked) :
    ChecksUsed store r checked ↔ WithoutKeywords r := by
  constructor
  · intro used route routed
    obtain ⟨username, rfl⟩ := served_checked enabled (registry_not_isPublic deployed routed) served
    rw [← registry_keywords routed, ← defaultClassify_cluster]
    exact Option.some.inj (used.2 route routed)
  · intro clean
    constructor
    · intro call routed touches
      obtain ⟨username, rfl⟩ := served_checked enabled (rest_not_isPublic deployed routed) served
      exact congrArg some (rest_classified routed (touches.slash named))
    · intro route routed
      obtain ⟨username, rfl⟩ := served_checked enabled (registry_not_isPublic deployed routed) served
      exact congrArg some (defaultClassify_cluster.mpr ((registry_keywords routed).mpr (clean route routed)))

def guarded (authz : Authorizer) : Middleware where
  enabled := true
  users := [⟨ascii "ann", ascii "pw", []⟩]
  authz
  publicPaths := publicPaths
  requireTLS := false
  limiter _ := true
  crypto := constantCrypto

def asked (method path : Bytes) (decoded : unescape path = some path) : HttpRequest where
  method
  escaped := path
  path
  decoded
  tls := false
  basicAuth := some (ascii "ann", ascii "pw")
  addr := []

def ordersRequest : HttpRequest := asked (ascii "POST") (ascii "/subjects/orders/versions") (by decide +kernel)

def consumeRequest : HttpRequest := asked (ascii "GET") (ascii "/topics/orders/messages") (by decide +kernel)

def ordersStore : Store := ⟨[(ascii "orders", ⟨ascii "orders", []⟩)], []⟩

theorem checked_resource_used_orders :
    (∃ checked, (guarded fun _ _ _ => true).wrap consumeRequest = .served checked ∧
      restRoute consumeRequest = some (.consume (ascii "orders")) ∧
        RestCall.Touches ordersStore (.consume (ascii "orders")) ∧
      checked.map (·.2.2) = some ⟨resourceTopic, ascii "orders"⟩) ∧
    ∃ checked, (guarded fun _ _ _ => true).wrap ordersRequest = .served checked ∧
      registryRoute ordersRequest = some (.versions (ascii "orders")) ∧ checked.map (·.2.2) = some clusterResource := by
  have named : ∀ name, (ordersStore.getTopic name).isSome → 47 ∉ name := by
    intro name found
    by_cases same : name = ascii "orders"
    · rw [same]
      decide
    · simp [ordersStore, Store.getTopic, List.lookup, beq_false_of_ne same] at found
  constructor
  · have served : (guarded fun _ _ _ => true).wrap consumeRequest =
        .served (some (ascii "ann", .read, ⟨resourceTopic, ascii "orders"⟩)) := by decide +kernel
    have routed : restRoute consumeRequest = some (.consume (ascii "orders")) := by decide +kernel
    have plain : WithoutKeywords consumeRequest := by
      intro route found
      rw [show registryRoute consumeRequest = none by decide +kernel] at found
      cases found
    exact ⟨_, served, routed, rfl, ((checked_resource_used_iff rfl rfl named served).mpr plain).1 _ routed rfl⟩
  · have served : (guarded fun _ _ _ => true).wrap ordersRequest =
        .served (some (ascii "ann", .write, clusterResource)) := by decide +kernel
    have routed : registryRoute ordersRequest = some (.versions (ascii "orders")) := by decide +kernel
    have plain : WithoutKeywords ordersRequest := by
      intro route found
      rw [routed] at found
      cases found
      decide +kernel
    exact ⟨_, served, routed, ((checked_resource_used_iff rfl rfl named served).mpr plain).2 _ routed⟩

def topicsRequest : HttpRequest := asked (ascii "POST") (ascii "/subjects/topics/versions") (by decide +kernel)

/-- A subject is registered under the permission to write to a topic. -/
theorem subject_checked_as_topic :
    ∃ (m : Middleware) (checked : _), m.enabled = true ∧ m.publicPaths = publicPaths ∧
      m.authz (ascii "ann") .write clusterResource = false ∧
      m.wrap topicsRequest = .served checked ∧ checked = some (ascii "ann", .write, ⟨resourceTopic, ascii "versions"⟩) ∧
      registryRoute topicsRequest = some (.versions (ascii "topics")) ∧ ¬ ChecksUsed ⟨[], []⟩ topicsRequest checked := by
  have served : (guarded fun _ _ res => res.type = resourceTopic).wrap topicsRequest =
      .served (some (ascii "ann", .write, ⟨resourceTopic, ascii "versions"⟩)) := by decide +kernel
  have routed : registryRoute topicsRequest = some (.versions (ascii "topics")) := by decide +kernel
  refine ⟨guarded fun _ _ res => res.type = resourceTopic, _, rfl, rfl, by decide, served, rfl, routed, fun used => ?_⟩
  have cluster : (⟨resourceTopic, ascii "versions"⟩ : Resource) = clusterResource := Option.some.inj (used.2 _ routed)
  exact absurd cluster (by decide)

end PocketKafka.Gateway
