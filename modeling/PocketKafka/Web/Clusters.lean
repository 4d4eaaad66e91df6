import Mathlib.Data.List.AList
import PocketKafka.Lib.Text

namespace PocketKafka.Web

open Bytes Text

structure ClusterEntry where
  name : Bytes
  kind : Bytes
  url : Bytes
  brokers : List Bytes
  saslUser : Bytes
  saslMechanism : Bytes
  deriving DecidableEq, Repr

def clusterKindPeer : Bytes := ascii "peer"

def clusterKindKafka : Bytes := ascii "kafka"

def normalizeKind (kind : Bytes) : Bytes := if kind = [] then clusterKindPeer else kind

structure Url where
  scheme : Bytes
  host : Bytes
  hasUser : Bool
  deriving DecidableEq, Repr

structure NetLibrary where
  parseURL : Bytes → Except String Url
  splitHostPort : Bytes → Option (Bytes × Bytes)

def nameByte (c : UInt8) : Bool :=
  (97 ≤ c ∧ c ≤ 122) ∨ (65 ≤ c ∧ c ≤ 90) ∨ (48 ≤ c ∧ c ≤ 57) ∨ c = 46 ∨ c = 95 ∨ c = 45

def validateClusterName (name : Bytes) : Except String Unit :=
  let name := trimSpace name
  if name = [] then .error "must not be empty"
  else if 64 < name.length then .error "too long (max 64)"
  else if name.all nameByte then .ok ()
  else .error "may contain only letters, digits, '.', '_' and '-'"

def validateClusterURL (lib : NetLibrary) (raw : Bytes) : Except String Unit :=
  if trimSpace raw = [] then .error "is required"
  else
    match lib.parseURL raw with
    | .error err => .error s!"is not valid: {err}"
    | .ok u =>
      if u.scheme ≠ ascii "http" ∧ u.scheme ≠ ascii "https" then
        .error s!"scheme must be http or https (got \"{u.scheme.text}\")"
      else if u.host = [] then .error "must include a host"
      else if u.hasUser then .error "must not embed credentials; use the token field instead"
      else .ok ()

def brokerError (lib : NetLibrary) (broker : Bytes) : Option String :=
  match lib.splitHostPort (trimSpace broker) with
  | none => some s!"broker \"{broker.text}\" must be host:port"
  | some (host, port) =>
    if host = [] ∨ port = [] then some s!"broker \"{broker.text}\" must be host:port"
    else
      match atoi port with
      | none => some s!"broker \"{broker.text}\" has an invalid port"
      | some n => if n < 1 ∨ 65535 < n then some s!"broker \"{broker.text}\" has an invalid port" else none

def validateKafkaEntry (lib : NetLibrary) (e : ClusterEntry) : Except String Unit :=
  if e.brokers = [] then .error "kafka cluster needs at least one broker"
  else
    match e.brokers.findSome? (brokerError lib) with
    | some err => .error err
    | none =>
      if trimSpace e.saslUser = [] then .error "kafka cluster needs a SASL username"
      else if toUpper (trimSpace e.saslMechanism) ∈ [[], ascii "PLAIN"] then .ok ()
      else .error s!"unsupported SASL mechanism \"{e.saslMechanism.text}\""

def validateEntry (lib : NetLibrary) (e : ClusterEntry) : Except String Unit :=
  match validateClusterName e.name with
  | .error err => .error err
  | .ok () =>
    if normalizeKind e.kind = clusterKindKafka then validateKafkaEntry lib e
    else if normalizeKind e.kind = clusterKindPeer then
      if e.url = [] then .error "peer cluster needs a url" else validateClusterURL lib e.url
    else .error s!"unsupported cluster kind \"{e.kind.text}\""

def normalizeClusterURL (u : Bytes) : Bytes := (trimSpace u).rdropWhile (· = 47)

/-- The loop of `sameStringSet` over the second list, with the counts of what is left of the first. -/
def takesAll (seen : Bytes → Nat) : List Bytes → Bool
  | [] => true
  | v :: rest =>
    let key := trimSpace v
    if seen key = 0 then false else takesAll (Function.update seen key (seen key - 1)) rest

def sameStringSet (a b : List Bytes) : Bool :=
  if a.length ≠ b.length then false else takesAll (fun key => (a.map trimSpace).count key) b

def samePeerTarget (stored want : ClusterEntry) : Bool :=
  normalizeKind stored.kind = clusterKindPeer ∧ normalizeClusterURL stored.url = normalizeClusterURL want.url

def sameKafkaTarget (stored want : ClusterEntry) : Bool :=
  if normalizeKind stored.kind ≠ clusterKindKafka then false
  else if trimSpace stored.saslUser ≠ trimSpace want.saslUser then false
  else sameStringSet stored.brokers want.brokers

inductive SecretKind where
  | token
  | sasl
  | dashboard
  deriving DecidableEq, Repr

def SecretKind.key (name : Bytes) : SecretKind → Bytes
  | .token => name
  | .sasl => ascii "sasl:" ++ name
  | .dashboard => ascii "dashboard:" ++ name

/-- A secret with the entry that it was stored together with. The program keeps the value only. -/
structure Secret where
  value : Bytes
  origin : ClusterEntry
  deriving DecidableEq, Repr

structure ClusterStore where
  entries : List ClusterEntry
  tokens : AList fun _ : Bytes => Secret
  persistent : Bool
  hasBox : Bool
  boxErr : Option String

namespace ClusterStore

def newClusterStore (seed : List ClusterEntry) (persistent hasBox : Bool) (boxErr : Option String) : ClusterStore :=
  ⟨seed, ∅, persistent, hasBox, boxErr⟩

variable (s : ClusterStore)

def get (name : Bytes) : Option ClusterEntry := s.entries.find? fun e => decide (e.name = name)

def secret (name : Bytes) (kind : SecretKind) : Option Secret := s.tokens.lookup (kind.key name)

def persistTokens (wrote : Bool) : Option String :=
  if !s.persistent then none
  else if !s.hasBox then
    if s.tokens.entries = [] then none
    else some "secrets key unavailable: refusing to write cluster tokens unencrypted"
  else if wrote then none
  else some "write failed"

def persistEntries (wrote : Bool) : Option String := if s.persistent && !wrote then some "write failed" else none

def replaceEntry (e : ClusterEntry) : List ClusterEntry → List ClusterEntry
  | [] => [e]
  | head :: rest => if head.name = e.name then e :: rest else head :: replaceEntry e rest

def setSecret (e : ClusterEntry) (kind : SecretKind) (value : Bytes) : ClusterStore :=
  { s with
    tokens :=
      if value = [] then s.tokens.erase (kind.key e.name) else s.tokens.insert (kind.key e.name) ⟨value, e⟩ }

/-- The secrets that are given, one after the other. It ends at the first that is not written. -/
def setSecrets (e : ClusterEntry) : ClusterStore → List (SecretKind × Option Bytes × Bool) → ClusterStore × Option String
  | s, [] => (s, none)
  | s, (_, none, _) :: rest => setSecrets e s rest
  | s, (kind, some value, wrote) :: rest =>
    let s := s.setSecret e kind value
    match s.persistTokens wrote with
    | some err => (s, some err)
    | none => setSecrets e s rest

end ClusterStore

def ClusterEntry.trimmed (e : ClusterEntry) : ClusterEntry where
  name := trimSpace e.name
  kind := normalizeKind e.kind
  url := trimSpace e.url
  brokers := e.brokers.map trimSpace
  saslUser := trimSpace e.saslUser
  saslMechanism := toUpper (trimSpace e.saslMechanism)

structure Writes where
  token : Bool
  sasl : Bool
  dashboard : Bool
  entries : Bool
  deriving DecidableEq, Repr

structure Supply where
  token : Option Bytes
  sasl : Option Bytes
  dashboard : Option Bytes
  deriving DecidableEq, Repr

def Supply.of (supply : Supply) : SecretKind → Option Bytes
  | .token => supply.token
  | .sasl => supply.sasl
  | .dashboard => supply.dashboard

def Supply.changes (supply : Supply) (wrote : Writes) : List (SecretKind × Option Bytes × Bool) :=
  [(.token, supply.token, wrote.token), (.sasl, supply.sasl, wrote.sasl), (.dashboard, supply.dashboard, wrote.dashboard)]

namespace ClusterStore

def refuses (s : ClusterStore) (e : ClusterEntry) (supply : Supply) : Option String :=
  if supply.dashboard.getD [] ≠ [] ∧ e.kind ≠ clusterKindPeer then
    some "dashboard tokens are supported only for peer clusters"
  else if e.kind ≠ clusterKindPeer ∧ supply.dashboard = none ∧
    (s.secret e.name .dashboard).any (fun secret => decide (secret.value ≠ [])) then
    some "clear the dashboard token before changing this cluster away from peer"
  else none

/-- The store behind an `upsert`, and its error. -/
def upsert (lib : NetLibrary) (s : ClusterStore) (e : ClusterEntry) (supply : Supply) (wrote : Writes) :
    ClusterStore × Option String :=
  let e := e.trimmed
  match validateEntry lib e with
  | .error err => (s, some err)
  | .ok () =>
    match s.refuses e supply with
    | some err => (s, some err)
    | none =>
      let s := { s with entries := replaceEntry e s.entries }
      match setSecrets e s (supply.changes wrote) with
      | (s, some err) => (s, some err)
      | (s, none) => (s, s.persistEntries wrote.entries)

def remove (s : ClusterStore) (name : Bytes) (wroteTokens wroteEntries : Bool) : ClusterStore × Option String :=
  if s.get name = none then (s, some "unknown cluster")
  else
    let s := { s with
      entries := s.entries.filter (fun e => decide (e.name ≠ name))
      tokens := ((s.tokens.erase (SecretKind.token.key name)).erase (SecretKind.sasl.key name)).erase
        (SecretKind.dashboard.key name) }
    match s.persistTokens wroteTokens with
    | some err => (s, some err)
    | none => (s, s.persistEntries wroteEntries)

end ClusterStore

structure UpsertRequest where
  entry : ClusterEntry
  saslPassword : Bytes
  clearSASLPassword : Bool
  token : Bytes
  clearToken : Bool
  dashboardToken : Bytes
  clearDashboardToken : Bool
  deriving DecidableEq, Repr

/-- A secret that is to be cleared, one that is given, or neither. -/
def supplied (clear : Bool) (value : Bytes) : Option Bytes :=
  if clear then some [] else if value ≠ [] then some value else none

def UpsertRequest.supply (req : UpsertRequest) : Supply :=
  ⟨supplied req.clearToken req.token, supplied req.clearSASLPassword req.saslPassword,
    supplied req.clearDashboardToken req.dashboardToken⟩

/-- The store behind the request, and the status and text of an error. -/
def handleUpsertCluster (lib : NetLibrary) (s : ClusterStore) (req : UpsertRequest) (wrote : Writes) :
    ClusterStore × Option (Nat × String) :=
  if req.supply ≠ ⟨none, none, none⟩ ∧ s.boxErr ≠ none then (s, s.boxErr.map fun err => (503, err))
  else
    let (s, err) := s.upsert lib req.entry req.supply wrote
    (s, err.map fun err => (400, err))

end PocketKafka.Web
