import PocketKafka.Lib.Failure
import PocketKafka.Lib.Text

namespace PocketKafka.Authz

open Bytes Text

inductive Operation where
  | describe
  | read
  | write
  | admin
  | control
  deriving DecidableEq, Repr

def Operation.name : Operation → Bytes
  | .describe => ascii "Describe"
  | .read => ascii "Read"
  | .write => ascii "Write"
  | .admin => ascii "Admin"
  | .control => ascii "Control"

def knownOperations : List Operation := [.describe, .read, .write, .admin, .control]

def Operation.implied : Operation → List Operation
  | .admin => [.admin, .read, .write, .describe, .control]
  | .control => [.control, .describe]
  | .write => [.write, .describe]
  | .read => [.read, .describe]
  | .describe => [.describe]

/-- The operations that a rule's text grants; a text that is none of the known names grants itself. -/
def impliedOperations (granted : Bytes) : List Bytes :=
  match knownOperations.find? fun op => decide (toLower granted = toLower op.name) with
  | some op => op.implied.map Operation.name
  | none => [granted]

def wildcard : Bytes := ascii "*"

def knownOperationsSet (s : Bytes) : Bool := s = wildcard || knownOperations.any fun op => op.name = s

structure Resource where
  type : Bytes
  name : Bytes
  deriving DecidableEq, Repr

def resourceTopic : Bytes := ascii "topic"
def resourceGroup : Bytes := ascii "group"
def resourceCluster : Bytes := ascii "cluster"
def resourceFleetServer : Bytes := ascii "fleet_server"
def resourceFleetContainer : Bytes := ascii "fleet_container"
def resourceFleetJob : Bytes := ascii "fleet_job"
def resourceFleetAudit : Bytes := ascii "fleet_audit"

def resourceTypes : List Bytes :=
  [resourceTopic, resourceGroup, resourceCluster, resourceFleetServer, resourceFleetContainer, resourceFleetJob,
    resourceFleetAudit]

def knownResourceType (t : Bytes) : Bool := decide (toLower (trimSpace t) ∈ wildcard :: resourceTypes)

def anonymPrincipal : Bytes := ascii "anonymous"

abbrev Authorizer := Bytes → Operation → Resource → Bool

def Authorizer.allows (a : Authorizer) (principal : Bytes) (op : Operation) (res : Resource) : Bool :=
  a (if principal = [] then anonymPrincipal else principal) op res

end PocketKafka.Authz
