import PocketKafka.Lib.Decimal
import PocketKafka.Lib.Split
import PocketKafka.Storage.Store

namespace PocketKafka.Storage

open Bytes Text

def cleanParts (front : List Bytes) : List Bytes → List Bytes
  | [] => front
  | part :: rest =>
    if part = [] ∨ part = ascii "." then cleanParts front rest
    else if part = ascii ".." then cleanParts front.dropLast rest
    else cleanParts (front ++ [part]) rest

def joinPath (dir : List Bytes) (name : Bytes) : List Bytes := cleanParts dir (split 47 name)

/-- The names of the files and directories that the broker keeps in the data directory. -/
def brokerNames : List Bytes :=
  ["__topics.json", "__topics.json.tmp", "__coordinator", "__acls.json", "__schemas.json", "__clusters.json",
    "__cluster_tokens.json", "__secrets.key", "__dashboard_tokens.json", "__fleet_agents.json", "fleet_jobs.jsonl",
    "fleet_audit.jsonl"].map ascii

def manifestName : Bytes := ascii "__topics.json"

inductive DataEntry where
  | file
  | dir (subdirs : List (Bytes × Dir))
  deriving DecidableEq

abbrev DataDir := List (Bytes × DataEntry)

namespace DataDir

def put (d : DataDir) (name : Bytes) (entry : DataEntry) : DataDir :=
  (name, entry) :: d.filter fun (other, _) => other ≠ name

def subdirs (d : DataDir) (name : Bytes) : List (Bytes × Dir) :=
  match d.lookup name with
  | some (.dir subdirs) => subdirs
  | _ => []

end DataDir

def parseInt32 (s : Bytes) : Option Int :=
  (atoi s).bind fun v => if -2147483648 ≤ v ∧ v < 2147483648 then some v else none

structure DataStore where
  store : Store
  dir : DataDir

namespace DataStore

variable (maxSegmentBytes indexInterval : Int)

/-- What `OpenPartition` finds in the directories of a topic. -/
def opening (d : DataDir) (name : Bytes) : Opening := fun i =>
  match d.lookup name with
  | some .file => .error (.error "create partition dir: not a directory")
  | _ => openPartition (((d.subdirs name).lookup (formatInt i)).getD []) maxSegmentBytes indexInterval

def partitionDirs (partitions : List (Int × Partition)) : List (Bytes × Dir) :=
  partitions.map fun (i, p) => (formatInt i, p.dir)

def without (subdirs : List (Bytes × Dir)) (ids : List Int) : List (Bytes × Dir) :=
  subdirs.filter fun (name, _) => name ∉ ids.map formatInt

/-- What a creation leaves in the data directory. If a partition cannot be opened, those before it are
    deleted again. -/
def created (d : DataDir) (name : Bytes) (partitions : Int) : Except Failure Topic → DataDir
  | .ok t => d.put name (.dir (partitionDirs t.partitions ++ without (d.subdirs name) (t.partitions.map Prod.fst)))
  | .error _ =>
    let ids := (List.range partitions.toNat).map fun i : Nat => int32 i
    let opened := ids.takeWhile fun i => (opening maxSegmentBytes indexInterval d name i).isOk
    match d.lookup name with
    | some .file => d
    | _ => d.put name (.dir (without (d.subdirs name) opened))

def createTopic (s : DataStore) (name : Bytes) (partitions : Int) : Except Failure Topic × DataStore :=
  let opening := opening maxSegmentBytes indexInterval s.dir name
  let (result, store) := s.store.createTopic name partitions opening
  -- Names that are refused, and topics that are there, do not get to the directory.
  if (validateTopicName name).isOk && (s.store.getTopic name).isNone then
    (result, ⟨store, created maxSegmentBytes indexInterval s.dir name (if partitions ≤ 0 then 1 else partitions) result⟩)
  else (result, ⟨store, s.dir⟩)

def ensureTopic (s : DataStore) (name : Bytes) (partitions : Int) : Except Failure (Topic × Bool) × DataStore :=
  let opening := opening maxSegmentBytes indexInterval s.dir name
  let (result, store) := s.store.ensureTopic name partitions opening
  if (validateTopicName name).isOk && (s.store.getTopic name).isNone then
    (result, ⟨store, created maxSegmentBytes indexInterval s.dir name (if partitions ≤ 0 then 1 else partitions)
      (result.map Prod.fst)⟩)
  else (result, ⟨store, s.dir⟩)

/-- The directories of the partitions go; that of the topic stays. -/
def deleteTopic (s : DataStore) (name : Bytes) : Except Failure Unit × DataStore :=
  match s.store.getTopic name with
  | none =>
    let shown := text name
    (.error (.error s!"unknown topic: {shown}"), s)
  | some t =>
    (.ok (), ⟨s.store.removeTopic name, s.dir.put name (.dir (without (s.dir.subdirs name) (t.partitions.map Prod.fst)))⟩)

def recoverPartitions : List (Bytes × Dir) → Except Failure (List (Int × Partition))
  | [] => .ok []
  | (name, dir) :: rest =>
    match parseInt32 name with
    | none => recoverPartitions rest
    | some pid =>
      match openPartition dir maxSegmentBytes indexInterval with
      | .error failure => .error failure
      | .ok p =>
        match recoverPartitions rest with
        | .error failure => .error failure
        | .ok partitions => .ok ((pid, p) :: partitions)

def recoverTopics : DataDir → Except Failure (List (Bytes × Topic))
  | [] => .ok []
  | (_, .file) :: rest => recoverTopics rest
  | (name, .dir subdirs) :: rest =>
    match recoverPartitions maxSegmentBytes indexInterval subdirs with
    | .error failure => .error failure
    | .ok partitions =>
      match recoverTopics rest with
      | .error failure => .error failure
      | .ok topics => .ok (if partitions = [] then topics else (name, ⟨name, partitions⟩) :: topics)

/-- The manifest is read as a file; what it says about compaction is left out here. -/
def loadManifest (d : DataDir) : Except Failure Unit :=
  match d.lookup manifestName with
  | some (.dir _) => .error (.error "read __topics.json: is a directory")
  | _ => .ok ()

def newStore (d : DataDir) : Except Failure DataStore :=
  match recoverTopics maxSegmentBytes indexInterval d with
  | .error failure => .error failure
  | .ok topics =>
    match loadManifest d with
    | .error failure => .error failure
    | .ok () => .ok ⟨⟨topics, []⟩, d⟩

end DataStore

end PocketKafka.Storage
