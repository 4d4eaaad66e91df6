import PocketKafka.Lib.Failure
import PocketKafka.Lib.Runs
import PocketKafka.Lib.Snapshots
import PocketKafka.Lib.Text

namespace PocketKafka.SchemaRegistry

open Bytes Text Runs Snapshots

structure SchemaEntry where
  id : Nat
  subject : Bytes
  version : Nat
  schema : Bytes
  schemaType : Bytes
  deriving DecidableEq, Repr

structure Registry where
  nextID : Nat
  entries : List SchemaEntry
  deriving DecidableEq, Repr

namespace Registry

def new : Registry := ⟨1, []⟩

def bySubject (r : Registry) (subject : Bytes) : List SchemaEntry := r.entries.filter fun e => e.subject = subject

def byID (r : Registry) (id : Nat) : Option SchemaEntry := (r.entries.filter fun e => e.id = id).getLast?

def existing (r : Registry) (subject schema schemaType : Bytes) : Option SchemaEntry :=
  (r.bySubject subject).find? fun e => e.schema = schema && e.schemaType = schemaType

def newEntry (r : Registry) (subject schema schemaType : Bytes) : SchemaEntry :=
  ⟨r.nextID, subject, (r.bySubject subject).length + 1, schema, schemaType⟩

def add (r : Registry) (e : SchemaEntry) : Registry := ⟨r.nextID + 1, r.entries ++ [e]⟩

/-- What `Open` makes of a file that was written from `r`. `clean` is what JSON makes of a string: it keeps
    valid UTF-8. Schemas and their types come out of a JSON body and are kept. -/
def load (clean : Bytes → Bytes) (r : Registry) : Registry :=
  ⟨if r.nextID < 1 then 1 else r.nextID, r.entries.map fun e => { e with subject := clean e.subject }⟩

end Registry

/-- `json.Valid` is a parameter. -/
def validateSchema (validJSON : Bytes → Bool) (schemaType schema : Bytes) : Except Failure Unit :=
  let shown := text schemaType
  if trimSpace schema = [] then .error (.error "schema is empty")
  else if schemaType = ascii "AVRO" ∨ schemaType = ascii "JSON" then
    if !validJSON schema then .error (.error s!"schema is not valid JSON for type {shown}") else .ok ()
  else if schemaType = ascii "PROTOBUF" then
    .error (.error "schemaType PROTOBUF is not supported (no validator available)")
  else .error (.error s!"unsupported schemaType \"{shown}\"")

structure RegisterRequest where
  subject : Bytes
  body : Option (Bytes × Bytes)
  deriving DecidableEq, Repr

def RegisterRequest.prepare (validJSON : Bytes → Bool) (request : RegisterRequest) : Except Failure (Bytes × Bytes) :=
  match request.body with
  | none => .error (.error "schema required")
  | some (schema, schemaType) =>
    if schema = [] then .error (.error "schema required")
    else
      let upper := toUpper schemaType
      let schemaType := if upper = [] then ascii "AVRO" else upper
      match validateSchema validJSON schemaType schema with
      | .error failure => .error failure
      | .ok () => .ok (schema, schemaType)

inductive RegisterAnswer where
  | ok (entry : SchemaEntry)
  | unprocessable (failure : Failure)
  | notPersisted (failure : Failure)
  deriving DecidableEq, Repr

/-- Where a call stands: before the lock, before its snapshot, before it writes the snapshot of a version,
    before its answer, or at its end. -/
inductive RegisterPhase where
  | starting (request : RegisterRequest)
  | added (entry : SchemaEntry)
  | holding (entry : SchemaEntry) (version : Nat)
  | written (entry : SchemaEntry)
  | answered (answer : RegisterAnswer)
  deriving DecidableEq, Repr

/-- A registry that runs, with its file, and all entries whose ids clients have been told. -/
structure RegistryRun where
  versions : Versions Registry
  calls : List RegisterPhase
  told : List SchemaEntry

inductive RegistryEvent where
  | register (request : RegisterRequest)
  | advance (i : Nat) (fault : Option Failure)
  | restart

namespace RegistryRun

variable (clean : Bytes → Bytes) (validJSON : Bytes → Bool)

def opened : RegistryRun := ⟨.start .new, [], []⟩

def setPhase (s : RegistryRun) (i : Nat) (phase : RegisterPhase) : RegistryRun := { s with calls := s.calls.set i phase }

def answerOk (s : RegistryRun) (i : Nat) (e : SchemaEntry) : RegistryRun :=
  { s.setPhase i (.answered (.ok e)) with told := e :: s.told }

def advance (s : RegistryRun) (i : Nat) (fault : Option Failure) : RegisterPhase → Option RegistryRun
  | .starting request =>
    match request.prepare validJSON with
    | .error failure => some (s.setPhase i (.answered (.unprocessable failure)))
    | .ok (schema, schemaType) =>
      let r := s.versions.memory
      match r.existing request.subject schema schemaType with
      | some e => some (s.answerOk i e)
      | none =>
        let e := r.newEntry request.subject schema schemaType
        some ({ s with versions := s.versions.change (r.add e) }.setPhase i (.added e))
  | .added e => some (s.setPhase i (.holding e s.versions.current))
  | .holding e version =>
    match fault with
    | none => some ({ s with versions := s.versions.save version }.setPhase i (.written e))
    | some failure => some (s.setPhase i (.answered (.notPersisted failure)))
  | .written e => some (s.answerOk i e)
  | .answered _ => none

def perform (s : RegistryRun) : RegistryEvent → Option RegistryRun
  | .register request => some { s with calls := s.calls ++ [.starting request] }
  | .advance i fault => s.calls[i]?.bind fun phase => s.advance validJSON i fault phase
  | .restart => some { s with versions := .start (s.versions.file.load clean), calls := [] }

def Steps (s : RegistryRun) (event : RegistryEvent) (t : RegistryRun) : Prop := s.perform clean validJSON event = some t

/-- A schema that was registered before is only answered if the file has it, no file replaces one that was
    written from a newer snapshot, and JSON keeps the subject. -/
def Orderly (s : RegistryRun) : RegistryEvent → Prop
  | .register request => clean request.subject = request.subject
  | .restart => True
  | .advance i _ =>
    match s.calls[i]? with
    | some (.starting request) =>
      match request.prepare validJSON with
      | .error _ => True
      | .ok (schema, schemaType) => ∀ e ∈ s.versions.memory.existing request.subject schema schemaType, e ∈
          s.versions.file.entries
    | some (.holding _ version) => s.versions.saved ≤ version
    | _ => True

end RegistryRun

/-- Ids are unique and below the next one, the versions of each subject count up from 1, and JSON keeps
    the subjects. -/
structure Registry.WellFormed (clean : Bytes → Bytes) (r : Registry) : Prop where
  positive : 1 ≤ r.nextID
  unique : (r.entries.map (·.id)).Nodup
  below : ∀ e ∈ r.entries, e.id < r.nextID
  counted : ∀ subject, (r.bySubject subject).map (·.version) = List.range' 1 (r.bySubject subject).length
  kept : ∀ e ∈ r.entries, clean e.subject = e.subject

instance : Preorder Registry where
  le r r' := r.entries <+: r'.entries
  le_refl r := List.prefix_rfl
  le_trans _ _ _ first second := first.trans second

namespace Registry

variable {clean : Bytes → Bytes} {r r' : Registry} {e : SchemaEntry}

theorem mem_of_le (h : r ≤ r') (member : e ∈ r.entries) : e ∈ r'.entries := List.IsPrefix.subset h member

theorem wellFormed_new : new.WellFormed clean := ⟨le_rfl, List.nodup_nil, nofun, fun _ => rfl, nofun⟩

theorem le_add (r : Registry) (e : SchemaEntry) : r ≤ r.add e := List.prefix_append _ _

theorem bySubject_add (r : Registry) (e : SchemaEntry) (subject : Bytes) :
    (r.add e).bySubject subject = r.bySubject subject ++ if e.subject = subject then [e] else [] := by
  unfold bySubject add
  rw [List.filter_append]
  by_cases same : e.subject = subject <;> simp [same]

theorem WellFormed.add (h : r.WellFormed clean) {subject : Bytes} (kept : clean subject = subject)
    (schema schemaType : Bytes) :
    (r.add (r.newEntry subject schema schemaType)).WellFormed clean := by
  refine ⟨Nat.le_add_left 1 _, ?_, ?_, ?_, ?_⟩
  · change ((r.entries ++ [r.newEntry subject schema schemaType]).map (·.id)).Nodup
    rw [List.map_append, List.nodup_append]
    refine ⟨h.unique, List.nodup_singleton _, ?_⟩
    intro id old other new
    obtain ⟨known, member, rfl⟩ := List.mem_map.mp old
    rw [List.map_singleton, List.mem_singleton] at new
    have less := h.below known member
    rw [new]
    exact less.ne
  · intro known member
    rcases List.mem_append.mp member with old | new
    · exact Nat.lt_succ_of_lt (h.below known old)
    · rw [List.mem_singleton.mp new]
      exact Nat.lt_succ_self _
  · intro other
    have grown : (r.add (r.newEntry subject schema schemaType)).bySubject other =
        r.bySubject other ++ if subject = other then [r.newEntry subject schema schemaType] else [] := bySubject_add ..
    rw [grown]
    by_cases same : subject = other
    · subst same
      rw [if_pos rfl, List.map_append, h.counted, List.length_append, List.length_singleton, List.range'_concat]
      simp [newEntry, Nat.add_comm]
    · rw [if_neg same, List.append_nil]
      exact h.counted other
  · intro known member
    rcases List.mem_append.mp member with old | new
    · exact h.kept known old
    · rw [List.mem_singleton.mp new]
      exact kept

theorem WellFormed.load_eq (h : r.WellFormed clean) : r.load clean = r := by
  have same : r.entries.map (fun e => { e with subject := clean e.subject }) = r.entries := by
    conv_rhs => rw [← List.map_id r.entries]
    apply List.map_congr_left
    intro e member
    rw [h.kept e member]
    rfl
  rw [load, same, if_neg (by have := h.positive; omega)]

theorem WellFormed.entry_unique (h : r.WellFormed clean) {e' : SchemaEntry} (member : e ∈ r.entries)
    (member' : e' ∈ r.entries)
    (same : e.id = e'.id) : e = e' := List.inj_on_of_nodup_map h.unique member member' same

theorem WellFormed.byID_eq (h : r.WellFormed clean) (member : e ∈ r.entries) : r.byID e.id = some e := by
  have all : ∀ other ∈ r.entries.filter (fun other => other.id = e.id), other = e := by
    intro other found
    obtain ⟨inside, same⟩ := List.mem_filter.mp found
    exact h.entry_unique inside member (of_decide_eq_true same)
  have some : r.entries.filter (fun other => other.id = e.id) ≠ [] :=
    List.ne_nil_of_mem (List.mem_filter.mpr ⟨member, decide_eq_true rfl⟩)
  rw [byID, List.getLast?_eq_some_getLast some, all _ (List.getLast_mem some)]

end Registry

end PocketKafka.SchemaRegistry
