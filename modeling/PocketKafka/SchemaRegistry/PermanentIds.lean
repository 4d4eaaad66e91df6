import PocketKafka.SchemaRegistry.Registry

namespace PocketKafka.SchemaRegistry

open Bytes Runs Snapshots

namespace RegistryRun

variable {clean : Bytes → Bytes} {validJSON : Bytes → Bool} {s t : RegistryRun} {i : Nat} {e : SchemaEntry}

def Backs (clean : Bytes → Bytes) (v : Versions Registry) : RegisterPhase → Prop
  | .starting request => clean request.subject = request.subject
  | .added e => e ∈ v.memory.entries
  | .holding e version => version ≤ v.current ∧ e ∈ (v.past version).entries
  | .written e => e ∈ v.file.entries
  | .answered _ => True

/-- Every version is well formed and includes the earlier ones, and the file has what clients were told. -/
structure Sound (clean : Bytes → Bytes) (s : RegistryRun) : Prop where
  saved : s.versions.saved ≤ s.versions.current
  rising : s.versions.Rising
  wellFormed : s.versions.Always (Registry.WellFormed clean)
  backed : ∀ phase ∈ s.calls, Backs clean s.versions phase
  told : ∀ e ∈ s.told, e ∈ s.versions.file.entries

theorem sound_opened : opened.Sound clean :=
  ⟨le_rfl, Versions.rising_start _, Versions.always_start Registry.wellFormed_new, nofun, nofun⟩

theorem Sound.setPhase (h : s.Sound clean) {phase : RegisterPhase} (backs : Backs clean s.versions phase) :
    (s.setPhase i phase).Sound clean := by
  refine ⟨h.saved, h.rising, h.wellFormed, ?_, h.told⟩
  intro other member
  rcases List.mem_or_eq_of_mem_set member with old | rfl
  · exact h.backed other old
  · exact backs

theorem Sound.answerOk (h : s.Sound clean) (durable : e ∈ s.versions.file.entries) : (s.answerOk i e).Sound clean := by
  have answered : (s.setPhase i (.answered (.ok e))).Sound clean := h.setPhase trivial
  refine ⟨answered.saved, answered.rising, answered.wellFormed, answered.backed, ?_⟩
  intro other member
  rcases List.mem_cons.mp member with rfl | old
  · exact durable
  · exact h.told other old

theorem Sound.add (h : s.Sound clean) {subject : Bytes} (kept : clean subject = subject) (schema schemaType : Bytes) :
    RegistryRun.Sound clean { s with
      versions := s.versions.change (s.versions.memory.add (s.versions.memory.newEntry subject schema schemaType)) } := by
  have file := Versions.file_change h.saved (s.versions.memory.add (s.versions.memory.newEntry subject schema schemaType))
  refine ⟨Nat.le_succ_of_le h.saved, h.rising.change (Registry.le_add _ _),
    h.wellFormed.change ((h.wellFormed _ le_rfl).add kept schema schemaType), ?_, ?_⟩
  · intro phase member
    have backs := h.backed phase member
    cases phase with
    | starting request => exact backs
    | added e =>
      change e ∈ (Versions.memory (s.versions.change _)).entries
      rw [Versions.memory_change]
      exact Registry.mem_of_le (Registry.le_add _ _) backs
    | holding e version =>
      have took :=
        Versions.Took.change ⟨backs.1, rfl⟩ (s.versions.memory.add (s.versions.memory.newEntry subject schema schemaType))
      refine ⟨took.1, ?_⟩
      dsimp only
      rw [took.2]
      exact backs.2
    | written e =>
      change e ∈ (Versions.file (s.versions.change _)).entries
      rw [file]
      exact backs
    | answered answer => trivial
  · intro e member
    change e ∈ (Versions.file (s.versions.change _)).entries
    rw [file]
    exact h.told e member

theorem Sound.save (h : s.Sound clean) {version : Nat} (newer : s.versions.saved ≤ version)
    (bound : version ≤ s.versions.current) :
    ({ s with versions := s.versions.save version } : RegistryRun).Sound clean := by
  have grows := h.rising.file_le_save newer bound
  refine ⟨bound, h.rising, h.wellFormed, ?_, fun e member => Registry.mem_of_le grows (h.told e member)⟩
  intro phase member
  have backs := h.backed phase member
  cases phase with
  | starting request => exact backs
  | added e => exact backs
  | holding e version => exact backs
  | written e => exact Registry.mem_of_le grows backs
  | answered answer => trivial

theorem Sound.advance (h : s.Sound clean) {fault : Option Failure} {phase : RegisterPhase} (found : s.calls[i]? = some phase)
    (orderly : s.Orderly clean validJSON (.advance i fault)) (step : s.advance validJSON i fault phase = some t) :
      t.Sound clean := by
  have backs := h.backed phase (List.mem_of_getElem? found)
  unfold Orderly at orderly
  simp only [found] at orderly
  cases phase with
  | starting request =>
    unfold RegistryRun.advance at step
    dsimp only at step orderly
    cases checked : request.prepare validJSON with
    | error failure =>
      rw [checked] at step
      cases step
      exact h.setPhase trivial
    | ok pair =>
      obtain ⟨schema, schemaType⟩ := pair
      rw [checked] at step orderly
      dsimp only at step orderly
      cases known : s.versions.memory.existing request.subject schema schemaType with
      | some e =>
        rw [known] at step
        cases step
        exact h.answerOk (orderly e known)
      | none =>
        rw [known] at step
        cases step
        refine (h.add backs schema schemaType).setPhase ?_
        change _ ∈ (Versions.memory (s.versions.change _)).entries
        rw [Versions.memory_change]
        exact List.mem_append_right _ (List.mem_singleton_self _)
  | added e =>
    cases step
    exact h.setPhase ⟨le_rfl, backs⟩
  | holding e version =>
    unfold RegistryRun.advance at step
    cases fault with
    | none =>
      cases step
      exact (h.save orderly backs.1).setPhase backs.2
    | some failure =>
      cases step
      exact h.setPhase trivial
  | written e =>
    cases step
    exact h.answerOk backs
  | answered answer => cases step

theorem Sound.step (h : s.Sound clean) {event : RegistryEvent} (orderly : s.Orderly clean validJSON event)
    (step : Steps clean validJSON s event t) : t.Sound clean := by
  unfold Steps perform at step
  cases event with
  | register request =>
    cases step
    refine ⟨h.saved, h.rising, h.wellFormed, ?_, h.told⟩
    intro phase member
    rcases List.mem_append.mp member with old | new
    · exact h.backed phase old
    · rw [List.mem_singleton.mp new]
      exact orderly
  | advance i fault =>
    obtain ⟨phase, found, done⟩ := Option.bind_eq_some_iff.mp step
    exact h.advance found orderly done
  | restart =>
    have whole := h.wellFormed _ h.saved
    have same : s.versions.file.load clean = s.versions.file := whole.load_eq
    cases step
    rw [same]
    exact ⟨le_rfl, Versions.rising_start _, Versions.always_start whole, nofun, h.told⟩

/-- As long as a schema that was registered before is only answered once the file has it, and no file
    replaces a newer one, an id that a client was told always leads to the same schema and type and is told
    for nothing else, and the versions of each subject count up from 1. -/
theorem schema_ids_permanent (clean : Bytes → Bytes) (validJSON : Bytes → Bool)
    (run : Reaches (fun s event => s.Orderly clean validJSON event) (Steps clean validJSON) opened t) :
    (∀ e ∈ t.told, (t.versions.memory.byID e.id).map (fun found => (found.schema, found.schemaType)) = some (e.schema,
      e.schemaType)) ∧
    (∀ e ∈ t.told, ∀ e' ∈ t.told, e.id = e'.id → (e.subject, e.schema, e.schemaType) = (e'.subject, e'.schema,
      e'.schemaType)) ∧
    ∀ subject, (t.versions.memory.bySubject subject).map (·.version) =
      List.range' 1 (t.versions.memory.bySubject subject).length := by
  have sound : t.Sound clean := run.invariant sound_opened (fun _ _ _ h orderly step => h.step orderly step)
  have whole : t.versions.memory.WellFormed clean := sound.wellFormed _ le_rfl
  have durable := Versions.Rising.file_le sound.rising sound.saved
  have inMemory : ∀ e ∈ t.told, e ∈ t.versions.memory.entries :=
    fun e member => Registry.mem_of_le durable (sound.told e member)
  refine ⟨?_, ?_, whole.counted⟩
  · intro e member
    rw [whole.byID_eq (inMemory e member)]
    rfl
  · intro e member e' member' same
    rw [whole.entry_unique (inMemory e member) (inMemory e' member') same]

instance (s : RegistryRun) (event : RegistryEvent) : Decidable (s.Orderly clean validJSON event) := by
  unfold Orderly
  split
  · infer_instance
  · infer_instance
  · split
    · split <;> infer_instance
    · infer_instance
    · infer_instance

def schemaOf (schema : String) : RegisterRequest := ⟨ascii "orders-value", some (ascii schema, [])⟩

def toAnswer (i : Nat) : List RegistryEvent := [.advance i none, .advance i none, .advance i none, .advance i none]

theorem schema_ids_permanent_two :
    ∃ t, Reaches (fun s event => s.Orderly id (fun _ => true) event) (Steps id fun _ => true) opened t ∧
      t.told.map (fun e => (e.id, e.schema)) = [(1, ascii "1"), (2, ascii "2"), (1, ascii "1")] ∧
      ∀ e ∈ t.told, (t.versions.memory.byID e.id).map (fun found => (found.schema, found.schemaType)) =
        some (e.schema, e.schemaType) := by
  obtain ⟨t, run, told⟩ : ∃ t, Reaches (fun s event => s.Orderly id (fun _ => true) event) (Steps id fun _ => true)
    opened t ∧
      t.told.map (fun e => (e.id, e.schema)) = [(1, ascii "1"), (2, ascii "2"), (1, ascii "1")] :=
    exists_reaches ([.register (schemaOf "1")] ++ toAnswer 0 ++ [.restart, .register (schemaOf "2")] ++ toAnswer 0 ++
      [.register (schemaOf "1"), .advance 1 none]) (fun _ _ _ step => step) (by decide +kernel)
  exact ⟨t, run, told, (schema_ids_permanent id (fun _ => true) run).1⟩

/-- A schema whose write failed is answered when it is sent again, and after a restart its id goes to
    another schema. And where an older snapshot is written last, an id is lost with the next restart. -/
theorem schema_id_reused :
    (∃ t, Reaches (fun _ _ => True) (Steps id fun _ => true) opened t ∧
      t.told.map (fun e => (e.id, e.schema)) = [(1, ascii "2"), (1, ascii "1")]) ∧
    ∃ t, Reaches (fun _ _ => True) (Steps id fun _ => true) opened t ∧
      (2, ascii "2") ∈ t.told.map (fun e => (e.id, e.schema)) ∧ t.versions.memory.byID 2 = none := by
  constructor
  · exact exists_reaches ([.register (schemaOf "1"), .advance 0 none, .advance 0 none,
      .advance 0 (some (.error "disk full")),
      .register (schemaOf "1"), .advance 1 none, .restart, .register (schemaOf "2")] ++ toAnswer 0) (fun _ _ _ step => step)
      (by decide +kernel)
  · exact exists_reaches ([.register (schemaOf "1"), .advance 0 none, .advance 0 none, .register (schemaOf "2")] ++
      toAnswer 1 ++
      [.advance 0 none, .advance 0 none, .restart]) (fun _ _ _ step => step) (by decide +kernel)

end RegistryRun

end PocketKafka.SchemaRegistry
