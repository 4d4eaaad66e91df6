import PocketKafka.Coordinator.ManagerSteps

namespace PocketKafka.Coordinator

open Bytes Runs Protocol

namespace GroupManager

variable {cfg : Config} {gm gm' : GroupManager} {e : ManagerEvent} {fails : Bool} {answer : Option Answer}

def Named (objects : List GroupObject) (o : Nat) (name : Bytes) : Prop :=
  ∃ object, objects[o]? = some object ∧ object.name = name

def Marked (objects : List GroupObject) (o : Nat) : Prop := ∃ object, objects[o]? = some object ∧ object.deleted = true

theorem get_some {name : Bytes} {o : Nat} (found : gm.get name = some o) : gm.groups name = some o :=
  (Option.filter_eq_some_iff.mp found).1

theorem get_none {name : Bytes} {o : Nat} {object : GroupObject} (none : gm.get name = none)
    (mapped : gm.groups name = some o) (found : gm.objects[o]? = some object) : object.deleted = true := by
  rw [get, mapped, Option.filter_eq_none_iff] at none
  have kept := none o rfl
  rw [found] at kept
  simpa using kept

namespace Change

variable {objects : List GroupObject} {groups : Bytes → Option Nat} {seq : Nat}

theorem object (h : Change cfg gm objects groups seq) {o : Nat} {object' : GroupObject}
    (found : objects[o]? = some object') :
    (∃ object, gm.objects[o]? = some object ∧ object'.name = object.name ∧
      (object'.deleted = false → object.deleted = false)) ∨
      o = gm.objects.length ∧ groups object'.name = some o := by
  cases h with
  | same => exact Or.inl ⟨object', found, rfl, id⟩
  | created name none =>
    rcases Nat.lt_or_ge o gm.objects.length with old | new
    · rw [List.getElem?_append_left old] at found
      exact Or.inl ⟨object', found, rfl, id⟩
    · rw [List.getElem?_append_right new, List.getElem?_singleton] at found
      split at found
      · cases found
        have last : o = gm.objects.length := by omega
        subst last
        exact Or.inr ⟨rfl, Function.update_self _ _ _⟩
      · cases found
  | acted before acts =>
    rcases of_getElem?_set found with ⟨rfl, rfl⟩ | ⟨-, old⟩
    · exact Or.inl ⟨_, before, rfl, id⟩
    · exact Or.inl ⟨object', old, rfl, id⟩
  | marked before =>
    rcases of_getElem?_set found with ⟨rfl, rfl⟩ | ⟨-, old⟩
    · exact Or.inl ⟨_, before, rfl, fun clash => Bool.noConfusion clash⟩
    · exact Or.inl ⟨object', old, rfl, id⟩
  | unmapped call mapped => exact Or.inl ⟨object', found, rfl, id⟩
  | released before =>
    rcases of_getElem?_set found with ⟨rfl, rfl⟩ | ⟨-, old⟩
    · exact Or.inl ⟨_, before, rfl, id⟩
    · exact Or.inl ⟨object', old, rfl, id⟩

theorem length (h : Change cfg gm objects groups seq) : gm.objects.length ≤ objects.length := by
  cases h with
  | created name none => simp
  | _ => simp

theorem persists (h : Change cfg gm objects groups seq) {o : Nat} {object : GroupObject}
    (found : gm.objects[o]? = some object) :
    ∃ object', objects[o]? = some object' ∧ object'.name = object.name ∧
      (object.deleted = true → object'.deleted = true) := by
  have bound : o < gm.objects.length := (List.getElem?_eq_some_iff.mp found).1
  obtain ⟨object', after⟩ : ∃ object', objects[o]? = some object' :=
    ⟨_, List.getElem?_eq_getElem (bound.trans_le h.length)⟩
  rcases h.object after with ⟨before, same, name, live⟩ | ⟨last, -⟩
  · rw [found] at same
    cases same
    refine ⟨object', after, name, fun marked => ?_⟩
    by_contra clean
    rw [live (Bool.eq_false_iff.mpr clean)] at marked
    cases marked
  · omega

theorem named (h : Change cfg gm objects groups seq) {o : Nat} {name : Bytes} (before : Named gm.objects o name) :
    Named objects o name := by
  obtain ⟨object, found, rfl⟩ := before
  obtain ⟨object', after, same, -⟩ := h.persists found
  exact ⟨object', after, same⟩

theorem stays_marked (h : Change cfg gm objects groups seq) {o : Nat} (before : Marked gm.objects o) : Marked objects o := by
  obtain ⟨object, found, marked⟩ := before
  obtain ⟨object', after, -, stays⟩ := h.persists found
  exact ⟨object', after, stays marked⟩

end Change

def CallWired (objects : List GroupObject) : Call → Prop
  | .lookup _ | .create _ | .syncWait _ _ _ | .reap _ _ => True
  | .serve request o => Named objects o request.name
  | .joinWait req _ o => Named objects o req.group
  | .unmap _ o | .eraseOffsets _ o => Marked objects o

structure Wired (gm : GroupManager) : Prop where
  live : ∀ o object, gm.objects[o]? = some object → object.deleted = false → gm.groups object.name = some o
  mapped : ∀ name o, gm.groups name = some o → Named gm.objects o name
  calls : ∀ call ∈ gm.calls, CallWired gm.objects call

theorem wired_start (now : Time) : (start now).Wired := by
  constructor
  · exact fun o object found => by cases found
  · exact fun name o clash => by cases clash
  · exact fun call member => absurd member List.not_mem_nil

theorem Wired.live_change {objects : List GroupObject} {groups : Bytes → Option Nat} {seq : Nat} (h : gm.Wired)
    (change : Change cfg gm objects groups seq) {o : Nat} {object' : GroupObject} (found : objects[o]? = some object')
    (clean : object'.deleted = false) : groups object'.name = some o := by
  rcases change.object found with ⟨object, before, name, live⟩ | ⟨-, new⟩
  · have old := h.live o object before (live clean)
    rw [← name] at old
    cases change with
    | created made none =>
      -- had the new object taken this name, the old one would be marked
      have other : object'.name ≠ made := by
        rintro rfl
        have marked := get_none none old before
        rw [live clean] at marked
        cases marked
      rw [Function.update_of_ne other]
      exact old
    | @unmapped gone _ call mapped =>
      have other : object'.name ≠ gone := by
        rintro rfl
        rw [mapped] at old
        cases old
        obtain ⟨marked, same, deleted⟩ := h.calls _ call
        rw [before] at same
        cases same
        rw [live clean] at deleted
        cases deleted
      rw [Function.update_of_ne other]
      exact old
    | _ => exact old
  · exact new

theorem Wired.mapped_change {objects : List GroupObject} {groups : Bytes → Option Nat} {seq : Nat} (h : gm.Wired)
    (change : Change cfg gm objects groups seq) {name : Bytes} {o : Nat} (mapped : groups name = some o) :
    Named objects o name := by
  cases change with
  | created made none =>
    by_cases same : name = made
    · subst same
      rw [Function.update_self] at mapped
      cases mapped
      exact ⟨_, List.getElem?_concat_length, rfl⟩
    · rw [Function.update_of_ne same] at mapped
      exact (Change.created made none : Change cfg gm _ _ _).named (h.mapped name o mapped)
  | unmapped call old =>
    rw [Function.update_apply] at mapped
    split at mapped
    · cases mapped
    · exact h.mapped name o mapped
  | same => exact h.mapped name o mapped
  | acted found acts => exact (Change.acted found acts).named (h.mapped name o mapped)
  | marked found => exact (Change.marked found : Change cfg gm _ _ _).named (h.mapped name o mapped)
  | released found => exact (Change.released found : Change cfg gm _ _ _).named (h.mapped name o mapped)

def OutcomeWired (objects : List GroupObject) : Outcome → Prop
  | .continues call => CallWired objects call
  | .returns _ => True

theorem Wired.lookup (h : gm.Wired) (request : GroupRequest) : OutcomeWired gm.objects (gm.lookup request) := by
  have found : ∀ o, gm.get request.name = some o → Named gm.objects o request.name :=
    fun o got => h.mapped _ _ (get_some got)
  cases request with
  | heartbeat req | leave req | join req | sync req | commit req =>
    unfold GroupManager.lookup
    dsimp only
    split
    · rename_i o got
      exact found o got
    · exact trivial
  | delete name =>
    unfold GroupManager.lookup
    dsimp only
    split
    · rename_i o got
      exact h.mapped name o got
    · exact trivial

theorem joinOutcome_wired {objects : List GroupObject} {req : JoinGroupRequest} {o : Nat} (named : Named objects o req.group)
    (result : JoinOutcome) : OutcomeWired objects (joinOutcome req o result) := by
  cases result with
  | returned resp expelled => exact trivial
  | waiting wait => exact named

theorem syncOutcome_wired {objects : List GroupObject} {req : SyncGroupRequest} {o : Nat} (result : SyncOutcome) :
    OutcomeWired objects (syncOutcome req o result) := by
  cases result <;> exact trivial

theorem Wired.outcome (h : gm.Wired) {call : Call} {result : Outcome × GroupManager} (pending : call ∈ gm.calls)
    (done : gm.advance cfg fails call = some result) : OutcomeWired result.2.objects result.1 := by
  have wired := h.calls call pending
  have change := advance_change pending done
  cases call with
  | lookup request =>
    cases done
    exact h.lookup request
  | create request =>
    cases done
    unfold getOrCreate
    split
    · rename_i o got
      exact h.mapped _ _ (get_some got)
    · exact ⟨_, List.getElem?_concat_length, rfl⟩
  | serve request o =>
    have named := change.named wired
    obtain ⟨object, found, -, served⟩ := locked_some done
    cases served
    cases request with
    | join req => exact joinOutcome_wired named _
    | sync req => exact syncOutcome_wired _
    | heartbeat req => exact trivial
    | leave req => exact trivial
    | commit req =>
      unfold GroupManager.serve
      dsimp only
      split <;> exact trivial
    | delete name =>
      unfold GroupManager.serve
      dsimp only
      split
      · exact trivial
      · exact ⟨_, List.getElem?_set_self (List.getElem?_eq_some_iff.mp found).1, rfl⟩
  | joinWait req wait o =>
    have named := change.named wired
    obtain ⟨object, found, -, served⟩ := locked_some done
    split at served
    · cases served
      exact joinOutcome_wired named _
    · cases served
  | syncWait req wait o =>
    obtain ⟨object, found, -, served⟩ := locked_some done
    split at served
    · cases served
      exact syncOutcome_wired _
    · cases served
  | unmap name o =>
    have marked := change.stays_marked wired
    cases done
    exact marked
  | eraseOffsets name o =>
    unfold advance at done
    dsimp only at done
    split at done
    · cases done
    · cases done
      exact trivial
  | reap seen o =>
    obtain ⟨object, found, -, served⟩ := locked_some done
    cases served
    exact trivial

theorem CallWired.persists {objects : List GroupObject} {groups : Bytes → Option Nat} {seq : Nat} {call : Call}
    (wired : CallWired gm.objects call) (change : Change cfg gm objects groups seq) : CallWired objects call := by
  cases call with
  | lookup | create | syncWait | reap => exact trivial
  | serve request o => exact change.named wired
  | joinWait req wait o => exact change.named wired
  | unmap name o => exact change.stays_marked wired
  | eraseOffsets name o => exact change.stays_marked wired

@[simp] theorem serve_calls {o : Nat} {object : GroupObject} {request : GroupRequest} :
    (gm.serve cfg o object fails request).2.calls = gm.calls := by
  cases request with
  | commit req | delete name =>
    unfold GroupManager.serve
    dsimp only
    split <;> rfl
  | _ => rfl

theorem advance_calls {call : Call} {result : Outcome × GroupManager} (done : gm.advance cfg fails call = some result) :
    result.2.calls = gm.calls := by
  cases call with
  | lookup request =>
    cases done
    rfl
  | create request =>
    cases done
    unfold getOrCreate
    split <;> rfl
  | serve request o =>
    obtain ⟨object, found, -, served⟩ := locked_some done
    cases served
    exact serve_calls
  | joinWait req wait o | syncWait req wait o =>
    obtain ⟨object, found, -, served⟩ := locked_some done
    split at served
    · cases served
      rfl
    · cases served
  | unmap name o =>
    cases done
    dsimp only
    split <;> rfl
  | eraseOffsets name o =>
    unfold advance at done
    dsimp only at done
    split at done
    · cases done
    · cases done
      rfl
  | reap seen o =>
    obtain ⟨object, found, -, served⟩ := locked_some done
    cases served
    rfl

theorem mem_conclude {i : Nat} {result : Outcome × GroupManager} {call : Call}
    (member : call ∈ (conclude i result).1.calls) : call ∈ result.2.calls ∨ result.1 = .continues call := by
  obtain ⟨outcome, mid⟩ := result
  cases outcome with
  | continues next =>
    rcases List.mem_or_eq_of_mem_set member with old | rfl
    · exact Or.inl old
    · exact Or.inr rfl
  | returns answer => exact Or.inl (List.mem_of_mem_eraseIdx member)

theorem Wired.step (h : gm.Wired) (step : gm.Steps cfg e gm') : gm'.Wired := by
  have change := step.change
  refine ⟨fun o object found clean => h.live_change change found clean, fun name o => h.mapped_change change, ?_⟩
  intro call member
  obtain ⟨answer, done⟩ := step
  cases e with
  | tick passed =>
    cases done
    exact h.calls call member
  | call request =>
    cases done
    rcases List.mem_append.mp member with old | single
    · exact h.calls call old
    · rw [List.mem_singleton.mp single]
      exact trivial
  | reapExpiredSessions =>
    cases done
    rcases List.mem_append.mp member with old | new
    · exact h.calls call old
    · obtain ⟨o, -, rfl⟩ := List.mem_map.mp new
      exact trivial
  | advance i fails =>
    obtain ⟨own, result, pending, advanced, rfl, -⟩ := perform_advance done
    rcases mem_conclude member with old | left
    · rw [advance_calls advanced] at old
      exact (h.calls call old).persists change
    · have outcome := h.outcome (List.mem_of_getElem? pending) advanced
      rw [left, ← conclude_objects i] at outcome
      exact outcome

end GroupManager

end PocketKafka.Coordinator
